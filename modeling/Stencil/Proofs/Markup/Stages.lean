import Mathlib.Logic.Relation
import Mathlib.Tactic.Lemma
import Stencil.Proofs.Markup.Places

/-!
# Reading a template stage by stage

Reading a template goes from line to line, and through each line in steps. A step takes in the
piece that it completes. At the end of a line, a comment that is open is carried to the next line;
outside of all tags, the row is complete. There is no way on from a stage at which reading stops.

## Main definitions

* `Stage` — a stage of reading: what was taken in, and what is left of the template.
* `Stage.Goes`, `Stage.Leads` — how reading goes on from a stage, once and any number of times.
* `Stage.IsReached` — the stages that reading a template comes to.
* `Stage.upcoming` — the pieces that lexing still finds from a stage on.

## Main results

* `Stage.Goes.unique` — reading goes on in one way.
* `Stage.IsReached.pieces_append_upcoming` — the pieces of a template, told from a stage.
* `Stage.IsReached.ofText_eq` — what reading a template yields, told from a stage.
* `Stage.exists_isReached_end` — reading that does not stop comes to the end of the template.
-/

namespace Stencil.Markup

open Stencil.Text

/-- A stage of reading a template. -/
structure Stage where
  /-- The pieces that were taken in. -/
  pieces : List Piece
  /-- The rows that are complete. -/
  rows : List Row
  reader : Reader
  /-- What is left of the line, unless reading stands between two lines. -/
  rest : Option (List Char)
  /-- The lines that follow. -/
  later : List (List Char)

namespace Stage

/-- The stage at which reading a template begins. -/
def start (cs : List Char) : Stage := ⟨[], [], .initial, none, lines cs⟩

/-- The ways in which reading goes on. -/
inductive Goes : Stage → Stage → Prop where
  /-- The next line is begun. -/
  | enter {ps : List Piece} {rows : List Row} {r : Reader} {line : List Char}
      {more : List (List Char)} :
      Goes ⟨ps, rows, r, none, line :: more⟩ ⟨ps, rows, r, some line, more⟩
  /-- A step through the line is made. -/
  | scan {ps : List Piece} {rows : List Row} {r r' : Reader} {rest : List Char}
      {more : List (List Char)} (hne : rest ≠ [])
      (haccept : (r.scanned rest).accept? (r.scanner.next rest).2.1 = .ok r') :
      Goes ⟨ps, rows, r, some rest, more⟩
        ⟨ps ++ (r.scanner.next rest).2.1.toList, rows, r', some (r.scanner.next rest).2.2, more⟩
  /-- The line ends inside of a comment. -/
  | carry {ps : List Piece} {rows : List Row} {r : Reader} {t : OpenTag}
      {more : List (List Char)} (hinside : r.scanner.inside = some t)
      (hcomment : t.isComment = true) :
      Goes ⟨ps, rows, r, some [], more⟩ ⟨ps, rows, r, none, more⟩
  /-- The line ends outside of all tags. -/
  | finish {ps : List Piece} {rows : List Row} {r : Reader} {more : List (List Char)}
      (houtside : r.scanner.inside = none) :
      Goes ⟨ps, rows, r, some [], more⟩
        ⟨ps, rows ++ [r.row], { r with recent := [] }, none, more⟩

/-- Reading goes on from one stage to the other, in any number of steps. -/
def Leads : Stage → Stage → Prop := Relation.ReflTransGen Goes

/-- The stages that reading a template comes to. -/
def IsReached (m : Stage) (cs : List Char) : Prop := (start cs).Leads m

variable {m m' m'' : Stage} {cs : List Char}

/-- **Reading goes on in one way.** -/
theorem Goes.unique (h : Goes m m') (h' : Goes m m'') : m' = m'' := by
  cases h with
  | enter =>
    cases h'
    rfl
  | scan hne haccept =>
    cases h' with
    | scan _ haccept' => rw [Except.ok.inj (haccept.symm.trans haccept')]
    | carry => exact absurd rfl hne
    | finish => exact absurd rfl hne
  | carry hinside =>
    cases h' with
    | scan hne => exact absurd rfl hne
    | carry => rfl
    | finish houtside =>
      rw [hinside] at houtside
      cases houtside
  | finish houtside =>
    cases h' with
    | scan hne => exact absurd rfl hne
    | carry hinside =>
      rw [hinside] at houtside
      cases houtside
    | finish => rfl

namespace Leads

/-- Nothing is done. -/
lemma refl : m.Leads m := Relation.ReflTransGen.refl

/-- One step. -/
lemma of_goes (h : Goes m m') : m.Leads m' := Relation.ReflTransGen.single h

/-- One step and then others. -/
lemma head (h : Goes m m') (hrest : m'.Leads m'') : m.Leads m'' :=
  Relation.ReflTransGen.head h hrest

/-- Two parts of the way. -/
lemma trans (h : m.Leads m') (h' : m'.Leads m'') : m.Leads m'' := Relation.ReflTransGen.trans h h'

/-- Where no way leads on, reading stays. -/
lemma eq_of_stuck (h : m.Leads m') (hstuck : ∀ m'', ¬Goes m m'') : m' = m := by
  cases Relation.ReflTransGen.cases_head h with
  | inl heq => exact heq.symm
  | inr hgoes =>
    obtain ⟨m₁, hm₁, -⟩ := hgoes
    exact absurd hm₁ (hstuck m₁)

/-- All that is reached behind a step lies on the way from there on. -/
lemma of_goes_of_ne (h : m.Leads m') (hgoes : Goes m m'') (hne : m' ≠ m) : m''.Leads m' := by
  cases Relation.ReflTransGen.cases_head h with
  | inl heq => exact absurd heq.symm hne
  | inr hhead =>
    obtain ⟨m₁, hm₁, hrest⟩ := hhead
    rwa [hgoes.unique hm₁]

end Leads

/-! ## What is still to come -/

/-- The pieces that lexing still finds from a stage on, whether or not they can be taken in. -/
def upcoming (m : Stage) : List Piece :=
  (m.reader.lexer.lexLine (m.rest.getD [])).1 ++
    ((m.reader.lexer.lexLine (m.rest.getD [])).2.lexLines m.later).1

/-- The lexer behind what was taken in. -/
lemma lexer_of_accept? {r r' : Reader} {rest : List Char} {piece : Option Piece}
    (h : (r.scanned rest).accept? piece = .ok r') :
    r'.lexer = (r.lexer.scanned rest).behind piece := by
  rw [Reader.accept?_scanned] at h
  cases hfold : piece.toList.foldlM Piece.takeIn r.opened with
  | error fault =>
    rw [hfold] at h
    cases h
  | ok opened =>
    rw [hfold] at h
    cases h
    rfl

/-- What is found in all stays the same. -/
lemma Goes.pieces_append_upcoming (h : Goes m m') :
    m.pieces ++ m.upcoming = m'.pieces ++ m'.upcoming := by
  cases h with
  | enter => simp [upcoming, Lexer.lexLines]
  | @scan ps rows r r' rest more hne haccept =>
    have hlexer := lexer_of_accept? haccept
    simp only [upcoming, Option.getD_some]
    rw [Lexer.lexLine_of_ne_nil _ hne, hlexer, List.append_assoc, List.append_assoc]
    rfl
  | carry => rfl
  | finish => rfl

/-- **The pieces of a template, told from a stage**: those that were taken in, and those that lexing
still finds. -/
theorem IsReached.pieces_append_upcoming (h : m.IsReached cs) :
    m.pieces ++ m.upcoming = lexedPieces cs := by
  induction h with
  | refl => simp [start, upcoming, Reader.initial, Reader.lexer, lexedPieces, Lexer.initial]
  | tail _ hgoes ih => rw [← hgoes.pieces_append_upcoming, ih]

/-! ## What reading yields -/

/-- Reading goes on from a stage as a reader does that is about to read some lines: it stands in
front of them, or it has read a part of the first one. -/
inductive Continues : Stage → Reader → List (List Char) → Prop where
  | between {ps : List Piece} {rows : List Row} {r : Reader} {later : List (List Char)} :
      Continues ⟨ps, rows, r, none, later⟩ r later
  | within {ps : List Piece} {rows : List Row} {r r' : Reader} {line rest : List Char}
      {later : List (List Char)} (hread : r.readLine line = r'.readLine rest) :
      Continues ⟨ps, rows, r', some rest, later⟩ r (line :: later)

/-- A reading with further rows in front. -/
def afterRows (rows : List Row) (reading : Reading) : Reading :=
  { reading with rows := rows ++ reading.rows }

/-- Nothing is left of the line. -/
lemma readLine_nil (r : Reader) : r.readLine [] = .ok r := by
  rw [Reader.readLine, dif_pos rfl]

/-- What is read from a stage on stays the same. -/
lemma Goes.continues {r : Reader} {lns : List (List Char)} (h : Goes m m')
    (hm : m.Continues r lns) :
    ∃ r' lns', m'.Continues r' lns' ∧
      afterRows m.rows (r.readLines lns) = afterRows m'.rows (r'.readLines lns') := by
  cases h with
  | enter =>
    cases hm
    exact ⟨_, _, .within rfl, rfl⟩
  | scan hne haccept =>
    obtain - | ⟨hread⟩ := hm
    refine ⟨_, _, .within (hread.trans ?_), rfl⟩
    rw [Reader.readLine, dif_neg hne]
    simp only [haccept]
  | @carry ps rows r' t more hinside hcomment =>
    obtain - | ⟨hread⟩ := hm
    rw [readLine_nil] at hread
    refine ⟨r', more, .between, ?_⟩
    rw [Reader.readLines]
    simp only [hread, hinside, hcomment, if_true]
  | @finish ps rows r' more houtside =>
    obtain - | ⟨hread⟩ := hm
    rw [readLine_nil] at hread
    refine ⟨{ r' with recent := [] }, more, .between, ?_⟩
    rw [Reader.readLines]
    simp only [hread, houtside, afterRows, List.append_assoc, List.singleton_append]

/-- **What reading a template yields, told from a stage**: the rows that are complete, and what is
read from there on. -/
theorem IsReached.ofText_eq (h : m.IsReached cs) :
    ∃ r lns, m.Continues r lns ∧ Reading.ofText cs = afterRows m.rows (r.readLines lns) := by
  induction h with
  | refl => exact ⟨.initial, lines cs, .between, rfl⟩
  | tail _ hgoes ih =>
    obtain ⟨r, lns, hm, hread⟩ := ih
    obtain ⟨r', lns', hm', heq⟩ := hgoes.continues hm
    exact ⟨r', lns', hm', hread.trans heq⟩

/-- The rows that are complete are rows of the template. -/
lemma IsReached.rows_prefix (h : m.IsReached cs) : m.rows <+: (Reading.ofText cs).rows := by
  obtain ⟨r, lns, -, hread⟩ := h.ofText_eq
  rw [hread]
  exact List.prefix_append _ _

/-- A line that is read is gone through in steps. -/
lemma exists_leads_of_readLine {r r' : Reader} {rest : List Char} (h : r.readLine rest = .ok r')
    (ps : List Piece) (rows : List Row) (more : List (List Char)) :
    ∃ ps', Leads ⟨ps, rows, r, some rest, more⟩ ⟨ps', rows, r', some [], more⟩ := by
  fun_induction Reader.readLine r rest generalizing ps with
  | case1 r =>
    cases h
    exact ⟨ps, .refl⟩
  | case2 r rest hne step fault hfault => cases h
  | case3 r rest hne step r₁ haccept ih =>
    obtain ⟨ps', hleads⟩ := ih h (ps ++ step.2.1.toList)
    exact ⟨ps', hleads.head (.scan hne haccept)⟩

/-- Reading lines that does not stop comes to their end. -/
lemma exists_leads_of_readLines {r : Reader} {lns : List (List Char)} {spans : List Span}
    (h : (r.readLines lns).ending = .ok spans)
    (hrow : r.scanner.inside = none → r.recent = []) (ps : List Piece) (rows : List Row) :
    ∃ ps' r', Leads ⟨ps, rows, r, none, lns⟩ ⟨ps', rows ++ (r.readLines lns).rows, r', none, []⟩ ∧
      r'.recent = [] ∧ r'.opened = spans := by
  induction lns generalizing r ps rows with
  | nil =>
    rw [Reader.readLines] at h ⊢
    split at h
    · cases h
    · rename_i houtside
      cases h
      simp only [List.append_nil]
      exact ⟨ps, r, .refl, hrow houtside, rfl⟩
  | cons line more ih =>
    rw [Reader.readLines] at h ⊢
    split at h
    · cases h
    · rename_i r₁ hread
      obtain ⟨ps₁, hline⟩ := exists_leads_of_readLine hread ps rows more
      have hbegin := hline.head .enter
      dsimp only
      split at h
      · rename_i t hinside
        split at h
        · rename_i hcomment
          have hcarry := hbegin.trans (.of_goes (.carry hinside hcomment))
          simp only [hcomment, if_true]
          obtain ⟨ps', r', hleads, hend⟩ :=
            ih h (fun houtside => by simp [hinside] at houtside) ps₁ rows
          exact ⟨ps', r', hcarry.trans hleads, hend⟩
        · cases h
      · rename_i houtside
        have hfinish := hbegin.trans (.of_goes (.finish houtside))
        dsimp only
        obtain ⟨ps', r', hleads, hend⟩ := ih h (fun _ => rfl) ps₁ (rows ++ [r₁.row])
        rw [List.append_assoc] at hleads
        exact ⟨ps', r', hfinish.trans hleads, hend⟩

/-- **Reading that does not stop comes to the end of the template**, where all of its rows are
complete. -/
theorem exists_isReached_end {spans : List Span} (h : (Reading.ofText cs).ending = .ok spans) :
    ∃ m : Stage, m.IsReached cs ∧ m.rows = (Reading.ofText cs).rows ∧ m.reader.recent = [] ∧
      m.reader.opened = spans := by
  obtain ⟨ps, r, hleads, hend⟩ := exists_leads_of_readLines h (fun _ => rfl) [] []
  exact ⟨_, hleads, rfl, hend⟩

end Stage

end Stencil.Markup
