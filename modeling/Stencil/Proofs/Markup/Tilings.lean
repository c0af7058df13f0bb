import Mathlib.Data.List.Chain
import Mathlib.Tactic.Lemma
import Stencil.Proofs.Markup.Bytewise
import Stencil.Proofs.Markup.Stages
import Stencil.Proofs.Text.Tilings

/-!
# Pieces side by side

Lexing leaves nothing out. At every stage of reading a template, the part that was gone through is
made of the pieces that were found and of the tag that is open, one behind the other. A tag is
opened by one call of the lexer and completed by another one, maybe many lines later; in between,
its opener and its body so far are pending.

## Main definitions

* `Scanner.Move` — what a step of scanning does.
* `Scanner.pending` — the opener and the body so far of the tag that is open.
* `activeBehind` — the pair that is active behind some pieces.
* `Stage.spans` — the ranges of the pieces and of the tag that is open.
* `Stage.IsTiled` — how the pieces make up the part of the template that was gone through.
* `Stage.yielding` — the stage after a call of the lexer, before its piece is taken in.

## Main results

* `Scanner.exists_move` — the ways in which a step goes.
* `Scanner.Move.pending_append` — a step loses nothing.
* `Stage.IsReached.settled` — what every stage keeps.
* `Stage.exists_end` — reading a template comes to an end.
* `Stage.IsReached.pieces_tile` — the pieces tile what was gone through, and each call goes on.
-/

namespace Stencil.Markup

open Stencil.Text

/-! ## Pieces -/

/-- The pair that is active behind some pieces of a template. -/
def activeBehind (ps : List Piece) : ProperDelimiters :=
  ps.foldl Piece.activeAfter ⟨.standard, Delimiters.standard_isProper⟩

/-- A lexer that stands behind some pieces, and takes in a further one. -/
lemma Lexer.pair_behind {l : Lexer} {ps : List Piece} (h : l.pair = activeBehind ps)
    (piece : Option Piece) : (l.behind piece).pair = activeBehind (ps ++ piece.toList) := by
  cases piece with
  | none => simpa [behind] using h
  | some p =>
    rw [activeBehind, List.foldl_append, ← activeBehind, ← h]
    rfl

namespace Piece

/-- Whether a piece is literal text. -/
def IsText : Piece → Prop
  | text _ _ => True
  | tag _ _ _ _ _ => False

/-- A tag stands between the delimiters of a pair. -/
def IsBetween (d : Delimiters) : Piece → Prop
  | text _ _ => True
  | tag _ triple opener _ closer => opener = d.opening triple ∧ closer = d.closing triple

/-- Two pieces are not both literal text within one line. -/
def Apart (lns : List (List Char)) (p q : Piece) : Prop :=
  p.IsText → q.IsText → ∀ i, ¬(p.span.LiesInLine lns i ∧ q.span.LiesInLine lns i)

end Piece

/-- Pieces from the start of a template on, side by side. None of them is empty, literal text lies
within a line and is divided only where a line ends, and a tag stands between the delimiters that
are active behind the pieces in front of it. -/
structure InPlace (lns : List (List Char)) (ps : List Piece) : Prop where
  spans_eq : ps.map Piece.span = ranges 0 (ps.map Piece.content)
  content_ne_nil : ∀ p ∈ ps, p.content ≠ []
  in_line : ∀ p ∈ ps, p.IsText → ∃ i, p.span.LiesInLine lns i
  apart : ps.IsChain (Piece.Apart lns)
  between : ∀ front p back, ps = front ++ p :: back → p.IsBetween (activeBehind front).val

namespace InPlace

variable {lns : List (List Char)} {ps : List Piece} {p : Piece}

/-- No pieces. -/
lemma nil (lns : List (List Char)) : InPlace lns [] :=
  ⟨rfl, by simp, by simp, .nil, by simp⟩

/-- One more piece. -/
lemma append (h : InPlace lns ps) (hstart : p.start = size (ps.flatMap Piece.content))
    (hne : p.content ≠ []) (hline : p.IsText → ∃ i, p.span.LiesInLine lns i)
    (hapart : ∀ q ∈ ps.getLast?, q.Apart lns p) (hbetween : p.IsBetween (activeBehind ps).val) :
    InPlace lns (ps ++ [p]) where
  spans_eq := by
    rw [List.map_append, List.map_append, ranges_append, h.spans_eq, Nat.zero_add,
      ← List.flatMap_def, ← hstart]
    rfl
  content_ne_nil := by simpa [or_imp, forall_and, hne] using h.content_ne_nil
  in_line := by
    intro q hq htext
    rcases List.mem_append.1 hq with hq | hq
    · exact h.in_line q hq htext
    · obtain rfl := List.mem_singleton.1 hq
      exact hline htext
  apart := by
    refine List.isChain_append.2 ⟨h.apart, .singleton p, fun q hq q' hq' => ?_⟩
    obtain rfl := Option.some.inj hq'
    exact hapart q hq
  between := by
    intro front q back heq
    rcases List.eq_nil_or_concat back with rfl | ⟨back, last, rfl⟩
    · obtain ⟨rfl, hpq⟩ := List.append_inj' heq rfl
      obtain rfl : p = q := (List.cons.inj hpq).1
      exact hbetween
    · rw [List.concat_eq_append, ← List.cons_append, ← List.append_assoc] at heq
      exact h.between front q back (List.append_inj' heq rfl).1

/-- A piece lies in front of the offset behind all of them. -/
lemma span_stop_le (h : InPlace lns ps) (hp : p ∈ ps) :
    p.span.stop ≤ size (ps.flatMap Piece.content) := by
  have hrange : p.span ∈ ranges 0 (ps.map Piece.content) :=
    h.spans_eq ▸ List.mem_map_of_mem hp
  simpa [List.flatMap_def] using stop_le_of_mem_ranges hrange

end InPlace

/-! ## Steps of a scanner -/

namespace Scanner

/-- What a step of scanning does: the text that it goes through, what is left of the line, the
piece that it completes, and the scanner afterwards. -/
inductive Move (s : Scanner) : List Char → List Char → Option Piece → Scanner → Prop where
  /-- Literal text up to the next opener, or to the end of the line. -/
  | literal {used left : List Char} (houtside : s.inside = none)
      (hnone : s.delimiters.openerAt (used ++ left) = none)
      (hleft : left ≠ [] → ∃ triple, s.delimiters.openerAt left = some triple) :
      Move s used left (some (.text s.offset used)) { s with offset := s.offset + size used }
  /-- An opener. -/
  | enter {left : List Char} {triple : Bool} (houtside : s.inside = none) :
      Move s (s.delimiters.opening triple) left none
        { s with offset := s.offset + size (s.delimiters.opening triple)
                 inside := some (.ofOpener s.offset triple) }
  /-- A further part of the body. -/
  | extend {used : List Char} {t : OpenTag} (hinside : s.inside = some t) :
      Move s used [] none
        { s with offset := s.offset + size used, inside := some (t.extend used) }
  /-- The end of the body, and the closer. -/
  | close {part left : List Char} {t : OpenTag} (hinside : s.inside = some t) :
      Move s (part ++ s.delimiters.closing t.triple) left
        (some (.tag t.start t.triple (s.delimiters.opening t.triple) (t.body ++ part)
          (s.delimiters.closing t.triple)))
        { s with offset := s.offset + size (part ++ s.delimiters.closing t.triple)
                 inside := none }

/-- What a tag that is open has taken up so far: its opener and a part of its body. -/
def pending (s : Scanner) : List Char :=
  match s.inside with
  | none => []
  | some t => s.delimiters.opening t.triple ++ t.body

/-- What is pending starts at an offset, and the scanner stands behind it. -/
structure PendsFrom (s : Scanner) (n : Nat) : Prop where
  offset_eq : s.offset = n + size s.pending
  start_eq : ∀ t, s.inside = some t → t.start = n

variable {s s' : Scanner} {rest used left : List Char} {piece : Option Piece} {n : Nat}
  {t : OpenTag}

/-- Nothing is pending outside of all tags. -/
lemma pending_of_outside (h : s.inside = none) : s.pending = [] := by
  rw [pending, h]

/-- Inside of a tag, it is pending. -/
lemma pending_of_inside (h : s.inside = some t) :
    s.pending = s.delimiters.opening t.triple ++ t.body := by
  rw [pending, h]

/-- **The ways in which a step goes.** It goes through a part of the line that is not empty. -/
theorem exists_move (hd : s.delimiters.IsProper) (hne : rest ≠ []) :
    ∃ used, used ≠ [] ∧ rest = used ++ (s.next rest).2.2 ∧
      s.Move used (s.next rest).2.2 (s.next rest).2.1 (s.next rest).1 := by
  unfold Scanner.next
  split
  · rename_i houtside
    split
    · rename_i hcut
      have hnone := Delimiters.openerAt_of_cutAtOpener_none hne hcut
      exact ⟨rest, hne, by simp, .literal houtside (by simpa using hnone) (absurd rfl ·)⟩
    · rename_i triple found hcut
      obtain ⟨hall, after, rfl⟩ := Delimiters.cutAtOpener_append hcut
      exact ⟨s.delimiters.opening triple, Delimiters.opening_ne_nil hd triple,
        by simpa using hall.symm, .enter houtside⟩
    · rename_i c before triple found hcut
      obtain ⟨hall, -⟩ := Delimiters.cutAtOpener_append hcut
      have hnone := Delimiters.openerAt_of_cutAtOpener_cons hcut
      rw [← hall] at hnone
      exact ⟨c :: before, List.cons_ne_nil c before, hall.symm, .literal houtside hnone
        fun _ => ⟨triple, Delimiters.openerAt_of_cutAtOpener hcut⟩⟩
  · rename_i t hinside
    split
    · exact ⟨rest, hne, by simp, .extend hinside⟩
    · rename_i part after hcut
      refine ⟨part ++ s.delimiters.closing t.triple, ?_, (cutAt_append hcut).symm, .close hinside⟩
      simp [Delimiters.closing_ne_nil hd]

namespace Move

/-- **A step loses nothing.** What was pending and what the step goes through are the piece that it
completes and what is pending then. -/
theorem pending_append (h : s.Move used left piece s') :
    s.pending ++ used = piece.toList.flatMap Piece.content ++ s'.pending := by
  cases h with
  | literal houtside => simp [pending, houtside, Piece.content]
  | enter houtside => simp [pending, houtside, OpenTag.ofOpener, OpenTag.body]
  | extend hinside =>
    simp only [pending, hinside, Option.toList_none, List.flatMap_nil, List.nil_append,
      OpenTag.body_extend, List.append_assoc]
    rfl
  | close hinside => simp [pending, hinside, Piece.content]

/-- A piece that a step completes starts where what was pending did, and no tag is open then. -/
lemma start_eq (h : s.Move used left piece s') (hs : s.PendsFrom n) :
    ∀ p, piece = some p → p.start = n ∧ s'.inside = none := by
  rintro p rfl
  cases h with
  | literal houtside =>
    have hoffset := hs.offset_eq
    rw [pending_of_outside houtside] at hoffset
    exact ⟨hoffset, houtside⟩
  | close hinside => exact ⟨hs.start_eq _ hinside, rfl⟩

/-- What is pending after a step starts behind the piece that it completes. -/
lemma pendsFrom (h : s.Move used left piece s') (hs : s.PendsFrom n) :
    s'.PendsFrom (n + size (piece.toList.flatMap Piece.content)) := by
  have hsize := congrArg size h.pending_append
  have hoffset := hs.offset_eq
  simp only [size_append] at hsize
  refine ⟨?_, ?_⟩
  · have hmove : s'.offset = s.offset + size used := by cases h <;> rfl
    omega
  · cases h with
    | literal houtside =>
      intro t ht
      rw [show s.inside = some t from ht] at houtside
      cases houtside
    | enter houtside =>
      intro t ht
      obtain rfl := Option.some.inj ht
      rw [pending_of_outside houtside] at hoffset
      simpa [OpenTag.ofOpener, size] using hoffset
    | extend hinside =>
      intro t ht
      obtain rfl := Option.some.inj ht
      simpa [OpenTag.extend, size] using hs.start_eq _ hinside
    | close => rintro t ⟨⟩

/-- A piece that a step completes is not empty. -/
lemma content_ne_nil {p : Piece} (h : s.Move used left (some p) s') (hs : s.PendsFrom n)
    (hne : used ≠ []) : p.content ≠ [] := by
  intro hnil
  have happend := h.pending_append
  rw [pending_of_outside (h.start_eq hs p rfl).2] at happend
  simp [hnil, hne] at happend

/-- Literal text that a step completes is what it goes through, and no opener stands in front. -/
lemma of_isText {p : Piece} (h : s.Move used left (some p) s') (htext : p.IsText) :
    p = .text s.offset used ∧ s.inside = none ∧ s.delimiters.openerAt (used ++ left) = none := by
  cases h with
  | literal houtside hnone => exact ⟨rfl, houtside, hnone⟩
  | close => exact htext.elim

/-- A tag that a step completes stands between the delimiters. -/
lemma isBetween {p : Piece} (h : s.Move used left (some p) s') : p.IsBetween s.delimiters := by
  cases h with
  | literal => trivial
  | close => exact ⟨rfl, rfl⟩

/-- Behind literal text comes an opener, unless the line ends. -/
lemma openerAt_of_isText {p : Piece} (h : s.Move used left (some p) s') (htext : p.IsText)
    (hne : left ≠ []) : ∃ triple, s'.delimiters.openerAt left = some triple := by
  cases h with
  | literal _ _ hleft => exact hleft hne
  | close => exact htext.elim

/-- A step that completes no piece ends inside of a tag. -/
lemma inside_of_none (h : s.Move used left none s') : ∃ t, s'.inside = some t := by
  cases h with
  | enter => exact ⟨_, rfl⟩
  | extend => exact ⟨_, rfl⟩

end Move

/-- The scanner stands behind some pieces and what is pending. -/
lemma PendsFrom.standsBehind {front : List Char} (h : s.PendsFrom (size front)) :
    s.StandsBehind (front ++ s.pending) where
  offset_eq := by rw [h.offset_eq, size_append]
  inside t ht := ⟨front, by rw [pending_of_inside ht], h.start_eq t ht⟩

end Scanner

namespace Stage

variable {m m' : Stage} {cs : List Char} {past : List (List Char)} {used : List Char}

/-- The ranges of the pieces that were found, and that of the tag that is open from its opener to
the offset reached. -/
def spans (m : Stage) : List Span :=
  m.pieces.map Piece.span ++
    (m.reader.scanner.inside.map fun t => ⟨t.start, m.reader.scanner.offset⟩).toList

/-- What is left of the template. -/
def ahead (m : Stage) : List Char := m.rest.getD [] ++ m.later.flatten

/-- How the pieces make up the part of the template that was gone through. -/
structure IsTiled (m : Stage) (cs read : List Char) : Prop where
  read_append : read ++ m.ahead = cs
  offset_eq : m.reader.scanner.offset = size read
  tiles : Tiles 0 m.spans (size read)
  slices : (m.spans.map (·.slice cs)).flatten = read
  covers : ∀ p ∈ m.pieces, p.span.Covers cs p.content
  texts : ∀ p ∈ m.pieces, p.IsText → p.content ≠ [] ∧ ∃ i, p.span.LiesInLine (lines cs) i
  apart : m.pieces.IsChain (Piece.Apart (lines cs))
  /-- A tag is an opener, its body, and a closer. -/
  tags : ∀ front start triple opener body closer back,
    m.pieces = front ++ .tag start triple opener body closer :: back →
      opener = (activeBehind front).val.opening triple ∧
        closer = (activeBehind front).val.closing triple ∧
        Span.Covers ⟨start, start + size opener⟩ cs opener ∧
        Span.Covers ⟨start + size opener, start + size (opener ++ body)⟩ cs body ∧
        Span.Covers ⟨start + size (opener ++ body), start + size (opener ++ body ++ closer)⟩ cs
          closer

/-- The stage after a call of the lexer, before the piece that it found is taken in. -/
def yielding (m : Stage) (rest : List Char) : Stage where
  pieces := m.pieces ++ (m.reader.scanner.next rest).2.1.toList
  rows := m.rows
  reader := m.reader.scanned rest
  rest := some (m.reader.scanner.next rest).2.2
  later := m.later

/-! ## What every stage keeps -/

/-- The lines that were gone through and the part of the line at hand are the pieces and what is
pending, and the pieces are in place. -/
structure Laid (m : Stage) (cs : List Char) (past : List (List Char)) (used : List Char) :
    Prop where
  lines_eq : lines cs = past ++ ((m.rest.map (used ++ ·)).toList ++ m.later)
  between : m.rest = none → used = []
  read_eq : past.flatten ++ used = m.pieces.flatMap Piece.content ++ m.reader.scanner.pending
  pends : m.reader.scanner.PendsFrom (size (m.pieces.flatMap Piece.content))
  in_place : InPlace (lines cs) m.pieces

/-- What is kept at the stages that reading comes to: the active pair is the one behind the pieces,
and behind literal text comes an opener, unless a line begins. -/
structure Settled (m : Stage) (cs : List Char) (past : List (List Char)) (used : List Char) : Prop
    extends m.Laid cs past used where
  pair_eq : m.reader.pair = activeBehind m.pieces
  next : ∀ p ∈ m.pieces.getLast?, p.IsText → m.reader.scanner.inside = none →
    ∀ rest, m.rest = some rest → rest ≠ [] →
      used = [] ∨ ∃ triple, m.reader.scanner.delimiters.openerAt rest = some triple

section move

variable {ps : List Piece} {rows : List Row} {r r' : Reader} {rest left done : List Char}
  {later : List (List Char)} {piece : Option Piece} {p q : Piece} {s' : Scanner}

/-- A piece that a step completes lies behind the other pieces. -/
lemma Laid.span_eq (h : Laid ⟨ps, rows, r, some rest, later⟩ cs past used)
    (hmove : r.scanner.Move done left (some p) s') :
    p.span = ⟨size (ps.flatMap Piece.content),
      size (ps.flatMap Piece.content) + size p.content⟩ := by
  rw [Piece.span, (hmove.start_eq h.pends p rfl).1]

/-- Literal text that a step completes lies within the line. -/
lemma Laid.liesInLine_of_move (h : Laid ⟨ps, rows, r, some rest, later⟩ cs past used)
    (hmove : r.scanner.Move done left (some p) s') (hrest : rest = done ++ left)
    (htext : p.IsText) : p.span.LiesInLine (lines cs) past.length := by
  have hspan := h.span_eq hmove
  obtain ⟨rfl, houtside, -⟩ := hmove.of_isText htext
  have hread := h.read_eq
  rw [Scanner.pending_of_outside houtside, List.append_nil] at hread
  rw [← show past.flatten ++ used = ps.flatMap Piece.content from hread] at hspan
  have hlines : lines cs = past ++ (used ++ done ++ left) :: later := by
    rw [h.lines_eq, hrest]
    simp
  exact .of_append hlines hspan

/-- Literal text that a step completes is apart from the piece in front of it.

**Proof sketch.** Within a line, an opener stands behind literal text, and a step goes into a tag
there. So the step is the first one in the line, and the piece in front of it lies in front of the
line. -/
lemma Settled.apart_of_move (h : Settled ⟨ps, rows, r, some rest, later⟩ cs past used)
    (hmove : r.scanner.Move done left (some q) s') (hdone : done ≠ [])
    (hrest : rest = done ++ left) (hp : p ∈ ps.getLast?) : Piece.Apart (lines cs) p q := by
  rintro htext htext' i ⟨hline, hline'⟩
  have hspan := h.span_eq hmove
  obtain ⟨rfl, houtside, hnone⟩ := hmove.of_isText htext'
  have hne : rest ≠ [] := by simp [hrest, hdone]
  rcases h.next p hp htext houtside rest rfl hne with rfl | ⟨triple, htriple⟩
  · have hread : past.flatten = ps.flatMap Piece.content := by
      simpa [Scanner.pending_of_outside houtside] using h.read_eq
    have hmem : p ∈ ps := List.mem_of_getLast? hp
    have htake : (lines cs).take past.length = past := by
      rw [h.lines_eq, List.take_left]
    have hp_pos := size_pos (h.in_place.content_ne_nil p hmem)
    have hq_pos := size_pos hdone
    refine hline.not_of_between (j := past.length) hline' ?_ ?_ ?_ ?_
    · simpa [Piece.span] using hp_pos
    · simpa [Piece.span, Piece.content] using hq_pos
    · rw [htake, hread]
      exact h.in_place.span_stop_le hmem
    · rw [htake, hread, hspan]
  · rw [hrest, hnone] at htriple
    cases htriple

/-- **A call of the lexer keeps the layout**, whatever becomes of the piece that it finds. -/
theorem Settled.move (h : Settled ⟨ps, rows, r, some rest, later⟩ cs past used)
    (hmove : r.scanner.Move done left piece r'.scanner) (hdone : done ≠ [])
    (hrest : rest = done ++ left) :
    Laid ⟨ps ++ piece.toList, rows, r', some left, later⟩ cs past (used ++ done) := by
  have hread : past.flatten ++ (used ++ done) =
      (ps ++ piece.toList).flatMap Piece.content ++ r'.scanner.pending := by
    rw [List.flatMap_append, List.append_assoc, ← hmove.pending_append, ← List.append_assoc,
      ← List.append_assoc]
    exact congrArg (· ++ done) h.read_eq
  have hlines : lines cs = past ++ ((some left).map (used ++ done ++ ·)).toList ++ later := by
    simpa [hrest] using h.lines_eq
  have hpends := hmove.pendsFrom h.pends
  rw [← size_append, ← List.flatMap_append] at hpends
  refine ⟨by simpa using hlines, by simp, hread, hpends, ?_⟩
  cases piece with
  | none => simpa using h.in_place
  | some p =>
    refine h.in_place.append (hmove.start_eq h.pends p rfl).1 (hmove.content_ne_nil h.pends hdone)
      (fun htext => ⟨_, h.liesInLine_of_move hmove hrest htext⟩)
      (fun q hq => h.apart_of_move hmove hdone hrest hq) ?_
    rw [← h.pair_eq]
    exact hmove.isBetween

/-- The layout does not change when a piece is taken in. -/
lemma Laid.behind {rest : Option (List Char)} (h : Laid ⟨ps, rows, r, rest, later⟩ cs past used)
    (hlexer : r'.lexer = r.lexer.behind piece)
    (hinside : ∀ p, piece = some p → r.scanner.inside = none) :
    Laid ⟨ps, rows, r', rest, later⟩ cs past used := by
  have hscanner : r'.scanner = (r.lexer.behind piece).scanner := congrArg Lexer.scanner hlexer
  cases piece with
  | none =>
    refine ⟨h.lines_eq, h.between, ?_, ?_, h.in_place⟩
    · rw [hscanner]
      exact h.read_eq
    · rw [hscanner]
      exact h.pends
  | some p =>
    have houtside : r'.scanner.inside = none := by
      rw [hscanner]
      exact hinside p rfl
    have hoffset := h.pends.offset_eq
    have hread := h.read_eq
    simp only [Scanner.pending_of_outside (hinside p rfl)] at hread hoffset
    refine ⟨h.lines_eq, h.between, ?_, ⟨?_, fun t ht => ?_⟩, h.in_place⟩
    · rw [Scanner.pending_of_outside houtside]
      exact hread
    · rw [Scanner.pending_of_outside houtside, hscanner]
      exact hoffset
    · rw [houtside] at ht
      cases ht

/-- A step through the line. -/
lemma Settled.scan (h : Settled ⟨ps, rows, r, some rest, later⟩ cs past used) (hne : rest ≠ [])
    (haccept : (r.scanned rest).accept? (r.scanner.next rest).2.1 = .ok r') :
    ∃ used', Settled ⟨ps ++ (r.scanner.next rest).2.1.toList, rows, r',
      some (r.scanner.next rest).2.2, later⟩ cs past used' := by
  obtain ⟨done, hdone, hrest, hmove⟩ := Scanner.exists_move r.proper hne
  have hlexer := lexer_of_accept? haccept
  have hlaid : Laid ⟨ps ++ (r.scanner.next rest).2.1.toList, rows, r.scanned rest,
      some (r.scanner.next rest).2.2, later⟩ cs past (used ++ done) := h.move hmove hdone hrest
  have hinside : ∀ p, (r.scanner.next rest).2.1 = some p →
      (r.scanned rest).scanner.inside = none := fun p hp => (hmove.start_eq h.pends p hp).2
  refine ⟨used ++ done, hlaid.behind hlexer hinside, ?_, ?_⟩
  · have hpair : r'.pair = ((r.lexer.scanned rest).behind (r.scanner.next rest).2.1).pair :=
      congrArg Lexer.pair hlexer
    rw [hpair]
    exact Lexer.pair_behind ((r.lexer.pair_scanned rest).trans h.pair_eq) _
  · intro p hp htext houtside left hleft hnil
    obtain rfl := Option.some.inj hleft
    cases hpiece : (r.scanner.next rest).2.1 with
    | none =>
      -- the step ends inside of a tag
      rw [hpiece] at hmove hlexer
      obtain ⟨t, ht⟩ := hmove.inside_of_none
      have hsame : r'.scanner = (r.scanner.next rest).1 := congrArg Lexer.scanner hlexer
      rw [hsame, ht] at houtside
      cases houtside
    | some q =>
      rw [hpiece] at hmove hlexer
      obtain rfl : q = p := by simpa [hpiece] using hp
      obtain ⟨triple, htriple⟩ := hmove.openerAt_of_isText htext hnil
      obtain ⟨rfl, -⟩ := hmove.of_isText htext
      have hsame : r'.scanner = (r.scanner.next rest).1 := congrArg Lexer.scanner hlexer
      rw [hsame]
      exact .inr ⟨triple, htriple⟩

/-- The end of a line. -/
lemma Settled.lineEnd (h : Settled ⟨ps, rows, r, some [], later⟩ cs past used) {rows' : List Row}
    (hlexer : r'.lexer = r.lexer) :
    Settled ⟨ps, rows', r', none, later⟩ cs (past ++ [used]) [] := by
  have hscanner : r'.scanner = r.scanner := congrArg Lexer.scanner hlexer
  have hlines : lines cs = past ++ (used :: later) := by simpa using h.lines_eq
  refine ⟨⟨by simpa using hlines, fun _ => rfl, ?_, ?_, h.in_place⟩, ?_, by simp⟩
  · rw [hscanner]
    simpa using h.read_eq
  · rw [hscanner]
    exact h.pends
  · exact (congrArg Lexer.pair hlexer).trans h.pair_eq

end move

/-- What is kept, from a stage to the next one. -/
lemma Goes.settled (h : Goes m m') (hm : m.Settled cs past used) :
    ∃ past' used', m'.Settled cs past' used' := by
  cases h with
  | enter =>
    obtain rfl : used = [] := hm.between rfl
    refine ⟨past, [], ⟨?_, by simp, hm.read_eq, hm.pends, hm.in_place⟩, hm.pair_eq,
      fun _ _ _ _ _ _ _ => .inl rfl⟩
    simpa using hm.lines_eq
  | scan hne haccept => exact ⟨past, hm.scan hne haccept⟩
  | carry => exact ⟨_, _, hm.lineEnd rfl⟩
  | finish => exact ⟨_, _, hm.lineEnd rfl⟩

/-- **What every stage keeps.** -/
theorem IsReached.settled (h : m.IsReached cs) : ∃ past used, m.Settled cs past used := by
  induction h with
  | refl =>
    refine ⟨[], [], ⟨by simp [start], fun _ => rfl, rfl, ⟨rfl, ?_⟩, .nil _⟩, rfl, by simp [start]⟩
    rintro t ⟨⟩
  | tail _ hgoes ih =>
    obtain ⟨past, used, hm⟩ := ih
    exact hgoes.settled hm

/-! ## The pieces as a tiling -/

/-- The texts of the pieces that were found, and that of the tag that is open. -/
def parts (m : Stage) : List (List Char) :=
  m.pieces.map Piece.content ++
    (m.reader.scanner.inside.map fun _ => m.reader.scanner.pending).toList

namespace Laid

/-- The texts make up what was gone through. -/
lemma flatten_parts (h : m.Laid cs past used) : m.parts.flatten = past.flatten ++ used := by
  rw [h.read_eq, parts, List.flatten_append, ← List.flatMap_def]
  cases hinside : m.reader.scanner.inside with
  | none => simp [Scanner.pending_of_outside hinside]
  | some t => simp

/-- The ranges are those of the texts. -/
lemma spans_eq (h : m.Laid cs past used) : m.spans = ranges 0 m.parts := by
  rw [spans, parts, ranges_append, h.in_place.spans_eq, Nat.zero_add, ← List.flatMap_def]
  cases hinside : m.reader.scanner.inside with
  | none => rfl
  | some t => simp [ranges, h.pends.offset_eq, h.pends.start_eq t hinside]

/-- None of the texts is empty. -/
lemma parts_ne_nil (h : m.Laid cs past used) : ∀ part ∈ m.parts, part ≠ [] := by
  intro part hpart
  rcases List.mem_append.1 hpart with hpart | hpart
  · obtain ⟨p, hp, rfl⟩ := List.mem_map.1 hpart
    exact h.in_place.content_ne_nil p hp
  · obtain ⟨t, ht, rfl⟩ := Option.map_eq_some_iff.1 (Option.mem_toList.1 hpart)
    simp [Scanner.pending_of_inside ht, Delimiters.opening_ne_nil m.reader.proper]

/-- What was gone through and what is left make up the template. -/
lemma read_append (h : m.Laid cs past used) : past.flatten ++ used ++ m.ahead = cs := by
  rw [← lines_flatten cs, h.lines_eq, ahead]
  cases hrest : m.rest with
  | none => simp [h.between hrest]
  | some rest => simp

/-- The pieces cover what they hold. -/
lemma covers (h : m.Laid cs past used) : ∀ p ∈ m.pieces, p.span.Covers cs p.content := by
  have hcs :
      (m.pieces.map Piece.content).flatten ++ (m.reader.scanner.pending ++ m.ahead) = cs := by
    rw [← List.flatMap_def, ← List.append_assoc, ← h.read_eq, h.read_append]
  have hcovers := covers_ranges [] (m.reader.scanner.pending ++ m.ahead)
    (m.pieces.map Piece.content)
  rw [List.nil_append, hcs] at hcovers
  rw [show size [] = 0 from rfl, ← h.in_place.spans_eq, List.forall₂_map_left_iff,
    List.forall₂_map_right_iff, List.forall₂_same] at hcovers
  exact hcovers

/-- **The pieces make up the part of the template that was gone through.** -/
theorem isTiled (h : m.Laid cs past used) : m.IsTiled cs (past.flatten ++ used) where
  read_append := h.read_append
  offset_eq := by rw [h.pends.offset_eq, ← size_append, h.read_eq]
  tiles := by
    have htiles := tiles_ranges 0 h.parts_ne_nil
    rwa [Nat.zero_add, h.flatten_parts, ← h.spans_eq] at htiles
  slices := by
    have hslices := map_slice_ranges [] m.ahead m.parts
    rw [List.nil_append, h.flatten_parts, h.read_append, show size [] = 0 from rfl,
      ← h.spans_eq] at hslices
    rw [hslices, h.flatten_parts]
  covers := h.covers
  texts p hp htext := ⟨h.in_place.content_ne_nil p hp, h.in_place.in_line p hp htext⟩
  apart := h.in_place.apart
  tags := by
    intro front start triple opener body closer back heq
    obtain ⟨hopener, hcloser⟩ := h.in_place.between front _ back heq
    have hmem : .tag start triple opener body closer ∈ m.pieces := by simp [heq]
    obtain ⟨before, behind, hcs, hspan⟩ := h.covers _ hmem
    obtain rfl : start = size before := congrArg Span.start hspan
    refine ⟨hopener, hcloser, ⟨before, body ++ closer ++ behind, ?_, ?_⟩,
      ⟨before ++ opener, closer ++ behind, ?_, ?_⟩,
      ⟨before ++ opener ++ body, behind, ?_, ?_⟩⟩
    all_goals simp [hcs, Piece.content]

end Laid

/-! ## Every call goes on -/

/-- A bound on the number of steps that are still to be made: two for each line, and one for each
character. -/
def weight (m : Stage) : Nat :=
  2 * m.later.length + m.later.flatten.length + (m.rest.map fun rest => rest.length + 1).getD 0

/-- Every step leaves less. -/
lemma Goes.weight_lt (h : Goes m m') : m'.weight < m.weight := by
  cases h with
  | enter =>
    simp [weight]
    omega
  | @scan ps rows r r' rest more hne haccept =>
    have hlt := Scanner.next_length_lt r.scanner r.proper hne
    simp [weight]
    omega
  | carry => simp [weight]
  | finish => simp [weight]

/-- **Reading a template comes to an end**, since there is less to do after each step. -/
theorem exists_end (m : Stage) : ∃ m', m.Leads m' ∧ ∀ m'', ¬Goes m' m'' := by
  induction hweight : m.weight using Nat.strong_induction_on generalizing m with
  | _ n ih =>
    subst hweight
    by_cases hgoes : ∃ m', Goes m m'
    · obtain ⟨m', hgoes⟩ := hgoes
      obtain ⟨last, hleads, hstuck⟩ := ih m'.weight hgoes.weight_lt m' rfl
      exact ⟨last, hleads.head hgoes, hstuck⟩
    · exact ⟨m, .refl, fun m' hm' => hgoes ⟨m', hm'⟩⟩

/-- **The pieces tile what was gone through, and each call goes on.** At every stage, the part of
the template that was gone through is made of the pieces that were found and of the tag that is
open, from its opener on, side by side and without overlap. Literal text is never empty, it lies
within a line and is divided only where a line ends, and a tag is an opener, its body, and a
closer, of the pair that is active there. As long as the line at hand does not end, a call of the
lexer makes no bad cut, and goes to a further offset of this line; the pieces tile what was gone
through then, even if the new one cannot be taken in. So reading comes to an end.

**Proof sketch.** A step keeps what is pending together with the pieces, and a piece starts where
what was pending did. The other facts about the new piece are facts about the step, save that
there is no literal text in front of literal text in the same line; this is so since a step that
ends in front of an opener is followed by one that goes into the tag. -/
theorem IsReached.pieces_tile (h : m.IsReached cs) :
    ∃ past used, lines cs = past ++ ((m.rest.map (used ++ ·)).toList ++ m.later) ∧
      m.IsTiled cs (past.flatten ++ used) ∧
      (∀ rest, m.rest = some rest → rest ≠ [] →
        ∃ done left, rest = done ++ left ∧ (m.yielding rest).rest = some left ∧
          m.reader.scanner.marked.parse (used ++ rest) (size past.flatten) (size used) =
            .ok ((m.yielding rest).reader.scanner.marked, size (used ++ done),
              (m.reader.scanner.next rest).2.1.map Piece.marked) ∧
          size used < size (used ++ done) ∧ size (used ++ done) ≤ size (used ++ rest) ∧
          (m.yielding rest).IsTiled cs (past.flatten ++ (used ++ done))) ∧
      ∃ m', m.Leads m' ∧ ∀ m'', ¬Goes m' m'' := by
  obtain ⟨past, used, hm⟩ := h.settled
  refine ⟨past, used, hm.lines_eq, hm.isTiled, fun rest hrest hne => ?_, m.exists_end⟩
  obtain ⟨ps, rows, r, rest', later⟩ := m
  obtain rfl : rest' = some rest := hrest
  obtain ⟨done, hdone, hdivide, hmove⟩ := Scanner.exists_move r.proper hne
  have hstands : r.scanner.StandsBehind (past.flatten ++ used) :=
    hm.read_eq ▸ hm.pends.standsBehind
  have hparse := ByteLexer.parse_marked r.proper hstands hne hdivide
  have hpos := size_pos hdone
  have hle := congrArg size hdivide
  rw [size_append] at hle
  refine ⟨done, _, hdivide, rfl, hparse, ?_, ?_, ?_⟩
  · rw [size_append]
    omega
  · rw [size_append, size_append]
    omega
  · have hlaid : (yielding ⟨ps, rows, r, some rest, later⟩ rest).Laid cs past (used ++ done) :=
      hm.move hmove hdone hdivide
    exact hlaid.isTiled

/-- A comment that is carried to the next line, in front of the call that completes it. -/
theorem pieces_tile_on_carried_comment :
    ∃ (m : Stage) (past : List (List Char)) (used : List Char) (scanner : ByteLexer) (stop : Nat),
      m.IsReached "a\x7b\x7b!b\nc\x7d\x7d".toList ∧ m.spans = [⟨0, 1⟩, ⟨1, 6⟩] ∧
        m.IsTiled "a\x7b\x7b!b\nc\x7d\x7d".toList (past.flatten ++ used) ∧
        m.reader.scanner.marked.parse (used ++ "c\x7d\x7d".toList) (size past.flatten)
          (size used) = .ok (scanner, stop, some (.tag false ⟨3, 7⟩ ⟨1, 9⟩)) ∧
        size used < stop ∧ (m.yielding "c\x7d\x7d".toList).spans = [⟨0, 1⟩, ⟨1, 9⟩] := by
  let cs := "a\x7b\x7b!b\nc\x7d\x7d".toList
  let line := "a\x7b\x7b!b\n".toList
  let last := "c\x7d\x7d".toList
  let t : OpenTag := (OpenTag.ofOpener 1 false).extend ['!', 'b', '\n']
  let r : Reader := ⟨⟨.standard, 6, some t⟩, Delimiters.standard_isProper, [], [.text ['a']]⟩
  have hread : Reader.initial.readLine line = .ok r := by decide +kernel
  obtain ⟨ps, hline⟩ := exists_leads_of_readLine hread [] [] [last]
  let m : Stage := ⟨ps, [], r, some last, []⟩
  have hbegin : Goes (start cs) ⟨[], [], .initial, some line, [last]⟩ := .enter
  have hcarry : Goes ⟨ps, [], r, some [], [last]⟩ ⟨ps, [], r, none, [last]⟩ :=
    .carry (t := t) rfl (by decide)
  have hm : m.IsReached cs := (hline.head hbegin).trans (.head hcarry (.of_goes .enter))
  have hps : ps = [.text 0 ['a']] := by
    have hall : ps ++ upcoming ⟨[], [], r, some last, []⟩ = lexedPieces cs :=
      hm.pieces_append_upcoming
    have hpieces : lexedPieces cs = [.text 0 ['a']] ++ upcoming ⟨[], [], r, some last, []⟩ := by
      decide +kernel
    exact List.append_cancel_right (hall.trans hpieces)
  obtain ⟨past, used, -, htiled, hcalls, -⟩ := hm.pieces_tile
  obtain ⟨done, left, -, -, hparse, hlt, -, -⟩ := hcalls last rfl (by decide)
  have hpiece : (r.scanner.next last).2.1.map Piece.marked = some (.tag false ⟨3, 7⟩ ⟨1, 9⟩) := by
    decide +kernel
  rw [show m.reader.scanner = r.scanner from rfl, hpiece] at hparse
  have hspans : (m.yielding last).spans = [⟨0, 1⟩, ⟨1, 9⟩] := by
    simp only [m, hps]
    decide +kernel
  have hspans' : m.spans = [⟨0, 1⟩, ⟨1, 6⟩] := by
    simp only [m, hps]
    decide +kernel
  exact ⟨m, past, used, _, _, hm, hspans', htiled, hparse, hlt, hspans⟩

end Stage

end Stencil.Markup
