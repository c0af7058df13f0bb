import Mathlib.Data.List.Chain
import Mathlib.Data.List.Forall2
import Mathlib.Tactic.Lemma
import Stencil.Proofs.Markup.Steps

/-!
# Rows and logical lines

The rows that a reader gathers line by line are the logical lines of the template. Each row
holds the text of its logical line undivided between two tags, and only comments join lines.

## Main definitions

* `Spells` — a row holds what a list of tokens says.
* `Reader.Spaced` — the next text of a row does not follow another one.
* `Reader.AtLine` — a reader at the start of a line.

## Main results

* `Reader.Step.in_line` — what a step leaves of a line, and what it completes.
* `Reader.AtLine.reads` — a reader at the end of a line.
* `Reading.ofText_spells` — the rows of a template are its logical lines.
-/

namespace Stencil.Markup

open Stencil.Text

/-! ## What a row says -/

namespace Item

/-- What an item says. -/
def marks : Item → List (Char ⊕ Tag)
  | text content => content.map .inl
  | tag t _ => [.inr t]

/-- Whether an item is text. -/
def isText : Item → Bool
  | text _ => true
  | tag _ _ => false

/-- Not both items are text. -/
def Apart (a b : Item) : Prop := a.isText = true → b.isText = false

end Item

/-- A row holds what a list of tokens says, and no text in it is divided. -/
structure Spells (row : Row) (us : List Token) : Prop where
  marks : row.flatMap Item.marks = us.map Token.mark
  apart : row.IsChain Item.Apart

namespace Reader

variable {r r' : Reader} {rest rest' body ending : List Char} {us vs : List Token}

/-! ## Undivided text -/

/-- If the row so far ends with text outside of all tags, a tag comes next. -/
structure Spaced (r : Reader) (rest : List Char) : Prop where
  apart : r.recent.IsChain Item.Apart
  next : ∀ item ∈ r.recent.head?, item.isText = true → r.scanner.inside = none → rest ≠ [] →
    ∃ triple, r.pair.val.openerAt rest = some triple

namespace Spaced

/-- Where no tag comes next, text may follow the row so far. -/
lemma apart_cons (h : r.Spaced rest) (hinside : r.scanner.inside = none) (hne : rest ≠ [])
    (hopen : r.pair.val.openerAt rest = none) (content : List Char) :
    (Item.text content :: r.recent).IsChain Item.Apart := by
  refine List.isChain_cons.2 ⟨fun item hitem _ => ?_, h.apart⟩
  by_contra htext
  obtain ⟨triple, htriple⟩ := h.next item hitem (by simpa using htext) hinside hne
  rw [hopen] at htriple
  cases htriple

/-- A step does not divide the text of a row. -/
lemma step (h : r.Spaced rest) (hstep : Step r rest us r' rest') (hne : rest ≠ []) :
    r'.Spaced rest' := by
  cases hstep with
  | line houtside hcut hinside hpair hrecent =>
    have hopen := Delimiters.openerAt_of_cutAtOpener_none hne hcut
    exact ⟨hrecent ▸ h.apart_cons houtside hne hopen _, fun _ _ _ _ hrest => absurd rfl hrest⟩
  | @text r' c before found triple houtside hcut hinside hpair hrecent =>
    have hopen := Delimiters.openerAt_of_cutAtOpener_cons hcut
    refine ⟨hrecent ▸ h.apart_cons houtside hne hopen _, fun _ _ _ _ _ => ⟨triple, ?_⟩⟩
    rw [hpair]
    exact Delimiters.openerAt_of_cutAtOpener hcut
  | enter houtside hopen hinside hpair hrecent =>
    refine ⟨hrecent ▸ h.apart, fun _ _ _ hnone => ?_⟩
    rw [hinside] at hnone
    cases hnone
  | extend hinside hcut hinside' hpair hrecent =>
    refine ⟨hrecent ▸ h.apart, fun _ _ _ hnone => ?_⟩
    rw [hinside'] at hnone
    cases hnone
  | close hinside hread hinside' hpair hrecent =>
    refine ⟨?_, fun item hitem htext => ?_⟩
    · rw [hrecent]
      exact List.isChain_cons.2 ⟨fun _ _ htext => (Bool.false_ne_true htext).elim, h.apart⟩
    · rw [hrecent] at hitem
      obtain rfl := Option.some.inj hitem
      cases htext

/-- Reading a line does not divide the text of a row. -/
lemma reads (h : r.Spaced rest) (hreads : Reads r rest us r') : r'.Spaced [] := by
  induction hreads with
  | done => exact h
  | step hne hstep _ ih => exact ih (h.step hstep hne)

end Spaced

/-- What a step completes is said by the row. -/
lemma Step.marks (h : Step r rest us r' rest') :
    r'.row.flatMap Item.marks = r.row.flatMap Item.marks ++ us.map Token.mark := by
  cases h with
  | line _ _ _ _ hrecent => simp [row, hrecent, Item.marks, Token.mark, Function.comp_def]
  | text _ _ _ _ hrecent => simp [row, hrecent, Item.marks, Token.mark, Function.comp_def]
  | enter _ _ _ _ hrecent => simp [row, hrecent]
  | extend _ _ _ _ hrecent => simp [row, hrecent]
  | close _ _ _ _ hrecent => simp [row, hrecent, Item.marks, Token.mark]

/-- What is completed in a line is said by the row. -/
lemma Reads.marks (h : Reads r rest us r') :
    r'.row.flatMap Item.marks = r.row.flatMap Item.marks ++ us.map Token.mark := by
  induction h with
  | done => simp
  | step _ hstep _ ih => rw [ih, hstep.marks, List.append_assoc, List.map_append]

/-! ## The end of a line -/

/-- Text without line breaks ends no line. -/
lemma not_endsLine_of_unbroken {cs : List Char} (h : Unbroken cs) :
    ∀ t ∈ cs.map Token.char, t.endsLine = false := by
  intro t ht
  obtain ⟨c, hc, rfl⟩ := List.mem_map.1 ht
  exact h c hc

/-- **What a step leaves of a line, and what it completes.** The step ends the line, and
completes all of it as text or nothing at all, or it leaves the ending of the line untouched.

**Proof sketch.** A delimiter that is met in a line stands in the body of the line. -/
theorem Step.in_line (h : Step r (body ++ ending) us r' rest') (hd : r.pair.val.IsUnbroken)
    (hbody : Unbroken body) (hending : ∀ c ∈ ending, isBreak c = true) :
    (rest' = [] ∧ (r'.scanner.inside = none ∧ us = (body ++ ending).map Token.char ∨
      r'.scanner.inside ≠ none ∧ us = [])) ∨
    ∃ body', rest' = body' ++ ending ∧ Unbroken body' ∧ ∀ t ∈ us, t.endsLine = false := by
  cases h with
  | line houtside hcut hinside => exact .inl ⟨rfl, .inl ⟨hinside, rfl⟩⟩
  | @text r' c before found triple houtside hcut =>
    obtain ⟨hall, after, rfl⟩ := Delimiters.cutAtOpener_append hcut
    rw [← List.append_assoc] at hall
    obtain ⟨body', rfl, rfl⟩ := (hd.opening triple).split_line
      (Delimiters.opening_ne_nil r.pair.property triple) hending hall
    rw [Unbroken.append_iff, Unbroken.append_iff] at hbody
    refine .inr ⟨r.pair.val.opening triple ++ body', by simp, ?_, ?_⟩
    · exact Unbroken.append_iff.2 ⟨hbody.1.2, hbody.2⟩
    · exact not_endsLine_of_unbroken hbody.1.1
  | @enter r' triple start houtside hopen =>
    obtain ⟨after, hafter⟩ := Delimiters.opening_prefix_of_openerAt hopen
    have hall : [] ++ r.pair.val.opening triple ++ after = body ++ ending := hafter
    obtain ⟨body', hrest, rfl⟩ := (hd.opening triple).split_line
      (Delimiters.opening_ne_nil r.pair.property triple) hending hall
    refine .inr ⟨body', ?_, (Unbroken.append_iff.1 hbody).2, by simp⟩
    rw [← hafter, List.drop_left, hrest]
  | extend hinside hcut hinside' => exact .inl ⟨rfl, .inr ⟨by simp [hinside'], rfl⟩⟩
  | @close r' t source after tag span hinside hread =>
    obtain ⟨before, hcut, -, -⟩ := readTag_eq_some hread
    obtain ⟨body', rfl, rfl⟩ := (hd.closing t.triple).split_line
      (Delimiters.closing_ne_nil r.pair.property t.triple) hending (cutAt_append hcut)
    refine .inr ⟨body', rfl, (Unbroken.append_iff.1 hbody).2, ?_⟩
    intro u hu
    obtain rfl : u = .tag source tag := by simpa using hu
    rfl

/-- What is completed in a line ends with the ending of the line, or before it if a tag is
open there. -/
lemma Reads.in_line (h : Reads r (body ++ ending) us r') (hd : r.pair.val.IsUnbroken)
    (hbody : Unbroken body) (hending : ∀ c ∈ ending, isBreak c = true) :
    (r'.scanner.inside = none →
      ∃ init, us = init ++ ending.map Token.char ∧ ∀ t ∈ init, t.endsLine = false) ∧
    (r'.scanner.inside ≠ none → ∀ t ∈ us, t.endsLine = false) := by
  generalize hrest : body ++ ending = rest at h
  induction h generalizing body with
  | done =>
    obtain ⟨-, rfl⟩ := List.append_eq_nil_iff.1 hrest
    exact ⟨fun _ => ⟨[], rfl, by simp⟩, fun _ => by simp⟩
  | @step r r₁ r' rest rest₁ us vs hne hstep hreads ih =>
    subst hrest
    rcases hstep.in_line hd hbody hending with ⟨rfl, hus⟩ | ⟨body', rfl, hbody', hus⟩
    · -- nothing is left of the line
      obtain ⟨rfl, rfl⟩ := hreads.of_nil
      rcases hus with ⟨hinside, rfl⟩ | ⟨hinside, rfl⟩
      · refine ⟨fun _ => ⟨body.map Token.char, by simp, not_endsLine_of_unbroken hbody⟩, ?_⟩
        exact fun h => absurd hinside h
      · exact ⟨fun h => absurd h hinside, fun _ => by simp⟩
    · obtain ⟨houtside, hinside⟩ := ih (hstep.pair_isUnbroken hd) hbody' rfl
      constructor
      · intro hnone
        obtain ⟨init, rfl, hinit⟩ := houtside hnone
        exact ⟨us ++ init, by simp, List.forall_mem_append.2 ⟨hus, hinit⟩⟩
      · intro hsome
        exact List.forall_mem_append.2 ⟨hus, hinside hsome⟩

/-! ## Tags that join lines -/

/-- The body of a tag that is open holds no line break, or is that of a comment. -/
def Joins (r : Reader) : Prop :=
  ∀ t, r.scanner.inside = some t → Unbroken t.body ∨ t.isComment = true

/-- A comment stays one when more of its body is read. -/
lemma startsComment_append {t : OpenTag} (h : t.isComment = true) (part : List Char) :
    startsComment (t.body ++ part) = true := by
  rw [OpenTag.isComment_eq, startsComment, decide_eq_true_eq] at h
  rw [startsComment, head?_trimStart_append, h]
  rfl

/-- A tag that a step completes holds no line break, or it is a comment. -/
lemma Step.joins (h : Step r (body ++ ending) us r' rest') (hjoins : r.Joins)
    (hd : r.pair.val.IsUnbroken) (hbody : Unbroken body)
    (hending : ∀ c ∈ ending, isBreak c = true) :
    (∀ source tag, Token.tag source tag ∈ us → Unbroken source ∨ tag = .comment) ∧
      (rest' ≠ [] → r'.Joins) := by
  cases h with
  | line => exact ⟨by simp, fun h => absurd rfl h⟩
  | text houtside hcut hinside =>
    refine ⟨by simp, fun _ t ht => ?_⟩
    rw [hinside] at ht
    cases ht
  | enter houtside hopen hinside =>
    refine ⟨by simp, fun _ t ht => .inl ?_⟩
    rw [hinside] at ht
    cases ht
    exact Unbroken.nil
  | extend => exact ⟨by simp, fun h => absurd rfl h⟩
  | @close r' t source after tag span hinside hread hinside' =>
    refine ⟨fun source' tag' hmem => ?_, fun _ t ht => ?_⟩
    · obtain ⟨rfl, rfl⟩ : source' = source ∧ tag' = tag := by simpa using hmem
      obtain ⟨before, hcut, htag, rfl⟩ := readTag_eq_some hread
      rcases hjoins t hinside with ht | ht
      · obtain ⟨body', -, rfl⟩ := (hd.closing t.triple).split_line
          (Delimiters.closing_ne_nil r.pair.property t.triple) hending (cutAt_append hcut)
        have hbefore := (Unbroken.append_iff.1 (Unbroken.append_iff.1 hbody).1).1
        refine .inl (Unbroken.append_iff.2 ⟨Unbroken.append_iff.2 ⟨hd.opening t.triple, ?_⟩, ?_⟩)
        · exact Unbroken.append_iff.2 ⟨ht, hbefore⟩
        · exact hd.closing t.triple
      · exact .inr (Tag.eq_comment_of_startsComment (startsComment_append ht before) htag)
    · rw [hinside'] at ht
      cases ht

/-- A tag that is completed in a line holds no line break, or it is a comment. -/
lemma Reads.joins (h : Reads r (body ++ ending) us r') (hjoins : r.Joins)
    (hd : r.pair.val.IsUnbroken) (hbody : Unbroken body)
    (hending : ∀ c ∈ ending, isBreak c = true) :
    ∀ source tag, Token.tag source tag ∈ us → Unbroken source ∨ tag = .comment := by
  generalize hrest : body ++ ending = rest at h
  induction h generalizing body with
  | done => simp
  | @step r r₁ r' rest rest₁ us vs hne hstep hreads ih =>
    subst hrest
    obtain ⟨hus, hjoins₁⟩ := hstep.joins hjoins hd hbody hending
    intro source tag hmem
    rcases List.mem_append.1 hmem with hmem | hmem
    · exact hus source tag hmem
    · rcases hstep.in_line hd hbody hending with ⟨rfl, -⟩ | ⟨body', rfl, hbody', -⟩
      · obtain ⟨rfl, -⟩ := hreads.of_nil
        cases hmem
      · by_cases hrest : body' ++ ending = []
        · rw [hrest] at hreads
          obtain ⟨rfl, -⟩ := hreads.of_nil
          cases hmem
        · exact ih (hjoins₁ hrest) (hstep.pair_isUnbroken hd) hbody' rfl source tag hmem

/-! ## From line to line -/

/-- A reader at the start of a line, with the tokens of the row so far: outside of all tags a
new row starts, and a tag that is open is a comment. -/
structure AtLine (r : Reader) (vs : List Token) : Prop where
  pair : r.pair.val.IsUnbroken
  spells : Spells r.row vs
  literal : ∀ t ∈ vs, t.endsLine = false
  outside : r.scanner.inside = none → r.recent = [] ∧ vs = []
  inside : ∀ t, r.scanner.inside = some t → t.isComment = true

/-- A tag or a character is still to come while something follows. -/
lemma upcoming_ne_some_nil {cs : List Char} (hne : cs ≠ []) : r.upcoming cs ≠ some [] := by
  intro h
  cases hinside : r.scanner.inside with
  | none =>
    rw [upcoming_of_outside hinside] at h
    exact hne (tokens_source h).symm
  | some t =>
    rw [upcoming_of_inside hinside, tokensInside] at h
    split at h
    · cases h
    · obtain ⟨ts, -, hts⟩ := Option.map_eq_some_iff.1 h
      cases hts

namespace AtLine

/-- The reader at the start of a template. -/
lemma initial : Reader.initial.AtLine [] where
  pair := Delimiters.standard_isUnbroken
  spells := ⟨rfl, List.isChain_nil⟩
  literal := by simp
  outside _ := ⟨rfl, rfl⟩
  inside t h := by cases h

/-- The items of a row are apart in either order. -/
lemma isChain_recent {row : Row} (h : row.IsChain Item.Apart) : row.reverse.IsChain Item.Apart :=
  List.isChain_reverse.2 (h.imp fun _ _ hab hb => by_contra fun ha =>
    Bool.false_ne_true ((hab (by simpa using ha)).symm.trans hb))

/-- At the start of a line, no text of the row so far goes on. -/
lemma spaced (h : r.AtLine vs) (rest : List Char) : r.Spaced rest where
  apart := by
    have hrow := isChain_recent h.spells.apart
    rwa [row, List.reverse_reverse] at hrow
  next item hitem _ hinside := by
    rw [(h.outside hinside).1] at hitem
    cases hitem

/-- The row at the end of a line holds what was met in its lines. -/
lemma spells_reads (h : r.AtLine vs) (hreads : Reads r rest us r') : Spells r'.row (vs ++ us) where
  marks := by rw [hreads.marks, h.spells.marks, List.map_append]
  apart := isChain_recent ((h.spaced rest).reads hreads).apart

/-- After a line in which a comment is left open, the row goes on. -/
lemma reads_inside (h : r.AtLine vs) (hreads : Reads r (body ++ ending) us r')
    (hbody : Unbroken body) (hending : ∀ c ∈ ending, isBreak c = true) {t : OpenTag}
    (hinside : r'.scanner.inside = some t) (hcomment : t.isComment = true) :
    r'.AtLine (vs ++ us) where
  pair := hreads.pair_isUnbroken h.pair
  spells := h.spells_reads hreads
  literal := List.forall_mem_append.2
    ⟨h.literal, (hreads.in_line h.pair hbody hending).2 (by simp [hinside])⟩
  outside hnone := by
    rw [hinside] at hnone
    cases hnone
  inside u hu := by
    rw [hinside] at hu
    cases hu
    exact hcomment

/-- After a line in which no tag is left open, a new row starts. -/
lemma reads_outside (h : r.AtLine vs) (hreads : Reads r rest us r')
    (hinside : r'.scanner.inside = none) : ({ r' with recent := [] } : Reader).AtLine [] where
  pair := hreads.pair_isUnbroken h.pair
  spells := ⟨rfl, List.isChain_nil⟩
  literal := by simp
  outside _ := ⟨rfl, rfl⟩
  inside t ht := by
    rw [show ({ r' with recent := [] } : Reader).scanner.inside = none from hinside] at ht
    cases ht

/-- **A row that is complete is a logical line**, cut off from what follows.

**Proof sketch.** The tokens of the row hold a line break at their end only. In the last line of
a template there may be none, but then nothing follows. -/
theorem logicalLines_reads {more : List Char} {ts : List Token} (h : r.AtLine vs)
    (hreads : Reads r (body ++ ending) us r') (hbody : Unbroken body)
    (hends : EndsBefore body ending more) (hinside : r'.scanner.inside = none)
    (hts : tokens r'.pair more = some ts) :
    logicalLines (vs ++ (us ++ ts)) = (vs ++ us) :: logicalLines ts := by
  obtain ⟨init, hus, hinit⟩ := (hreads.in_line h.pair hbody hends.isBreak).1 hinside
  have hliteral : ∀ t ∈ vs ++ init, t.endsLine = false :=
    List.forall_mem_append.2 ⟨h.literal, hinit⟩
  rcases hends with ⟨hending, hcr⟩ | ⟨rfl, hne, rfl⟩
  · have hhead : ending = ['\r'] → ts.head? ≠ some (.char '\n') := by
      intro hlone hlf
      obtain ⟨rest, rfl⟩ := List.head?_eq_some_iff.1 hlf
      refine hcr hlone ?_
      rw [← tokens_source hts]
      rfl
    have hcut := logicalLines_append hliteral hending hhead
    rw [hus]
    simpa only [List.append_assoc] using hcut
  · rw [tokens] at hts
    obtain rfl := Option.some.inj hts
    have hne' : us ≠ [] := by
      rintro rfl
      have hup : r.upcoming (body ++ [] ++ []) = _ := hreads.upcoming h.pair (.inr (.inl rfl))
      rw [upcoming_of_outside hinside, tokens] at hup
      exact upcoming_ne_some_nil (by simpa using hne) hup
    have hall : ∀ t ∈ vs ++ us, t.endsLine = false := by
      rw [hus]
      simpa using hliteral
    rw [List.append_nil, logicalLines_of_forall_not (by simp [hne']) hall, logicalLines]

end AtLine

/-- What is known of a reading that starts with a line. -/
lemma readLines_cons_eq {line : List Char} {more : List (List Char)} {rows : List Row}
    {spans : List Span} (h : r.readLines (line :: more) = ⟨rows, .ok spans⟩) :
    ∃ r', r.readLine line = .ok r' ∧
      ((∃ t, r'.scanner.inside = some t ∧ t.isComment = true ∧
        r'.readLines more = ⟨rows, .ok spans⟩) ∨
      (r'.scanner.inside = none ∧ ∃ others, rows = r'.row :: others ∧
        ({ r' with recent := [] } : Reader).readLines more = ⟨others, .ok spans⟩)) := by
  rw [readLines] at h
  split at h
  · cases h
  · rename_i r' hr'
    refine ⟨r', hr', ?_⟩
    split at h
    · rename_i t ht
      split at h
      · rename_i hcomment
        exact .inl ⟨t, ht, hcomment, h⟩
      · cases h
    · rename_i hnone
      generalize hmore : ({ r' with recent := [] } : Reader).readLines more = reading at h
      obtain ⟨others, ending⟩ := reading
      cases h
      exact .inr ⟨hnone, others, rfl, rfl⟩

/-- **The rows from the start of a line on are the logical lines**, that of the row so far
included.

**Proof sketch.** Induction on the lines. A line that leaves a comment open adds its tokens to
the row so far, and every other line completes a row. -/
theorem readLines_spells {lns : List (List Char)} (hlines : IsLines lns) {rows : List Row}
    {spans : List Span} (hr : r.AtLine vs) (h : r.readLines lns = ⟨rows, .ok spans⟩) :
    ∃ ts, r.upcoming lns.flatten = some ts ∧
      List.Forall₂ Spells rows (logicalLines (vs ++ ts)) ∧
        ∀ source tag, Token.tag source tag ∈ ts → Unbroken source ∨ tag = .comment := by
  induction hlines generalizing r vs rows with
  | nil =>
    rw [readLines] at h
    split at h
    · cases h
    · rename_i hnone
      cases h
      obtain ⟨-, rfl⟩ := hr.outside hnone
      refine ⟨[], ?_, ?_, by simp⟩
      · rw [upcoming_of_outside hnone, List.flatten_nil, tokens]
      · exact .nil
  | @cons body ending more hbody hends hmore ih =>
    obtain ⟨r', hread, hcases⟩ := readLines_cons_eq h
    obtain ⟨us, hreads⟩ := exists_reads hread
    have hjoins := hreads.joins (fun t ht => .inr (hr.inside t ht)) hr.pair hbody hends.isBreak
    have hup := hreads.upcoming hr.pair hends.sealed
    rcases hcases with ⟨t, hinside, hcomment, hrest⟩ | ⟨hinside, others, rfl, hrest⟩
    · obtain ⟨ts, hts, hspells, hjoins'⟩ :=
        ih (hr.reads_inside hreads hbody hends.isBreak hinside hcomment) hrest
      refine ⟨us ++ ts, ?_, ?_, ?_⟩
      · rw [List.flatten_cons, hup, hts]
        rfl
      · rwa [← List.append_assoc]
      · intro source tag hmem
        exact (List.mem_append.1 hmem).elim (hjoins source tag) (hjoins' source tag)
    · obtain ⟨ts, hts, hspells, hjoins'⟩ := ih (hr.reads_outside hreads hinside) hrest
      have hts' : tokens r'.pair more.flatten = some ts := by
        rwa [upcoming_of_outside (show ({ r' with recent := [] } : Reader).scanner.inside = none
          from hinside)] at hts
      refine ⟨us ++ ts, ?_, ?_, ?_⟩
      · rw [List.flatten_cons, hup, upcoming_of_outside hinside, hts']
        rfl
      · rw [hr.logicalLines_reads hreads hbody hends hinside hts']
        exact .cons (hr.spells_reads hreads) hspells
      · intro source tag hmem
        exact (List.mem_append.1 hmem).elim (hjoins source tag) (hjoins' source tag)

end Reader

/-- **The rows of a template are its logical lines**, and only comments join lines. -/
theorem Reading.ofText_spells {cs : List Char} {spans : List Span}
    (h : (Reading.ofText cs).ending = .ok spans) :
    ∃ ts, tokens ⟨.standard, Delimiters.standard_isProper⟩ cs = some ts ∧
      List.Forall₂ Spells (Reading.ofText cs).rows (logicalLines ts) ∧
        ∀ source tag, Token.tag source tag ∈ ts → Unbroken source ∨ tag = .comment := by
  have hreading : Reader.initial.readLines (lines cs) = ⟨(Reading.ofText cs).rows, .ok spans⟩ := by
    rw [← h]
    rfl
  obtain ⟨ts, hts, hrows⟩ := Reader.readLines_spells (lines_isLines cs) .initial hreading
  rw [lines_flatten] at hts
  exact ⟨ts, hts, hrows⟩

end Stencil.Markup
