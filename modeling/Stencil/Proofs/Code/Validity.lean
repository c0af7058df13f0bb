import Mathlib.Tactic.Lemma
import Stencil.Proofs.Code.Drafts
import Stencil.Proofs.Markup.Sections

/-!
# Templates that have a sequence

A template is checked twice: its tags when they are read, and the nesting of its sections when
the instructions are put together. Text that is merged, tags that take their line with them and
tags without an instruction change nothing about this, so the two checks together accept
exactly the templates that are well-formed.

## Main definitions

* `Instr.sectionEnd?` — the section end that an instruction is.
* `Scan.included` — the names of the templates that a template refers to.

## Main results

* `filterMap_stepsOf` — what the instructions for some rows have of the tags in them.
* `Builder.exists_extend_iff` — the instructions that a builder takes and leaves no section open.
* `Draft.exists_sequence_iff` — a template has a sequence exactly if it is well-formed.
-/

namespace Stencil

open Stencil.Text Stencil.Markup

/-! ## What instructions have of tags -/

namespace Markup

/-- The tag that a part is, with its range. -/
def Part.tagged? : Part → Option (Tag × Span)
  | .text _ => none
  | .tag t span _ => some (t, span)

/-- The tag that an item is, with its range. -/
def Item.tagged? : Item → Option (Tag × Span)
  | .text _ => none
  | .tag t span => some (t, span)

/-- Blank text is no tag. -/
lemma Item.tagged?_of_isBlankText {item : Item} (h : isBlankText item = true) :
    item.tagged? = none := by
  cases item with
  | text content => rfl
  | tag t span => cases h

/-- A row contributes all of its tags, whether one of them stands alone or not. -/
lemma filterMap_tagged?_partsOfRow (row : Row) :
    (partsOfRow row).filterMap Part.tagged? = row.filterMap Item.tagged? := by
  have hblank : ∀ items : Row, items.all isBlankText = true →
      items.filterMap Item.tagged? = [] := by
    intro items hall
    rw [List.filterMap_eq_nil_iff]
    exact fun item hitem => Item.tagged?_of_isBlankText (List.all_eq_true.1 hall item hitem)
  rw [partsOfRow]
  split
  · rename_i part hpart
    unfold standalone? at hpart
    split at hpart
    · rename_i t span rest hrow
      split at hpart
      · rename_i halone
        -- nothing but blanks stands beside the tag
        have hpart' : part.tagged? = some (t, span) := by
          split at hpart <;> cases hpart <;> rfl
        have hfront : (row.takeWhile isBlankText).all isBlankText = true := List.all_takeWhile
        rw [Bool.and_eq_true] at halone
        rw [← List.takeWhile_append_dropWhile (p := isBlankText) (l := row), hrow,
          List.filterMap_append, hblank _ hfront]
        simp [hpart', Item.tagged?, hblank rest halone.2]
      · cases hpart
    · cases hpart
  · rw [List.filterMap_map]
    refine congrArg (List.filterMap · row) (funext fun item => ?_)
    cases item <;> rfl

/-- Rows contribute all of their tags. -/
lemma filterMap_tagged?_flatMap (rows : List Row) :
    (rows.flatMap partsOfRow).filterMap Part.tagged? = rows.flatten.filterMap Item.tagged? := by
  induction rows with
  | nil => rfl
  | cons row rows ih =>
    rw [List.flatMap_cons, List.filterMap_append, List.flatten_cons, List.filterMap_append, ih,
      filterMap_tagged?_partsOfRow]

/-- The tags of a row, without their ranges. -/
lemma map_fst_filterMap_tagged? (row : Row) :
    (row.filterMap Item.tagged?).map Prod.fst = row.filterMap Item.tag? := by
  rw [List.map_filterMap]
  refine congrArg (List.filterMap · row) (funext fun item => ?_)
  cases item <;> rfl

end Markup

section Traces

variable {β : Type _}

/-- What the steps for some parts have of the tags in them: text has nothing, and the step of each
tag has what the tag has. -/
lemma filterMap_codeOf {f : Step → Option β} {g : Tag × Span → Option β}
    (htext : ∀ content, f ⟨.text content, none⟩ = none)
    (htag : ∀ indent t span,
      ((instrOfTag? indent t).bind fun i => f ⟨i, some span⟩) = g (t, span))
    (pending : List Char) (parts : List Part) :
    (codeOf pending parts).filterMap f = (parts.filterMap Part.tagged?).filterMap g := by
  have htextStep : ∀ content, (textStep content).filterMap f = [] := by
    intro content
    unfold textStep
    split
    · rfl
    · simp [htext]
  induction parts generalizing pending with
  | nil => exact htextStep pending
  | cons part parts ih =>
    cases part with
    | text content => exact ih (pending ++ content)
    | tag t span indent =>
      have hhead : (Part.tag t span indent :: parts).filterMap Part.tagged? =
          (t, span) :: parts.filterMap Part.tagged? := rfl
      rw [codeOf, hhead, List.filterMap_cons, ← htag indent t span]
      cases instrOfTag? indent t with
      | none => exact ih pending
      | some i =>
        rw [List.filterMap_append, htextStep, List.filterMap_cons, ih]
        rfl

variable {f : Instr → Option β} {g : Tag → Option β}

/-- **What the instructions for some rows have of the tags in them**, section ends or inclusions
for example: it stands in the same order. -/
theorem filterMap_stepsOf (htext : ∀ content, f (.text content) = none)
    (htag : ∀ indent t, (instrOfTag? indent t).bind f = g t) (rows : List Row) :
    ((stepsOf rows).map Step.instr).filterMap f =
      (rows.flatten.filterMap Item.tag?).filterMap g := by
  rw [List.filterMap_map, stepsOf, filterMap_codeOf (f := f ∘ Step.instr) (g := g ∘ Prod.fst)
    htext (fun indent t _ => htag indent t), filterMap_tagged?_flatMap,
    ← map_fst_filterMap_tagged?, List.filterMap_map]

/-- The empty text that stands for no step has nothing of a tag. -/
lemma filterMap_instrsOf (htext : ∀ content, f (.text content) = none) (steps : List Step) :
    (instrsOf steps).filterMap f = (steps.map Step.instr).filterMap f := by
  unfold instrsOf
  split
  · rename_i hempty
    rw [List.isEmpty_iff.1 hempty]
    simp [htext]
  · rfl

end Traces

/-- The section end that an instruction is. -/
def Instr.sectionEnd? : Instr → Option SectionEnd
  | .openSection _ path _ => some (.opening path)
  | .closeSection path _ => some (.closing path)
  | _ => none

/-- The instruction of a tag is the section end that the tag is. -/
lemma bind_sectionEnd?_instrOfTag? (indent : List Char) (t : Tag) :
    (instrOfTag? indent t).bind Instr.sectionEnd? = t.sectionEnd? := by
  cases t <;> rfl

namespace Markup

/-- The name of the template that a tag includes. -/
def Tag.included? : Tag → Option String
  | .inclusion name => some name
  | _ => none

/-- The names of the templates that a template refers to, in order, said of the scan of it. -/
def Scan.included (s : Scan) : List String := (readings s.tags).filterMap Tag.included?

end Markup

/-- The instruction of a tag includes what the tag includes. -/
lemma bind_included?_instrOfTag? (indent : List Char) (t : Tag) :
    (instrOfTag? indent t).bind Instr.included? = t.included? := by
  cases t <;> rfl

/-! ## What a builder takes -/

namespace Builder

variable {b : Builder}

/-- The paths of the sections that are open, innermost first. -/
def paths (b : Builder) : List Path := b.opened.map Prod.fst

/-- A builder takes an instruction exactly if it fits the sections that are open. -/
lemma map_paths_push (b : Builder) (i : Instr) :
    (b.push i).toOption.map paths = unwind b.paths i.sectionEnd?.toList := by
  cases i with
  | closeSection path target =>
    obtain ⟨instrs, opened⟩ := b
    cases opened with
    | nil => rfl
    | cons o outer =>
      simp only [push, paths, Instr.sectionEnd?, Option.toList_some, List.map_cons, unwind]
      split <;> rfl
  | openSection inverted path target => rfl
  | text content => rfl
  | interpolate escaped path => rfl
  | enter name indent => rfl

/-- A builder takes a list of instructions exactly if their section ends fit. -/
lemma map_paths_extend (b : Builder) (is : List Instr) :
    (b.extend is).toOption.map paths = unwind b.paths (is.filterMap Instr.sectionEnd?) := by
  induction is generalizing b with
  | nil => rfl
  | cons i is ih =>
    have hends : (i :: is).filterMap Instr.sectionEnd? =
        i.sectionEnd?.toList ++ is.filterMap Instr.sectionEnd? := by
      rw [List.filterMap_cons]
      cases i.sectionEnd? <;> rfl
    rw [hends, unwind_append, ← map_paths_push, extend_cons]
    cases b.push i with
    | error fault => rfl
    | ok b' => exact ih b'

/-- **The instructions that a builder takes and leaves no section open** are those of which the
section ends are nested. -/
theorem exists_extend_iff (is : List Instr) :
    (∃ b, empty.extend is = .ok b ∧ b.opened = []) ↔
      Nested (is.filterMap Instr.sectionEnd?) := by
  have hpaths := map_paths_extend empty is
  have hempty : empty.paths = [] := rfl
  rw [hempty] at hpaths
  rw [nested_iff_unwind, ← hpaths]
  cases empty.extend is with
  | error fault => simp [Except.toOption]
  | ok b => simp [Except.toOption, paths]

/-- A builder with an instruction and no open section can be finished. -/
lemma exists_finish (h : b.opened = []) (hsize : 0 < b.instrs.size) : ∃ s, b.finish = .ok s := by
  have hcurrent : b.current? = none := by
    rw [current?, h]
    rfl
  refine ⟨⟨b.instrs, hsize⟩, ?_⟩
  rw [finish, hcurrent]
  exact dif_pos hsize

/-- A builder without an open section can be completed. -/
lemma exists_complete (h : b.opened = []) : ∃ s, b.complete = .ok s := by
  unfold complete
  split
  · refine exists_finish (b := { b with instrs := b.instrs.push (.text "") }) h ?_
    simp
  · rename_i hne
    refine exists_finish h ?_
    simpa [isEmpty, Array.size_pos_iff] using hne

/-- Steps of which all fit are all added. -/
lemma addSteps_of_extend {steps : List Step} {b' : Builder}
    (h : b.extend (steps.map Step.instr) = .ok b') : b.addSteps steps = (steps, .ok b') := by
  induction steps generalizing b with
  | nil =>
    cases h
    rfl
  | cons s steps ih =>
    rw [List.map_cons, extend_cons] at h
    obtain ⟨c, hc, hrest⟩ := exists_of_bind_eq_ok h
    rw [addSteps, hc]
    simp only
    rw [ih hrest]

end Builder

/-! ## Templates -/

namespace Draft

variable {cs : List Char} {s : Sequence}

/-- The section ends among the steps of a template that is read to its end are those among its
tags. -/
lemma sectionEnds_stepsOf {spans : List Span} (h : (Reading.ofText cs).ending = .ok spans) :
    ((stepsOf (Reading.ofText cs).rows).map Step.instr).filterMap Instr.sectionEnd? =
      sectionEnds (readings (Scan.ofText cs).tags) := by
  rw [filterMap_stepsOf (fun _ => rfl) bind_sectionEnd?_instrOfTag?, Reading.tags_rows h,
    sectionEnds]

/-- A template has a sequence if it is read to its end and its steps leave no section open. -/
lemma exists_sequence_of_extend {b : Builder} (hending : (Reading.ofText cs).ending = .ok [])
    (hb : Builder.empty.extend ((stepsOf (Reading.ofText cs).rows).map Step.instr) = .ok b)
    (hopened : b.opened = []) : ∃ s, (Draft.ofText cs).outcome = .ok s := by
  have hadd := Builder.addSteps_of_extend hb
  unfold stepsOf at hadd
  obtain ⟨s, hs⟩ := Builder.exists_complete hopened
  refine ⟨s, ?_⟩
  unfold Draft.ofText
  simp only [hadd, hending, hs]

/-- **A template has a sequence exactly if it is well-formed.**

**Proof sketch.** The tags in the rows are those of the scan, and the section ends among the
instructions are those among the tags. A builder takes them all and leaves no section open
exactly if they are nested. -/
theorem exists_sequence_iff (cs : List Char) :
    (∃ s, (Draft.ofText cs).outcome = .ok s) ↔ (Scan.ofText cs).IsWellFormed := by
  rw [Scan.isWellFormed_iff]
  constructor
  · rintro ⟨s, hs⟩
    obtain ⟨hending, -, hofList⟩ := outcome_eq_ok hs
    obtain ⟨b, hb, hfinish⟩ := Sequence.ofList_eq_ok hofList
    refine ⟨hending, ?_⟩
    rw [← sectionEnds_stepsOf hending, ← filterMap_instrsOf fun _ => rfl]
    exact (Builder.exists_extend_iff _).1 ⟨b, hb, (Builder.finish_eq_ok hfinish).1⟩
  · rintro ⟨hending, hnested⟩
    rw [← sectionEnds_stepsOf hending] at hnested
    obtain ⟨b, hb, hopened⟩ := (Builder.exists_extend_iff _).2 hnested
    exact exists_sequence_of_extend hending hb hopened

/-- The sequence of a template includes the templates that the template refers to. -/
theorem included_eq_included_scan (h : (Draft.ofText cs).outcome = .ok s) :
    s.included = (Scan.ofText cs).included := by
  obtain ⟨hending, -, hofList⟩ := outcome_eq_ok h
  rw [Sequence.included_of_ofList hofList, filterMap_instrsOf fun _ => rfl,
    filterMap_stepsOf (fun _ => rfl) bind_included?_instrOfTag?, Reading.tags_rows hending,
    Scan.included]

end Draft

end Stencil
