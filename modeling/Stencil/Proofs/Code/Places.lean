import Mathlib.Tactic.Lemma
import Stencil.Proofs.Code.Validity
import Stencil.Proofs.Markup.Places

/-!
# Where the faults of a template lie

Each step of a draft stems from a tag, apart from those that write text, and these always fit. So
a draft that has no sequence has a fault that shows a part of the template, and each reference
shows the tag that it stems from.

## Main definitions

* `Markup.ShowsTag` — the range of a tag of a template.

## Main results

* `mem_stepsOf` — what a step stems from.
* `Draft.error_covers` — the fault of a draft shows a part of the template.
* `Draft.reference_showsTag` — a reference shows the tag that refers to the template.
-/

namespace Stencil

open Stencil.Text Stencil.Markup

/-- The range is that of a tag that a scan of the template finds, and the tag reads as given. -/
def Markup.ShowsTag (cs : List Char) (span : Span) (t : Tag) : Prop :=
  ∃ piece ∈ (Scan.ofText cs).pieces, piece.span = span ∧ piece.content ≠ [] ∧
    span.Covers cs piece.content ∧ ∃ m, piece.tag? = some m ∧ Tag.ofBody m.1 m.2 = .ok t

/-! ## Steps -/

namespace Markup

variable {row : Row} {t : Tag} {span : Span} {indent : List Char}

/-- The tags that a row contributes stand in the row. -/
lemma mem_of_mem_partsOfRow (h : .tag t span indent ∈ partsOfRow row) : .tag t span ∈ row := by
  rw [partsOfRow] at h
  split at h
  · rename_i part hpart
    obtain rfl := List.mem_singleton.1 h
    unfold standalone? at hpart
    split at hpart
    · rename_i t' span' rest hrow
      have hmem : Item.tag t' span' ∈ row :=
        (List.dropWhile_suffix isBlankText).subset (hrow ▸ List.mem_cons_self)
      split at hpart
      · split at hpart <;> cases hpart <;> exact hmem
      · cases hpart
    · cases hpart
  · obtain ⟨item, hmem, hitem⟩ := List.mem_map.1 h
    cases item with
    | text content => cases hitem
    | tag t' span' =>
      cases hitem
      exact hmem

end Markup

/-- The step that writes a text stems from no tag. -/
lemma mem_textStep {content : List Char} {step : Step} (h : step ∈ textStep content) :
    step = ⟨.text (String.ofList content), none⟩ := by
  unfold textStep at h
  split at h
  · cases h
  · exact List.mem_singleton.1 h

/-- A step for some parts writes text or is the instruction of a tag among them. -/
lemma mem_codeOf {pending : List Char} {parts : List Part} {step : Step}
    (h : step ∈ codeOf pending parts) :
    (∃ content, step = ⟨.text content, none⟩) ∨ ∃ t span indent,
      .tag t span indent ∈ parts ∧ instrOfTag? indent t = some step.instr ∧
        step.span = some span := by
  induction parts generalizing pending with
  | nil => exact .inl ⟨_, mem_textStep h⟩
  | cons part parts ih =>
    have hlater : ∀ {pending}, step ∈ codeOf pending parts →
        (∃ content, step = ⟨.text content, none⟩) ∨ ∃ t span indent,
          .tag t span indent ∈ part :: parts ∧ instrOfTag? indent t = some step.instr ∧
            step.span = some span := by
      intro pending hstep
      refine (ih hstep).imp_right ?_
      rintro ⟨t, span, indent, hmem, hrest⟩
      exact ⟨t, span, indent, List.mem_cons_of_mem part hmem, hrest⟩
    cases part with
    | text content => exact hlater h
    | tag t span indent =>
      rw [codeOf] at h
      split at h
      · exact hlater h
      · rename_i instr hinstr
        rcases List.mem_append.1 h with h | h
        · exact .inl ⟨_, mem_textStep h⟩
        · rcases List.mem_cons.1 h with rfl | h
          · exact .inr ⟨t, span, indent, List.mem_cons_self, hinstr, rfl⟩
          · exact hlater h

/-- **What a step stems from.** It writes text, or it is the instruction of a tag in the rows. -/
theorem mem_stepsOf {rows : List Row} {step : Step} (h : step ∈ stepsOf rows) :
    (∃ content, step = ⟨.text content, none⟩) ∨ ∃ t span indent,
      .tag t span ∈ rows.flatten ∧ instrOfTag? indent t = some step.instr ∧
        step.span = some span := by
  refine (mem_codeOf h).imp_right ?_
  rintro ⟨t, span, indent, hmem, hrest⟩
  obtain ⟨row, hrow, hmem⟩ := List.mem_flatMap.1 hmem
  exact ⟨t, span, indent, List.mem_flatten.2 ⟨row, hrow, mem_of_mem_partsOfRow hmem⟩, hrest⟩

namespace Builder

variable {b b' : Builder} {steps added : List Step} {e : DraftError}

/-- Text always fits. -/
lemma push_text_ne_error (content : String) (fault : NestingFault) :
    b.push (.text content) ≠ .error fault := by
  simp [push]

/-- The steps that are added are some of the steps. -/
lemma addSteps_subset (b : Builder) (steps : List Step) : (b.addSteps steps).1 ⊆ steps := by
  induction steps generalizing b with
  | nil => exact List.Subset.refl _
  | cons step steps ih =>
    rw [addSteps]
    split
    · exact List.nil_subset _
    · exact List.cons_subset_cons step (ih _)

/-- If not all steps are added, one of them does not fit, and the fault shows its tag. -/
lemma addSteps_eq_error (h : (b.addSteps steps).2 = .error e) :
    ∃ step ∈ steps, ∃ (c : Builder) (fault : NestingFault),
      c.push step.instr = .error fault ∧ e = ⟨.nesting fault, step.span⟩ := by
  induction steps generalizing b with
  | nil => cases h
  | cons step steps ih =>
    rw [addSteps] at h
    split at h
    · rename_i fault hpush
      cases h
      exact ⟨step, List.mem_cons_self, b, fault, hpush, rfl⟩
    · obtain ⟨other, hmem, hother⟩ := ih h
      exact ⟨other, List.mem_cons_of_mem step hmem, hother⟩

end Builder

/-! ## Drafts -/

namespace Draft

variable {cs : List Char} {e : DraftError} {r : Reference}

/-- Behind a template that is read to its end without a section tag that is left open, no section
is open if all steps fit. -/
lemma opened_eq_nil {added : List Step} {b : Builder}
    (hending : (Reading.ofText cs).ending = .ok [])
    (h : Builder.empty.addSteps (stepsOf (Reading.ofText cs).rows) = (added, .ok b)) :
    b.opened = [] := by
  obtain ⟨rfl, hextend⟩ := Builder.addSteps_eq_ok h
  have hpaths := Builder.map_paths_extend .empty ((stepsOf (Reading.ofText cs).rows).map Step.instr)
  rw [hextend, sectionEnds_stepsOf hending] at hpaths
  have hcount := openAfter_of_unwind hpaths.symm
  have hnone := ((Reading.ending_iff cs).1 hending).2.2.2.2
  have hlength : b.paths.length = 0 := hcount.symm.trans hnone
  simpa [Builder.paths] using hlength

/-- **The fault of a draft shows a part of the template** that begins within a line.

**Proof sketch.** A step that does not fit stems from a tag, a tag that cannot be read or is not
closed is shown by the reader, and so is a section that is left open. If there is none of these,
no section is open, and the draft has a sequence. -/
theorem error_covers (h : (Draft.ofText cs).outcome = .error e) :
    ∃ span part, e.span = some span ∧ StartsInLine part ∧ span.Covers cs part := by
  rcases hadd : Builder.empty.addSteps (stepsOf (Reading.ofText cs).rows) with ⟨added, result⟩
  have hadd' := hadd
  unfold stepsOf at hadd'
  unfold Draft.ofText at h
  simp only [hadd'] at h
  split at h
  · rename_i e'
    cases h
    obtain ⟨step, hstep, c, fault, hpush, rfl⟩ :=
      Builder.addSteps_eq_error (congrArg Prod.snd hadd)
    rcases mem_stepsOf hstep with ⟨content, rfl⟩ | ⟨t, span, indent, hmem, -, hspan⟩
    · exact absurd hpush (Builder.push_text_ne_error content fault)
    · obtain ⟨piece, hscan, hpiece, -, hcovers, m, hm, -⟩ := Reading.exists_piece_of_mem_rows hmem
      have htag : piece.tag?.isSome = true := by rw [hm]; rfl
      exact ⟨span, piece.content, hspan,
        scan_startsInLine Delimiters.standard_isUnbroken hscan htag, hpiece ▸ hcovers⟩
  · rename_i e' hending
    cases h
    obtain ⟨part, hstarts, hcovers⟩ := Reading.fault_covers hending
    exact ⟨e'.span, part, rfl, hstarts, hcovers⟩
  · rename_i b span spans hending
    cases h
    obtain ⟨part, hstarts, hcovers⟩ := Reading.opened_covers hending span List.mem_cons_self
    exact ⟨span, part, rfl, hstarts, hcovers⟩
  · rename_i b hending
    obtain ⟨s, hs⟩ := Builder.exists_complete (opened_eq_nil hending hadd)
    simp [hs] at h

/-- **A reference shows the tag that refers to the template.** -/
theorem reference_showsTag (h : r ∈ (Draft.ofText cs).references) :
    ∃ span, r.span = some span ∧ ShowsTag cs span (.inclusion r.name) := by
  obtain ⟨step, hstep, href⟩ := List.mem_filterMap.1 h
  obtain ⟨name, hname, rfl⟩ := Option.map_eq_some_iff.1 href
  rcases mem_stepsOf (Builder.addSteps_subset _ _ hstep) with ⟨content, rfl⟩ | hfrom
  · cases hname
  · obtain ⟨t, span, indent, hmem, hinstr, hspan⟩ := hfrom
    obtain ⟨piece, hscan, hpiece, hne, hcovers, m, hm, hbody⟩ :=
      Reading.exists_piece_of_mem_rows hmem
    -- only a tag that includes a template has an instruction that runs it
    have hincluded : t.included? = some name := by
      rw [← bind_included?_instrOfTag? indent t, hinstr, Option.bind_some]
      exact hname
    have ht : t = .inclusion name := by
      cases t <;> cases hincluded
      rfl
    subst ht
    exact ⟨span, hspan, piece, hscan, hpiece, hne, hpiece ▸ hcovers, m, hm, hbody⟩

end Draft

end Stencil
