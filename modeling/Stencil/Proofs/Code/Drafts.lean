import Mathlib.Tactic.Lemma
import Stencil.Code.Draft
import Stencil.Proofs.Code.Building

/-!
# What a draft holds

The code of a template that is well formed on its own: all of its steps were added, no section
is open, and the sequence is made from exactly these steps.

## Main definitions

* `stepsOf` — the steps for a list of rows.
* `instrsOf` — the instructions of steps, or the empty text if there is no step.

## Main results

* `Draft.outcome_eq_ok` — what is known of a draft that has a sequence.
-/

namespace Stencil

open Stencil.Text Stencil.Markup

/-- The steps for a list of rows. -/
def stepsOf (rows : List Row) : List Step :=
  codeOf [] (rows.flatMap partsOfRow)

/-- The instructions of a list of steps. Without a step, the empty text is written. -/
def instrsOf (steps : List Step) : List Instr :=
  if steps.isEmpty then [.text ""] else steps.map Step.instr

namespace Builder

/-- Steps that all fit are all added, as a list of instructions. -/
lemma addSteps_eq_ok {b b' : Builder} {steps added : List Step}
    (h : b.addSteps steps = (added, .ok b')) :
    added = steps ∧ b.extend (steps.map Step.instr) = .ok b' := by
  induction steps generalizing b added with
  | nil =>
    simp only [addSteps, Prod.mk.injEq, Except.ok.injEq] at h
    obtain ⟨rfl, rfl⟩ := h
    exact ⟨rfl, rfl⟩
  | cons s steps ih =>
    simp only [addSteps] at h
    split at h
    · simp at h
    · rename_i c hc
      simp only [Prod.mk.injEq] at h
      obtain ⟨rfl, hrest⟩ := h
      obtain ⟨hadded, hextend⟩ := ih (Prod.ext rfl hrest)
      refine ⟨congrArg _ hadded, ?_⟩
      rw [List.map_cons, extend_cons, hc]
      exact hextend

/-- What a builder to which all steps were added is completed to. -/
lemma complete_eq_ok {b : Builder} {steps : List Step} {s : Sequence}
    (hb : empty.extend (steps.map Step.instr) = .ok b) (h : b.complete = .ok s) :
    Sequence.ofList (instrsOf steps) = .ok s := by
  have hstored := map_stored_extend hb
  unfold complete at h
  split at h
  · rename_i hempty
    -- without instructions there was no step
    have hnil : b.instrs = #[] := by simpa [isEmpty] using hempty
    have hsteps : steps = [] := by simpa [hnil, empty] using hstored
    subst hsteps
    obtain rfl : empty = b := by simpa using hb
    exact h
  · rename_i hempty
    have hsteps : steps ≠ [] := by
      rintro rfl
      obtain rfl : empty = b := by simpa using hb
      exact hempty rfl
    rw [instrsOf, if_neg (by simpa using hsteps), Sequence.ofList, hb]
    exact h

end Builder

/-- **What is known of a draft that has a sequence**: the whole template was read, no section
is open at its end, and the sequence and the references are those of all steps. -/
theorem Draft.outcome_eq_ok {cs : List Char} {s : Sequence}
    (h : (Draft.ofText cs).outcome = .ok s) :
    (Reading.ofText cs).ending = .ok [] ∧
      (Draft.ofText cs).references =
        (stepsOf (Reading.ofText cs).rows).filterMap Step.reference? ∧
        Sequence.ofList (instrsOf (stepsOf (Reading.ofText cs).rows)) = .ok s := by
  rcases hadd : Builder.empty.addSteps (stepsOf (Reading.ofText cs).rows) with ⟨added, result⟩
  have hadd' := hadd
  unfold stepsOf at hadd'
  unfold Draft.ofText at h ⊢
  simp only [hadd'] at h ⊢
  split at h
  · simp at h
  · simp at h
  · simp at h
  · rename_i b hending
    obtain ⟨rfl, hextend⟩ := Builder.addSteps_eq_ok hadd
    split at h
    · simp at h
    · rename_i sequence hcomplete
      cases h
      exact ⟨hending, rfl, Builder.complete_eq_ok hextend hcomplete⟩

namespace Draft

variable {cs : List Char} {s : Sequence}

/-- The sequence of a draft is finished. -/
lemma isFinished (h : (Draft.ofText cs).outcome = .ok s) : s.IsFinished :=
  Sequence.isFinished_of_ofList (outcome_eq_ok h).2.2

/-- The sequence of a draft includes the templates that the draft refers to. -/
lemma included_eq (h : (Draft.ofText cs).outcome = .ok s) :
    s.included = (Draft.ofText cs).references.map Reference.name := by
  obtain ⟨-, hreferences, hofList⟩ := outcome_eq_ok h
  have hnames : ∀ steps : List Step,
      (instrsOf steps).filterMap Instr.included? =
        (steps.filterMap Step.reference?).map Reference.name := by
    intro steps
    unfold instrsOf
    split
    · simp_all [Instr.included?]
    · simp [List.filterMap_map, List.map_filterMap, Function.comp_def, Step.reference?]
  rw [Sequence.included_of_ofList hofList, hreferences, hnames]

end Draft

end Stencil
