import Mathlib.Tactic.Lemma
import Stencil.Proofs.Code.Building

/-!
# Code whose instructions are changed

A builder looks at the ends of sections only. So a change of instructions that leaves these as
they are, and makes no other instruction one of them, commutes with building: what was sequenced
stays a sequence when all of its instructions are changed.

## Main definitions

* `Instr.KeepsSections` — a change that leaves the ends of sections as they are.
* `Builder.change`, `Sequence.change` — all instructions changed.

## Main results

* `Instr.KeepsSections.push` — building commutes with the change.
* `Instr.KeepsSections.ofList` — so does sequencing.
* `Instr.KeepsSections.isFinished` — a finished sequence stays finished.
-/

namespace Stencil

/-! ## Changes -/

/-- A change of instructions leaves the ends of sections as they are, and makes no other instruction
one of them. -/
structure Instr.KeepsSections (g : Instr → Instr) : Prop where
  ends : ∀ {i : Instr} {path : Path}, i.sectionPath? = some path → g i = i
  others : ∀ {i : Instr}, i.sectionPath? = none → (g i).sectionPath? = none

/-- The builder with all of its instructions changed. -/
def Builder.change (g : Instr → Instr) (b : Builder) : Builder :=
  { b with instrs := b.instrs.map g }

/-- The sequence with all of its instructions changed. -/
def Sequence.change (g : Instr → Instr) (s : Sequence) : Sequence :=
  ⟨s.instrs.map g, by simpa using s.size_pos⟩

namespace Instr

variable {g : Instr → Instr} {i : Instr}

/-- Only the ends of sections have targets. -/
lemma withTarget_of_sectionPath?_eq_none (h : i.sectionPath? = none) (target : Nat) :
    i.withTarget target = i := by
  cases i with
  | openSection inverted path target => cases h
  | closeSection path target => cases h
  | text content => rfl
  | interpolate escaped path => rfl
  | enter name indent => rfl

namespace KeepsSections

variable (hg : KeepsSections g)
include hg

/-- A target is set whatever the change is. -/
lemma withTarget (target : Nat) (i : Instr) :
    (g i).withTarget target = g (i.withTarget target) := by
  cases hpath : i.sectionPath? with
  | none =>
    rw [withTarget_of_sectionPath?_eq_none (hg.others hpath),
      withTarget_of_sectionPath?_eq_none hpath]
  | some path =>
    have hset : (i.withTarget target).sectionPath? = some path := by
      cases i <;> exact hpath
    rw [hg.ends hpath, hg.ends hset]

/-- A target is set in a list of changed instructions. -/
lemma modify (is : Array Instr) (start target : Nat) :
    (is.map g).modify start (Instr.withTarget target) =
      (is.modify start (Instr.withTarget target)).map g := by
  ext j hj hj'
  · simp
  · simp only [Array.getElem_modify, Array.getElem_map]
    split
    · exact hg.withTarget target _
    · rfl

/-- **Building commutes with the change.** -/
theorem push (b : Builder) (i : Instr) :
    (b.change g).push (g i) = (b.push i).map (Builder.change g) := by
  -- an instruction that is no end of a section is put behind the others
  have hplain : ∀ (c : Builder) {j : Instr}, j.sectionPath? = none →
      c.push j = .ok { c with instrs := c.instrs.push j } := by
    intro c j hj
    cases j with
    | openSection inverted path target => cases hj
    | closeSection path target => cases hj
    | text content => rfl
    | interpolate escaped path => rfl
    | enter name indent => rfl
  cases hpath : i.sectionPath? with
  | none =>
    rw [hplain b hpath, hplain _ (hg.others hpath)]
    simp [Builder.change, Except.map]
  | some path =>
    have hopening : ∀ inverted target,
        g (.openSection inverted path target) = .openSection inverted path target :=
      fun _ _ => hg.ends rfl
    have hclosing : ∀ target, g (.closeSection path target) = .closeSection path target :=
      fun _ => hg.ends rfl
    rw [hg.ends hpath]
    cases i with
    | text content => cases hpath
    | interpolate escaped path => cases hpath
    | enter name indent => cases hpath
    | openSection inverted path target =>
      cases hpath
      simp [Builder.push, Builder.change, Except.map, hopening]
    | closeSection path target =>
      cases hpath
      obtain ⟨instrs, opened⟩ := b
      cases opened with
      | nil => rfl
      | cons section_ outer =>
        obtain ⟨expected, start⟩ := section_
        simp only [Builder.push, Builder.change]
        split
        · simp only [Except.map, hg.modify, Array.map_push, Array.size_map, Builder.change,
            hclosing]
        · rfl

/-- Adding a list of instructions commutes with the change. -/
lemma extend (b : Builder) (is : List Instr) :
    (b.change g).extend (is.map g) = (b.extend is).map (Builder.change g) := by
  induction is generalizing b with
  | nil => rfl
  | cons i is ih =>
    rw [List.map_cons, Builder.extend_cons, Builder.extend_cons, hg.push]
    cases b.push i with
    | error fault => rfl
    | ok c => exact ih c

omit hg in
/-- Finishing commutes with the change. -/
lemma finish (b : Builder) : (b.change g).finish = b.finish.map (Sequence.change g) := by
  have hcurrent : (b.change g).current? = b.current? := rfl
  simp only [Builder.finish, hcurrent]
  cases b.current? with
  | some path => rfl
  | none =>
    have hsize : (b.change g).instrs.size = b.instrs.size := Array.size_map
    simp only [hsize]
    split <;> rfl

/-- **Sequencing commutes with the change.** -/
theorem ofList (is : List Instr) :
    Sequence.ofList (is.map g) = (Sequence.ofList is).map (Sequence.change g) := by
  have hempty : Builder.empty.change g = Builder.empty := by
    simp [Builder.change, Builder.empty]
  have hextend := hg.extend Builder.empty is
  rw [hempty] at hextend
  rw [Sequence.ofList, Sequence.ofList, hextend]
  cases Builder.empty.extend is with
  | error fault => rfl
  | ok b => exact finish b

/-- **A finished sequence stays finished.** -/
theorem isFinished {s : Sequence} (h : s.IsFinished) : (s.change g).IsFinished := by
  have hlist := hg.ofList (s.instrs.toList.map Instr.stored)
  rw [h.ofList_stored] at hlist
  exact Sequence.isFinished_of_ofList hlist

end KeepsSections

end Instr

end Stencil
