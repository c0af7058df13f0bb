import Mathlib.Tactic.Lemma
import Stencil.Proofs.Code.Building

/-!
# Taking instructions back

A builder that stays in use keeps no copy of itself. When one of a list of instructions does
not fit, those before it are cut off, and the openings that they closed lose their targets
again. This restores the builder exactly, since an open section never has a target.

## Main definitions

* `Builder.Extends` — what is left of a builder when instructions are added behind it.
* `Builder.afterInPlace`, `Builder.afterAllInPlace` — the builder after calls in place.

## Main results

* `Builder.Extends.rollback_eq` — taking the added instructions back restores the builder.
* `Builder.extendInPlace_eq` — adding a list of instructions in place adds all of it or nothing.
* `Builder.afterAllInPlace_eq` — a history of calls in place leads to the same builder as one
  that starts every call with a copy.
-/

namespace Stencil

open Node

namespace Instr

/-- Reopening a section twice is reopening it once. -/
@[simp]
lemma reopened_reopened (i : Instr) : i.reopened.reopened = i.reopened := by
  cases i <;> rfl

end Instr

namespace Builder

variable {b b' c : Builder}

/-! ## Open sections have no target -/

/-- Every section of some levels has its opening, without a target, at the index that is noted
for it. -/
lemma getElem?_openLayout {levels : List OpenSection} {o : Path × Nat}
    (ho : o ∈ openIndices levels) (rest : List Instr) :
    ∃ inverted, (openLayout levels ++ rest)[o.2]? =
      some (.openSection inverted o.1 Instr.unresolved) := by
  induction levels generalizing rest with
  | nil => simp [openIndices] at ho
  | cons l outer ih =>
    rcases List.mem_cons.1 ho with rfl | ho
    · refine ⟨l.inverted, ?_⟩
      simp [openLayout]
    · obtain ⟨inverted, hopen⟩ :=
        ih ho (layoutAll (openLayout outer).length l.before ++
          [.openSection l.inverted l.path Instr.unresolved] ++ rest)
      refine ⟨inverted, ?_⟩
      simpa [openLayout] using hopen

/-- A builder that notes a section as open holds its opening, without a target. -/
lemma Shape.opening {levels : List OpenSection} {here : List Node} (h : b.Shape levels here)
    {o : Path × Nat} (ho : o ∈ b.opened) :
    ∃ inverted, b.instrs[o.2]? = some (.openSection inverted o.1 Instr.unresolved) := by
  rw [h.opened_eq] at ho
  obtain ⟨inverted, hopen⟩ := getElem?_openLayout ho (layoutAll (openLayout levels).length here)
  refine ⟨inverted, ?_⟩
  rw [← Array.getElem?_toList, h.instrs_eq]
  exact hopen

/-! ## Instructions behind a builder -/

/-- The second builder holds the instructions of the first and perhaps more behind them, with
which sections of the first may have been closed. -/
structure Extends (b c : Builder) : Prop where
  size_le : b.instrs.size ≤ c.instrs.size
  /-- A section that is still open was open before, or was opened since. -/
  mem_opened : ∀ o ∈ c.opened, o.2 < b.instrs.size → o ∈ b.opened
  /-- Only openings of sections that were open may have changed, and only in their targets. -/
  getElem?_eq : ∀ j < b.instrs.size,
    b.instrs[j]? = if j ∈ b.opened.map (·.2) then c.instrs[j]?.map Instr.reopened else c.instrs[j]?

namespace Extends

/-- Nothing was added. -/
lemma refl {levels : List OpenSection} {here : List Node} (h : b.Shape levels here) :
    b.Extends b := by
  refine ⟨Nat.le_refl _, fun o ho _ => ho, fun j _ => ?_⟩
  split
  · rename_i hj
    obtain ⟨o, ho, rfl⟩ := List.mem_map.1 hj
    obtain ⟨inverted, hopen⟩ := h.opening ho
    simp [hopen, Instr.reopened]
  · rfl

/-- One more instruction goes behind all others. -/
lemma push_plain (h : b.Extends c) (i : Instr) :
    b.Extends { c with instrs := c.instrs.push i } := by
  refine ⟨?_, h.mem_opened, fun j hj => ?_⟩
  · have hsize := h.size_le
    simp only [Array.size_push]
    omega
  · have hsize : j < c.instrs.size := Nat.lt_of_lt_of_le hj h.size_le
    rw [Array.getElem?_push_lt hsize, h.getElem?_eq j hj, Array.getElem?_eq_getElem hsize]

/-- An opening goes behind all other instructions. -/
lemma push_open (h : b.Extends c) (i : Instr) (path : Path) :
    b.Extends { instrs := c.instrs.push i, opened := (path, c.instrs.size) :: c.opened } := by
  obtain ⟨hsize, -, hinstrs⟩ := h.push_plain i
  refine ⟨hsize, fun o ho hlt => ?_, hinstrs⟩
  have hbound := h.size_le
  rcases List.mem_cons.1 ho with rfl | ho
  · simp only at hlt
    omega
  · exact h.mem_opened o ho hlt

/-- A closing settles the target of an opening that may stand among the old instructions. -/
lemma push_close {levels : List OpenSection} {here : List Node} (hc : c.Shape levels here)
    (h : b.Extends c) {path : Path} {start : Nat} {outer : List (Path × Nat)}
    (hopened : c.opened = (path, start) :: outer) (target : Nat) (i : Instr) :
    b.Extends
      { instrs := (c.instrs.modify start (Instr.withTarget target)).push i
        opened := outer } := by
  have hsettled :
      b.Extends { c with instrs := c.instrs.modify start (Instr.withTarget target) } := by
    refine ⟨by simpa using h.size_le, h.mem_opened, fun j hj => ?_⟩
    rw [h.getElem?_eq j hj]
    by_cases hstart : start = j
    · subst hstart
      -- the section was open before, so its target does not count
      have hmem : (path, start) ∈ c.opened := hopened ▸ List.mem_cons_self
      have hopen : start ∈ b.opened.map (·.2) :=
        List.mem_map.2 ⟨_, h.mem_opened _ hmem hj, rfl⟩
      obtain ⟨inverted, hinstr⟩ := hc.opening hmem
      simp only [hopen, if_true, Array.getElem?_modify, hinstr, Option.map_some, Instr.withTarget,
        Instr.reopened]
    · simp only [Array.getElem?_modify, if_neg hstart]
  have hpushed := hsettled.push_plain i
  refine ⟨hpushed.size_le, fun o ho hlt => ?_, hpushed.getElem?_eq⟩
  exact h.mem_opened o (hopened ▸ List.mem_cons_of_mem _ ho) hlt

/-- **Adding an instruction behind a builder keeps what is left of it.** -/
theorem push {levels : List OpenSection} {here : List Node} (hc : c.Shape levels here)
    (h : b.Extends c) {i : Instr} {c' : Builder} (hi : c.push i = .ok c') : b.Extends c' := by
  cases i with
  | text content =>
    cases hi
    exact h.push_plain _
  | interpolate escaped path =>
    cases hi
    exact h.push_plain _
  | enter name indent =>
    cases hi
    exact h.push_plain _
  | openSection inverted path target =>
    cases hi
    exact h.push_open _ path
  | closeSection path target =>
    simp only [Builder.push] at hi
    split at hi
    · cases hi
    · rename_i expected start outer hopened
      split at hi
      · cases hi
        exact h.push_close hc hopened _ _
      · cases hi

/-- Reopening some sections, entry by entry. -/
private lemma getElem?_foldl_reopened (opened : List (Path × Nat)) (is : Array Instr) (j : Nat) :
    (opened.foldl (fun is o => is.modify o.2 Instr.reopened) is)[j]? =
      if j ∈ opened.map (·.2) then is[j]?.map Instr.reopened else is[j]? := by
  induction opened generalizing is with
  | nil => simp
  | cons o opened ih =>
    rw [List.foldl_cons, ih, Array.getElem?_modify]
    by_cases ho : o.2 = j
    · subst ho
      simp [Function.comp_def]
    · have hmem : j ∈ (o :: opened).map (·.2) ↔ j ∈ opened.map (·.2) := by
        simp [Ne.symm ho]
      simp only [ho, if_false, hmem]

/-- **Taking the added instructions back restores the builder.** -/
theorem rollback_eq (h : b.Extends c) : c.rollback b.instrs.size b.opened = b := by
  suffices hinstrs : (c.rollback b.instrs.size b.opened).instrs = b.instrs by
    simp only [rollback] at hinstrs ⊢
    rw [hinstrs]
  refine Array.ext_getElem? fun j => ?_
  have hsize := h.size_le
  rw [rollback, getElem?_foldl_reopened]
  by_cases hj : j < b.instrs.size
  · have htake : (c.instrs.take b.instrs.size)[j]? = c.instrs[j]? := by
      rw [Array.take_eq_extract, Array.getElem?_extract]
      split
      · rw [Nat.zero_add]
      · omega
    rw [htake, h.getElem?_eq j hj]
  · have htake : (c.instrs.take b.instrs.size)[j]? = none := by
      simp
      omega
    rw [htake, Array.getElem?_eq_none (by omega)]
    simp

end Extends

/-! ## All or nothing -/

/-- Instructions that are added until one does not fit stand behind those before. -/
lemma extends_pushAll (is : List Instr) (hc : ∃ levels here, c.Shape levels here)
    (h : b.Extends c) : b.Extends (c.pushAll is).1 := by
  induction is generalizing c with
  | nil => exact h
  | cons i is ih =>
    obtain ⟨levels, here, hshape⟩ := hc
    rw [pushAll]
    split
    · exact h
    · rename_i c' hi
      exact ih (hshape.push hi) (h.push hshape hi)

/-- Adding instructions one by one, compared with adding them to a copy. -/
lemma pushAll_eq (c : Builder) (is : List Instr) :
    match c.extend is with
    | .ok c' => c.pushAll is = (c', none)
    | .error fault => (c.pushAll is).2 = some fault := by
  induction is generalizing c with
  | nil => rfl
  | cons i is ih =>
    rw [extend_cons, pushAll]
    cases hi : c.push i with
    | error fault => rfl
    | ok c' => exact ih c'

/-- **Adding a list of instructions in place adds all of it or nothing**, and finds the same
fault as adding it to a copy.

**Proof sketch.** The instructions before the fault stand behind those of the builder. Only
openings of sections that were open can have changed, and they had no target before. -/
theorem extendInPlace_eq (hb : ∃ levels here, b.Shape levels here) (is : List Instr) :
    b.extendInPlace is =
      match b.extend is with
      | .ok b' => (b', none)
      | .error fault => (b, some fault) := by
  obtain ⟨levels, here, hshape⟩ := hb
  have hpushed := pushAll_eq b is
  have hextends := extends_pushAll is ⟨levels, here, hshape⟩ (Extends.refl hshape)
  unfold extendInPlace
  cases hresult : b.extend is with
  | ok b' =>
    rw [hresult] at hpushed
    simp only [hpushed]
  | error fault =>
    rw [hresult] at hpushed
    cases hall : b.pushAll is with
    | mk c found =>
      obtain rfl : found = some fault := by simpa [hall] using hpushed
      rw [hall] at hextends
      simp only [hextends.rollback_eq]

/-! ## Histories in place -/

/-- The builder after a call in place. -/
def afterInPlace (b : Builder) : Call → Builder
  | .push i =>
    match b.push i with
    | .ok b' => b'
    | .error _ => b
  | .extend is => (b.extendInPlace is).1

/-- The builder after a history of calls in place. -/
def afterAllInPlace (calls : List Call) : Builder :=
  calls.foldl afterInPlace empty

/-- A call in place leads to the same builder as a call on a copy. -/
lemma afterInPlace_eq (hb : ∃ levels here, b.Shape levels here) (c : Call) :
    b.afterInPlace c = b.after c := by
  cases c with
  | push i => rfl
  | extend is =>
    rw [afterInPlace, extendInPlace_eq hb, after, call]
    cases b.extend is <;> rfl

/-- **A history of calls in place leads to the same builder as one on copies.** -/
theorem afterAllInPlace_eq (calls : List Call) : afterAllInPlace calls = afterAll calls := by
  have hfold : ∀ (calls : List Call) b, (∃ levels here, b.Shape levels here) →
      calls.foldl afterInPlace b = calls.foldl after b := by
    intro calls
    induction calls with
    | nil => exact fun b _ => rfl
    | cons c calls ih =>
      intro b hb
      rw [List.foldl_cons, List.foldl_cons, afterInPlace_eq hb]
      refine ih _ (after_preserves (P := fun b => ∃ levels here, b.Shape levels here) ?_ c hb)
      rintro b i b' ⟨levels, here, hshape⟩ hi
      exact hshape.push hi
  exact hfold calls empty ⟨[], [], .empty⟩

end Builder

end Stencil
