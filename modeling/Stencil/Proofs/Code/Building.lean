import Mathlib.Tactic.Lemma
import Mathlib.Tactic.Set
import Stencil.Code.Program
import Stencil.Proofs.Code.Layout
import Stencil.Proofs.Data.Tables

/-!
# What a builder builds

A builder takes any calls, of which some may fail and leave it as it was. Whatever the calls
were, its instructions are those of some trees, cut off inside the sections that are still
open; so a finished sequence is the layout of its own outline, and the targets in it are true.

## Main definitions

* `Builder.Call`, `Builder.afterAll` — calls on a builder, and the builder after a history of
  them.
* `Sequence.IsFinished`, `Program.IsSequenced` — what comes out of a builder.
* `Instr.path?`, `Program.paths` — the paths that are named.
* `OpenSection`, `Builder.Shape` — the trees under construction, level by level.

## Main results

* `Builder.Shape.push` — adding an instruction keeps the shape.
* `Sequence.IsFinished.layout_outline` — a finished sequence is the layout of its outline.
* `Sequence.IsFinished.ofList_stored` — sequencing the instructions of a finished sequence
  again gives the same sequence, whatever their targets are.
-/

namespace Stencil

open Node

/-! ## Computations that may fail -/

section Results

variable {α β ε : Type _}

/-- A computation goes on after a success. -/
lemma ok_bind (a : α) (f : α → Except ε β) : (Except.ok a >>= f) = f a := rfl

/-- A computation in two steps that succeeds succeeds in both. -/
lemma exists_of_bind_eq_ok {x : Except ε α} {f : α → Except ε β} {b : β}
    (h : x >>= f = .ok b) : ∃ a, x = .ok a ∧ f a = .ok b := by
  cases x with
  | error e => cases h
  | ok a => exact ⟨a, rfl, h⟩

/-- A computation whose result is made into another one. -/
lemma exists_of_map_eq_ok {x : Except ε α} {f : α → β} {b : β} (h : x.map f = .ok b) :
    ∃ a, x = .ok a ∧ f a = b := by
  cases x with
  | error e => cases h
  | ok a => exact ⟨a, rfl, Except.ok.inj h⟩

/-- A computation of which something is known when it succeeds, and that is known to succeed. -/
lemma exists_of_toOption_map_eq_some {x : Except ε α} {f : α → β} {b : β}
    (h : x.toOption.map f = some b) : ∃ a, x = .ok a ∧ f a = b := by
  cases x with
  | error e => cases h
  | ok a => exact ⟨a, rfl, Option.some.inj h⟩

end Results

/-! ## Histories of calls -/

namespace Builder

/-- A call on a builder. -/
inductive Call where
  | push (i : Instr)
  | extend (is : List Instr)

/-- What a call yields. -/
def call (b : Builder) : Call → Except NestingFault Builder
  | .push i => b.push i
  | .extend is => b.extend is

/-- The builder after a call. A call that fails leaves it as it was. -/
def after (b : Builder) (c : Call) : Builder :=
  match b.call c with
  | .ok b' => b'
  | .error _ => b

/-- The builder after a history of calls. -/
def afterAll (calls : List Call) : Builder :=
  calls.foldl after empty

end Builder

/-- A sequence that some builder finished. -/
def Sequence.IsFinished (s : Sequence) : Prop :=
  ∃ calls, (Builder.afterAll calls).finish = .ok s

/-- A program of which every sequence was finished by some builder. -/
def Program.IsSequenced (p : Program) : Prop :=
  ∀ s ∈ p.sequences, s.IsFinished

/-- The sequences of a program are its own and those of its partials. -/
lemma Program.mem_sequences {p : Program} {s : Sequence} :
    s ∈ p.sequences ↔ s = p.main ∨ ∃ n, p.partials.find? n = some s := by
  have hentries : (∃ n, p.partials.find? n = some s) ↔ ∃ n, (n, s) ∈ p.partials.entries :=
    exists_congr fun n => Entries.find?_eq_some_iff p.partials.ascending
  rw [hentries, sequences, List.mem_cons, List.mem_map]
  constructor
  · rintro (h | ⟨⟨n, u⟩, hmem, rfl⟩)
    · exact .inl h
    · exact .inr ⟨n, hmem⟩
  · rintro (h | ⟨n, hmem⟩)
    · exact .inl h
    · exact .inr ⟨(n, s), hmem, rfl⟩

/-- The path that an instruction names. -/
def Instr.path? : Instr → Option Path
  | interpolate _ path => some path
  | openSection _ path _ => some path
  | closeSection path _ => some path
  | text _ => none
  | enter _ _ => none

/-- The paths that the instructions of a program name. -/
def Program.paths (p : Program) : List Path :=
  p.sequences.flatMap fun s => s.instrs.toList.filterMap Instr.path?

/-- What an instruction of a program names. -/
lemma Program.mem_paths {p : Program} {s : Sequence} {i : Instr} {path : Path}
    (hs : s ∈ p.sequences) (hi : i ∈ s.instrs) (hpath : i.path? = some path) :
    path ∈ p.paths :=
  List.mem_flatMap.2 ⟨s, hs, List.mem_filterMap.2 ⟨i, Array.mem_toList_iff.2 hi, hpath⟩⟩

namespace Builder

/-- Adding no instruction. -/
@[simp]
lemma extend_nil (b : Builder) : b.extend [] = .ok b := rfl

/-- Adding a list of instructions adds its first one and then the others. -/
@[simp]
lemma extend_cons (b : Builder) (i : Instr) (is : List Instr) :
    b.extend (i :: is) = (b.push i).bind fun b' => b'.extend is := rfl

/-- Adding two lists of instructions in a row. -/
lemma extend_append (b : Builder) (is js : List Instr) :
    b.extend (is ++ js) = (b.extend is).bind fun b' => b'.extend js :=
  List.foldlM_append

variable {P : Builder → Prop}

/-- What every successful addition of one instruction preserves, a list of them preserves. -/
lemma extend_preserves (hpush : ∀ b i b', P b → b.push i = .ok b' → P b') {is : List Instr}
    {b b' : Builder} (hb : P b) (h : b.extend is = .ok b') : P b' := by
  induction is generalizing b with
  | nil =>
    cases h
    exact hb
  | cons i is ih =>
    rw [extend_cons] at h
    cases hi : b.push i with
    | error f => simp [hi, Except.bind] at h
    | ok c =>
      rw [hi] at h
      exact ih (hpush b i c hb hi) h

/-- What every successful addition of one instruction preserves, a call preserves. -/
lemma after_preserves (hpush : ∀ b i b', P b → b.push i = .ok b' → P b') {b : Builder}
    (c : Call) (hb : P b) : P (b.after c) := by
  unfold after
  split
  · rename_i b' h
    cases c with
    | push i => exact hpush b i b' hb h
    | extend is => exact extend_preserves hpush hb h
  · exact hb

/-- What holds of the empty builder and is preserved by every successful addition of one
instruction holds after any history of calls. -/
theorem afterAll_induction (hempty : P empty)
    (hpush : ∀ b i b', P b → b.push i = .ok b' → P b') (calls : List Call) :
    P (afterAll calls) := by
  have hfold : ∀ (calls : List Call) b, P b → P (calls.foldl after b) := by
    intro calls
    induction calls with
    | nil => exact fun b hb => hb
    | cons c calls ih => exact fun b hb => ih (b.after c) (after_preserves hpush c hb)
  exact hfold calls empty hempty

end Builder

/-! ## The shape of a builder -/

/-- Changing the element right behind a first part of a list. -/
private lemma modify_length_append {α : Type} (f : α → α) (xs : List α) (x : α) (ys : List α) :
    (xs ++ x :: ys).modify xs.length f = xs ++ f x :: ys := by
  induction xs with
  | nil => simp
  | cons y xs ih => simp [ih]

/-- A section that is still open, with the trees that stand before it on its level. -/
structure OpenSection where
  before : List Node
  inverted : Bool
  path : Path

/-- The instructions up to and including the innermost opening. Openings that are not closed
have no target yet. -/
def openLayout : List OpenSection → List Instr
  | [] => []
  | l :: outer =>
    openLayout outer ++ layoutAll (openLayout outer).length l.before ++
      [.openSection l.inverted l.path Instr.unresolved]

/-- The paths of open sections and the indices of their openings. -/
def openIndices : List OpenSection → List (Path × Nat)
  | [] => []
  | l :: outer => (l.path, (openLayout outer).length + sizeAll l.before) :: openIndices outer

namespace Builder

/-- The builder holds the sections of `levels`, innermost first and still open, and behind the
innermost opening the trees `here`. -/
structure Shape (b : Builder) (levels : List OpenSection) (here : List Node) : Prop where
  instrs_eq : b.instrs.toList = openLayout levels ++ layoutAll (openLayout levels).length here
  opened_eq : b.opened = openIndices levels

namespace Shape

variable {b b' : Builder} {levels : List OpenSection} {here : List Node}

/-- The shape of the builder without instructions. -/
lemma empty : Shape Builder.empty [] [] := ⟨rfl, rfl⟩

/-- The number of instructions. -/
lemma size_eq (h : b.Shape levels here) :
    b.instrs.size = (openLayout levels).length + sizeAll here := by
  simpa using congrArg List.length h.instrs_eq

/-- An instruction that is laid out as a tree of its own goes behind the trees at hand. -/
lemma push_leaf (h : b.Shape levels here) {n : Node} {i : Instr}
    (hn : n.layout ((openLayout levels).length + sizeAll here) = [i]) :
    Shape { b with instrs := b.instrs.push i } levels (here ++ [n]) := by
  refine ⟨?_, h.opened_eq⟩
  simp [h.instrs_eq, layoutAll_append, hn]

/-- An opening starts a new level. -/
lemma push_open (h : b.Shape levels here) (inverted : Bool) (path : Path) :
    Shape
      { instrs := b.instrs.push (.openSection inverted path Instr.unresolved)
        opened := (path, b.instrs.size) :: b.opened }
      (⟨here, inverted, path⟩ :: levels) [] := by
  refine ⟨?_, ?_⟩
  · simp [h.instrs_eq, openLayout, layoutAll]
  · simp [h.size_eq, h.opened_eq, openIndices]

/-- A closing turns the innermost level into a section on the level around it. -/
lemma push_close {l : OpenSection} (h : b.Shape (l :: levels) here) :
    Shape
      { instrs :=
          (b.instrs.modify ((openLayout levels).length + sizeAll l.before)
            (Instr.withTarget b.instrs.size)).push
              (.closeSection l.path ((openLayout levels).length + sizeAll l.before))
        opened := openIndices levels }
      levels (l.before ++ [.region l.inverted l.path here]) := by
  refine ⟨?_, rfl⟩
  set front := openLayout levels ++ layoutAll (openLayout levels).length l.before with hfront
  have hlength : front.length = (openLayout levels).length + sizeAll l.before := by
    simp [hfront]
  -- the opening stands right behind the outer instructions and the trees before the section
  have hsplit : b.instrs.toList =
      front ++ .openSection l.inverted l.path Instr.unresolved ::
        layoutAll (front.length + 1) here := by
    simp [h.instrs_eq, openLayout, hfront, Nat.add_assoc]
  have hsize : b.instrs.size = front.length + 1 + sizeAll here := by
    rw [← Array.length_toList, hsplit]
    simp
    omega
  rw [← hlength, Array.toList_push, Array.toList_modify, hsplit, hsize, modify_length_append,
    layoutAll_append, layoutAll_singleton, ← hlength, layout, Instr.withTarget,
    ← List.append_assoc, ← hfront]
  simp

/-- **Adding an instruction keeps the shape.** Text, data and inclusions go behind the trees
at hand, an opening starts a new level, and a closing ends the innermost one. -/
theorem push (h : b.Shape levels here) {i : Instr} (hi : b.push i = .ok b') :
    ∃ levels' here', b'.Shape levels' here' := by
  cases i with
  | text content =>
    cases hi
    exact ⟨levels, _, h.push_leaf (n := .text content) rfl⟩
  | interpolate escaped path =>
    cases hi
    exact ⟨levels, _, h.push_leaf (n := .interpolate escaped path) rfl⟩
  | enter name indent =>
    cases hi
    exact ⟨levels, _, h.push_leaf (n := .enter name indent) rfl⟩
  | openSection inverted path target =>
    cases hi
    exact ⟨_, [], h.push_open inverted path⟩
  | closeSection path target =>
    cases levels with
    | nil => simp [Builder.push, h.opened_eq, openIndices] at hi
    | cons l levels =>
      simp only [Builder.push, h.opened_eq, openIndices] at hi
      split at hi
      · rename_i hpath
        cases hi
        subst hpath
        exact ⟨levels, _, h.push_close⟩
      · simp at hi

end Shape

/-- After any history of calls a builder has a shape. -/
theorem exists_shape (calls : List Call) :
    ∃ levels here, (afterAll calls).Shape levels here := by
  refine afterAll_induction (P := fun b => ∃ levels here, b.Shape levels here)
    ⟨[], [], .empty⟩ ?_ calls
  rintro b i b' ⟨levels, here, hb⟩ hi
  exact hb.push hi

/-- A builder that can be finished has no open section, and its instructions are the sequence. -/
lemma finish_eq_ok {b : Builder} {s : Sequence} (h : b.finish = .ok s) :
    b.opened = [] ∧ b.instrs = s.instrs := by
  unfold finish current? at h
  cases hopen : b.opened with
  | nil =>
    simp only [hopen, List.head?_nil, Option.map_none] at h
    split at h
    · cases h
      exact ⟨rfl, rfl⟩
    · simp at h
  | cons o outer => simp [hopen] at h

end Builder

namespace Sequence

variable {s : Sequence}

/-- **A finished sequence is the layout of its outline**, so every target in it is true.

**Proof sketch.** The builder that finished the sequence has a shape, and no section is open,
so its instructions are the layout of some list of trees. Reading the outline of a layout
gives back that list. -/
theorem IsFinished.layout_outline (h : s.IsFinished) :
    s.instrs.toList = layoutAll 0 s.outline := by
  obtain ⟨calls, hcalls⟩ := h
  obtain ⟨levels, here, hshape⟩ := Builder.exists_shape calls
  obtain ⟨hopened, hinstrs⟩ := Builder.finish_eq_ok hcalls
  have hlevels : levels = [] := by
    cases levels with
    | nil => rfl
    | cons l levels => simp [hshape.opened_eq, openIndices] at hopened
  subst hlevels
  have hlayout : s.instrs.toList = layoutAll 0 here := by
    rw [← hinstrs, hshape.instrs_eq]
    rfl
  rw [outline, hlayout, outline_layoutAll]

end Sequence

/-! ## Sequencing again -/

namespace Instr

/-- An instruction without the target that it brings along. -/
def stored (i : Instr) : Instr := i.withTarget unresolved

/-- A target that is put in does not matter for what is stored. -/
@[simp]
lemma stored_withTarget (i : Instr) (target : Nat) : (i.withTarget target).stored = i.stored := by
  cases i <;> rfl

end Instr

namespace Builder

/-- A builder ignores the target that an instruction brings along. -/
@[simp]
lemma push_stored (b : Builder) (i : Instr) : b.push i.stored = b.push i := by
  cases i <;> rfl

/-- What a builder holds after an instruction was added, targets aside. -/
lemma map_stored_push {b b' : Builder} {i : Instr} (h : b.push i = .ok b') :
    b'.instrs.toList.map Instr.stored = b.instrs.toList.map Instr.stored ++ [i.stored] := by
  have hmodify : ∀ (xs : List Instr) (start target : Nat),
      (xs.modify start (Instr.withTarget target)).map Instr.stored = xs.map Instr.stored := by
    intro xs start target
    refine List.ext_getElem? fun j => ?_
    simp only [List.getElem?_map, List.getElem?_modify]
    cases xs[j]? <;> simp [apply_ite]
  cases i with
  | closeSection path target =>
    simp only [push] at h
    split at h
    · simp at h
    · split at h
      · cases h
        simp [hmodify, Instr.stored, Instr.withTarget]
      · simp at h
  | openSection inverted path target =>
    cases h
    simp [Instr.stored, Instr.withTarget]
  | text content =>
    cases h
    simp
  | interpolate escaped path =>
    cases h
    simp
  | enter name indent =>
    cases h
    simp

/-- What a builder holds after a list of instructions was added, targets aside. -/
lemma map_stored_extend {b b' : Builder} {is : List Instr} (h : b.extend is = .ok b') :
    b'.instrs.toList.map Instr.stored =
      b.instrs.toList.map Instr.stored ++ is.map Instr.stored := by
  induction is generalizing b with
  | nil =>
    cases h
    simp
  | cons i is ih =>
    rw [extend_cons] at h
    cases hi : b.push i with
    | error f => simp [hi, Except.bind] at h
    | ok c =>
      rw [hi] at h
      rw [ih h, map_stored_push hi]
      simp

/-- Adding what a builder holds to the empty builder, whatever the targets are, rebuilds it. -/
theorem extend_stored (calls : List Call) :
    empty.extend ((afterAll calls).instrs.toList.map Instr.stored) = .ok (afterAll calls) := by
  refine afterAll_induction
    (P := fun b => empty.extend (b.instrs.toList.map Instr.stored) = .ok b) rfl ?_ calls
  intro b i b' hb hi
  rw [map_stored_push hi, extend_append, hb]
  simp [Except.bind, hi]

end Builder

/-- **Sequencing the instructions of a finished sequence again gives the same sequence**, the
targets left aside, so none of them has to be trusted. -/
theorem Sequence.IsFinished.ofList_stored {s : Sequence} (h : s.IsFinished) :
    Sequence.ofList (s.instrs.toList.map Instr.stored) = .ok s := by
  obtain ⟨calls, hcalls⟩ := h
  obtain ⟨-, hinstrs⟩ := Builder.finish_eq_ok hcalls
  rw [ofList, ← hinstrs, Builder.extend_stored]
  exact hcalls

namespace Sequence

variable {is : List Instr} {s : Sequence}

/-- The targets that instructions bring along do not matter for sequencing them. -/
lemma ofList_map_stored (is : List Instr) :
    ofList (is.map Instr.stored) = ofList is := by
  rw [ofList, ofList, Builder.extend, Builder.extend, List.foldlM_map]
  simp only [Builder.push_stored]

/-- A list of instructions that is sequenced is added as a whole and then finished. -/
lemma ofList_eq_ok (h : ofList is = .ok s) :
    ∃ b, Builder.empty.extend is = .ok b ∧ b.finish = .ok s :=
  exists_of_bind_eq_ok h

/-- What a list of instructions is sequenced to is finished. -/
lemma isFinished_of_ofList (h : ofList is = .ok s) : s.IsFinished := by
  obtain ⟨b, hb, hfinish⟩ := ofList_eq_ok h
  refine ⟨[.extend is], ?_⟩
  simpa [Builder.afterAll, Builder.after, Builder.call, hb] using hfinish

/-- A sequence holds the instructions that it was made from, targets aside. -/
lemma map_stored_of_ofList (h : ofList is = .ok s) :
    s.instrs.toList.map Instr.stored = is.map Instr.stored := by
  obtain ⟨b, hb, hfinish⟩ := ofList_eq_ok h
  rw [← (Builder.finish_eq_ok hfinish).2, Builder.map_stored_extend hb]
  rfl

/-- What an instruction of a sequence includes is included by the sequence. -/
lemma mem_included {name indent : String} (h : .enter name indent ∈ s.instrs) : name ∈ s.included :=
  List.mem_filterMap.2 ⟨_, Array.mem_toList_iff.2 h, rfl⟩

/-- A sequence includes the templates that its instructions include. -/
lemma included_of_ofList (h : ofList is = .ok s) : s.included = is.filterMap Instr.included? := by
  have hstored : ∀ i : Instr, i.stored.included? = i.included? := by
    intro i
    cases i <;> rfl
  have hmap : ∀ js : List Instr,
      (js.map Instr.stored).filterMap Instr.included? = js.filterMap Instr.included? := by
    intro js
    have hcomp : Instr.included? ∘ Instr.stored = Instr.included? := funext hstored
    rw [List.filterMap_map, hcomp]
  rw [included, ← hmap, map_stored_of_ofList h, hmap]

end Sequence

/-- A program of which every sequence is what its own instructions are sequenced to. -/
lemma Program.isSequenced_of_ofList {p : Program}
    (h : ∀ s ∈ p.sequences, Sequence.ofList s.instrs.toList = .ok s) : p.IsSequenced :=
  fun s hs => Sequence.isFinished_of_ofList (h s hs)

end Stencil
