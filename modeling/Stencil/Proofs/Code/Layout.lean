import Mathlib.Tactic.Lemma
import Stencil.Code.Outline

/-!
# The layout of trees

The flat form of a list of trees that starts at a given index: a section becomes its opening,
its body and its closing, and the two ends carry each other's index. This is the inverse of
reading the outline, and it says where every jump of a sequence leads.

## Main definitions

* `Node.size`, `Node.sizeAll` — the number of instructions of a tree and of a list of trees.
* `Node.layout`, `Node.layoutAll` — their instructions, from a given index on.
* `Stands` — a list of instructions stands at an index of another one.

## Main results

* `outline_layoutAll` — the outline of a layout is the list of trees that was laid out.
* `Stands.region` — where the ends and the body of a section stand.
-/

namespace Stencil

namespace Node

mutual

/-- The number of instructions of a tree. -/
def size : Node → Nat
  | .region _ _ body => sizeAll body + 2
  | .text _ => 1
  | .interpolate _ _ => 1
  | .enter _ _ => 1

/-- The number of instructions of a list of trees. -/
def sizeAll : List Node → Nat
  | [] => 0
  | n :: ns => n.size + sizeAll ns

end

mutual

/-- The instructions of a tree that starts at an index. -/
def layout : Nat → Node → List Instr
  | _, .text content => [.text content]
  | _, .interpolate escaped path => [.interpolate escaped path]
  | _, .enter name indent => [.enter name indent]
  | i, .region inverted path body =>
    .openSection inverted path (i + 1 + sizeAll body) ::
      (layoutAll (i + 1) body ++ [.closeSection path i])

/-- The instructions of a list of trees of which the first starts at an index. -/
def layoutAll : Nat → List Node → List Instr
  | _, [] => []
  | i, n :: ns => n.layout i ++ layoutAll (i + n.size) ns

end

mutual

/-- A layout has as many instructions as its tree. -/
@[simp]
lemma length_layout (i : Nat) : (n : Node) → (n.layout i).length = n.size
  | .text _ => rfl
  | .interpolate _ _ => rfl
  | .enter _ _ => rfl
  | .region _ _ body => by
    have hbody := length_layoutAll (i + 1) body
    simp [layout, size, hbody]

/-- A layout has as many instructions as its trees. -/
@[simp]
lemma length_layoutAll (i : Nat) : (ns : List Node) → (layoutAll i ns).length = sizeAll ns
  | [] => rfl
  | n :: ns => by
    have hhead := length_layout i n
    have htail := length_layoutAll (i + n.size) ns
    simp [layoutAll, sizeAll, hhead, htail]

end

/-- The layout of two lists of trees in a row. -/
lemma layoutAll_append (i : Nat) (ms ns : List Node) :
    layoutAll i (ms ++ ns) = layoutAll i ms ++ layoutAll (i + sizeAll ms) ns := by
  induction ms generalizing i with
  | nil => simp [layoutAll, sizeAll]
  | cons m ms ih => simp [layoutAll, sizeAll, ih, Nat.add_assoc]

/-- The layout of a single tree. -/
@[simp]
lemma layoutAll_singleton (i : Nat) (n : Node) : layoutAll i [n] = n.layout i := by
  simp [layoutAll]

end Node

open Node

/-! ## Reading a layout back -/

mutual

/-- Reading the layout of a tree puts the tree in front of what follows. -/
lemma outlineLevels_layout (i : Nat) (rest : List Instr) : (n : Node) →
    outlineLevels (n.layout i ++ rest) = (n :: (outlineLevels rest).1, (outlineLevels rest).2)
  | .text _ => rfl
  | .interpolate _ _ => rfl
  | .enter _ _ => rfl
  | .region inverted path body => by
    have hbody := outlineLevels_layoutAll (i + 1) (.closeSection path i :: rest) body
    simp only [layout, List.cons_append, List.append_assoc, List.nil_append, outlineLevels,
      hbody, List.append_nil]

/-- Reading the layout of a list of trees puts the trees in front of what follows. -/
lemma outlineLevels_layoutAll (i : Nat) (rest : List Instr) : (ns : List Node) →
    outlineLevels (layoutAll i ns ++ rest) =
      (ns ++ (outlineLevels rest).1, (outlineLevels rest).2)
  | [] => rfl
  | n :: ns => by
    have htail := outlineLevels_layoutAll (i + n.size) rest ns
    have hhead := outlineLevels_layout i (layoutAll (i + n.size) ns ++ rest) n
    simp only [layoutAll, List.append_assoc, hhead, htail, List.cons_append]

end

/-- The outline of a layout is the list of trees that was laid out. -/
theorem outline_layoutAll (i : Nat) (ns : List Node) : outline (layoutAll i ns) = ns := by
  have h := outlineLevels_layoutAll i [] ns
  simp only [List.append_nil] at h
  simp [outline, h, outlineLevels]

/-! ## Places in a list of instructions -/

/-- The instructions `xs` stand in `is` from the index `i` on. -/
def Stands (is : List Instr) (i : Nat) (xs : List Instr) : Prop :=
  xs <+: is.drop i

namespace Stands

variable {is xs ys : List Instr} {i : Nat}

/-- The first of the instructions stands at the index itself. -/
lemma head {x : Instr} (h : Stands is i (x :: xs)) : is[i]? = some x := by
  obtain ⟨rest, hrest⟩ := h
  have hhead : (is.drop i)[0]? = some x := by rw [← hrest]; rfl
  simpa using hhead

/-- A first part stands at the same index. -/
lemma left (h : Stands is i (xs ++ ys)) : Stands is i xs :=
  (List.prefix_append xs ys).trans h

/-- A second part stands behind the first one. -/
lemma right (h : Stands is i (xs ++ ys)) : Stands is (i + xs.length) ys := by
  obtain ⟨rest, hrest⟩ := h
  refine ⟨rest, ?_⟩
  rw [← List.drop_drop, ← hrest]
  simp

/-- All but the first of the instructions stand one further. -/
lemma tail {x : Instr} (h : Stands is i (x :: xs)) : Stands is (i + 1) xs :=
  right (show Stands is i ([x] ++ xs) from h)

/-- A list stands in itself from its start. -/
lemma refl (is : List Instr) : Stands is 0 is := by
  simp [Stands]

/-- The opening, the body and the closing of a section that is laid out. -/
theorem region {inverted : Bool} {path : Path} {body : List Node}
    (h : Stands is i ((Node.region inverted path body).layout i)) :
    is[i]? = some (.openSection inverted path (i + 1 + sizeAll body)) ∧
      Stands is (i + 1) (layoutAll (i + 1) body) ∧
      is[i + 1 + sizeAll body]? = some (.closeSection path i) := by
  rw [layout] at h
  refine ⟨h.head, h.tail.left, ?_⟩
  have hclose := h.tail.right.head
  rwa [length_layoutAll] at hclose

end Stands

end Stencil
