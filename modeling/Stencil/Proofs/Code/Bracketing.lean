import Mathlib.Algebra.Group.Nat.Defs
import Mathlib.Tactic.Lemma
import Stencil.Proofs.Code.Rollback

/-!
# Sections are well bracketed

In a finished sequence every end of a section carries the index of the other one, and the
ranges of two sections lie apart or one inside the other. So a jump never leads out of the
sequence, and no target was left open.

## Main definitions

* `WellBracketed` — the ends of sections point at each other, and sections nest.

## Main results

* `Stands.region_of_open`, `Stands.region_of_close` — each end of a section that stands in a
  layout belongs to a section that stands there as a whole.
* `Sequence.IsFinished.wellBracketed` — finished sequences are well bracketed.
* `Builder.finish_wellBracketed` — whatever the calls were, what is finished is well bracketed.
-/

namespace Stencil

open Node

/-! ## The sections of a layout -/

namespace Stands

variable {is : List Instr}

/-- Where one instruction stands, there is no other. -/
lemma single {x y : Instr} {start i : Nat} (h : Stands is start [x]) (hlow : start ≤ i)
    (hhigh : i < start + 1) (hi : is[i]? = some y) : x = y := by
  obtain rfl : i = start := Nat.le_antisymm (Nat.le_of_lt_succ hhigh) hlow
  have hhead := h.head
  rw [hi] at hhead
  exact (Option.some.inj hhead).symm

mutual

/-- An opening within the layout of a tree starts a section that stands there as a whole. -/
lemma region_of_open : (n : Node) →
    ∀ {start i : Nat} {inverted : Bool} {path : Path} {target : Nat},
    Stands is start (n.layout start) → start ≤ i → i < start + n.size →
      is[i]? = some (.openSection inverted path target) →
        ∃ body, Stands is i ((Node.region inverted path body).layout i) ∧
          i + sizeAll body + 2 ≤ start + n.size
  | .text content, start, i, _, _, _, h, hlow, hhigh, hopen =>
    nomatch h.single hlow hhigh hopen
  | .interpolate escaped path, start, i, _, _, _, h, hlow, hhigh, hopen =>
    nomatch h.single hlow hhigh hopen
  | .enter name indent, start, i, _, _, _, h, hlow, hhigh, hopen =>
    nomatch h.single hlow hhigh hopen
  | .region inverted path body, start, i, _, _, _, h, hlow, hhigh, hopen => by
    obtain ⟨hfirst, hbody, hlast⟩ := h.region
    rw [size] at hhigh ⊢
    by_cases hstart : i = start
    · subst hstart
      rw [hfirst] at hopen
      cases hopen
      exact ⟨body, h, by omega⟩
    · have hend : i ≠ start + 1 + sizeAll body := by
        rintro rfl
        rw [hlast] at hopen
        cases hopen
      obtain ⟨inner, hinner, hwithin⟩ :=
        region_of_open_all body hbody (by omega) (by omega) hopen
      exact ⟨inner, hinner, by omega⟩

/-- An opening within the layout of a list of trees starts a section that stands there as a
whole. -/
lemma region_of_open_all : (ns : List Node) → ∀ {start i : Nat} {inverted : Bool} {path : Path}
    {target : Nat}, Stands is start (layoutAll start ns) → start ≤ i → i < start + sizeAll ns →
      is[i]? = some (.openSection inverted path target) →
        ∃ body, Stands is i ((Node.region inverted path body).layout i) ∧
          i + sizeAll body + 2 ≤ start + sizeAll ns
  | [], start, i, _, _, _, _, hlow, hhigh, _ => by
    rw [sizeAll] at hhigh
    omega
  | n :: ns, start, i, _, _, _, h, hlow, hhigh, hopen => by
    rw [sizeAll] at hhigh ⊢
    by_cases hhead : i < start + n.size
    · obtain ⟨body, hregion, hwithin⟩ := region_of_open n h.left hlow hhead hopen
      exact ⟨body, hregion, by omega⟩
    · have htail : Stands is (start + n.size) (layoutAll (start + n.size) ns) := by
        simpa using h.right
      obtain ⟨body, hregion, hwithin⟩ :=
        region_of_open_all ns htail (by omega) (by omega) hopen
      exact ⟨body, hregion, by omega⟩

end

mutual

/-- A closing within the layout of a tree ends a section that stands there as a whole. -/
lemma region_of_close : (n : Node) → ∀ {start j : Nat} {path : Path} {target : Nat},
    Stands is start (n.layout start) → start ≤ j → j < start + n.size →
      is[j]? = some (.closeSection path target) →
        ∃ inverted body, j = target + 1 + sizeAll body ∧
          Stands is target ((Node.region inverted path body).layout target)
  | .text content, start, j, _, _, h, hlow, hhigh, hclose =>
    nomatch h.single hlow hhigh hclose
  | .interpolate escaped path, start, j, _, _, h, hlow, hhigh, hclose =>
    nomatch h.single hlow hhigh hclose
  | .enter name indent, start, j, _, _, h, hlow, hhigh, hclose =>
    nomatch h.single hlow hhigh hclose
  | .region inverted path body, start, j, _, _, h, hlow, hhigh, hclose => by
    obtain ⟨hfirst, hbody, hlast⟩ := h.region
    rw [size] at hhigh
    by_cases hend : j = start + 1 + sizeAll body
    · subst hend
      rw [hlast] at hclose
      cases hclose
      exact ⟨inverted, body, rfl, h⟩
    · have hstart : j ≠ start := by
        rintro rfl
        rw [hfirst] at hclose
        cases hclose
      exact region_of_close_all body hbody (by omega) (by omega) hclose

/-- A closing within the layout of a list of trees ends a section that stands there as a
whole. -/
lemma region_of_close_all : (ns : List Node) → ∀ {start j : Nat} {path : Path} {target : Nat},
    Stands is start (layoutAll start ns) → start ≤ j → j < start + sizeAll ns →
      is[j]? = some (.closeSection path target) →
        ∃ inverted body, j = target + 1 + sizeAll body ∧
          Stands is target ((Node.region inverted path body).layout target)
  | [], start, j, _, _, _, hlow, hhigh, _ => by
    rw [sizeAll] at hhigh
    omega
  | n :: ns, start, j, _, _, h, hlow, hhigh, hclose => by
    rw [sizeAll] at hhigh
    by_cases hhead : j < start + n.size
    · exact region_of_close n h.left hlow hhead hclose
    · have htail : Stands is (start + n.size) (layoutAll (start + n.size) ns) := by
        simpa using h.right
      exact region_of_close_all ns htail (by omega) (by omega) hclose

end

end Stands

/-! ## Finished sequences -/

/-- The ends of sections point at each other, and of two sections one ends before the other
starts, or one lies inside the other. -/
structure WellBracketed (is : Array Instr) : Prop where
  size_pos : 0 < is.size
  /-- An opening stands before its closing, which has the same path and points back. -/
  closing : ∀ (i : Nat) (inverted : Bool) (path : Path) (target : Nat),
    is[i]? = some (.openSection inverted path target) →
      i < target ∧ is[target]? = some (.closeSection path i)
  /-- A closing belongs to one opening, and no other opening points at it. -/
  opening : ∀ (j : Nat) (path : Path) (target : Nat), is[j]? = some (.closeSection path target) →
    (∃ inverted, is[target]? = some (.openSection inverted path j)) ∧
      ∀ (i : Nat) (inverted : Bool) (other : Path),
        is[i]? = some (.openSection inverted other j) → i = target
  nested : ∀ (i j : Nat) (v w : Bool) (p q : Path) (s t : Nat),
    is[i]? = some (.openSection v p s) → is[j]? = some (.openSection w q t) → i < j →
      s < j ∨ t < s
  /-- Every target is an index. -/
  target_lt : ∀ i ∈ is, ∀ target, i.target? = some target → target < is.size

namespace Sequence.IsFinished

variable {s : Sequence}

/-- A finished sequence is laid out from its first index on. -/
lemma stands_outline (h : s.IsFinished) :
    Stands s.instrs.toList 0 (layoutAll 0 s.outline) := by
  rw [← h.layout_outline]
  exact Stands.refl _

/-- The number of instructions of a finished sequence. -/
lemma size_eq (h : s.IsFinished) : s.instrs.size = sizeAll s.outline := by
  rw [← Array.length_toList, h.layout_outline, length_layoutAll]

/-- An opening in a finished sequence starts a section of it. -/
lemma region_of_open (h : s.IsFinished) {i : Nat} {inverted : Bool} {path : Path} {target : Nat}
    (hopen : s.instrs.toList[i]? = some (.openSection inverted path target)) :
    ∃ body, target = i + 1 + sizeAll body ∧
      Stands s.instrs.toList i ((Node.region inverted path body).layout i) := by
  obtain ⟨hi, -⟩ := List.getElem?_eq_some_iff.1 hopen
  have hsize := h.size_eq
  rw [Array.length_toList] at hi
  obtain ⟨body, hregion, -⟩ :=
    Stands.region_of_open_all s.outline h.stands_outline (Nat.zero_le i) (by omega) hopen
  have hfirst := hregion.region.1
  rw [hopen] at hfirst
  cases hfirst
  exact ⟨body, rfl, hregion⟩

/-- A closing in a finished sequence ends a section of it. -/
lemma region_of_close (h : s.IsFinished) {j : Nat} {path : Path} {target : Nat}
    (hclose : s.instrs.toList[j]? = some (.closeSection path target)) :
    ∃ inverted body, j = target + 1 + sizeAll body ∧
      Stands s.instrs.toList target ((Node.region inverted path body).layout target) := by
  obtain ⟨hj, -⟩ := List.getElem?_eq_some_iff.1 hclose
  have hsize := h.size_eq
  rw [Array.length_toList] at hj
  exact Stands.region_of_close_all s.outline h.stands_outline (Nat.zero_le j) (by omega) hclose

/-- Of two sections of a finished sequence the first ends before the second starts, or the
second lies inside the first. -/
lemma nested (h : s.IsFinished) {i j : Nat} {v w : Bool} {p q : Path} {t u : Nat}
    (hi : s.instrs.toList[i]? = some (.openSection v p t))
    (hj : s.instrs.toList[j]? = some (.openSection w q u)) (hij : i < j) : t < j ∨ u < t := by
  obtain ⟨body, rfl, hregion⟩ := h.region_of_open hi
  obtain ⟨-, hbody, hlast⟩ := hregion.region
  have hne : j ≠ i + 1 + sizeAll body := by
    rintro rfl
    rw [hlast] at hj
    cases hj
  by_cases hinside : j < i + 1 + sizeAll body
  · obtain ⟨inner, hinner, hwithin⟩ := Stands.region_of_open_all body hbody hij hinside hj
    have hfirst := hinner.region.1
    rw [hj] at hfirst
    cases hfirst
    omega
  · omega

/-- **Finished sequences are well bracketed.**

**Proof sketch.** A finished sequence is the layout of its outline, and each end of a section in
a layout belongs to a section that stands there as a whole. -/
theorem wellBracketed (h : s.IsFinished) : WellBracketed s.instrs := by
  have hopens : ∀ (i : Nat) (inverted : Bool) (path : Path) (target : Nat),
      s.instrs[i]? = some (.openSection inverted path target) →
        i < target ∧ s.instrs[target]? = some (.closeSection path i) := by
    intro i inverted path target hopen
    rw [← Array.getElem?_toList] at hopen ⊢
    obtain ⟨body, rfl, hregion⟩ := h.region_of_open hopen
    exact ⟨by omega, hregion.region.2.2⟩
  have hcloses : ∀ (j : Nat) (path : Path) (target : Nat),
      s.instrs[j]? = some (.closeSection path target) →
        target < j ∧ ∃ inverted, s.instrs[target]? = some (.openSection inverted path j) := by
    intro j path target hclose
    rw [← Array.getElem?_toList] at hclose
    obtain ⟨inverted, body, rfl, hregion⟩ := h.region_of_close hclose
    refine ⟨by omega, inverted, ?_⟩
    rw [← Array.getElem?_toList]
    exact hregion.region.1
  refine ⟨s.size_pos, hopens, fun j path target hclose => ⟨(hcloses j path target hclose).2, ?_⟩,
    ?_, ?_⟩
  · intro i inverted other hopen
    have hback := (hopens i inverted other j hopen).2
    rw [hclose] at hback
    cases hback
    rfl
  · intro i j v w p q t u hi hj hij
    rw [← Array.getElem?_toList] at hi hj
    exact h.nested hi hj hij
  · intro x hx target htarget
    obtain ⟨i, hi⟩ := Array.mem_iff_getElem?.1 hx
    cases x with
    | openSection inverted path close =>
      cases htarget
      exact (Array.getElem?_eq_some_iff.1 (hopens i inverted path target hi).2).1
    | closeSection path start =>
      cases htarget
      obtain ⟨inverted, hopen⟩ := (hcloses i path target hi).2
      exact (Array.getElem?_eq_some_iff.1 hopen).1
    | text content => cases htarget
    | interpolate escaped path => cases htarget
    | enter name indent => cases htarget

end Sequence.IsFinished

/-- **Whatever the calls on a new builder were, and whichever of them failed, a sequence that is
finished is well bracketed.** As long as its indices are machine numbers, no target in it is
unresolved, and the index behind each target is a machine number too.

**Proof sketch.** A call in place leads to the same builder as a call on a copy, so the sequence
is the layout of trees. -/
theorem Builder.finish_wellBracketed {calls : List Call} {s : Sequence}
    (h : (afterAllInPlace calls).finish = .ok s) :
    WellBracketed s.instrs ∧
      (s.instrs.size ≤ Instr.unresolved → ∀ i ∈ s.instrs, ∀ target, i.target? = some target →
        target ≠ Instr.unresolved ∧ target + 1 < 2 ^ 64) := by
  have hfinished : s.IsFinished := ⟨calls, by rw [← afterAllInPlace_eq, h]⟩
  refine ⟨hfinished.wellBracketed, fun hsize i hi target htarget => ?_⟩
  have hlt := hfinished.wellBracketed.target_lt i hi target htarget
  rw [Instr.unresolved] at hsize ⊢
  omega

/-- A list of instructions that closes a section opened before it, and then does not fit, is
taken back, and so is a closing of the wrong section; the targets brought along are wrong. -/
theorem Builder.finish_wellBracketed_on_failures :
    ∃ a b : Path, ∃ s : Sequence,
      (afterAllInPlace
        [.push (.openSection false a 7), .push (.closeSection b 0),
          .extend [.openSection true b 0, .closeSection b 9, .closeSection a 3, .closeSection a 1],
          .extend [.text "x", .openSection true b 2, .closeSection b 2],
          .push (.closeSection a 5)]).finish = .ok s ∧
        s.instrs = #[.openSection false a 4, .text "x", .openSection true b 3, .closeSection b 2,
          .closeSection a 0] ∧
          WellBracketed s.instrs := by
  let a : Path := ⟨["a"], by decide⟩
  let b : Path := ⟨["b"], by decide⟩
  have hrun : (afterAllInPlace
      [.push (.openSection false a 7), .push (.closeSection b 0),
        .extend [.openSection true b 0, .closeSection b 9, .closeSection a 3, .closeSection a 1],
        .extend [.text "x", .openSection true b 2, .closeSection b 2],
        .push (.closeSection a 5)]).finish.toOption.map (·.instrs) =
      some #[.openSection false a 4, .text "x", .openSection true b 3, .closeSection b 2,
        .closeSection a 0] := by
    decide +kernel
  obtain ⟨s, hfinish, hinstrs⟩ := exists_of_toOption_map_eq_some hrun
  exact ⟨a, b, s, hfinish, hinstrs, (finish_wellBracketed hfinish).1⟩

end Stencil
