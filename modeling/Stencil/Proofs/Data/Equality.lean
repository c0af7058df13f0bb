import Mathlib.Data.List.Forall2
import Mathlib.Tactic.Lemma
import Stencil.Proofs.Data.Conversions

/-!
# Equal values

Values are compared part by part. Two values of different kinds are never equal, objects are
compared by identity, and a float that is not a number is not even equal to itself. So comparing
is symmetric and transitive, but there are values that do not equal themselves.

## Main definitions

* `Value.Matches` — all that two equal values can be.
* `Value.parts` — the values right inside of a value.

## Main results

* `Value.same_eq_true_iff` — two values are equal exactly if they match.
* `Value.induction_on_parts` — induction on the values right inside of a value.
* `Value.same_symm`, `Value.same_trans` — equality is symmetric and transitive.
* `Value.same_self_iff` — a value equals itself unless it has a float that is not a number.
* `Value.eq_isPartialEquivalence` — all of this for the equality of values.
-/

namespace Stencil

/-- Two relations between lists, one behind the other. -/
lemma forall₂_trans {α : Type} {R S T : α → α → Prop} {as bs cs : List α}
    (h : List.Forall₂ R as bs) (h' : List.Forall₂ S bs cs)
    (htrans : ∀ a b c, R a b → S b c → T a c) : List.Forall₂ T as cs := by
  induction h generalizing cs with
  | nil =>
    cases h'
    exact .nil
  | cons hab _ ih =>
    cases h' with
    | cons hbc hrest => exact .cons (htrans _ _ _ hab hbc) (ih hrest)

namespace Binary64

variable {x y z : Binary64}

/-- Two floats are equal exactly if both are numbers, and they are the same or both are zero. -/
lemma same_eq_true_iff : x.same y = true ↔
    x.isNaN = false ∧ y.isNaN = false ∧ (x = y ∨ x.isZero = true ∧ y.isZero = true) := by
  simp [same, and_assoc]

/-- Equality of floats is symmetric. -/
lemma same_symm (h : x.same y = true) : y.same x = true := by
  obtain ⟨hx, hy, hxy⟩ := same_eq_true_iff.1 h
  exact same_eq_true_iff.2 ⟨hy, hx, hxy.imp Eq.symm And.symm⟩

/-- Equality of floats is transitive. -/
lemma same_trans (h : x.same y = true) (h' : y.same z = true) : x.same z = true := by
  obtain ⟨hx, -, hxy⟩ := same_eq_true_iff.1 h
  obtain ⟨-, hz, hyz⟩ := same_eq_true_iff.1 h'
  refine same_eq_true_iff.2 ⟨hx, hz, ?_⟩
  rcases hxy with rfl | ⟨hxzero, hyzero⟩
  · exact hyz
  · rcases hyz with rfl | ⟨-, hzzero⟩
    · exact .inr ⟨hxzero, hyzero⟩
    · exact .inr ⟨hxzero, hzzero⟩

/-- A float equals itself if it is a number. -/
lemma same_self_iff : x.same x = true ↔ x.isNaN = false := by
  simp [same_eq_true_iff]

end Binary64

namespace Value

variable {u v w : Value}

/-! ## Comparing part by part -/

/-- All that two equal values can be. -/
inductive Matches : Value → Value → Prop where
  | none : Matches none none
  | bool (b : Bool) : Matches (bool b) (bool b)
  | integer (n : Int64) : Matches (integer n) (integer n)
  | float {x y : Binary64} (h : x.same y = true) : Matches (float x) (float y)
  | string (s : String) : Matches (string s) (string s)
  | list {as bs : List Value} (h : List.Forall₂ (fun v w => v.same w = true) as bs) :
    Matches (list as) (list bs)
  | map {as bs : List (String × Value)}
    (h : List.Forall₂ (fun a b => a.1 = b.1 ∧ a.2.same b.2 = true) as bs) :
    Matches (map as) (map bs)
  | object (id : Nat) (field call field' call' : String → Option Value) :
    Matches (object id field call) (object id field' call')

/-- Lists are compared item by item. -/
lemma sameItems_eq_true_iff (as bs : List Value) :
    sameItems as bs = true ↔ List.Forall₂ (fun v w => v.same w = true) as bs := by
  induction as generalizing bs with
  | nil => cases bs <;> simp [sameItems]
  | cons a as ih => cases bs <;> simp [sameItems, ih]

/-- Maps are compared entry by entry. -/
lemma sameEntries_eq_true_iff (as bs : List (String × Value)) :
    sameEntries as bs = true ↔
      List.Forall₂ (fun a b => a.1 = b.1 ∧ a.2.same b.2 = true) as bs := by
  induction as generalizing bs with
  | nil => cases bs <;> simp [sameEntries]
  | cons a as ih => cases bs <;> simp [sameEntries, ih]

/-- **Two values are equal exactly if they match.** -/
theorem same_eq_true_iff : v.same w = true ↔ v.Matches w := by
  constructor
  · intro h
    cases v <;> cases w <;> simp only [same, beq_iff_eq, Bool.false_eq_true] at h
    · exact .none
    · exact h ▸ .bool _
    · exact h ▸ .integer _
    · exact .float h
    · exact h ▸ .string _
    · exact .list ((sameItems_eq_true_iff _ _).1 h)
    · exact .map ((sameEntries_eq_true_iff _ _).1 h)
    · exact h ▸ .object _ _ _ _ _
  · intro h
    cases h with
    | none => rfl
    | bool b => simp [same]
    | integer n => simp [same]
    | float h => exact h
    | string s => simp [same]
    | list h => exact (sameItems_eq_true_iff _ _).2 h
    | map h => exact (sameEntries_eq_true_iff _ _).2 h
    | object id => simp [same]

/-! ## Induction on values -/

/-- The values right inside of a value. The answers of an object are not among them. -/
def parts : Value → List Value
  | list items => items
  | map entries => entries.map (·.2)
  | _ => []

/-- A value right inside of another one is smaller. -/
lemma sizeOf_lt_of_mem_parts (h : w ∈ v.parts) : sizeOf w < sizeOf v := by
  unfold parts at h
  split at h
  · rename_i items
    have hitem := List.sizeOf_lt_of_mem h
    rw [list.sizeOf_spec]
    omega
  · rename_i entries
    obtain ⟨⟨name, u⟩, hentry, rfl⟩ := List.mem_map.1 h
    have hlt := List.sizeOf_lt_of_mem hentry
    rw [Prod.mk.sizeOf_spec] at hlt
    rw [map.sizeOf_spec]
    show sizeOf u < 1 + sizeOf entries
    omega
  · cases h

/-- **Induction on values**: what holds of a value if it holds of all values right inside of it
holds of every value. -/
theorem induction_on_parts {P : Value → Prop} (step : ∀ v, (∀ w ∈ v.parts, P w) → P v)
    (v : Value) : P v := by
  induction hsize : sizeOf v using Nat.strong_induction_on generalizing v with
  | _ n ih =>
    subst hsize
    exact step v fun w hw => ih (sizeOf w) (sizeOf_lt_of_mem_parts hw) w rfl

/-! ## Equality as a relation -/

/-- **The order does not matter.** -/
theorem same_symm (h : v.same w = true) : w.same v = true := by
  induction v using induction_on_parts generalizing w with
  | step v ih =>
    rw [same_eq_true_iff] at h ⊢
    cases h with
    | none => exact .none
    | bool b => exact .bool b
    | integer n => exact .integer n
    | float h => exact .float (Binary64.same_symm h)
    | string s => exact .string s
    | list h =>
      refine .list (List.Forall₂.flip ?_)
      exact ((List.forall₂_and_left _ _).2 ⟨ih, h⟩).imp fun a b hab => hab.1 hab.2
    | map h =>
      have hparts := List.forall_mem_map.1 ih
      refine .map (List.Forall₂.flip ?_)
      exact ((List.forall₂_and_left _ _).2 ⟨hparts, h⟩).imp fun a b hab =>
        ⟨hab.2.1.symm, hab.1 hab.2.2⟩
    | object id field call field' call' => exact .object id field' call' field call

/-- **What equals an equal value is equal.** -/
theorem same_trans (h : u.same v = true) (h' : v.same w = true) : u.same w = true := by
  induction u using induction_on_parts generalizing v w with
  | step u ih =>
    rw [same_eq_true_iff] at h h' ⊢
    cases h with
    | none => exact h'
    | bool b => exact h'
    | integer n => exact h'
    | float h =>
      cases h' with
      | float h' => exact .float (Binary64.same_trans h h')
    | string s => exact h'
    | list h =>
      cases h' with
      | list h' =>
        refine .list (forall₂_trans ((List.forall₂_and_left _ _).2 ⟨ih, h⟩) h' ?_)
        exact fun a b c hab hbc => hab.1 hab.2 hbc
    | map h =>
      cases h' with
      | map h' =>
        have hparts := List.forall_mem_map.1 ih
        refine .map (forall₂_trans ((List.forall₂_and_left _ _).2 ⟨hparts, h⟩) h' ?_)
        exact fun a b c hab hbc => ⟨hab.2.1.trans hbc.1, hab.1 hab.2.2 hbc.2⟩
    | object id =>
      cases h' with
      | object => exact .object id _ _ _ _

/-- Equal values are of one kind. -/
lemma kindName_eq_of_same (h : v.same w = true) : v.kindName = w.kindName := by
  cases same_eq_true_iff.1 h <;> rfl

/-! ## Values that equal themselves -/

/-- What is inside of a value: the value itself, and what is inside of the values right inside of
it. -/
lemma holds_iff : v.Holds w ↔ w = v ∨ ∃ u ∈ v.parts, u.Holds w := by
  constructor
  · rintro (_ | ⟨hv, h⟩ | ⟨hv, h⟩)
    · exact .inl rfl
    · exact .inr ⟨_, hv, h⟩
    · exact .inr ⟨_, List.mem_map_of_mem hv, h⟩
  · rintro (rfl | ⟨u, hu, h⟩)
    · exact .self w
    · unfold parts at hu
      split at hu
      · exact h.item hu
      · obtain ⟨e, he, rfl⟩ := List.mem_map.1 hu
        exact h.entry he
      · cases hu

/-- A value equals itself if the values right inside of it do, and it is no float that is not a
number. -/
lemma same_self_iff_parts :
    v.same v = true ↔ (∀ x, v = float x → x.isNaN = false) ∧ ∀ w ∈ v.parts, w.same w = true := by
  cases v with
  | float x => simp [same, parts, Binary64.same_self_iff]
  | list items => simp [same, parts, sameItems_eq_true_iff, List.forall₂_same]
  | map entries =>
    rw [parts, List.forall_mem_map]
    simp [same, sameEntries_eq_true_iff, List.forall₂_same]
  | none => simp [same, parts]
  | bool b => simp [same, parts]
  | integer n => simp [same, parts]
  | string s => simp [same, parts]
  | object id field call => simp [same, parts]

/-- **A value equals itself exactly if no float inside of it is not a number.** -/
theorem same_self_iff : v.same v = true ↔ ∀ x, v.Holds (float x) → x.isNaN = false := by
  induction v using induction_on_parts with
  | step v ih =>
    rw [same_self_iff_parts, forall₂_congr ih]
    simp only [holds_iff (v := v)]
    constructor
    · rintro ⟨hself, hparts⟩ x (hx | ⟨w, hw, hx⟩)
      · exact hself x hx.symm
      · exact hparts w hw x hx
    · intro h
      exact ⟨fun x hx => h x (.inl hx.symm), fun w hw x hx => h x (.inr ⟨w, hw, hx⟩)⟩

/-- **Equality of values is a partial equivalence.** It is symmetric and transitive, and it never
holds between two values of different kinds. A value equals itself exactly if none of the floats
in it, at any depth of its lists and maps, is not a number. -/
theorem eq_isPartialEquivalence :
    (∀ v w : Value, (v == w) = (w == v)) ∧
      (∀ u v w : Value, (u == v) = true → (v == w) = true → (u == w) = true) ∧
      (∀ v w : Value, v.kindName ≠ w.kindName → (v == w) = false) ∧
      ∀ v : Value, (v == v) = true ↔ ∀ x, v.Holds (float x) → x.isNaN = false := by
  refine ⟨fun v w => ?_, fun u v w h h' => same_trans h h', fun v w hkind => ?_,
    fun v => same_self_iff⟩
  · exact Bool.eq_iff_iff.2 ⟨same_symm, same_symm⟩
  · exact Bool.eq_false_iff.2 fun h => hkind (kindName_eq_of_same h)

/-- The two zeros, inside of a list in a map, and a list with a float that is not a number. -/
theorem eq_isPartialEquivalence_on_zeros :
    ∃ u v w : Value, u = map [("a", list [float ⟨0⟩, integer 1])] ∧
      v = map [("a", list [float ⟨0x8000000000000000⟩, integer 1])] ∧
      w = list [string "x", float ⟨0x7ff8000000000000⟩] ∧
      (u == v) = true ∧ (v == u) = true ∧ (u == u) = true ∧ (u == w) = false ∧
      (w == w) = false := by
  obtain ⟨hsymm, htrans, hkind, hself⟩ := eq_isPartialEquivalence
  have huv : (map [("a", list [float ⟨0⟩, integer 1])] ==
      map [("a", list [float ⟨0x8000000000000000⟩, integer 1])]) = true := by decide
  have hvu := (hsymm _ _).symm.trans huv
  refine ⟨_, _, list [string "x", float ⟨0x7ff8000000000000⟩], rfl, rfl, rfl, huv, hvu,
    htrans _ _ _ huv hvu, hkind _ _ (by decide), ?_⟩
  rw [← Bool.not_eq_true, hself]
  intro h
  have hnan := h ⟨0x7ff8000000000000⟩ (.item (by simp) (.self _))
  exact absurd hnan (by decide)

end Value
end Stencil
