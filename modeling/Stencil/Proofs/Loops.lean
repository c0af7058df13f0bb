import Mathlib.Logic.Relation
import Mathlib.Tactic.Lemma

/-!
# Loops

A loop repeats a step on a state until the step gives an answer. Nothing bounds such a loop from
outside, so that it ends is something to be proved of the step.

## Main definitions

* `EndsIn` — a loop ends in a given iteration with a given answer.
* `Passes` — a loop comes from one state to another.

## Main results

* `EndsIn.unique` — a loop ends in one way.
* `EndsIn.exists_last` — a loop that ends comes to a state of which the step gives the answer.
* `Passes.invariant` — what every step keeps stays.
-/

namespace Stencil

variable {σ α : Type}

/-- The loop that repeats `step` ends in its `n`-th iteration with the answer `a`. -/
inductive EndsIn (step : σ → α ⊕ σ) : σ → Nat → α → Prop where
  /-- The iteration gives the answer. -/
  | last {s : σ} {a : α} : step s = .inl a → EndsIn step s 1 a
  /-- The loop goes on. -/
  | more {s s' : σ} {n : Nat} {a : α} : step s = .inr s' → EndsIn step s' n a →
      EndsIn step s (n + 1) a

/-- The loop that repeats `step` comes from one state to the other, in any number of
iterations. -/
def Passes (step : σ → α ⊕ σ) : σ → σ → Prop :=
  Relation.ReflTransGen fun s s' => step s = .inr s'

variable {step : σ → α ⊕ σ} {s s' : σ} {m n : Nat} {a b : α}

/-- **A loop ends in one way.** -/
theorem EndsIn.unique (h : EndsIn step s m a) (h' : EndsIn step s n b) : m = n ∧ a = b := by
  induction h generalizing n with
  | last hlast =>
    cases h' with
    | last hlast' => simpa [hlast] using hlast'
    | more hmore' _ => simp [hlast] at hmore'
  | more hmore _ ih =>
    cases h' with
    | last hlast' => simp [hmore] at hlast'
    | more hmore' hrest' =>
      obtain rfl := Sum.inr.inj (hmore.symm.trans hmore')
      obtain ⟨rfl, rfl⟩ := ih hrest'
      exact ⟨rfl, rfl⟩

/-- **A loop that ends comes to a state of which the step gives the answer.** -/
theorem EndsIn.exists_last (h : EndsIn step s n a) : ∃ s', Passes step s s' ∧ step s' = .inl a := by
  induction h with
  | @last s a hlast => exact ⟨s, .refl, hlast⟩
  | more hmore _ ih =>
    obtain ⟨s'', hpasses, hlast⟩ := ih
    exact ⟨s'', .head hmore hpasses, hlast⟩

namespace Passes

/-- One iteration. -/
lemma of_step (h : step s = .inr s') : Passes step s s' := .single h

/-- A loop ends if it ends from a state that it comes to. -/
lemma endsIn (h : Passes step s s') (hend : EndsIn step s' n a) : ∃ k, EndsIn step s k a := by
  induction h using Relation.ReflTransGen.head_induction_on with
  | refl => exact ⟨n, hend⟩
  | head hstep _ ih =>
    obtain ⟨k, hk⟩ := ih
    exact ⟨k + 1, .more hstep hk⟩

/-- **What every step keeps stays.** -/
theorem invariant {P : σ → Prop} (hkeep : ∀ s s', step s = .inr s' → P s → P s')
    (h : Passes step s s') (hs : P s) : P s' := by
  induction h with
  | refl => exact hs
  | tail _ hstep ih => exact hkeep _ _ hstep ih

end Passes

end Stencil
