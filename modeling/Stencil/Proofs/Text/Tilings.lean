import Mathlib.Data.List.Forall2
import Mathlib.Tactic.Lemma
import Stencil.Proofs.Text.Covers

/-!
# Ranges side by side

A text that is cut into parts is tiled by the ranges of these parts: each one starts where the one
in front of it stops, and what they name, put together, is the text again. A line of a text is such
a part, so whether a range lies within a line is told by the sizes of the lines in front of it.

## Main definitions

* `Tiles` — ranges that lie side by side between two offsets.
* `ranges` — the ranges of parts that follow one after the other.
* `Span.LiesInLine` — the range lies within one of the lines.

## Main results

* `tiles_ranges` — the ranges of parts tile what the parts take up.
* `covers_ranges` — each range covers its part.
* `Span.LiesInLine.not_of_between` — the start of a line keeps ranges in different lines.
-/

namespace Stencil.Text

variable {start stop n : Nat} {parts : List (List Char)} {part : List Char}

/-! ## Tilings -/

/-- Ranges between two offsets that lie side by side, without a gap and without overlap. None of
them is empty. -/
inductive Tiles : Nat → List Span → Nat → Prop where
  | nil (n : Nat) : Tiles n [] n
  | cons {start stop stop' : Nat} {rest : List Span} (hlt : start < stop)
    (h : Tiles stop rest stop') : Tiles start (⟨start, stop⟩ :: rest) stop'

/-- The ranges of parts that follow one after the other from an offset on. -/
def ranges (n : Nat) : List (List Char) → List Span
  | [] => []
  | part :: rest => ⟨n, n + size part⟩ :: ranges (n + size part) rest

/-- The ranges of further parts lie behind. -/
lemma ranges_append (n : Nat) (xs ys : List (List Char)) :
    ranges n (xs ++ ys) = ranges n xs ++ ranges (n + size xs.flatten) ys := by
  induction xs generalizing n with
  | nil => rfl
  | cons part xs ih =>
    simp only [List.cons_append, ranges, ih, List.flatten_cons, size_append, Nat.add_assoc]

/-- **The ranges of parts tile what the parts take up.** -/
theorem tiles_ranges (n : Nat) (h : ∀ part ∈ parts, part ≠ []) :
    Tiles n (ranges n parts) (n + size parts.flatten) := by
  induction parts generalizing n with
  | nil => exact .nil n
  | cons part rest ih =>
    obtain ⟨hpart, hrest⟩ := List.forall_mem_cons.1 h
    have hpos := size_pos hpart
    rw [List.flatten_cons, size_append, ← Nat.add_assoc]
    exact .cons (by omega) (ih (n + size part) hrest)

/-- The ranges of parts lie in front of the offset behind the parts. -/
lemma stop_le_of_mem_ranges {s : Span} (h : s ∈ ranges n parts) :
    s.stop ≤ n + size parts.flatten := by
  induction parts generalizing n with
  | nil => cases h
  | cons part rest ih =>
    rw [List.flatten_cons, size_append, ← Nat.add_assoc]
    rcases List.mem_cons.1 h with rfl | h
    · exact Nat.le_add_right _ _
    · exact ih h

/-- **Each range covers its part.** -/
theorem covers_ranges (front back : List Char) (parts : List (List Char)) :
    List.Forall₂ (fun s part => s.Covers (front ++ parts.flatten ++ back) part)
      (ranges (size front) parts) parts := by
  induction parts generalizing front with
  | nil => exact .nil
  | cons part rest ih =>
    refine .cons ⟨front, rest.flatten ++ back, by simp, by rw [size_append]⟩ ?_
    simpa using ih (front ++ part)

/-- What the ranges of parts name are the parts. -/
lemma map_slice_ranges (front back : List Char) (parts : List (List Char)) :
    (ranges (size front) parts).map (·.slice (front ++ parts.flatten ++ back)) = parts := by
  have hslices := (covers_ranges front back parts).imp fun _ _ hcovers => hcovers.slice_eq
  exact List.forall₂_eq_eq_eq ▸ List.forall₂_map_left_iff.2 hslices

/-! ## Lines -/

/-- The range lies within one of the lines: not in front of it and not behind it. -/
def Span.LiesInLine (s : Span) (lns : List (List Char)) (i : Nat) : Prop :=
  i < lns.length ∧ size (lns.take i).flatten ≤ s.start ∧ s.stop ≤ size (lns.take (i + 1)).flatten

/-- More lines take up more. -/
lemma size_flatten_take_mono (lns : List (List Char)) {i j : Nat} (h : i ≤ j) :
    size (lns.take i).flatten ≤ size (lns.take j).flatten := by
  have hprefix : lns.take i <+: lns.take j := List.take_prefix_take_left h
  obtain ⟨more, hmore⟩ := hprefix
  rw [← hmore, List.flatten_append, size_append]
  omega

namespace Span.LiesInLine

variable {s t : Span} {lns : List (List Char)} {i j : Nat}

/-- A range behind a part of a line that follows some lines. -/
lemma of_append {past later : List (List Char)} {used part rest : List Char}
    (hlines : lns = past ++ (used ++ part ++ rest) :: later)
    (hs : s = ⟨size (past.flatten ++ used), size (past.flatten ++ used) + size part⟩) :
    s.LiesInLine lns past.length := by
  subst hlines hs
  have htake : ((past ++ (used ++ part ++ rest) :: later).take (past.length + 1)).flatten =
      past.flatten ++ (used ++ part ++ rest) := by
    rw [List.take_length_add_append]
    simp
  refine ⟨by simp, by simp, ?_⟩
  rw [htake]
  simp only [size_append]
  omega

/-- **Ranges on both sides of the start of a line** lie in different lines. -/
theorem not_of_between (hs : s.LiesInLine lns i) (ht : t.LiesInLine lns i)
    (hs' : s.start < s.stop) (ht' : t.start < t.stop)
    (hbefore : s.stop ≤ size (lns.take j).flatten)
    (hbehind : size (lns.take j).flatten ≤ t.start) : False := by
  obtain ⟨-, hstart, -⟩ := hs
  obtain ⟨-, -, hstop⟩ := ht
  rcases Nat.lt_or_ge i j with hlt | hge
  · have hmono := size_flatten_take_mono lns (show i + 1 ≤ j from hlt)
    omega
  · have hmono := size_flatten_take_mono lns hge
    omega

end Span.LiesInLine

end Stencil.Text
