import Mathlib.Tactic.Lemma
import Stencil.Proofs.Text.Cuts
import Stencil.Text.Position

/-!
# Positions by byte offsets

The position of a byte offset can be found without taking the text apart: the text is cut at the
offset, and what is in front of it is cut behind its last line feed. The line that is shown is then
found by its number. An offset between characters has both cuts between characters, and what comes
out is the position, and the line around it.

## Main definitions

* `lineStart` — the offset behind the last line feed.
* `positionInBytes` — the position of an offset, with checks.
* `numberedLine` — the line with a number.

## Main results

* `dropAt_lineStart` — cutting behind the last line feed leaves the last line.
* `positionInBytes_eq` — the position of an offset between characters is found.
* `numberedLine_count` — the line around an offset is found by its number.
-/

namespace Stencil.Text

/-! ## Positions -/

/-- The byte offset of the last line feed. -/
def lastFeed : List Char → Option Nat
  | [] => none
  | c :: cs =>
    match lastFeed cs with
    | some i => some (c.utf8Size + i)
    | none => if c = '\n' then some 0 else none

/-- The byte offset behind the last line feed, or the start of the text. -/
def lineStart (cs : List Char) : Nat :=
  match lastFeed cs with
  | some i => i + 1
  | none => 0

/-- The position of a byte offset. -/
def positionInBytes (cs : List Char) (offset : Nat) : Checked Position := do
  let before ← takeAt (min offset (size cs)) cs
  let line ← dropAt (lineStart before) before
  return ⟨before.count '\n' + 1, width line + 1⟩

/-- The line with a number. The first line has the number zero. -/
def numberedLine : Nat → List Char → List Char
  | 0, cs => firstLine cs
  | n + 1, cs => numberedLine n (cs.dropWhile (· ≠ '\n')).tail

section Positions

variable {front back line : List Char}

/-- The first line of a text begins with what holds no line feed. -/
lemma firstLine_append (h : '\n' ∉ line) (rest : List Char) :
    firstLine (line ++ rest) = line ++ firstLine rest := by
  refine List.takeWhile_append_of_pos fun c hc => ?_
  have hne : c ≠ '\n' := fun heq => h (heq ▸ hc)
  simpa using hne

/-- The last line is what stands behind the last line feed. -/
lemma lastLine_append_cons (front : List Char) (h : '\n' ∉ line) :
    lastLine (front ++ '\n' :: line) = line := by
  -- the last line is the first one of the text turned around
  have hline : '\n' ∉ line.reverse := mt List.mem_reverse.1 h
  have hreverse := firstLine_append hline ('\n' :: front.reverse)
  have htext : (front ++ '\n' :: line).reverse = line.reverse ++ '\n' :: front.reverse := by simp
  rw [lastLine, htext]
  refine (congrArg List.reverse hreverse).trans ?_
  simp [firstLine]

/-- A text without a line feed is its last line. -/
lemma lastLine_of_notMem (h : '\n' ∉ line) : lastLine line = line := by
  have hline : '\n' ∉ line.reverse := mt List.mem_reverse.1 h
  have hreverse := firstLine_append hline []
  rw [List.append_nil] at hreverse
  refine (congrArg List.reverse hreverse).trans ?_
  simp [firstLine]

/-- A text without a line feed has no last one. -/
lemma lastFeed_of_notMem (h : '\n' ∉ line) : lastFeed line = none := by
  induction line with
  | nil => rfl
  | cons c line ih =>
    obtain ⟨hc, hline⟩ := List.ne_and_not_mem_of_not_mem_cons h
    rw [lastFeed, ih hline]
    exact if_neg (Ne.symm hc)

/-- The last line feed stands in front of a text without one. -/
lemma lastFeed_append_cons (front : List Char) (h : '\n' ∉ line) :
    lastFeed (front ++ '\n' :: line) = some (size front) := by
  induction front with
  | nil => rw [List.nil_append, lastFeed, lastFeed_of_notMem h]; rfl
  | cons c front ih => rw [List.cons_append, lastFeed, ih]; rfl

/-- A text with a line feed has a last one. -/
lemma exists_lastFeed {cs : List Char} (h : '\n' ∈ cs) :
    ∃ front line, cs = front ++ '\n' :: line ∧ '\n' ∉ line := by
  obtain ⟨line, front, hcs, hline⟩ := List.eq_append_cons_of_mem (List.mem_reverse.2 h)
  refine ⟨front.reverse, line.reverse, ?_, by simpa using hline⟩
  rw [← List.reverse_reverse cs, hcs]
  simp

/-- **Cutting behind the last line feed leaves the last line.** -/
theorem dropAt_lineStart (cs : List Char) : dropAt (lineStart cs) cs = .ok (lastLine cs) := by
  by_cases h : '\n' ∈ cs
  · obtain ⟨front, line, rfl, hline⟩ := exists_lastFeed h
    have hstart : lineStart (front ++ '\n' :: line) = size (front ++ ['\n']) := by
      rw [lineStart, lastFeed_append_cons front hline, size_append]
      rfl
    rw [hstart, lastLine_append_cons front hline, List.append_cons front '\n' line]
    exact dropAt_size_append _ line
  · rw [lineStart, lastFeed_of_notMem h, lastLine_of_notMem h]
    exact dropAt_size_append [] cs

/-- **The position of an offset between characters is found.** -/
theorem positionInBytes_eq (front back : List Char) :
    positionInBytes (front ++ back) (size front) =
      .ok (positionAt (front ++ back) (size front)) := by
  have hmin : min (size front) (size (front ++ back)) = size front := by
    rw [size_append]
    omega
  simp only [positionInBytes, hmin, takeAt_size_append, bind, Except.bind, dropAt_lineStart,
    positionAt, takeBytes_size_append]
  rfl

/-- The lines behind a line feed are numbered from the number of line feeds in front. -/
lemma numberedLine_append_cons (n : Nat) (front rest : List Char) :
    numberedLine (front.count '\n' + (n + 1)) (front ++ '\n' :: rest) = numberedLine n rest := by
  induction front with
  | nil => simp [numberedLine]
  | cons c front ih =>
    -- a line feed in front uses up a number, and any other character belongs to a line in front
    by_cases hc : c = '\n'
    · subst hc
      rw [List.count_cons_self, Nat.add_right_comm, numberedLine]
      simpa using ih
    · rw [List.count_cons_of_ne hc, ← ih, ← Nat.add_assoc, numberedLine, numberedLine]
      simp [hc]

/-- **The line around an offset is found by its number.** -/
theorem numberedLine_count (front back : List Char) :
    numberedLine (front.count '\n') (front ++ back) = lastLine front ++ firstLine back := by
  by_cases h : '\n' ∈ front
  · obtain ⟨before, line, rfl, hline⟩ := exists_lastFeed h
    have hcount : (before ++ '\n' :: line).count '\n' = before.count '\n' + (0 + 1) := by
      rw [List.count_append, List.count_cons_self, List.count_eq_zero.2 hline]
    rw [hcount, List.append_assoc, List.cons_append, numberedLine_append_cons,
      lastLine_append_cons before hline]
    exact firstLine_append hline back
  · rw [List.count_eq_zero.2 h, lastLine_of_notMem h]
    exact firstLine_append h back

end Positions

end Stencil.Text
