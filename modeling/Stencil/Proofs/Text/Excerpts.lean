import Mathlib.Data.List.DropRight
import Mathlib.Tactic.Lemma
import Stencil.Proofs.Text.Breaks
import Stencil.Proofs.Text.Covers
import Stencil.Proofs.Text.Positions

/-!
# The line in which a part starts

The line of a text in which a part starts is shown without its line feed and the carriage returns
in front of that. The part itself is only cut at its first line feed. So there may be carriage
returns that belong to the part on this line and are not shown.

## Main definitions

* `Shown` — a line of a text, cut at the ends of the part and of what is shown.
* `Shown.Fits` — how this line lies to the text and to the range of the part.

## Main results

* `lineAt_eq` — what is shown of a line if something but its end stands behind an offset.
* `exists_shown` — each part that does not begin with a line break starts in such a line.
-/

namespace Stencil.Text

/-- A line of a text, cut at the ends of a part that starts in it and of what is shown of it. -/
structure Shown where
  /-- The lines above, with their line feeds. -/
  above : List Char
  /-- What stands on the line in front of the part. -/
  lead : List Char
  /-- The part, as far as it is shown. -/
  visible : List Char
  /-- What is shown of the line behind the part. -/
  beside : List Char
  /-- The carriage returns at the end of the line that belong to the part. -/
  cut : List Char
  /-- The other carriage returns at the end of the line. -/
  trailing : List Char
  /-- The line feed at the end of the line, and the lines below. -/
  below : List Char

namespace Shown

/-- The line as it is shown. -/
def code (s : Shown) : List Char := s.lead ++ s.visible ++ s.beside

/-- How a line lies to a text and to the range of a part of it. The line stands between line feeds,
and what is not shown of it are the carriage returns at its end. The part starts behind what stands
in front of it, and ends on the line unless it holds the whole rest of the line. -/
structure Fits (s : Shown) (cs : List Char) (span : Span) : Prop where
  text_eq : cs = s.above ++ s.code ++ (s.cut ++ s.trailing) ++ s.below
  above_ends : s.above = [] ∨ ∃ front, s.above = front ++ ['\n']
  below_starts : s.below = [] ∨ ∃ back, s.below = '\n' :: back
  unbroken : '\n' ∉ s.code
  trimmed : s.code.getLast? ≠ some '\r'
  returns : ∀ c ∈ s.cut ++ s.trailing, c = '\r'
  start_eq : span.start = size (s.above ++ s.lead)
  part : ∃ further, span.Covers cs (s.visible ++ s.cut ++ further) ∧
    (further ≠ [] → s.beside = [] ∧ s.trailing = [])
  beside : s.beside ≠ [] → s.cut = []

end Shown

section Lines

variable {front rest part : List Char} {span : Span}

/-- A text is cut behind its last line feed. -/
lemma exists_lastLine (front : List Char) :
    ∃ above, front = above ++ lastLine front ∧ '\n' ∉ lastLine front ∧
      (above = [] ∨ ∃ before, above = before ++ ['\n']) := by
  by_cases h : '\n' ∈ front
  · obtain ⟨before, line, rfl, hline⟩ := exists_lastFeed h
    rw [lastLine_append_cons before hline]
    exact ⟨before ++ ['\n'], by simp, hline, .inr ⟨before, rfl⟩⟩
  · rw [lastLine_of_notMem h]
    exact ⟨[], rfl, h, .inl rfl⟩

/-- A text is cut in front of its first line feed. -/
lemma exists_firstLine (rest : List Char) :
    ∃ below, rest = firstLine rest ++ below ∧ '\n' ∉ firstLine rest ∧
      (below = [] ∨ ∃ after, below = '\n' :: after) := by
  by_cases h : '\n' ∈ rest
  · obtain ⟨line, after, rfl, hline⟩ := List.eq_append_cons_of_mem h
    have hfirst : firstLine (line ++ '\n' :: after) = line := by
      rw [firstLine_append hline]
      simp [firstLine]
    rw [hfirst]
    exact ⟨'\n' :: after, rfl, hline, .inr ⟨after, rfl⟩⟩
  · have hfirst : firstLine rest = rest := by
      have hall := firstLine_append h []
      simpa [firstLine] using hall
    rw [hfirst]
    exact ⟨[], by simp, h, .inl rfl⟩

/-- The first line of a text that does not begin with a line break does not begin with one. -/
lemma StartsInLine.firstLine (h : StartsInLine rest) : StartsInLine (firstLine rest) := by
  obtain ⟨c, more, rfl, hc⟩ := h
  have hne : c ≠ '\n' := by
    rintro rfl
    cases hc
  exact ⟨c, Text.firstLine more, by simp [Text.firstLine, hne], hc⟩

/-- A line that does not begin with a line break is not made of carriage returns. -/
lemma StartsInLine.rdropWhile_ne_nil (h : StartsInLine rest) :
    rest.rdropWhile (· = '\r') ≠ [] := by
  obtain ⟨c, more, rfl, hc⟩ := h
  intro hnil
  have hall := List.rdropWhile_eq_nil_iff.1 hnil c List.mem_cons_self
  rw [decide_eq_true_eq] at hall
  subst hall
  cases hc

/-- **What is shown of a line** in which something but its end stands behind an offset. -/
lemma lineAt_eq (front : List Char) (h : StartsInLine rest) :
    lineAt (front ++ rest) (size front) =
      lastLine front ++ (firstLine rest).rdropWhile (· = '\r') := by
  have hne := h.firstLine.rdropWhile_ne_nil
  rw [lineAt, takeBytes_size_append, dropBytes_size_append]
  rw [List.rdropWhile, ne_eq, List.reverse_eq_nil_iff] at hne
  rw [List.rdropWhile, List.reverse_append, List.dropWhile_append, if_neg (by simpa using hne),
    List.reverse_append, List.reverse_reverse]

/-- The first line of a part, and what stands behind it on the line. -/
lemma exists_firstLine_append (part back : List Char) :
    ∃ further more, part = firstLine part ++ further ∧
      firstLine (part ++ back) = firstLine part ++ more ∧ (further ≠ [] → more = []) := by
  obtain ⟨further, hpart, hline, hfurther⟩ := exists_firstLine part
  refine ⟨further, firstLine (further ++ back), hpart, ?_, ?_⟩
  · conv_lhs => rw [hpart, List.append_assoc, firstLine_append hline]
  · intro hne
    obtain ⟨after, rfl⟩ := hfurther.resolve_left hne
    simp [firstLine]

/-- A text that is cut in two in two ways is cut into four pieces, of which one is empty: what lies
between the two cuts stands in front of one of them only. -/
lemma exists_pieces {shown returns under more : List Char}
    (h : shown ++ returns = under ++ more) :
    ∃ visible beside cut trailing, shown = visible ++ beside ∧ returns = cut ++ trailing ∧
      under = visible ++ cut ∧ more = beside ++ trailing ∧ (beside ≠ [] → cut = []) := by
  rcases List.append_eq_append_iff.1 h with ⟨cut, hunder, hreturns⟩ | ⟨beside, hshown, hmore⟩
  · exact ⟨shown, [], cut, more, by simp, hreturns, hunder, by simp, by simp⟩
  · exact ⟨under, beside, [], returns, hshown, rfl, by simp, hmore, fun _ => rfl⟩

/-- The position behind a text, told from its last line. -/
lemma positionAt_append {above front : List Char} (hfront : front = above ++ lastLine front)
    (hlead : '\n' ∉ lastLine front) (rest : List Char) :
    positionAt (front ++ rest) (size front) =
      ⟨above.count '\n' + 1, width (lastLine front) + 1⟩ := by
  have hcount : front.count '\n' = above.count '\n' := by
    rw [hfront, List.count_append, List.count_eq_zero.2 hlead, Nat.add_zero]
  rw [positionAt]
  simp only [takeBytes_size_append, hcount]

/-- **Each part that does not begin with a line break starts in a line that is shown.**

**Proof sketch.** What stands on the line behind the start of the part is cut twice: where the
carriage returns at the end of the line begin, and where the part ends. Whichever of these comes
first, the other one lies behind it. -/
theorem exists_shown {cs : List Char} (hcovers : span.Covers cs part)
    (hstarts : StartsInLine part) :
    ∃ s : Shown, s.Fits cs span ∧
      positionAt cs span.start = ⟨s.above.count '\n' + 1, width s.lead + 1⟩ ∧
      lineAt cs span.start = s.code ∧ firstLine part = s.visible ++ s.cut := by
  obtain ⟨front, back, rfl, rfl⟩ := id hcovers
  have hrest : StartsInLine (part ++ back) := by
    obtain ⟨c, more, rfl, hc⟩ := hstarts
    exact ⟨c, more ++ back, rfl, hc⟩
  obtain ⟨above, hfront, hlead, habove⟩ := exists_lastLine front
  obtain ⟨below, htail, hline, hbelow⟩ := exists_firstLine (part ++ back)
  obtain ⟨further, more, hpart, hmore, hfurther⟩ := exists_firstLine_append part back
  have hshown := lineAt_eq front hrest
  have hne := hrest.firstLine.rdropWhile_ne_nil
  have hreturns : ∀ c ∈ (firstLine (part ++ back)).rtakeWhile (· = '\r'), c = '\r' := fun c hc => by
    simpa using List.mem_rtakeWhile_imp hc
  have hcut := List.rdropWhile_append_rtakeWhile (p := (· = '\r')) (l := firstLine (part ++ back))
  have hlast := List.rdropWhile_last_not (· = '\r') _ hne
  generalize (firstLine (part ++ back)).rdropWhile (· = '\r') = shown at *
  generalize (firstLine (part ++ back)).rtakeWhile (· = '\r') = returns at *
  -- the part ends in front of the carriage returns, or some of them belong to it
  obtain ⟨visible, beside, cut, trailing, rfl, rfl, hunder, rfl, hbeside⟩ :=
    exists_pieces (hcut.trans hmore)
  have hcode : lastLine front ++ visible ++ beside = lastLine front ++ (visible ++ beside) :=
    List.append_assoc _ _ _
  refine ⟨⟨above, lastLine front, visible, beside, cut, trailing, below⟩, ?_, ?_, ?_, hunder⟩
  · exact
      { text_eq := by
          calc front ++ part ++ back
              = front ++ (part ++ back) := List.append_assoc _ _ _
            _ = above ++ lastLine front ++ (visible ++ beside ++ (cut ++ trailing) ++ below) :=
                congrArg₂ (· ++ ·) hfront (htail.trans (congrArg (· ++ below) hcut.symm))
            _ = above ++ (lastLine front ++ visible ++ beside) ++ (cut ++ trailing) ++ below := by
                simp only [List.append_assoc]
        above_ends := habove
        below_starts := hbelow
        unbroken := by
          rw [← hcut, List.mem_append, not_or] at hline
          rw [Shown.code, hcode, List.mem_append, not_or]
          exact ⟨hlead, hline.1⟩
        trimmed := by
          rw [Shown.code, hcode, List.getLast?_append_of_ne_nil _ hne,
            List.getLast?_eq_some_getLast hne]
          simpa using hlast
        returns := hreturns
        start_eq := congrArg size hfront
        part := ⟨further, by rwa [← hunder, ← hpart], fun h => by simpa using hfurther h⟩
        beside := hbeside }
  · rw [List.append_assoc]
    exact positionAt_append hfront hlead _
  · rw [List.append_assoc front]
    exact hshown.trans hcode.symm

end Lines

end Stencil.Text
