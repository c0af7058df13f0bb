import Mathlib.Tactic.Lemma
import Stencil.Text.Span

/-!
# Ranges between characters

A range of byte offsets names a part of a text only if both of its ends lie between characters.
Whether they do is best said of the part: the range covers it if the text is what stands in front,
the part, and what stands behind, and the offsets are the sizes of these.

## Main definitions

* `Span.Covers` — the range of a part of a text.

## Main results

* `Span.Covers.slice_eq` — the part that a range names is the part that it covers.
* `Span.Covers.start_lt` — the range of a part that is not empty is not empty.
-/

namespace Stencil.Text

variable {s : Span} {cs part : List Char}

/-- A text with a character takes up a byte. -/
lemma size_pos (h : part ≠ []) : 0 < size part := by
  obtain ⟨c, rest, rfl⟩ := List.exists_cons_of_ne_nil h
  have := Char.utf8Size_pos c
  simp only [size]
  omega

namespace Span

/-- The range covers a part of a text: its two ends lie in front of the part and behind it. -/
def Covers (s : Span) (cs part : List Char) : Prop :=
  ∃ front back, cs = front ++ part ++ back ∧ s = ⟨size front, size (front ++ part)⟩

namespace Covers

/-- The part that a range names is the part that it covers. -/
lemma slice_eq (h : s.Covers cs part) : s.slice cs = part := by
  obtain ⟨front, back, rfl, rfl⟩ := h
  rw [size_append]
  exact slice_append front part back

/-- The range of a part that is not empty is not empty. -/
lemma start_lt (h : s.Covers cs part) (hne : part ≠ []) : s.start < s.stop := by
  obtain ⟨front, back, rfl, rfl⟩ := h
  have := size_pos hne
  simp only [size_append]
  omega

/-- A range stays where it is when a text goes on. -/
lemma append (h : s.Covers cs part) (more : List Char) : s.Covers (cs ++ more) part := by
  obtain ⟨front, back, rfl, rfl⟩ := h
  exact ⟨front, back ++ more, by simp, rfl⟩

end Covers

end Span

end Stencil.Text
