import Mathlib.Tactic.Lemma
import Stencil.Proofs.Text.Indenting

/-!
# Texts with spaces and tabs put in

Indenting puts blanks between the characters of a text and leaves the characters as they are.

## Main definitions

* `isIndenting`, `Indents` — the characters that indent, and texts of nothing else.
* `Spaced` — a text and the same one with such characters put in.
* `squeezed` — a text without such characters.

## Main results

* `Spaced.indentLines` — an indented text is the text with spaces and tabs put in.
* `Spaced.filter_eq` — without spaces and tabs both texts are the same.
-/

namespace Stencil.Text

/-- The characters that indent: space and tab. -/
def isIndenting (c : Char) : Bool := c = ' ' || c = '\t'

/-- The text consists of spaces and tabs. -/
def Indents (cs : List Char) : Prop := ∀ c ∈ cs, isIndenting c = true

/-- The second text is the first one with spaces and tabs put in. -/
inductive Spaced : List Char → List Char → Prop where
  | nil : Spaced [] []
  | keep (c : Char) {cs ds : List Char} : Spaced cs ds → Spaced (c :: cs) (c :: ds)
  | put {c : Char} {cs ds : List Char} : isIndenting c = true → Spaced cs ds → Spaced cs (c :: ds)

/-- Spaces and tabs in a row are spaces and tabs. -/
lemma Indents.append {cs ds : List Char} (hcs : Indents cs) (hds : Indents ds) :
    Indents (cs ++ ds) :=
  List.forall_mem_append.2 ⟨hcs, hds⟩

namespace Spaced

variable {cs ds cs' ds' indent : List Char}

/-- Nothing is put in. -/
lemma refl : (cs : List Char) → Spaced cs cs
  | [] => .nil
  | c :: cs => .keep c (refl cs)

/-- Spaces and tabs are put in two texts in a row. -/
lemma append (h : Spaced cs ds) (h' : Spaced cs' ds') : Spaced (cs ++ cs') (ds ++ ds') := by
  induction h with
  | nil => exact h'
  | keep c _ ih => exact .keep c ih
  | put hc _ ih => exact .put hc ih

/-- Spaces and tabs are put in front. -/
lemma put_front (hindent : Indents indent) (h : Spaced cs ds) : Spaced cs (indent ++ ds) := by
  induction indent with
  | nil => exact h
  | cons c indent ih =>
    obtain ⟨hc, hrest⟩ := List.forall_mem_cons.1 hindent
    exact .put hc (ih hrest)

/-- **An indented text is the text with spaces and tabs put in.** -/
theorem indentLines (hindent : Indents indent) (cs : List Char) :
    Spaced cs (indentLines indent cs) := by
  rw [indentLines_eq_indentBreaks]
  fun_induction indentBreaks indent cs with
  | case1 => exact .nil
  | case2 c => exact .refl [c]
  | case3 c d rest ih =>
    refine .keep c ?_
    split
    · exact ih.put_front hindent
    · exact ih

/-- **Without spaces and tabs both texts are the same.** -/
theorem filter_eq (h : Spaced cs ds) :
    ds.filter (fun c => !isIndenting c) = cs.filter fun c => !isIndenting c := by
  induction h with
  | nil => rfl
  | keep c _ ih => simp only [List.filter_cons, ih]
  | put hc _ ih => rw [List.filter_cons, hc]; exact ih

end Spaced

/-- The text without spaces and tabs. -/
def squeezed (s : String) : String := String.ofList (s.toList.filter fun c => !isIndenting c)

/-- A text with spaces and tabs put in is the same without them. -/
lemma Spaced.squeezed_eq {s t : String} (h : Spaced s.toList t.toList) : squeezed t = squeezed s :=
  congrArg String.ofList h.filter_eq

end Stencil.Text

namespace Stencil

open Stencil.Text

/-- A text in a template that is indented with spaces and tabs. -/
lemma Cursor.spaced_indented {indent : String} (hindent : Indents indent.toList)
    (content : String) : Spaced content.toList (Cursor.indented indent content).toList := by
  rw [Cursor.indented_eq, String.toList_ofList]
  exact .indentLines hindent _

end Stencil
