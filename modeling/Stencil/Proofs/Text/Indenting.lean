import Mathlib.Data.List.Basic
import Mathlib.Tactic.Lemma
import Stencil.Proofs.Text.Breaks
import Stencil.Render.Cursor

/-!
# Indenting a text

To put an indentation in front of every line but the first is to put it behind every line break that
is followed by more text. So it depends on two neighbouring characters alone whether the indentation
stands between them. A text without such a break stays, and a text that is indented part by part
lacks the indentation at those places only where one part goes over to the next.

## Main definitions

* `isBoundary` — whether a line starts between two characters.
* `indentBreaks` — a text with an indentation behind every line break that more text follows.

## Main results

* `indentLines_eq_indentBreaks` — both ways of indenting are the same.
* `indentLines_append` — indenting two texts in a row.
* `indentLines_of_not_hasInnerBreak` — a text that stays.
* `Cursor.indented_eq` — a text in an indented template.
-/

namespace Stencil.Text

/-- Whether a line starts between two characters: the first one ends a line, and the second one is
no part of this ending. -/
def isBoundary (c d : Char) : Bool := isBreak c && !(c = '\r' && d = '\n')

/-- The text with `indent` behind every line break that is followed by more text. -/
def indentBreaks (indent : List Char) : List Char → List Char
  | [] => []
  | [c] => [c]
  | c :: d :: rest =>
    c :: ((if isBoundary c d then indent else []) ++ indentBreaks indent (d :: rest))

variable {indent cs xs ys : List Char} {c d : Char}

/-! ## Lines of neighbouring characters -/

/-- Behind a line break, a line starts unless the two characters are one ending. -/
lemma isBoundary_of_isBreak (hc : isBreak c = true) (hpair : c = '\r' → d ≠ '\n') :
    isBoundary c d = true := by
  rw [isBoundary, hc, Bool.true_and, Bool.not_eq_true', Bool.and_eq_false_imp]
  intro hcr
  rw [decide_eq_true_eq] at hcr
  exact decide_eq_false (hpair hcr)

/-- Behind any other character, no line starts. -/
lemma isBoundary_of_not_isBreak (hc : isBreak c = false) : isBoundary c d = false := by
  rw [isBoundary, hc, Bool.false_and]

/-- Where a line starts between two characters, the first one ends a line of its own. -/
lemma lines_of_isBoundary (h : isBoundary c d = true) (cs : List Char) :
    lines (c :: d :: cs) = [c] :: lines (d :: cs) := by
  obtain ⟨hc, hpair⟩ := Bool.and_eq_true_iff.1 h
  refine lines_cons_of_isBreak hc ?_
  rintro rfl hd
  cases hd
  cases hpair

/-- Where no line starts between two characters, both belong to the same line. -/
lemma exists_lines_of_not_isBoundary (h : isBoundary c d = false) (cs : List Char) :
    ∃ line more, lines (d :: cs) = line :: more ∧ lines (c :: d :: cs) = (c :: line) :: more := by
  cases hc : isBreak c with
  | false =>
    obtain ⟨line, more, hlines⟩ := List.exists_cons_of_ne_nil
      (fun hnil => List.cons_ne_nil d cs (lines_eq_nil_iff.1 hnil))
    exact ⟨line, more, hlines, lines_cons_of_not_isBreak hc hlines⟩
  | true =>
    -- the two characters are one ending
    have hpair : c = '\r' ∧ d = '\n' := by simpa [isBoundary, hc] using h
    obtain ⟨rfl, rfl⟩ := hpair
    refine ⟨['\n'], lines cs, lines_cons_of_isBreak rfl (by simp), ?_⟩
    rw [lines]

/-- **Indenting two neighbouring characters.** -/
lemma indentLines_cons_cons (indent : List Char) (c d : Char) (cs : List Char) :
    indentLines indent (c :: d :: cs) =
      c :: ((if isBoundary c d then indent else []) ++ indentLines indent (d :: cs)) := by
  simp only [indentLines]
  cases h : isBoundary c d with
  | true =>
    rw [lines_of_isBoundary h]
    obtain ⟨line, more, hlines⟩ := List.exists_cons_of_ne_nil
      (fun hnil => List.cons_ne_nil d cs (lines_eq_nil_iff.1 hnil))
    rw [hlines, List.intercalate_cons_cons]
    rfl
  | false =>
    obtain ⟨line, more, hlines, hlong⟩ := exists_lines_of_not_isBoundary h cs
    rw [hlines, hlong]
    cases more with
    | nil => rw [List.intercalate_singleton, List.intercalate_singleton]; rfl
    | cons next more => rw [List.intercalate_cons_cons, List.intercalate_cons_cons]; rfl

/-- No line of a single character is indented. -/
@[simp]
lemma indentLines_singleton (indent : List Char) (c : Char) : indentLines indent [c] = [c] := by
  cases hc : isBreak c with
  | true => rw [indentLines, lines_cons_of_isBreak hc (by simp)]; rfl
  | false =>
    rw [indentLines, lines]
    · rw [hc]
      rfl
    · rintro rest _ hrest
      cases hrest

/-- **An indentation in front of every line but the first stands behind every line break that is
followed by more text.** -/
theorem indentLines_eq_indentBreaks (indent cs : List Char) :
    indentLines indent cs = indentBreaks indent cs := by
  fun_induction indentBreaks indent cs with
  | case1 => rfl
  | case2 c => exact indentLines_singleton indent c
  | case3 c d rest ih => rw [indentLines_cons_cons, ih]

/-! ## Texts in a row -/

/-- Only the empty text is empty when it is indented. -/
lemma indentLines_eq_nil_iff : indentLines indent cs = [] ↔ cs = [] := by
  rw [indentLines_eq_indentBreaks]
  fun_cases indentBreaks indent cs <;> simp

/-- Whether a text ends with a line break does not depend on the indentation. -/
lemma endsLine_indentLines (indent cs : List Char) :
    endsLine (indentLines indent cs) = endsLine cs := by
  have hlast : (indentLines indent cs).getLast? = cs.getLast? := by
    rw [indentLines_eq_indentBreaks]
    fun_induction indentBreaks indent cs with
    | case1 => rfl
    | case2 c => rfl
    | case3 c d rest ih =>
      simp only [List.getLast?_cons, List.getLast?_append, ih, Option.some_or, Option.getD_some]
  rw [endsLine, endsLine, hlast]

/-- Two texts in a row, with the last character of the first one and the first of the second. -/
lemma indentLines_append_cons (indent xs ys : List Char) (c d : Char) :
    indentLines indent (xs ++ c :: d :: ys) =
      indentLines indent (xs ++ [c]) ++
        ((if isBoundary c d then indent else []) ++ indentLines indent (d :: ys)) := by
  induction xs with
  | nil => rw [List.nil_append, List.nil_append, indentLines_cons_cons, indentLines_singleton]; rfl
  | cons x xs ih =>
    -- both texts go on with the same character
    cases xs with
    | nil =>
      rw [List.nil_append] at ih
      simp only [indentLines_cons_cons indent x c, ih, List.cons_append, List.append_assoc,
        List.nil_append]
    | cons y xs =>
      simp only [List.cons_append, indentLines_cons_cons indent x y] at ih ⊢
      rw [ih, List.append_assoc]

/-- **Indenting two texts in a row.** Both are indented for themselves, and where the first one ends
with a line break, the indentation stands between them. No line ending may be cut in two. -/
theorem indentLines_append (hxs : xs ≠ []) (hys : ys ≠ [])
    (hpair : xs.getLast? = some '\r' → ys.head? ≠ some '\n') :
    indentLines indent (xs ++ ys) =
      indentLines indent xs ++
        ((if endsLine xs then indent else []) ++ indentLines indent ys) := by
  obtain ⟨init, c, rfl⟩ := (List.eq_nil_or_concat xs).resolve_left hxs
  obtain ⟨d, rest, rfl⟩ := List.exists_cons_of_ne_nil hys
  have hboundary : isBoundary c d = endsLine (init ++ [c]) := by
    have hlast : endsLine (init ++ [c]) = isBreak c := by simp [endsLine]
    rw [hlast]
    cases hc : isBreak c with
    | true =>
      refine isBoundary_of_isBreak hc ?_
      rintro rfl rfl
      exact hpair (by simp) rfl
    | false => exact isBoundary_of_not_isBreak hc
  rw [List.concat_eq_append, ← hboundary, List.append_assoc, List.singleton_append,
    indentLines_append_cons]

/-! ## Texts that stay -/

/-- An empty indentation changes nothing. -/
lemma indentLines_nil (cs : List Char) : indentLines [] cs = cs := by
  rw [indentLines_eq_indentBreaks]
  fun_induction indentBreaks [] cs with
  | case1 => rfl
  | case2 c => rfl
  | case3 c d rest ih => rw [ih, ite_self, List.nil_append]

/-- **A text stays if no line break is followed by more text.** -/
theorem indentLines_of_not_hasInnerBreak (h : hasInnerBreak cs = false) :
    indentLines indent cs = cs := by
  fun_induction hasInnerBreak cs with
  | case1 => rfl
  | case2 rest =>
    obtain rfl : rest = [] := by simpa using h
    rw [indentLines_cons_cons, indentLines_singleton]
    rfl
  | case3 c rest _ _ =>
    obtain rfl : rest = [] := by simpa using h
    exact indentLines_singleton indent c
  | case4 c rest _ hbreak ih =>
    cases rest with
    | nil => exact indentLines_singleton indent c
    | cons d rest =>
      rw [indentLines_cons_cons, ih h, isBoundary_of_not_isBreak (by simpa using hbreak)]
      rfl

end Stencil.Text

namespace Stencil

open Stencil.Text

/-- **Every line of a text but the first is indented** in an indented template. That a text without
any other line is taken as it stands changes nothing. -/
theorem Cursor.indented_eq (indent content : String) :
    indented indent content = String.ofList (indentLines indent.toList content.toList) := by
  rw [indented]
  split
  · rename_i hstays
    rcases Bool.or_eq_true_iff.1 hstays with hempty | hbreaks
    · rw [String.isEmpty_iff.1 hempty, String.toList_empty, indentLines_nil, String.ofList_toList]
    · rw [Bool.not_eq_true'] at hbreaks
      rw [indentLines_of_not_hasInnerBreak hbreaks, String.ofList_toList]
  · rfl

end Stencil
