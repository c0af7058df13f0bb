import Mathlib.Tactic.Lemma
import Stencil.Proofs.Text.Breaks

/-!
# Other line endings

A text whose lines all end with `\n` can be written with `\r\n` instead. The lines stay the same but
for their endings, and what is found in the text without regard to its endings stays where it is.

## Main definitions

* `crlf`, `crlfText` — a text with `\r\n` for each `\n`.

## Main results

* `lines_crlf` — the lines with other endings.
* `indentLines_crlf` — indenting does not depend on the endings.
* `cutAt_crlf` — nor does searching for an unbroken pattern.
-/

namespace Stencil.Text

/-- The text with the ending `\r\n` in place of each `\n`. -/
def crlf (cs : List Char) : List Char :=
  cs.flatMap fun c => if c = '\n' then ['\r', '\n'] else [c]

/-- The text with the ending `\r\n` in place of each `\n`. -/
def crlfText (s : String) : String := String.ofList (crlf s.toList)

section crlf

variable {c : Char} {cs xs ys : List Char}

@[simp]
lemma crlf_nil : crlf [] = [] := rfl

/-- A line feed becomes the pair. -/
@[simp]
lemma crlf_cons_lf (cs : List Char) : crlf ('\n' :: cs) = '\r' :: '\n' :: crlf cs := rfl

/-- Every other character stays. -/
lemma crlf_cons_of_ne (h : c ≠ '\n') (cs : List Char) : crlf (c :: cs) = c :: crlf cs := by
  simp [crlf, h]

@[simp]
lemma crlf_append (xs ys : List Char) : crlf (xs ++ ys) = crlf xs ++ crlf ys :=
  List.flatMap_append

@[simp]
lemma crlf_eq_nil_iff : crlf cs = [] ↔ cs = [] := by
  cases cs with
  | nil => simp
  | cons c cs => by_cases h : c = '\n' <;> simp [h, crlf_cons_of_ne]

@[simp]
lemma isEmpty_crlf (cs : List Char) : (crlf cs).isEmpty = cs.isEmpty := by
  rw [Bool.eq_iff_iff, List.isEmpty_iff, List.isEmpty_iff, crlf_eq_nil_iff]

/-- A text without line feeds stays. -/
lemma crlf_eq_self (h : '\n' ∉ cs) : crlf cs = cs := by
  induction cs with
  | nil => rfl
  | cons c cs ih =>
    obtain ⟨hc, hcs⟩ := List.ne_and_not_mem_of_not_mem_cons h
    rw [crlf_cons_of_ne hc.symm, ih hcs]

/-- An unbroken text has no line feeds. -/
lemma Unbroken.not_mem_lf (h : Unbroken cs) : '\n' ∉ cs := by
  intro hmem
  exact absurd (h _ hmem) (by decide)

/-- An unbroken text stays. -/
lemma Unbroken.crlf_eq (h : Unbroken cs) : crlf cs = cs :=
  crlf_eq_self h.not_mem_lf

/-- Texts with a separator between them can be given other endings one by one. -/
lemma crlf_intercalate (sep : List Char) (texts : List (List Char)) :
    crlf (sep.intercalate texts) = (crlf sep).intercalate (texts.map crlf) := by
  induction texts with
  | nil => rfl
  | cons first rest ih =>
    cases rest with
    | nil => simp
    | cons second rest =>
      rw [List.intercalate_cons_cons, crlf_append, crlf_append, ih]
      exact List.intercalate_cons_cons.symm

/-- No text is taken for blank, or not for blank, because of its endings. -/
@[simp]
lemma all_isBlank_crlf (cs : List Char) : (crlf cs).all isBlank = cs.all isBlank := by
  rw [crlf, List.all_flatMap]
  refine congrArg cs.all ?_
  funext c
  by_cases h : c = '\n'
  · rw [if_pos h, h]
    rfl
  · simp [h]

/-- The first character that is not white space stays the first one. -/
lemma head?_trimStart_crlf (cs : List Char) :
    (trimStart (crlf cs)).head? = (trimStart cs).head? := by
  induction cs with
  | nil => rfl
  | cons c cs ih =>
    rw [trimStart, trimStart] at *
    by_cases h : c = '\n'
    · subst h
      have hcr : isSpace '\r' = true := by decide
      have hlf : isSpace '\n' = true := by decide
      rw [crlf_cons_lf, List.dropWhile_cons_of_pos hcr, List.dropWhile_cons_of_pos hlf,
        List.dropWhile_cons_of_pos hlf, ih]
    · rw [crlf_cons_of_ne h, List.dropWhile_cons, List.dropWhile_cons]
      split
      · exact ih
      · rfl

/-- A text ends with a line break whichever ending it has. -/
@[simp]
lemma endsLine_crlf (cs : List Char) : endsLine (crlf cs) = endsLine cs := by
  rcases List.eq_nil_or_concat cs with rfl | ⟨init, c, rfl⟩
  · rfl
  · by_cases h : c = '\n'
    · subst h
      simp [endsLine]
    · simp [endsLine, crlf_cons_of_ne h]

/-! ## Lines -/

/-- **The lines with other endings.** -/
theorem lines_crlf (h : '\r' ∉ cs) : lines (crlf cs) = (lines cs).map crlf := by
  fun_induction lines cs with
  | case1 => rfl
  | case2 rest ih => exact absurd List.mem_cons_self h
  | case3 c rest hpair hbreak ih =>
    obtain ⟨hc, hrest⟩ := List.ne_and_not_mem_of_not_mem_cons h
    obtain rfl : c = '\n' := by
      have hcases : c = '\n' ∨ c = '\r' := by simpa [isBreak] using hbreak
      exact hcases.resolve_right hc.symm
    rw [crlf_cons_lf, lines, ih hrest]
    rfl
  | case4 c rest hpair hbreak hnil ih =>
    have hc : c ≠ '\n' := by
      rintro rfl
      exact hbreak rfl
    obtain rfl := lines_eq_nil_iff.1 hnil
    rw [crlf_cons_of_ne hc, crlf_nil, lines, if_neg hbreak]
    · simp [lines, crlf_cons_of_ne hc]
    · intro rest _ hrest
      cases hrest
  | case5 c rest hpair hbreak line more hlines ih =>
    have hc : c ≠ '\n' := by
      rintro rfl
      exact hbreak rfl
    have hmore := ih (List.not_mem_of_not_mem_cons h)
    rw [hlines, List.map_cons] at hmore
    rw [crlf_cons_of_ne hc, lines_cons_of_not_isBreak (by simpa using hbreak) hmore, List.map_cons,
      crlf_cons_of_ne hc]

/-- **Indenting does not depend on the endings.** -/
theorem indentLines_crlf {indent : List Char} (hindent : '\n' ∉ indent) (h : '\r' ∉ cs) :
    indentLines indent (crlf cs) = crlf (indentLines indent cs) := by
  rw [indentLines, indentLines, lines_crlf h, crlf_intercalate, crlf_eq_self hindent]

/-! ## Searching -/

variable {pattern : List Char}

/-- An unbroken pattern stands at the front of a text whichever ending this has. -/
lemma isPrefixOf_crlf (hp : Unbroken pattern) (cs : List Char) :
    pattern.isPrefixOf (crlf cs) = pattern.isPrefixOf cs := by
  induction pattern generalizing cs with
  | nil => simp
  | cons p ps ih =>
    obtain ⟨hpbreak, hps⟩ := List.forall_mem_cons.1 hp
    cases cs with
    | nil => rfl
    | cons c cs =>
      by_cases h : c = '\n'
      · subst h
        have hne : ∀ d, isBreak d = true → (p == d) = false := by
          intro d hd
          rw [beq_eq_false_iff_ne]
          rintro rfl
          exact absurd (hd.symm.trans hpbreak) (by decide)
        rw [crlf_cons_lf, List.isPrefixOf_cons_cons, List.isPrefixOf_cons_cons,
          hne '\r' (by decide), hne '\n' (by decide), Bool.false_and, Bool.false_and]
      · rw [crlf_cons_of_ne h, List.isPrefixOf_cons_cons, List.isPrefixOf_cons_cons, ih hps]

/-- No unbroken pattern stands at a line break. -/
lemma isPrefixOf_cons_of_isBreak (hp : Unbroken pattern) (hne : pattern ≠ [])
    (hc : isBreak c = true) (cs : List Char) : pattern.isPrefixOf (c :: cs) = false := by
  obtain ⟨p, ps, rfl⟩ := List.exists_cons_of_ne_nil hne
  have hpc : (p == c) = false := by
    rw [beq_eq_false_iff_ne]
    rintro rfl
    exact absurd (hc.symm.trans (hp p List.mem_cons_self)) (by decide)
  rw [List.isPrefixOf_cons_cons, hpc, Bool.false_and]

/-- What follows an unbroken text has its endings changed alone. -/
lemma drop_crlf (hp : Unbroken pattern) (h : pattern <+: cs) :
    (crlf cs).drop pattern.length = crlf (cs.drop pattern.length) := by
  obtain ⟨rest, rfl⟩ := h
  rw [crlf_append, hp.crlf_eq, List.drop_left, List.drop_left]

/-- A line break is skipped in the search for an unbroken pattern. -/
lemma cutAt_cons_of_isBreak (hp : Unbroken pattern) (hne : pattern ≠ []) (hc : isBreak c = true)
    (cs : List Char) :
    cutAt pattern (c :: cs) =
      (cutAt pattern cs).map fun (before, after) => (c :: before, after) := by
  rw [cutAt, if_neg (by simp [isPrefixOf_cons_of_isBreak hp hne hc])]

/-- **An unbroken pattern is found whichever ending the text has.** -/
theorem cutAt_crlf (hp : Unbroken pattern) (hne : pattern ≠ []) (cs : List Char) :
    cutAt pattern (crlf cs) =
      (cutAt pattern cs).map fun (before, after) => (crlf before, crlf after) := by
  induction cs with
  | nil => simp [cutAt, hne]
  | cons c cs ih =>
    by_cases h : c = '\n'
    · subst h
      rw [crlf_cons_lf, cutAt_cons_of_isBreak hp hne (by decide),
        cutAt_cons_of_isBreak hp hne (by decide), cutAt_cons_of_isBreak hp hne (by decide), ih]
      cases cutAt pattern cs <;> rfl
    · have hfront := isPrefixOf_crlf hp (c :: cs)
      rw [crlf_cons_of_ne h] at hfront
      rw [crlf_cons_of_ne h, cutAt, cutAt, hfront, ih]
      split
      · rename_i hpre
        have hdrop := drop_crlf hp (List.isPrefixOf_iff_prefix.1 hpre)
        rw [crlf_cons_of_ne h] at hdrop
        rw [hdrop]
        rfl
      · cases cutAt pattern cs with
        | none => rfl
        | some parts => simp [crlf_cons_of_ne h]

end crlf

section crlfText

variable {s : String}

/-- The texts put together have other endings. -/
lemma crlfText_join (texts : List String) :
    crlfText (String.join texts) = String.join (texts.map crlfText) := by
  induction texts with
  | nil => rfl
  | cons s texts ih =>
    rw [String.join_cons, List.map_cons, String.join_cons, ← ih]
    simp [crlfText]

@[simp]
lemma toList_crlfText (s : String) : (crlfText s).toList = crlf s.toList :=
  String.toList_ofList

/-- Whether there is something to write does not depend on the endings. -/
@[simp]
lemma isEmpty_crlfText (s : String) : (crlfText s).isEmpty = s.isEmpty := by
  rw [Bool.eq_iff_iff, String.isEmpty_iff, String.isEmpty_iff, ← String.toList_eq_nil_iff,
    ← String.toList_eq_nil_iff, toList_crlfText, crlf_eq_nil_iff]

/-- A text without line feeds stays. -/
lemma crlfText_eq_self (h : '\n' ∉ s.toList) : crlfText s = s := by
  rw [crlfText, crlf_eq_self h, String.ofList_toList]

end crlfText

end Stencil.Text
