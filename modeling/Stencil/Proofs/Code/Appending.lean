import Mathlib.Tactic.Lemma
import Stencil.Proofs.Code.Translation
import Stencil.Proofs.Code.Validity
import Stencil.Proofs.Markup.Appending

/-!
# The code of two templates in a row

A template that ends with a line is followed by another one. The instructions for both are those
for the first one and those for the second one. Only the last text of the first one and the first
text of the second one may meet, and then they make one text.

## Main definitions

* `joined` — two lists of instructions in a row, with the texts that meet put together.
* `combined` — the same for the instructions of two sequences, of which each may be without any.

## Main results

* `merge_append` — adjacent characters of two lists in a row put together.
* `translation_append` — the translation of two lists of tokens in a row.
* `Draft.exists_append` — the sequence of two templates in a row.
-/

namespace Stencil

open Stencil.Text Stencil.Markup

/-! ## Two lists of instructions in a row -/

/-- Two lists of instructions in a row. If the first one ends with a text and the second one starts
with a text, the two are put together. -/
def joined : List Instr → List Instr → List Instr
  | [], js => js
  | [.text front], .text content :: js => .text (front ++ content) :: js
  | i :: is, js => i :: joined is js

/-- The instructions of a sequence. The empty text alone stands for a sequence without any. -/
def significant (is : List Instr) : List Instr := if is = [.text ""] then [] else is

/-- The instructions of two sequences in a row. If there are none, the empty text is written. -/
def combined (is js : List Instr) : List Instr :=
  match joined (significant is) (significant js) with
  | [] => [.text ""]
  | code => code

section joined

variable {i j : Instr} {is js : List Instr}

/-- Texts meet at the end of the first list only. -/
lemma joined_cons (i : Instr) (hne : is ≠ []) (js : List Instr) :
    joined (i :: is) js = i :: joined is js := by
  rw [joined]
  rintro front content rest - - hnil
  exact hne hnil

/-- An instruction that is no text stays as it is. -/
lemma joined_cons_of_not_text (hi : ∀ content, i ≠ .text content) (is js : List Instr) :
    joined (i :: is) js = i :: joined is js := by
  rw [joined]
  rintro front content rest - htext -
  exact hi front htext

/-- What follows a text stays as it is, if it is no text. -/
lemma joined_singleton (i : Instr) (hj : ∀ content, j ≠ .text content) (js : List Instr) :
    joined [i] (j :: js) = i :: j :: js := by
  rw [joined, joined]
  rintro front content rest hcons - -
  exact hj content (List.cons.inj hcons).1

/-- Nothing follows. -/
lemma joined_nil (is : List Instr) : joined is [] = is := by
  induction is with
  | nil => rfl
  | cons i is ih =>
    rw [joined, ih]
    rintro front content rest hcons - -
    cases hcons

/-- The text that is still to be written meets what follows. -/
lemma joined_textCode_cons (hj : ∀ content, j ≠ .text content) (pending content : List Char)
    (js : List Instr) :
    joined (textCode pending) (textCode content ++ j :: js) =
      textCode (pending ++ content) ++ j :: js := by
  by_cases hpending : pending = []
  · subst hpending
    rfl
  · by_cases hcontent : content = []
    · subst hcontent
      simp [textCode, hpending, joined_singleton _ hj]
    · simp [textCode, hpending, hcontent, joined]

/-- Two texts that are still to be written meet. -/
lemma joined_textCode (pending content : List Char) :
    joined (textCode pending) (textCode content) = textCode (pending ++ content) := by
  by_cases hpending : pending = []
  · subst hpending
    rfl
  · by_cases hcontent : content = []
    · subst hcontent
      rw [List.append_nil]
      exact joined_nil _
    · simp [textCode, hpending, hcontent, joined]

end joined

/-! ## Adjacent characters put together -/

section merge

variable {xs ys : List (Char ⊕ Instr)}

/-- Text that is still to be written meets what follows. -/
lemma merge_pending_append (hys : ∀ content, .inr (.text content) ∉ ys)
    (pending content : List Char) :
    merge (pending ++ content) ys = joined (textCode pending) (merge content ys) := by
  induction ys generalizing content with
  | nil => exact (joined_textCode pending content).symm
  | cons y ys ih =>
    have hrest : ∀ content, .inr (.text content) ∉ ys := fun content hmem =>
      hys content (List.mem_cons_of_mem y hmem)
    cases y with
    | inl c =>
      rw [merge, merge, List.append_assoc]
      exact ih hrest (content ++ [c])
    | inr j =>
      have hj : ∀ content, j ≠ .text content := by
        rintro content rfl
        exact hys content List.mem_cons_self
      rw [merge, merge, joined_textCode_cons hj]

/-- **Adjacent characters of two lists in a row put together**: a text goes over from the first list
to the second one if the first one ends with characters and the second one starts with some. -/
theorem merge_append (hxs : ∀ content, .inr (.text content) ∉ xs)
    (hys : ∀ content, .inr (.text content) ∉ ys) (pending : List Char) :
    merge pending (xs ++ ys) = joined (merge pending xs) (merge [] ys) := by
  induction xs generalizing pending with
  | nil =>
    have h := merge_pending_append hys pending []
    rwa [List.append_nil] at h
  | cons x xs ih =>
    have hrest : ∀ content, .inr (.text content) ∉ xs := fun content hmem =>
      hxs content (List.mem_cons_of_mem x hmem)
    cases x with
    | inl c => exact ih hrest (pending ++ [c])
    | inr i =>
      have hi : ∀ content, i ≠ .text content := by
        rintro content rfl
        exact hxs content List.mem_cons_self
      have htail := joined_cons_of_not_text hi (merge [] xs) (merge [] ys)
      rw [List.cons_append, merge, merge, ih hrest]
      -- the text in front stands before an instruction, so it meets nothing
      unfold textCode
      split
      · exact htail.symm
      · rw [List.singleton_append, List.singleton_append, joined_cons _ (List.cons_ne_nil _ _),
          htail]

end merge

/-! ## Translations -/

/-- What a logical line contributes beside its characters is no text. -/
lemma text_notMem_contribution (line : List (Char ⊕ Tag)) (content : String) :
    .inr (.text content) ∉ contribution line := by
  intro h
  obtain ⟨indent, tag, htag, -⟩ := exists_tag_of_mem_contribution h
  cases tag <;> cases htag

/-- The instructions for the tokens of a template, of which there may be none. -/
def codeOfTokens (ts : List Token) : List Instr :=
  merge [] ((logicalLines ts).flatMap fun line => contribution (line.map Token.mark))

/-- What logical lines contribute beside their characters is no text. -/
lemma text_notMem_flatMap_contribution (lns : List (List Token)) (content : String) :
    .inr (.text content) ∉ lns.flatMap fun line => contribution (line.map Token.mark) := by
  intro h
  obtain ⟨line, -, hline⟩ := List.mem_flatMap.1 h
  exact text_notMem_contribution _ _ hline

/-- A translation is made of these instructions, or of an empty text if there are none. -/
lemma translation_eq (ts : List Token) :
    translation ts = if codeOfTokens ts = [] then [.text ""] else codeOfTokens ts := by
  unfold translation
  split
  · rename_i hnil
    exact (if_pos hnil).symm
  · rename_i hne
    exact (if_neg hne).symm

/-- No text among these instructions is empty. -/
lemma text_ne_of_mem_codeOfTokens {ts : List Token} {content : String}
    (h : .text content ∈ codeOfTokens ts) : content ≠ "" := by
  rcases mem_merge h with ⟨found, hfound, heq⟩ | hmem
  · cases heq
    exact hfound
  · exact absurd hmem (text_notMem_flatMap_contribution _ _)

/-- The empty text of a translation stands for no instruction. -/
lemma significant_translation (ts : List Token) :
    significant (translation ts) = codeOfTokens ts := by
  have hne : codeOfTokens ts ≠ [.text ""] := fun h =>
    text_ne_of_mem_codeOfTokens (h ▸ List.mem_singleton_self _) rfl
  rw [significant, translation_eq]
  by_cases hnil : codeOfTokens ts = []
  · rw [if_pos hnil, if_pos rfl, hnil]
  · rw [if_neg hnil, if_neg hne]

/-- **The translation of two lists of tokens in a row**, if their logical lines are those of the
first one and those of the second one. -/
theorem translation_append {ts us : List Token}
    (h : logicalLines (ts ++ us) = logicalLines ts ++ logicalLines us) :
    translation (ts ++ us) = combined (translation ts) (translation us) := by
  have hcode : codeOfTokens (ts ++ us) = joined (codeOfTokens ts) (codeOfTokens us) := by
    rw [codeOfTokens, h, List.flatMap_append]
    exact merge_append (text_notMem_flatMap_contribution _) (text_notMem_flatMap_contribution _) []
  rw [combined, significant_translation, significant_translation, ← hcode]
  rfl

/-! ## Targets -/

/-- Only a text is stored as a text, and as the same one. -/
lemma Instr.stored_eq_text_iff {i : Instr} {content : String} :
    i.stored = .text content ↔ i = .text content := by
  cases i <;> simp [stored, withTarget]

/-- Where texts meet does not depend on targets. -/
lemma map_stored_joined (is js : List Instr) :
    (joined is js).map Instr.stored = joined (is.map Instr.stored) (js.map Instr.stored) := by
  fun_induction joined is js with
  | case1 js => rfl
  | case2 front content js => rfl
  | case3 js i is hmeet ih =>
    rw [List.map_cons, List.map_cons, ih, joined]
    rintro front content rest hcons hi hnil
    obtain ⟨j, js', rfl, hj, -⟩ := List.map_eq_cons_iff.1 hcons
    exact hmeet front content js' (by rw [Instr.stored_eq_text_iff.1 hj])
      (Instr.stored_eq_text_iff.1 hi) (List.map_eq_nil_iff.1 hnil)

/-- Whether there are instructions does not depend on targets. -/
lemma map_stored_significant (is : List Instr) :
    (significant is).map Instr.stored = significant (is.map Instr.stored) := by
  have hiff : is.map Instr.stored = [.text ""] ↔ is = [.text ""] := by
    rw [List.map_eq_singleton_iff]
    simp [Instr.stored_eq_text_iff]
  rw [significant, significant]
  by_cases h : is = [.text ""]
  · rw [if_pos h, if_pos (hiff.2 h), List.map_nil]
  · rw [if_neg h, if_neg fun hstored => h (hiff.1 hstored)]

/-- Putting the instructions of two sequences together does not depend on targets. -/
lemma map_stored_combined (is js : List Instr) :
    (combined is js).map Instr.stored =
      combined (is.map Instr.stored) (js.map Instr.stored) := by
  rw [combined, combined, ← map_stored_significant, ← map_stored_significant, ← map_stored_joined]
  cases joined (significant is) (significant js) <;> rfl

/-! ## Templates -/

/-- What two templates in a row refer to is what the first one and what the second one refers to. -/
lemma Markup.Scan.included_append {cs ds : List Char} (hs : Sealed cs ds)
    (hactive : (Scan.ofText cs).active.val = .standard) (h : (Scan.ofText cs).unclosed = none)
    (h' : (Scan.ofText ds).unclosed = none) :
    (Scan.ofText (cs ++ ds)).included =
      (Scan.ofText cs).included ++ (Scan.ofText ds).included := by
  rw [included, (tags_append hs hactive h h').1, readings_append, List.filterMap_append]
  rfl

/-- **The sequence of two templates in a row** is made from the instructions of both.

**Proof sketch.** Both together are well-formed, so they have a sequence. It is made from the
translation of their tokens, and the logical lines of these are those of both templates. -/
theorem Draft.exists_append {cs ds : List Char} {s t : Sequence} (hmeet : MeetAtLine cs ds)
    (hactive : (Scan.ofText cs).active.val = .standard)
    (hs : (Draft.ofText cs).outcome = .ok s) (ht : (Draft.ofText ds).outcome = .ok t) :
    ∃ u, (Draft.ofText (cs ++ ds)).outcome = .ok u ∧
      Sequence.ofList (combined s.instrs.toList t.instrs.toList) = .ok u := by
  have hwell := (exists_sequence_iff cs).1 ⟨s, hs⟩
  have hwell' := (exists_sequence_iff ds).1 ⟨t, ht⟩
  obtain ⟨u, hu⟩ := (exists_sequence_iff _).2 (hwell.append hmeet.sealed hactive hwell')
  refine ⟨u, hu, ?_⟩
  obtain ⟨ts, hts, -, hstored⟩ := outcome_eq_translation hs
  obtain ⟨us, hus, -, hstored'⟩ := outcome_eq_translation ht
  obtain ⟨vs, hvs, hofList, -⟩ := outcome_eq_translation hu
  have htokens := (Scan.scanned hactive hwell.closed).tokens_append Delimiters.standard_isUnbroken
    hmeet.sealed hts
  rw [hvs, hus] at htokens
  obtain rfl : vs = ts ++ us := Option.some.inj htokens
  rw [← Sequence.ofList_map_stored, map_stored_combined, hstored, hstored',
    ← translation_append (hmeet.logicalLines_append Delimiters.standard_isUnbroken hts hus)]
  exact hofList

end Stencil
