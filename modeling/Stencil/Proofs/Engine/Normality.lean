import Mathlib.Data.List.Chain
import Mathlib.Tactic.Lemma
import Stencil.Proofs.Code.Appending
import Stencil.Proofs.Code.Indentation
import Stencil.Proofs.Code.Validity
import Stencil.Proofs.Engine.Printing

/-!
# Compiled sequences are in normal form

A list of instructions could be written in several ways that do the same: a text can be cut in two,
and empty texts can be put in. Compiling gives one of them. Texts are gathered until there is an
instruction of another kind or the template ends, and only a template that has no instruction at all
gives an empty text. What is included has a name without white space around it, and the blanks in
front of it on its line, which are spaces and tabs, are the indentation.

## Main definitions

* `Sequence.IsNormal` — the normal form of a sequence.

## Main results

* `isChain_merge` — no text follows another one where characters are gathered.
* `Draft.isNormal` — the sequence of a template is in normal form.
* `Engine.compile_isNormal` — the sequences of a program that compiles are in normal form.
-/

namespace Stencil

open Stencil.Text Stencil.Markup

/-- **A sequence in normal form.** -/
structure Sequence.IsNormal (s : Sequence) : Prop where
  /-- No text follows another one. -/
  apart : s.instrs.toList.IsChain fun i j => i.isText = true → j.isText = false
  /-- A text is not empty, unless it is all that there is. -/
  filled : ∀ content, .text content ∈ s.instrs → content ≠ "" ∨ s.instrs = #[.text ""]
  /-- What is included has a name without white space around it. -/
  named : ∀ name indent, .enter name indent ∈ s.instrs → name ≠ "" ∧
    ∀ c, name.toList.head? = some c ∨ name.toList.getLast? = some c → isSpace c = false
  /-- What is included is indented with spaces and tabs. -/
  indented : ∀ name indent, .enter name indent ∈ s.instrs → ∀ c ∈ indent.toList, c = ' ' ∨ c = '\t'

/-! ## Texts -/

/-- Targets play no part for what is a text. -/
@[simp]
lemma Instr.isText_stored (i : Instr) : i.stored.isText = i.isText := by
  cases i <;> rfl

/-- What a tag gives is no text. -/
lemma isText_of_mem_flatMap_contribution {lns : List (List Token)} {i : Instr}
    (h : .inr i ∈ lns.flatMap fun line => contribution (line.map Token.mark)) :
    i.isText = false := by
  cases i with
  | text content => exact absurd h (text_notMem_flatMap_contribution lns content)
  | interpolate escaped path => rfl
  | openSection inverted path target => rfl
  | closeSection path target => rfl
  | enter name indent => rfl

/-- **Where characters are gathered, no text follows another one.** -/
theorem isChain_merge {pending : List Char} {code : List (Char ⊕ Instr)}
    (h : ∀ i, .inr i ∈ code → i.isText = false) :
    (merge pending code).IsChain fun i j => i.isText = true → j.isText = false := by
  induction code generalizing pending with
  | nil =>
    rw [merge, textCode]
    split
    · exact .nil
    · exact .singleton _
  | cons x code ih =>
    have hcode : ∀ i, .inr i ∈ code → i.isText = false := fun i hi =>
      h i (List.mem_cons_of_mem x hi)
    cases x with
    | inl c => exact ih hcode
    | inr i =>
      have hi : i.isText = false := h i List.mem_cons_self
      -- nothing is asked of what follows an instruction of another kind
      have hrest : (i :: merge [] code).IsChain fun i j => i.isText = true → j.isText = false :=
        List.isChain_cons.2 ⟨fun _ _ htext => by simp [hi] at htext, ih hcode⟩
      rw [merge, textCode]
      split
      · exact hrest
      · exact List.isChain_cons_cons.2 ⟨fun _ => hi, hrest⟩

/-- No text of a translation follows another one. -/
lemma isChain_translation (ts : List Token) :
    (translation ts).IsChain fun i j => i.isText = true → j.isText = false := by
  rw [translation_eq]
  split
  · exact .singleton _
  · exact isChain_merge fun _ => isText_of_mem_flatMap_contribution

/-- A text of a translation is not empty, unless it is all that there is. -/
lemma text_of_mem_translation {ts : List Token} {content : String}
    (h : .text content ∈ translation ts) : content ≠ "" ∨ translation ts = [.text ""] := by
  rw [translation_eq] at h ⊢
  split at h
  · rename_i hnil
    exact .inr (if_pos hnil)
  · exact .inl (text_ne_of_mem_codeOfTokens h)

/-! ## Templates -/

namespace Draft

variable {cs : List Char} {s : Sequence}

/-- What a template includes has a name without white space around it. -/
lemma name_of_mem (hs : (Draft.ofText cs).outcome = .ok s) {name indent : String}
    (h : .enter name indent ∈ s.instrs) : name ≠ "" ∧
      ∀ c, name.toList.head? = some c ∨ name.toList.getLast? = some c → isSpace c = false := by
  have hincluded : name ∈ s.included := Sequence.mem_included h
  -- the name is that of a tag of the template
  rw [included_eq_included_scan hs] at hincluded
  obtain ⟨tag, htag, hname⟩ := List.mem_filterMap.1 hincluded
  obtain rfl : tag = .inclusion name := by
    cases tag <;> cases hname
    rfl
  obtain ⟨triple, body, hbody⟩ := exists_ofBody_of_mem_readings htag
  obtain ⟨hne, content, hcontent⟩ := Tag.exists_trim_of_inclusion hbody
  exact ⟨hne, fun c hc => Tag.not_isSpace_of_trim (hcontent ▸ hc)⟩

/-- **The sequence of a template is in normal form.** -/
theorem isNormal (hs : (Draft.ofText cs).outcome = .ok s) : s.IsNormal where
  apart := by
    obtain ⟨ts, -, -, hstored⟩ := outcome_eq_translation hs
    have hchain := isChain_translation ts
    rw [← hstored, List.isChain_map] at hchain
    simpa using hchain
  filled content hcontent := by
    obtain ⟨ts, -, -, hstored⟩ := outcome_eq_translation hs
    have hmem : (Instr.text content).stored ∈ translation ts := by
      rw [← hstored]
      exact List.mem_map_of_mem (Array.mem_toList_iff.2 hcontent)
    refine (text_of_mem_translation hmem).imp id fun hall => ?_
    rw [← hstored, List.map_eq_singleton_iff] at hall
    obtain ⟨i, hi, htext⟩ := hall
    rw [Instr.stored_eq_text_iff.1 htext] at hi
    exact Array.toList_inj.1 hi
  named name indent h := name_of_mem hs h
  indented name indent h c hc := by
    have hindent := indentsOnly hs _ h c hc
    simpa [isIndenting] using hindent

end Draft

/-- **The sequences of a program that compiles are in normal form**, the main sequence and those of
all templates that it includes.

**Proof sketch.** The instructions are the translation of the tokens of a template. Characters are
gathered there until an instruction comes, and nothing that a logical line contributes beside its
characters is a text. A name is trimmed when its tag is read. The indentation consists of blanks
that stand in front of a tag on its logical line, and a line break would end this line. -/
theorem Engine.compile_isNormal {e : Engine} {own : Option String} {source : String} {p : Program}
    (h : (e.compile own source).outcome = .ok p) : ∀ s ∈ p.sequences, s.IsNormal := by
  intro s hs
  obtain ⟨text, -, hdraft⟩ := exists_draft h hs
  exact Draft.isNormal hdraft

/-- A comment within a text, a template that stands alone on its line and is named with white space
around, and one that consists of a comment. -/
theorem compile_isNormal_on_comments :
    ∃ (e : Engine) (source : String) (p : Program) (s : Sequence),
      (e.compile none source).outcome = .ok p ∧
      p.main.instrs.toList = [.text "ab\r", .enter "p q" " \t",
        .interpolate true ⟨["v"], by decide⟩, .text "\n"] ∧
      p.partials.find? "p q" = some s ∧ s.instrs.toList = [.text ""] ∧ p.main.IsNormal ∧
      s.IsNormal := by
  let e : Engine := { loader := some ⟨.ofList [("p q", .ok "\x7b\x7b! c \x7d\x7d")]⟩ }
  let source := "a\x7b\x7b!\n\x7d\x7db\r \t\x7b\x7b>  p q\u2003\t\x7d\x7d \n\x7b\x7bv\x7d\x7d\n"
  have hrun : (e.compile none source).outcome.toOption.map (fun p =>
      (p.main.instrs.toList, (p.partials.find? "p q").map (·.instrs.toList))) =
      some ([.text "ab\r", .enter "p q" " \t", .interpolate true ⟨["v"], by decide⟩,
        .text "\n"], some [.text ""]) := by
    decide +kernel
  obtain ⟨p, hp, hcode⟩ := exists_of_toOption_map_eq_some hrun
  obtain ⟨hmain, hfound⟩ := Prod.mk.inj hcode
  obtain ⟨s, hs, hinstrs⟩ := Option.map_eq_some_iff.1 hfound
  have hnormal := Engine.compile_isNormal hp
  exact ⟨e, source, p, s, hp, hmain, hs, hinstrs, hnormal _ (Program.mem_sequences.2 (.inl rfl)),
    hnormal s (Program.mem_sequences.2 (.inr ⟨_, hs⟩))⟩

end Stencil
