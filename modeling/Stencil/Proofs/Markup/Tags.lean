import Mathlib.Tactic.Lemma
import Stencil.Markup.Tag
import Stencil.Proofs.Text.Breaks

/-!
# Tags, line breaks and white space

Delimiters are words, so they hold no line break, whichever pair a template announces. The name of a
template that is included has no white space around it. A body that starts like a comment is a
comment if it is well formed at all.

## Main definitions

* `Delimiters.IsUnbroken` — a pair without line breaks.
* `Delimiters.IsPlain` — a pair of words that is not mistaken for the triple one.
* `Tag.activeAfter` — the pair that is active behind a tag.

## Main results

* `Tag.activeAfter_isUnbroken` — the active pair stays without line breaks.
* `Tag.not_isSpace_of_trim` — a trimmed text neither starts nor ends with white space.
* `Tag.exists_trim_of_inclusion` — the name of an included template is a trimmed text.
* `Tag.eq_comment_of_startsComment` — what starts like a comment is one.
-/

namespace Stencil.Markup

open Stencil.Text

/-! ## Delimiters without line breaks -/

/-- The words of a single character. -/
lemma words_singleton (c : Char) : words [c] = if isSpace c then [] else [[c]] := by
  rfl

/-- The words of a text with more than one character. -/
lemma words_cons_cons (c d : Char) (cs : List Char) :
    words (c :: d :: cs) =
      if isSpace c then words (d :: cs)
      else if isSpace d then [c] :: words (d :: cs)
      else
        match words (d :: cs) with
        | [] => [[c]]
        | w :: ws => (c :: w) :: ws := by
  rfl

/-- White space in front of a text belongs to no word. -/
lemma words_cons_of_isSpace {c : Char} (hc : isSpace c = true) (cs : List Char) :
    words (c :: cs) = words cs := by
  cases cs with
  | nil =>
    rw [words_singleton, if_pos hc]
    rfl
  | cons d cs => rw [words_cons_cons, if_pos hc]

/-- A word holds no white space. -/
lemma not_isSpace_of_mem_words {cs w : List Char} {c : Char} (hw : w ∈ words cs) (hc : c ∈ w) :
    isSpace c = false := by
  induction cs generalizing w with
  | nil => cases hw
  | cons d rest ih =>
    have hlone : ¬isSpace d = true → w = [d] → isSpace c = false := by
      rintro hd rfl
      obtain rfl : c = d := by simpa using hc
      simpa using hd
    cases rest with
    | nil =>
      rw [words_singleton] at hw
      split at hw
      · cases hw
      · rename_i hd
        exact hlone hd (by simpa using hw)
    | cons e more =>
      rw [words_cons_cons] at hw
      split at hw
      · exact ih hw hc
      · rename_i hd
        split at hw
        · rcases List.mem_cons.1 hw with hw | hw
          · exact hlone hd hw
          · exact ih hw hc
        · split at hw
          · exact hlone hd (by simpa using hw)
          · -- the character is put in front of the first word of what follows
            rename_i first others hwords
            rcases List.mem_cons.1 hw with rfl | hw
            · rcases List.mem_cons.1 hc with rfl | hc
              · simpa using hd
              · exact ih (hwords ▸ List.mem_cons_self) hc
            · exact ih (hwords ▸ List.mem_cons_of_mem _ hw) hc

/-- A text without white space is unbroken. -/
lemma unbroken_of_not_isSpace {cs : List Char} (h : ∀ c ∈ cs, isSpace c = false) :
    Unbroken cs := by
  intro c hc
  by_contra hbreak
  have hspace := isSpace_of_isBreak (Bool.not_eq_false _ ▸ hbreak)
  rw [h c hc] at hspace
  cases hspace

namespace Delimiters

/-- Neither delimiter holds a line break. -/
def IsUnbroken (d : Delimiters) : Prop := Unbroken d.opener ∧ Unbroken d.closer

variable {d : Delimiters}

/-- The standard pair holds no line break. -/
lemma standard_isUnbroken : standard.IsUnbroken := by
  constructor
  · show ∀ c ∈ ['{', '{'], isBreak c = false
    simp [isBreak]
  · show ∀ c ∈ ['}', '}'], isBreak c = false
    simp [isBreak]

/-- The opener of a tag of either form holds no line break. -/
lemma IsUnbroken.opening (h : d.IsUnbroken) (triple : Bool) : Unbroken (d.opening triple) := by
  cases triple with
  | false => exact h.1
  | true =>
    show ∀ c ∈ ['{', '{', '{'], isBreak c = false
    simp [isBreak]

/-- The closer of a tag of either form holds no line break. -/
lemma IsUnbroken.closing (h : d.IsUnbroken) (triple : Bool) : Unbroken (d.closing triple) := by
  cases triple with
  | false => exact h.2
  | true =>
    show ∀ c ∈ ['}', '}', '}'], isBreak c = false
    simp [isBreak]

/-- **The pairs that a directive announces**: it consists of two words and a last equals sign. -/
lemma ofDirective_eq_ok_iff {content : List Char} {pair : ProperDelimiters} :
    ofDirective content = .ok pair ↔
      (∃ inner, content = inner ++ ['='] ∧ words inner = [pair.val.opener, pair.val.closer]) ∧
        '=' ∉ pair.val.opener ∧ '=' ∉ pair.val.closer ∧ pair.val.opener ≠ tripleOpener ∧
          pair.val.closer ≠ tripleCloser := by
  constructor
  · intro h
    unfold ofDirective at h
    split at h
    · rename_i hlast
      split at h
      · rename_i opener closer hwords
        split at h
        · split at h
          · cases h
          · rename_i hequals
            split at h
            · cases h
            · rename_i htriple
              cases h
              have hinner := (List.dropLast_append_getLast? '=' hlast).symm
              rw [Bool.or_eq_true, not_or, List.contains_iff_mem, List.contains_iff_mem] at hequals
              rw [Bool.or_eq_true, not_or, decide_eq_true_eq, decide_eq_true_eq] at htriple
              exact ⟨⟨content.dropLast, hinner, hwords⟩, hequals.1, hequals.2, htriple⟩
        · cases h
      · cases h
    · cases h
  · rintro ⟨⟨inner, rfl, hwords⟩, hopener, hcloser, htriple⟩
    have hproper : pair.val.opener ≠ [] ∧ pair.val.closer ≠ [] := pair.property
    rw [ofDirective, List.getLast?_concat, List.dropLast_concat]
    simp only [hwords]
    rw [dif_pos hproper, if_neg (by simp [hopener, hcloser]), if_neg (by simpa using htriple)]

/-- A pair of words, of which the first one is not the triple opener. The standard pair is one, and
so is every pair that is announced. -/
structure IsPlain (d : Delimiters) : Prop where
  opener : ∀ c ∈ d.opener, isSpace c = false
  closer : ∀ c ∈ d.closer, isSpace c = false
  apart : d.opener ≠ tripleOpener

/-- The standard pair is a plain one. -/
lemma standard_isPlain : standard.IsPlain where
  opener := List.forall_iff_forall_mem.1 (by decide)
  closer := List.forall_iff_forall_mem.1 (by decide)
  apart := by decide

/-- A pair that is announced is a plain one. -/
lemma isPlain_of_ofDirective {content : List Char} {pair : ProperDelimiters}
    (h : ofDirective content = .ok pair) : pair.val.IsPlain := by
  obtain ⟨⟨inner, -, hwords⟩, -, -, hopener, -⟩ := ofDirective_eq_ok_iff.1 h
  refine ⟨fun c => ?_, fun c => ?_, hopener⟩
  · exact not_isSpace_of_mem_words (hwords ▸ List.mem_cons_self)
  · exact not_isSpace_of_mem_words (hwords ▸ List.mem_cons_of_mem _ List.mem_cons_self)

/-- A plain pair holds no line break. -/
lemma IsPlain.isUnbroken (h : d.IsPlain) : d.IsUnbroken :=
  ⟨unbroken_of_not_isSpace h.opener, unbroken_of_not_isSpace h.closer⟩

/-- A pair that is announced holds no line break. -/
lemma isUnbroken_of_ofDirective {content : List Char} {pair : ProperDelimiters}
    (h : ofDirective content = .ok pair) : pair.val.IsUnbroken :=
  (isPlain_of_ofDirective h).isUnbroken

end Delimiters

namespace Tag

/-- The pair that is active behind a tag. -/
def activeAfter (d : ProperDelimiters) : Tag → ProperDelimiters
  | .delimiters pair => pair
  | _ => d

/-- A tag made from what was read of its content is of no other kind. -/
lemma map_ne {α : Type} {x : Except TagFault α} {f : α → Tag} {tag : Tag}
    (hf : ∀ a, f a ≠ tag) : (f <$> x) ≠ .ok tag := by
  intro h
  cases x with
  | error fault => cases h
  | ok a => exact hf a (Except.ok.inj h)

/-- A tag changes the delimiters if its body starts with an equals sign, and what follows announces
a pair. -/
lemma ofBody_eq_delimiters_iff {triple : Bool} {body : List Char} {pair : ProperDelimiters} :
    ofBody triple body = .ok (.delimiters pair) ↔
      triple = false ∧
        ∃ content, trim body = '=' :: content ∧ Delimiters.ofDirective content = .ok pair := by
  constructor
  · intro h
    unfold ofBody at h
    simp only at h
    split at h
    · exact absurd h (map_ne (by simp))
    · rename_i htriple
      refine ⟨by simpa using htriple, ?_⟩
      split at h
      · exact absurd h (map_ne (by simp))
      · exact absurd h (map_ne (by simp))
      · exact absurd h (map_ne (by simp))
      · exact absurd h (map_ne (by simp))
      · split at h <;> cases h
      · rename_i content hcontent
        cases hpair : Delimiters.ofDirective content with
        | error fault =>
          rw [hpair] at h
          cases h
        | ok found =>
          rw [hpair] at h
          cases h
          exact ⟨content, hcontent, hpair⟩
      · cases h
      · exact absurd h (map_ne (by simp))
  · rintro ⟨rfl, content, hcontent, hpair⟩
    simp only [ofBody, hcontent, hpair]
    rfl

/-- What holds of the active pair, and of every pair that is announced, holds of the pair that is
active behind a tag. -/
lemma activeAfter_preserves {P : ProperDelimiters → Prop} {d : ProperDelimiters} {triple : Bool}
    {body : List Char} {tag : Tag}
    (hannounced : ∀ content pair, Delimiters.ofDirective content = .ok pair → P pair) (hd : P d)
    (h : ofBody triple body = .ok tag) : P (tag.activeAfter d) := by
  cases tag with
  | delimiters pair =>
    obtain ⟨-, content, -, hcontent⟩ := ofBody_eq_delimiters_iff.1 h
    exact hannounced content pair hcontent
  | interpolation escaped path => exact hd
  | opening inverted path => exact hd
  | closing path => exact hd
  | inclusion name => exact hd
  | comment => exact hd

/-- **The active pair stays without line breaks.** -/
theorem activeAfter_isUnbroken {d : ProperDelimiters} {triple : Bool} {body : List Char}
    {tag : Tag} (hd : d.val.IsUnbroken) (h : ofBody triple body = .ok tag) :
    (tag.activeAfter d).val.IsUnbroken :=
  activeAfter_preserves (P := fun pair => pair.val.IsUnbroken)
    (fun _ _ => Delimiters.isUnbroken_of_ofDirective) hd h

/-! ## White space -/

/-- A text without leading white space starts with none. -/
lemma not_isSpace_of_head?_trimStart {cs : List Char} {c : Char}
    (h : (trimStart cs).head? = some c) : isSpace c = false := by
  have hhead := List.head?_dropWhile_not isSpace cs
  rw [trimStart] at h
  rw [h] at hhead
  simpa using hhead

/-- What is trimmed at the end as well leaves the start. -/
lemma trim_prefix (cs : List Char) : trim cs <+: trimStart cs := by
  rw [trim, trimEnd, ← List.reverse_suffix, List.reverse_reverse]
  exact List.dropWhile_suffix isSpace

/-- **A trimmed text neither starts nor ends with white space.** -/
lemma not_isSpace_of_trim {cs : List Char} {c : Char}
    (h : (trim cs).head? = some c ∨ (trim cs).getLast? = some c) : isSpace c = false := by
  rcases h with hfirst | hlast
  · -- what is taken away at the end leaves the first character
    have hprefix := trim_prefix cs
    obtain ⟨rest, hrest⟩ := List.head?_eq_some_iff.1 hfirst
    rw [hrest] at hprefix
    obtain ⟨more, hmore⟩ := hprefix
    exact not_isSpace_of_head?_trimStart (by rw [← hmore]; rfl)
  · rw [trim, trimEnd, List.getLast?_reverse] at hlast
    exact not_isSpace_of_head?_trimStart hlast

/-! ## Names -/

/-- **A tag that includes a template names it by a trimmed text** that is not empty. -/
lemma exists_trim_of_inclusion {triple : Bool} {body : List Char} {name : String}
    (h : ofBody triple body = .ok (.inclusion name)) :
    name ≠ "" ∧ ∃ content, trim content = name.toList := by
  unfold ofBody at h
  simp only at h
  split at h
  · exact absurd h (map_ne (by simp))
  · split at h
    · exact absurd h (map_ne (by simp))
    · exact absurd h (map_ne (by simp))
    · exact absurd h (map_ne (by simp))
    · exact absurd h (map_ne (by simp))
    · rename_i content hcontent
      split at h
      · cases h
      · rename_i hne
        obtain rfl := Tag.inclusion.inj (Except.ok.inj h)
        refine ⟨fun hempty => hne ?_, content, String.toList_ofList.symm⟩
        rw [← String.toList_eq_nil_iff, String.toList_ofList] at hempty
        exact List.isEmpty_iff.2 hempty
    · exact absurd h (map_ne (by simp))
    · cases h
    · exact absurd h (map_ne (by simp))

/-! ## Comments -/

/-- Trimming keeps the first character that is not white space. -/
lemma exists_trim_eq_cons {cs : List Char} {c : Char} (h : (trimStart cs).head? = some c) :
    ∃ rest, trim cs = c :: rest := by
  obtain ⟨rest, hrest⟩ := List.head?_eq_some_iff.1 h
  have hc := not_isSpace_of_head?_trimStart h
  refine ⟨trimEnd rest, ?_⟩
  rw [trim, hrest, trimEnd, List.reverse_cons, List.dropWhile_append]
  split
  · rename_i hempty
    have hnil : rest.reverse.dropWhile isSpace = [] := by simpa using hempty
    rw [trimEnd, hnil, List.dropWhile_cons_of_neg (by simp [hc])]
    rfl
  · rw [List.reverse_append, trimEnd]
    rfl

/-- No path starts with an exclamation mark. -/
lemma ofText?_bang (rest : List Char) : Path.ofText? (String.ofList ('!' :: rest)) = none := by
  have hbad : ¬∀ t ∈ (splitDots ('!' :: rest)).map String.ofList, isIdent t.toList = true := by
    intro hall
    rw [splitDots, if_neg (by decide)] at hall
    split at hall
    · exact absurd (hall (String.ofList ['!']) List.mem_cons_self) (by decide)
    · rename_i part parts hparts
      have hfirst := hall (String.ofList ('!' :: part)) List.mem_cons_self
      rw [String.toList_ofList, isIdent] at hfirst
      exact absurd ((Bool.and_eq_true _ _).mp hfirst).1 (by decide)
  have hlone : String.ofList ('!' :: rest) ≠ "." := by
    intro h
    have hlist := congrArg String.toList h
    rw [String.toList_ofList] at hlist
    exact absurd (List.cons.inj hlist).1 (by decide)
  rw [Path.ofText?, if_neg hlone, String.toList_ofList]
  exact dif_neg hbad

/-- **What starts like a comment is a comment**, if it is well formed at all. -/
theorem eq_comment_of_startsComment {triple : Bool} {body : List Char} {tag : Tag}
    (hstart : startsComment body = true) (h : ofBody triple body = .ok tag) : tag = .comment := by
  obtain ⟨rest, hrest⟩ := exists_trim_eq_cons (of_decide_eq_true hstart)
  unfold ofBody at h
  simp only [hrest] at h
  cases triple with
  | false => exact (Except.ok.inj h).symm
  | true =>
    exfalso
    simp only [if_true, pathOfContent, List.isEmpty_cons, ofText?_bang] at h
    cases h

end Tag

end Stencil.Markup
