import Mathlib.Tactic.Lemma
import Stencil.Proofs.Code.Bracketing
import Stencil.Proofs.Code.Translation
import Stencil.Proofs.Engine.Acceptance
import Stencil.Proofs.Markup.Correspondence
import Stencil.Proofs.Markup.Writing

/-!
# Printing a program and compiling it

Texts, data and sections can be written down as a template, between any delimiters that a template
can announce and with any white space in the tags. Compiling this template gives the instructions
that were written down, provided that a text can be told from a tag, that a name holds no part of
the closer, and that no tag of a section is alone on its line, which would take the line with it.

## Main definitions

* `Instr.written`, `printed` — an instruction, and a list of them, written down.
* `IsPrintable` — the lists of instructions that can be written down between two delimiters.
* `IsSectionLine` — a line that consists of the tag of a section.

## Main results

* `tokens_printed` — what is written down is read back token by token.
* `translation_printed` — the translation of what was written down.
* `isWellFormed_printed` — what is written down is well-formed.
* `Engine.compile_printed` — printing and compiling gives back the instructions.
-/

namespace Stencil

open Stencil.Text Stencil.Markup

/-! ## Writing instructions down -/

namespace Instr

/-- The tag of an instruction that shows data or belongs to a section. -/
def tag? : Instr → Option Tag
  | interpolate escaped path => some (.interpolation escaped path)
  | openSection inverted path _ => some (.opening inverted path)
  | closeSection path _ => some (.closing path)
  | text _ => none
  | enter _ _ => none

/-- Whether an instruction writes text. -/
def isText : Instr → Bool
  | text _ => true
  | _ => false

/-- An instruction as it is written down: a text as it is, and data and the ends of sections as
tags. Inclusions are left out. -/
def written (d : Delimiters) (pad : Padding) : Instr → List Char
  | text content => content.toList
  | interpolate true path => d.tagAround (pad.body [] path)
  | interpolate false path => d.tagAround (pad.body ['&'] path)
  | openSection false path _ => d.tagAround (pad.body ['#'] path)
  | openSection true path _ => d.tagAround (pad.body ['^'] path)
  | closeSection path _ => d.tagAround (pad.body ['/'] path)
  | enter _ _ => []

/-- The tokens of an instruction that is written down. -/
def tokens (d : Delimiters) (pad : Padding) : Instr → List Token
  | text content => content.toList.map .char
  | i => i.tag?.toList.map (.tag (i.written d pad))

/-- An instruction that can be written down: no inclusion, no empty text and none in which an
opener could start, and no name with a character of the closer. -/
structure IsWritable (d : Delimiters) (i : Instr) : Prop where
  not_included : i.included? = none
  text : ∀ content, i = .text content →
    content ≠ "" ∧ ∀ c ∈ content.toList, c ∉ d.opener ∧ c ≠ '{'
  name : ∀ path, i.path? = some path → ∀ c ∈ path.text.toList, c ∉ d.closer

variable {d : Delimiters} {pad : Padding} {i : Instr} {t : Tag}

/-- How the tag of an instruction is written. -/
lemma written_of_tag? (d : Delimiters) (pad : Padding) (h : i.tag? = some t) :
    ∃ sign path, t.wording? = some (sign, path) ∧ i.path? = some path ∧
      i.written d pad = d.tagAround (pad.body sign path) := by
  cases i with
  | interpolate escaped path => cases h; cases escaped <;> exact ⟨_, _, rfl, rfl, rfl⟩
  | openSection inverted path target => cases h; cases inverted <;> exact ⟨_, _, rfl, rfl, rfl⟩
  | closeSection path target => cases h; exact ⟨_, _, rfl, rfl, rfl⟩
  | text content => cases h
  | enter name indent => cases h

/-- The tag of an instruction makes this instruction, without a target. -/
lemma instrOfTag?_tag? (indent : List Char) (h : i.tag? = some t) :
    instrOfTag? indent t = some i.stored := by
  cases i <;> cases h <;> rfl

/-- The tag of an instruction is the section end that the instruction is. -/
lemma bind_sectionEnd?_tag? (i : Instr) : i.tag?.bind Tag.sectionEnd? = i.sectionEnd? := by
  cases i <;> rfl

/-- The tag of an instruction neither changes the delimiters nor includes a template. -/
lemma tag?_cases (h : i.tag? = some t) :
    (∀ pair, t ≠ .delimiters pair) ∧ t.included? = none := by
  cases i <;> cases h <;> exact ⟨nofun, rfl⟩

/-- An instruction that can be written down is a text or has a tag. -/
lemma IsWritable.cases (h : i.IsWritable d) : (∃ content, i = .text content) ∨
    ∃ t, i.tag? = some t := by
  cases i with
  | text content => exact .inl ⟨content, rfl⟩
  | enter name indent => cases h.not_included
  | interpolate escaped path => exact .inr ⟨_, rfl⟩
  | openSection inverted path target => exact .inr ⟨_, rfl⟩
  | closeSection path target => exact .inr ⟨_, rfl⟩

/-- The tokens of an instruction that has a tag. -/
lemma tokens_of_tag? (h : i.tag? = some t) :
    i.tokens d pad = [.tag (i.written d pad) t] := by
  cases i <;> cases h <;> rfl

/-- The tokens of an instruction that has no tag are characters. -/
lemma exists_tokens_eq_map_char (d : Delimiters) (pad : Padding) (h : i.tag? = none) :
    ∃ cs : List Char, i.tokens d pad = cs.map Token.char := by
  cases i with
  | text content => exact ⟨content.toList, rfl⟩
  | enter name indent => exact ⟨[], rfl⟩
  | interpolate escaped path => cases h
  | openSection inverted path target => cases h
  | closeSection path target => cases h

end Instr

/-- Instructions written down one after the other, each with white space of its own. -/
def printed (d : Delimiters) (items : List (Instr × Padding)) : List Char :=
  items.flatMap fun item => item.1.written d item.2

/-- The tokens of what is written down. -/
def printedTokens (d : Delimiters) (items : List (Instr × Padding)) : List Token :=
  items.flatMap fun item => item.1.tokens d item.2

/-- **A list of instructions that can be written down between two delimiters**: it is not empty,
its sections are nested, no text follows on another one, and the signs of tags hold no character
of the closer. -/
structure IsPrintable (d : Delimiters) (is : List Instr) : Prop where
  ne_nil : is ≠ []
  nested : Nested (is.filterMap Instr.sectionEnd?)
  writable : ∀ i ∈ is, i.IsWritable d
  apart : is.IsChain fun i j => i.isText = true → j.isText = false
  signs : ∀ c ∈ ['#', '^', '/', '&'], c ∉ d.closer

/-- **A line that consists of one tag of a section** and of blanks. -/
def IsSectionLine (d : Delimiters) (line : List Char) : Prop :=
  ∃ (before after : List Char) (i : Instr) (pad : Padding),
    line = before ++ i.written d pad ++ after ∧ i.IsWritable d ∧
      i.sectionEnd? ≠ none ∧ before.all isBlank = true ∧ after.all isBlank = true

/-! ## Reading it back -/

section printed

variable {heading : List Char} {d : ProperDelimiters} {items : List (Instr × Padding)}

/-- The tag of an instruction that can be written down is read back. -/
lemma tokens_written_append {i : Instr} {pad : Padding} {t : Tag} {cs : List Char}
    (hheading : IsHeading heading d) (hsigns : ∀ c ∈ ['#', '^', '/', '&'], c ∉ d.val.closer)
    (hi : i.IsWritable d.val) (ht : i.tag? = some t) :
    tokens d (i.written d.val pad ++ cs) =
      (tokens d cs).map (.tag (i.written d.val pad) t :: ·) := by
  obtain ⟨sign, path, hwording, hpath, hwritten⟩ := Instr.written_of_tag? d.val pad ht
  obtain ⟨c, hhead, hbrace⟩ := Tag.exists_head_body pad hwording
  have hcloser : ∀ b ∈ pad.body sign path, b ∉ d.val.closer := by
    intro b hb hmem
    rcases mem_body hb with ⟨hspace, -⟩ | hsign | hname
    · rw [hheading.isPlain.closer b hmem] at hspace
      cases hspace
    · refine hsigns b ?_ hmem
      have hfour := Tag.mem_signs_of_wording hwording b hsign
      simp only [List.mem_cons, List.not_mem_nil, or_false] at hfour ⊢
      tauto
    · exact hi.name path hpath b hname hmem
  have hactive : t.activeAfter d = d := by
    cases t with
    | delimiters pair => exact absurd rfl ((Instr.tag?_cases ht).1 pair)
    | interpolation escaped path => rfl
    | opening inverted path => rfl
    | closing path => rfl
    | inclusion name => rfl
    | comment => rfl
  rw [hwritten, tokens_tagAround_append hheading.isPlain.apart hhead hbrace hcloser
    (Tag.ofBody_wording hwording), hactive]

/-- **What is written down is read back token by token.** -/
theorem tokens_printed (hheading : IsHeading heading d)
    (hsigns : ∀ c ∈ ['#', '^', '/', '&'], c ∉ d.val.closer)
    (hitems : ∀ item ∈ items, item.1.IsWritable d.val) :
    tokens d (printed d.val items) = some (printedTokens d.val items) := by
  induction items with
  | nil => rw [printed, List.flatMap_nil, tokens]; rfl
  | cons item items ih =>
    obtain ⟨i, pad⟩ := item
    have hi := hitems _ List.mem_cons_self
    have hrest := ih fun item hitem => hitems item (List.mem_cons_of_mem _ hitem)
    rw [printed] at hrest
    rw [printed, printedTokens, List.flatMap_cons, List.flatMap_cons]
    rcases hi.cases with ⟨content, hcontent⟩ | ⟨t, ht⟩
    · obtain rfl : i = .text content := hcontent
      show tokens d (content.toList ++ _) = _
      rw [tokens_text_append (hi.text content rfl).2, hrest]
      rfl
    · show tokens d (i.written d.val pad ++ _) = _
      rw [tokens_written_append hheading hsigns hi ht, hrest, Instr.tokens_of_tag? ht]
      rfl

/-- A tag among the tokens of what was written down is that of one of the instructions. -/
lemma exists_of_mem_printedTokens {d : Delimiters} {source : List Char} {t : Tag}
    (h : Token.tag source t ∈ printedTokens d items) :
    ∃ item ∈ items, item.1.tag? = some t ∧ source = item.1.written d item.2 := by
  obtain ⟨⟨i, pad⟩, hitem, hmem⟩ := List.mem_flatMap.1 h
  cases htag : i.tag? with
  | none =>
    obtain ⟨cs, hcs⟩ := Instr.exists_tokens_eq_map_char d pad htag
    rw [hcs] at hmem
    obtain ⟨c, -, hc⟩ := List.mem_map.1 hmem
    cases hc
  | some u =>
    rw [Instr.tokens_of_tag? htag, List.mem_singleton] at hmem
    obtain ⟨rfl, rfl⟩ := Token.tag.inj hmem
    exact ⟨_, hitem, htag, rfl⟩

/-- The tags of what was written down are those of the instructions. -/
lemma filterMap_tag?_printedTokens (d : Delimiters) (items : List (Instr × Padding)) :
    (printedTokens d items).filterMap Token.tag? =
      (items.map Prod.fst).filterMap Instr.tag? := by
  induction items with
  | nil => rfl
  | cons item items ih =>
    obtain ⟨i, pad⟩ := item
    have hhead : (i.tokens d pad).filterMap Token.tag? = i.tag?.toList := by
      cases htag : i.tag? with
      | some t => rw [Instr.tokens_of_tag? htag]; rfl
      | none =>
        obtain ⟨cs, hcs⟩ := Instr.exists_tokens_eq_map_char d pad htag
        rw [hcs, filterMap_tag?_map_char]
        rfl
    rw [printedTokens, List.flatMap_cons, List.filterMap_append, hhead, ← printedTokens, ih,
      List.map_cons, List.filterMap_cons]
    cases i.tag? <;> rfl

/-! ## Translating it -/

/-- The tokens of a text contribute its characters to a line of which they are only a part. -/
lemma flatMap_markCode_text (d : Delimiters) (pad : Padding) (content : String) :
    ((Instr.text content).tokens d pad).flatMap (fun token => markCode token.mark) =
      content.toList.map Sum.inl := by
  show (content.toList.map Token.char).flatMap _ = content.toList.map Sum.inl
  rw [List.flatMap_map, List.map_eq_flatMap]
  rfl

/-- The token of any other instruction contributes the instruction, without a target. -/
lemma flatMap_markCode_tag (d : Delimiters) (pad : Padding) {i : Instr} {t : Tag}
    (ht : i.tag? = some t) :
    (i.tokens d pad).flatMap (fun token => markCode token.mark) = [Sum.inr i.stored] := by
  rw [Instr.tokens_of_tag? ht, List.flatMap_singleton]
  show tagCode [] t = _
  rw [tagCode, Instr.instrOfTag?_tag? [] ht]
  rfl

/-- **Characters that nothing divides make one text again.**

**Proof sketch.** Induction on the instructions. In front of a text nothing is pending, and in
front of what follows a text just this text is. -/
lemma merge_printedTokens {d : Delimiters} (pending : List Char)
    (hitems : ∀ item ∈ items, item.1.IsWritable d)
    (hapart : (items.map Prod.fst).IsChain fun i j => i.isText = true → j.isText = false)
    (hpending : pending = [] ∨ ∀ i ∈ (items.map Prod.fst).head?, i.isText = false) :
    merge pending ((printedTokens d items).flatMap fun token => markCode token.mark) =
      textCode pending ++ (items.map Prod.fst).map Instr.stored := by
  induction items generalizing pending with
  | nil => exact (List.append_nil _).symm
  | cons item items ih =>
    obtain ⟨i, pad⟩ := item
    have hi := hitems _ List.mem_cons_self
    rw [List.map_cons] at hapart hpending
    obtain ⟨hnext, htail⟩ := List.isChain_cons.1 hapart
    have hrest := fun pending => ih pending
      (fun item hitem => hitems item (List.mem_cons_of_mem _ hitem)) htail
    rw [printedTokens, List.flatMap_cons, List.flatMap_append, ← printedTokens]
    rcases hi.cases with ⟨content, hcontent⟩ | ⟨t, ht⟩
    · obtain rfl : i = .text content := hcontent
      have hnil : pending = [] := by
        rcases hpending with hnil | htext
        · exact hnil
        · cases htext _ rfl
      have hne : content.toList.isEmpty = false := by
        simpa using (hi.text content rfl).1
      rw [hnil, flatMap_markCode_text, merge_append_text, List.nil_append,
        hrest _ (.inr fun j hj => hnext j hj rfl), textCode, hne, if_neg Bool.false_ne_true,
        String.ofList_toList]
      rfl
    · rw [flatMap_markCode_tag d pad ht, List.singleton_append, merge, hrest [] (.inl rfl)]
      rfl

/-- **The translation of what was written down** are the instructions, if no tag of a section
stands alone on its line. -/
theorem translation_printed {d : Delimiters} {front : List Token}
    (hfront : front = [] ∨ ∃ source pair, front = [.tag source (.delimiters pair), .char '\n'])
    (hitems : IsPrintable d (items.map Prod.fst))
    (halone : ∀ line ∈ logicalLines (printedTokens d items),
      soleTag? (line.map Token.mark) = none) :
    translation (front ++ printedTokens d items) = (items.map Prod.fst).map Instr.stored := by
  have hwritable : ∀ item ∈ items, item.1.IsWritable d := fun item hitem =>
    hitems.writable item.1 (List.mem_map_of_mem hitem)
  -- the heading is a line of its own, and it contributes nothing
  have hheading : (logicalLines (front ++ printedTokens d items)).flatMap
      (fun line => contribution (line.map Token.mark)) =
        (logicalLines (printedTokens d items)).flatMap
          fun line => contribution (line.map Token.mark) := by
    rcases hfront with rfl | ⟨source, pair, rfl⟩
    · rfl
    · have hcut : logicalLines ([.tag source (.delimiters pair)] ++ ['\n'].map Token.char ++
          printedTokens d items) = _ :=
        logicalLines_append (by simp [Token.endsLine]) (.inl rfl) (by simp)
      have hnone : contribution ([Token.tag source (.delimiters pair), .char '\n'].map Token.mark) =
          [] := rfl
      rw [show [Token.tag source (.delimiters pair), .char '\n'] =
        [.tag source (.delimiters pair)] ++ ['\n'].map Token.char from rfl, hcut, List.flatMap_cons]
      show contribution ([Token.tag source (.delimiters pair), .char '\n'].map Token.mark) ++ _ = _
      rw [hnone, List.nil_append]
  have hlines : (logicalLines (printedTokens d items)).flatMap
      (fun line => contribution (line.map Token.mark)) =
        (printedTokens d items).flatMap fun token => markCode token.mark := by
    conv_rhs => rw [← logicalLines_flatten (printedTokens d items), List.flatten_eq_flatMap,
      List.flatMap_assoc]
    refine List.flatMap_congr fun line hline => ?_
    rw [contribution, halone line hline, List.flatMap_map]
    rfl
  have hmerge : merge [] ((printedTokens d items).flatMap fun token => markCode token.mark) =
      (items.map Prod.fst).map Instr.stored :=
    merge_printedTokens [] hwritable hitems.apart (.inl rfl)
  have hne : (items.map Prod.fst).map Instr.stored ≠ [] := by
    simpa using hitems.ne_nil
  rw [translation, hheading, hlines, hmerge]
  split
  · rename_i hnil
    exact absurd hnil hne
  · rfl

/-! ## Lines with the tag of a section -/

/-- Tokens among which there is no tag are characters. -/
lemma exists_eq_map_char {ts : List Token} (h : ∀ token ∈ ts, token.tag? = none) :
    ∃ cs : List Char, ts = cs.map Token.char := by
  induction ts with
  | nil => exact ⟨[], rfl⟩
  | cons token ts ih =>
    obtain ⟨cs, rfl⟩ := ih fun u hu => h u (List.mem_cons_of_mem token hu)
    cases token with
    | char c => exact ⟨c :: cs, rfl⟩
    | tag source t => cases h _ List.mem_cons_self

/-- The tag that takes its logical line with it, and the blanks beside it. -/
lemma exists_of_soleTag? {line : List Token} {t : Tag}
    (h : soleTag? (line.map Token.mark) = some t) :
    ∃ (before source after : List Char),
      line = before.map Token.char ++ .tag source t :: after.map Token.char ∧
        t.standsAlone = true ∧ before.all isBlank = true ∧ after.all isBlank = true := by
  have hmark : Sum.getRight? ∘ Token.mark = Token.tag? := by
    funext token
    cases token <;> rfl
  unfold soleTag? at h
  rw [List.filterMap_map, hmark] at h
  split at h
  · rename_i u htags
    split at h
    · rename_i halone
      obtain rfl := Option.some.inj h
      obtain ⟨front, token, back, rfl, hfront, htoken, hback⟩ := List.filterMap_eq_cons_iff.1 htags
      obtain ⟨before, rfl⟩ := exists_eq_map_char hfront
      obtain ⟨after, rfl⟩ := exists_eq_map_char (List.filterMap_eq_nil_iff.1 hback)
      cases token with
      | char c => cases htoken
      | tag source v =>
        obtain rfl : v = u := Option.some.inj htoken
        have hmarks : (before.map Token.char ++ Token.tag source v :: after.map Token.char).map
            Token.mark = before.map Sum.inl ++ Sum.inr v :: (after.map Sum.inl ++ []) := by
          rw [List.map_append, List.map_cons, List.map_map, List.map_map, List.append_nil]
          rfl
        rw [hmarks, filterMap_getLeft?_append, List.filterMap_cons_none (by rfl),
          filterMap_getLeft?_append, List.filterMap_nil, List.append_nil, List.all_append,
          Bool.and_eq_true, Bool.and_eq_true] at halone
        exact ⟨before, source, after, rfl, halone.1, halone.2.1, halone.2.2⟩
    · cases h
  · cases h

/-- **No tag takes its line with it** in what was written down, if no line consists of the tag of
a section. -/
theorem soleTag?_printedTokens {d : Delimiters}
    (hitems : ∀ item ∈ items, item.1.IsWritable d)
    (hsources : ∀ source t, Token.tag source t ∈ printedTokens d items →
      source ≠ [] ∧ Unbroken source)
    (hsource : (printedTokens d items).flatMap Token.source = printed d items)
    (hlines : ∀ line ∈ lines (printed d items), ¬IsSectionLine d line) :
    ∀ line ∈ logicalLines (printedTokens d items), soleTag? (line.map Token.mark) = none := by
  intro line hline
  cases hsole : soleTag? (line.map Token.mark) with
  | none => rfl
  | some t =>
    exfalso
    obtain ⟨before, source, after, rfl, halone, hbefore, hafter⟩ := exists_of_soleTag? hsole
    have hmem : Token.tag source t ∈ printedTokens d items := by
      rw [← logicalLines_flatten (printedTokens d items)]
      exact List.mem_flatten_of_mem hline (by simp)
    obtain ⟨⟨i, pad⟩, hitem, htag, rfl⟩ := exists_of_mem_printedTokens hmem
    have hline' := List.mem_map_of_mem (f := fun line => line.flatMap Token.source) hline
    rw [map_source_logicalLines hsources, hsource] at hline'
    refine hlines _ hline' ⟨before, after, i, pad, ?_, hitems _ hitem, ?_, hbefore, hafter⟩
    · have hchars : ∀ cs : List Char, (cs.map Token.char).flatMap Token.source = cs := by
        intro cs
        rw [List.flatMap_map]
        exact List.flatMap_pure_eq_map id cs |>.trans (List.map_id cs)
      rw [List.flatMap_append, List.flatMap_cons, hchars, hchars, List.append_assoc]
      rfl
    · -- the tag belongs to a section, since data never stands alone
      cases i with
      | openSection inverted path target => exact Option.some_ne_none _
      | closeSection path target => exact Option.some_ne_none _
      | interpolate escaped path =>
        cases htag
        cases halone
      | text content => cases htag
      | enter name indent => cases htag

/-! ## Well-formed templates -/

/-- The tag that an instruction is written as holds no line break. -/
lemma unbroken_of_mem_printedTokens (hheading : IsHeading heading d) {source : List Char} {t : Tag}
    (h : Token.tag source t ∈ printedTokens d.val items) : source ≠ [] ∧ Unbroken source := by
  obtain ⟨⟨i, pad⟩, -, htag, rfl⟩ := exists_of_mem_printedTokens h
  obtain ⟨sign, path, hwording, -, hwritten⟩ := Instr.written_of_tag? d.val pad htag
  have hbody : Unbroken (pad.body sign path) := by
    intro c hc
    rcases mem_body hc with hspace | hsign | hname
    · exact hspace.2
    · have hsigns : ∀ c ∈ ['&', '#', '^', '/'], isBreak c = false :=
        List.forall_iff_forall_mem.1 (by decide)
      exact hsigns c (Tag.mem_signs_of_wording hwording c hsign)
    · by_contra hbreak
      have hspace := isSpace_of_isBreak (Bool.not_eq_false _ ▸ hbreak)
      rw [isSpace_of_mem_text hname] at hspace
      cases hspace
  rw [hwritten]
  refine ⟨?_, Unbroken.append_iff.2 ⟨Unbroken.append_iff.2 ⟨hheading.isPlain.isUnbroken.1, hbody⟩,
    hheading.isPlain.isUnbroken.2⟩⟩
  simp [Delimiters.tagAround, d.property.1]

/-- **What was written down is well-formed**, and it includes nothing. -/
theorem isWellFormed_printed {front : List Token} (hheading : IsHeading heading d)
    (hitems : IsPrintable d.val (items.map Prod.fst))
    (hfront : front = [] ∨
      ∃ source, Unbroken source ∧ front = [.tag source (.delimiters d), .char '\n'])
    (htokens : tokens ⟨.standard, Delimiters.standard_isProper⟩ (heading ++ printed d.val items) =
      some (front ++ printedTokens d.val items)) :
    (Scan.ofText (heading ++ printed d.val items)).IsWellFormed ∧
      (Scan.ofText (heading ++ printed d.val items)).included = [] := by
  have htells := tells_scan Delimiters.standard_isUnbroken htokens 0
  have hunbroken : ∀ source t, Token.tag source t ∈ front ++ printedTokens d.val items →
      Unbroken source := by
    intro source t hmem
    rcases List.mem_append.1 hmem with hmem | hmem
    · rcases hfront with rfl | ⟨source', hsource', rfl⟩
      · cases hmem
      · obtain ⟨rfl, -⟩ : source = source' ∧ t = .delimiters d := by simpa using hmem
        exact hsource'
    · exact (unbroken_of_mem_printedTokens hheading hmem).2
  -- the tags are those of the instructions, behind the directive if there is one
  obtain ⟨first, hfirst, hreadings⟩ : ∃ first, (first = [] ∨ first = [.delimiters d]) ∧
      readings (Scan.ofText (heading ++ printed d.val items)).tags =
        first ++ (items.map Prod.fst).filterMap Instr.tag? := by
    refine ⟨front.filterMap Token.tag?, ?_, ?_⟩
    · rcases hfront with rfl | ⟨source, -, rfl⟩
      · exact .inl rfl
      · exact .inr rfl
    · rw [← filterMap_tag?_printedTokens d.val, ← List.filterMap_append]
      exact htells.readings_eq
  have hends : sectionEnds (readings (Scan.ofText (heading ++ printed d.val items)).tags) =
      (items.map Prod.fst).filterMap Instr.sectionEnd? := by
    have hnone : sectionEnds first = [] := by
      rcases hfirst with rfl | rfl <;> rfl
    rw [hreadings, sectionEnds, List.filterMap_append, List.filterMap_filterMap]
    rw [sectionEnds] at hnone
    rw [hnone, List.nil_append]
    exact congrArg (List.filterMap · _) (funext Instr.bind_sectionEnd?_tag?)
  constructor
  · refine ⟨htells.closed, fun m hm => ?_, fun m hm => ?_, ?_, hends ▸ hitems.nested⟩
    · obtain ⟨source, t, hmem, -, hwithin⟩ := htells.read m hm
      exact .inl fun c hc => hunbroken source t hmem c (hwithin.subset hc)
    · obtain ⟨source, t, -, ht, -⟩ := htells.read m hm
      exact ⟨t, ht⟩
    · intro before pair rest hsplit
      cases before with
      | nil => exact .nil
      | cons u before =>
        -- a directive is never the tag of an instruction
        exfalso
        have hmem : .delimiters pair ∈ (items.map Prod.fst).filterMap Instr.tag? := by
          rw [hreadings] at hsplit
          rcases hfirst with rfl | rfl
          · rw [List.nil_append] at hsplit
            rw [hsplit]
            simp
          · have htail : (items.map Prod.fst).filterMap Instr.tag? =
                before ++ .delimiters pair :: rest := (List.cons.inj hsplit).2
            rw [htail]
            simp
        obtain ⟨i, -, hi⟩ := List.mem_filterMap.1 hmem
        exact (Instr.tag?_cases hi).1 pair rfl
  · rw [Scan.included, hreadings, List.filterMap_eq_nil_iff]
    intro t ht
    rcases List.mem_append.1 ht with ht | ht
    · rcases hfirst with rfl | rfl
      · cases ht
      · rw [List.mem_singleton.1 ht]
        rfl
    · obtain ⟨i, -, hi⟩ := List.mem_filterMap.1 ht
      exact (Instr.tag?_cases hi).2

end printed

/-! ## Compiling it -/

/-- The main sequence of a template that compiles is made from the translation of its tokens. -/
lemma Engine.ofList_translation_of_compile {e : Engine} {name : Option String} {source : String}
    {p : Program} {ts : List Token} (h : (e.compile name source).outcome = .ok p)
    (hts : tokens ⟨.standard, Delimiters.standard_isProper⟩ source.toList = some ts) :
    Sequence.ofList (translation ts) = .ok p.main := by
  obtain ⟨main, compiled, hmain, -, rfl⟩ := compile_eq_ok h
  obtain ⟨ts', hts', hofList, -⟩ := Draft.outcome_eq_translation hmain
  obtain rfl : ts' = ts := Option.some.inj (hts'.symm.trans hts)
  rw [Program.main_closing]
  exact hofList

/-- **Printing and compiling gives back the instructions**, between all delimiters that a template
can announce and with any white space in the tags: the template compiles, and its main sequence
are the instructions that were written down, with their targets settled.

**Proof sketch.** No opener starts in a text and no closer in the body of a tag, so the template
is read back token by token. No line loses its tag, and characters that nothing divides make one
text, so its translation are the instructions that were written down. Nothing is included, and
the sections are nested, so the template compiles. -/
theorem Engine.compile_printed {heading : List Char} {d : ProperDelimiters}
    {items : List (Instr × Padding)} (hheading : IsHeading heading d)
    (hitems : IsPrintable d.val (items.map Prod.fst))
    (hlines : ∀ line ∈ lines (printed d.val items), ¬IsSectionLine d.val line)
    (e : Engine) (name : Option String) :
    ∃ p, (e.compile name (String.ofList (heading ++ printed d.val items))).outcome = .ok p ∧
      Sequence.ofList (items.map Prod.fst) = .ok p.main ∧
      p.main.instrs.toList.map Instr.stored = (items.map Prod.fst).map Instr.stored ∧
      WellBracketed p.main.instrs := by
  have hwritable : ∀ item ∈ items, item.1.IsWritable d.val := fun item hitem =>
    hitems.writable item.1 (List.mem_map_of_mem hitem)
  have hback := tokens_printed hheading hitems.signs hwritable
  obtain ⟨front, hfront, hshape⟩ := hheading.tokens_append (printed d.val items)
  rw [hback] at hfront
  obtain ⟨hwell, hincluded⟩ := isWellFormed_printed hheading hitems hshape hfront
  have hneeded : ∀ n, ¬e.Needed name [] n := by
    intro n hn
    induction hn with
    | root hmem _ => cases hmem
    | step _ _ _ _ ih => exact ih
  have hsource : (String.ofList (heading ++ printed d.val items)).toList =
      heading ++ printed d.val items := String.toList_ofList
  obtain ⟨p, hp⟩ := (e.exists_program_iff name
    (String.ofList (heading ++ printed d.val items))).2 (by
      rw [hsource, hincluded]
      exact ⟨hwell, fun n hn => absurd hn (hneeded n)⟩)
  have halone := soleTag?_printedTokens hwritable
    (fun _ _ => unbroken_of_mem_printedTokens hheading) (tokens_source hback) hlines
  have htranslation := translation_printed
    (hshape.imp_right fun ⟨source, _, hsource⟩ => ⟨source, d, hsource⟩) hitems halone
  have hofList := ofList_translation_of_compile hp (hsource.symm ▸ hfront)
  rw [htranslation, Sequence.ofList_map_stored] at hofList
  exact ⟨p, hp, hofList, Sequence.map_stored_of_ofList hofList,
    (Sequence.isFinished_of_ofList hofList).wellBracketed⟩

/-- A character that can stand in no tag of a section, and is no blank, stands in its line. -/
lemma not_isSectionLine_of_mem {d : Delimiters} {line : List Char} {c : Char} (hc : c ∈ line)
    (hspace : isSpace c = false) (hblank : isBlank c = false) (hopener : c ∉ d.opener)
    (hcloser : c ∉ d.closer) (hsign : c ∉ ['&', '#', '^', '/']) (hdot : c ≠ '.')
    (hident : isIdentRest c = false) : ¬IsSectionLine d line := by
  have hoff : ∀ cs : List Char, cs.all isBlank = true → c ∉ cs := by
    intro cs hcs hmem
    rw [List.all_eq_true.1 hcs c hmem] at hblank
    cases hblank
  rintro ⟨before, after, i, pad, rfl, -, hsection, hbefore, hafter⟩
  obtain ⟨t, ht⟩ : ∃ t, i.tag? = some t := by
    cases i with
    | openSection inverted path target => exact ⟨_, rfl⟩
    | closeSection path target => exact ⟨_, rfl⟩
    | interpolate escaped path => exact absurd rfl hsection
    | text content => exact absurd rfl hsection
    | enter name indent => exact absurd rfl hsection
  obtain ⟨sign, path, hwording, -, hwritten⟩ := Instr.written_of_tag? d pad ht
  rw [hwritten, Delimiters.tagAround] at hc
  simp only [List.mem_append] at hc
  rcases hc with (hc | (hc | hc) | hc) | hc
  · exact hoff before hbefore hc
  · exact hopener hc
  · rcases mem_body hc with hc | hc | hc
    · rw [hspace] at hc
      cases hc.1
    · exact hsign (Tag.mem_signs_of_wording hwording c hc)
    · rcases Path.mem_text hc with hc | hc
      · exact hdot hc
      · rw [hident] at hc
        cases hc
  · exact hcloser hc
  · exact hoff after hafter hc

/-- A section within another one and two kinds of white space in the tags, an opener that starts
with three braces, and a text with closing braces and line breaks. -/
theorem Engine.compile_printed_on_longer_opener :
    ∃ (heading : List Char) (d : ProperDelimiters) (items : List (Instr × Padding)) (p : Program),
      IsHeading heading d ∧ IsPrintable d.val (items.map Prod.fst) ∧
      (∀ line ∈ lines (printed d.val items), ¬IsSectionLine d.val line) ∧
      heading ++ printed d.val items =
        ("\x7b\x7b=\x7b\x7b\x7b\x7b |=\x7d\x7d\n" ++
          "+\n\t+\x7b\x7b\x7b\x7b #\u00a0a.b|\x7b\x7b\x7b\x7b ^\u00a0.|" ++
          "\x7d\x7d\r+\x7b\x7b\x7b\x7b &\u00a0.|" ++
          "\x7b\x7b\x7b\x7b /\u00a0.|\x7b\x7b\x7b\x7b /\u00a0a.b|").toList ∧
      (Engine.empty.compile none (String.ofList (heading ++ printed d.val items))).outcome = .ok p ∧
      Sequence.ofList (items.map Prod.fst) = .ok p.main := by
  let d : ProperDelimiters := ⟨⟨['{', '{', '{', '{'], ['|']⟩, by decide⟩
  let path : Path := ⟨["a", "b"], by decide⟩
  let pad : Padding := ⟨⟨[' '], List.forall_mem_singleton.2 (by decide)⟩,
    ⟨['\u00a0'], List.forall_mem_singleton.2 (by decide)⟩, ⟨[], List.forall_mem_nil _⟩⟩
  let items : List (Instr × Padding) :=
    [(.text "+\n\t+", pad), (.openSection false path 0, pad), (.openSection true .self 0, pad),
      (.text "\x7d\x7d\r+", pad), (.interpolate false .self, pad), (.closeSection .self 0, pad),
      (.closeSection path 0, pad)]
  have hheading : IsHeading
      (Delimiters.standard.tagAround ('=' :: d.announcement ++ ['=']) ++ ['\n']) d :=
    .directive (show Delimiters.ofDirective ['{', '{', '{', '{', ' ', '|', '='] = .ok d by decide)
      (by decide) (by decide)
  have hwritable : ∀ i ∈ items.map Prod.fst, i.IsWritable d.val := by
    intro i hi
    simp only [items, List.map_cons, List.map_nil, List.mem_cons, List.not_mem_nil,
      or_false] at hi
    rcases hi with rfl | rfl | rfl | rfl | rfl | rfl | rfl <;>
      refine ⟨rfl, ?_, ?_⟩ <;> rintro _ ⟨⟩
    -- the texts are not empty, and no character of a text or a name is part of a delimiter
    · exact ⟨by decide, List.forall_iff_forall_mem.1 (by decide)⟩
    · exact List.forall_iff_forall_mem.1 (by decide)
    · exact List.forall_iff_forall_mem.1 (by decide)
    · exact ⟨by decide, List.forall_iff_forall_mem.1 (by decide)⟩
    · exact List.forall_iff_forall_mem.1 (by decide)
    · exact List.forall_iff_forall_mem.1 (by decide)
    · exact List.forall_iff_forall_mem.1 (by decide)
  have hitems : IsPrintable d.val (items.map Prod.fst) :=
    ⟨List.cons_ne_nil _ _, (nested_iff_unwind _).2 (by decide), hwritable, by decide,
      List.forall_iff_forall_mem.1 (by decide)⟩
  -- a plus sign stands in every line, and never in a tag
  have hplus : ∀ line ∈ lines (printed d.val items), '+' ∈ line := by decide +kernel
  have hlines : ∀ line ∈ lines (printed d.val items), ¬IsSectionLine d.val line :=
    fun line hline => not_isSectionLine_of_mem (hplus line hline) (by decide) (by decide)
      (by decide) (by decide) (by decide) (by decide) (by decide)
  obtain ⟨p, hp, hofList, -, -⟩ := Engine.compile_printed hheading hitems hlines .empty none
  exact ⟨_, d, items, p, hheading, hitems, hlines, by decide +kernel, hp, hofList⟩

end Stencil
