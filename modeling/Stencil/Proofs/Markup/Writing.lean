import Mathlib.Tactic.Lemma
import Stencil.Proofs.Code.Paths
import Stencil.Proofs.Markup.Tokens

/-!
# Written tags

A tag that names data can be written out between the active delimiters: the sign of its kind and
the path, with white space around both. Read again, the tag ends where it was written to end and
says what it said, as long as no character of the closer stands in its body. Likewise a pair of
delimiters can be announced on a line of its own.

## Main definitions

* `Gap`, `Padding` — the white space in a written tag.
* `Tag.wording?` — the sign and the path of a tag that names data.
* `Delimiters.tagAround` — a written tag.
* `IsHeading` — the texts that announce a pair of delimiters.

## Main results

* `Tag.ofBody_wording` — a written body is read back.
* `Delimiters.openerAt_opener_append` — no written opener is mistaken for the triple one.
* `tokens_tagAround_of_cutAt`, `tokens_tagAround_append` — a written tag is a token.
* `IsHeading.tokens_append` — an announced pair is active behind its heading.
-/

namespace Stencil.Markup

open Stencil.Text

/-! ## White space -/

/-- White space without line breaks. -/
abbrev Gap := { cs : List Char // ∀ c ∈ cs, isSpace c = true ∧ isBreak c = false }

/-- The white space in a tag: in front of its sign, between the sign and the path, and behind
the path. -/
structure Padding where
  front : Gap
  middle : Gap
  back : Gap

/-- White space in front of a text is trimmed. -/
lemma trimStart_append {front core : List Char} (hfront : ∀ c ∈ front, isSpace c = true)
    (hcore : ∀ c ∈ core.head?, isSpace c = false) : trimStart (front ++ core) = core := by
  rw [trimStart, List.dropWhile_append_of_pos hfront]
  cases core with
  | nil => rfl
  | cons c core => exact List.dropWhile_cons_of_neg (by simpa using hcore)

/-- White space behind a text is trimmed. -/
lemma trimEnd_append {core back : List Char} (hback : ∀ c ∈ back, isSpace c = true)
    (hcore : ∀ c ∈ core.getLast?, isSpace c = false) : trimEnd (core ++ back) = core := by
  have hstart : trimStart (back.reverse ++ core.reverse) = core.reverse :=
    trimStart_append (by simpa using hback) (by simpa using hcore)
  rw [trimEnd, List.reverse_append]
  rw [trimStart] at hstart
  rw [hstart, List.reverse_reverse]

/-- A text is trimmed of the white space around it. -/
lemma trim_append {front core back : List Char} (hfront : ∀ c ∈ front, isSpace c = true)
    (hback : ∀ c ∈ back, isSpace c = true) (hne : core ≠ [])
    (hhead : ∀ c ∈ core.head?, isSpace c = false)
    (hlast : ∀ c ∈ core.getLast?, isSpace c = false) : trim (front ++ core ++ back) = core := by
  obtain ⟨c, rest, rfl⟩ := List.exists_cons_of_ne_nil hne
  rw [trim, List.append_assoc, trimStart_append hfront (by simpa using hhead),
    trimEnd_append hback hlast]

/-! ## Bodies -/

/-- The code of a character of an identifier. -/
lemma toNat_of_isIdentRest {c : Char} (h : isIdentRest c = true) :
    48 ≤ c.toNat ∧ c.toNat ≤ 57 ∨ 65 ≤ c.toNat ∧ c.toNat ≤ 90 ∨ c.toNat = 95 ∨
      97 ≤ c.toNat ∧ c.toNat ≤ 122 := by
  have hle : ∀ a b : Char, a ≤ b ↔ a.toNat ≤ b.toNat := fun a b => UInt32.le_iff_toNat_le
  simp only [isIdentRest, isIdentStart, Bool.or_eq_true, Bool.and_eq_true, decide_eq_true_eq,
    hle] at h
  rcases h with h | (h | h) | rfl
  · exact .inl h
  · exact .inr (.inl h)
  · exact .inr (.inr (.inr h))
  · exact .inr (.inr (.inl rfl))

/-- The written form of a path holds no white space. -/
lemma isSpace_of_mem_text {path : Path} {c : Char} (h : c ∈ path.text.toList) :
    isSpace c = false := by
  rcases Path.mem_text h with rfl | h
  · decide
  · have hcode := toNat_of_isIdentRest h
    simp only [isSpace, Bool.or_eq_false_iff, Bool.and_eq_false_iff, decide_eq_false_iff_not]
    omega

/-- The characters that tell the kinds of tag apart. -/
def signs : List Char := ['&', '#', '^', '/', '>', '=', '!']

/-- The written form of a path holds neither a sign nor a brace. -/
lemma not_mem_text {path : Path} {c : Char} (h : c ∈ '{' :: '}' :: signs) :
    c ∉ path.text.toList := by
  have hother : ∀ c ∈ '{' :: '}' :: signs, c ≠ '.' ∧ isIdentRest c = false :=
    List.forall_iff_forall_mem.1 (by decide)
  intro hmem
  rcases Path.mem_text hmem with hdot | hrest
  · exact (hother c h).1 hdot
  · rw [(hother c h).2] at hrest
    cases hrest

/-- The written form of a path is read as the content of a tag. -/
lemma pathOfContent_text (path : Path) : pathOfContent path.text.toList = .ok path := by
  rw [pathOfContent, if_neg (by simpa using path.toList_text_ne_nil), String.ofList_toList,
    Path.ofText?_text]

/-- The body of a tag: the sign of its kind and a path, with white space around both. -/
def Padding.body (pad : Padding) (sign : List Char) (path : Path) : List Char :=
  pad.front.val ++ sign ++ pad.middle.val ++ path.text.toList ++ pad.back.val

/-- The sign and the path of a tag that names data. -/
def Tag.wording? : Tag → Option (List Char × Path)
  | .interpolation true path => some ([], path)
  | .interpolation false path => some (['&'], path)
  | .opening false path => some (['#'], path)
  | .opening true path => some (['^'], path)
  | .closing path => some (['/'], path)
  | _ => none

section body

variable {pad : Padding} {sign : List Char} {path : Path} {t : Tag}

/-- A written body with a sign is trimmed to the sign and what follows it. -/
lemma trim_body_cons {c : Char} (hc : isSpace c = false) :
    trim (pad.body [c] path) = c :: (pad.middle.val ++ path.text.toList) := by
  have htrim : trim (pad.front.val ++ (c :: (pad.middle.val ++ path.text.toList)) ++
      pad.back.val) = c :: (pad.middle.val ++ path.text.toList) := by
    refine trim_append (fun b hb => (pad.front.property b hb).1)
      (fun b hb => (pad.back.property b hb).1) (List.cons_ne_nil c _) (by simpa using hc) ?_
    -- the last character is one of the path
    intro b hb
    rw [Option.mem_def, ← List.cons_append,
      List.getLast?_append_of_ne_nil _ path.toList_text_ne_nil] at hb
    exact isSpace_of_mem_text (List.mem_of_getLast? hb)
  simpa [Padding.body] using htrim

/-- White space around a path is trimmed. -/
lemma trim_text {front back : List Char} (hfront : ∀ c ∈ front, isSpace c = true)
    (hback : ∀ c ∈ back, isSpace c = true) :
    trim (front ++ path.text.toList ++ back) = path.text.toList :=
  trim_append hfront hback path.toList_text_ne_nil
    (fun _ hc => isSpace_of_mem_text (List.mem_of_head? hc))
    (fun _ hc => isSpace_of_mem_text (List.mem_of_getLast? hc))

/-- What follows the sign of a written body is trimmed to the path. -/
lemma trim_middle : trim (pad.middle.val ++ path.text.toList) = path.text.toList := by
  have htrim : trim (pad.middle.val ++ path.text.toList ++ []) = path.text.toList :=
    trim_text (fun c hc => (pad.middle.property c hc).1) (by simp)
  simpa using htrim

/-- A written body without a sign is trimmed to the path. -/
lemma trim_body_nil : trim (pad.body [] path) = path.text.toList := by
  have htrim : trim (pad.front.val ++ pad.middle.val ++ path.text.toList ++ pad.back.val) =
      path.text.toList := by
    refine trim_text (fun c hc => ?_) fun c hc => (pad.back.property c hc).1
    rcases List.mem_append.1 hc with hc | hc
    · exact (pad.front.property c hc).1
    · exact (pad.middle.property c hc).1
  simpa [Padding.body] using htrim

/-- A body that starts with no sign shows data. -/
lemma Tag.ofBody_of_not_mem_signs {body rest : List Char} {c : Char} (h : trim body = c :: rest)
    (hc : c ∉ signs) : ofBody false body = interpolation true <$> pathOfContent (c :: rest) := by
  rw [ofBody, h]
  simp only [signs, List.mem_cons, not_or] at hc
  simp only [Bool.false_eq_true, if_false]
  -- the first character is none of the seven signs
  split
  all_goals first | rfl | simp_all

/-- **A written body is read back.** -/
theorem Tag.ofBody_wording (h : t.wording? = some (sign, path)) :
    ofBody false (pad.body sign path) = .ok t := by
  have hsign : ∀ c, isSpace c = false → trim (pad.body [c] path) =
      c :: (pad.middle.val ++ path.text.toList) := fun c hc => trim_body_cons hc
  have hpath : ∀ f : Path → Tag,
      (f <$> pathOfContent (trim (pad.middle.val ++ path.text.toList)) : Except TagFault Tag) =
        .ok (f path) := by
    intro f
    rw [trim_middle, pathOfContent_text]
    rfl
  cases t with
  | interpolation escaped p =>
    cases escaped with
    | true =>
      cases h
      obtain ⟨c, rest, hc⟩ := List.exists_cons_of_ne_nil path.toList_text_ne_nil
      have hmem : c ∈ path.text.toList := hc ▸ List.mem_cons_self
      have hno : c ∉ signs := fun hc => not_mem_text (by simp [hc]) hmem
      rw [ofBody_of_not_mem_signs (trim_body_nil.trans hc) hno, ← hc, pathOfContent_text]
      rfl
    | false =>
      cases h
      rw [ofBody, hsign '&' (by decide)]
      exact hpath _
  | opening inverted p =>
    cases inverted with
    | true =>
      cases h
      rw [ofBody, hsign '^' (by decide)]
      exact hpath _
    | false =>
      cases h
      rw [ofBody, hsign '#' (by decide)]
      exact hpath _
  | closing p =>
    cases h
    rw [ofBody, hsign '/' (by decide)]
    exact hpath _
  | inclusion name => cases h
  | delimiters pair => cases h
  | comment => cases h

/-- The sign of a tag that names data is a sign, if there is one. -/
lemma Tag.mem_signs_of_wording (h : t.wording? = some (sign, path)) :
    ∀ c ∈ sign, c ∈ ['&', '#', '^', '/'] := by
  intro c hc
  cases t with
  | interpolation escaped p => cases escaped <;> cases h <;> simp_all
  | opening inverted p => cases inverted <;> cases h <;> simp_all
  | closing p => cases h; simp_all
  | inclusion name => cases h
  | delimiters pair => cases h
  | comment => cases h

/-- The characters of a written body. -/
lemma mem_body {c : Char} (h : c ∈ pad.body sign path) :
    isSpace c = true ∧ isBreak c = false ∨ c ∈ sign ∨ c ∈ path.text.toList := by
  simp only [Padding.body, List.mem_append] at h
  rcases h with (((h | h) | h) | h) | h
  · exact .inl (pad.front.property c h)
  · exact .inr (.inl h)
  · exact .inl (pad.middle.property c h)
  · exact .inr (.inr h)
  · exact .inl (pad.back.property c h)

/-- A written body starts with no brace. -/
lemma Tag.exists_head_body (pad : Padding) (h : t.wording? = some (sign, path)) :
    ∃ c, (pad.body sign path).head? = some c ∧ c ≠ '{' := by
  have hne : pad.body sign path ≠ [] := by
    simp [Padding.body, path.toList_text_ne_nil]
  obtain ⟨c, rest, hc⟩ := List.exists_cons_of_ne_nil hne
  refine ⟨c, by rw [hc]; rfl, ?_⟩
  rintro rfl
  rcases mem_body (show '{' ∈ pad.body sign path by rw [hc]; exact List.mem_cons_self) with
    hspace | hsign | hpath
  · exact absurd hspace.1 (by decide)
  · exact absurd (mem_signs_of_wording h _ hsign) (by decide)
  · exact not_mem_text List.mem_cons_self hpath

end body

/-! ## Written tags as tokens -/

/-- A pattern behind a text that has no character of it. -/
lemma cutAt_append_of_not_mem {pattern before after : List Char} (hp : pattern ≠ [])
    (h : ∀ c ∈ before, c ∉ pattern) :
    cutAt pattern (before ++ (pattern ++ after)) = some (before, after) := by
  obtain ⟨p, ps, rfl⟩ := List.exists_cons_of_ne_nil hp
  induction before with
  | nil =>
    have hpre : (p :: ps).isPrefixOf (p :: (ps ++ after)) = true :=
      List.isPrefixOf_iff_prefix.2 (List.prefix_append (p :: ps) after)
    rw [List.nil_append, List.cons_append, cutAt, if_pos hpre, ← List.cons_append, List.drop_left]
  | cons c before ih =>
    have hc : c ≠ p := fun hcp => h c List.mem_cons_self (hcp ▸ List.mem_cons_self)
    have hpre : (p :: ps).isPrefixOf (c :: (before ++ (p :: ps ++ after))) = false := by
      rw [List.isPrefixOf_cons_cons, beq_false_of_ne hc.symm, Bool.false_and]
    rw [List.cons_append, cutAt, hpre, if_neg Bool.false_ne_true,
      ih fun b hb => h b (List.mem_cons_of_mem c hb)]
    rfl

namespace Delimiters

/-- A tag with the given body between the active delimiters. -/
def tagAround (d : Delimiters) (body : List Char) : List Char := d.opener ++ body ++ d.closer

variable {d : Delimiters}

/-- No tag starts at a character that stands in no opener. -/
lemma openerAt_of_not_mem (hd : d.IsProper) {c : Char} (cs : List Char) (hc : c ∉ d.opener)
    (hbrace : c ≠ '{') : d.openerAt (c :: cs) = none := by
  obtain ⟨o, os, ho⟩ := List.exists_cons_of_ne_nil hd.1
  have hne : o ≠ c := fun hoc => hc (by simp [ho, hoc])
  rw [openerAt, ho, tripleOpener, List.isPrefixOf_cons_cons, List.isPrefixOf_cons_cons,
    beq_false_of_ne hne, beq_false_of_ne hbrace.symm]
  rfl

/-- **No written opener is mistaken for the triple one**: either it does not start with three
braces, or it is longer.

**Proof sketch.** An opener of at most two characters is not completed to three braces by what
follows it, and an opener of three characters is not the triple one. -/
theorem openerAt_opener_append (hd : d.opener ≠ tripleOpener) (hne : d.opener ≠ [])
    {cs : List Char} (hcs : cs.head? ≠ some '{') : d.openerAt (d.opener ++ cs) = some false := by
  have hactive : d.opener.isPrefixOf (d.opener ++ cs) = true :=
    List.isPrefixOf_iff_prefix.2 (List.prefix_append d.opener cs)
  rw [openerAt, hactive]
  cases htriple : tripleOpener.isPrefixOf (d.opener ++ cs) with
  | false => rfl
  | true =>
    obtain ⟨rest, hrest⟩ := List.isPrefixOf_iff_prefix.1 htriple
    have hlong : tripleOpener.length < d.opener.length := by
      rcases hopener : d.opener with _ | ⟨a, _ | ⟨b, _ | ⟨c, _ | ⟨e, more⟩⟩⟩⟩
      · exact absurd hopener hne
      · rw [hopener] at hrest
        have hcs' : cs = '{' :: '{' :: rest := (List.cons.inj hrest).2.symm
        exact absurd (by rw [hcs']; rfl) hcs
      · rw [hopener] at hrest
        have hcs' : cs = '{' :: rest := (List.cons.inj (List.cons.inj hrest).2).2.symm
        exact absurd (by rw [hcs']; rfl) hcs
      · rw [hopener] at hrest hd
        simp only [tripleOpener, List.cons_append, List.nil_append, List.cons.injEq] at hrest
        obtain ⟨rfl, rfl, rfl, -⟩ := hrest
        exact absurd rfl hd
      · simp only [tripleOpener, List.length_cons, List.length_nil]
        omega
    exact congrArg some (decide_eq_false (Nat.not_le.2 hlong))

/-- A written tag starts with its opener, if no brace follows it. -/
lemma openerAt_tagAround_append (hd : d.opener ≠ tripleOpener) (hne : d.opener ≠ [])
    {body : List Char} {c : Char} (hhead : body.head? = some c) (hbrace : c ≠ '{')
    (cs : List Char) : d.openerAt (d.tagAround body ++ cs) = some false := by
  have hnext : (body ++ (d.closer ++ cs)).head? ≠ some '{' := by
    rw [List.head?_append, hhead]
    exact fun h => hbrace (Option.some.inj h)
  have hopen := openerAt_opener_append hd hne hnext
  simpa [tagAround] using hopen

/-- What follows the opener of a written tag. -/
lemma drop_tagAround_append (d : Delimiters) (body cs : List Char) :
    (d.tagAround body ++ cs).drop (d.opening false).length = body ++ (d.closer ++ cs) := by
  rw [tagAround, List.append_assoc, List.append_assoc]
  exact List.drop_left

end Delimiters

section tokens

variable {d : ProperDelimiters} {cs : List Char}

/-- Text in which no opener starts gives its characters. -/
lemma tokens_text_append {content : List Char}
    (h : ∀ c ∈ content, c ∉ d.val.opener ∧ c ≠ '{') :
    tokens d (content ++ cs) = (tokens d cs).map (content.map Token.char ++ ·) := by
  induction content with
  | nil => simp
  | cons c content ih =>
    obtain ⟨hc, hbrace⟩ := h c List.mem_cons_self
    rw [List.cons_append,
      tokens_cons_of_none (Delimiters.openerAt_of_not_mem d.property _ hc hbrace),
      ih fun b hb => h b (List.mem_cons_of_mem c hb), Option.map_map]
    rfl

/-- **A written tag is a token**, if its closer is found behind its body. -/
theorem tokens_tagAround_of_cutAt {body : List Char} {c : Char} {t : Tag}
    (hd : d.val.opener ≠ tripleOpener) (hhead : body.head? = some c) (hbrace : c ≠ '{')
    (hcloser : cutAt d.val.closer (body ++ (d.val.closer ++ cs)) = some (body, cs))
    (ht : Tag.ofBody false body = .ok t) :
    tokens d (d.val.tagAround body ++ cs) =
      (tokens (t.activeAfter d) cs).map (.tag (d.val.tagAround body) t :: ·) := by
  have hopen := Delimiters.openerAt_tagAround_append hd d.property.1 hhead hbrace cs
  have hread : readTag d.val false [] (body ++ (d.val.closer ++ cs)) =
      some (d.val.tagAround body, t, cs) := by
    have hcut : cutAt (d.val.closing false) (body ++ (d.val.closer ++ cs)) = some (body, cs) :=
      hcloser
    simp only [readTag, hcut, List.nil_append, ht]
    rfl
  obtain ⟨o, os, ho⟩ := List.exists_cons_of_ne_nil d.property.1
  have hcons : d.val.tagAround body ++ cs = o :: (os ++ (body ++ (d.val.closer ++ cs))) := by
    simp [Delimiters.tagAround, ho]
  have hdrop : (d.val.tagAround body ++ cs).drop (d.val.opening false).length =
      body ++ (d.val.closer ++ cs) := Delimiters.drop_tagAround_append d.val body cs
  rw [hcons] at hopen hdrop
  rw [hcons, tokens_cons_of_some hopen, hdrop, tokensInside, hread]

/-- **A written tag is a token**, if no character of its closer stands in its body. -/
theorem tokens_tagAround_append {body : List Char} {c : Char} {t : Tag}
    (hd : d.val.opener ≠ tripleOpener) (hhead : body.head? = some c) (hbrace : c ≠ '{')
    (hcloser : ∀ b ∈ body, b ∉ d.val.closer) (ht : Tag.ofBody false body = .ok t) :
    tokens d (d.val.tagAround body ++ cs) =
      (tokens (t.activeAfter d) cs).map (.tag (d.val.tagAround body) t :: ·) :=
  tokens_tagAround_of_cutAt hd hhead hbrace (cutAt_append_of_not_mem d.property.2 hcloser) ht

end tokens

/-! ## Announced delimiters -/

/-- The words of a single word. -/
lemma words_eq_singleton {w : List Char} (hne : w ≠ []) (hw : ∀ c ∈ w, isSpace c = false) :
    words w = [w] := by
  induction w with
  | nil => exact absurd rfl hne
  | cons c w ih =>
    have hc := hw c List.mem_cons_self
    cases w with
    | nil => rw [words_singleton, if_neg (by simp [hc])]
    | cons d w =>
      have hd := hw d (by simp)
      rw [words_cons_cons, if_neg (by simp [hc]), if_neg (by simp [hd]),
        ih (List.cons_ne_nil d w) fun b hb => hw b (List.mem_cons_of_mem c hb)]

/-- The words of a text that starts with a word. -/
lemma words_append_cons {w rest : List Char} {s : Char} (hne : w ≠ [])
    (hw : ∀ c ∈ w, isSpace c = false) (hs : isSpace s = true) :
    words (w ++ s :: rest) = w :: words rest := by
  induction w with
  | nil => exact absurd rfl hne
  | cons c w ih =>
    have hc := hw c List.mem_cons_self
    cases w with
    | nil =>
      rw [List.singleton_append, words_cons_cons, if_neg (by simp [hc]), if_pos hs,
        words_cons_of_isSpace hs]
    | cons d w =>
      have hd := hw d (by simp)
      have hih := ih (List.cons_ne_nil d w) fun b hb => hw b (List.mem_cons_of_mem c hb)
      rw [List.cons_append] at hih
      rw [List.cons_append, List.cons_append, words_cons_cons, if_neg (by simp [hc]),
        if_neg (by simp [hd]), hih]

/-- What is announced for a pair: its two words. -/
def ProperDelimiters.announcement (d : ProperDelimiters) : List Char :=
  d.val.opener ++ ' ' :: d.val.closer

/-- The announcement of a pair that can be announced announces it. -/
lemma Delimiters.ofDirective_announcement {content : List Char} {d : ProperDelimiters}
    (h : ofDirective content = .ok d) : ofDirective (d.announcement ++ ['=']) = .ok d := by
  have hplain := isPlain_of_ofDirective h
  have hwords : words d.announcement = [d.val.opener, d.val.closer] := by
    rw [ProperDelimiters.announcement, words_append_cons d.property.1 hplain.opener (by decide),
      words_eq_singleton d.property.2 hplain.closer]
  exact ofDirective_eq_ok_iff.2 ⟨⟨_, rfl, hwords⟩, (ofDirective_eq_ok_iff.1 h).2⟩

/-- **The texts that announce a pair of delimiters**: nothing at all for the standard pair, and for
any other one without a closing brace a line that consists of a directive. -/
inductive IsHeading : List Char → ProperDelimiters → Prop where
  | standard : IsHeading [] ⟨.standard, Delimiters.standard_isProper⟩
  | directive {content : List Char} {d : ProperDelimiters} :
      Delimiters.ofDirective content = .ok d → '}' ∉ d.val.opener → '}' ∉ d.val.closer →
        IsHeading (Delimiters.standard.tagAround ('=' :: d.announcement ++ ['=']) ++ ['\n']) d

namespace IsHeading

variable {heading : List Char} {d : ProperDelimiters}

/-- An announced pair is a plain one. -/
lemma isPlain (h : IsHeading heading d) : d.val.IsPlain := by
  cases h with
  | standard => exact Delimiters.standard_isPlain
  | directive hcontent => exact Delimiters.isPlain_of_ofDirective hcontent

/-- **An announced pair is active behind its heading**, which is a line of its own. -/
theorem tokens_append (h : IsHeading heading d) (cs : List Char) :
    ∃ front, tokens ⟨.standard, Delimiters.standard_isProper⟩ (heading ++ cs) =
        (tokens d cs).map (front ++ ·) ∧
      (front = [] ∨ ∃ source, Unbroken source ∧
        front = [.tag source (.delimiters d), .char '\n']) := by
  cases h with
  | standard => exact ⟨[], by simp, .inl rfl⟩
  | directive hcontent hopener hcloser =>
    have hunbroken := Delimiters.isUnbroken_of_ofDirective hcontent
    have hbody : ∀ c ∈ '=' :: d.announcement ++ ['='],
        c = '=' ∨ c = ' ' ∨ c ∈ d.val.opener ∨ c ∈ d.val.closer := by
      intro c hc
      simp only [ProperDelimiters.announcement, List.cons_append, List.append_assoc,
        List.mem_cons, List.mem_append, List.not_mem_nil, or_false] at hc
      tauto
    have hread : Tag.ofBody false ('=' :: d.announcement ++ ['=']) = .ok (.delimiters d) := by
      have htrim : trim ([] ++ ('=' :: d.announcement ++ ['=']) ++ []) =
          '=' :: d.announcement ++ ['='] := by
        refine trim_append (by simp) (by simp) (by simp) ?_ ?_
        · rintro c ⟨⟩
          decide
        · intro c hc
          rw [List.getLast?_concat] at hc
          obtain rfl := Option.some.inj hc
          decide
      rw [List.nil_append, List.append_nil] at htrim
      rw [Tag.ofBody, htrim]
      show Tag.delimiters <$> Delimiters.ofDirective (d.announcement ++ ['=']) = _
      rw [Delimiters.ofDirective_announcement hcontent]
      rfl
    have htag : tokens ⟨.standard, Delimiters.standard_isProper⟩
        (Delimiters.standard.tagAround ('=' :: d.announcement ++ ['=']) ++ '\n' :: cs) = _ :=
      tokens_tagAround_append (c := '=') (by decide) rfl (by decide) ?_ hread
    · have hbreak : d.val.openerAt ('\n' :: cs) = none :=
        Delimiters.openerAt_of_not_mem d.property cs
          (fun hmem => absurd (hunbroken.1 _ hmem) (by decide)) (by decide)
      refine ⟨_, ?_, .inr ⟨Delimiters.standard.tagAround ('=' :: d.announcement ++ ['=']), ?_, rfl⟩⟩
      · rw [List.append_assoc, List.singleton_append, htag]
        show Option.map _ (tokens d ('\n' :: cs)) = _
        rw [tokens_cons_of_none hbreak, Option.map_map]
        rfl
      · refine Unbroken.append_iff.2 ⟨Unbroken.append_iff.2
          ⟨Delimiters.standard_isUnbroken.1, fun c hc => ?_⟩, Delimiters.standard_isUnbroken.2⟩
        rcases hbody c hc with rfl | rfl | hc | hc
        · rfl
        · rfl
        · exact hunbroken.1 c hc
        · exact hunbroken.2 c hc
    · -- the standard closer does not occur in the announcement
      intro b hb hmem
      obtain rfl : b = '}' := by simpa [Delimiters.standard] using hmem
      rcases hbody '}' hb with hc | hc | hc | hc
      · exact absurd hc (by decide)
      · exact absurd hc (by decide)
      · exact hopener hc
      · exact hcloser hc

end IsHeading

end Stencil.Markup
