import Mathlib.Data.List.Forall2
import Mathlib.Tactic.Lemma
import Stencil.Proofs.Engine.Links
import Stencil.Proofs.Markup.Rows

/-!
# The code of a template is the translation of its source

A template is translated logical line by logical line. A tag that shows no data and stands alone
on its line takes the line with it; every other line gives all of its characters and tags in
order. Characters between which there is no instruction make one text.

## Main definitions

* `soleTag?` — the tag that takes its logical line with it.
* `contribution` — what a logical line contributes.
* `merge` — adjacent characters put together.
* `translation` — the instructions for the tokens of a template.

## Main results

* `Spells.contribution` — what a row contributes is the contribution of its logical line.
* `instrsOf_stepsOf` — the instructions for a list of rows.
* `Engine.compile_translates` — a template that compiles is translated.
-/

namespace Stencil

open Stencil.Text Stencil.Markup

/-! ## Translating tokens -/

/-- The tag that takes its logical line with it: the only tag of the line, of a kind that shows
no data, with nothing but blanks beside it. -/
def soleTag? (line : List (Char ⊕ Tag)) : Option Tag :=
  match line.filterMap Sum.getRight? with
  | [tag] =>
    if tag.standsAlone && (line.filterMap Sum.getLeft?).all isBlank then some tag else none
  | _ => none

/-- The characters in front of the first tag of a logical line. -/
def leading (line : List (Char ⊕ Tag)) : List Char :=
  (line.takeWhile Sum.isLeft).filterMap Sum.getLeft?

/-- The instruction of a tag with the given indentation, if it has one. -/
def tagCode (indent : List Char) (tag : Tag) : List (Char ⊕ Instr) :=
  (instrOfTag? indent tag).toList.map .inr

/-- What a character or a tag contributes to a logical line of which it is only a part. -/
def markCode : Char ⊕ Tag → List (Char ⊕ Instr)
  | .inl c => [.inl c]
  | .inr tag => tagCode [] tag

/-- What a logical line contributes. A tag that takes the line with it is indented by the
characters in front of it. -/
def contribution (line : List (Char ⊕ Tag)) : List (Char ⊕ Instr) :=
  match soleTag? line with
  | some tag => tagCode (leading line) tag
  | none => line.flatMap markCode

/-- The instruction that writes a text, if there is something to write. -/
def textCode (content : List Char) : List Instr :=
  if content.isEmpty then [] else [.text (String.ofList content)]

/-- Adjacent characters put together, after text that is still to be written. -/
def merge (pending : List Char) : List (Char ⊕ Instr) → List Instr
  | [] => textCode pending
  | .inl c :: rest => merge (pending ++ [c]) rest
  | .inr instr :: rest => textCode pending ++ instr :: merge [] rest

/-- The instructions for the tokens of a template. If there is nothing to do, the empty text is
written. -/
def translation (ts : List Token) : List Instr :=
  match merge [] ((logicalLines ts).flatMap fun line => contribution (line.map Token.mark)) with
  | [] => [.text ""]
  | code => code

/-! ## From parts to instructions -/

namespace Markup.Part

/-- What a part contributes. -/
def code : Part → List (Char ⊕ Instr)
  | text content => content.map .inl
  | tag t _ indent => tagCode indent t

end Markup.Part

/-- Characters are put behind the text that is still to be written. -/
lemma merge_append_text (pending content : List Char) (rest : List (Char ⊕ Instr)) :
    merge pending (content.map Sum.inl ++ rest) = merge (pending ++ content) rest := by
  induction content generalizing pending with
  | nil => simp
  | cons c content ih =>
    rw [List.map_cons, List.cons_append, merge, ih, List.append_assoc]
    rfl

/-- The instruction of a text is the same with and without a range. -/
lemma map_instr_textStep (content : List Char) :
    (textStep content).map Step.instr = textCode content := by
  unfold textStep textCode
  split <;> rfl

/-- The instructions for a list of parts. -/
lemma map_instr_codeOf (pending : List Char) (parts : List Part) :
    (codeOf pending parts).map Step.instr = merge pending (parts.flatMap Part.code) := by
  induction parts generalizing pending with
  | nil => exact map_instr_textStep pending
  | cons part parts ih =>
    rw [List.flatMap_cons]
    cases part with
    | text content => rw [codeOf, Part.code, merge_append_text, ih]
    | tag t span indent =>
      rw [codeOf, Part.code, tagCode]
      split
      · rename_i hnone
        rw [hnone, ih]
        rfl
      · rename_i instr hsome
        rw [hsome, List.map_append, map_instr_textStep, List.map_cons, ih]
        rfl

/-! ## From rows to parts -/

namespace Markup

/-- Characters hold no tags. -/
lemma filterMap_getRight?_append (content : List Char) (rest : List (Char ⊕ Tag)) :
    (content.map Sum.inl ++ rest).filterMap Sum.getRight? = rest.filterMap Sum.getRight? := by
  simp

/-- Characters are the text that they make. -/
lemma filterMap_getLeft?_append (content : List Char) (rest : List (Char ⊕ Tag)) :
    (content.map Sum.inl ++ rest).filterMap Sum.getLeft? =
      content ++ rest.filterMap Sum.getLeft? := by
  simp [List.filterMap_map, Function.comp_def]

/-- Items of which all are blank text say nothing but blanks. -/
lemma all_isBlankText_iff (row : Row) :
    row.all isBlankText = true ↔ (row.flatMap Item.marks).filterMap Sum.getRight? = [] ∧
      ((row.flatMap Item.marks).filterMap Sum.getLeft?).all isBlank = true := by
  induction row with
  | nil => simp
  | cons item row ih =>
    cases item with
    | text content =>
      have hmarks : (Item.text content :: row).flatMap Item.marks =
          content.map Sum.inl ++ row.flatMap Item.marks := rfl
      have htags := filterMap_getRight?_append content (row.flatMap Item.marks)
      have hchars := filterMap_getLeft?_append content (row.flatMap Item.marks)
      rw [hmarks, htags, hchars, List.all_append, List.all_cons, Bool.and_eq_true,
        Bool.and_eq_true, ih]
      exact and_left_comm
    | tag t span => simp [isBlankText, Item.marks]

/-- A row starts with at most one text. Either there is nothing more, or a tag follows. -/
lemma row_cases {row : Row} (h : row.IsChain Item.Apart) :
    ∃ front content, (front = [] ∧ content = [] ∨ front = [Item.text content]) ∧
      (row = front ∨ ∃ t span rest, row = front ++ .tag t span :: rest) := by
  cases row with
  | nil => exact ⟨[], [], .inl ⟨rfl, rfl⟩, .inl rfl⟩
  | cons item row =>
    cases item with
    | tag t span => exact ⟨[], [], .inl ⟨rfl, rfl⟩, .inr ⟨t, span, row, rfl⟩⟩
    | text content =>
      refine ⟨[.text content], content, .inr rfl, ?_⟩
      cases row with
      | nil => exact .inl rfl
      | cons next row =>
        cases next with
        | tag t span => exact .inr ⟨t, span, row, rfl⟩
        | text more =>
          -- two texts are never next to each other
          cases (List.isChain_cons_cons.1 h).1 rfl

/-- The tag that stands alone in a row that starts with at most one text. -/
lemma standalone?_append_tag {front rest : Row} {content : List Char} {t : Tag} {span : Span}
    (hfront : front = [] ∧ content = [] ∨ front = [Item.text content]) :
    standalone? (front ++ .tag t span :: rest) =
      if content.all isBlank && t.standsAlone && rest.all isBlankText then
        some (.tag t span content)
      else none := by
  have htag : isBlankText (.tag t span) = false := rfl
  rcases hfront with ⟨rfl, rfl⟩ | rfl
  · simp [standalone?, htag]
  · by_cases hblank : content.all isBlank = true
    · have htext : isBlankText (.text content) = true := hblank
      simp [standalone?, htag, htext, hblank]
    · have htext : isBlankText (.text content) = false := by simpa [isBlankText] using hblank
      simp [standalone?, htext, hblank]

/-- No tag stands alone in a row without tags. -/
lemma standalone?_of_text {row : Row} {content : List Char}
    (h : row = [] ∧ content = [] ∨ row = [Item.text content]) : standalone? row = none := by
  rcases h with ⟨rfl, -⟩ | rfl
  · rfl
  · by_cases hblank : isBlankText (.text content) = true
    · simp [standalone?, hblank]
    · simp [standalone?, hblank]

end Markup

/-- A line without tags holds no tag that stands alone. -/
lemma soleTag?_of_text (content : List Char) : soleTag? (content.map Sum.inl) = none := by
  have htags := filterMap_getRight?_append content []
  rw [List.append_nil] at htags
  rw [soleTag?, htags]
  rfl

/-- The tag that stands alone in a line with a tag behind some characters. -/
lemma soleTag?_append_tag (content : List Char) (t : Tag) (rest : List (Char ⊕ Tag)) :
    soleTag? (content.map Sum.inl ++ .inr t :: rest) =
      if content.all isBlank = true ∧ t.standsAlone = true ∧
          rest.filterMap Sum.getRight? = [] ∧ (rest.filterMap Sum.getLeft?).all isBlank = true then
        some t
      else none := by
  have htags := filterMap_getRight?_append content (.inr t :: rest)
  have hchars := filterMap_getLeft?_append content (.inr t :: rest)
  rw [soleTag?, htags, hchars]
  rw [List.filterMap_cons_some (by rfl), List.filterMap_cons_none (by rfl), List.all_append]
  cases hrest : rest.filterMap Sum.getRight? with
  | cons u others => simp
  | nil =>
    simp only [Bool.and_eq_true, true_and]
    congr 1
    exact propext and_left_comm

/-- The characters in front of the first tag. -/
lemma leading_append_tag (content : List Char) (t : Tag) (rest : List (Char ⊕ Tag)) :
    leading (content.map Sum.inl ++ .inr t :: rest) = content := by
  rw [leading, List.takeWhile_append_of_pos (by simp)]
  simp [List.filterMap_map, Function.comp_def]

/-- What a row contributes where no tag stands alone. -/
lemma flatMap_code_map_partOfItem (row : Row) :
    (row.map partOfItem).flatMap Part.code = (row.flatMap Item.marks).flatMap markCode := by
  induction row with
  | nil => rfl
  | cons item row ih =>
    rw [List.map_cons, List.flatMap_cons, List.flatMap_cons, List.flatMap_append, ih]
    cases item with
    | text content =>
      show content.map Sum.inl ++ _ = (content.map Sum.inl).flatMap markCode ++ _
      rw [List.flatMap_map, List.map_eq_flatMap]
      rfl
    | tag t span => simp [partOfItem, Part.code, Item.marks, markCode]

/-- **What a row contributes is the contribution of its logical line.**

**Proof sketch.** A row starts with at most one text, since no text in it is divided. If a tag
follows, it stands alone in the row exactly if it does in the line, and the text in front of it
is the indentation. -/
theorem Markup.Spells.contribution {row : Row} {us : List Token} (h : Spells row us) :
    (partsOfRow row).flatMap Part.code = Stencil.contribution (us.map Token.mark) := by
  rw [← h.marks, Stencil.contribution, partsOfRow]
  obtain ⟨front, content, hfront, hrow⟩ := row_cases h.apart
  have hmarks : front.flatMap Item.marks = content.map Sum.inl := by
    rcases hfront with ⟨rfl, rfl⟩ | rfl
    · rfl
    · simp [Item.marks]
  rcases hrow with rfl | ⟨t, span, rest, rfl⟩
  · rw [standalone?_of_text hfront, hmarks, soleTag?_of_text, flatMap_code_map_partOfItem, hmarks]
  · have hall : (front ++ .tag t span :: rest).flatMap Item.marks =
        content.map Sum.inl ++ .inr t :: rest.flatMap Item.marks := by
      rw [List.flatMap_append, hmarks]
      rfl
    have hiff := all_isBlankText_iff rest
    rw [standalone?_append_tag hfront, hall, soleTag?_append_tag, leading_append_tag]
    by_cases hsole : content.all isBlank = true ∧ t.standsAlone = true ∧
        rest.all isBlankText = true
    · rw [if_pos (by simpa [and_assoc] using hsole)]
      rw [hiff] at hsole
      rw [if_pos hsole]
      simp [Part.code]
    · rw [if_neg (by simpa [and_assoc] using hsole)]
      rw [hiff] at hsole
      rw [if_neg hsole]
      exact (flatMap_code_map_partOfItem _).trans (by rw [hall])

/-- What the rows of a template contribute. -/
lemma flatMap_code_partsOfRow {rows : List Row} {lns : List (List Token)}
    (h : List.Forall₂ Spells rows lns) :
    (rows.flatMap partsOfRow).flatMap Part.code =
      lns.flatMap fun line => contribution (line.map Token.mark) := by
  induction h with
  | nil => rfl
  | cons hspells _ ih =>
    rw [List.flatMap_cons, List.flatMap_append, List.flatMap_cons, ih, hspells.contribution]

/-- **The instructions for a list of rows** are the translation of the tokens that they say. -/
theorem instrsOf_stepsOf {rows : List Row} {ts : List Token}
    (h : List.Forall₂ Spells rows (logicalLines ts)) :
    instrsOf (stepsOf rows) = translation ts := by
  have hcode : (stepsOf rows).map Step.instr =
      merge [] ((logicalLines ts).flatMap fun line => contribution (line.map Token.mark)) := by
    rw [stepsOf, map_instr_codeOf, flatMap_code_partsOfRow h]
  rw [translation, ← hcode, instrsOf]
  cases stepsOf rows <;> rfl

/-- The own sequence of a program stays when its name is settled. -/
lemma Program.main_closing (name : Option String) (p : Program) :
    (p.closing name).main = p.main := by
  cases name with
  | none => rfl
  | some own =>
    simp only [closing]
    split <;> rfl

/-! ## Translated instructions have no targets -/

/-- An instruction of merged code is a text that is not empty, or it was there before. -/
lemma mem_merge {i : Instr} {pending : List Char} {code : List (Char ⊕ Instr)}
    (h : i ∈ merge pending code) :
    (∃ content, content ≠ "" ∧ i = .text content) ∨ .inr i ∈ code := by
  have htext : ∀ content : List Char, i ∈ textCode content → ∃ s, s ≠ "" ∧ i = .text s := by
    intro content hi
    unfold textCode at hi
    split at hi
    · cases hi
    · rename_i hne
      refine ⟨_, ?_, List.mem_singleton.1 hi⟩
      simpa [← String.toList_inj] using hne
  induction code generalizing pending with
  | nil => exact .inl (htext pending h)
  | cons x code ih =>
    cases x with
    | inl c => exact (ih h).imp id (List.mem_cons_of_mem _)
    | inr j =>
      rcases List.mem_append.1 h with h | h
      · exact .inl (htext pending h)
      · rcases List.mem_cons.1 h with rfl | h
        · exact .inr List.mem_cons_self
        · exact (ih h).imp id (List.mem_cons_of_mem _)

/-- The code of a tag is its instruction. -/
lemma mem_tagCode {i : Instr} {indent : List Char} {tag : Tag} :
    .inr i ∈ tagCode indent tag ↔ instrOfTag? indent tag = some i := by
  simp [tagCode]

/-- An instruction that a logical line contributes is that of a tag. It is indented by the
characters in front of the tag if the tag takes the line with it, and not at all otherwise. -/
lemma exists_tag_of_mem_contribution {i : Instr} {line : List (Char ⊕ Tag)}
    (h : .inr i ∈ contribution line) :
    ∃ indent tag, instrOfTag? indent tag = some i ∧
      (indent = [] ∨ soleTag? line = some tag ∧ indent = leading line) := by
  unfold contribution at h
  split at h
  · rename_i tag hsole
    exact ⟨_, tag, mem_tagCode.1 h, .inr ⟨hsole, rfl⟩⟩
  · obtain ⟨mark, -, hmark⟩ := List.mem_flatMap.1 h
    cases mark with
    | inl c => simp [markCode] at hmark
    | inr tag => exact ⟨[], tag, mem_tagCode.1 hmark, .inl rfl⟩

/-- An instruction of a translation is a text, or a logical line contributes it. -/
lemma mem_translation {i : Instr} {ts : List Token} (h : i ∈ translation ts) :
    (∃ content, i = .text content) ∨
      ∃ line ∈ logicalLines ts, .inr i ∈ contribution (line.map Token.mark) := by
  unfold translation at h
  split at h
  · exact .inl ⟨"", List.mem_singleton.1 h⟩
  · rcases mem_merge h with ⟨content, -, hcontent⟩ | hcode
    · exact .inl ⟨content, hcontent⟩
    · exact .inr (List.mem_flatMap.1 hcode)

/-- The instructions of a translation have no targets yet. -/
lemma map_stored_translation (ts : List Token) :
    (translation ts).map Instr.stored = translation ts := by
  have hall : ∀ i ∈ translation ts, i.stored = i := by
    intro i hi
    rcases mem_translation hi with ⟨content, rfl⟩ | ⟨line, -, hline⟩
    · rfl
    · obtain ⟨indent, tag, htag, -⟩ := exists_tag_of_mem_contribution hline
      cases tag <;> cases htag <;> rfl
  exact (List.map_congr_left hall).trans (List.map_id _)

/-- **The sequence of a template is made from the translation of its tokens.** -/
theorem Draft.outcome_eq_translation {cs : List Char} {s : Sequence}
    (h : (Draft.ofText cs).outcome = .ok s) :
    ∃ ts, tokens ⟨.standard, Delimiters.standard_isProper⟩ cs = some ts ∧
      Sequence.ofList (translation ts) = .ok s ∧
      s.instrs.toList.map Instr.stored = translation ts := by
  obtain ⟨hending, -, hofList⟩ := outcome_eq_ok h
  obtain ⟨ts, hts, hrows, -⟩ := Reading.ofText_spells hending
  rw [instrsOf_stepsOf hrows] at hofList
  refine ⟨ts, hts, hofList, ?_⟩
  rw [Sequence.map_stored_of_ofList hofList, map_stored_translation]

/-! ## Compiled templates -/

/-- **A template that compiles is translated.** The source falls into tokens, and nothing of it
is lost, doubled or moved. Its logical lines are made of whole lines, and only comments join
lines. The instructions of the main sequence are the translation of the tokens, and sequencing
these adds nothing but the targets.

**Proof sketch.** The reader goes through the source line by line, but no delimiter runs over a
line end, so the tags that it finds are those of the source as a whole. Each row that it gathers
is a logical line with its text undivided, and contributes what this line does. -/
theorem Engine.compile_translates {e : Engine} {name : Option String} {source : String}
    {p : Program} (h : (e.compile name source).outcome = .ok p) :
    ∃ ts, tokens ⟨.standard, Delimiters.standard_isProper⟩ source.toList = some ts ∧
      ts.flatMap Token.source = source.toList ∧
      (logicalLines ts).flatMap (fun line => lines (line.flatMap Token.source)) =
        lines source.toList ∧
      (∀ text tag, Token.tag text tag ∈ ts → Unbroken text ∨ tag = .comment) ∧
      Sequence.ofList (translation ts) = .ok p.main ∧
      p.main.instrs.toList.map Instr.stored = translation ts := by
  obtain ⟨main, compiled, hmain, -, rfl⟩ := compile_eq_ok h
  obtain ⟨hending, -, hofList⟩ := Draft.outcome_eq_ok hmain
  obtain ⟨ts, hts, hrows, hjoins⟩ := Reading.ofText_spells hending
  have hsource := tokens_source hts
  have hlines := lines_logicalLines (tokens_head Delimiters.standard_isUnbroken hts)
  rw [hsource] at hlines
  rw [instrsOf_stepsOf hrows] at hofList
  rw [Program.main_closing]
  refine ⟨ts, hts, hsource, hlines, hjoins, hofList, ?_⟩
  rw [Sequence.map_stored_of_ofList hofList, map_stored_translation]

/-- A comment that joins two lines, a partial that stands alone, and delimiters that change in
the middle of a line. -/
theorem compile_translates_on_joined_lines :
    ∃ e : Engine, ∃ source : String, ∃ p ts, (e.compile none source).outcome = .ok p ∧
      tokens ⟨.standard, Delimiters.standard_isProper⟩ source.toList = some ts ∧
        Sequence.ofList (translation ts) = .ok p.main ∧
          translation ts = [.text "12\r\n", .enter "p" " \t",
            .interpolate true ⟨["v"], by decide⟩, .text "3"] := by
  let loader : Loader := ⟨.ofList [("p", .ok "")]⟩
  have hrun : (({ loader := some loader } : Engine).compile none
      "1\x7b\x7b!a\nb\x7d\x7d2\r\n \t\x7b\x7b>p\x7d\x7d \r\x7b\x7b=< >=\x7d\x7d<v>3"
      ).outcome.toOption.map (fun p => p.main.instrs.toList.map Instr.stored) =
      some [.text "12\r\n", .enter "p" " \t", .interpolate true ⟨["v"], by decide⟩,
        .text "3"] := by
    decide +kernel
  obtain ⟨p, hp, hcode⟩ := exists_of_toOption_map_eq_some hrun
  obtain ⟨ts, hts, -, -, -, hofList, hstored⟩ := Engine.compile_translates hp
  exact ⟨_, _, p, ts, hp, hts, hofList, hstored.symm.trans hcode⟩

end Stencil
