import Mathlib.Tactic.Lemma
import Stencil.Proofs.Code.Appending
import Stencil.Proofs.Markup.Insertions

/-!
# Comments on a line of their own and the code of a template

A line with nothing but a comment is one logical line, and the comment takes it along. Comments have
no instruction, so the line contributes neither characters nor instructions. The characters in front
of the line and those behind it meet in the code just as they did without the line.

## Main results

* `CommentLine.contribution_tokens` — such a line contributes nothing.
* `CommentLine.translation_insert` — the translation with such a line in it.
* `Draft.outcome_insertLine` — the sequence of a template into which such a line is put.
-/

namespace Stencil

open Stencil.Text Stencil.Markup

namespace Markup.CommentLine

variable {d : ProperDelimiters} (line : CommentLine d.val)

/-- What the line says, the source of the comment left aside. -/
lemma map_mark_tokens : line.tokens.map Token.mark =
    line.lead.map Sum.inl ++ .inr .comment :: (line.tail ++ ['\n']).map Sum.inl := by
  simp [tokens, content, Token.mark, Function.comp_def]

/-- **A line with nothing but a comment contributes nothing.** -/
theorem contribution_tokens : contribution (line.tokens.map Token.mark) = [] := by
  have hblank : ∀ c : Char, c = ' ' ∨ c = '\t' → isBlank c = true := by
    rintro c (rfl | rfl) <;> decide
  have hlead : line.lead.all isBlank = true :=
    List.all_eq_true.2 fun c hc => hblank c (line.lead_blank c hc)
  have htail : (line.tail ++ ['\n']).all isBlank = true := by
    rw [List.all_append, List.all_eq_true.2 fun c hc => hblank c (line.tail_blank c hc)]
    rfl
  have hchars := filterMap_getLeft?_append (line.tail ++ ['\n']) []
  have htags := filterMap_getRight?_append (line.tail ++ ['\n']) []
  rw [List.append_nil, List.filterMap_nil] at hchars htags
  rw [List.append_nil] at hchars
  rw [contribution, map_mark_tokens, soleTag?_append_tag, hchars, htags,
    if_pos ⟨hlead, rfl, rfl, htail⟩]
  rfl

/-- **The translation with a line in it that has nothing but a comment** is the one without it, if
logical lines end where the line is put. -/
theorem translation_insert {ts us : List Token}
    (h : logicalLines (ts ++ us) = logicalLines ts ++ logicalLines us)
    (hline : logicalLines (ts ++ (line.tokens ++ us)) =
      logicalLines ts ++ logicalLines (line.tokens ++ us)) :
    translation (ts ++ (line.tokens ++ us)) = translation (ts ++ us) := by
  have hcode : codeOfTokens (ts ++ (line.tokens ++ us)) = codeOfTokens (ts ++ us) := by
    rw [codeOfTokens, codeOfTokens, hline, h, line.logicalLines_append, List.flatMap_append,
      List.flatMap_cons, line.contribution_tokens, List.nil_append, List.flatMap_append]
  rw [translation_eq, translation_eq, hcode]

end Markup.CommentLine

/-- **A line with nothing but a comment leaves the sequence of a template as it is**, wherever it is
put in front of a line of the template or behind the last one.

**Proof sketch.** The template stays well-formed, so it still has a sequence. It is made from the
translation of the tokens. These are the tokens in front, those of the line and those behind it,
and the line is a logical line of its own that contributes nothing. -/
theorem Draft.outcome_insertLine {cs ds : List Char} {s : Sequence}
    (h : (Draft.ofText (cs ++ ds)).outcome = .ok s) (hmeet : MeetAtLine cs ds)
    (hfront : (Scan.ofText cs).unclosed = none)
    (line : CommentLine (Scan.ofText cs).active.val) :
    (Draft.ofText (cs ++ (line.chars ++ ds))).outcome = .ok s := by
  have hwell := (exists_sequence_iff _).1 ⟨s, h⟩
  obtain ⟨t, ht⟩ := (exists_sequence_iff _).2 (hwell.insertLine hmeet hfront line)
  have hplain := Scan.isPlain_active hfront
  have hstandard := Delimiters.standard_isUnbroken
  have hmeet' := line.meetAtLine hplain hmeet
  -- the tokens in front and behind are the same with the line and without it
  obtain ⟨ts, hts, hfollow⟩ := hwell.exists_tokens_append hmeet.sealed hfront
  obtain ⟨vs, hvs, hofList, -⟩ := outcome_eq_translation h
  obtain ⟨vs', hvs', hofList', -⟩ := outcome_eq_translation ht
  rw [hfollow ds hmeet.sealed] at hvs
  obtain ⟨us, hus, rfl⟩ := Option.map_eq_some_iff.1 hvs
  have hus' : tokens (Scan.ofText cs).active (line.chars ++ ds) = some (line.tokens ++ us) := by
    rw [line.tokens_append hplain, hus]
    rfl
  rw [hfollow _ hmeet'.sealed, hus'] at hvs'
  obtain rfl : ts ++ (line.tokens ++ us) = vs' := Option.some.inj hvs'
  rw [line.translation_insert (hmeet.logicalLines_append hstandard hts hus)
    (hmeet'.logicalLines_append hstandard hts hus'), hofList] at hofList'
  obtain rfl := Except.ok.inj hofList'
  exact ht

end Stencil
