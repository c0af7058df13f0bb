import Mathlib.Tactic.Lemma
import Stencil.Proofs.Markup.Appending
import Stencil.Proofs.Markup.Writing

/-!
# Comments on a line of their own

A comment is put on a line of its own, in front of any line of a template, between the delimiters
that are active there. The comment may run over many lines, but its closer must not occur in it.
The line is one logical line, the comment is the only tag in it, and nothing that stands in front
of the line or behind it is read otherwise than before.

## Main definitions

* `CommentLine` — a comment between a given pair, with blanks beside it.
* `CommentLine.chars`, `CommentLine.tokens` — the line as it is written and as it is read.

## Main results

* `CommentLine.scanned` — the comment is the only tag of its line.
* `CommentLine.tokens_append` — the tokens of the line in front of those of what follows.
* `Scan.IsWellFormed.insertLine` — a template into which such a line is put stays well-formed.
-/

namespace Stencil.Markup

open Stencil.Text

/-! ## Text in which no tag starts -/

/-- In front of the first opener there may be any characters that start none. -/
lemma Delimiters.cutAtOpener_text_append {d : Delimiters} (hd : d.IsProper) {content : List Char}
    (h : ∀ c ∈ content, c ∉ d.opener ∧ c ≠ '{') (cs : List Char) :
    d.cutAtOpener (content ++ cs) =
      (d.cutAtOpener cs).map fun (front, triple, found) => (content ++ front, triple, found) := by
  induction content with
  | nil => simp
  | cons c content ih =>
    obtain ⟨hc, hbrace⟩ := h c List.mem_cons_self
    rw [List.cons_append, cutAtOpener, openerAt_of_not_mem hd _ hc hbrace,
      ih fun b hb => h b (List.mem_cons_of_mem c hb)]
    simp [Function.comp_def]

/-- White space starts no tag between a plain pair. -/
lemma Delimiters.IsPlain.not_mem_opener {d : Delimiters} (hd : d.IsPlain) {c : Char}
    (hc : isSpace c = true) : c ∉ d.opener ∧ c ≠ '{' := by
  refine ⟨fun hmem => ?_, ?_⟩
  · rw [hd.opener c hmem] at hc
    cases hc
  · rintro rfl
    exact absurd hc (by decide)

/-! ## Lines with nothing but a comment -/

/-- A text that starts with an exclamation mark is the body of a comment. -/
lemma Tag.ofBody_bang (text : List Char) : ofBody false ('!' :: text) = .ok .comment := by
  have hstart : trimStart ('!' :: text) = '!' :: text :=
    List.dropWhile_cons_of_neg (by decide)
  obtain ⟨rest, hrest⟩ := exists_trim_eq_cons
    (show (trimStart ('!' :: text)).head? = some '!' by rw [hstart]; rfl)
  unfold ofBody
  simp [hrest]

/-- What is written on a line with nothing but a comment between the given pair, and spaces and tabs
beside it. The comment itself may run over many lines. -/
structure CommentLine (d : Delimiters) where
  /-- The blanks in front of the comment. -/
  lead : List Char
  /-- What the comment says, behind its exclamation mark. -/
  text : List Char
  /-- The blanks behind the comment. -/
  tail : List Char
  lead_blank : ∀ c ∈ lead, c = ' ' ∨ c = '\t'
  tail_blank : ∀ c ∈ tail, c = ' ' ∨ c = '\t'
  /-- The closer occurs at the very end of the comment only. -/
  closed : ∀ front back, '!' :: text ++ d.closer = front ++ d.closer ++ back → back = []

namespace CommentLine

/-- The body of the comment. -/
def body {d : Delimiters} (line : CommentLine d) : List Char := '!' :: line.text

/-- The line as it is written. -/
def chars {d : Delimiters} (line : CommentLine d) : List Char :=
  line.lead ++ d.tagAround line.body ++ line.tail ++ ['\n']

/-- The line as it is read, without its end. -/
def content {d : Delimiters} (line : CommentLine d) : List Token :=
  line.lead.map .char ++ .tag (d.tagAround line.body) .comment :: line.tail.map .char

/-- The line as it is read. -/
def tokens {d : Delimiters} (line : CommentLine d) : List Token := line.content ++ [.char '\n']

variable {d : ProperDelimiters} (line : CommentLine d.val)

/-- Spaces and tabs are white space that ends no line. -/
lemma isSpace_of_blank {c : Char} (h : c = ' ' ∨ c = '\t') :
    isSpace c = true ∧ isBreak c = false := by
  rcases h with rfl | rfl <;> decide

/-- What stands between the delimiters is read as a comment. -/
lemma ofBody_body : Tag.ofBody false line.body = .ok .comment := Tag.ofBody_bang line.text

/-- The closer is found behind the body of the comment. -/
lemma cutAt_body (rest : List Char) :
    cutAt d.val.closer (line.body ++ (d.val.closer ++ rest)) = some (line.body, rest) := by
  have hend := cutAt_append_self_iff.2 line.closed
  rw [← List.append_assoc]
  exact cutAt_append_of_some hend rest

/-- In front of the comment no tag starts. -/
lemma not_mem_opener_of_mem_lead (hd : d.val.IsPlain) :
    ∀ c ∈ line.lead, c ∉ d.val.opener ∧ c ≠ '{' := fun c hc =>
  hd.not_mem_opener (isSpace_of_blank (line.lead_blank c hc)).1

/-- Behind the comment no tag starts. -/
lemma not_mem_opener_of_mem_tail (hd : d.val.IsPlain) :
    ∀ c ∈ line.tail ++ ['\n'], c ∉ d.val.opener ∧ c ≠ '{' := by
  intro c hc
  rcases List.mem_append.1 hc with hc | hc
  · exact hd.not_mem_opener (isSpace_of_blank (line.tail_blank c hc)).1
  · obtain rfl := List.mem_singleton.1 hc
    exact hd.not_mem_opener (by decide)

/-- **The comment is the only tag of its line**, and it leaves the delimiters as they are. -/
theorem scanned (hd : d.val.IsPlain) : Scanned d line.chars [(false, line.body)] d := by
  have hopen := Delimiters.openerAt_tagAround_append hd.apart d.property.1
    (show line.body.head? = some '!' from rfl) (by decide) (line.tail ++ ['\n'])
  have hcut : d.val.cutAtOpener line.chars =
      some (line.lead, false, d.val.tagAround line.body ++ (line.tail ++ ['\n'])) := by
    have hfront := Delimiters.cutAtOpener_text_append d.property
      (line.not_mem_opener_of_mem_lead hd) (d.val.tagAround line.body ++ (line.tail ++ ['\n']))
    rw [Delimiters.cutAtOpener_of_openerAt d.property hopen] at hfront
    simpa [chars] using hfront
  have hbody := line.cutAt_body (line.tail ++ ['\n'])
  rw [← Delimiters.drop_tagAround_append] at hbody
  refine .tag hcut hbody ?_
  rw [Piece.activeAfter_tag line.ofBody_body]
  refine .text ?_
  have hnone := Delimiters.cutAtOpener_text_append d.property
    (line.not_mem_opener_of_mem_tail hd) []
  rwa [List.append_nil] at hnone

/-- **The tokens of the line** stand in front of those of what follows. -/
theorem tokens_append (hd : d.val.IsPlain) (cs : List Char) :
    Markup.tokens d (line.chars ++ cs) = (Markup.tokens d cs).map (line.tokens ++ ·) := by
  have hshape : line.chars ++ cs =
      line.lead ++ (d.val.tagAround line.body ++ (line.tail ++ ['\n'] ++ cs)) := by
    simp [chars]
  have htag : Markup.tokens d (d.val.tagAround line.body ++ (line.tail ++ ['\n'] ++ cs)) =
      (Markup.tokens d (line.tail ++ ['\n'] ++ cs)).map
        (.tag (d.val.tagAround line.body) .comment :: ·) :=
    tokens_tagAround_of_cutAt hd.apart (show line.body.head? = some '!' from rfl) (by decide)
      (line.cutAt_body _) line.ofBody_body
  rw [hshape, tokens_text_append (line.not_mem_opener_of_mem_lead hd), htag,
    tokens_text_append (line.not_mem_opener_of_mem_tail hd), Option.map_map, Option.map_map]
  congr 1
  funext ts
  simp [tokens, content]

/-- Only the last token of the line ends it. -/
lemma endsLine_of_mem_content : ∀ t ∈ line.content, t.endsLine = false := by
  intro t ht
  rcases List.mem_append.1 ht with ht | ht
  · obtain ⟨c, hc, rfl⟩ := List.mem_map.1 ht
    exact (isSpace_of_blank (line.lead_blank c hc)).2
  · rcases List.mem_cons.1 ht with rfl | ht
    · rfl
    · obtain ⟨c, hc, rfl⟩ := List.mem_map.1 ht
      exact (isSpace_of_blank (line.tail_blank c hc)).2

/-- **The line is one logical line**, whatever follows it. -/
lemma logicalLines_append (ts : List Token) :
    logicalLines (line.tokens ++ ts) = line.tokens :: logicalLines ts := by
  have hending : IsEnding ['\n'] := .inl rfl
  exact Markup.logicalLines_append line.endsLine_of_mem_content hending (by simp)

/-- The line ends with a line feed. -/
lemma endsLine_chars : Text.endsLine line.chars = true := by
  rw [chars, endsLine_append _ (List.cons_ne_nil _ _)]
  rfl

/-- The line starts with no line feed. -/
lemma head?_chars_ne (hd : d.val.IsPlain) : line.chars.head? ≠ some '\n' := by
  obtain ⟨o, os, ho⟩ := List.exists_cons_of_ne_nil d.property.1
  cases hlead : line.lead with
  | nil =>
    have hspace := hd.opener o (ho ▸ List.mem_cons_self)
    intro hhead
    obtain rfl : o = '\n' := by simpa [chars, hlead, Delimiters.tagAround, ho] using hhead
    exact absurd hspace (by decide)
  | cons c rest =>
    have hbreak := (isSpace_of_blank (line.lead_blank c (hlead ▸ List.mem_cons_self))).2
    intro hhead
    obtain rfl : c = '\n' := by simpa [chars, hlead] using hhead
    exact absurd hbreak (by decide)

/-- The line may be put where two texts meet. -/
lemma meetAtLine {cs ds : List Char} (hd : d.val.IsPlain) (h : MeetAtLine cs ds) :
    MeetAtLine cs (line.chars ++ ds) where
  ends := h.ends
  apart _ := by
    obtain ⟨c, rest, hc⟩ := List.exists_cons_of_ne_nil
      (show line.chars ≠ [] by simp [chars])
    have hhead := line.head?_chars_ne hd
    rw [hc] at hhead ⊢
    exact hhead

end CommentLine

/-! ## Comments in well-formed templates -/

/-- A comment among some tags does not change whether directives stand outside of sections. -/
lemma outside_insert_comment {n : Nat} (ts us : List Tag) :
    Outside n (ts ++ .comment :: us) ↔ Outside n (ts ++ us) := by
  induction ts generalizing n with
  | nil =>
    rw [List.nil_append, List.nil_append, outside_cons]
    exact and_iff_right fun pair h => Tag.noConfusion h
  | cons t ts ih => rw [List.cons_append, List.cons_append, outside_cons, outside_cons, ih]

/-- A comment is no section end. -/
lemma sectionEnds_insert_comment (ts us : List Tag) :
    sectionEnds (ts ++ .comment :: us) = sectionEnds (ts ++ us) := by
  rw [sectionEnds_append, sectionEnds_append, sectionEnds_cons]
  rfl

/-- A body that starts with an exclamation mark may run over the end of a line. -/
lemma startsComment_beforeBreak_bang (text : List Char) :
    startsComment (beforeBreak ('!' :: text)) = true := by
  rw [beforeBreak, List.takeWhile_cons_of_pos (by decide), startsComment, trimStart,
    List.dropWhile_cons_of_neg (by decide)]
  rfl

namespace Scan

variable {cs ds : List Char} {s s' : Scan} {tags others : List (Bool × List Char)}

/-- **A comment keeps a template well-formed**, wherever it stands among the tags, if its body
starts with an exclamation mark. -/
theorem IsWellFormed.insert (h : s.IsWellFormed) (hs : s.tags = tags ++ others)
    {text : List Char} (hs' : s'.tags = tags ++ (false, '!' :: text) :: others)
    (hclosed : s'.unclosed = none) : s'.IsWellFormed := by
  have hjoined := h.joined
  have hread := h.read
  have houtside := (outside_iff_of_unwind (h.nested.unwind_eq [])).2 h.outside
  have hnested := h.nested
  have hreadings : readings s'.tags = readings tags ++ .comment :: readings others := by
    rw [hs', readings_append, readings_cons (Tag.ofBody_bang text)]
  rw [hs, List.forall_mem_append] at hjoined hread
  rw [hs, readings_append] at houtside hnested
  rw [← outside_insert_comment, ← hreadings] at houtside
  rw [← sectionEnds_insert_comment, ← hreadings] at hnested
  refine ⟨hclosed, ?_, ?_, (outside_iff_of_unwind (hnested.unwind_eq [])).1 houtside, hnested⟩
  · rw [hs', List.forall_mem_append, List.forall_mem_cons]
    exact ⟨hjoined.1, .inr ⟨rfl, startsComment_beforeBreak_bang text⟩, hjoined.2⟩
  · rw [hs', List.forall_mem_append, List.forall_mem_cons]
    exact ⟨hread.1, ⟨.comment, Tag.ofBody_bang text⟩, hread.2⟩

/-- The tags of a template that is divided where no tag is open: those in front, and those behind,
which are found with the pair that is active there. -/
lemma exists_tags_append (hs : Sealed cs ds) (h : (Scan.ofText cs).unclosed = none)
    (hall : (Scan.ofText (cs ++ ds)).unclosed = none) :
    ∃ others, (Scan.ofText (cs ++ ds)).tags = (Scan.ofText cs).tags ++ others ∧
      Scanned (Scan.ofText cs).active ds others (Scan.ofText (cs ++ ds)).active :=
  (scanned_ofText h).exists_of_append Delimiters.standard_isUnbroken hs (scanned_ofText hall)

/-- The pair that a template leaves active is a plain one. -/
lemma isPlain_active (h : (Scan.ofText cs).unclosed = none) :
    (Scan.ofText cs).active.val.IsPlain :=
  (scanned_ofText h).isPlain Delimiters.standard_isPlain

/-- The tokens of a well-formed template that is divided where no tag is open. -/
lemma IsWellFormed.exists_tokens_append (h : (Scan.ofText (cs ++ ds)).IsWellFormed)
    (hs : Sealed cs ds) (hfront : (Scan.ofText cs).unclosed = none) :
    ∃ ts, tokens ⟨.standard, Delimiters.standard_isProper⟩ cs = some ts ∧
      ∀ ds', Sealed cs ds' → tokens ⟨.standard, Delimiters.standard_isProper⟩ (cs ++ ds') =
        (tokens (Scan.ofText cs).active ds').map (ts ++ ·) := by
  obtain ⟨others, htags, -⟩ := exists_tags_append hs hfront h.closed
  have hread : ∀ m ∈ (Scan.ofText cs).tags, ∃ t, Tag.ofBody m.1 m.2 = .ok t := fun m hm =>
    h.read m (htags ▸ List.mem_append_left others hm)
  obtain ⟨ts, hts⟩ := (scanned_ofText hfront).exists_tokens Delimiters.standard_isUnbroken hread
  exact ⟨ts, hts, fun ds' hs' =>
    (scanned_ofText hfront).tokens_append Delimiters.standard_isUnbroken hs' hts⟩

/-- **A template stays well-formed when a line with nothing but a comment is put into it**, between
two of its lines of which the first one leaves no tag open.

**Proof sketch.** Neither the line in front nor the new line leaves anything to what follows, so the
tags are those that the template had, and the comment. A comment is no section end, and it is no
directive that could stand inside of a section. -/
theorem IsWellFormed.insertLine (h : (Scan.ofText (cs ++ ds)).IsWellFormed)
    (hmeet : MeetAtLine cs ds) (hfront : (Scan.ofText cs).unclosed = none)
    (line : CommentLine (Scan.ofText cs).active.val) :
    (Scan.ofText (cs ++ (line.chars ++ ds))).IsWellFormed := by
  have hplain := isPlain_active hfront
  obtain ⟨others, htags, hothers⟩ := exists_tags_append hmeet.sealed hfront h.closed
  have hback := (line.scanned hplain).append hplain.isUnbroken
    (.inr (.inr line.endsLine_chars)) hothers
  have hall := (scanned_ofText hfront).append Delimiters.standard_isUnbroken
    (line.meetAtLine hplain hmeet).sealed hback
  obtain ⟨hlong, hclosed⟩ := hall.scan_eq 0
  exact h.insert htags hlong hclosed

end Scan

end Stencil.Markup
