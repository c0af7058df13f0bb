import Mathlib.Tactic.Lemma
import Stencil.Proofs.Markup.Correspondence

/-!
# Two templates in a row

A template that ends with a line is followed by another one. No delimiter runs over the end of a
line, so nothing that is found in the first one changes, and the second one is read as it is read
on its own, if the pair that is active at its start is the same. In particular the logical lines of
both are those of the first one and those of the second one, unless the second one starts with the
other half of a line ending.

## Main definitions

* `Scanned` — what a scan finds, tag by tag.
* `MeetAtLine` — two texts that meet where a line starts.

## Main results

* `Scanned.append` — what a scan of two texts in a row finds.
* `Scanned.exists_of_append` — what it finds in the second one of them.
* `Scanned.tokens_append` — the tokens of two texts in a row.
* `logicalLines_append_of_endsLine` — the logical lines of two lists of tokens in a row.
* `Scan.tags_append` — the tags of two templates in a row.
* `Scan.IsWellFormed.append` — two well-formed templates in a row are well-formed.
-/

namespace Stencil.Markup

open Stencil.Text

/-- Two texts meet where a line starts: the first one is empty or ends with a line, and the second
one does not start with the other half of the ending of this line. -/
structure MeetAtLine (cs ds : List Char) : Prop where
  ends : cs = [] ∨ Text.endsLine cs = true
  apart : cs.getLast? = some '\r' → ds.head? ≠ some '\n'

/-- Where a line starts, no delimiter runs over from the first text to the second one. -/
lemma MeetAtLine.sealed {cs ds : List Char} (h : MeetAtLine cs ds) : Sealed cs ds :=
  h.ends.imp id Or.inr

/-! ## Scanning tag by tag -/

/-- What a scan finds, tag by tag: the tags with their forms and bodies, all of them closed, and the
pair that is active at the end. -/
inductive Scanned : ProperDelimiters → List Char → List (Bool × List Char) → ProperDelimiters →
    Prop where
  /-- There is no further tag. -/
  | text {d : ProperDelimiters} {cs : List Char} (hcut : d.val.cutAtOpener cs = none) :
      Scanned d cs [] d
  /-- There is a tag, with some text in front. -/
  | tag {d last : ProperDelimiters} {cs front found body after : List Char} {triple : Bool}
      {tags : List (Bool × List Char)}
      (hcut : d.val.cutAtOpener cs = some (front, triple, found))
      (hbody : cutAt (d.val.closing triple) (found.drop (d.val.opening triple).length) =
        some (body, after))
      (hafter : Scanned (Piece.activeAfter d (.tag 0 triple (d.val.opening triple) body
        (d.val.closing triple))) after tags last) :
      Scanned d cs ((triple, body) :: tags) last

/-- A tag of a sealed text is found at the same place when the text goes on, and what follows the
tag is sealed as well. -/
lemma cutTag_append {d : Delimiters} {cs ds front found body after : List Char} {triple : Bool}
    (hd : d.IsUnbroken) (hs : Sealed cs ds)
    (hcut : d.cutAtOpener cs = some (front, triple, found))
    (hbody : cutAt (d.closing triple) (found.drop (d.opening triple).length) =
      some (body, after)) :
    d.cutAtOpener (cs ++ ds) = some (front, triple, found ++ ds) ∧
      cutAt (d.closing triple) ((found ++ ds).drop (d.opening triple).length) =
        some (body, after ++ ds) ∧
      Sealed after ds := by
  obtain ⟨hall, hopen⟩ := Delimiters.cutAtOpener_append hcut
  have hsuffix : after <:+ cs := by
    refine List.IsSuffix.trans ⟨_, cutAt_append hbody⟩ ?_
    exact (List.drop_suffix _ found).trans ⟨front, hall⟩
  refine ⟨Delimiters.cutAtOpener_append_of_some hd hs hcut, ?_, hs.of_suffix hsuffix⟩
  rw [List.drop_append_of_le_length hopen.length_le]
  exact cutAt_append_of_some hbody ds

/-- A scan in which all tags are closed is told tag by tag. -/
lemma scanned_scan {d : ProperDelimiters} {offset : Nat} {cs : List Char}
    (h : (scan d offset cs).unclosed = none) :
    Scanned d cs (scan d offset cs).tags (scan d offset cs).active := by
  induction hn : cs.length using Nat.strong_induction_on generalizing d offset cs with
  | _ n ih =>
    cases hcut : d.val.cutAtOpener cs with
    | none =>
      rw [scan_of_cutAtOpener_none offset hcut, Scan.tags_afterPieces, filterMap_tag?_textPiece]
      exact .text hcut
    | some cut =>
      obtain ⟨front, triple, found⟩ := cut
      have hscan := scan_of_cutAtOpener_some offset hcut
      rw [hscan] at h ⊢
      cases hbody : cutAt (d.val.closing triple) (found.drop (d.val.opening triple).length) with
      | none =>
        rw [scanInside_of_none (t := .ofOpener _ triple) _ hbody] at h
        cases h
      | some parts =>
        obtain ⟨body, after⟩ := parts
        have hshort : after.length < n := by
          have hlt := cutAt_length_lt (Delimiters.closing_ne_nil d.property triple) hbody
          rw [← hn, ← (Delimiters.cutAtOpener_append hcut).1, List.length_append]
          rw [List.length_drop] at hlt
          omega
        rw [scanInside_of_some (t := .ofOpener _ triple) _ hbody] at h ⊢
        rw [Scan.tags_afterPieces, filterMap_tag?_textPiece, Scan.tags_afterPieces]
        exact .tag hcut hbody (ih after.length hshort h rfl)

namespace Scanned

variable {d mid last : ProperDelimiters} {cs ds : List Char} {tags tags' : List (Bool × List Char)}

/-- What is found tag by tag is what a scan finds, wherever the text starts. -/
lemma scan_eq (h : Scanned d cs tags last) (offset : Nat) :
    (scan d offset cs).tags = tags ∧ (scan d offset cs).unclosed = none := by
  induction h generalizing offset with
  | text hcut =>
    rw [scan_of_cutAtOpener_none offset hcut, Scan.tags_afterPieces, filterMap_tag?_textPiece]
    exact ⟨rfl, rfl⟩
  | tag hcut hbody _ ih =>
    rw [scan_of_cutAtOpener_some offset hcut,
      scanInside_of_some (t := .ofOpener _ _) _ hbody, Scan.tags_afterPieces,
      filterMap_tag?_textPiece, Scan.tags_afterPieces]
    exact ⟨congrArg (List.cons _) (ih _).1, (ih _).2⟩

/-- **What a scan of two texts in a row finds**: the tags of the first one, and those of the second
one, scanned with the pair that the first one leaves active. -/
theorem append (hd : d.val.IsUnbroken) (hs : Sealed cs ds) (h : Scanned d cs tags mid)
    (h' : Scanned mid ds tags' last) : Scanned d (cs ++ ds) (tags ++ tags') last := by
  induction h with
  | @text d cs hcut =>
    have hlong := Delimiters.cutAtOpener_append_of_none hd hs hcut
    cases h' with
    | text hcut' =>
      rw [hcut'] at hlong
      exact .text hlong
    | tag hcut' hbody hafter =>
      rw [hcut'] at hlong
      exact .tag hlong hbody hafter
  | @tag d _ cs front found body after triple _ hcut hbody _ ih =>
    obtain ⟨hlong, hbody', hafter⟩ := cutTag_append hd hs hcut hbody
    exact .tag hlong hbody' (ih (Piece.activeAfter_isUnbroken hd _) hafter h')

/-- **What a scan of two texts in a row finds starts with what a scan of the first one finds**, and
what follows is found in the second one. -/
theorem exists_of_append (hd : d.val.IsUnbroken) (hs : Sealed cs ds) (h : Scanned d cs tags mid)
    {all : List (Bool × List Char)} (hall : Scanned d (cs ++ ds) all last) :
    ∃ others, all = tags ++ others ∧ Scanned mid ds others last := by
  induction h generalizing all with
  | @text d cs hcut =>
    have hlong := Delimiters.cutAtOpener_append_of_none hd hs hcut
    cases hall with
    | text hcut' =>
      rw [hlong, Option.map_eq_none_iff] at hcut'
      exact ⟨[], rfl, .text hcut'⟩
    | tag hcut' hbody hafter =>
      rw [hlong] at hcut'
      obtain ⟨⟨front, triple, found⟩, hfound, heq⟩ := Option.map_eq_some_iff.1 hcut'
      obtain ⟨rfl, rfl, rfl⟩ : _ ∧ triple = _ ∧ found = _ := by simpa using heq
      exact ⟨_, rfl, .tag hfound hbody hafter⟩
  | @tag d _ cs front found body after triple _ hcut hbody _ ih =>
    obtain ⟨hlong, hbody', hsealed⟩ := cutTag_append hd hs hcut hbody
    cases hall with
    | text hcut' =>
      rw [hlong] at hcut'
      cases hcut'
    | tag hcut' hbody'' hafter =>
      -- both scans find the same tag
      obtain ⟨rfl, rfl, rfl⟩ : front = _ ∧ triple = _ ∧ found ++ ds = _ := by
        simpa [hlong] using hcut'
      obtain ⟨rfl, rfl⟩ : body = _ ∧ after ++ ds = _ := by simpa [hbody'] using hbody''
      obtain ⟨others, rfl, hothers⟩ :=
        ih (Piece.activeAfter_isUnbroken hd _) hsealed hafter
      exact ⟨others, rfl, hothers⟩

/-- A text of which all tags can be read has tokens. -/
lemma exists_tokens (hd : d.val.IsUnbroken) (h : Scanned d cs tags last)
    (hread : ∀ m ∈ tags, ∃ t, Tag.ofBody m.1 m.2 = .ok t) : ∃ ts, tokens d cs = some ts := by
  have hend : ∀ xs : List Char, Sealed xs [] := fun xs => .inr (.inl rfl)
  induction h with
  | @text d cs hcut =>
    have hshort := tokens_append_of_none hd (hend cs) hcut
    rw [List.append_nil, tokens] at hshort
    exact ⟨_, hshort⟩
  | @tag d _ cs front found body after triple _ hcut hbody _ ih =>
    obtain ⟨⟨t, ht⟩, hothers⟩ := List.forall_mem_cons.1 hread
    obtain ⟨ts, hts⟩ := ih (Piece.activeAfter_isUnbroken hd _) hothers
    rw [Piece.activeAfter_tag ht] at hts
    have hshort := tokens_append_of_cutAtOpener hd (hend cs) hcut
    simp only [List.append_nil, tokensInside, readTag, hbody, List.nil_append, ht, hts] at hshort
    exact ⟨_, hshort⟩

/-- The pair that a text leaves active is a plain one. -/
lemma isPlain (hd : d.val.IsPlain) (h : Scanned d cs tags last) : last.val.IsPlain := by
  induction h with
  | text hcut => exact hd
  | tag hcut hbody _ ih =>
    exact ih (Piece.activeAfter_preserves (P := fun pair => pair.val.IsPlain)
      (fun _ _ => Delimiters.isPlain_of_ofDirective) hd _)

/-- **The tokens of two texts in a row** are those of the first one and then those of the second
one, if the second one starts with the pair that the first one leaves active.

**Proof sketch.** Induction on the tags. The tokens up to a tag are characters, and the tag is
closed in the first text, so it is read there. -/
theorem tokens_append (hd : d.val.IsUnbroken) (hs : Sealed cs ds) (h : Scanned d cs tags mid)
    {ts : List Token} (hts : tokens d cs = some ts) :
    tokens d (cs ++ ds) = (tokens mid ds).map (ts ++ ·) := by
  have hend : ∀ xs : List Char, Sealed xs [] := fun xs => .inr (.inl rfl)
  induction h generalizing ts with
  | @text d cs hcut =>
    have hshort := tokens_append_of_none hd (hend cs) hcut
    rw [List.append_nil, hts, tokens] at hshort
    obtain rfl : ts = cs.map Token.char := by simpa using hshort
    exact tokens_append_of_none hd hs hcut
  | @tag d _ cs front found body after triple _ hcut hbody _ ih =>
    have hshort := tokens_append_of_cutAtOpener hd (hend cs) hcut
    rw [List.append_nil, List.append_nil, hts] at hshort
    obtain ⟨us, hus, rfl⟩ := Option.map_eq_some_iff.1 hshort.symm
    rw [tokensInside] at hus
    split at hus
    · cases hus
    · rename_i source t left hread
      obtain ⟨vs, hvs, rfl⟩ := Option.map_eq_some_iff.1 hus
      have hlong := readTag_append hread ds
      obtain ⟨body', hbody', ht, -⟩ := readTag_eq_some hread
      obtain ⟨rfl, rfl⟩ : body' = body ∧ left = after := by simpa [hbody'] using hbody
      -- what was cut off as a tag is what was read
      rw [List.nil_append] at ht
      have hactive := Piece.activeAfter_tag ht d 0 (d.val.opening triple) (d.val.closing triple)
      have hrest := ih (Piece.activeAfter_isUnbroken hd _) (cutTag_append hd hs hcut hbody').2.2
        (hactive ▸ hvs)
      rw [hactive] at hrest
      rw [tokens_append_of_cutAtOpener hd hs hcut, tokensInside, hlong]
      simp only [hrest, Option.map_map]
      congr 1
      funext us
      simp

end Scanned

/-! ## The last token -/

/-- A non-empty unbroken text ends no line. -/
lemma endsLine_of_unbroken {cs : List Char} (h : Unbroken cs) : Text.endsLine cs = false := by
  rw [Text.endsLine, Option.any_eq_false]
  exact fun c hc => h c (List.mem_of_getLast? hc)

/-- A token ends a line exactly if its source does. -/
lemma endsLine_source_of_mem_tokens {d : ProperDelimiters} {cs : List Char} {ts : List Token}
    (hd : d.val.IsUnbroken) (h : tokens d cs = some ts) :
    ∀ t ∈ ts, t.source ≠ [] ∧ Text.endsLine t.source = t.endsLine := by
  fun_induction tokens d cs generalizing ts with
  | case1 d =>
    cases h
    intro t ht
    cases ht
  | case2 d c cs hopen ih =>
    obtain ⟨us, hus, rfl⟩ := Option.map_eq_some_iff.1 h
    refine List.forall_mem_cons.2 ⟨⟨List.cons_ne_nil c [], rfl⟩, ih hd hus⟩
  | case3 d c cs triple hopen hread => cases h
  | case4 d c cs triple hopen source tag after hread ih =>
    obtain ⟨us, hus, rfl⟩ := Option.map_eq_some_iff.1 h
    obtain ⟨before, -, hbody, rfl⟩ := readTag_eq_some hread
    have hne := Delimiters.closing_ne_nil d.property triple
    refine List.forall_mem_cons.2 ⟨⟨by simp [Token.source, hne], ?_⟩,
      ih (Tag.activeAfter_isUnbroken hd hbody) hus⟩
    exact (endsLine_append _ hne).trans (endsLine_of_unbroken (hd.closing triple))

/-- **The last token of a text that ends with a line** is its last character. -/
lemma getLast?_tokens {d : ProperDelimiters} {cs : List Char} {ts : List Token}
    (hd : d.val.IsUnbroken) (h : tokens d cs = some ts) (hends : Text.endsLine cs = true) :
    ∀ t ∈ ts.getLast?, ∃ c, t = .char c ∧ isBreak c = true ∧ cs.getLast? = some c := by
  intro t ht
  obtain ⟨front, rfl⟩ := List.getLast?_eq_some_iff.1 ht
  obtain ⟨hne, hsource⟩ := endsLine_source_of_mem_tokens hd h t (by simp)
  have hall := tokens_source h
  rw [List.flatMap_append, List.flatMap_singleton] at hall
  rw [← hall, endsLine_append _ hne, hsource] at hends
  cases t with
  | tag source tag => cases hends
  | char c => exact ⟨c, rfl, hends, by rw [← hall]; exact List.getLast?_concat⟩

/-! ## Logical lines in a row -/

/-- **The logical lines of two lists of tokens in a row** are those of the first one and those of
the second one, if the first one ends with a line and the second one does not start with the other
half of its ending. -/
theorem logicalLines_append_of_endsLine {ts us : List Token}
    (hends : ∀ t ∈ ts.getLast?, t.endsLine = true)
    (hpair : ts.getLast? = some (.char '\r') → us.head? ≠ some (.char '\n')) :
    logicalLines (ts ++ us) = logicalLines ts ++ logicalLines us := by
  -- the last token stays while tokens in front of it are taken off
  have hlast : ∀ {t : Token} {rest : List Token}, rest ≠ [] →
      (t :: rest).getLast? = rest.getLast? := fun hne => List.getLast?_append_of_ne_nil [_] hne
  fun_induction logicalLines ts with
  | case1 => rfl
  | case2 rest ih =>
    have hrest : logicalLines (rest ++ us) = logicalLines rest ++ logicalLines us := by
      by_cases hne : rest = []
      · rw [hne]
        rfl
      · rw [hlast (List.cons_ne_nil _ _), hlast hne] at hends hpair
        exact ih hends hpair
    show logicalLines (.char '\r' :: .char '\n' :: (rest ++ us)) = _
    rw [logicalLines, hrest]
    rfl
  | case3 t rest hcrlf ht ih =>
    by_cases hne : rest = []
    · subst hne
      refine logicalLines_cons_of_endsLine ht ?_
      rintro rfl
      exact hpair rfl
    · rw [hlast hne] at hends hpair
      rw [List.cons_append, logicalLines_cons_of_endsLine ht, ih hends hpair]
      · rfl
      · rintro rfl hhead
        obtain ⟨u, more, rfl⟩ := List.exists_cons_of_ne_nil hne
        obtain rfl : u = .char '\n' := Option.some.inj hhead
        exact hcrlf more rfl rfl
  | case4 t rest hcrlf ht hnil ih =>
    -- the token would be the last one, and it ends no line
    have hrest : rest = [] := by
      rw [← logicalLines_flatten rest, hnil]
      rfl
    subst hrest
    exact absurd (hends t rfl) ht
  | case5 t rest hcrlf ht line more hlines ih =>
    have hne : rest ≠ [] := by
      rintro rfl
      cases hlines
    rw [hlast hne] at hends hpair
    rw [List.cons_append, logicalLines_cons_of_not_endsLine (by simpa using ht), ih hends hpair,
      hlines]
    rfl

/-- The logical lines of the tokens of two texts that meet where a line starts. -/
lemma MeetAtLine.logicalLines_append {d mid : ProperDelimiters} {cs ds : List Char}
    {ts us : List Token} (h : MeetAtLine cs ds) (hd : d.val.IsUnbroken)
    (hts : tokens d cs = some ts) (hus : tokens mid ds = some us) :
    logicalLines (ts ++ us) = logicalLines ts ++ logicalLines us := by
  rcases h.ends with rfl | hends
  · rw [tokens] at hts
    obtain rfl := Option.some.inj hts
    rfl
  · have hlast := getLast?_tokens hd hts hends
    refine logicalLines_append_of_endsLine (fun t ht => ?_) fun hcr hlf => ?_
    · obtain ⟨c, rfl, hc, -⟩ := hlast t ht
      exact hc
    · obtain ⟨c, hchar, -, hget⟩ := hlast _ hcr
      cases hchar
      obtain ⟨rest, rfl⟩ := List.head?_eq_some_iff.1 hlf
      refine h.apart hget ?_
      rw [← tokens_source hus]
      rfl

/-! ## Well-formed templates in a row -/

/-- Nested section ends in a row are nested. -/
lemma Nested.append {es rest : List SectionEnd} (h : Nested es) (h' : Nested rest) :
    Nested (es ++ rest) := by
  rw [nested_iff_unwind, unwind_append, h.unwind_eq, Option.bind_some, h'.unwind_eq]

/-- The section ends among tags in a row. -/
lemma sectionEnds_append (ts us : List Tag) :
    sectionEnds (ts ++ us) = sectionEnds ts ++ sectionEnds us :=
  List.filterMap_append

/-- What tags in a row say. -/
lemma readings_append (tags tags' : List (Bool × List Char)) :
    readings (tags ++ tags') = readings tags ++ readings tags' :=
  List.filterMap_append

namespace Scan

variable {cs ds : List Char}

/-- A template of which all tags are closed, told tag by tag. -/
lemma scanned_ofText (h : (Scan.ofText cs).unclosed = none) :
    Scanned ⟨.standard, Delimiters.standard_isProper⟩ cs (Scan.ofText cs).tags
      (Scan.ofText cs).active :=
  scanned_scan h

/-- A template that leaves the standard pair active, told tag by tag. -/
lemma scanned (hactive : (Scan.ofText cs).active.val = .standard)
    (h : (Scan.ofText cs).unclosed = none) :
    Scanned ⟨.standard, Delimiters.standard_isProper⟩ cs (Scan.ofText cs).tags
      ⟨.standard, Delimiters.standard_isProper⟩ := by
  have hpair : (Scan.ofText cs).active = ⟨.standard, Delimiters.standard_isProper⟩ :=
    Subtype.ext hactive
  exact hpair ▸ scanned_ofText h

/-- **The tags of two templates in a row** are those of the first one and those of the second one,
and all of them are closed. -/
theorem tags_append (hs : Sealed cs ds) (hactive : (Scan.ofText cs).active.val = .standard)
    (h : (Scan.ofText cs).unclosed = none) (h' : (Scan.ofText ds).unclosed = none) :
    (Scan.ofText (cs ++ ds)).tags = (Scan.ofText cs).tags ++ (Scan.ofText ds).tags ∧
      (Scan.ofText (cs ++ ds)).unclosed = none :=
  ((scanned hactive h).append Delimiters.standard_isUnbroken hs (scanned_ofText h')).scan_eq 0

/-- **Two well-formed templates in a row are well-formed**, if the first one ends with a line and
leaves the standard pair active.

**Proof sketch.** The tags are those of both templates. A directive stands in the first one, or
behind the sections of the first one, which are nested, and some of the second one. -/
theorem IsWellFormed.append (hs : Sealed cs ds)
    (hactive : (Scan.ofText cs).active.val = .standard) (h : (Scan.ofText cs).IsWellFormed)
    (h' : (Scan.ofText ds).IsWellFormed) : (Scan.ofText (cs ++ ds)).IsWellFormed := by
  obtain ⟨htags, hclosed⟩ := tags_append hs hactive h.closed h'.closed
  refine ⟨hclosed, ?_, ?_, ?_, ?_⟩
  · rw [htags]
    exact List.forall_mem_append.2 ⟨h.joined, h'.joined⟩
  · rw [htags]
    exact List.forall_mem_append.2 ⟨h.read, h'.read⟩
  · intro front pair rest hall
    rw [htags, readings_append] at hall
    rcases List.append_eq_append_iff.1 hall with ⟨part, rfl, hrest⟩ | ⟨part, hpart, hrest⟩
    · rw [sectionEnds_append]
      exact h.nested.append (h'.outside part pair rest hrest)
    · cases part with
      | nil =>
        rw [List.append_nil] at hpart
        exact hpart ▸ h.nested
      | cons t part =>
        obtain ⟨rfl, -⟩ := List.cons.inj hrest
        exact h.outside front pair part hpart
  · rw [htags, readings_append, sectionEnds_append]
    exact h.nested.append h'.nested

end Scan

end Stencil.Markup
