import Mathlib.Tactic.Lemma
import Stencil.Markup.Row
import Stencil.Proofs.Markup.Tokens

/-!
# Reading a line step by step

A reader goes through a line in steps, each of which takes in text up to a tag or to the end of
the line, enters a tag, or closes one. No delimiter runs over a line end, so the tokens that are
met step by step are those of the whole template.

## Main definitions

* `Reader.Step` — what one step can do.
* `Reader.Reads` — the steps through the rest of a line.
* `Reader.upcoming` — the tokens of what follows, in the middle of a template.

## Main results

* `Reader.exists_reads` — a line that is read is read by steps.
* `Reader.Reads.upcoming` — the tokens that are met are those of the whole template.
-/

namespace Stencil.Markup

open Stencil.Text

/-! ## Openers -/

namespace Delimiters

variable {d : Delimiters} {cs ds : List Char}

/-- A tag that starts at the front of a text starts in its first, sealed part. -/
lemma openerAt_append (hd : d.IsUnbroken) (hs : Sealed cs ds) (hne : cs ≠ []) :
    d.openerAt (cs ++ ds) = d.openerAt cs := by
  have htriple : tripleOpener.isPrefixOf (cs ++ ds) = tripleOpener.isPrefixOf cs :=
    hs.isPrefixOf_append (hd.opening true) hne
  rw [openerAt, openerAt, hs.isPrefixOf_append hd.1 hne, htriple]

/-- The first tag starts where it was found. -/
lemma openerAt_of_cutAtOpener {before found : List Char} {triple : Bool}
    (h : d.cutAtOpener cs = some (before, triple, found)) : d.openerAt found = some triple := by
  induction cs generalizing before with
  | nil => cases h
  | cons c cs ih =>
    rw [cutAtOpener] at h
    split at h
    · rename_i t ht
      cases h
      exact ht
    · obtain ⟨⟨b, t, f⟩, hb, heq⟩ := Option.map_eq_some_iff.1 h
      cases heq
      exact ih hb

/-- Where no tag is found, none starts. -/
lemma openerAt_of_cutAtOpener_none (hne : cs ≠ []) (h : d.cutAtOpener cs = none) :
    d.openerAt cs = none := by
  cases cs with
  | nil => exact absurd rfl hne
  | cons c cs =>
    rw [cutAtOpener] at h
    split at h
    · cases h
    · assumption

/-- Before the first tag, none starts. -/
lemma openerAt_of_cutAtOpener_cons {c : Char} {before found : List Char} {triple : Bool}
    (h : d.cutAtOpener cs = some (c :: before, triple, found)) : d.openerAt cs = none := by
  cases cs with
  | nil => cases h
  | cons b cs =>
    rw [cutAtOpener] at h
    split at h
    · cases h
    · assumption

end Delimiters

section tokens

variable {d : ProperDelimiters} {cs ds : List Char}

/-- A sealed text without tags gives its characters. -/
lemma tokens_append_of_none (hd : d.val.IsUnbroken) (hs : Sealed cs ds)
    (h : d.val.cutAtOpener cs = none) :
    tokens d (cs ++ ds) = (tokens d ds).map (cs.map Token.char ++ ·) := by
  induction cs with
  | nil => simp
  | cons c cs ih =>
    have hopen := Delimiters.openerAt_of_cutAtOpener_none (List.cons_ne_nil c cs) h
    have hrest : d.val.cutAtOpener cs = none := by
      rw [Delimiters.cutAtOpener, hopen] at h
      exact Option.map_eq_none_iff.1 h
    rw [← Delimiters.openerAt_append hd hs (List.cons_ne_nil c cs), List.cons_append] at hopen
    rw [List.cons_append, tokens_cons_of_none hopen,
      ih (hs.of_suffix (List.suffix_cons c cs)) hrest, Option.map_map]
    rfl

/-- A sealed text gives its characters up to the first tag. -/
lemma tokens_append_of_some {before found : List Char} {triple : Bool} (hd : d.val.IsUnbroken)
    (hs : Sealed cs ds) (h : d.val.cutAtOpener cs = some (before, triple, found)) :
    tokens d (cs ++ ds) = (tokens d (found ++ ds)).map (before.map Token.char ++ ·) := by
  induction cs generalizing before with
  | nil => cases h
  | cons c cs ih =>
    rw [Delimiters.cutAtOpener] at h
    split at h
    · cases h
      simp
    · rename_i hopen
      obtain ⟨⟨b, t, f⟩, hb, heq⟩ := Option.map_eq_some_iff.1 h
      cases heq
      rw [← Delimiters.openerAt_append hd hs (List.cons_ne_nil c cs), List.cons_append] at hopen
      rw [List.cons_append, tokens_cons_of_none hopen,
        ih (hs.of_suffix (List.suffix_cons c cs)) hb, Option.map_map]
      rfl

/-- A sealed text gives its characters up to the first tag, and this tag comes next. -/
lemma tokens_append_of_cutAtOpener {before found : List Char} {triple : Bool}
    (hd : d.val.IsUnbroken) (hs : Sealed cs ds)
    (h : d.val.cutAtOpener cs = some (before, triple, found)) :
    tokens d (cs ++ ds) =
      (tokensInside d triple [] (found.drop (d.val.opening triple).length ++ ds)).map
        (before.map Token.char ++ ·) := by
  have hopen := Delimiters.openerAt_of_cutAtOpener h
  obtain ⟨hall, hprefix⟩ := Delimiters.cutAtOpener_append h
  have hne : found ≠ [] := fun hnil =>
    Delimiters.opening_ne_nil d.property triple (List.prefix_nil.1 (hnil ▸ hprefix))
  rw [← Delimiters.openerAt_append hd (hs.of_suffix ⟨before, hall⟩) hne] at hopen
  rw [tokens_append_of_some hd hs h, ← List.drop_append_of_le_length hprefix.length_le]
  obtain ⟨c, rest, rfl⟩ := List.exists_cons_of_ne_nil hne
  exact congrArg _ (tokens_cons_of_some hopen)

/-- A tag that was read is read with more text behind it. -/
lemma readTag_append {d : Delimiters} {triple : Bool} {body cs source after : List Char} {tag : Tag}
    (h : readTag d triple body cs = some (source, tag, after)) (ds : List Char) :
    readTag d triple body (cs ++ ds) = some (source, tag, after ++ ds) := by
  obtain ⟨before, hcut, hbody, rfl⟩ := readTag_eq_some h
  rw [readTag, cutAt_append_of_some hcut ds]
  simp only [hbody]

end tokens

/-! ## Steps -/

namespace Reader

/-- The active pair. -/
def pair (r : Reader) : ProperDelimiters := ⟨r.scanner.delimiters, r.proper⟩

/-- What one step over the rest of a line can do: the tokens that it completes, the reader after
it, and what is then left of the line. -/
inductive Step (r : Reader) (rest : List Char) : List Token → Reader → List Char → Prop where
  /-- There is no further tag in the line. -/
  | line {r' : Reader} : r.scanner.inside = none → r.pair.val.cutAtOpener rest = none →
      r'.scanner.inside = none → r'.pair = r.pair → r'.recent = .text rest :: r.recent →
        Step r rest (rest.map Token.char) r' []
  /-- There is text in front of the next tag. -/
  | text {r' : Reader} {c : Char} {before found : List Char} {triple : Bool} :
      r.scanner.inside = none →
      r.pair.val.cutAtOpener rest = some (c :: before, triple, found) →
      r'.scanner.inside = none → r'.pair = r.pair →
      r'.recent = .text (c :: before) :: r.recent →
        Step r rest ((c :: before).map Token.char) r' found
  /-- The next tag is entered. -/
  | enter {r' : Reader} {triple : Bool} {start : Nat} : r.scanner.inside = none →
      r.pair.val.openerAt rest = some triple →
      r'.scanner.inside = some (.ofOpener start triple) → r'.pair = r.pair →
      r'.recent = r.recent →
        Step r rest [] r' (rest.drop (r.pair.val.opening triple).length)
  /-- The tag that is open is not closed in the line. -/
  | extend {r' : Reader} {t : OpenTag} : r.scanner.inside = some t →
      cutAt (r.pair.val.closing t.triple) rest = none →
      r'.scanner.inside = some (t.extend rest) → r'.pair = r.pair → r'.recent = r.recent →
        Step r rest [] r' []
  /-- The tag that is open is closed. -/
  | close {r' : Reader} {t : OpenTag} {source after : List Char} {tag : Tag} {span : Span} :
      r.scanner.inside = some t →
      readTag r.pair.val t.triple t.body rest = some (source, tag, after) →
      r'.scanner.inside = none → r'.pair = tag.activeAfter r.pair →
      r'.recent = .tag tag span :: r.recent →
        Step r rest [.tag source tag] r' after

/-- The steps through the rest of a line: the tokens that they complete, and the reader at the
end of the line. -/
inductive Reads : Reader → List Char → List Token → Reader → Prop where
  | done {r : Reader} : Reads r [] [] r
  | step {r r₁ r' : Reader} {rest rest₁ : List Char} {us vs : List Token} : rest ≠ [] →
      Step r rest us r₁ rest₁ → Reads r₁ rest₁ vs r' → Reads r rest (us ++ vs) r'

variable {r r' : Reader} {rest rest' : List Char} {us : List Token}

/-- What a reader that takes in a tag looks like afterwards. -/
lemma acceptTag_eq_ok {tag : Tag} {span : Span} (h : r.acceptTag tag span = .ok r') :
    r'.scanner.inside = r.scanner.inside ∧ r'.pair = tag.activeAfter r.pair ∧
      r'.recent = .tag tag span :: r.recent := by
  cases tag with
  | delimiters pair =>
    unfold acceptTag at h
    simp only at h
    split at h
    · cases h
      exact ⟨rfl, rfl, rfl⟩
    · cases h
  | interpolation escaped path => cases h; exact ⟨rfl, rfl, rfl⟩
  | opening inverted path => cases h; exact ⟨rfl, rfl, rfl⟩
  | closing path => cases h; exact ⟨rfl, rfl, rfl⟩
  | inclusion name => cases h; exact ⟨rfl, rfl, rfl⟩
  | comment => cases h; exact ⟨rfl, rfl, rfl⟩

/-- The pair stays while a line is scanned. -/
lemma pair_scanned (r : Reader) (rest : List Char) : (r.scanned rest).pair = r.pair :=
  Subtype.ext (Scanner.next_delimiters r.scanner rest)

/-- **What a reader does in one step.** -/
theorem exists_step
    (h : (r.scanned rest).accept? (r.scanner.next rest).2.1 = .ok r') :
    ∃ us, Step r rest us r' (r.scanner.next rest).2.2 := by
  have hpair := r.pair_scanned rest
  have hscanner : (r.scanned rest).scanner = (r.scanner.next rest).1 := rfl
  have hrecent : (r.scanned rest).recent = r.recent := rfl
  generalize r.scanned rest = scanned at h hpair hscanner hrecent
  cases hinside : r.scanner.inside with
  | none =>
    cases hcut : r.scanner.delimiters.cutAtOpener rest with
    | none =>
      simp only [Scanner.next, hinside, hcut] at h hscanner ⊢
      cases h
      exact ⟨_, .line hinside hcut (by rw [hscanner]) hpair (by rw [hrecent])⟩
    | some found =>
      obtain ⟨before, triple, found⟩ := found
      cases before with
      | nil =>
        simp only [Scanner.next, hinside, hcut] at h hscanner ⊢
        cases h
        have hfound : found = rest := (Delimiters.cutAtOpener_append hcut).1
        have hopen := Delimiters.openerAt_of_cutAtOpener hcut
        subst hfound
        exact ⟨_, .enter hinside hopen (by rw [hscanner]) hpair hrecent⟩
      | cons c before =>
        simp only [Scanner.next, hinside, hcut] at h hscanner ⊢
        cases h
        exact ⟨_, .text hinside hcut (by rw [hscanner]) hpair (by rw [hrecent])⟩
  | some t =>
    cases hcut : cutAt (r.scanner.delimiters.closing t.triple) rest with
    | none =>
      simp only [Scanner.next, hinside, hcut] at h hscanner ⊢
      cases h
      exact ⟨_, .extend hinside hcut (by rw [hscanner]) hpair hrecent⟩
    | some parts =>
      obtain ⟨before, after⟩ := parts
      simp only [Scanner.next, hinside, hcut] at h hscanner ⊢
      simp only [accept?, accept] at h
      split at h
      · rename_i tag htag
        obtain ⟨hinside', hpair', hrecent'⟩ := acceptTag_eq_ok h
        have hread : readTag r.pair.val t.triple t.body rest =
            some (r.pair.val.opening t.triple ++ (t.body ++ before) ++
              r.pair.val.closing t.triple, tag, after) := by
          simp only [readTag, pair, hcut, htag]
        refine ⟨_, .close hinside hread ?_ (hpair ▸ hpair') (hrecent ▸ hrecent')⟩
        rw [hinside', hscanner]
      · cases h

/-- **A line that is read is read by steps.** -/
theorem exists_reads (h : r.readLine rest = .ok r') : ∃ us, Reads r rest us r' := by
  fun_induction readLine r rest with
  | case1 r =>
    cases h
    exact ⟨[], .done⟩
  | case2 r rest hne step fault hfault => cases h
  | case3 r rest hne step r₁ hr₁ ih =>
    obtain ⟨us, hstep⟩ := exists_step hr₁
    obtain ⟨vs, hreads⟩ := ih h
    exact ⟨us ++ vs, .step hne hstep hreads⟩

/-! ## The tokens that are met -/

/-- The tokens of what follows, for a reader in the middle of a template. -/
def upcoming (r : Reader) (cs : List Char) : Option (List Token) :=
  match r.scanner.inside with
  | none => tokens r.pair cs
  | some t => tokensInside r.pair t.triple t.body cs

/-- What follows a reader that is outside of all tags. -/
lemma upcoming_of_outside (h : r.scanner.inside = none) (cs : List Char) :
    r.upcoming cs = tokens r.pair cs := by
  rw [upcoming, h]

/-- What follows a reader that is inside of a tag. -/
lemma upcoming_of_inside {t : OpenTag} (h : r.scanner.inside = some t) (cs : List Char) :
    r.upcoming cs = tokensInside r.pair t.triple t.body cs := by
  rw [upcoming, h]

namespace Step

/-- A step leaves an end of the line. -/
lemma suffix (h : Step r rest us r' rest') : rest' <:+ rest := by
  cases h with
  | line => exact List.nil_suffix
  | text houtside hcut => exact ⟨_, (Delimiters.cutAtOpener_append hcut).1⟩
  | enter => exact List.drop_suffix _ _
  | extend => exact List.nil_suffix
  | close hinside hread =>
    obtain ⟨before, hcut, -, -⟩ := readTag_eq_some hread
    exact ⟨_, cutAt_append hcut⟩

/-- The active pair stays without line breaks. -/
lemma pair_isUnbroken (h : Step r rest us r' rest') (hd : r.pair.val.IsUnbroken) :
    r'.pair.val.IsUnbroken := by
  cases h with
  | line _ _ _ hpair => exact hpair ▸ hd
  | text _ _ _ hpair => exact hpair ▸ hd
  | enter _ _ _ hpair => exact hpair ▸ hd
  | extend _ _ _ hpair => exact hpair ▸ hd
  | close hinside hread _ hpair =>
    obtain ⟨before, -, hbody, -⟩ := readTag_eq_some hread
    exact hpair ▸ Tag.activeAfter_isUnbroken hd hbody

/-- **The tokens that a step completes** come before those of what is left.

**Proof sketch.** Neither the opener nor the closer of a tag holds a line break, so the first
one in the line is the first one in the line and all that follows. If there is no closer in the
line, the line is a part of the body of the tag. -/
theorem upcoming {more : List Char} (h : Step r rest us r' rest') (hne : rest ≠ [])
    (hd : r.pair.val.IsUnbroken) (hs : Sealed rest more) :
    r.upcoming (rest ++ more) = (r'.upcoming (rest' ++ more)).map (us ++ ·) := by
  cases h with
  | line houtside hcut hinside hpair =>
    rw [upcoming_of_outside houtside, upcoming_of_outside hinside, hpair]
    exact tokens_append_of_none hd hs hcut
  | text houtside hcut hinside hpair =>
    rw [upcoming_of_outside houtside, upcoming_of_outside hinside, hpair]
    exact tokens_append_of_some hd hs hcut
  | @enter r' triple start houtside hopen hinside hpair =>
    obtain ⟨c, cs, rfl⟩ := List.exists_cons_of_ne_nil hne
    have hlen := (Delimiters.opening_prefix_of_openerAt hopen).length_le
    rw [← Delimiters.openerAt_append hd hs hne, List.cons_append] at hopen
    rw [upcoming_of_outside houtside, upcoming_of_inside hinside, hpair, List.cons_append,
      tokens_cons_of_some hopen, ← List.cons_append, List.drop_append_of_le_length hlen,
      OpenTag.body_ofOpener]
    exact Option.map_id'.symm
  | @extend r' t hinside hcut hinside' hpair =>
    have hread : readTag r.pair.val t.triple t.body (rest ++ more) =
        readTag r.pair.val t.triple (t.body ++ rest) more := by
      rw [readTag, readTag, cutAt_append_of_none (hd.closing t.triple) hs hcut]
      cases cutAt (r.pair.val.closing t.triple) more <;> simp
    rw [upcoming_of_inside hinside, upcoming_of_inside hinside', hpair, tokensInside, hread,
      OpenTag.body_extend]
    exact Option.map_id'.symm
  | @close r' t source after tag span hinside hread hinside' hpair =>
    rw [upcoming_of_inside hinside, upcoming_of_outside hinside', hpair, tokensInside,
      readTag_append hread more]
    rfl

end Step

namespace Reads

/-- At the end of a line there is no further step. -/
lemma of_nil (h : Reads r [] us r') : us = [] ∧ r' = r := by
  cases h with
  | done => exact ⟨rfl, rfl⟩
  | step hne => exact absurd rfl hne

/-- The active pair stays without line breaks. -/
lemma pair_isUnbroken (h : Reads r rest us r') (hd : r.pair.val.IsUnbroken) :
    r'.pair.val.IsUnbroken := by
  induction h with
  | done => exact hd
  | step _ hstep _ ih => exact ih (hstep.pair_isUnbroken hd)

/-- **The tokens that are met in a line** come before those of the lines that follow. -/
theorem upcoming {more : List Char} (h : Reads r rest us r') (hd : r.pair.val.IsUnbroken)
    (hs : Sealed rest more) :
    r.upcoming (rest ++ more) = (r'.upcoming more).map (us ++ ·) := by
  induction h with
  | done => exact Option.map_id'.symm
  | @step r r₁ r' rest rest₁ us vs hne hstep _ ih =>
    rw [hstep.upcoming hne hd hs, ih (hstep.pair_isUnbroken hd) (hs.of_suffix hstep.suffix),
      Option.map_map]
    congr 1
    funext ts
    exact (List.append_assoc us vs ts).symm

end Reads

end Reader

end Stencil.Markup
