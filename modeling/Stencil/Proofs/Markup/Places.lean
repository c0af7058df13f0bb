import Mathlib.Tactic.Lemma
import Stencil.Proofs.Markup.Sections
import Stencil.Proofs.Text.Covers

/-!
# Where pieces and faults lie

A scanner stands behind the part of a template that it has gone through, and a tag that is open
covers the end of this part. So the pieces of a template are parts of it, and whatever a reader
keeps, or shows when it stops, stems from a piece or from the tag that is open.

## Main definitions

* `Scanner.StandsBehind` — how a scanner stands to the part that it has gone through.
* `Reader.StemsFrom`, `Reading.StemsFrom` — what is kept and shown stems from pieces.
* `lexedPieces` — the pieces of a template.

## Main results

* `Scanner.StandsBehind.next` — what a step goes through.
* `Lexer.lexLine_places` — the pieces of a line cover what they hold.
* `Reader.readLines_stemsFrom` — what a reader keeps stems from the pieces that are lexed.
* `Reader.unterminated_covers` — a tag that is not closed is shown from its opener on.
* `Reading.fault_covers`, `Reading.opened_covers` — what is shown when reading stops.
* `Reading.exists_piece_of_mem_rows` — the tags in the rows are tags of the template.
-/

namespace Stencil.Markup

open Stencil.Text

/-! ## Scanners -/

/-- The scanner stands behind a part of a template: its offset is the size of this part, and a tag
that is open covers the end of it. -/
structure Scanner.StandsBehind (s : Scanner) (front : List Char) : Prop where
  offset_eq : s.offset = size front
  inside : ∀ t, s.inside = some t →
    ∃ before, front = before ++ (s.delimiters.opening t.triple ++ t.body) ∧ t.start = size before

namespace Scanner

variable {s : Scanner} {front rest : List Char}

/-- At the start of a template, nothing was gone through. -/
lemma standsBehind_initial : initial.StandsBehind [] :=
  ⟨rfl, fun t ht => by cases ht⟩

/-- Outside of all tags, only the offset counts. -/
lemma standsBehind_of_outside (hoffset : s.offset = size front) (h : s.inside = none) :
    s.StandsBehind front :=
  ⟨hoffset, fun t ht => by rw [h] at ht; cases ht⟩

/-- **What a step goes through.** The scanner stands behind it afterwards. A piece that the step
completes covers the end of it, and no tag is open behind a piece. -/
theorem StandsBehind.next (h : s.StandsBehind front) (rest : List Char) :
    ∃ used, rest = used ++ (s.next rest).2.2 ∧
      (s.next rest).1.StandsBehind (front ++ used) ∧
      ∀ piece, (s.next rest).2.1 = some piece → (s.next rest).1.inside = none ∧
        ∃ before, front ++ used = before ++ piece.content ∧ piece.start = size before := by
  have hoffset := h.offset_eq
  unfold Scanner.next
  split
  · rename_i houtside
    split
    · refine ⟨rest, by simp, standsBehind_of_outside (by simp [hoffset]) houtside, ?_⟩
      rintro piece ⟨⟩
      exact ⟨houtside, front, rfl, hoffset⟩
    · rename_i triple found hcut
      obtain ⟨hall, after, rfl⟩ := Delimiters.cutAtOpener_append hcut
      refine ⟨s.delimiters.opening triple, by simpa using hall.symm, ⟨by simp [hoffset], ?_⟩, ?_⟩
      · intro t ht
        obtain rfl := Option.some.inj ht
        exact ⟨front, by simp [OpenTag.ofOpener, OpenTag.body], hoffset⟩
      · rintro piece ⟨⟩
    · rename_i c before triple found hcut
      obtain ⟨hall, -⟩ := Delimiters.cutAtOpener_append hcut
      refine ⟨c :: before, hall.symm, standsBehind_of_outside (by simp [hoffset]) houtside, ?_⟩
      rintro piece ⟨⟩
      exact ⟨houtside, front, rfl, hoffset⟩
  · rename_i t hinside
    obtain ⟨before, hfront, hstart⟩ := h.inside t hinside
    split
    · refine ⟨rest, by simp, ⟨by simp [hoffset], ?_⟩, ?_⟩
      · intro u hu
        obtain rfl := Option.some.inj hu
        refine ⟨before, ?_, hstart⟩
        rw [OpenTag.body_extend, hfront]
        simp [OpenTag.extend]
      · rintro piece ⟨⟩
    · rename_i body after hcut
      refine ⟨body ++ s.delimiters.closing t.triple, (cutAt_append hcut).symm,
        standsBehind_of_outside (by simp [hoffset]) rfl, ?_⟩
      rintro piece ⟨⟩
      exact ⟨rfl, before, by simp [hfront, Piece.content], hstart⟩

/-- A piece that a step over the rest of a line completes holds a character. -/
lemma content_ne_nil (hd : s.delimiters.IsProper) (hne : rest ≠ []) {piece : Piece}
    (h : (s.next rest).2.1 = some piece) : piece.content ≠ [] := by
  unfold Scanner.next at h
  split at h
  · split at h
    · obtain rfl := Option.some.inj h
      exact hne
    · cases h
    · obtain rfl := Option.some.inj h
      exact List.cons_ne_nil _ _
  · split at h
    · cases h
    · obtain rfl := Option.some.inj h
      simp [Piece.content, Delimiters.opening_ne_nil hd]

end Scanner

/-! ## Lines -/

namespace Lexer

variable {l : Lexer} {front : List Char}

/-- A scanner between tags stands where it does, whatever the delimiters are. -/
lemma standsBehind_behind {piece : Option Piece} (h : l.scanner.StandsBehind front)
    (hinside : ∀ p, piece = some p → l.scanner.inside = none) :
    (l.behind piece).scanner.StandsBehind front := by
  cases piece with
  | none => exact h
  | some p => exact Scanner.standsBehind_of_outside h.offset_eq (hinside p rfl)

/-- **The pieces of a line cover what they hold**, and the lexer stands behind the line then. -/
theorem lexLine_places (h : l.scanner.StandsBehind front) (rest : List Char) :
    (l.lexLine rest).2.scanner.StandsBehind (front ++ rest) ∧
      ∀ piece ∈ (l.lexLine rest).1, piece.content ≠ [] ∧
        piece.span.Covers (front ++ rest) piece.content := by
  fun_induction lexLine l rest generalizing front with
  | case1 l => exact ⟨by simpa using h, by simp⟩
  | case2 l rest hne step pieces l' hlex =>
    rename_i ih
    obtain ⟨used, hrest, hstands, hpiece⟩ := h.next rest
    have hih := ih (standsBehind_behind hstands fun p hp => (hpiece p hp).1)
    rw [hlex, List.append_assoc, ← show rest = used ++ step.2.2 from hrest] at hih
    refine ⟨hih.1, fun piece hmem => ?_⟩
    rcases List.mem_append.1 hmem with hmem | hmem
    · have hsome := Option.mem_toList.1 hmem
      obtain ⟨-, before, hfront, hstart⟩ := hpiece piece hsome
      refine ⟨Scanner.content_ne_nil l.proper hne hsome, before, step.2.2, ?_, ?_⟩
      · rw [← hfront, List.append_assoc, ← show rest = used ++ step.2.2 from hrest]
      · simp [Piece.span, hstart]
    · exact hih.2 piece hmem

/-- The pieces of lines cover what they hold. -/
lemma lexLines_places (h : l.scanner.StandsBehind front) (lns : List (List Char)) :
    ∀ piece ∈ (l.lexLines lns).1, piece.content ≠ [] ∧
      piece.span.Covers (front ++ lns.flatten) piece.content := by
  induction lns generalizing l front with
  | nil => simp [lexLines]
  | cons line more ih =>
    obtain ⟨hstands, hline⟩ := lexLine_places h line
    rw [List.flatten_cons, ← List.append_assoc]
    intro piece hpiece
    rcases List.mem_append.1 hpiece with hpiece | hpiece
    · exact ⟨(hline piece hpiece).1, (hline piece hpiece).2.append more.flatten⟩
    · exact ih hstands piece hpiece

end Lexer

/-! ## What a reader keeps -/

/-- One of the pieces is a tag with the given range. -/
def HasTagAt (pieces : List Piece) (span : Span) : Prop :=
  ∃ piece ∈ pieces, piece.tag?.isSome = true ∧ piece.span = span

/-- A tag among some pieces is a tag among more of them. -/
lemma HasTagAt.mono {pieces more : List Piece} {span : Span} (h : HasTagAt pieces span)
    (hsubset : pieces ⊆ more) : HasTagAt more span := by
  obtain ⟨piece, hmem, hpiece⟩ := h
  exact ⟨piece, hsubset hmem, hpiece⟩

section takeIn

variable {piece : Piece} {pieces : List Piece} {opened opened' : List Span} {e : MarkupError}

/-- The section tags that are open behind a piece were open before, or the piece is one. -/
lemma Piece.takeIn_eq_ok (h : piece.takeIn opened = .ok opened') :
    ∀ span ∈ opened', span ∈ opened ∨ piece.tag?.isSome = true ∧ piece.span = span := by
  cases piece with
  | text start content =>
    cases h
    exact fun span hspan => .inl hspan
  | tag start triple opener body closer =>
    simp only [Piece.takeIn] at h
    split at h
    · cases h
    · cases h
      intro span hspan
      exact (List.mem_cons.1 hspan).symm.imp_right fun hnew => ⟨rfl, hnew.symm⟩
    · cases h
      exact fun span hspan => .inl (List.mem_of_mem_tail hspan)
    · split at h
      · cases h
        exact fun span hspan => .inl hspan
      · cases h
    · cases h
      exact fun span hspan => .inl hspan

/-- A piece that does not pass the check is shown as a whole. -/
lemma Piece.takeIn_eq_error (h : piece.takeIn opened = .error e) :
    (piece.tag?.isSome = true ∧ piece.span = e.span) ∧ e.fault ≠ .unterminated := by
  cases piece with
  | text start content => cases h
  | tag start triple opener body closer =>
    simp only [Piece.takeIn] at h
    split at h
    · cases h
      exact ⟨⟨rfl, rfl⟩, by simp⟩
    · cases h
    · cases h
    · split at h
      · cases h
      · cases h
        exact ⟨⟨rfl, rfl⟩, by simp⟩
    · cases h

/-- The section tags that are open behind some pieces were open before, or are among them. -/
lemma foldlM_takeIn_eq_ok (h : pieces.foldlM Piece.takeIn opened = .ok opened') :
    ∀ span ∈ opened', span ∈ opened ∨ HasTagAt pieces span := by
  induction pieces generalizing opened with
  | nil =>
    cases h
    exact fun span hspan => .inl hspan
  | cons piece pieces ih =>
    rw [List.foldlM_cons] at h
    cases htake : piece.takeIn opened with
    | error e =>
      rw [htake] at h
      cases h
    | ok between =>
      rw [htake] at h
      intro span hspan
      rcases ih h span hspan with hbetween | ⟨other, hmem, hother⟩
      · refine (Piece.takeIn_eq_ok htake span hbetween).imp_right fun hpiece => ?_
        exact ⟨piece, List.mem_cons_self, hpiece⟩
      · exact .inr ⟨other, List.mem_cons_of_mem piece hmem, hother⟩

/-- One of the pieces that do not pass the check is shown as a whole. -/
lemma foldlM_takeIn_eq_error (h : pieces.foldlM Piece.takeIn opened = .error e) :
    HasTagAt pieces e.span ∧ e.fault ≠ .unterminated := by
  induction pieces generalizing opened with
  | nil => cases h
  | cons piece pieces ih =>
    rw [List.foldlM_cons] at h
    cases htake : piece.takeIn opened with
    | error e' =>
      rw [htake] at h
      obtain rfl : e' = e := Except.error.inj h
      obtain ⟨hspan, hfault⟩ := Piece.takeIn_eq_error htake
      exact ⟨⟨piece, List.mem_cons_self, hspan⟩, hfault⟩
    | ok between =>
      rw [htake] at h
      obtain ⟨⟨other, hmem, hother⟩, hfault⟩ := ih h
      exact ⟨⟨other, List.mem_cons_of_mem piece hmem, hother⟩, hfault⟩

end takeIn

/-- The section tags that are open and the items of the row so far stem from some pieces. -/
structure Reader.StemsFrom (r : Reader) (ps : List Piece) : Prop where
  opened : ∀ span ∈ r.opened, HasTagAt ps span
  recent : ∀ item ∈ r.recent, ∃ piece ∈ ps, piece.item? = some item

/-- The items of all rows stem from some pieces, and so does all that is shown at the end: the
section tags that are open, or the tag that cannot be taken in. -/
structure Reading.StemsFrom (reading : Reading) (ps : List Piece) : Prop where
  rows : ∀ item ∈ reading.rows.flatten, ∃ piece ∈ ps, piece.item? = some item
  opened : ∀ spans, reading.ending = .ok spans → ∀ span ∈ spans, HasTagAt ps span
  fault : ∀ e, reading.ending = .error e → e.fault = .unterminated ∨ HasTagAt ps e.span

namespace Reader

variable {r : Reader} {ps : List Piece} {lns : List (List Char)}

/-- **What a reader keeps stems from the pieces that are lexed.** -/
theorem readLines_stemsFrom (h : r.StemsFrom ps) (hps : (r.lexer.lexLines lns).1 ⊆ ps) :
    (r.readLines lns).StemsFrom ps := by
  induction lns generalizing r with
  | nil =>
    rw [readLines]
    split
    · refine ⟨by simp, by rintro _ ⟨⟩, fun e he => ?_⟩
      cases he
      exact .inl rfl
    · refine ⟨by simp, fun spans hspans => ?_, by rintro _ ⟨⟩⟩
      cases hspans
      exact h.opened
  | cons line more ih =>
    rw [Lexer.lexLines] at hps
    obtain ⟨hline, hmore⟩ := List.append_subset.1 hps
    rw [readLines_cons]
    cases hfold : (r.lexer.lexLine line).1.foldlM Piece.takeIn r.opened with
    | error e =>
      refine ⟨by simp, by rintro _ ⟨⟩, fun e' he' => ?_⟩
      obtain rfl : e = e' := Except.error.inj he'
      exact .inr ((foldlM_takeIn_eq_error hfold).1.mono hline)
    | ok opened =>
      have hopened : ∀ span ∈ opened, HasTagAt ps span := by
        intro span hspan
        rcases foldlM_takeIn_eq_ok hfold span hspan with hbefore | hnew
        · exact h.opened span hbefore
        · exact hnew.mono hline
      have hbehind : (r.behind (r.lexer.lexLine line).2 (r.lexer.lexLine line).1 opened).StemsFrom
          ps := by
        refine ⟨hopened, fun item hitem => ?_⟩
        rcases List.mem_append.1 hitem with hnew | hbefore
        · obtain ⟨piece, hmem, hpiece⟩ := List.mem_filterMap.1 (List.mem_reverse.1 hnew)
          exact ⟨piece, hline hmem, hpiece⟩
        · exact h.recent item hbefore
      dsimp only
      split
      · split
        · exact ih hbehind hmore
        · refine ⟨by simp, by rintro _ ⟨⟩, fun e he => ?_⟩
          cases he
          exact .inl rfl
      · have hrest := ih (r := { r.behind (r.lexer.lexLine line).2 (r.lexer.lexLine line).1 opened
          with recent := [] }) ⟨hopened, by simp⟩ hmore
        refine ⟨fun item hitem => ?_, hrest.opened, hrest.fault⟩
        rcases List.mem_append.1 hitem with hrow | hrows
        · exact hbehind.recent item (List.mem_reverse.1 hrow)
        · exact hrest.rows item hrows

/-- The line without its ending. -/
lemma dropEnding_append {body ending : List Char} (hbody : Unbroken body)
    (hending : ∀ c ∈ ending, isBreak c = true) : dropEnding (body ++ ending) = body := by
  have hbody' : body.reverse.dropWhile isBreak = body.reverse := by
    rw [List.dropWhile_eq_self_iff]
    intro hlt
    have hmem : body.reverse[0] ∈ body := List.mem_reverse.1 (List.getElem_mem hlt)
    rw [hbody _ hmem]
    simp
  rw [dropEnding, List.reverse_append, List.dropWhile_append_of_pos, hbody', List.reverse_reverse]
  exact fun c hc => hending c (List.mem_reverse.1 hc)

/-- **A tag that is not closed is shown from its opener on**, to the end of its line or of the
template.

**Proof sketch.** Only comments are carried from line to line, so a tag at which reading stops at
the end of a line was opened in this line. Its opener holds no line break, so it lies in front of
the ending of the line. -/
theorem unterminated_covers {r : Reader} {front : List Char} (hlines : IsLines lns)
    (h : r.scanner.StandsBehind front) (hd : r.lexer.pair.val.IsUnbroken)
    (hinside : ∀ t, r.scanner.inside = some t → startsComment (beforeBreak t.body) = true)
    {e : MarkupError} (he : (r.readLines lns).ending = .error e)
    (hfault : e.fault = .unterminated) :
    ∃ part, StartsInLine part ∧ e.span.Covers (front ++ lns.flatten) part := by
  have hstarts : ∀ {l : Lexer} (triple : Bool) (rest : List Char), l.pair.val.IsUnbroken →
      StartsInLine (l.scanner.delimiters.opening triple ++ rest) := fun {l} triple rest hl =>
    (hl.opening triple).startsInLine (Delimiters.opening_ne_nil l.proper triple) rest
  induction hlines generalizing r front with
  | nil =>
    rw [readLines] at he
    split at he
    · rename_i t ht
      cases he
      obtain ⟨before, hfront, hstart⟩ := h.inside t ht
      refine ⟨r.scanner.delimiters.opening t.triple ++ t.body, hstarts _ _ hd, before, [], ?_, ?_⟩
      · simp [hfront]
      · rw [hstart, h.offset_eq, hfront]
    · cases he
  | @cons body ending more hbody hends hmore ih =>
    obtain ⟨-, hopen⟩ := Lexer.lexLine_joinable hd (fun t ht => .inr (hinside t ht)) hbody
      hends.isBreak
    obtain ⟨hstands, -⟩ := Lexer.lexLine_places (l := r.lexer) h (body ++ ending)
    have hd' := (Lexer.upcoming_lexLine hd hends.sealed).2
    rw [readLines_cons] at he
    rw [List.flatten_cons, ← List.append_assoc]
    generalize r.lexer.lexLine (body ++ ending) = lexed at he hopen hstands hd'
    obtain ⟨pieces, l⟩ := lexed
    cases hfold : pieces.foldlM Piece.takeIn r.opened with
    | error e' =>
      simp only [hfold] at he
      obtain rfl : e' = e := Except.error.inj he
      exact absurd hfault (foldlM_takeIn_eq_error hfold).2
    | ok opened =>
      simp only [hfold, behind] at he
      split at he
      · rename_i t ht
        split at he
        · rename_i hcomment
          refine ih (r := r.behind l pieces opened) hstands hd' (fun u hu => ?_) he
          obtain rfl : u = t := Option.some.inj (hu.symm.trans ht)
          exact startsComment_beforeBreak_of_isComment (hopen u hu) hends.isBreak hcomment
        · rename_i hcomment
          cases he
          rcases hopen t ht with ⟨xs, hxs, hxs'⟩ | hstart
          · obtain ⟨before, hfront, hstart⟩ := hstands.inside t ht
            have hall : front ++ body ++ ending =
                before ++ (l.scanner.delimiters.opening t.triple ++ xs) ++ ending := by
              simpa [hxs'] using hfront
            have hline := List.append_cancel_right hall
            refine ⟨l.scanner.delimiters.opening t.triple ++ xs, hstarts _ _ hd', before,
              ending ++ more.flatten, ?_, ?_⟩
            · rw [← hline]
              simp
            · rw [← hline, dropEnding_append hbody hends.isBreak, size_append, ← hstart,
                ← h.offset_eq]
          · rw [OpenTag.isComment_eq] at hcomment
            exact absurd (startsComment_of_beforeBreak hstart) hcomment
      · rename_i houtside
        refine ih (r := ⟨l.scanner, l.proper, opened, []⟩) hstands hd' (fun u hu => ?_) he
        rw [houtside] at hu
        cases hu

end Reader

/-! ## Templates -/

/-- The pieces of a template, as they are lexed line by line. -/
def lexedPieces (cs : List Char) : List Piece := (Lexer.initial.lexLines (lines cs)).1

section lexedPieces

variable {cs : List Char} {piece : Piece}

/-- The pieces of a template cover what they hold. -/
lemma covers_of_mem_lexedPieces (h : piece ∈ lexedPieces cs) :
    piece.content ≠ [] ∧ piece.span.Covers cs piece.content := by
  have hplaces := Lexer.lexLines_places (l := .initial) Scanner.standsBehind_initial (lines cs)
    piece h
  rwa [List.nil_append, lines_flatten] at hplaces

/-- The tags that are lexed are found by a scan of the template. -/
lemma mem_scan_of_mem_lexedPieces (h : piece ∈ lexedPieces cs) (htag : piece.tag?.isSome = true) :
    piece ∈ (Scan.ofText cs).pieces := by
  have hfront : ∀ (other : Piece) (rest : List Piece), piece = other ∨ piece ∈ rest →
      piece ∈ Piece.putFront other rest := by
    rintro other rest (rfl | hrest)
    · cases piece with
      | text start content => cases htag
      | tag => exact List.mem_cons_self
    · rcases other with ⟨start, front⟩ | _
      · rcases rest with _ | ⟨_ | _, rest⟩
        · cases hrest
        · refine List.mem_cons_of_mem _ ((List.mem_cons.1 hrest).resolve_left ?_)
          rintro rfl
          cases htag
        · exact List.mem_cons_of_mem _ hrest
      · exact List.mem_cons_of_mem _ hrest
  rw [scan_ofText_eq]
  show piece ∈ (lexedPieces cs).foldr Piece.putFront []
  generalize lexedPieces cs = pieces at h
  induction pieces with
  | nil => cases h
  | cons other rest ih =>
    exact hfront other _ ((List.mem_cons.1 h).imp_right ih)

/-- The tags of a scan do not begin with a line break. -/
lemma scan_startsInLine {d : ProperDelimiters} {offset : Nat} (hd : d.val.IsUnbroken)
    (hmem : piece ∈ (scan d offset cs).pieces) (htag : piece.tag?.isSome = true) :
    StartsInLine piece.content := by
  have htext : ∀ offset content, piece ∉ textPiece offset content := by
    intro offset content h
    rw [textPiece] at h
    split at h
    · cases h
    · obtain rfl := List.mem_singleton.1 h
      cases htag
  fun_induction scan d offset cs with
  | case1 d offset cs => exact absurd hmem (htext offset cs)
  | case2 => exact absurd hmem (htext _ _)
  | case3 =>
    rename_i d offset cs front triple hfirst start inner body after hcut tag rest ih
    rcases List.mem_append.1 hmem with hmem | hmem
    · exact absurd hmem (htext _ _)
    · rcases List.mem_cons.1 hmem with rfl | hmem
      · rw [show tag.content = d.val.opening triple ++ (body ++ d.val.closing triple) from
          List.append_assoc _ _ _]
        exact (hd.opening triple).startsInLine (Delimiters.opening_ne_nil d.property triple) _
      · exact ih (tag.activeAfter_isUnbroken hd) hmem

/-- A tag among the pieces of a template is shown from its opener on. -/
lemma HasTagAt.covers {span : Span} (h : HasTagAt (lexedPieces cs) span) :
    ∃ part, StartsInLine part ∧ span.Covers cs part := by
  obtain ⟨piece, hmem, htag, rfl⟩ := h
  exact ⟨piece.content, scan_startsInLine Delimiters.standard_isUnbroken
    (mem_scan_of_mem_lexedPieces hmem htag) htag, (covers_of_mem_lexedPieces hmem).2⟩

/-- All that a reader keeps stems from the pieces of the template. -/
lemma Reading.ofText_stemsFrom (cs : List Char) :
    (Reading.ofText cs).StemsFrom (lexedPieces cs) :=
  Reader.readLines_stemsFrom ⟨by simp [Reader.initial], by simp [Reader.initial]⟩
    (List.Subset.refl _)

/-- **What is shown when reading stops** is a part of the template that begins within a line. -/
theorem Reading.fault_covers {e : MarkupError} (h : (Reading.ofText cs).ending = .error e) :
    ∃ part, StartsInLine part ∧ e.span.Covers cs part := by
  rcases (Reading.ofText_stemsFrom cs).fault e h with hfault | htag
  · have hcovers := Reader.unterminated_covers (r := .initial) (lines_isLines cs)
      Scanner.standsBehind_initial Delimiters.standard_isUnbroken (fun t ht => by cases ht) h hfault
    rwa [List.nil_append, lines_flatten] at hcovers
  · exact htag.covers

/-- **The section tags that are left open** are parts of the template. -/
theorem Reading.opened_covers {spans : List Span} (h : (Reading.ofText cs).ending = .ok spans) :
    ∀ span ∈ spans, ∃ part, StartsInLine part ∧ span.Covers cs part := fun span hspan =>
  ((Reading.ofText_stemsFrom cs).opened spans h span hspan).covers

/-- **The tags in the rows of a template** are tags that a scan of the template finds. -/
theorem Reading.exists_piece_of_mem_rows {t : Tag} {span : Span}
    (h : .tag t span ∈ (Reading.ofText cs).rows.flatten) :
    ∃ piece ∈ (Scan.ofText cs).pieces, piece.span = span ∧ piece.content ≠ [] ∧
      piece.span.Covers cs piece.content ∧
      ∃ m, piece.tag? = some m ∧ Tag.ofBody m.1 m.2 = .ok t := by
  obtain ⟨piece, hmem, hpiece⟩ := (Reading.ofText_stemsFrom cs).rows _ h
  obtain ⟨hne, hcovers⟩ := covers_of_mem_lexedPieces hmem
  cases piece with
  | text start content => cases hpiece
  | tag start triple opener body closer =>
    obtain ⟨u, hu, heq⟩ := Option.map_eq_some_iff.1 hpiece
    cases heq
    refine ⟨_, mem_scan_of_mem_lexedPieces hmem rfl, rfl, hne, hcovers, _, rfl, ?_⟩
    cases hbody : Tag.ofBody triple body with
    | error fault => simp [hbody, Except.toOption] at hu
    | ok v => simpa [hbody, Except.toOption] using hu

end lexedPieces

end Stencil.Markup
