import Mathlib.Tactic.Lemma
import Stencil.Proofs.Markup.Joins

/-!
# Well-formed templates

What a template must be like to be read to its end without a section left open, said of the tags
that a scan of it finds: all of them are closed, only comments run over the end of a line, each
can be read, no directive stands in a section, and the tags of sections are properly nested.

While a template is read, the section tags that are open are only counted: a closing tag takes
off the last one, whatever its path is, and none is missed if there is none. So the places of
directives are checked before the nesting is.

## Main definitions

* `SectionEnd`, `Nested` — the tags of sections, and their proper nesting.
* `unwind` — the sections that are open behind some section ends, if these fit.
* `openAfter` — the number of section tags that are open, as it is counted.
* `Scan.IsWellFormed` — what a template must be like.

## Main results

* `nested_iff_unwind` — section ends are nested exactly if they fit and leave none open.
* `foldlM_takeIn_iff` — what checking the pieces of a template amounts to.
* `Reading.exists_ending_iff` — what reading a template to its end amounts to.
* `Scan.isWellFormed_iff` — well-formed templates are read to their end.
-/

namespace Stencil.Markup

open Stencil.Text

/-! ## Nesting -/

/-- A tag that opens or closes a section. -/
inductive SectionEnd where
  | opening (path : Path)
  | closing (path : Path)
  deriving DecidableEq

/-- The section ends are properly nested: each opening one has a closing one with the same path,
and what stands between the two is nested by itself. -/
inductive Nested : List SectionEnd → Prop where
  /-- There is no section. -/
  | nil : Nested []
  /-- There is a section, and what follows it. -/
  | region {path : Path} {inner rest : List SectionEnd} : Nested inner → Nested rest →
      Nested (.opening path :: (inner ++ .closing path :: rest))

/-- The paths of the sections that are open behind some section ends, innermost first. A closing
one must fit the innermost section that is open. -/
def unwind : List Path → List SectionEnd → Option (List Path)
  | stack, [] => some stack
  | stack, .opening path :: rest => unwind (path :: stack) rest
  | [], .closing _ :: _ => none
  | expected :: stack, .closing path :: rest => if expected = path then unwind stack rest else none

/-- Some sections are closed one after the other, innermost first, and what stands in front of
each closing end, and behind the last one, is nested. -/
inductive Closes : List Path → List SectionEnd → Prop where
  | nil {rest : List SectionEnd} : Nested rest → Closes [] rest
  | cons {path : Path} {stack : List Path} {inner rest : List SectionEnd} : Nested inner →
      Closes stack rest → Closes (path :: stack) (inner ++ .closing path :: rest)

section nesting

variable {stack : List Path} {es rest : List SectionEnd}

/-- Section ends fit if a first part of them does and what follows fits what it leaves open. -/
lemma unwind_append (stack : List Path) (es rest : List SectionEnd) :
    unwind stack (es ++ rest) = (unwind stack es).bind fun left => unwind left rest := by
  fun_induction unwind stack es with
  | case1 stack => rfl
  | case2 stack path es ih => exact ih
  | case3 path es => rfl
  | case4 stack path es ih =>
    rw [List.cons_append, unwind, if_pos rfl]
    exact ih
  | case5 expected stack path es hne => rw [List.cons_append, unwind, if_neg hne]; rfl

/-- Nested section ends leave the sections around them as they are. -/
lemma Nested.unwind_eq (h : Nested es) (stack : List Path) : unwind stack es = some stack := by
  induction h generalizing stack with
  | nil => rfl
  | region _ _ ihinner ihrest =>
    rw [unwind, unwind_append, ihinner, Option.bind_some, unwind, if_pos rfl, ihrest]

/-- A section in front of nested section ends, or in front of the ends of outer sections. -/
lemma Closes.region {path : Path} {inner : List SectionEnd} (hinner : Nested inner)
    (h : Closes stack rest) : Closes stack (.opening path :: (inner ++ .closing path :: rest)) := by
  cases h with
  | nil hrest => exact .nil (.region hinner hrest)
  | @cons outer stack before rest hbefore hrest =>
    have hall : Closes (outer :: stack)
        (.opening path :: (inner ++ .closing path :: before) ++ .closing outer :: rest) :=
      .cons (.region hinner hbefore) hrest
    simpa using hall

/-- Section ends that fit and leave none open close those that were open before. -/
lemma closes_of_unwind (h : unwind stack es = some []) : Closes stack es := by
  fun_induction unwind stack es with
  | case1 stack =>
    obtain rfl := Option.some.inj h
    exact .nil .nil
  | case2 stack path rest ih =>
    cases ih h with
    | cons hinner hrest => exact hrest.region hinner
  | case3 path rest => cases h
  | case4 stack path rest ih => exact .cons .nil (ih h)
  | case5 expected stack path rest hne => cases h

/-- **Section ends are nested exactly if they fit and leave none open.** -/
theorem nested_iff_unwind (es : List SectionEnd) : Nested es ↔ unwind [] es = some [] := by
  constructor
  · intro h
    exact h.unwind_eq []
  · intro h
    cases closes_of_unwind h with
    | nil hnested => exact hnested

end nesting

/-! ## Counting -/

/-- The number of section tags that are open behind some section ends, given the number before.
A closing one takes off one, if there is one. -/
def openAfter : Nat → List SectionEnd → Nat
  | n, [] => n
  | n, .opening _ :: rest => openAfter (n + 1) rest
  | n, .closing _ :: rest => openAfter (n - 1) rest

/-- Counting goes on behind a first part. -/
lemma openAfter_append (n : Nat) (es rest : List SectionEnd) :
    openAfter n (es ++ rest) = openAfter (openAfter n es) rest := by
  fun_induction openAfter n es with
  | case1 n => rfl
  | case2 n path es ih => exact ih
  | case3 n path es ih => exact ih

/-- Behind section ends that fit, as many sections are open as are counted. -/
lemma openAfter_of_unwind {stack left : List Path} {es : List SectionEnd}
    (h : unwind stack es = some left) : openAfter stack.length es = left.length := by
  fun_induction unwind stack es with
  | case1 stack => rw [openAfter, Option.some.inj h]
  | case2 stack path rest ih => exact ih h
  | case3 path rest => cases h
  | case4 stack path rest ih => exact ih h
  | case5 expected stack path rest hne => cases h

/-- The section end that a tag is. -/
def Tag.sectionEnd? : Tag → Option SectionEnd
  | .opening _ path => some (.opening path)
  | .closing path => some (.closing path)
  | _ => none

/-- The section ends among some tags. -/
def sectionEnds (ts : List Tag) : List SectionEnd := ts.filterMap Tag.sectionEnd?

/-- The section ends among some tags, told from the first one on. -/
lemma sectionEnds_cons (t : Tag) (ts : List Tag) :
    sectionEnds (t :: ts) = t.sectionEnd?.toList ++ sectionEnds ts := by
  rw [sectionEnds, List.filterMap_cons]
  cases t.sectionEnd? <;> rfl

/-! ## Well-formed templates -/

/-- What tags say, given their forms and their bodies, those left aside that cannot be read. -/
def readings (tags : List (Bool × List Char)) : List Tag :=
  tags.filterMap fun m => (Tag.ofBody m.1 m.2).toOption

/-- No directive stands where a section is open, as these are counted, given the number of those
open before. -/
def Outside (n : Nat) (ts : List Tag) : Prop :=
  ∀ front pair rest, ts = front ++ .delimiters pair :: rest → openAfter n (sectionEnds front) = 0

/-- **What a template must be like**, said of the scan of it. Delimiters change behind each
directive while it is scanned. -/
structure Scan.IsWellFormed (s : Scan) : Prop where
  /-- Every opener is followed by the closer that matches it. -/
  closed : s.unclosed = none
  /-- A tag that is not closed on the line where it opens is no triple one, and the first
  character of its body on this line that is not white space is an exclamation mark. -/
  joined : ∀ m ∈ s.tags, Unbroken m.2 ∨ m.1 = false ∧ startsComment (beforeBreak m.2) = true
  /-- Every tag can be read. -/
  read : ∀ m ∈ s.tags, ∃ t, Tag.ofBody m.1 m.2 = .ok t
  /-- Every directive stands where no section is open: the tags of sections in front of it are
  nested by themselves. -/
  outside : ∀ front pair rest, readings s.tags = front ++ .delimiters pair :: rest →
    Nested (sectionEnds front)
  /-- The tags of sections are properly nested, with equal paths, and all of them closed. -/
  nested : Nested (sectionEnds (readings s.tags))

/-- Where section ends fit, none is counted as open exactly if those up to there are nested by
themselves. -/
lemma outside_iff_of_unwind {ts : List Tag} {stack : List Path}
    (h : unwind [] (sectionEnds ts) = some stack) :
    Outside 0 ts ↔ ∀ front pair rest, ts = front ++ .delimiters pair :: rest →
      Nested (sectionEnds front) := by
  refine forall_congr' fun front => forall_congr' fun pair => forall_congr' fun rest =>
    imp_congr_right fun hts => ?_
  rw [hts, sectionEnds, List.filterMap_append, unwind_append] at h
  obtain ⟨left, hleft, -⟩ := Option.bind_eq_some_iff.1 h
  have hcount : openAfter 0 (sectionEnds front) = left.length := openAfter_of_unwind hleft
  have hnested : Nested (sectionEnds front) ↔ left = [] := by
    rw [nested_iff_unwind, sectionEnds, hleft, Option.some.injEq]
  rw [hcount, hnested, List.length_eq_zero_iff]

/-- A tag in triple braces is no comment. -/
lemma ofBody_triple_ne_comment (body : List Char) : Tag.ofBody true body ≠ .ok .comment := by
  rw [Tag.ofBody]
  intro h
  cases hpath : pathOfContent (trim body) with
  | error fault => simp [hpath] at h
  | ok path => simp [hpath] at h

/-! ## Checking the pieces of a template -/

/-- The places of directives, told from the first tag on. -/
lemma outside_cons {n : Nat} {t : Tag} {ts : List Tag} :
    Outside n (t :: ts) ↔
      (∀ pair, t = .delimiters pair → n = 0) ∧
        Outside (openAfter n t.sectionEnd?.toList) ts := by
  constructor
  · intro h
    refine ⟨fun pair ht => h [] pair ts (by rw [ht]; rfl), fun front pair rest hts => ?_⟩
    have hfront := h (t :: front) pair rest (by rw [hts]; rfl)
    rwa [sectionEnds_cons, openAfter_append] at hfront
  · rintro ⟨hhead, htail⟩ front pair rest hts
    cases front with
    | nil => exact hhead pair (List.cons.inj hts).1
    | cons u front =>
      obtain ⟨rfl, hrest⟩ := List.cons.inj hts
      rw [sectionEnds_cons, openAfter_append]
      exact htail front pair rest hrest

section takeIn

variable {start : Nat} {triple : Bool} {opener body closer : List Char} {opened spans : List Span}
  {t : Tag}

/-- What the check of a tag leaves open. -/
lemma takeIn_tag_eq_ok
    (h : Piece.takeIn opened (.tag start triple opener body closer) = .ok spans) :
    ∃ t, Tag.ofBody triple body = .ok t ∧ (∀ pair, t = .delimiters pair → opened.length = 0) ∧
      spans.length = openAfter opened.length t.sectionEnd?.toList := by
  cases hbody : Tag.ofBody triple body with
  | error fault => simp [Piece.takeIn, hbody] at h
  | ok t =>
    refine ⟨t, rfl, ?_⟩
    simp only [Piece.takeIn, hbody] at h
    cases t with
    | delimiters pair =>
      simp only at h
      split at h
      · rename_i hempty
        cases h
        exact ⟨fun _ _ => by simpa using hempty, rfl⟩
      · cases h
    | opening inverted path => cases h; exact ⟨by simp, rfl⟩
    | closing path => cases h; exact ⟨by simp, List.length_tail⟩
    | interpolation escaped path => cases h; exact ⟨by simp, rfl⟩
    | inclusion name => cases h; exact ⟨by simp, rfl⟩
    | comment => cases h; exact ⟨by simp, rfl⟩

/-- A tag that can be read and does not stand at the wrong place passes the check. -/
lemma exists_takeIn_tag (start : Nat) (opener closer : List Char)
    (ht : Tag.ofBody triple body = .ok t)
    (hdirective : ∀ pair, t = .delimiters pair → opened.length = 0) :
    ∃ spans, Piece.takeIn opened (.tag start triple opener body closer) = .ok spans := by
  simp only [Piece.takeIn, ht]
  cases t with
  | delimiters pair =>
    have hempty : opened.isEmpty = true := by simpa using hdirective pair rfl
    exact ⟨opened, if_pos hempty⟩
  | opening inverted path => exact ⟨_, rfl⟩
  | closing path => exact ⟨_, rfl⟩
  | interpolation escaped path => exact ⟨_, rfl⟩
  | inclusion name => exact ⟨_, rfl⟩
  | comment => exact ⟨_, rfl⟩

end takeIn

/-- What the tags say, told from the first one on. -/
lemma readings_cons {triple : Bool} {body : List Char} {t : Tag}
    (ht : Tag.ofBody triple body = .ok t) (tags : List (Bool × List Char)) :
    readings ((triple, body) :: tags) = t :: readings tags := by
  simp [readings, ht, Except.toOption]

/-- What tags say was read of their bodies. -/
lemma exists_ofBody_of_mem_readings {t : Tag} {tags : List (Bool × List Char)}
    (h : t ∈ readings tags) : ∃ triple body, Tag.ofBody triple body = .ok t := by
  obtain ⟨m, -, hm⟩ := List.mem_filterMap.1 h
  cases hread : Tag.ofBody m.1 m.2 with
  | error fault =>
    rw [hread] at hm
    cases hm
  | ok found =>
    rw [hread] at hm
    cases hm
    exact ⟨m.1, m.2, hread⟩

/-- The number of section tags that are open behind some pieces that pass the check. -/
lemma length_of_foldlM_takeIn {pieces : List Piece} {opened spans : List Span}
    (h : pieces.foldlM Piece.takeIn opened = .ok spans) :
    spans.length =
      openAfter opened.length (sectionEnds (readings (pieces.filterMap Piece.tag?))) := by
  induction pieces generalizing opened with
  | nil =>
    cases h
    rfl
  | cons piece pieces ih =>
    rw [List.foldlM_cons] at h
    cases piece with
    | text start content => exact ih h
    | tag start triple opener body closer =>
      cases htake : Piece.takeIn opened (.tag start triple opener body closer) with
      | error fault =>
        rw [htake] at h
        cases h
      | ok opened' =>
        rw [htake] at h
        obtain ⟨t, ht, -, hlength⟩ := takeIn_tag_eq_ok htake
        have htags : (Piece.tag start triple opener body closer :: pieces).filterMap Piece.tag? =
            (triple, body) :: pieces.filterMap Piece.tag? := rfl
        rw [ih h, hlength, htags, readings_cons ht, sectionEnds_cons, openAfter_append]

/-- **What checking the pieces of a template amounts to**: every tag can be read, and no directive
stands in a section.

**Proof sketch.** Induction on the pieces. A tag that passes the check changes the number of those
that are open as the section end does that it is. -/
theorem foldlM_takeIn_iff (pieces : List Piece) (opened : List Span) :
    (∃ spans, pieces.foldlM Piece.takeIn opened = .ok spans) ↔
      (∀ m ∈ pieces.filterMap Piece.tag?, ∃ t, Tag.ofBody m.1 m.2 = .ok t) ∧
        Outside opened.length (readings (pieces.filterMap Piece.tag?)) := by
  induction pieces generalizing opened with
  | nil => exact ⟨fun _ => ⟨by simp, by simp [Outside, readings]⟩, fun _ => ⟨opened, rfl⟩⟩
  | cons piece pieces ih =>
    rw [List.foldlM_cons]
    cases piece with
    | text start content => exact ih opened
    | tag start triple opener body closer =>
      have htags : (Piece.tag start triple opener body closer :: pieces).filterMap Piece.tag? =
          (triple, body) :: pieces.filterMap Piece.tag? := rfl
      rw [htags, List.forall_mem_cons]
      constructor
      · rintro ⟨spans, h⟩
        cases htake : Piece.takeIn opened (.tag start triple opener body closer) with
        | error fault =>
          rw [htake] at h
          cases h
        | ok opened' =>
          rw [htake] at h
          obtain ⟨t, ht, hdirective, hlength⟩ := takeIn_tag_eq_ok htake
          obtain ⟨hread, houtside⟩ := (ih opened').1 ⟨spans, h⟩
          rw [readings_cons ht, outside_cons, ← hlength]
          exact ⟨⟨⟨t, ht⟩, hread⟩, hdirective, houtside⟩
      · rintro ⟨⟨⟨t, ht⟩, hread⟩, houtside⟩
        rw [readings_cons ht, outside_cons] at houtside
        obtain ⟨opened', htake⟩ :=
          exists_takeIn_tag start opener closer ht houtside.1
        obtain ⟨t', ht', -, hlength⟩ := takeIn_tag_eq_ok htake
        obtain rfl : t = t' := Except.ok.inj (ht.symm.trans ht')
        rw [htake]
        exact (ih opened').2 ⟨hread, hlength ▸ houtside.2⟩

/-! ## Reading a template to its end -/

/-- A tag that can be read and runs over the end of a line is no triple one. -/
lemma joined_iff {triple : Bool} {body : List Char} {t : Tag}
    (ht : Tag.ofBody triple body = .ok t) :
    IsJoinable body ↔ Unbroken body ∨ triple = false ∧ startsComment (beforeBreak body) = true := by
  refine or_congr_right ⟨fun h => ⟨?_, h⟩, And.right⟩
  obtain rfl := Tag.eq_comment_of_startsComment (startsComment_of_beforeBreak h) ht
  cases triple with
  | false => rfl
  | true => exact absurd ht (ofBody_triple_ne_comment body)

/-- The tags that are lexed are those of the scan. -/
lemma filterMap_tag?_lexLines (cs : List Char) :
    (Lexer.initial.lexLines (lines cs)).1.filterMap Piece.tag? = (Scan.ofText cs).tags := by
  rw [scan_ofText_eq, Scan.tags_afterPieces]
  simp [Scan.tags]

/-- The number of section tags that are left open when a template is read to its end. -/
lemma Reading.length_of_ending {cs : List Char} {spans : List Span}
    (h : (Reading.ofText cs).ending = .ok spans) :
    spans.length = openAfter 0 (sectionEnds (readings (Scan.ofText cs).tags)) := by
  have hfold := ((Reader.readLines_ending_iff .initial (lines cs) spans).1 h).2
  rw [length_of_foldlM_takeIn hfold, ← filterMap_tag?_lexLines]
  rfl

/-- **What reading a template to its end amounts to.**

**Proof sketch.** Reading the lines is lexing them and checking the pieces. What is carried from
line to line, and what the checks amount to, can both be told from the tags of the scan. -/
theorem Reading.exists_ending_iff (cs : List Char) :
    (∃ spans, (Reading.ofText cs).ending = .ok spans) ↔
      (Scan.ofText cs).unclosed = none ∧
        (∀ m ∈ (Scan.ofText cs).tags,
          Unbroken m.2 ∨ m.1 = false ∧ startsComment (beforeBreak m.2) = true) ∧
        (∀ m ∈ (Scan.ofText cs).tags, ∃ t, Tag.ofBody m.1 m.2 = .ok t) ∧
        Outside 0 (readings (Scan.ofText cs).tags) := by
  have hcarries := Lexer.carries_iff (l := .initial) (lines_isLines cs)
    Delimiters.standard_isUnbroken (by simp [Lexer.initial, Scanner.initial])
  have hscan : Lexer.initial.upcoming cs = Scan.ofText cs := Lexer.upcoming_of_outside rfl cs
  rw [lines_flatten, hscan] at hcarries
  have hchecks := foldlM_takeIn_iff (Lexer.initial.lexLines (lines cs)).1 []
  rw [filterMap_tag?_lexLines] at hchecks
  refine (exists_congr (Reader.readLines_ending_iff .initial (lines cs))).trans ?_
  show (∃ spans, Lexer.initial.Carries (lines cs) ∧ _ = _) ↔ _
  rw [exists_and_left]
  constructor
  · rintro ⟨hcarried, hfold⟩
    obtain ⟨hclosed, hjoins⟩ := hcarries.1 hcarried
    obtain ⟨hread, houtside⟩ := hchecks.1 hfold
    refine ⟨hclosed, fun m hm => ?_, hread, houtside⟩
    obtain ⟨t, ht⟩ := hread m hm
    exact (joined_iff ht).1 (hjoins m hm)
  · rintro ⟨hclosed, hjoined, hread, houtside⟩
    refine ⟨hcarries.2 ⟨hclosed, fun m hm => ?_⟩, hchecks.2 ⟨hread, houtside⟩⟩
    obtain ⟨t, ht⟩ := hread m hm
    exact (joined_iff ht).2 (hjoined m hm)

/-- Reading a template to its end leaves no section tag open exactly if the section ends leave none
open, as they are counted. -/
theorem Reading.ending_iff (cs : List Char) :
    (Reading.ofText cs).ending = .ok [] ↔
      (Scan.ofText cs).unclosed = none ∧
        (∀ m ∈ (Scan.ofText cs).tags,
          Unbroken m.2 ∨ m.1 = false ∧ startsComment (beforeBreak m.2) = true) ∧
        (∀ m ∈ (Scan.ofText cs).tags, ∃ t, Tag.ofBody m.1 m.2 = .ok t) ∧
        Outside 0 (readings (Scan.ofText cs).tags) ∧
        openAfter 0 (sectionEnds (readings (Scan.ofText cs).tags)) = 0 := by
  have hexists := exists_ending_iff cs
  constructor
  · intro h
    obtain ⟨hclosed, hjoined, hread, houtside⟩ := hexists.1 ⟨[], h⟩
    exact ⟨hclosed, hjoined, hread, houtside, (length_of_ending h).symm⟩
  · rintro ⟨hclosed, hjoined, hread, houtside, hnone⟩
    obtain ⟨spans, h⟩ := hexists.2 ⟨hclosed, hjoined, hread, houtside⟩
    rw [h, List.length_eq_zero_iff.1 ((length_of_ending h).trans hnone)]

/-- **A template is well-formed exactly if it is read to its end and its section tags are nested.**
The places of directives are then checked rightly: where section tags are nested, counting them
tells which sections are open. -/
theorem Scan.isWellFormed_iff (cs : List Char) :
    (Scan.ofText cs).IsWellFormed ↔
      (Reading.ofText cs).ending = .ok [] ∧
        Nested (sectionEnds (readings (Scan.ofText cs).tags)) := by
  rw [Reading.ending_iff]
  constructor
  · rintro ⟨hclosed, hjoined, hread, houtside, hnested⟩
    have hfits := hnested.unwind_eq []
    have hcount := openAfter_of_unwind hfits
    exact ⟨⟨hclosed, hjoined, hread, (outside_iff_of_unwind hfits).2 houtside, hcount⟩, hnested⟩
  · rintro ⟨⟨hclosed, hjoined, hread, houtside, -⟩, hnested⟩
    have hfits := hnested.unwind_eq []
    exact ⟨hclosed, hjoined, hread, (outside_iff_of_unwind hfits).1 houtside, hnested⟩

/-- The tag that an item is. -/
def Item.tag? : Item → Option Tag
  | .text _ => none
  | .tag t _ => some t

/-- The tags of the rows of a template that is read to its end. -/
theorem Reading.tags_rows {cs : List Char} {spans : List Span}
    (h : (Reading.ofText cs).ending = .ok spans) :
    (Reading.ofText cs).rows.flatten.filterMap Item.tag? = readings (Scan.ofText cs).tags := by
  have hrows := Reader.flatten_rows .initial h fun _ => rfl
  have hitem : ∀ piece : Piece, piece.item?.bind Item.tag? =
      piece.tag?.bind fun m => (Tag.ofBody m.1 m.2).toOption := by
    intro piece
    cases piece with
    | text start content => rfl
    | tag start triple opener body closer =>
      simp only [Piece.item?, Piece.tag?, Option.bind_some]
      cases (Tag.ofBody triple body).toOption <;> rfl
  have hall : (Reading.ofText cs).rows.flatten =
      (Lexer.initial.lexLines (lines cs)).1.filterMap Piece.item? := hrows
  rw [hall, ← filterMap_tag?_lexLines, readings, List.filterMap_filterMap, List.filterMap_filterMap]
  exact congrArg (List.filterMap · _) (funext hitem)

end Stencil.Markup
