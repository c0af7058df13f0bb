import Mathlib.Tactic.Lemma
import Stencil.Proofs.Code.Openings

/-!
# Sections that are never closed

If nothing is wrong with a template but that sections are left open, then the fault names the
innermost one and shows its opening tag. The name is that of the innermost section of the builder,
and the range is the last one that was noted while the tags were read. No other template comes to
the end with an open section, so a builder that is completed has none.

## Main definitions

* `Markup.Piece.tagged?` — the tag that a piece is, with its range.
* `Markup.Scan.IsUnclosedAt` — a template of which only sections are left open.

## Main results

* `Markup.foldl_nest_of_unwind` — section tags that fit change what is open as section ends do.
* `Draft.outcome_of_isUnclosedAt` — the fault of a template of which sections are left open.
* `Draft.kind_ne_contractViolation` — a template is never completed with an open section.
-/

namespace Stencil

open Stencil.Text Stencil.Markup

namespace Markup

/-! ## Templates of which sections are left open -/

/-- The tag that a piece is, with its range. -/
def Piece.tagged? (piece : Piece) : Option (Tag × Span) := piece.item?.bind Item.tagged?

/-- A tag has the range of its piece. -/
lemma Piece.span_eq_of_tagged? {piece : Piece} {t : Tag} {span : Span}
    (h : piece.tagged? = some (t, span)) : span = piece.span := by
  obtain ⟨item, hitem, htagged⟩ := Option.bind_eq_some_iff.1 h
  cases piece with
  | text start content =>
    cases hitem
    cases htagged
  | tag start triple opener body closer =>
    obtain ⟨u, -, rfl⟩ := Option.map_eq_some_iff.1 hitem
    cases htagged
    rfl

/-- The section ends among some pieces. -/
def sectionEndsOf (pieces : List Piece) : List SectionEnd :=
  sectionEnds (readings (pieces.filterMap Piece.tag?))

/-- **A template of which only sections are left open**: it is like a well-formed one, but the given
piece opens a section that is not closed behind it. What follows this tag is nested, so no section
that is left open is further in. -/
structure Scan.IsUnclosedAt (s : Scan) (piece : Piece) (path : Path) : Prop where
  /-- Every opener is followed by the closer that matches it. -/
  closed : s.unclosed = none
  /-- A tag that is not closed on the line where it opens is no triple one, and the first
  character of its body on this line that is not white space is an exclamation mark. -/
  joined : ∀ m ∈ s.tags, Unbroken m.2 ∨ m.1 = false ∧ startsComment (beforeBreak m.2) = true
  /-- Every tag can be read. -/
  read : ∀ m ∈ s.tags, ∃ t, Tag.ofBody m.1 m.2 = .ok t
  /-- Every directive stands where no section is open. -/
  outside : ∀ front pair rest, readings s.tags = front ++ .delimiters pair :: rest →
    Nested (sectionEnds front)
  /-- No tag closes a section that is not the innermost one, and the innermost one of those that
  are left open begins with the given tag. -/
  innermost : ∃ front back inverted outer, s.pieces = front ++ piece :: back ∧
    piece.tagged? = some (.opening inverted path, piece.span) ∧
    LeavesOpen (sectionEndsOf front) outer ∧ Nested (sectionEndsOf back)

/-- The tags that some pieces are, without their ranges. -/
lemma map_fst_filterMap_piece (pieces : List Piece) :
    (pieces.filterMap Piece.tagged?).map Prod.fst = readings (pieces.filterMap Piece.tag?) := by
  rw [readings, List.map_filterMap, List.filterMap_filterMap]
  refine congrArg (List.filterMap · pieces) (funext fun piece => ?_)
  cases piece with
  | text start content => rfl
  | tag start triple opener body closer =>
    simp only [Piece.tagged?, Piece.item?, Piece.tag?, Option.bind_some]
    cases (Tag.ofBody triple body).toOption <;> rfl

/-- The section ends among some pieces, told from the tags that they are. -/
lemma sectionEndsOf_eq (pieces : List Piece) :
    sectionEndsOf pieces = sectionEnds ((pieces.filterMap Piece.tagged?).map Prod.fst) := by
  rw [map_fst_filterMap_piece, sectionEndsOf]

/-- The section ends among some pieces, told from the first one on. -/
lemma sectionEndsOf_append (front back : List Piece) :
    sectionEndsOf (front ++ back) = sectionEndsOf front ++ sectionEndsOf back := by
  simp [sectionEndsOf, readings, sectionEnds]

/-- An opening tag in front of some pieces. -/
lemma sectionEndsOf_opening {piece : Piece} {inverted : Bool} {path : Path} {span : Span}
    (h : piece.tagged? = some (.opening inverted path, span)) (back : List Piece) :
    sectionEndsOf (piece :: back) = .opening path :: sectionEndsOf back := by
  rw [sectionEndsOf_eq, sectionEndsOf_eq, List.filterMap_cons, h]
  rfl

/-- Where an opening stands among the section ends, the piece of its tag stands among the pieces. -/
lemma exists_of_sectionEndsOf_eq {pieces : List Piece} {es inner : List SectionEnd} {path : Path}
    (h : sectionEndsOf pieces = es ++ .opening path :: inner) :
    ∃ front piece back inverted, pieces = front ++ piece :: back ∧
      piece.tagged? = some (.opening inverted path, piece.span) ∧
      sectionEndsOf front = es ∧ sectionEndsOf back = inner := by
  have hends : ∀ pieces : List Piece, sectionEndsOf pieces =
      pieces.filterMap fun piece => piece.tagged?.bind fun m => m.1.sectionEnd? := by
    intro pieces
    rw [sectionEndsOf_eq, sectionEnds, List.filterMap_map, List.filterMap_filterMap]
    rfl
  rw [hends] at h
  obtain ⟨front, others, rfl, rfl, hothers⟩ := List.filterMap_eq_append_iff.1 h
  obtain ⟨skipped, piece, back, rfl, hskipped, hpiece, rfl⟩ :=
    List.filterMap_eq_cons_iff.1 hothers
  obtain ⟨⟨t, span⟩, htagged, ht⟩ := Option.bind_eq_some_iff.1 hpiece
  obtain rfl := Piece.span_eq_of_tagged? htagged
  have hopening : ∃ inverted, t = .opening inverted path := by
    cases t <;> cases ht
    exact ⟨_, rfl⟩
  obtain ⟨inverted, rfl⟩ := hopening
  refine ⟨front ++ skipped, piece, back, inverted, by simp, htagged, ?_, hends back⟩
  rw [hends, List.filterMap_append, List.filterMap_eq_nil_iff.2 hskipped, List.append_nil]

/-- **Section tags that fit change what is open as section ends do**: behind them as many of the
section tags are open as sections, and those that were open around them are untouched. -/
lemma foldl_nest_of_unwind {stack left : List Path} {ms : List (Tag × Span)}
    (h : unwind stack (sectionEnds (ms.map Prod.fst)) = some left) (inner : List Span)
    (hinner : inner.length = stack.length) (outer : List Span) :
    ∃ inner', inner'.length = left.length ∧
      ms.foldl Tag.nest (inner ++ outer) = inner' ++ outer := by
  induction ms generalizing stack inner with
  | nil =>
    obtain rfl := Option.some.inj h
    exact ⟨inner, hinner, rfl⟩
  | cons m ms ih =>
    obtain ⟨t, span⟩ := m
    rw [List.map_cons, sectionEnds_cons] at h
    cases t with
    | opening inverted path =>
      have hrest : unwind (path :: stack) (sectionEnds (ms.map Prod.fst)) = some left := h
      exact ih hrest (span :: inner) (congrArg Nat.succ hinner)
    | closing path =>
      cases stack with
      | nil => cases h
      | cons expected stack =>
        obtain ⟨last, inner, rfl⟩ := List.exists_cons_of_length_eq_add_one hinner
        simp only [Tag.sectionEnd?, Option.toList_some, List.singleton_append, unwind] at h
        split at h
        · exact ih h inner (Nat.succ.inj hinner)
        · cases h
    | delimiters pair => exact ih h inner hinner
    | interpolation escaped path => exact ih h inner hinner
    | inclusion name => exact ih h inner hinner
    | comment => exact ih h inner hinner

/-- Nested section tags leave those around them open. -/
lemma foldl_nest_of_nested {ms : List (Tag × Span)} (h : Nested (sectionEnds (ms.map Prod.fst)))
    (outer : List Span) : ms.foldl Tag.nest outer = outer := by
  obtain ⟨inner, hinner, hfold⟩ := foldl_nest_of_unwind (h.unwind_eq []) [] rfl outer
  obtain rfl : inner = [] := List.length_eq_zero_iff.1 hinner
  exact hfold

/-- The section tags that a template leaves open, told from the pieces of a scan of it. -/
lemma Reading.spans_eq {cs : List Char} {spans : List Span}
    (h : (Reading.ofText cs).ending = .ok spans) :
    spans = ((Scan.ofText cs).pieces.filterMap Piece.tagged?).foldl Tag.nest [] := by
  have hfold := ((Reader.readLines_ending_iff .initial (lines cs) spans).1 h).2
  have hpieces := Scan.filterMap_afterPieces (f := Piece.tagged?) (fun _ _ => rfl)
    ⟨[], (Lexer.initial.lexLines (lines cs)).2.pair,
      (Lexer.initial.lexLines (lines cs)).2.scanner.inside⟩ (Lexer.initial.lexLines (lines cs)).1
  rw [scan_ofText_eq, hpieces, foldlM_takeIn_eq_nest hfold, List.filterMap_filterMap]
  simp only [List.filterMap_nil, List.append_nil]
  rfl

namespace Scan.IsUnclosedAt

variable {cs : List Char} {piece : Piece} {path : Path}

/-- The section ends of a template of which sections are left open. -/
lemma exists_unwind {s : Scan} (h : s.IsUnclosedAt piece path) :
    ∃ outer, unwind [] (sectionEnds (readings s.tags)) = some (path :: outer) := by
  obtain ⟨front, back, inverted, outer, hpieces, hpiece, hfront, hback⟩ := h.innermost
  refine ⟨outer, ?_⟩
  have hends : sectionEnds (readings s.tags) =
      sectionEndsOf front ++ .opening path :: sectionEndsOf back := by
    rw [← sectionEndsOf_opening hpiece, ← sectionEndsOf_append, ← hpieces]
    rfl
  rw [hends, unwind_append, (leavesOpen_iff_unwind _ _).1 hfront, Option.bind_some, unwind,
    hback.unwind_eq]

/-- A template of which sections are left open is read to its end, and the last section tag that is
open is the innermost one. -/
lemma exists_ending (h : (Scan.ofText cs).IsUnclosedAt piece path) :
    ∃ spans, (Reading.ofText cs).ending = .ok (piece.span :: spans) := by
  have houtside : Outside 0 (readings (Scan.ofText cs).tags) := fun front pair rest hsplit =>
    openAfter_of_unwind ((h.outside front pair rest hsplit).unwind_eq [])
  obtain ⟨all, hending⟩ :=
    (Reading.exists_ending_iff cs).2 ⟨h.closed, h.joined, h.read, houtside⟩
  obtain ⟨front, back, inverted, outer, hpieces, hpiece, -, hback⟩ := h.innermost
  rw [sectionEndsOf_eq] at hback
  have hall := Reading.spans_eq hending
  rw [hpieces, List.filterMap_append, List.filterMap_cons, hpiece, List.foldl_append,
    List.foldl_cons, foldl_nest_of_nested hback] at hall
  exact ⟨_, hending.trans (congrArg Except.ok hall)⟩

/-- **Section ends that fit and leave sections open** have an innermost section that is left open,
and a template of which nothing else is wrong is one of which only sections are left open. -/
lemma exists_of_unwind {spans : List Span} {outer : List Path}
    (hending : (Reading.ofText cs).ending = .ok spans)
    (h : unwind [] (sectionEnds (readings (Scan.ofText cs).tags)) = some (path :: outer)) :
    ∃ piece, (Scan.ofText cs).IsUnclosedAt piece path := by
  obtain ⟨hclosed, hjoined, hread, houtside⟩ := (Reading.exists_ending_iff cs).1 ⟨spans, hending⟩
  have houtside' := (outside_iff_of_unwind h).1 houtside
  have hopen := (leavesOpen_iff_unwind _ _).2 h
  generalize hends : sectionEnds (readings (Scan.ofText cs).tags) = ends at hopen
  cases hopen with
  | @opening es inner _ _ houter hinner =>
    obtain ⟨front, piece, back, inverted, hpieces, hpiece, hfront, hback⟩ :=
      exists_of_sectionEndsOf_eq hends
    exact ⟨piece, hclosed, hjoined, hread, houtside', front, back, inverted, outer, hpieces, hpiece,
      hfront ▸ houter, hback ▸ hinner⟩

end Scan.IsUnclosedAt

end Markup

/-! ## Their drafts -/

/-- The innermost section of a builder, told from the paths of those that are open. -/
lemma Builder.current?_eq (b : Builder) : b.current? = b.paths.head? := by
  rw [current?, paths, List.head?_map]

namespace Draft

variable {cs : List Char} {piece : Piece} {path : Path} {e : DraftError}

/-- **The fault of a template of which sections are left open** names the innermost one and shows
its opening tag. -/
theorem outcome_of_isUnclosedAt (h : (Scan.ofText cs).IsUnclosedAt piece path) :
    (Draft.ofText cs).outcome = .error ⟨.unclosed path.text, some piece.span⟩ := by
  obtain ⟨spans, hending⟩ := h.exists_ending
  obtain ⟨outer, hunwind⟩ := h.exists_unwind
  have hpaths := Builder.map_paths_extend .empty ((stepsOf (Reading.ofText cs).rows).map Step.instr)
  rw [sectionEnds_stepsOf hending, show Builder.empty.paths = [] from rfl, hunwind] at hpaths
  obtain ⟨b, hb, hopened⟩ := exists_of_toOption_map_eq_some hpaths
  have hadd := Builder.addSteps_of_extend hb
  have hcurrent : b.current? = some path := by
    rw [Builder.current?_eq, hopened, List.head?_cons]
  unfold stepsOf at hadd
  simp only [Draft.ofText, hadd, hending, hcurrent, Option.map_some, Option.getD_some]

/-- **A fault that names a section that is left open** is that of a template of which only sections
are left open, and it names and shows the innermost of them.

**Proof sketch.** All steps of the template fit, so its section ends do. There are as many section
tags open as sections, and one is. -/
theorem exists_isUnclosedAt {name : String} {span : Option Span}
    (h : (Draft.ofText cs).outcome = .error ⟨.unclosed name, span⟩) :
    ∃ piece path, (Scan.ofText cs).IsUnclosedAt piece path ∧ name = path.text ∧
      span = some piece.span := by
  suffices hunclosed : ∃ piece path, (Scan.ofText cs).IsUnclosedAt piece path by
    obtain ⟨piece, path, hunclosed⟩ := hunclosed
    have houtcome := h.symm.trans (outcome_of_isUnclosedAt hunclosed)
    simp only [Except.error.injEq, DraftError.mk.injEq, DraftFault.unclosed.injEq] at houtcome
    exact ⟨piece, path, hunclosed, houtcome⟩
  rcases hadd : Builder.empty.addSteps (stepsOf (Reading.ofText cs).rows) with ⟨added, result⟩
  have hadd' := hadd
  unfold stepsOf at hadd'
  unfold Draft.ofText at h
  simp only [hadd'] at h
  split at h
  · cases h
    obtain ⟨step, -, c, fault, -, hfault⟩ := Builder.addSteps_eq_error (congrArg Prod.snd hadd)
    cases hfault
  · cases h
  · rename_i b last spans hending
    obtain ⟨rfl, hextend⟩ := Builder.addSteps_eq_ok hadd
    have hpaths := Builder.map_paths_extend .empty
      ((stepsOf (Reading.ofText cs).rows).map Step.instr)
    rw [hextend, sectionEnds_stepsOf hending] at hpaths
    have hlength := (Reading.length_of_ending hending).trans (openAfter_of_unwind hpaths.symm)
    obtain ⟨path, outer, hopened⟩ := List.exists_cons_of_length_eq_add_one hlength.symm
    have hfits := hpaths.symm.trans (congrArg some hopened)
    obtain ⟨piece, hpiece⟩ := Scan.IsUnclosedAt.exists_of_unwind hending hfits
    exact ⟨piece, path, hpiece⟩
  · split at h <;> cases h

/-- **A template is never completed with an open section**, and never without an instruction: no
fault of a template on its own is one of a sequence that was not meant to be finished. -/
theorem kind_ne_contractViolation (h : (Draft.ofText cs).outcome = .error e) :
    e.fault.cause.kind ≠ .contractViolation := by
  rcases hadd : Builder.empty.addSteps (stepsOf (Reading.ofText cs).rows) with ⟨added, result⟩
  have hadd' := hadd
  unfold stepsOf at hadd'
  unfold Draft.ofText at h
  simp only [hadd'] at h
  split at h
  · cases h
    obtain ⟨step, -, c, fault, hpush, rfl⟩ := Builder.addSteps_eq_error (congrArg Prod.snd hadd)
    -- a step does not fit if it closes another section than the innermost one
    obtain ⟨path, target, -, ⟨-, rfl⟩ | ⟨expected, outer, -, -, rfl⟩⟩ :=
      Builder.push_eq_error_iff.1 hpush <;>
    simp [DraftFault.cause, Cause.kind, NestingFault.kind]
  · cases h
    simp [DraftFault.cause, Cause.kind]
  · cases h
    simp [DraftFault.cause, Cause.kind]
  · rename_i b hending
    obtain ⟨s, hs⟩ := Builder.exists_complete (opened_eq_nil hending hadd)
    simp [hs] at h

end Draft

end Stencil
