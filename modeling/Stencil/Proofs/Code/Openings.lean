import Mathlib.Data.List.Forall2
import Mathlib.Data.List.Induction
import Mathlib.Tactic.Lemma
import Stencil.Proofs.Code.Places
import Stencil.Proofs.Code.Refusals
import Stencil.Proofs.Markup.Stages

/-!
# Section tags and the sections that they open

While a template is read, the section tags that are open are noted by their ranges as soon as they
are read, whatever their paths are. A builder notes the sections that are open when it takes the
instructions of a row, which is later. Between two rows both have gone equally far, and then the
ranges and the sections belong together one by one.

## Main definitions

* `Markup.Tag.nest` — the section tags that are open behind a tag.
* `settledSteps`, `Markup.Stage.steps` — the steps of the rows that are complete.
* `OpenedBy` — the tag that opened a section of a builder.

## Main results

* `Markup.Stage.IsReached.opened_eq` — the section tags that are open, told from what was read.
* `Builder.forall₂_nest` — the sections that are open, told from the steps that were taken.
* `Markup.Stage.IsReached.steps_prefix` — the steps that are settled are the first ones.
* `Markup.Stage.IsReached.forall₂_opened` — between two rows the two belong together.
-/

namespace Stencil

open Stencil.Text Stencil.Markup

/-! ## The section tags that are open -/

namespace Markup

/-- The section tags that are open behind a tag, given those open before. -/
def Tag.nest (opened : List Span) (m : Tag × Span) : List Span :=
  match m.1 with
  | .opening _ _ => m.2 :: opened
  | .closing _ => opened.tail
  | _ => opened

/-- What the check of a piece leaves open is told from the tag that the piece is. -/
lemma Piece.takeIn_eq_nest {piece : Piece} {opened spans : List Span}
    (h : piece.takeIn opened = .ok spans) :
    spans = (piece.item?.toList.filterMap Item.tagged?).foldl Tag.nest opened := by
  cases piece with
  | text start content =>
    cases h
    rfl
  | tag start triple opener body closer =>
    cases hbody : Tag.ofBody triple body with
    | error fault => simp [takeIn, hbody] at h
    | ok t =>
      simp only [takeIn, hbody] at h
      simp only [item?, hbody, Except.toOption, Option.map_some, Option.toList_some]
      cases t with
      | delimiters pair =>
        simp only at h
        split at h <;> cases h
        rfl
      | opening inverted path => cases h; rfl
      | closing path => cases h; rfl
      | interpolation escaped path => cases h; rfl
      | inclusion name => cases h; rfl
      | comment => cases h; rfl

/-- What the check of some pieces leaves open is told from the tags among them. -/
lemma foldlM_takeIn_eq_nest {pieces : List Piece} {opened spans : List Span}
    (h : pieces.foldlM Piece.takeIn opened = .ok spans) :
    spans = ((pieces.filterMap Piece.item?).filterMap Item.tagged?).foldl Tag.nest opened := by
  induction pieces generalizing opened with
  | nil =>
    cases h
    rfl
  | cons piece pieces ih =>
    rw [List.foldlM_cons] at h
    cases htake : piece.takeIn opened with
    | error fault =>
      rw [htake] at h
      cases h
    | ok between =>
      rw [htake] at h
      have hitems : (piece :: pieces).filterMap Piece.item? =
          piece.item?.toList ++ pieces.filterMap Piece.item? := by
        rw [List.filterMap_cons]
        cases piece.item? <;> rfl
      rw [ih h, Piece.takeIn_eq_nest htake, hitems, List.filterMap_append, List.foldl_append]

namespace Stage

variable {m m' : Stage} {cs : List Char}

/-- The items of the rows that are complete and of the row so far. -/
def items (m : Stage) : List Item := m.rows.flatten ++ m.reader.row

/-- A step of reading keeps it so that the section tags that are open are told from the items. -/
lemma Goes.opened_eq (h : Goes m m')
    (hm : m.reader.opened = (m.items.filterMap Item.tagged?).foldl Tag.nest []) :
    m'.reader.opened = (m'.items.filterMap Item.tagged?).foldl Tag.nest [] := by
  cases h with
  | enter => exact hm
  | carry => exact hm
  | finish => simpa [items, Reader.row] using hm
  | @scan ps rows r r' rest more hne haccept =>
    rw [Reader.accept?_scanned] at haccept
    cases hfold : (r.scanner.next rest).2.1.toList.foldlM Piece.takeIn r.opened with
    | error fault =>
      rw [hfold] at haccept
      cases haccept
    | ok spans =>
      rw [hfold] at haccept
      obtain rfl := Except.ok.inj haccept
      have hrow : ((r.scanned rest).behind ((r.lexer.scanned rest).behind
          (r.scanner.next rest).2.1) (r.scanner.next rest).2.1.toList spans).row =
            r.row ++ (r.scanner.next rest).2.1.toList.filterMap Piece.item? := by
        simp [Reader.row, Reader.behind, Reader.scanned]
      rw [items, hrow, ← List.append_assoc, List.filterMap_append, List.foldl_append]
      show spans = List.foldl Tag.nest
        ((items ⟨ps, rows, r, some rest, more⟩).filterMap Item.tagged? |>.foldl Tag.nest []) _
      rw [← hm]
      exact foldlM_takeIn_eq_nest hfold

/-- **The section tags that are open, told from what was read**: of the tags in the rows that are
complete and in the row so far. -/
theorem IsReached.opened_eq (h : m.IsReached cs) :
    m.reader.opened = (m.items.filterMap Item.tagged?).foldl Tag.nest [] := by
  induction h with
  | refl => rfl
  | tail _ hgoes ih => exact hgoes.opened_eq ih

end Stage

end Markup

/-! ## The sections that are open -/

/-- The steps for a list of parts, without the text that is still to be written behind them. -/
def settledSteps (pending : List Char) : List Part → List Step
  | [] => []
  | .text content :: rest => settledSteps (pending ++ content) rest
  | .tag tag span indent :: rest =>
    match instrOfTag? indent tag with
    | none => settledSteps pending rest
    | some instr => textStep pending ++ ⟨instr, some span⟩ :: settledSteps [] rest

/-- The steps of the rows that are complete at a stage of reading, as far as they are settled. -/
def Markup.Stage.steps (m : Stage) : List Step := settledSteps [] (m.rows.flatMap partsOfRow)

/-- Only text is still to be written behind the steps that are settled. -/
lemma exists_codeOf_eq (pending : List Char) (parts : List Part) :
    ∃ left, codeOf pending parts = settledSteps pending parts ++ textStep left := by
  induction parts generalizing pending with
  | nil => exact ⟨pending, rfl⟩
  | cons part parts ih =>
    cases part with
    | text content => exact ih (pending ++ content)
    | tag t span indent =>
      rw [codeOf, settledSteps]
      cases instrOfTag? indent t with
      | none => exact ih pending
      | some instr =>
        obtain ⟨left, hleft⟩ := ih []
        exact ⟨left, by simp [hleft]⟩

/-- A tag of a section, with its range. -/
def Markup.Tag.section? (m : Tag × Span) : Option (Tag × Span) :=
  if m.1.sectionEnd?.isSome then some m else none

/-- The tag of a section from which a step stems, with its range. -/
def Step.section? (s : Step) : Option (Tag × Span) :=
  match s.instr, s.span with
  | .openSection inverted path _, some span => some (.opening inverted path, span)
  | .closeSection path _, some span => some (.closing path, span)
  | _, _ => none

/-- Tags of sections alone tell which section tags are open. -/
lemma foldl_nest_section? (opened : List Span) (ms : List (Tag × Span)) :
    (ms.filterMap Tag.section?).foldl Tag.nest opened = ms.foldl Tag.nest opened := by
  induction ms generalizing opened with
  | nil => rfl
  | cons m ms ih =>
    obtain ⟨t, span⟩ := m
    cases t <;> exact ih _

/-- The tags of sections among the steps for some parts are those among the parts. -/
lemma section?_codeOf (pending : List Char) (parts : List Part) :
    (codeOf pending parts).filterMap Step.section? =
      (parts.filterMap Part.tagged?).filterMap Tag.section? :=
  filterMap_codeOf (fun _ => rfl) (fun _ t _ => by cases t <;> rfl) pending parts

/-- The tags of sections among the steps that are settled are those of the complete rows. -/
lemma Markup.Stage.section?_steps (m : Stage) :
    m.steps.filterMap Step.section? =
      (m.rows.flatten.filterMap Item.tagged?).filterMap Tag.section? := by
  obtain ⟨left, hleft⟩ := exists_codeOf_eq [] (m.rows.flatMap partsOfRow)
  have htext : (textStep left).filterMap Step.section? = [] := by
    unfold textStep
    split <;> rfl
  rw [← filterMap_tagged?_flatMap, ← section?_codeOf [], hleft, List.filterMap_append, htext,
    List.append_nil, steps]

/-- A step writes text or is the instruction of a tag, with the range of this tag. -/
def Step.IsOfTag (s : Step) : Prop :=
  (∃ content, s = ⟨.text content, none⟩) ∨
    ∃ t span indent, instrOfTag? indent t = some s.instr ∧ s.span = some span

/-- A section of a builder was opened by the step that has its index, and this step stems from the
tag with the given range. -/
def OpenedBy (steps : List Step) (span : Span) (o : Path × Nat) : Prop :=
  ∃ inverted, steps[o.2]? = some ⟨.openSection inverted o.1 Instr.unresolved, some span⟩

/-- A section stays opened by a step when others follow. -/
lemma OpenedBy.append {steps : List Step} {span : Span} {o : Path × Nat}
    (h : OpenedBy steps span o) (more : List Step) : OpenedBy (steps ++ more) span o := by
  obtain ⟨inverted, hstep⟩ := h
  obtain ⟨hlt, -⟩ := List.getElem?_eq_some_iff.1 hstep
  exact ⟨inverted, by rw [List.getElem?_append_left hlt, hstep]⟩

namespace Builder

variable {b b' : Builder} {steps : List Step}

/-- A builder has as many instructions as it took steps. -/
lemma size_of_extend (h : empty.extend (steps.map Step.instr) = .ok b) :
    b.instrs.size = steps.length := by
  have hlength := congrArg List.length (map_stored_extend h)
  simpa [empty] using hlength

/-- **The sections that are open, told from the steps that were taken**: they are those of which
the section tags are open, in the same order.

**Proof sketch.** Induction on the steps, from the last one. An opening puts one entry in front on
both sides, and a closing that fits takes off the first one on both sides. -/
theorem forall₂_nest (hsteps : ∀ s ∈ steps, s.IsOfTag)
    (h : empty.extend (steps.map Step.instr) = .ok b) :
    List.Forall₂ (OpenedBy steps) ((steps.filterMap Step.section?).foldl Tag.nest [])
      b.opened := by
  induction steps using List.reverseRecOn generalizing b with
  | nil =>
    cases h
    exact .nil
  | append_singleton steps s ih =>
    rw [List.map_append, extend_append] at h
    obtain ⟨c, hc, hs⟩ := exists_of_bind_eq_ok h
    obtain ⟨hfront, hlast⟩ := List.forall_mem_append.1 hsteps
    have hopened := (ih hfront hc).imp fun span o ho => OpenedBy.append ho [s]
    have hpush : c.push s.instr = .ok b := by
      obtain ⟨d, hd, hb⟩ := exists_of_bind_eq_ok hs
      cases hb
      exact hd
    rw [List.filterMap_append, List.foldl_append]
    have hof := hlast s List.mem_cons_self
    obtain ⟨instr, span?⟩ := s
    cases instr with
    | text content => cases hpush; exact hopened
    | interpolate escaped path => cases hpush; exact hopened
    | enter name indent => cases hpush; exact hopened
    | openSection inverted path target =>
      rcases hof with ⟨content, htext⟩ | ⟨t, span, indent, ht, rfl⟩
      · cases htext
      · obtain rfl : target = Instr.unresolved := by
          cases t <;> cases ht
          rfl
        cases hpush
        refine .cons ⟨inverted, ?_⟩ hopened
        rw [size_of_extend hc, List.getElem?_concat_length]
    | closeSection path target =>
      rcases hof with ⟨content, htext⟩ | ⟨t, span, indent, -, rfl⟩
      · cases htext
      · simp only [push] at hpush
        split at hpush
        · cases hpush
        · rename_i expected start outer hcopened
          split at hpush
          · cases hpush
            rw [hcopened] at hopened
            show List.Forall₂ _ (List.foldl Tag.nest [] _).tail outer
            generalize List.foldl Tag.nest [] (steps.filterMap Step.section?) = spans at hopened ⊢
            cases hopened with
            | cons _ houter => exact houter
          · cases hpush

end Builder

/-! ## Between two rows -/

/-- The steps that are settled come first, whatever parts follow. -/
lemma settledSteps_prefix (pending : List Char) (parts more : List Part) :
    settledSteps pending parts <+: codeOf pending (parts ++ more) := by
  induction parts generalizing pending with
  | nil => exact List.nil_prefix
  | cons part parts ih =>
    cases part with
    | text content => exact ih (pending ++ content)
    | tag t span indent =>
      rw [settledSteps, List.cons_append, codeOf]
      cases instrOfTag? indent t with
      | none => exact ih pending
      | some instr =>
        exact (List.prefix_append_right_inj _).2 (List.cons_prefix_cons.2 ⟨rfl, ih []⟩)

/-- The steps that are settled at a stage of reading a template are the first ones of it. -/
lemma Markup.Stage.IsReached.steps_prefix {m : Stage} {cs : List Char} (h : m.IsReached cs) :
    m.steps <+: stepsOf (Reading.ofText cs).rows := by
  obtain ⟨others, hothers⟩ := h.rows_prefix
  rw [steps, stepsOf, ← hothers, List.flatMap_append]
  exact settledSteps_prefix _ _ _

/-- The steps of some rows write text or stem from tags. -/
lemma isOfTag_of_mem_stepsOf {rows : List Row} {s : Step} (h : s ∈ stepsOf rows) : s.IsOfTag := by
  refine (mem_stepsOf h).imp_right ?_
  rintro ⟨t, span, indent, -, hrest⟩
  exact ⟨t, span, indent, hrest⟩

/-- The step that opens a section shows the tag of the template that does so. -/
lemma OpenedBy.showsTag {cs : List Char} {steps : List Step} {span : Span} {o : Path × Nat}
    (h : OpenedBy steps span o) (hsteps : steps ⊆ stepsOf (Reading.ofText cs).rows) :
    ∃ inverted, steps[o.2]? = some ⟨.openSection inverted o.1 Instr.unresolved, some span⟩ ∧
      ShowsTag cs span (.opening inverted o.1) := by
  obtain ⟨inverted, hstep⟩ := h
  refine ⟨inverted, hstep, ?_⟩
  rcases mem_stepsOf (hsteps (List.mem_of_getElem? hstep)) with
    ⟨content, htext⟩ | ⟨t, span', indent, hmem, hinstr, hspan⟩
  · cases htext
  · obtain rfl := Option.some.inj hspan
    obtain rfl : t = .opening inverted o.1 := by
      cases t <;> cases hinstr
      rfl
    obtain ⟨piece, hpiece, rfl, hne, hcovers, hbody⟩ := Reading.exists_piece_of_mem_rows hmem
    exact ⟨piece, hpiece, rfl, hne, hcovers, hbody⟩

/-- **Between two rows the section tags and the sections belong together.** Whenever no item waits
for its row to be complete, and the instructions of the complete rows fit, there are as many
section tags open as sections, and each section was opened by the tag at the same place.

**Proof sketch.** The section tags that are open are told from the items that were read, and the
sections from the steps that were taken. Between two rows these have the same section tags. -/
theorem Markup.Stage.IsReached.forall₂_opened {m : Stage} {cs : List Char} (h : m.IsReached cs)
    (hrecent : m.reader.recent = []) {b : Builder}
    (hb : Builder.empty.extend (m.steps.map Step.instr) = .ok b) :
    List.Forall₂ (fun span o => ∃ inverted,
        m.steps[o.2]? = some ⟨.openSection inverted o.1 Instr.unresolved, some span⟩ ∧
        ShowsTag cs span (.opening inverted o.1)) m.reader.opened b.opened := by
  have hsubset : m.steps ⊆ stepsOf (Reading.ofText cs).rows := h.steps_prefix.subset
  have hnest := Builder.forall₂_nest (fun s hs => isOfTag_of_mem_stepsOf (hsubset hs)) hb
  have hitems : m.items = m.rows.flatten := by simp [items, Reader.row, hrecent]
  rw [h.opened_eq, hitems, ← foldl_nest_section?, ← m.section?_steps]
  exact hnest.imp fun span o ho => ho.showsTag hsubset

end Stencil
