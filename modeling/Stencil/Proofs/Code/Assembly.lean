import Mathlib.Tactic.Lemma
import Stencil.Proofs.Code.Rollback
import Stencil.Proofs.Code.Validity
import Stencil.Proofs.Text.Cuts

/-!
# Putting code together part by part

The code of a template can be put together while the template is read: the text that is still to
be written, the instructions so far and the inclusions are kept, and each part adds to them. What
closes a section looks up the instruction that opened it by its index, which is checked here.

An index that a builder keeps for an open section is always that of an opening, so the checks pass.
What comes out is the draft of all parts together.

## Main definitions

* `Stop` — the reasons to stop before all parts are put together.
* `Builder.pushAt` — adds an instruction, with checks.
* `Assembly` — code that is being put together.
* `Assembly.put`, `Assembly.conclude` — adds a part, and ends the code.
* `Assembly.finish` — the draft of what was put together and some parts to come.

## Main results

* `Builder.pushAt_eq` — closing a section finds its opening.
* `Assembly.putAll_goesTo` — putting parts together one by one gives their draft.
* `Assembly.conclude_eq` — the end of the code is that of the draft.
-/

namespace Stencil

open Stencil.Text Stencil.Markup

/-- The reasons to stop before a template is at its end: a check fails, or there is a fault. With
a fault there are the inclusions that were referred to before. -/
inductive Stop where
  | defect (d : Defect)
  | fault (references : List Reference) (error : DraftError)

/-- A result without defects stands for the draft that is known when reading stops. -/
def Stop.settle : Except Stop Draft → Checked Draft
  | .ok draft => .ok draft
  | .error (.defect d) => .error d
  | .error (.fault references error) => .ok ⟨references, .error error⟩

/-! ## Closing sections -/

/-- Adds one instruction at the end. What closes a section looks for its opening at the index that
was noted for it. -/
def Builder.pushAt (b : Builder) (i : Instr) : Checked (Except NestingFault Builder) :=
  match i, b.opened with
  | .closeSection path _, (expected, start) :: _ =>
    if expected = path then
      match b.instrs[start]? with
      | none => .error .index
      | some (.openSection _ _ _) => .ok (b.push i)
      | some _ => .error .unreachable
    else .ok (b.push i)
  | _, _ => .ok (b.push i)

/-- **Closing a section finds its opening.** -/
theorem Builder.pushAt_eq {b : Builder} (h : ∃ levels here, b.Shape levels here) (i : Instr) :
    b.pushAt i = .ok (b.push i) := by
  obtain ⟨levels, here, h⟩ := h
  unfold pushAt
  split
  · rename_i path target expected start outer hopened
    obtain ⟨inverted, hopen⟩ := h.opening (hopened ▸ List.mem_cons_self)
    split
    · simp only [hopen]
    · rfl
  · rfl

/-! ## Parts -/

/-- Code that is being put together. -/
structure Assembly where
  /-- The text that is still to be written. -/
  pending : List Char := []
  builder : Builder := .empty
  /-- The inclusions that were referred to. -/
  references : List Reference := []

namespace Assembly

/-- Adds an instruction that stems from a range, if it stems from one. -/
def push (a : Assembly) (i : Instr) (span : Option Span) : Except Stop Assembly :=
  match a.builder.pushAt i with
  | .error d => .error (.defect d)
  | .ok (.error fault) => .error (.fault a.references ⟨.nesting fault, span⟩)
  | .ok (.ok b) => .ok { a with builder := b }

/-- Writes the text that is still to be written. -/
def flushText (a : Assembly) : Except Stop Assembly :=
  if a.pending.isEmpty then .ok a
  else { a with pending := [] }.push (.text (String.ofList a.pending)) none

/-- Adds the inclusion that a tag refers to. -/
def refer (a : Assembly) (tag : Tag) (span : Span) : Assembly :=
  { a with references := a.references ++ (tag.included?.map fun n => ⟨n, some span⟩).toList }

/-- Adds a tag. -/
def pushTag (a : Assembly) (tag : Tag) (span : Span) (indent : List Char) :
    Except Stop Assembly :=
  match instrOfTag? indent tag with
  | none => .ok a
  | some instr =>
    match a.flushText with
    | .error stop => .error stop
    | .ok a => (a.refer tag span).push instr (some span)

/-- Adds a part. -/
def put (a : Assembly) : Part → Except Stop Assembly
  | .text content => .ok { a with pending := a.pending ++ content }
  | .tag tag span indent => a.pushTag tag span indent

/-- Ends the code of a template, given the section tags that are left open. A template without
instructions writes the empty text. -/
def conclude (a : Assembly) (opens : List Span) : Except Stop Draft := do
  let a ← a.flushText
  match opens with
  | span :: _ =>
    .error (.fault a.references
      ⟨.unclosed ((a.builder.current?.map Path.text).getD ""), some span⟩)
  | [] =>
    let a ← if a.builder.isEmpty then a.push (.text "") none else .ok a
    match a.builder.finish with
    | .error fault => .error (.fault a.references ⟨.nesting fault, none⟩)
    | .ok sequence => .ok ⟨a.references, .ok sequence⟩

/-- The draft of what was put together and some steps to come. -/
def behind (references : List Reference) (b : Builder) (steps : List Step)
    (ending : Except MarkupError (List Span)) : Draft :=
  let (added, result) := b.addSteps steps
  { references := references ++ added.filterMap Step.reference?
    outcome :=
      match result, ending with
      | .error e, _ => .error e
      | .ok _, .error e => .error ⟨.markup e.fault, some e.span⟩
      | .ok b, .ok (span :: _) => .error ⟨.unclosed ((b.current?.map Path.text).getD ""), span⟩
      | .ok b, .ok [] =>
        match b.complete with
        | .error fault => .error ⟨.nesting fault, none⟩
        | .ok sequence => .ok sequence }

/-- The draft of what was put together and some parts to come. -/
def finish (a : Assembly) (parts : List Part) (ending : Except MarkupError (List Span)) : Draft :=
  behind a.references a.builder (codeOf a.pending parts) ending

/-- The draft of a template is that of all its parts. -/
lemma finish_ofText (cs : List Char) :
    finish {} ((Reading.ofText cs).rows.flatMap partsOfRow) (Reading.ofText cs).ending =
      Draft.ofText cs := by
  unfold finish behind Draft.ofText
  rfl

/-! ## Putting parts together -/

section Steps

variable {references : List Reference} {b b' : Builder} {step : Step} {steps : List Step}
  {ending : Except MarkupError (List Span)} {fault : NestingFault}

/-- The draft of a step that fits and others. -/
lemma behind_cons_of_ok (h : b.push step.instr = .ok b') :
    behind references b (step :: steps) ending =
      behind (references ++ step.reference?.toList) b' steps ending := by
  have hreferences : ∀ added : List Step, (step :: added).filterMap Step.reference? =
      step.reference?.toList ++ added.filterMap Step.reference? := by
    intro added
    cases href : step.reference? <;> simp [href]
  unfold behind
  simp only [Builder.addSteps, h, hreferences, List.append_assoc]

/-- The draft of a step that does not fit. -/
lemma behind_cons_of_error (h : b.push step.instr = .error fault) :
    behind references b (step :: steps) ending =
      ⟨references, .error ⟨.nesting fault, step.span⟩⟩ := by
  unfold behind
  simp [Builder.addSteps, h]

end Steps

/-- The sections that are open are noted with the indices of their openings. -/
def IsSound (a : Assembly) : Prop := ∃ levels here, a.builder.Shape levels here

/-- What is put together goes on to a draft, or it stopped with it. -/
inductive GoesTo (draft : Draft) (next : Assembly → Draft) : Except Stop Assembly → Prop
  | on {a : Assembly} (hsound : a.IsSound) (h : draft = next a) : GoesTo draft next (.ok a)
  | halt {references : List Reference} {e : DraftError} (h : draft = ⟨references, .error e⟩) :
      GoesTo draft next (.error (.fault references e))

section Parts

variable {a a' : Assembly} {tag : Tag} {span : Span} {indent : List Char} {i : Instr}
  {ending : Except MarkupError (List Span)}

/-- An instruction that fits is added. -/
lemma push_of_ok {b : Builder} (h : a.IsSound) (hpush : a.builder.push i = .ok b)
    (from? : Option Span) :
    a.push i from? = .ok { a with builder := b } ∧ IsSound { a with builder := b } := by
  obtain ⟨levels, here, hshape⟩ := h
  refine ⟨?_, hshape.push hpush⟩
  rw [push, Builder.pushAt_eq ⟨levels, here, hshape⟩, hpush]

/-- An instruction that does not fit is a fault. -/
lemma push_of_error {fault : NestingFault} (h : a.IsSound)
    (hpush : a.builder.push i = .error fault) (from? : Option Span) :
    a.push i from? = .error (.fault a.references ⟨.nesting fault, from?⟩) := by
  rw [push, Builder.pushAt_eq h, hpush]

/-- Text that is still to be written is written, and this is the step for it. -/
lemma flushText_eq (h : a.IsSound) :
    ∃ b, a.flushText = .ok { a with pending := [], builder := b } ∧
      IsSound { a with pending := [], builder := b } ∧ ∀ steps ending,
        behind a.references a.builder (textStep a.pending ++ steps) ending =
          behind a.references b steps ending := by
  obtain ⟨pending, builder, references⟩ := a
  rw [flushText]
  split
  · rename_i hempty
    obtain rfl : pending = [] := List.isEmpty_iff.1 hempty
    exact ⟨builder, rfl, h, fun steps ending => rfl⟩
  · rename_i hempty
    obtain ⟨hpush, hsound⟩ := push_of_ok (a := ⟨[], builder, references⟩)
      (i := .text (String.ofList pending)) h rfl none
    refine ⟨_, hpush, hsound, fun steps ending => ?_⟩
    rw [textStep, if_neg hempty, List.singleton_append, behind_cons_of_ok rfl]
    simp [Step.reference?, Instr.included?]

/-- Adding a tag is adding its step. -/
lemma push_refer_goesTo (h : a.IsSound) (hinstr : instrOfTag? indent tag = some i)
    (rest : List Part) :
    GoesTo (behind a.references a.builder (⟨i, some span⟩ :: codeOf a.pending rest) ending)
      (fun a' => a'.finish rest ending) ((a.refer tag span).push i (some span)) := by
  have hincluded : i.included? = tag.included? := by
    rw [← bind_included?_instrOfTag? indent tag, hinstr, Option.bind_some]
  cases hpush : a.builder.push i with
  | ok b =>
    obtain ⟨heq, hsound⟩ := push_of_ok (a := a.refer tag span) h hpush (some span)
    rw [heq]
    refine .on hsound ?_
    rw [behind_cons_of_ok hpush, finish]
    simp [Step.reference?, hincluded, refer]
  | error fault =>
    -- only the end of a section may not fit, and it refers to no template
    have hnone : tag.included? = none := by
      rw [← hincluded]
      cases i with
      | closeSection path target => rfl
      | _ => simp [Builder.push] at hpush
    rw [push_of_error (a := a.refer tag span) h hpush]
    refine .halt ?_
    rw [behind_cons_of_error hpush]
    simp [refer, hnone]

/-- Adding a part goes on to the draft of the parts to come. -/
lemma put_goesTo (h : a.IsSound) (part : Part) (rest : List Part)
    (ending : Except MarkupError (List Span)) :
    GoesTo (a.finish (part :: rest) ending) (fun a' => a'.finish rest ending) (a.put part) := by
  cases part with
  | text content => exact .on h rfl
  | tag tag span indent =>
    rw [put, pushTag, finish, codeOf]
    cases hinstr : instrOfTag? indent tag with
    | none => exact .on h rfl
    | some i =>
      obtain ⟨b, hflush, hsound, hbehind⟩ := flushText_eq h
      simp only [hflush]
      rw [hbehind]
      exact push_refer_goesTo (a := { a with pending := [], builder := b }) hsound hinstr rest

/-- **Putting parts together one by one goes on to the draft of the parts to come.** -/
theorem putAll_goesTo (h : a.IsSound) (parts rest : List Part)
    (ending : Except MarkupError (List Span)) :
    GoesTo (a.finish (parts ++ rest) ending) (fun a' => a'.finish rest ending)
      (parts.foldlM put a) := by
  induction parts generalizing a with
  | nil => exact .on h rfl
  | cons part parts ih =>
    have hput := put_goesTo h part (parts ++ rest) ending
    rw [List.foldlM_cons, List.cons_append]
    cases hresult : a.put part with
    | error stop =>
      rw [hresult] at hput
      cases hput with
      | halt heq => exact .halt heq
    | ok a' =>
      rw [hresult] at hput
      cases hput with
      | on hsound heq =>
        rw [heq]
        exact ih hsound

/-- Where reading stops with a fault, the draft shows it. -/
lemma finish_nil_error (h : a.IsSound) (e : MarkupError) :
    a.finish [] (.error e) = ⟨a.references, .error ⟨.markup e.fault, some e.span⟩⟩ := by
  obtain ⟨b, -, -, hbehind⟩ := flushText_eq h
  rw [finish, codeOf, ← List.append_nil (textStep a.pending), hbehind]
  simp [behind, Builder.addSteps]

/-- **The end of the code is that of the draft.** -/
theorem conclude_eq (h : a.IsSound) (opens : List Span) :
    Stop.settle (a.conclude opens) = .ok (a.finish [] (.ok opens)) := by
  obtain ⟨b, hflush, hsound, hbehind⟩ := flushText_eq h
  rw [finish, codeOf, ← List.append_nil (textStep a.pending), hbehind]
  simp only [conclude, hflush, bind, Except.bind, behind, Builder.addSteps, List.filterMap_nil,
    List.append_nil]
  cases opens with
  | cons span spans => rfl
  | nil =>
    by_cases hempty : b.isEmpty = true
    · obtain ⟨hpush, -⟩ := push_of_ok (i := .text "") hsound rfl none
      have hcomplete : b.complete = (b.push (.text "")).bind Builder.finish := if_pos hempty
      simp only [hempty, if_true, hpush, hcomplete, Builder.push, Except.bind]
      split <;> rfl
    · have hcomplete : b.complete = b.finish := if_neg hempty
      simp only [hempty, hcomplete]
      cases b.finish <;> rfl

end Parts

end Assembly

end Stencil
