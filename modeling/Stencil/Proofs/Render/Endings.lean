import Mathlib.Data.List.Forall2
import Mathlib.Tactic.Lemma
import Stencil.Proofs.Code.Endings
import Stencil.Proofs.Render.Deliveries
import Stencil.Proofs.Render.Literals
import Stencil.Proofs.Render.Records
import Stencil.Proofs.Render.Termination
import Stencil.Proofs.Text.Indenting

/-!
# Rendering with other line endings

A program whose texts end their lines with `\r\n` is run like the one with `\n`: the same sections
run for the same data, and each text is indented in the same way, since a line break is recognised
by either ending. So the output is the same up to the endings, if no value brings a line feed along.

## Main definitions

* `Event.Crlf`, `Trace.Crlf` — events and traces whose texts have other endings.
* `Event.formatsInLine` — no line feed is written for a value.

## Main results

* `Cursor.indented_crlf` — indenting a text with either ending.
* `Program.UsesLf.evaluate` — the evaluation of a program with other endings.
* `Trace.Crlf.outputFrom` — what is written of a trace with other endings.
* `Engine.render_crlf` — rendering a program with other endings.
-/

namespace Stencil

open Stencil.Text

/-! ## Traces -/

/-- An event and its form with other endings, in a template without line breaks in the
indentation. -/
inductive Event.Crlf : Event → Event → Prop where
  | text {indent : String} (content : String) : Unbroken indent.toList →
      Crlf (.text indent content) (.text indent (crlfText content))
  | value {indent : String} (escaped : Bool) (v? : Option Value) : Unbroken indent.toList →
      Crlf (.value indent escaped v?) (.value indent escaped v?)
  | opened (inverted : Bool) (path : Path) (runs : Bool) :
      Crlf (.opened inverted path runs) (.opened inverted path runs)
  | closed (path : Path) (again : Bool) : Crlf (.closed path again) (.closed path again)

/-- A trace and its form with other endings. Both end in the same way. -/
inductive Trace.Crlf : Trace → Trace → Prop where
  | ended (fault : Option RunFault) : Crlf (.ended fault) (.ended fault)
  | event {e e' : Event} {rest rest' : Rest} : e.Crlf e' → Crlf (rest ()) (rest' ()) →
      Crlf (.event e rest) (.event e' rest')

/-- **Indenting a text with either ending.** -/
theorem Cursor.indented_crlf {indent content : String} (hindent : Unbroken indent.toList)
    (h : '\r' ∉ content.toList) :
    indented indent (crlfText content) = crlfText (indented indent content) := by
  rw [indented_eq, indented_eq, toList_crlfText, indentLines_crlf hindent.not_mem_lf h, crlfText,
    String.toList_ofList]

/-- Corresponding events in front of both traces keep them corresponding, in a template without line
breaks in the indentation. -/
lemma Trace.Crlf.isKept {indent : String} (hindent : Unbroken indent.toList) :
    Trace.IsKept Trace.Crlf (fun content content' =>
      '\r' ∉ content.toList ∧ content' = crlfText content) indent indent where
  text := by
    rintro content _ rest rest' ⟨hcontent, rfl⟩ h
    have hevent := Event.Crlf.text (Cursor.indented indent content) hindent
    rw [← Cursor.indented_crlf hindent hcontent] at hevent
    exact .event hevent h
  value escaped v? _ _ h := .event (.value escaped v? hindent) h
  opened inverted path runs _ _ h := .event (.opened inverted path runs) h
  closed path again _ _ h := .event (.closed path again) h

/-! ## Evaluation by structure -/

/-- A program and the one with other endings differ in their texts only. -/
lemma Program.UsesLf.matches {p : Program} (h : p.UsesLf) :
    Program.Matches (fun content content' => '\r' ∉ content.toList ∧ content' = crlfText content)
      (fun indent indent' => Unbroken indent.toList ∧ indent' = indent) Instr.crlf p p.crlf where
  main := rfl
  partials := Table.find?_map Sequence.crlf p.partials
  instrs s hs i hi := by
    have hlf := h s hs i hi
    cases i with
    | text content => exact .text ⟨hlf, rfl⟩
    | interpolate escaped path => exact .interpolate escaped path
    | openSection inverted path target => exact .openSection inverted path target
    | closeSection path target => exact .closeSection path target
    | enter name indent => exact .enter name ⟨hlf, rfl⟩

/-- **The evaluation of a program with other endings.** -/
theorem Program.UsesLf.evaluate {p : Program} (h : p.UsesLf) (limit : Nat) (root : Value) :
    (p.evaluate limit root).Crlf (p.crlf.evaluate limit root) := by
  refine h.matches.evaluate .ended ?_ ?_ ⟨Unbroken.nil, rfl⟩ limit root
  · rintro indent _ ⟨hindent, rfl⟩
    exact Trace.Crlf.isKept hindent
  · rintro indent _ more _ ⟨hindent, rfl⟩ ⟨hmore, rfl⟩
    rw [String.toList_append]
    exact ⟨Unbroken.append_iff.2 ⟨hindent, hmore⟩, rfl⟩

/-! ## Output -/

/-- What is written for a text with other endings. -/
lemma writes_crlf {indent : String} (hindent : Unbroken indent.toList) (lineStart : Bool)
    (content : String) :
    writes lineStart indent (crlfText content) =
      (writes lineStart indent content).map crlfText := by
  simp only [writes, isEmpty_crlfText]
  split
  · rfl
  · split
    · simp [crlfText_eq_self hindent.not_mem_lf]
    · rfl

/-- Whether a line starts behind a text does not depend on its endings. -/
lemma startsLine_crlf (lineStart : Bool) (content : String) :
    startsLine lineStart (crlfText content) = startsLine lineStart content := by
  rw [startsLine, startsLine, isEmpty_crlfText, toList_crlfText, endsLine_crlf]

/-- No line feed is written for a value: the event writes no value, or one whose form has none, or
one that has no form. -/
def Event.formatsInLine (formatter : Formatter) : Event → Bool
  | .value indent escaped v? =>
    match (Event.value indent escaped v?).content formatter with
    | .ok (some (_, content)) => !content.toList.contains '\n'
    | _ => true
  | _ => true

namespace Event.Crlf

variable {e e' : Event} {formatter : Formatter}

/-- The indentation of an event holds no line break. -/
lemma unbroken_indent (h : e.Crlf e') {indent content : String}
    (hcontent : e.content formatter = .ok (some (indent, content))) : Unbroken indent.toList := by
  cases h with
  | text content hindent =>
    cases hcontent
    exact hindent
  | value escaped v? hindent =>
    simp only [Event.content] at hcontent
    split at hcontent
    · cases hcontent
      exact hindent
    · cases hcontent
  | opened inverted path runs => cases hcontent
  | closed path again => cases hcontent

/-- **What an event with other endings writes.** -/
theorem content_eq (h : e.Crlf e') (hvalue : e.formatsInLine formatter = true) :
    e'.content formatter =
      (e.content formatter).map
        (Option.map fun (indent, content) => (indent, crlfText content)) := by
  cases h with
  | text content hindent => rfl
  | opened inverted path runs => rfl
  | closed path again => rfl
  | @value indent escaped v? hindent =>
    simp only [Event.formatsInLine] at hvalue
    split at hvalue
    · rename_i indent' content hcontent
      rw [hcontent]
      have hsame : crlfText content = content := crlfText_eq_self (by simpa using hvalue)
      simp only [Except.map, Option.map_some, hsame]
    · rename_i hnone
      cases hcontent : (Event.value indent escaped v?).content formatter with
      | error fault => rfl
      | ok content? =>
        cases content? with
        | none => rfl
        | some content => exact absurd hcontent (hnone content.1 content.2)

end Event.Crlf

/-- **What is written of a trace with other endings**: the same texts, with other endings, and
the same fault in the end.

**Proof sketch.** Induction on the events. Whether a line starts behind a text, and so whether the
next indentation is written, does not depend on the endings. -/
theorem Trace.Crlf.outputFrom {t t' : Trace} (h : t.Crlf t') {formatter : Formatter}
    (hvalues : ∀ e ∈ t.formatted formatter, e.formatsInLine formatter = true) (lineStart : Bool) :
    (t'.outputFrom formatter lineStart).pieces =
        (t.outputFrom formatter lineStart).pieces.map crlfText ∧
      (t'.outputFrom formatter lineStart).fault = (t.outputFrom formatter lineStart).fault := by
  induction h generalizing lineStart with
  | ended fault => exact ⟨rfl, rfl⟩
  | @event e e' rest rest' he _ ih =>
    have hfirst : e ∈ (Trace.event e rest).formatted formatter := by
      rw [formatted]
      split <;> exact List.mem_cons_self
    have hcontent := he.content_eq (hvalues e hfirst)
    cases hplain : e.content formatter with
    | error fault =>
      rw [hplain] at hcontent
      simp only [Trace.outputFrom, hplain, hcontent, Except.map]
      exact ⟨rfl, trivial⟩
    | ok content? =>
      have hmore : ∀ e₁ ∈ (rest ()).formatted formatter, e₁.formatsInLine formatter = true := by
        intro e₁ he₁
        refine hvalues e₁ ?_
        rw [formatted, hplain]
        exact List.mem_cons_of_mem e he₁
      rw [hplain] at hcontent
      cases content? with
      | none =>
        simp only [Trace.outputFrom, hplain, hcontent, Except.map, Option.map_none]
        exact ih hmore lineStart
      | some found =>
        obtain ⟨indent, content⟩ := found
        obtain ⟨hpieces, hfault⟩ := ih hmore (startsLine lineStart content)
        have hwrites := writes_crlf (he.unbroken_indent hplain) lineStart content
        simp only [Trace.outputFrom, hplain, hcontent, Except.map, Option.map_some,
          Written.pieces_behind, Written.fault_behind, startsLine_crlf, hwrites, hpieces,
          List.map_append]
        exact ⟨trivial, hfault⟩

/-! ## Rendering -/

/-- **Rendering a program with other endings** writes the same texts with other endings and ends in
the same way, if no line feed is written for a value. -/
theorem Engine.render_crlf {p : Program} (h : p.UsesLf) (hp : p.IsSequenced)
    (hcrlf : p.crlf.IsSequenced) (e : Engine) (limit : Option Nat) (root : Value)
    (hvalues : ∀ event ∈ (p.run (limit.getD e.limit) root).formatted e.formatter,
      event.formatsInLine e.formatter = true) :
    (e.render p.crlf limit root).pieces = (e.render p limit root).pieces.map crlfText ∧
      (e.render p.crlf limit root).fault = (e.render p limit root).fault ∧
        e.renderText p.crlf limit (.ok root) =
          (e.renderText p limit (.ok root)).map crlfText := by
  have hrun := hp.run_eq (limit.getD e.limit) root
  have hrun' := hcrlf.run_eq (limit.getD e.limit) root
  rw [hrun] at hvalues
  obtain ⟨hpieces, hfault⟩ := (h.evaluate (limit.getD e.limit) root).outputFrom hvalues true
  rw [← hrun, ← hrun'] at hpieces hfault
  have hpieces' : (e.render p.crlf limit root).pieces =
      (e.render p limit root).pieces.map crlfText := hpieces
  have hfault' : (e.render p.crlf limit root).fault = (e.render p limit root).fault := hfault
  refine ⟨hpieces', hfault', ?_⟩
  rw [renderText_eq, renderText_eq, hpieces', hfault', ← crlfText_join]
  cases (e.render p limit root).fault <;> rfl

end Stencil
