import Mathlib.Tactic.Lemma
import Stencil.Proofs.Code.Indentation
import Stencil.Proofs.Render.Deliveries
import Stencil.Proofs.Render.Literals
import Stencil.Proofs.Render.Records
import Stencil.Proofs.Render.Termination

/-!
# Indentation adds blanks only

An included template is indented in two places: within its texts, when they are met, and at the
start of a line, when something is written there, which depends on all that was written before. In
both places spaces and tabs are put in. So a program without its indentations does the same, shows
the same values and fails in the same way, and its output is the same without the blanks that were
put in.

## Main definitions

* `Event.Unindented`, `Trace.Unindented` — events and traces of a program without its indentations.
* `Event.shown?` — the value that an event shows.

## Main results

* `Program.IndentsOnly.evaluate` — the evaluation of a program without its indentations.
* `Trace.Unindented.outputFrom` — what is written of a trace without the indentations.
* `Trace.Unindented.shown_eq` — the values that are shown.
* `Engine.render_unindented` — renderings of what compiles, with and without the indentations.
-/

namespace Stencil

open Stencil.Text Stencil.Markup

/-! ## Traces -/

/-- An event and the one of a program without its indentations. -/
inductive Event.Unindented : Event → Event → Prop where
  | text {indent content content' : String} : Indents indent.toList →
      Spaced content'.toList content.toList →
        Unindented (.text indent content) (.text "" content')
  | value {indent : String} (escaped : Bool) (v? : Option Value) : Indents indent.toList →
      Unindented (.value indent escaped v?) (.value "" escaped v?)
  | opened (inverted : Bool) (path : Path) (runs : Bool) :
      Unindented (.opened inverted path runs) (.opened inverted path runs)
  | closed (path : Path) (again : Bool) : Unindented (.closed path again) (.closed path again)

/-- A trace and the one of a program without its indentations. Both end in the same way. -/
inductive Trace.Unindented : Trace → Trace → Prop where
  | ended (fault : Option RunFault) : Unindented (.ended fault) (.ended fault)
  | event {e e' : Event} {rest rest' : Rest} : e.Unindented e' →
      Unindented (rest ()) (rest' ()) → Unindented (.event e rest) (.event e' rest')

/-- Corresponding events in front of both traces keep them corresponding, in a template that is
indented with spaces and tabs. -/
lemma Trace.Unindented.isKept {indent : String} (hindent : Indents indent.toList) :
    Trace.IsKept Trace.Unindented Eq indent "" where
  text := by
    rintro content _ rest rest' rfl h
    exact .event (.text hindent (Cursor.spaced_indented hindent content)) h
  value escaped v? _ _ h := .event (.value escaped v? hindent) h
  opened inverted path runs _ _ h := .event (.opened inverted path runs) h
  closed path again _ _ h := .event (.closed path again) h

/-! ## Evaluation by structure -/

/-- A program and the one without its indentations differ in the indentations only. -/
lemma Program.IndentsOnly.matches {p : Program} (h : p.IndentsOnly) :
    Program.Matches Eq (fun indent indent' => Indents indent.toList ∧ indent' = "")
      Instr.unindented p p.unindented where
  main := rfl
  partials := Table.find?_map Sequence.unindented p.partials
  instrs s hs i hi := by
    have hindents := h s hs i hi
    cases i with
    | text content => exact .text rfl
    | interpolate escaped path => exact .interpolate escaped path
    | openSection inverted path target => exact .openSection inverted path target
    | closeSection path target => exact .closeSection path target
    | enter name indent => exact .enter name ⟨hindents, rfl⟩

/-- **The evaluation of a program without its indentations.** -/
theorem Program.IndentsOnly.evaluate {p : Program} (h : p.IndentsOnly) (limit : Nat)
    (root : Value) : (p.evaluate limit root).Unindented (p.unindented.evaluate limit root) := by
  refine h.matches.evaluate .ended ?_ ?_ ⟨List.forall_mem_nil _, rfl⟩ limit root
  · rintro indent _ ⟨hindent, rfl⟩
    exact Trace.Unindented.isKept hindent
  · rintro indent _ more _ ⟨hindent, rfl⟩ ⟨hmore, rfl⟩
    rw [String.toList_append]
    exact ⟨hindent.append hmore, rfl⟩

/-! ## Output -/

/-- What is written for a text, without the indentation and with it. -/
lemma spaced_join_writes {indent content content' : String} (hindent : Indents indent.toList)
    (hcontent : Spaced content'.toList content.toList) (lineStart lineStart' : Bool) :
    Spaced (String.join (writes lineStart' "" content')).toList
      (String.join (writes lineStart indent content)).toList := by
  rw [join_writes, join_writes, ite_self, String.empty_append]
  split
  · rw [String.toList_append]
    exact hcontent.put_front hindent
  · rwa [String.empty_append]

/-- What corresponding events write, if they do: the text of the first one is indented. -/
lemma Event.Unindented.content {e e' : Event} (h : e.Unindented e') (formatter : Formatter) :
    SameOutcome Eq (Option.Rel fun w w' =>
        Indents w.1.toList ∧ w'.1 = "" ∧ Spaced w'.2.toList w.2.toList)
      (e.content formatter) (e'.content formatter) := by
  cases h with
  | text hindent hcontent => exact .ok (.some ⟨hindent, rfl, hcontent⟩)
  | opened inverted path runs => exact .ok .none
  | closed path again => exact .ok .none
  | value escaped v? hindent =>
    simp only [Event.content]
    cases (if escaped then formatter else Formatter.plain) (v?.getD .none) with
    | error fault => exact .error rfl
    | ok content => exact .ok (.some ⟨hindent, rfl, .refl _⟩)

/-- **What is written of a trace without the indentations**, and with spaces and tabs put in of the
trace with them. Both fail in the same way, if at all.

**Proof sketch.** Induction on the events. An empty indentation is never written, so it does not
matter where the lines of the second output start. -/
theorem Trace.Unindented.outputFrom {t t' : Trace} (h : t.Unindented t') (formatter : Formatter)
    (lineStart lineStart' : Bool) :
    (t'.outputFrom formatter lineStart').fault = (t.outputFrom formatter lineStart).fault ∧
      Spaced (String.join (t'.outputFrom formatter lineStart').pieces).toList
        (String.join (t.outputFrom formatter lineStart).pieces).toList := by
  induction h generalizing lineStart lineStart' with
  | ended fault => exact ⟨rfl, .refl _⟩
  | event he _ ih =>
    have hcontent := he.content formatter
    simp only [Trace.outputFrom]
    generalize Event.content formatter _ = x at hcontent ⊢
    generalize Event.content formatter _ = y at hcontent ⊢
    cases hcontent with
    | error hfault =>
      subst hfault
      exact ⟨rfl, .refl _⟩
    | ok hcontent =>
      cases hcontent with
      | none => exact ih lineStart lineStart'
      | @some found found' hfound =>
        obtain ⟨indent, content⟩ := found
        obtain ⟨_, content'⟩ := found'
        obtain ⟨hindent, rfl, hspaced⟩ := hfound
        obtain ⟨hfault, hrest⟩ := ih (startsLine lineStart content) (startsLine lineStart' content')
        simp only [Written.fault_behind, Written.pieces_behind, String.join_append,
          String.toList_append]
        exact ⟨hfault, (spaced_join_writes hindent hspaced _ _).append hrest⟩

/-- The value that an event shows, and whether it is escaped, if it shows one. The value may be
missing. -/
def Event.shown? : Event → Option (Bool × Option Value)
  | .value _ escaped v? => some (escaped, v?)
  | .text _ _ => none
  | .opened _ _ _ => none
  | .closed _ _ => none

/-- **The values that are shown** are the same without the indentations, in the same order. -/
theorem Trace.Unindented.shown_eq {t t' : Trace} (h : t.Unindented t') (formatter : Formatter) :
    (t'.formatted formatter).filterMap Event.shown? =
      (t.formatted formatter).filterMap Event.shown? := by
  induction h with
  | ended fault => rfl
  | @event e e' rest rest' he _ ih =>
    have hshown : e'.shown? = e.shown? := by cases he <;> rfl
    have hcontent := he.content formatter
    simp only [Trace.formatted]
    generalize Event.content formatter e = x at hcontent ⊢
    generalize Event.content formatter e' = y at hcontent ⊢
    cases hcontent with
    | error hfault => simp only [List.filterMap_cons, hshown, List.filterMap_nil]
    | ok hcontent => simp only [List.filterMap_cons, hshown, ih]

/-! ## Renderings -/

/-- **Indentation adds spaces and tabs to what is rendered, and changes nothing else.** A program
that compiles is rendered with the indentations of its inclusions and without any, in the main
sequence and in all others, with any data, formatter and greatest depth of inclusion. Both
renderings fail in the same way or not at all, and both show the same values in the same order. All
that is written with the indentations is what is written without them, with spaces and tabs put in,
so without spaces and tabs both texts are the same.

**Proof sketch.** In front of a tag that stands alone on its line are spaces and tabs, and so is an
indentation, with those of the templates around. Both programs are evaluated to traces that
correspond event by event, and neither the texts nor what is put in front of a line differ in
more than these. -/
theorem Engine.render_unindented {e : Engine} {own : Option String} {source : String} {p : Program}
    (h : (e.compile own source).outcome = .ok p) (renderer : Engine) (limit : Option Nat) :
    (∀ root : Value,
      (renderer.render p.unindented limit root).fault = (renderer.render p limit root).fault ∧
      ((p.unindented.run (limit.getD renderer.limit) root).formatted
          renderer.formatter).filterMap Event.shown? =
        ((p.run (limit.getD renderer.limit) root).formatted
          renderer.formatter).filterMap Event.shown? ∧
      Spaced (String.join (renderer.render p.unindented limit root).pieces).toList
        (String.join (renderer.render p limit root).pieces).toList ∧
      squeezed (String.join (renderer.render p limit root).pieces) =
        squeezed (String.join (renderer.render p.unindented limit root).pieces)) ∧
    ∀ data : Except DatumFault Value,
      (renderer.renderText p limit data).map squeezed =
        (renderer.renderText p.unindented limit data).map squeezed := by
  have hp := compile_isSequenced h
  have htrace : ∀ root, (p.run (limit.getD renderer.limit) root).Unindented
      (p.unindented.run (limit.getD renderer.limit) root) := by
    intro root
    rw [hp.run_eq, hp.unindented.run_eq]
    exact (compile_indentsOnly h).evaluate _ root
  have houtput : ∀ root,
      (renderer.render p.unindented limit root).fault = (renderer.render p limit root).fault ∧
      Spaced (String.join (renderer.render p.unindented limit root).pieces).toList
        (String.join (renderer.render p limit root).pieces).toList := fun root =>
    (htrace root).outputFrom renderer.formatter true true
  refine ⟨fun root => ?_, fun data => ?_⟩
  · obtain ⟨hfault, hspaced⟩ := houtput root
    exact ⟨hfault, (htrace root).shown_eq renderer.formatter, hspaced, hspaced.squeezed_eq⟩
  · cases data with
    | error fault => rfl
    | ok root =>
      obtain ⟨hfault, hspaced⟩ := houtput root
      rw [renderText_eq, renderText_eq, hfault]
      cases (renderer.render p limit root).fault with
      | some fault => rfl
      | none => exact congrArg Except.ok hspaced.squeezed_eq

/-- An indented template that includes another indented one, with texts of more than one line, and a
value at the start of a line. -/
theorem render_unindented_on_nested :
    ∃ (e : Engine) (source : String) (p : Program) (root : Value),
      (e.compile none source).outcome = .ok p ∧
      e.renderText p none (.ok root) = .ok "a\n  x\n  \t1\n  \t2\n  v w\n  y\nb" ∧
      e.renderText p.unindented none (.ok root) = .ok "a\nx\n1\n2\nv w\ny\nb" ∧
      squeezed (String.join (e.render p none root).pieces) =
        squeezed (String.join (e.render p.unindented none root).pieces) := by
  let e : Engine := { loader := some ⟨.ofList [("q", .ok "1\n2\n"),
    ("p", .ok "x\n\t\x7b\x7b> q \x7d\x7d\n\x7b\x7bv\x7d\x7d\ny\n")]⟩ }
  let root : Value := .map [("v", .string "v w")]
  have hrun : (e.compile none "a\n  \x7b\x7b> p \x7d\x7d\nb").outcome.toOption.map (fun p =>
      (e.renderText p none (.ok root), e.renderText p.unindented none (.ok root))) =
      some (.ok "a\n  x\n  \t1\n  \t2\n  v w\n  y\nb", .ok "a\nx\n1\n2\nv w\ny\nb") := by
    decide +kernel
  obtain ⟨p, hp, htexts⟩ := exists_of_toOption_map_eq_some hrun
  obtain ⟨hplain, hunindented⟩ := Prod.mk.inj htexts
  obtain ⟨hroots, -⟩ := Engine.render_unindented hp e none
  exact ⟨e, _, p, root, hp, hplain, hunindented, (hroots root).2.2.2⟩

end Stencil
