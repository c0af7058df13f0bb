import Mathlib.Tactic.Lemma
import Stencil.Proofs.Code.Places
import Stencil.Proofs.Engine.Nesting

/-!
# Where the faults of compiling lie

Compiling stops with a fault at some moment. Then the template that is compiled innermost is
malformed, or it refers to a template that has no source. So the fault shows a part of this
template and names it, however far inside of others it is compiled.

## Main definitions

* `Engine.LeadsTo` — a chain of references, from a template to what it includes.
* `Cause.missing?` — the name of the template that is missing.
* `Engine.ShownAt` — a fault is shown where it belongs.

## Main results

* `Moment.Nested.leadsTo` — nested templates are chains of references.
* `Moment.Stops.shownAt` — a fault with which compiling stops is shown where it belongs.
* `Engine.compile_fault_shown` — each fault of compiling is shown where it belongs.
-/

namespace Stencil

open Stencil.Text Stencil.Markup

/-- A chain of references leads from a template to the text of one that it includes, over the
templates with the given names, the last one first. Each reference is a tag of the template
before. -/
inductive Engine.LeadsTo (e : Engine) (source : String) : List String → String → Prop
  /-- The template itself. -/
  | here : e.LeadsTo source [] source
  /-- A template that is included by the last one. -/
  | onward {names : List String} {text inner n : String} {span : Span}
      (h : e.LeadsTo source names text) (hshows : ShowsTag text.toList span (.inclusion n))
      (hinner : e.sourceOf n = .ok inner) : e.LeadsTo source (n :: names) inner

/-- The name of the template that is missing or cannot be read, if that is the cause. -/
def Cause.missing? : Cause → Option String
  | .unknownPartial name => some name
  | .unreadablePartial name _ => some name
  | _ => none

/-- The fault with which compiling stops at a moment is shown at a place where it belongs. -/
structure Engine.ShownAt (e : Engine) (source : String) (m : Moment) (f : Fault)
    (place : Place) : Prop where
  /-- The range is that of a part of the text that is not empty. -/
  covers : ∃ part, part ≠ [] ∧ place.span.Covers place.source.toList part
  /-- The innermost template is named. -/
  name_eq : f.name = Moment.nameIn m.outer
  /-- The text is that of the innermost template. -/
  source_eq : place.source = m.task.source
  /-- A fault without a name is shown in the template itself. -/
  outermost : f.name = none → place.source = source
  /-- A fault with a name is shown in the source of the template with this name. -/
  included : ∀ n, f.name = some n → e.sourceOf n = .ok place.source
  /-- The templates that are being compiled are a chain of references. -/
  leads : e.LeadsTo source (m.outer.map Waiting.name) place.source
  /-- A template that is missing is shown at a tag that refers to it. -/
  missing : ∀ n, f.cause.missing? = some n →
    ShowsTag place.source.toList place.span (.inclusion n) ∧ e.sourceOf n = .error f.cause
  /-- Any other fault is the one that the text has on its own. -/
  malformed : f.cause.missing? = none → ∃ fault, f.cause = fault.cause ∧
    (Draft.ofText place.source.toList).outcome = .error ⟨fault, some place.span⟩

/-- A malformed text is no missing template. -/
lemma DraftFault.missing?_cause (fault : DraftFault) : fault.cause.missing? = none := by
  cases fault <;> rfl

/-- The reason why a template has no source names the template. -/
lemma Engine.missing?_of_sourceOf {e : Engine} {n : String} {cause : Cause}
    (h : e.sourceOf n = .error cause) : cause.missing? = some n := by
  unfold sourceOf at h
  split at h
  · cases h
  · cases h
    rfl
  · split at h
    · cases h
    · split at h <;> cases h <;> rfl

namespace Moment

variable {e : Engine} {own : Option String} {source : String} {task : Task}
  {outer : List Waiting} {m : Moment} {st : Linkage} {f : Fault}

/-- **Nested templates are chains of references.** -/
theorem Nested.leadsTo (h : Nested e.shelf own source task outer) :
    e.LeadsTo source (outer.map Waiting.name) task.source := by
  induction h with
  | outermost => exact .here
  | included _ href _ htext _ ih =>
    obtain ⟨span, -, hshows⟩ := Draft.reference_showsTag href
    exact .onward ih hshows htext

/-- The text of the outermost template is the template itself. -/
lemma Nested.source_eq (h : Nested e.shelf own source task outer) (hname : nameIn outer = none) :
    task.source = source := by
  cases h with
  | outermost => rfl
  | included => cases hname

/-- The text of an included template is what there is under its name. -/
lemma Nested.sourceOf_eq {n : String} (h : Nested e.shelf own source task outer)
    (hname : nameIn outer = some n) : e.sourceOf n = .ok task.source := by
  cases h with
  | outermost => cases hname
  | included _ _ _ htext =>
    cases hname
    exact htext

/-- **A fault with which compiling stops is shown where it belongs.**

**Proof sketch.** A reference that has no source shows the tag that it stems from, and a text that
has no sequence has a fault that shows a part of it. Both are shown in the innermost template. -/
theorem Stops.shownAt (hstops : Stops e.shelf own m (st, .error f))
    (h : Nested e.shelf own source m.task m.outer) :
    ∃ place, f.place = some place ∧ e.ShownAt source m f place := by
  cases hstops with
  | @missing text r rest outer st₀ cause hnew hcause =>
    obtain ⟨span, hspan, hshows⟩ := Draft.reference_showsTag (h.left_subset List.mem_cons_self)
    obtain ⟨piece, -, -, hne, hcovers, -⟩ := id hshows
    have hmissing : cause.missing? = some r.name := Engine.missing?_of_sourceOf hcause
    refine ⟨⟨text, span⟩, by simp [hspan], ?_⟩
    exact
      { covers := ⟨piece.content, hne, hcovers⟩
        name_eq := rfl
        source_eq := rfl
        outermost := h.source_eq
        included := fun n => h.sourceOf_eq
        leads := h.leadsTo
        missing := by
          intro n hn
          obtain rfl : r.name = n := Option.some.inj (hmissing.symm.trans hn)
          exact ⟨hshows, hcause⟩
        malformed := fun hnone => by simp [hmissing] at hnone }
  | @malformed text outer _ error hdraft =>
    obtain ⟨span, part, hspan, hstarts, hcovers⟩ := Draft.error_covers hdraft
    refine ⟨⟨text, span⟩, by simp [DraftError.toFault, hspan], ?_⟩
    exact
      { covers := ⟨part, hstarts.ne_nil, hcovers⟩
        name_eq := rfl
        source_eq := rfl
        outermost := h.source_eq
        included := fun n => h.sourceOf_eq
        leads := h.leadsTo
        missing := by
          intro n hn
          have hnone : error.fault.cause.missing? = some n := hn
          simp [DraftFault.missing?_cause] at hnone
        malformed := fun _ => ⟨error.fault, rfl, hspan ▸ hdraft⟩ }

end Moment

/-- A fault of compiling is one with which the loop stops at some moment. -/
lemma Engine.exists_stops {e : Engine} {own : Option String} {source : String} {f : Fault}
    (h : (e.compile own source).outcome = .error f) :
    ∃ m st, Passes (Moment.step e.shelf own) (.start source) m ∧
      Moment.Stops e.shelf own m (st, .error f) := by
  obtain ⟨k, st, outcome, hends, hcompile⟩ := e.compile_endsIn own source
  have houtcome : outcome = .error f := by
    rw [hcompile] at h
    cases outcome with
    | error fault =>
      cases h
      rfl
    | ok s => cases h
  subst houtcome
  obtain ⟨m, hpasses, hlast⟩ := hends.exists_last
  exact ⟨m, st, hpasses, Moment.step_eq_inl.1 hlast⟩

/-- **Each fault of compiling is shown where it belongs.** It shows a part of a text, not empty
and between characters. This text is that of the template that is compiled innermost at the
moment at which compiling stops, which is the one that the fault names if it is an included one,
and it is reached by a chain of references. A template that is missing or cannot be read is shown
at a tag that refers to it.

**Proof sketch.** What is compiled is what the loop ends with, so there is a moment at which the
loop stops with the fault, and at this moment templates are nested. -/
theorem Engine.compile_fault_shown {e : Engine} {own : Option String} {source : String} {f : Fault}
    (h : (e.compile own source).outcome = .error f) :
    ∃ m place, Passes (Moment.step e.shelf own) (.start source) m ∧
      (∃ st, m.step e.shelf own = .inl (st, .error f)) ∧
      f.place = some place ∧ e.ShownAt source m f place := by
  obtain ⟨m, st, hpasses, hstops⟩ := exists_stops h
  obtain ⟨place, hplace, hshown⟩ := hstops.shownAt (Moment.Nested.of_passes hpasses)
  exact ⟨m, place, hpasses, ⟨st, Moment.step_eq_inl.2 hstops⟩, hplace, hshown⟩

/-- A section that is left open behind a letter of two bytes, in a template that is included by
an included one: the inner template is named, and its own text shows the tag. -/
theorem compile_fault_shown_on_nested :
    ∃ (e : Engine) (source : String) (f : Fault),
      e.sourceOf "outer" = .ok "\x7b\x7b> inner \x7d\x7d" ∧
      e.sourceOf "inner" = .ok "é\x7b\x7b#a\x7d\x7d" ∧
      (e.compile none source).outcome = .error f ∧
      f = ⟨.unclosed "a", some "inner", some ⟨"é\x7b\x7b#a\x7d\x7d", ⟨2, 8⟩⟩⟩ ∧
      ∃ m, Passes (Moment.step e.shelf none) (.start source) m ∧
        e.ShownAt source m f ⟨"é\x7b\x7b#a\x7d\x7d", ⟨2, 8⟩⟩ := by
  let e : Engine := { loader := some ⟨.ofList [("outer", .ok "\x7b\x7b> inner \x7d\x7d"),
    ("inner", .ok "é\x7b\x7b#a\x7d\x7d")]⟩ }
  have hcompile : (e.compile none "x\n\x7b\x7b> outer \x7d\x7d\n").outcome =
      .error ⟨.unclosed "a", some "inner", some ⟨"é\x7b\x7b#a\x7d\x7d", ⟨2, 8⟩⟩⟩ := by
    decide +kernel
  obtain ⟨m, place, hpasses, -, hplace, hshown⟩ := Engine.compile_fault_shown hcompile
  cases hplace
  exact ⟨e, _, _, by decide +kernel, by decide +kernel, hcompile, rfl, m, hpasses, hshown⟩

end Stencil
