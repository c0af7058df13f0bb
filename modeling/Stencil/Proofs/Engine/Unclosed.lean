import Mathlib.Tactic.Lemma
import Stencil.Proofs.Code.Unclosed
import Stencil.Proofs.Engine.Whereabouts

/-!
# Compiling templates of which sections are left open

The fault that a template has on its own is the one with which compiling ends, if whatever the
template needs is there and well-formed. So a template of which only sections are left open fails
with the innermost of them, shown at its opening tag. A sequence is only finished where no section
is open, so compiling never fails for this reason.

## Main results

* `Moment.Nested.needed` — a template that is compiled inside of others is needed.
* `Engine.compile_of_draft_error` — the fault with which compiling ends.
* `Engine.compile_kind_ne_contractViolation` — compiling never breaks a contract.
* `Engine.open_tags_are_open_sections` — the tags and the sections that are open, and what follows
  for templates that end too early.
-/

namespace Stencil

open Stencil.Text Stencil.Markup

/-- What a template refers to is found by a scan of it. -/
lemma Draft.name_mem_included {cs : List Char} {r : Reference}
    (h : r ∈ (Draft.ofText cs).references) : r.name ∈ (Scan.ofText cs).included := by
  obtain ⟨span, -, piece, hpiece, -, -, -, m, hm, hbody⟩ := reference_showsTag h
  refine List.mem_filterMap.2 ⟨.inclusion r.name, ?_, rfl⟩
  refine List.mem_filterMap.2 ⟨m, List.mem_filterMap.2 ⟨piece, hpiece, hm⟩, ?_⟩
  rw [hbody]
  rfl

/-- **A template that is compiled inside of others is needed** by the outermost one. -/
theorem Moment.Nested.needed {e : Engine} {own : Option String} {source : String} {task : Task}
    {outer : List Waiting} (h : Nested e.shelf own source task outer) {r : Reference}
    (hr : r ∈ (Task.start task.source).left) (hchain : r.name ∉ chainOf own outer) :
    e.Needed own (Scan.ofText source.toList).included r.name := by
  have hown : ∀ {outer : List Waiting} {n : String}, n ∉ chainOf own outer → own ≠ some n := by
    rintro outer n hn rfl
    exact hn (List.mem_append_right _ (List.mem_singleton.2 rfl))
  induction h generalizing r with
  | outermost => exact .root (Draft.name_mem_included hr) (hown hchain)
  | included _ href hbefore htext _ ih =>
    exact .step (ih href hbefore) htext (Draft.name_mem_included hr) (hown hchain)

namespace Engine

variable {e : Engine} {name : Option String} {source : String}

/-- **The fault with which compiling ends** is the one that the template has on its own, if
whatever it needs is there and well-formed.

**Proof sketch.** At the moment at which compiling stops, the innermost template has a reference
without a source, or a fault of its own. What is compiled inside of others has neither. -/
theorem compile_of_draft_error {error : DraftError}
    (hneeded : ∀ n, e.Needed name (Scan.ofText source.toList).included n →
      ∃ text, e.sourceOf n = .ok text ∧ (Scan.ofText text.toList).IsWellFormed)
    (h : (Draft.ofText source.toList).outcome = .error error) :
    (e.compile name source).outcome = .error (error.toFault source) := by
  cases hcompile : (e.compile name source).outcome with
  | ok p =>
    obtain ⟨main, -, hmain, -⟩ := compile_eq_ok hcompile
    rw [h] at hmain
    cases hmain
  | error fault =>
    obtain ⟨m, st, hpasses, hstops⟩ := exists_stops hcompile
    have hnested := Moment.Nested.of_passes hpasses
    cases hstops with
    | missing hnew hcause =>
      have hn := hnested.needed (hnested.left_subset List.mem_cons_self)
        fun hchain => hnew (.inr hchain)
      obtain ⟨text, htext, -⟩ := hneeded _ hn
      rw [show e.shelf.sourceOf = e.sourceOf from rfl, htext] at hcause
      cases hcause
    | malformed hdraft =>
      cases hnested with
      | outermost =>
        rw [h] at hdraft
        cases hdraft
        rfl
      | included hbefore href hchain htext =>
        obtain ⟨text, htext', hwell⟩ := hneeded _ (hbefore.needed href hchain)
        obtain rfl := Except.ok.inj (htext'.symm.trans htext)
        obtain ⟨s, hs⟩ := (Draft.exists_sequence_iff _).2 hwell
        rw [hs] at hdraft
        cases hdraft

/-- **Compiling never breaks a contract**: a sequence is only finished where no section is open and
there is an instruction. -/
theorem compile_kind_ne_contractViolation {f : Fault}
    (h : (e.compile name source).outcome = .error f) : f.kind ≠ .contractViolation := by
  obtain ⟨m, place, -, -, -, hshown⟩ := compile_fault_shown h
  cases hmissing : f.cause.missing? with
  | some n =>
    intro hkind
    cases hcause : f.cause <;> simp_all [Cause.missing?, Fault.kind, Cause.kind]
  | none =>
    obtain ⟨fault, hcause, hdraft⟩ := hshown.malformed hmissing
    rw [Fault.kind, hcause]
    exact Draft.kind_ne_contractViolation hdraft

/-- **A fault that names a section that is left open** shows a template of which only sections are
left open, which may be an included one, and it names and shows the innermost of them. -/
theorem exists_isUnclosedAt {f : Fault} {n : String}
    (h : (e.compile name source).outcome = .error f) (hcause : f.cause = .unclosed n) :
    ∃ text piece path, f.place = some ⟨text, piece.span⟩ ∧
      (Scan.ofText text.toList).IsUnclosedAt piece path ∧ n = path.text := by
  obtain ⟨m, ⟨text, span⟩, -, -, hplace, hshown⟩ := compile_fault_shown h
  obtain ⟨fault, hfault, hdraft⟩ := hshown.malformed (by rw [hcause]; rfl)
  rw [hcause] at hfault
  obtain rfl : fault = .unclosed n := by
    cases fault <;> cases hfault
    rfl
  obtain ⟨piece, path, hunclosed, hname, hspan⟩ := Draft.exists_isUnclosedAt hdraft
  obtain rfl := Option.some.inj hspan
  exact ⟨text, piece, path, hplace, hunclosed, hname⟩

/-- **The section tags that are open belong to the sections that are open.** Let a template be read
up to somewhere between two rows, so that no item waits for its row to be complete, and let all
steps of the complete rows fit; these steps are the first ones of the template. Then there are as
many section tags open as sections, and the section at each place was opened by the step of the tag
at the same place.

If nothing is wrong with a template but that sections are left open, and what it needs is there and
well-formed, then compiling it fails with a mismatch of sections. The fault names the innermost
section that is left open, and its place is the opening tag of this section. Conversely, a fault
that names a section that is left open shows such a template, which may be an included one.
Compiling never fails because a sequence was not meant to be finished.

**Proof sketch.** The section tags that are open are told from the items that were read, and the
sections from the steps that were taken; between two rows these have the same section tags. At the
end of the template, the first entries of both are the innermost section and its opening tag. -/
theorem open_tags_are_open_sections (e : Engine) (name : Option String) (source : String) :
    (∀ (m : Stage) (b : Builder), m.IsReached source.toList → m.reader.recent = [] →
        Builder.empty.extend (m.steps.map Step.instr) = .ok b →
          m.steps <+: stepsOf (Reading.ofText source.toList).rows ∧
          List.Forall₂ (fun span o => ∃ inverted,
            m.steps[o.2]? = some ⟨.openSection inverted o.1 Instr.unresolved, some span⟩ ∧
            ShowsTag source.toList span (.opening inverted o.1)) m.reader.opened b.opened) ∧
      (∀ piece path, (Scan.ofText source.toList).IsUnclosedAt piece path →
        (∀ n, e.Needed name (Scan.ofText source.toList).included n →
          ∃ text, e.sourceOf n = .ok text ∧ (Scan.ofText text.toList).IsWellFormed) →
        ∃ f, (e.compile name source).outcome = .error f ∧ f.kind = .sectionMismatch ∧
          f = ⟨.unclosed path.text, none, some ⟨source, piece.span⟩⟩) ∧
      ∀ f, (e.compile name source).outcome = .error f → f.kind ≠ .contractViolation ∧
        ∀ n, f.cause = .unclosed n → ∃ text piece path, f.place = some ⟨text, piece.span⟩ ∧
          (Scan.ofText text.toList).IsUnclosedAt piece path ∧ n = path.text := by
  refine ⟨fun m b hm hrecent hb => ⟨hm.steps_prefix, hm.forall₂_opened hrecent hb⟩, ?_, ?_⟩
  · intro piece path hunclosed hneeded
    exact ⟨_, compile_of_draft_error hneeded (Draft.outcome_of_isUnclosedAt hunclosed), rfl, rfl⟩
  · intro f hf
    exact ⟨compile_kind_ne_contractViolation hf, fun n => exists_isUnclosedAt hf⟩

end Engine

/-- Two sections that are left open, of which the inner one stands alone in its row and is followed
by a section that is closed. In the outer one, another template is included. -/
theorem open_tags_are_open_sections_on_nested :
    ∃ (e : Engine) (source : String) (m : Stage) (b : Builder) (s t : Path) (piece : Piece),
      source = "a\n\x7b\x7b#s\x7d\x7db\x7b\x7b>p\x7d\x7d\n \x7b\x7b^t.u\x7d\x7d\n" ++
        "\x7b\x7b#v\x7d\x7d\x7b\x7b/v\x7d\x7dc" ∧
      m.IsReached source.toList ∧ m.reader.recent = [] ∧
      Builder.empty.extend (m.steps.map Step.instr) = .ok b ∧
      m.reader.opened = [⟨17, 25⟩, ⟨2, 8⟩] ∧ b.opened = [(t, 5), (s, 1)] ∧
      List.Forall₂ (fun span o => ∃ inverted,
        m.steps[o.2]? = some ⟨.openSection inverted o.1 Instr.unresolved, some span⟩ ∧
        ShowsTag source.toList span (.opening inverted o.1)) m.reader.opened b.opened ∧
      (Scan.ofText source.toList).IsUnclosedAt piece t ∧ t.text = "t.u" ∧
      (∀ n, e.Needed none (Scan.ofText source.toList).included n →
        ∃ text, e.sourceOf n = .ok text ∧ (Scan.ofText text.toList).IsWellFormed) ∧
      (e.compile none source).outcome =
        .error ⟨.unclosed "t.u", none, some ⟨source, ⟨17, 25⟩⟩⟩ := by
  let e : Engine := { loader := some ⟨.ofList [("p", .ok "\x7b\x7bx\x7d\x7d")]⟩ }
  let source := "a\n\x7b\x7b#s\x7d\x7db\x7b\x7b>p\x7d\x7d\n \x7b\x7b^t.u\x7d\x7d\n" ++
    "\x7b\x7b#v\x7d\x7d\x7b\x7b/v\x7d\x7dc"
  let s : Path := ⟨["s"], by decide⟩
  let t : Path := ⟨["t", "u"], by decide⟩
  have hending : (Reading.ofText source.toList).ending = .ok [⟨17, 25⟩, ⟨2, 8⟩] := by
    decide +kernel
  obtain ⟨m, hm, hrows, hrecent, hopened⟩ := Stage.exists_isReached_end hending
  have hsteps : (Builder.empty.extend (m.steps.map Step.instr)).toOption.map Builder.opened =
      some [(t, 5), (s, 1)] := by
    rw [Stage.steps, hrows]
    decide +kernel
  obtain ⟨b, hb, hsections⟩ := exists_of_toOption_map_eq_some hsteps
  have hfits : unwind [] (sectionEnds (readings (Scan.ofText source.toList).tags)) =
      some [t, s] := by
    decide +kernel
  obtain ⟨piece, hpiece⟩ := Scan.IsUnclosedAt.exists_of_unwind hending hfits
  have hspan : piece.span = ⟨17, 25⟩ := by
    obtain ⟨spans, hspans⟩ := hpiece.exists_ending
    rw [hending] at hspans
    exact (List.cons.inj (Except.ok.inj hspans)).1.symm
  have hneeded : ∀ n, e.Needed none (Scan.ofText source.toList).included n →
      ∃ text, e.sourceOf n = .ok text ∧ (Scan.ofText text.toList).IsWellFormed := by
    -- a template that compiles refers to the same one
    have hincluded : (Scan.ofText source.toList).included =
        (Scan.ofText "\x7b\x7b>p\x7d\x7d".toList).included := by decide +kernel
    have hrun : (e.compile none "\x7b\x7b>p\x7d\x7d").outcome.toOption.map Program.source =
        some "\x7b\x7b>p\x7d\x7d" := by decide +kernel
    obtain ⟨p, hp, -⟩ := exists_of_toOption_map_eq_some hrun
    rw [hincluded]
    exact ((e.exists_program_iff none _).1 ⟨p, hp⟩).2
  obtain ⟨hbetween, hfails, -⟩ := e.open_tags_are_open_sections none source
  obtain ⟨f, hf, -, hplace⟩ := hfails piece t hpiece hneeded
  rw [hplace, hspan] at hf
  exact ⟨e, source, m, b, s, t, piece, rfl, hm, hrecent, hb, hopened, hsections,
    (hbetween m b hm hrecent hb).2, hpiece, by decide +kernel, hneeded, hf⟩

end Stencil
