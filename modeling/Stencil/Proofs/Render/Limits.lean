import Mathlib.Tactic.Lemma
import Stencil.Proofs.Render.Deliveries
import Stencil.Proofs.Render.Literals
import Stencil.Proofs.Render.Termination

/-!
# Raising the greatest depth of inclusion

The greatest depth of inclusion plays no part in a rendering before an inclusion lies too deep. So
with a greater depth a rendering does all that it did before, and goes on where it failed.

## Main definitions

* `Trace.CutAt` — a trace that may end early, at an inclusion that lies too deep.

## Main results

* `evalAt_cutAt` — evaluating with less depth cuts the trace at such an inclusion.
* `Trace.CutAt.outputFrom` — the output of a trace that ends early.
* `Written.deliverFrom_bytes_mono` — a sink accepts no less if more is written behind.
* `Program.IsSequenced.rendering_of_limit_le` — renderings with two greatest depths.
-/

namespace Stencil

/-! ## Traces -/

/-- The first trace is the second one, or the part of it in front of an inclusion that lies too deep
for the given greatest depth. -/
inductive Trace.CutAt (limit : Nat) : Trace → Trace → Prop where
  | tooDeep (name : String) (t : Trace) :
      CutAt limit (.ended (some (.cursor (.tooDeep limit name)))) t
  | ended (fault : Option RunFault) : CutAt limit (.ended fault) (.ended fault)
  | event (e : Event) {rest rest' : Unit → Trace} : CutAt limit (rest ()) (rest' ()) →
      CutAt limit (.event e rest) (.event e rest')

/-- The same event in front of both traces leaves the place where the first one ends. -/
lemma Trace.CutAt.isKept (limit : Nat) (indent : String) :
    Trace.IsKept (Trace.CutAt limit) Eq indent indent where
  text := by
    rintro content _ rest rest' rfl h
    exact .event _ h
  value _ _ _ _ h := .event _ h
  opened _ _ _ _ _ h := .event _ h
  closed _ _ _ _ h := .event _ h

/-- Instructions and themselves differ in no literal. -/
lemma Instr.matches_refl (i : Instr) : i.Matches Eq Eq i := by
  cases i with
  | text content => exact .text rfl
  | interpolate escaped path => exact .interpolate escaped path
  | openSection inverted path target => exact .openSection inverted path target
  | closeSection path target => exact .closeSection path target
  | enter name indent => exact .enter name rfl

/-- **Evaluating with less depth** cuts the trace at an inclusion that lies too deep.

**Proof sketch.** Induction on the levels that are left for the smaller depth. On the last level, an
inclusion ends the first trace, whatever the second one does there. -/
theorem evalAt_cutAt (p : Program) (limit limit' : Nat) {left left' : Nat} (hle : left ≤ left') :
    ∀ s indent, EvaluatesAs (Trace.CutAt limit) (evalAt p limit left s indent)
      (evalAt p limit' left' s indent) := by
  have hself : ∀ s : Sequence, List.Forall₂ (Node.Matches Eq Eq) s.outline s.outline := fun s =>
    outline_matches (List.forall₂_same.2 fun i _ => i.matches_refl)
  induction left generalizing left' with
  | zero =>
    intro s indent
    cases left' with
    | zero | succ _ =>
      exact evalNodes_matches (Trace.CutAt.isKept limit indent)
        (fun name _ _ _ _ _ _ _ => .tooDeep name _) _ _ (hself s)
  | succ left ih =>
    intro s indent
    obtain ⟨left', rfl⟩ := Nat.exists_eq_succ_of_ne_zero (Nat.ne_zero_of_lt hle)
    refine evalNodes_matches (Trace.CutAt.isKept limit indent) ?_ _ _ (hself s)
    rintro name more _ rfl
    exact ih (Nat.le_of_succ_le_succ hle) _ _

/-! ## Output -/

/-- **The output of a trace that ends early** is that of the whole trace, or ends with an inclusion
that lies too deep and has a first part of the texts. A fault of the formatter may come before. -/
theorem Trace.CutAt.outputFrom {limit : Nat} {t t' : Trace} (h : t.CutAt limit t')
    (formatter : Formatter) (lineStart : Bool) :
    t'.outputFrom formatter lineStart = t.outputFrom formatter lineStart ∨
      (∃ name, (t.outputFrom formatter lineStart).fault =
        some (.run (.cursor (.tooDeep limit name)))) ∧
        (t.outputFrom formatter lineStart).pieces <+:
          (t'.outputFrom formatter lineStart).pieces := by
  induction h generalizing lineStart with
  | tooDeep name t => exact .inr ⟨⟨name, rfl⟩, List.nil_prefix⟩
  | ended fault => exact .inl rfl
  | event e _ ih =>
    simp only [Trace.outputFrom]
    cases e.content formatter with
    | error fault => exact .inl rfl
    | ok content? =>
      cases content? with
      | none => exact ih lineStart
      | some found =>
        obtain ⟨indent, content⟩ := found
        simp only [Written.fault_behind, Written.pieces_behind, List.prefix_append_right_inj]
        refine (ih (startsLine lineStart content)).imp (fun hsame => ?_) id
        rw [hsame]

/-- **A sink accepts no less if more is written behind.** -/
theorem Written.deliverFrom_bytes_mono {w w' : Written} (h : w.pieces <+: w'.pieces) (sink : Sink)
    (calls : Nat) : (w.deliverFrom sink calls).1.bytes <+: (w'.deliverFrom sink calls).1.bytes := by
  induction w generalizing w' calls with
  | ended fault => exact List.nil_prefix
  | piece content rest ih =>
    cases w' with
    | ended fault => exact absurd (List.prefix_nil.1 h) (List.cons_ne_nil _ _)
    | piece content' rest' =>
      obtain ⟨rfl, hrest⟩ := List.cons_prefix_cons.1 h
      cases hfault : (sink.deliver calls (utf8Bytes content)).fault with
      | some fault =>
        have hsame : ((piece content rest).deliverFrom sink calls).1 =
            ((piece content rest').deliverFrom sink calls).1 := by
          rw [deliverFrom_piece_of_some hfault, deliverFrom_piece_of_some hfault]
        exact hsame ▸ List.prefix_rfl
      | none =>
        rw [deliverFrom_piece_of_none hfault, deliverFrom_piece_of_none hfault]
        exact (List.prefix_append_right_inj _).2 (ih () hrest _)

/-! ## Renderings -/

namespace Program.IsSequenced

variable {p : Program}

/-- The outputs of a program with two greatest depths. -/
lemma render_of_limit_le (hp : p.IsSequenced) (e : Engine) {limit limit' : Nat}
    (hle : limit ≤ limit') (root : Value) :
    e.render p (some limit') root = e.render p (some limit) root ∨
      (∃ name, (e.render p (some limit) root).fault =
        some (.run (.cursor (.tooDeep limit name)))) ∧
        (e.render p (some limit) root).pieces <+: (e.render p (some limit') root).pieces := by
  rw [hp.render_eq, hp.render_eq]
  have hcut : (p.evaluate limit root).CutAt limit (p.evaluate limit' root) :=
    evalAt_cutAt p limit limit' hle p.main "" [root] _ _ (.ended none)
  exact hcut.outputFrom e.formatter true

/-- **Raising the greatest depth of inclusion.** Either nothing changes, or the rendering failed at
an inclusion that lay too deep. In both cases all that was written is written again, text by text,
and perhaps more behind it, and a sink accepts no less than before. A rendering that ends well gives
the same text with every greater depth, and so it does when it is written to a sink.

**Proof sketch.** Evaluating with less depth cuts the trace at an inclusion that lies too deep, so
the output ends there, if no value that cannot be formatted comes before. -/
theorem rendering_of_limit_le (hp : p.IsSequenced) (e : Engine) {limit limit' : Nat}
    (hle : limit ≤ limit') (root : Value) :
    (e.render p (some limit') root = e.render p (some limit) root ∨
      ∃ name, (e.render p (some limit) root).fault =
        some (.run (.cursor (.tooDeep limit name)))) ∧
    (e.render p (some limit) root).pieces <+: (e.render p (some limit') root).pieces ∧
    (∃ more, String.join (e.render p (some limit') root).pieces =
      String.join (e.render p (some limit) root).pieces ++ more) ∧
    (∀ text, e.renderText p (some limit) (.ok root) = .ok text →
      e.renderText p (some limit') (.ok root) = .ok text) ∧
    ∀ sink : Sink,
      (e.renderTo p (some limit) (.ok root) sink).1.bytes <+:
        (e.renderTo p (some limit') (.ok root) sink).1.bytes ∧
      ((e.renderTo p (some limit) (.ok root) sink).2 = .ok () →
        e.renderTo p (some limit') (.ok root) sink =
          e.renderTo p (some limit) (.ok root) sink) := by
  have hcases := hp.render_of_limit_le e hle root
  have hpieces : (e.render p (some limit) root).pieces <+:
      (e.render p (some limit') root).pieces := by
    rcases hcases with hsame | ⟨-, hpieces⟩
    · exact hsame ▸ List.prefix_rfl
    · exact hpieces
  -- a rendering that ends well is not one that failed
  have hwell : ∀ text, e.renderText p (some limit) (.ok root) = .ok text →
      e.render p (some limit') root = e.render p (some limit) root := by
    intro text htext
    refine hcases.resolve_right ?_
    rintro ⟨⟨name, hname⟩, -⟩
    rw [Engine.renderText_eq, hname] at htext
    cases htext
  refine ⟨hcases.imp_right And.left, hpieces, ?_, fun text htext => ?_, fun sink => ⟨?_, ?_⟩⟩
  · obtain ⟨others, hothers⟩ := hpieces
    exact ⟨String.join others, by rw [← hothers, String.join_append]⟩
  · rwa [Engine.renderText, hwell text htext]
  · rw [Engine.renderTo_delivery, Engine.renderTo_delivery]
    exact Written.deliverFrom_bytes_mono hpieces sink 0
  · intro hsink
    obtain ⟨text, htext, -⟩ := (Engine.renderTo_eq_ok_iff e p (some limit) root sink).1 hsink
    rw [Engine.renderTo, hwell text htext]
    rfl

end Program.IsSequenced

/-- A template that includes itself for as long as the data goes on. -/
theorem rendering_of_limit_le_on_nested :
    ∃ (p : Program) (root : Value), p.IsSequenced ∧
      Engine.empty.renderText p (some 1) (.ok root) =
        .error (.ofCause (.run (.cursor (.tooDeep 1 "p")))) ∧
      (Engine.empty.render p (some 1) root).pieces = ["a\n", "  ", "b\n"] ∧
      (Engine.empty.render p (some 1) root).pieces <+:
        (Engine.empty.render p (some 2) root).pieces ∧
      Engine.empty.renderText p (some 2) (.ok root) = .ok "a\n  b\n    b\n" ∧
      Engine.empty.renderText p (some 64) (.ok root) = .ok "a\n  b\n    b\n" := by
  let main : Sequence := ⟨#[.text "a\n", .enter "p" "  "], by decide⟩
  let again : Sequence :=
    ⟨#[.text "b\n", .openSection false ⟨["s"], by decide⟩ 3, .enter "p" "  ",
      .closeSection ⟨["s"], by decide⟩ 1], by decide⟩
  let p : Program := ⟨"", main, .ofList [("p", again)]⟩
  let root : Value := .map [("s", .map [("s", .bool false)])]
  have hp : p.IsSequenced := Program.isSequenced_of_ofList (by decide +kernel)
  have htext : Engine.empty.renderText p (some 2) (.ok root) = .ok "a\n  b\n    b\n" := by
    decide +kernel
  obtain ⟨-, hpieces, -⟩ := hp.rendering_of_limit_le Engine.empty (Nat.le_succ 1) root
  obtain ⟨-, -, -, hmore, -⟩ := hp.rendering_of_limit_le Engine.empty
    (show 2 ≤ 64 by decide) root
  exact ⟨p, root, hp, by decide +kernel, by decide +kernel, hpieces, htext, hmore _ htext⟩

end Stencil
