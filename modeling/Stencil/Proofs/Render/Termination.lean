import Mathlib.Tactic.Lemma
import Stencil.Proofs.Loops
import Stencil.Proofs.Render.Agreement
import Stencil.Proofs.Render.Deliveries

/-!
# Renderings end

A rendering is a loop: as long as something is left, the cursor looks for the next instruction,
which is a loop of turns itself, the machine acts upon it, and what is to be written is handed
over. Nothing bounds these loops but the program and its data. They end all the same, whatever
the formatter does and wherever the texts go, also if templates include themselves without end
or include what nobody knows. What rendering to a text and to a sink give is what the loop ends
with.

## Main definitions

* `Cursor.seek` — one turn of the loop that looks for the next instruction.
* `Outlet` — where the texts of a rendering go: `Outlet.text`, `Outlet.sink`.
* `Rendering`, `Rendering.iterate` — one iteration of the rendering loop.

## Main results

* `Cursor.endsIn_next` — looking for the next instruction ends within a bound.
* `Machine.Runs.endsIn` — the rendering loop ends as its trace is written.
* `Program.IsSequenced.rendering_ends` — every rendering of a sequenced program ends.
-/

namespace Stencil

/-! ## Looking for the next instruction -/

namespace Cursor

variable {p : Program} {c : Cursor}

/-- One turn of the loop that looks for the next instruction: the answer, or the cursor from
where the loop goes on. -/
def seek (p : Program) (c : Cursor) : (Cursor × Except CursorFault Instr) ⊕ Cursor :=
  match c.turn p with
  | (c', some result) => .inl (c', result)
  | (c', none) => .inr c'

/-- A loop that yields something within some turns ends within them. -/
lemma endsIn_of_turns {n : Nat} {r : Cursor × Except CursorFault Instr}
    (h : c.turns p n = some r) : ∃ k ≤ n, EndsIn (seek p) c k r := by
  induction n generalizing c with
  | zero => cases h
  | succ n ih =>
    rw [turns] at h
    split at h
    · rename_i c' result hturn
      obtain rfl := Option.some.inj h
      exact ⟨1, by omega, .last (by rw [seek, hturn])⟩
    · rename_i c' hturn
      obtain ⟨k, hk, hends⟩ := ih h
      exact ⟨k + 1, by omega, .more (by rw [seek, hturn]) hends⟩

/-- **Looking for the next instruction ends** within as many turns as there are frames and
levels of inclusion, and one more. -/
theorem endsIn_next (p : Program) (c : Cursor) :
    ∃ n ≤ (c.outer.length + 1) + c.limit + 1, EndsIn (seek p) c n (c.next p) := by
  obtain ⟨r, hr⟩ := turns_turnBound p c
  have hnext : c.next p = r := by rw [next, hr, Option.getD_some]
  obtain ⟨n, hn, hends⟩ := endsIn_of_turns hr
  rw [turnBound, c.depth_eq] at hn
  exact ⟨n, by omega, hnext ▸ hends⟩

end Cursor

/-! ## Where the texts go -/

/-- Where the texts of a rendering go. It takes in one text after the other, and tells of each
whether it was taken in as a whole. -/
abbrev Outlet (δ : Type) := δ → String → δ × Bool

namespace Outlet

variable {δ : Type}

/-- The texts are put together. -/
def text : Outlet String := fun start content => (start ++ content, true)

/-- The texts are offered to a sink. -/
def sink (sink : Sink) : Outlet Delivery := fun d content =>
  let part := sink.deliver d.calls (utf8Bytes content)
  (⟨d.bytes ++ part.bytes, part.calls, part.fault⟩, part.fault.isNone)

/-- Hands over some texts, up to the first one that is not taken in. -/
def putAll (put : Outlet δ) : δ → List String → δ × Bool
  | d, [] => (d, true)
  | d, content :: more =>
    match put d content with
    | (d', true) => putAll put d' more
    | (d', false) => (d', false)

/-- Texts that are put together are all taken in. -/
lemma putAll_text (start : String) (texts : List String) :
    text.putAll start texts = (start ++ String.join texts, true) := by
  induction texts generalizing start with
  | nil => simp [putAll]
  | cons content more ih =>
    rw [String.join_cons, ← String.append_assoc]
    exact ih (start ++ content)

end Outlet

namespace Written

variable {δ : Type} {put : Outlet δ} {d : δ}

/-- Hands over an output. A text that is not taken in ends the rendering. -/
def handTo (put : Outlet δ) : δ → Written → δ × Option RenderFault
  | d, ended fault => (d, fault)
  | d, piece content rest =>
    match put d content with
    | (d', true) => handTo put d' (rest ())
    | (d', false) => (d', some (.format (.ofCause .unformattable)))

/-- Some texts in front are handed over first. -/
lemma handTo_behind (texts : List String) (rest : Unit → Written) :
    (behind texts rest).handTo put d =
      match put.putAll d texts with
      | (d', true) => (rest ()).handTo put d'
      | (d', false) => (d', some (.format (.ofCause .unformattable))) := by
  induction texts generalizing d with
  | nil => rfl
  | cons content more ih =>
    rw [behind, handTo, Outlet.putAll]
    rcases put d content with ⟨d', _ | _⟩
    · rfl
    · exact ih

/-- An output that is put together is its text, unless it ends with a fault. -/
lemma handTo_text (w : Written) (start : String) :
    w.handTo Outlet.text start = (start ++ String.join w.pieces, w.fault) := by
  induction w generalizing start with
  | ended fault => simp [handTo, pieces, Written.fault]
  | piece content rest ih =>
    rw [pieces, fault, String.join_cons, ← String.append_assoc]
    exact ih () (start ++ content)

/-- An output that is offered to a sink is what is delivered, behind what the sink accepted
before. -/
lemma handTo_sink (w : Written) (sink : Sink) (bytes : List UInt8) (calls : Nat) :
    w.handTo (Outlet.sink sink) ⟨bytes, calls, none⟩ =
      (⟨bytes ++ (w.deliverFrom sink calls).1.bytes, (w.deliverFrom sink calls).1.calls,
        (w.deliverFrom sink calls).1.fault⟩, (w.deliverFrom sink calls).2) := by
  induction w generalizing bytes calls with
  | ended fault => simp [handTo, deliverFrom]
  | piece content rest ih =>
    cases hfault : (sink.deliver calls (utf8Bytes content)).fault with
    | some fault =>
      rw [deliverFrom_piece_of_some hfault]
      simp [handTo, Outlet.sink, hfault]
    | none =>
      have hall := (Sink.deliver_fault_eq_none_iff sink calls (utf8Bytes content)).1 hfault
      rw [deliverFrom_piece_of_none hfault]
      simp [handTo, Outlet.sink, hfault, hall, ih]

/-- What is delivered by handing over an output from the first call on. -/
lemma deliverTo_fst (w : Written) (sink : Sink) :
    (w.deliverTo sink).1 = (w.deliverFrom sink 0).1 := rfl

end Written

/-! ## The rendering loop -/

/-- A rendering between two iterations of its loop. -/
structure Rendering (δ : Type) where
  machine : Machine
  /-- Whether what is written next starts a line. -/
  lineStart : Bool
  /-- The state of the outlet. -/
  outlet : δ

namespace Rendering

variable {δ : Type}

/-- A rendering in front of a program. -/
def start (p : Program) (limit : Nat) (root : Value) (d : δ) : Rendering δ :=
  ⟨.start p limit root, true, d⟩

/-- One iteration of the rendering loop. The loop ends if nothing is left to yield, if the step
of the machine fails, if a value cannot be formatted, or if a text is not taken in. -/
def iterate (p : Program) (f : Formatter) (put : Outlet δ) (s : Rendering δ) :
    (δ × Option RenderFault) ⊕ Rendering δ :=
  if s.machine.cursor.hasNext then
    match s.machine.step p with
    | .error fault => .inl (s.outlet, some (.run fault))
    | .ok (e, m') =>
      match e.content f with
      | .error fault => .inl (s.outlet, some (.format fault))
      | .ok none => .inr { s with machine := m' }
      | .ok (some (indent, content)) =>
        match put.putAll s.outlet (writes s.lineStart indent content) with
        | (d', true) => .inr ⟨m', startsLine s.lineStart content, d'⟩
        | (d', false) => .inl (d', some (.format (.ofCause .unformattable)))
  else .inl (s.outlet, none)

end Rendering

section RenderingLoop

variable {p : Program} {m : Machine} {t : Trace} {δ : Type}

/-- **The rendering loop ends as its trace is written**, in at most one iteration for each event
and one more.

**Proof sketch.** Induction on the run. Each event takes one iteration, after which the loop
goes on with the rest of the run, unless the formatter or the outlet fails before. -/
theorem Machine.Runs.endsIn (h : m.Runs p t) (f : Formatter) (put : Outlet δ) (lineStart : Bool)
    (d : δ) : ∃ n ≤ t.events.length + 1,
      EndsIn (Rendering.iterate p f put) ⟨m, lineStart, d⟩ n
        ((t.outputFrom f lineStart).handTo put d) := by
  induction h generalizing lineStart d with
  | ended m hdone => exact ⟨1, by omega, .last (by simp [Rendering.iterate, hdone]; rfl)⟩
  | failed m fault hmore hstep =>
    exact ⟨1, by omega, .last (by simp [Rendering.iterate, hmore, hstep]; rfl)⟩
  | event m m' e rest hmore hstep _ ih =>
    have hlength : (Trace.event e rest).events.length = (rest ()).events.length + 1 := rfl
    rw [hlength, Trace.outputFrom]
    cases hcontent : e.content f with
    | error fault =>
      exact ⟨1, by omega, .last (by simp [Rendering.iterate, hmore, hstep, hcontent]; rfl)⟩
    | ok written =>
      cases written with
      | none =>
        obtain ⟨n, hn, hends⟩ := ih lineStart d
        exact ⟨n + 1, by omega,
          .more (by simp [Rendering.iterate, hmore, hstep, hcontent]) hends⟩
      | some written =>
        obtain ⟨indent, content⟩ := written
        rw [Written.handTo_behind]
        rcases hput : put.putAll d (writes lineStart indent content) with ⟨d', _ | _⟩
        · -- the outlet does not take in all of the text
          exact ⟨1, by omega,
            .last (by simp [Rendering.iterate, hmore, hstep, hcontent, hput])⟩
        · obtain ⟨n, hn, hends⟩ := ih (startsLine lineStart content) d'
          exact ⟨n + 1, by omega,
            .more (by simp [Rendering.iterate, hmore, hstep, hcontent, hput]) hends⟩

end RenderingLoop

namespace Program.IsSequenced

variable {p : Program}

/-- A sequenced program has a run, which is its evaluation by structure. -/
lemma runs_evaluate (hp : p.IsSequenced) (limit : Nat) (root : Value) :
    (Machine.start p limit root).Runs p (p.evaluate limit root) := by
  have hfrom : RunsFrom p ⟨p.main, "", [], limit, 0⟩ (.ofRoot root) (p.evaluate limit root) :=
    runsFrom_evalAt hp limit ⟨p.main, "", [], limit, 0⟩ (.ofRoot root) (fun _ => .ended none)
      (hp p.main List.mem_cons_self) (Nat.zero_add limit)
      (RunsFrom.finished (instr?_at_size _) rfl)
  exact hfrom _ rfl rfl

/-- A sequenced program is run as it is evaluated. -/
lemma run_eq (hp : p.IsSequenced) (limit : Nat) (root : Value) :
    p.run limit root = p.evaluate limit root :=
  (hp.runs_evaluate limit root).run_eq

/-- The output of a rendering is that of the evaluation. -/
lemma render_eq (hp : p.IsSequenced) (e : Engine) (limit : Nat) (root : Value) :
    e.render p (some limit) root = (p.evaluate limit root).outputFrom e.formatter true := by
  rw [Engine.render, Option.getD_some, hp.run_eq]
  rfl

/-- **Every rendering of a sequenced program ends.** Whatever the formatter is and wherever the
texts go, the rendering loop ends, and the number of its iterations is bounded by the program,
its data and the greatest depth alone. Rendering to a text and to a sink give what the loop ends
with: a success or a fault. Within each iteration, looking for the next instruction ends within
as many turns as there are frames and levels of inclusion, and one more, whichever state the
cursor is in.

**Proof sketch.** The sequences of the program are evaluated by recursion on their trees, for
each level of inclusion that is left, and the evaluation is a run of the machine. So the machine
takes only as many steps as the evaluation has events. -/
theorem rendering_ends (hp : p.IsSequenced) (limit : Nat) (root : Value) :
    (∀ (f : Formatter) (δ : Type) (put : Outlet δ) (d : δ),
      ∃ n ≤ (p.evaluate limit root).events.length + 1, ∃ d' outcome,
        EndsIn (Rendering.iterate p f put) (.start p limit root d) n (d', outcome)) ∧
    (∀ e : Engine, ∃ n text outcome,
      EndsIn (Rendering.iterate p e.formatter Outlet.text) (.start p limit root "") n
        (text, outcome) ∧
      e.renderText p (some limit) (.ok root) =
        match outcome with
        | none => .ok text
        | some fault => .error fault.toFault) ∧
    (∀ (e : Engine) (sink : Sink), ∃ n delivery outcome,
      EndsIn (Rendering.iterate p e.formatter (Outlet.sink sink))
        (.start p limit root ⟨[], 0, none⟩) n (delivery, outcome) ∧
      e.renderTo p (some limit) (.ok root) sink =
        (delivery,
          match delivery.fault, outcome with
          | some fault, _ => .error (.ofCause (.transfer fault))
          | none, some fault => .error fault.toFault
          | none, none => .ok ())) ∧
    ∀ c : Cursor, ∃ n ≤ (c.outer.length + 1) + c.limit + 1,
      EndsIn (Cursor.seek p) c n (c.next p) := by
  have hruns := hp.runs_evaluate limit root
  refine ⟨fun f δ put d => ?_, fun e => ?_, fun e sink => ?_, Cursor.endsIn_next p⟩
  · obtain ⟨n, hn, hends⟩ := hruns.endsIn f put true d
    exact ⟨n, hn, _, _, hends⟩
  · obtain ⟨n, -, hends⟩ := hruns.endsIn e.formatter Outlet.text true ""
    rw [← hp.render_eq, Written.handTo_text, String.empty_append] at hends
    exact ⟨n, _, _, hends, e.renderText_eq p (some limit) root⟩
  · obtain ⟨n, -, hends⟩ := hruns.endsIn e.formatter (Outlet.sink sink) true ⟨[], 0, none⟩
    rw [← hp.render_eq, Written.handTo_sink, List.nil_append] at hends
    refine ⟨n, _, _, hends, ?_⟩
    have houtcome := Written.deliverFrom_outcome sink 0 (e.render p (some limit) root)
    refine Prod.ext (e.renderTo_delivery p (some limit) root sink) ?_
    rw [e.renderTo_result p (some limit) root sink, Written.deliverTo_fst, houtcome]
    cases ((e.render p (some limit) root).deliverFrom sink 0).1.fault <;> rfl

end Program.IsSequenced

/-- Two templates that include each other outside of every section, and one that nobody knows. -/
theorem rendering_ends_on_cycle :
    ∃ (p : Program) (n : Nat) (text : String) (fault : RenderFault), p.IsSequenced ∧
      p.partials.find? "unknown" = none ∧ n ≤ 3 ∧
      EndsIn (Rendering.iterate p Formatter.escaped Outlet.text) (.start p 4 .none "") n
        (text, some fault) ∧
      Engine.empty.renderText p (some 4) (.ok .none) =
        .error (.ofCause (.run (.cursor (.tooDeep 4 "p")))) ∧
      ∃ k ≤ 6, EndsIn (Cursor.seek p) (.start p 4) k ((Cursor.start p 4).next p) := by
  let main : Sequence := ⟨#[.enter "p" "", .enter "unknown" ""], by decide⟩
  let first : Sequence := ⟨#[.enter "q" " "], by decide⟩
  let second : Sequence := ⟨#[.text "a\n", .enter "p" ""], by decide⟩
  let p : Program :=
    ⟨"", main, ⟨[("p", first), ("q", second)], List.pairwise_pair.2 (by decide)⟩⟩
  have hmain : main.IsFinished :=
    Sequence.isFinished_of_ofList (show Sequence.ofList main.instrs.toList = .ok main from rfl)
  have hfirst : first.IsFinished :=
    Sequence.isFinished_of_ofList (show Sequence.ofList first.instrs.toList = .ok first from rfl)
  have hsecond : second.IsFinished :=
    Sequence.isFinished_of_ofList
      (show Sequence.ofList second.instrs.toList = .ok second from rfl)
  have hp : p.IsSequenced := by
    intro s hs
    rcases List.mem_cons.1 hs with rfl | hs
    · exact hmain
    · have hcases : s = first ∨ s = second := by simpa [p] using hs
      rcases hcases with rfl | rfl
      · exact hfirst
      · exact hsecond
  obtain ⟨hbound, htext, -, hnext⟩ := hp.rendering_ends 4 .none
  obtain ⟨n, text, outcome, hends, hrender⟩ := htext Engine.empty
  obtain ⟨m, hm, _, _, hends'⟩ := hbound Formatter.escaped String Outlet.text ""
  have hfault : (Engine.empty.render p (some 4) .none).fault =
      some (.run (.cursor (.tooDeep 4 "p"))) := by decide +kernel
  have hfails : Engine.empty.renderText p (some 4) (.ok .none) =
      .error (.ofCause (.run (.cursor (.tooDeep 4 "p")))) := by
    rw [Engine.renderText_eq, hfault]
    rfl
  have hevents : (p.evaluate 4 .none).events.length = 2 := by decide +kernel
  obtain ⟨rfl, -⟩ := hends.unique hends'
  cases outcome with
  | none => cases hfails.symm.trans hrender
  | some fault => exact ⟨p, n, text, fault, hp, rfl, by omega, hends, hfails, hnext (.start p 4)⟩

end Stencil
