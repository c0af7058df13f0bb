import Mathlib.Tactic.Lemma
import Stencil.Engine.Session
import Stencil.Proofs.Code.Building
import Stencil.Proofs.Data.Tables
import Stencil.Proofs.Render.Runs

/-!
# Running is evaluating

The machine walks through flat sequences by jumps; the evaluation recurs on the trees of their
outlines. If every sequence of a program was finished by a builder, both bring about the same
events and end in the same way, whatever the data and the greatest depth are.

## Main definitions

* `Includes` — an inclusion, as the evaluation understands it, is what the machine does.

## Main results

* `runsFrom_evalNodes` — the trees of a stretch of a sequence, and the runs over it.
* `runsFrom_evalAt` — a sequence at a depth of inclusion, and the runs over it.
* `Program.IsSequenced.run_agrees` — the whole program.
-/

namespace Stencil

open Node Cursor

variable {p : Program} {σ : Station}

/-! ## Stretches of a sequence -/

/-- Wherever a template is included in the sequence of `σ`, the runs from there are what
`inclusion` makes of the runs from behind the inclusion. -/
def Includes (p : Program) (σ : Station) (inclusion : Inclusion) : Prop :=
  ∀ (i : Nat) (name more : String) (scopes : Scopes) (after : Rest),
    (σ.at i).instr? = some (.enter name more) →
      RunsFrom p (σ.at (i + 1)) scopes (after ()) →
        RunsFrom p (σ.at i) scopes (inclusion name (σ.indent ++ more) scopes.contexts after)

/-- The instruction at an index of a station's sequence. -/
lemma instr?_at {i : Nat} {x : Instr} (h : σ.sequence.instrs.toList[i]? = some x) :
    (σ.at i).instr? = some x := by
  simpa [Station.instr?, Station.at] using h

/-- The data at hand when a section runs with some data of its own. -/
lemma contexts_cons (path : Path) (v : Value) (left : List Value) (inner : List Scope)
    (root : Value) :
    Scopes.contexts ⟨⟨path, v :: left⟩ :: inner, root⟩ = v :: Scopes.contexts ⟨inner, root⟩ := rfl

/-- **The runs of a section.** Between two runs the machine drops the data of the run that is
over and jumps back to the start of the body.

**Proof sketch.** Induction on the data that is left. The body is run with the first of it;
its closing then leads back to the body if there is more, and out of the section if not. -/
lemma runsFrom_runRegion {path : Path} {body : List Value → Rest → Trace} {i close : Nat}
    {inner : List Scope} {root : Value} {after : Rest}
    (hbody : ∀ (scopes : Scopes) (after : Rest), RunsFrom p (σ.at close) scopes (after ()) →
      RunsFrom p (σ.at (i + 1)) scopes (body scopes.contexts after))
    (hclose : (σ.at close).instr? = some (.closeSection path i))
    (hafter : RunsFrom p (σ.at (close + 1)) ⟨inner, root⟩ (after ()))
    (v : Value) (left : List Value) :
    RunsFrom p (σ.at (i + 1)) ⟨⟨path, v :: left⟩ :: inner, root⟩
      (runRegion path body (Scopes.contexts ⟨inner, root⟩) (v :: left) after) := by
  induction left generalizing v with
  | nil =>
    rw [runRegion, ← contexts_cons path v []]
    exact hbody _ _ (RunsFrom.closed hclose rfl hafter)
  | cons w left ih =>
    rw [runRegion, ← contexts_cons path v (w :: left)]
    exact hbody _ _ (RunsFrom.again hclose (List.cons_ne_nil w left) (ih w))

mutual

/-- The runs over the layout of a tree are what evaluating the tree makes of the runs behind
it. -/
lemma runsFrom_evalNode {inclusion : Inclusion} (hincl : Includes p σ inclusion) :
    (n : Node) → ∀ (i : Nat) (scopes : Scopes) (after : Rest),
      Stands σ.sequence.instrs.toList i (n.layout i) →
        RunsFrom p (σ.at (i + n.size)) scopes (after ()) →
          RunsFrom p (σ.at i) scopes (evalNode inclusion σ.indent n scopes.contexts after)
  | .text _, _, _, _, hstands, hafter => RunsFrom.text (instr?_at hstands.head) hafter
  | .interpolate _ _, _, _, _, hstands, hafter =>
    RunsFrom.value (instr?_at hstands.head) hafter
  | .enter name more, i, scopes, after, hstands, hafter =>
    hincl i name more scopes after (instr?_at hstands.head) hafter
  | .region inverted path body, i, scopes, after, hstands, hafter => by
    obtain ⟨hopen, hstandsBody, hclose⟩ := hstands.region
    have hopen := instr?_at hopen
    have hclose := instr?_at hclose
    have hbehind : RunsFrom p (σ.at (i + 1 + sizeAll body + 1)) scopes (after ()) := by
      rwa [show i + 1 + sizeAll body + 1 = i + (sizeAll body + 2) by omega]
    have hbody : ∀ (scopes : Scopes) (after : Rest),
        RunsFrom p (σ.at (i + 1 + sizeAll body)) scopes (after ()) →
          RunsFrom p (σ.at (i + 1)) scopes
            (evalNodes inclusion σ.indent body scopes.contexts after) :=
      fun scopes after => runsFrom_evalNodes hincl body (i + 1) scopes after hstandsBody
    simp only [evalNode]
    split
    · rename_i hdata
      refine RunsFrom.opened hopen hdata ?_
      cases inverted with
      | true => exact hbody _ _ (RunsFrom.closed hclose rfl hbehind)
      | false =>
        -- there is data, so the body runs at least once
        obtain ⟨v, left, hleft⟩ : ∃ v left, contextsOf (lookup scopes.contexts path) = v :: left :=
          List.exists_cons_of_ne_nil (by simpa using hdata)
        simp only [hleft]
        exact runsFrom_runRegion hbody hclose hbehind v left
    · rename_i hdata
      exact RunsFrom.skipped hopen hdata hbehind

/-- **The runs over the layout of a list of trees** are what evaluating the trees makes of the
runs behind them. -/
theorem runsFrom_evalNodes {inclusion : Inclusion} (hincl : Includes p σ inclusion) :
    (ns : List Node) → ∀ (i : Nat) (scopes : Scopes) (after : Rest),
      Stands σ.sequence.instrs.toList i (layoutAll i ns) →
        RunsFrom p (σ.at (i + sizeAll ns)) scopes (after ()) →
          RunsFrom p (σ.at i) scopes (evalNodes inclusion σ.indent ns scopes.contexts after)
  | [], _, _, _, _, hafter => hafter
  | n :: ns, i, scopes, after, hstands, hafter => by
    have htail : Stands σ.sequence.instrs.toList (i + n.size) (layoutAll (i + n.size) ns) := by
      simpa using Stands.right hstands
    refine runsFrom_evalNode hincl n i scopes _ (Stands.left hstands) ?_
    refine runsFrom_evalNodes hincl ns (i + n.size) scopes after htail ?_
    rwa [Nat.add_assoc]

end

/-! ## Whole sequences -/

/-- A program that was sequenced holds finished sequences only, so the sequence of an included
template is finished if the one at hand is. -/
lemma Program.IsSequenced.included (h : p.IsSequenced) {s : Sequence} (hs : s.IsFinished)
    (name : String) : ((p.partials.find? name).getD s).IsFinished := by
  cases hfind : p.partials.find? name with
  | none => exact hs
  | some t =>
    refine h t (List.mem_cons_of_mem _ (List.mem_map.2 ⟨(name, t), ?_, rfl⟩))
    exact Entries.mem_of_find? hfind

/-- Behind the last instruction of a sequence there is none. -/
lemma instr?_at_size (σ : Station) : (σ.at σ.sequence.instrs.size).instr? = none := by
  simp [Station.instr?, Station.at]

/-- The runs over a finished sequence are what evaluating its outline makes of the runs behind
it. -/
lemma runsFrom_outline {inclusion : Inclusion} (hs : σ.sequence.IsFinished)
    (hincl : Includes p σ inclusion) {scopes : Scopes} {after : Rest}
    (hafter : RunsFrom p (σ.at σ.sequence.instrs.size) scopes (after ())) :
    RunsFrom p (σ.at 0) scopes
      (evalNodes inclusion σ.indent σ.sequence.outline scopes.contexts after) := by
  have hlayout := hs.layout_outline
  have hsize : σ.sequence.instrs.size = 0 + sizeAll σ.sequence.outline := by
    rw [← Array.length_toList, hlayout, length_layoutAll, Nat.zero_add]
  refine runsFrom_evalNodes hincl _ 0 scopes after ?_ (by rwa [← hsize])
  rw [← hlayout]
  exact Stands.refl _

/-- **The runs over a whole sequence** that may include templates `left` more levels deep.

**Proof sketch.** Induction on `left`. The sequence is the layout of its outline, so it is
enough to know what the machine does at an inclusion. At the greatest depth it fails. Otherwise
it walks through the included sequence by induction, leaves it, and goes on behind the
inclusion. -/
theorem runsFrom_evalAt (h : p.IsSequenced) (left : Nat) :
    ∀ (σ : Station) (scopes : Scopes) (after : Rest), σ.sequence.IsFinished →
      σ.outer.length + left = σ.limit →
        RunsFrom p (σ.at σ.sequence.instrs.size) scopes (after ()) →
          RunsFrom p (σ.at 0) scopes
            (evalAt p σ.limit left σ.sequence σ.indent scopes.contexts after) := by
  induction left with
  | zero =>
    intro σ scopes after hs hdepth hafter
    refine runsFrom_outline hs (fun i name more scopes after hi _ => ?_) hafter
    exact RunsFrom.tooDeep hi (Nat.le_of_eq hdepth.symm)
  | succ left ih =>
    intro σ scopes after hs hdepth hafter
    refine runsFrom_outline hs (fun i name more scopes after hi hbehind => ?_) hafter
    refine RunsFrom.enter hi (show σ.outer.length < σ.limit by omega) ?_
    refine ih ((σ.at i).into p name more) scopes after (h.included hs name) ?_ ?_
    · show (σ.outer.length + 1) + left = σ.limit
      omega
    · -- the included template is finished, and the walk goes on behind the inclusion
      exact RunsFrom.leave (instr?_at_size _) rfl hbehind

/-- **A program that was sequenced runs as it is evaluated by structure.** The machine has
exactly one run, whose events and whose end are those of the evaluation, so a rendering writes
the same texts and ends with the same fault, for every formatter.

**Proof sketch.** The main sequence is walked through from its start, with no template around
it, and behind its end nothing is left. -/
theorem Program.IsSequenced.run_agrees (h : p.IsSequenced) (limit : Nat) (root : Value) :
    (∀ t, (Machine.start p limit root).Runs p t ↔ t = p.evaluate limit root) ∧
      p.run limit root = p.evaluate limit root ∧
        ∀ e : Engine, e.render p (some limit) root =
          (p.evaluate limit root).output e.formatter := by
  have hmain : p.main.IsFinished := h p.main List.mem_cons_self
  have hfrom : RunsFrom p ⟨p.main, "", [], limit, 0⟩ (.ofRoot root) (p.evaluate limit root) :=
    runsFrom_evalAt h limit ⟨p.main, "", [], limit, 0⟩ (.ofRoot root) (fun _ => .ended none) hmain
      (Nat.zero_add limit) (RunsFrom.finished (instr?_at_size _) rfl)
  have hruns : (Machine.start p limit root).Runs p (p.evaluate limit root) := hfrom _ rfl rfl
  have hrun : p.run limit root = p.evaluate limit root := hruns.run_eq
  refine ⟨fun t => ⟨fun ht => ht.unique hruns, fun ht => ht ▸ hruns⟩, hrun, fun e => ?_⟩
  rw [Engine.render, Option.getD_some, hrun]

/-- A section that runs for two items and includes an indented template each time. -/
theorem run_agrees_on_list :
    ∃ p : Program, p.IsSequenced ∧
      (Machine.start p 1 (.map [("s", .list [.string "1", .string "2"])])).Runs p
        (p.evaluate 1 (.map [("s", .list [.string "1", .string "2"])])) ∧
      ((p.evaluate 1 (.map [("s", .list [.string "1", .string "2"])])).output
        Formatter.escaped).text = .ok "a\n  1\n  2\n" := by
  let main : Sequence :=
    ⟨#[.text "a\n", .openSection false ⟨["s"], by decide⟩ 3, .enter "p" "  ",
      .closeSection ⟨["s"], by decide⟩ 1], by decide⟩
  let item : Sequence := ⟨#[.interpolate true .self, .text "\n"], by decide⟩
  let p : Program := ⟨"", main, ⟨[("p", item)], List.pairwise_singleton _ _⟩⟩
  have hmain : main.IsFinished :=
    Sequence.isFinished_of_ofList (show Sequence.ofList main.instrs.toList = .ok main from rfl)
  have hitem : item.IsFinished :=
    Sequence.isFinished_of_ofList (show Sequence.ofList item.instrs.toList = .ok item from rfl)
  have hp : p.IsSequenced := by
    intro s hs
    rcases List.mem_cons.1 hs with rfl | hs
    · exact hmain
    · obtain rfl : s = item := by simpa [p] using hs
      exact hitem
  exact ⟨p, hp, ((hp.run_agrees 1 _).1 _).2 rfl, by rfl⟩

end Stencil
