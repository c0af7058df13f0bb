import Mathlib.Tactic.Lemma
import Stencil.Proofs.Render.Turns
import Stencil.Render.Machine

/-!
# Runs of the machine

A run takes steps for as long as something is left to yield, and nothing else bounds it. A
machine has at most one run, and what a machine does depends only on the station of its cursor
and on its scopes. So the runs from a station can be put together instruction by instruction,
without a look at how the walk came there.

## Main definitions

* `Machine.Runs` — the trace of a run, step by step.
* `RunsFrom` — the trace of every run from a station with given scopes.

## Main results

* `Machine.Runs.unique` — a machine has at most one run.
* `Machine.Runs.run_eq` — a run that is paced by its own trace has that trace.
* `RunsFrom.text`, `RunsFrom.value`, `RunsFrom.skipped`, `RunsFrom.opened`, `RunsFrom.again`,
  `RunsFrom.closed`, `RunsFrom.enter`, `RunsFrom.tooDeep`, `RunsFrom.leave`,
  `RunsFrom.finished` — one rule for each thing that a step can do.
-/

namespace Stencil

/-- The machine has a run with the given trace. -/
inductive Machine.Runs (p : Program) : Machine → Trace → Prop where
  /-- Nothing is left to yield. -/
  | ended (m : Machine) : m.cursor.hasNext = false → Machine.Runs p m (.ended none)
  /-- A step fails. -/
  | failed (m : Machine) (f : RunFault) : m.cursor.hasNext = true → m.step p = .error f →
      Machine.Runs p m (.ended (some f))
  /-- A step is taken, and the run goes on. -/
  | event (m m' : Machine) (e : Event) (rest : Unit → Trace) : m.cursor.hasNext = true →
      m.step p = .ok (e, m') → Machine.Runs p m' (rest ()) → Machine.Runs p m (.event e rest)

namespace Machine

variable {p : Program} {m : Machine} {t t' : Trace}

/-- **A machine has at most one run.** -/
theorem Runs.unique (h : m.Runs p t) (h' : m.Runs p t') : t = t' := by
  induction h generalizing t' with
  | ended m hnext =>
    cases h' with
    | ended _ _ => rfl
    | failed _ _ hnext' _ => simp [hnext] at hnext'
    | event _ _ _ _ hnext' _ _ => simp [hnext] at hnext'
  | failed m f hnext hstep =>
    cases h' with
    | ended _ hnext' => simp [hnext] at hnext'
    | failed _ f' _ hstep' => simpa [hstep] using hstep'
    | event _ _ _ _ _ hstep' _ => simp [hstep] at hstep'
  | event m m₁ e rest hnext hstep hrest ih =>
    cases h' with
    | ended _ hnext' => simp [hnext] at hnext'
    | failed _ _ _ hstep' => simp [hstep] at hstep'
    | event _ m₂ e' rest' _ hstep' hrest' =>
      obtain ⟨rfl, rfl⟩ : e = e' ∧ m₁ = m₂ := by simpa [hstep] using hstep'
      congr 1
      funext u
      exact ih hrest'

/-- **A run that is paced by its own trace has that trace.** -/
theorem Runs.run_eq (h : m.Runs p t) : m.run p t = t := by
  induction h with
  | ended m hnext => simp [run, hnext]
  | failed m f hnext hstep => simp [run, hnext, hstep]
  | event m m' e rest hnext hstep _ ih =>
    unfold run
    simp only [hnext, if_true, hstep, ih]

/-- A turn of the cursor that yields nothing can be taken ahead of a run. -/
lemma Runs.of_turn {c : Cursor} (hturn : m.cursor.turn p = (c, none))
    (h : Runs p { m with cursor := c } t) : m.Runs p t := by
  have hnext : m.cursor.hasNext = c.hasNext := (Cursor.hasNext_of_turn_none hturn).symm
  have hstep : m.step p = step p { m with cursor := c } := by
    simp only [step, Cursor.next_of_turn_none hturn]
  generalize hd : ({ m with cursor := c } : Machine) = d at h
  cases h with
  | ended _ hdone =>
    subst hd
    exact .ended m (hnext.trans hdone)
  | failed _ f hmore hfail =>
    subst hd
    exact .failed m f (hnext.trans hmore) (hstep.trans hfail)
  | event _ m' e rest hmore hok hrest =>
    subst hd
    exact .event m m' e rest (hnext.trans hmore) (hstep.trans hok) hrest

end Machine

/-! ## Runs from a station -/

/-- Every machine whose cursor goes on at the station `σ`, with the given scopes, has a run
with the trace `t`. -/
def RunsFrom (p : Program) (σ : Cursor.Station) (scopes : Scopes) (t : Trace) : Prop :=
  ∀ m : Machine, m.cursor.station = σ → m.scopes = scopes → m.Runs p t

namespace RunsFrom

open Cursor

variable {p : Program} {σ : Station} {scopes : Scopes} {t : Trace} {rest : Unit → Trace}

/-- In front of an instruction, something is left to yield. -/
private lemma hasNext_of_instr {c : Cursor} {i : Instr} (h : c.station.instr? = some i) :
    c.hasNext = true := by
  simp [hasNext_eq, h]

/-- A step that yields an instruction and acts upon it. -/
private lemma step_of_turn {m : Machine} {c : Cursor} {i : Instr}
    (h : m.cursor.turn p = (c, some (.ok i))) :
    m.step p = Machine.perform { m with cursor := c } i := by
  simp only [Machine.step, next_of_turn_some h]

/-- Text is written with the indentation of its template. -/
theorem text {content : String} (hi : σ.instr? = some (.text content))
    (h : RunsFrom p (σ.at (σ.index + 1)) scopes (rest ())) :
    RunsFrom p σ scopes (.event (.text σ.indent (indented σ.indent content)) rest) := by
  rintro m rfl rfl
  have hstep := step_of_turn (p := p) (m := m) (turn_instr hi)
  exact .event m _ _ rest (hasNext_of_instr hi) hstep (h _ rfl rfl)

/-- The value of a path is written with the indentation of its template. -/
theorem value {escaped : Bool} {path : Path} (hi : σ.instr? = some (.interpolate escaped path))
    (h : RunsFrom p (σ.at (σ.index + 1)) scopes (rest ())) :
    RunsFrom p σ scopes
      (.event (.value σ.indent escaped (lookup scopes.contexts path)) rest) := by
  rintro m rfl rfl
  have hstep := step_of_turn (p := p) (m := m) (turn_instr hi)
  exact .event m _ _ rest (hasNext_of_instr hi) hstep (h _ rfl rfl)

/-- A section that does not run is skipped: the walk goes on behind its closing. -/
theorem skipped {inverted : Bool} {path : Path} {target : Nat}
    (hi : σ.instr? = some (.openSection inverted path target))
    (hdata : (contextsOf (lookup scopes.contexts path)).isEmpty ≠ inverted)
    (h : RunsFrom p (σ.at (target + 1)) scopes (rest ())) :
    RunsFrom p σ scopes (.event (.opened inverted path false) rest) := by
  rintro m rfl rfl
  have hstep := step_of_turn (p := p) (m := m) (turn_instr hi)
  have hopen : m.scopes.openSection inverted path = (false, m.scopes) := if_neg hdata
  simp only [Machine.perform, hopen] at hstep
  exact .event m _ _ rest (hasNext_of_instr hi) hstep (h _ rfl rfl)

/-- A section that runs gets a scope: the walk goes on in its body. -/
theorem opened {inverted : Bool} {path : Path} {target : Nat}
    (hi : σ.instr? = some (.openSection inverted path target))
    (hdata : (contextsOf (lookup scopes.contexts path)).isEmpty = inverted)
    (h : RunsFrom p (σ.at (σ.index + 1))
      { scopes with
          inner := ⟨path, if inverted then [] else contextsOf (lookup scopes.contexts path)⟩ ::
            scopes.inner }
      (rest ())) :
    RunsFrom p σ scopes (.event (.opened inverted path true) rest) := by
  rintro m rfl rfl
  have hstep := step_of_turn (p := p) (m := m) (turn_instr hi)
  have hopen : m.scopes.openSection inverted path = (true, _) := if_pos hdata
  simp only [Machine.perform, hopen, enterSection] at hstep
  exact .event m _ _ rest (hasNext_of_instr hi) hstep (h _ rfl rfl)

/-- A section with further data runs again: the walk goes on in its body. -/
theorem again {path : Path} {target : Nat} {v : Value} {contexts : List Value}
    {inner : List Scope} {root : Value}
    (hi : σ.instr? = some (.closeSection path target)) (hmore : contexts ≠ [])
    (h : RunsFrom p (σ.at (target + 1)) ⟨⟨path, contexts⟩ :: inner, root⟩ (rest ())) :
    RunsFrom p σ ⟨⟨path, v :: contexts⟩ :: inner, root⟩ (.event (.closed path true) rest) := by
  rintro m rfl hscopes
  have hstep := step_of_turn (p := p) (m := m) (turn_instr hi)
  obtain ⟨w, left, rfl⟩ := List.exists_cons_of_ne_nil hmore
  simp only [Machine.perform, hscopes, Scopes.closeSection, if_true, List.tail_cons,
    exitSection] at hstep
  exact .event m _ _ rest (hasNext_of_instr hi) hstep (h _ rfl rfl)

/-- A section without further data loses its scope: the walk goes on behind its closing. -/
theorem closed {path : Path} {target : Nat} {contexts : List Value} {inner : List Scope}
    {root : Value} (hi : σ.instr? = some (.closeSection path target))
    (hlast : contexts.tail = [])
    (h : RunsFrom p (σ.at (σ.index + 1)) ⟨inner, root⟩ (rest ())) :
    RunsFrom p σ ⟨⟨path, contexts⟩ :: inner, root⟩ (.event (.closed path false) rest) := by
  rintro m rfl hscopes
  have hstep := step_of_turn (p := p) (m := m) (turn_instr hi)
  simp only [Machine.perform, hscopes, Scopes.closeSection, if_true, hlast] at hstep
  exact .event m _ _ rest (hasNext_of_instr hi) hstep (h _ rfl rfl)

/-- An included template is entered without an event. -/
theorem enter {name indent : String} (hi : σ.instr? = some (.enter name indent))
    (hlimit : σ.outer.length < σ.limit) (h : RunsFrom p (σ.into p name indent) scopes t) :
    RunsFrom p σ scopes t := by
  rintro m rfl rfl
  have hdepth : m.cursor.depth < m.cursor.limit := by
    rw [depth_eq_length]
    exact hlimit
  obtain ⟨c, hturn, -, hstation⟩ := turn_enter (p := p) hi hdepth
  exact .of_turn hturn (h _ hstation rfl)

/-- At the greatest depth, an inclusion ends the run. -/
theorem tooDeep {name indent : String} (hi : σ.instr? = some (.enter name indent))
    (hlimit : σ.limit ≤ σ.outer.length) :
    RunsFrom p σ scopes (.ended (some (.cursor (.tooDeep σ.limit name)))) := by
  rintro m rfl rfl
  have hdepth : m.cursor.limit ≤ m.cursor.depth := by
    rw [depth_eq_length]
    exact hlimit
  refine .failed m _ (hasNext_of_instr hi) ?_
  simp only [Machine.step, next_of_turn_some (turn_tooDeep hi hdepth)]
  rfl

/-- A template that is finished is left without an event. -/
theorem leave {f : Frame} {outer : List Frame} (hend : σ.instr? = none)
    (houter : σ.outer = f :: outer) (h : RunsFrom p (.back f outer σ.limit) scopes t) :
    RunsFrom p σ scopes t := by
  rintro m rfl rfl
  obtain ⟨c, hturn, hstation⟩ := turn_leave (p := p) hend houter
  exact .of_turn hturn (h _ hstation rfl)

/-- At the end of the outermost sequence, the run ends. -/
theorem finished (hend : σ.instr? = none) (houter : σ.outer = []) :
    RunsFrom p σ scopes (.ended none) := by
  rintro m rfl rfl
  refine .ended m ?_
  simp [hasNext_eq, hend, houter]

end RunsFrom

end Stencil
