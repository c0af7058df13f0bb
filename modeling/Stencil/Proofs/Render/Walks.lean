import Mathlib.Tactic.Lemma
import Stencil.Proofs.Code.Building
import Stencil.Proofs.Render.Turns
import Stencil.Render.Machine

/-!
# Walks and runs through a program

A walk comes from the start of a program by turns, and by what its caller decides at the ends of
sections. It stays in the sequences of its program. A run of the machine is such a walk, and
what it brings about stems from the steps at the machines that it reaches.

## Main definitions

* `Cursor.Visits` — the cursors of the walks through a program.
* `Cursor.Station.All`, `Cursor.Station.IsWithin` — all frames have a property, or stand in
  sequences of the program.
* `Cursor.IsInherited` — a property that goes over to included templates.
* `Machine.Reaches` — the machines that a run reaches between its steps.

## Main results

* `Cursor.Visits.all` — what is inherited holds of all frames of a walk.
* `Cursor.Visits.isWithin` — every walk stays in the sequences of its program.
* `Cursor.exists_turn_eq_next` — what comes next is yielded by a turn after silent ones.
* `Machine.Reaches.visits` — a run is a walk.
* `Machine.exists_step_of_mem_events`, `Machine.exists_step_of_fault` — events and faults of a
  run stem from steps at machines that it reaches.
-/

namespace Stencil

/-! ## Walks -/

namespace Cursor

/-- The cursors of the walks through a program: those that come from its start by turns, by
entering and repeating sections, and by going back to the start. -/
inductive Visits (p : Program) (limit : Nat) : Cursor → Prop where
  | start : Visits p limit (.start p limit)
  | turn {c : Cursor} : Visits p limit c → Visits p limit (c.turn p).1
  | enterSection {c c' : Cursor} : Visits p limit c → c.enterSection = .ok c' → Visits p limit c'
  | exitSection {c c' : Cursor} : Visits p limit c → c.exitSection = .ok c' → Visits p limit c'
  | reset {c : Cursor} : Visits p limit c → Visits p limit c.reset

/-- All frames have a property of their sequence and indentation: that of the template at hand
and those of the templates around. -/
def Station.All (P : Sequence → String → Prop) (σ : Station) : Prop :=
  P σ.sequence σ.indent ∧ ∀ f ∈ σ.outer, P f.sequence f.indent

/-- All frames stand in sequences of the program. -/
def Station.IsWithin (p : Program) : Station → Prop := All fun s _ => s ∈ p.sequences

/-- A property of frames that an included template has if the one that includes it does. -/
def IsInherited (p : Program) (P : Sequence → String → Prop) : Prop :=
  ∀ s indent name more, P s indent → .enter name more ∈ s.instrs →
    P ((p.partials.find? name).getD s) (indent ++ more)

variable {p : Program} {limit : Nat} {c c' : Cursor} {P : Sequence → String → Prop}

namespace Station.All

/-- Entering a template keeps a property that it inherits. -/
lemma into {σ : Station} {name more : String} (hP : IsInherited p P) (h : σ.All P)
    (hinstr : σ.instr? = some (.enter name more)) : (σ.into p name more).All P := by
  refine ⟨hP _ _ name more h.1 (Array.mem_of_getElem? hinstr), fun f hf => ?_⟩
  rcases List.mem_cons.1 hf with rfl | hf
  · exact h.1
  · exact h.2 f hf

/-- A turn keeps a property that included templates inherit. -/
lemma turn (hP : IsInherited p P) (h : c.station.All P) : (c.turn p).1.station.All P := by
  cases hinstr : c.station.instr? with
  | none =>
    cases houter : c.outer with
    | nil =>
      rw [turn_exhausted hinstr houter]
      exact h
    | cons f outer =>
      obtain ⟨c', hturn, hstation⟩ := turn_leave (p := p) hinstr houter
      have hall : ∀ g ∈ c.outer, P g.sequence g.indent := h.2
      rw [houter] at hall
      rw [hturn, hstation]
      exact ⟨hall f List.mem_cons_self, fun g hg => hall g (List.mem_cons_of_mem f hg)⟩
  | some i =>
    cases i with
    | enter name indent =>
      by_cases hlimit : c.depth < c.limit
      · obtain ⟨c', hturn, -, hstation⟩ := turn_enter (p := p) hinstr hlimit
        rw [hturn, hstation]
        exact h.into hP hinstr
      · rw [turn_tooDeep hinstr (Nat.not_lt.1 hlimit)]
        exact h
    | text content => rw [turn_instr hinstr]; exact h
    | interpolate escaped path => rw [turn_instr hinstr]; exact h
    | openSection inverted path target => rw [turn_instr hinstr]; exact h
    | closeSection path target => rw [turn_instr hinstr]; exact h

/-- Back at the start, a walk stands in the outermost of its frames. -/
lemma reset (h : c.station.All P) : c.reset.station.All P := by
  refine ⟨?_, by simp [Cursor.reset, station]⟩
  show P (c.outer.getLast?.getD c.top).sequence (c.outer.getLast?.getD c.top).indent
  cases hlast : c.outer.getLast? with
  | none => exact h.1
  | some f => exact h.2 f (List.mem_of_getLast? hlast)

end Station.All

/-- An included template is a sequence of the program. -/
lemma isInherited_isWithin (p : Program) : IsInherited p fun s _ => s ∈ p.sequences := by
  intro s _ name _ hs _
  cases hfind : p.partials.find? name with
  | none => exact hs
  | some found => exact Program.mem_sequences.2 (.inr ⟨name, hfind⟩)

/-- A turn stays in the sequences of the program. -/
lemma Station.IsWithin.turn (h : c.station.IsWithin p) : (c.turn p).1.station.IsWithin p :=
  All.turn (isInherited_isWithin p) h

/-- A section is entered exactly if its opening is pending, and this only settles what is
pending. -/
lemma enterSection_eq_ok_iff : c.enterSection = .ok c' ↔
    (∃ target, c.pending = .opened target) ∧ c' = { c with pending := .nothing } := by
  unfold enterSection
  split
  · rename_i target hpending
    simp [hpending, eq_comm]
  · rename_i hother
    refine iff_of_false (fun h => by cases h) ?_
    rintro ⟨⟨target, hpending⟩, -⟩
    exact hother target hpending

/-- A section is repeated exactly if its closing is pending, and this only settles what is
pending. -/
lemma exitSection_eq_ok_iff : c.exitSection = .ok c' ↔
    ∃ target, c.pending = .closed target ∧ c' = { c with pending := .repeated target } := by
  unfold exitSection
  split
  · rename_i target hpending
    simp [hpending, eq_comm]
  · rename_i hother
    refine iff_of_false (fun h => by cases h) ?_
    rintro ⟨target, hpending, -⟩
    exact hother target hpending

/-- **What comes next is yielded by a turn** at a cursor to which turns led that yielded nothing.
What such turns preserve holds of that cursor. -/
theorem exists_turn_eq_next {Q : Cursor → Prop}
    (hturn : ∀ d d', Q d → d.turn p = (d', none) → Q d') (hc : Q c) :
    ∃ d d' r, Q d ∧ d.turn p = (d', some r) ∧ c.next p = (d', r) := by
  have hturns : ∀ n c r, Q c → c.turns p n = some r →
      ∃ d, Q d ∧ d.turn p = (r.1, some r.2) := by
    intro n
    induction n with
    | zero =>
      intro c r _ h
      cases h
    | succ n ih =>
      intro c r hc hn
      simp only [turns] at hn
      split at hn
      · rename_i d result hd
        cases hn
        exact ⟨c, hc, hd⟩
      · rename_i d hd
        exact ih d r (hturn c d hc hd) hn
  obtain ⟨r, hr⟩ := turns_turnBound p c
  obtain ⟨d, hd, hyield⟩ := hturns _ c r hc hr
  exact ⟨d, r.1, r.2, hd, hyield, by rw [next, hr]; rfl⟩

namespace Visits

/-- **All frames of a walk have what included templates inherit**, if the main one has it. -/
theorem all (hP : IsInherited p P) (hmain : P p.main "") (h : Visits p limit c) :
    c.station.All P := by
  induction h with
  | start => exact ⟨hmain, List.forall_mem_nil _⟩
  | turn _ ih => exact ih.turn hP
  | enterSection _ henter ih =>
    rw [(enterSection_eq_ok_iff.1 henter).2]
    exact ih
  | exitSection _ hexit ih =>
    obtain ⟨target, -, rfl⟩ := exitSection_eq_ok_iff.1 hexit
    exact ih
  | reset _ ih => exact ih.reset

/-- **Every walk stays in the sequences of its program.** -/
theorem isWithin (h : Visits p limit c) : c.station.IsWithin p :=
  h.all (isInherited_isWithin p) List.mem_cons_self

/-- A turn is a part of a walk, whatever it yields. -/
lemma of_turn {r : Option (Except CursorFault Instr)} (h : Visits p limit c)
    (hturn : c.turn p = (c', r)) : Visits p limit c' := by
  have hc' := h.turn
  rwa [hturn] at hc'

/-- What comes next on a walk is yielded by a turn of the walk. -/
lemma exists_turn (h : Visits p limit c) :
    ∃ d d' r, Visits p limit d ∧ d.turn p = (d', some r) ∧ c.next p = (d', r) :=
  exists_turn_eq_next (fun _ _ hd hturn => hd.of_turn hturn) h

/-- Yielding an instruction is a part of a walk. -/
lemma of_next {r : Except CursorFault Instr} (h : Visits p limit c)
    (hnext : c.next p = (c', r)) : Visits p limit c' := by
  obtain ⟨d, d', r', hd, hyield, heq⟩ := h.exists_turn
  rw [hnext] at heq
  cases heq
  exact hd.of_turn hyield

/-- A walk keeps the greatest depth. -/
lemma limit_eq (h : Visits p limit c) : c.limit = limit := by
  induction h with
  | start => rfl
  | turn _ ih => exact (limit_turn p _).trans ih
  | enterSection _ henter ih =>
    rw [(enterSection_eq_ok_iff.1 henter).2]
    exact ih
  | exitSection _ hexit ih =>
    obtain ⟨target, -, rfl⟩ := exitSection_eq_ok_iff.1 hexit
    exact ih
  | reset _ ih => exact ih

end Visits

end Cursor

/-! ## Runs -/

namespace Machine

/-- The machines that a run from a given one reaches between its steps. -/
inductive Reaches (p : Program) (first : Machine) : Machine → Prop where
  | start : Reaches p first first
  | step {m m' : Machine} {e : Event} : Reaches p first m → m.cursor.hasNext = true →
      m.step p = .ok (e, m') → Reaches p first m'

variable {p : Program} {first m m' : Machine} {e : Event}

/-- A step yields an instruction and acts upon it. -/
lemma step_eq_ok (h : m.step p = .ok (e, m')) :
    ∃ c i, m.cursor.next p = (c, .ok i) ∧ perform { m with cursor := c } i = .ok (e, m') := by
  unfold step at h
  split at h
  · cases h
  · rename_i c i hnext
    exact ⟨c, i, hnext, h⟩

/-- Acting upon an instruction keeps the walk of the cursor going. -/
lemma visits_of_perform {limit : Nat} {i : Instr} (hm : Cursor.Visits p limit m.cursor)
    (h : m.perform i = .ok (e, m')) : Cursor.Visits p limit m'.cursor := by
  cases i with
  | text content =>
    cases h
    exact hm
  | interpolate escaped path =>
    cases h
    exact hm
  | enter name indent => cases h
  | openSection inverted path target =>
    simp only [perform] at h
    split at h
    · cases h
      exact hm
    · split at h
      · cases h
      · rename_i henter
        cases h
        exact hm.enterSection henter
  | closeSection path target =>
    simp only [perform] at h
    split at h
    · cases h
    · cases h
      exact hm
    · split at h
      · cases h
      · rename_i hexit
        cases h
        exact hm.exitSection hexit

/-- **A run is a walk.** -/
theorem Reaches.visits {limit : Nat} {root : Value} (h : Reaches p (.start p limit root) m) :
    Cursor.Visits p limit m.cursor := by
  induction h with
  | start => exact .start
  | step _ _ hstep ih =>
    obtain ⟨c, i, hnext, hperform⟩ := step_eq_ok hstep
    exact visits_of_perform (m := { cursor := c, scopes := _ }) (ih.of_next hnext) hperform

/-- **Every event of a run is brought about by a step** at a machine that the run reaches. -/
theorem exists_step_of_mem_events {pace : Trace} (hm : Reaches p first m)
    (h : e ∈ (m.run p pace).events) :
    ∃ d d', Reaches p first d ∧ d.cursor.hasNext = true ∧ d.step p = .ok (e, d') := by
  induction pace generalizing m with
  | ended fault =>
    unfold run at h
    split at h
    · rename_i hmore
      split at h
      · simp [Trace.events] at h
      · rename_i event m' hstep
        obtain rfl : e = event := by simpa [Trace.events] using h
        exact ⟨m, m', hm, hmore, hstep⟩
    · simp [Trace.events] at h
  | event first rest ih =>
    unfold run at h
    split at h
    · rename_i hmore
      split at h
      · simp [Trace.events] at h
      · rename_i event m' hstep
        rcases List.mem_cons.1 h with rfl | h
        · exact ⟨m, m', hm, hmore, hstep⟩
        · exact ih () (hm.step hmore hstep) h
    · simp [Trace.events] at h

/-- **The fault that ends a run is that of a step** at a machine that the run reaches. -/
theorem exists_step_of_fault {pace : Trace} {fault : RunFault} (hm : Reaches p first m)
    (h : (m.run p pace).fault = some fault) :
    ∃ d, Reaches p first d ∧ d.cursor.hasNext = true ∧ d.step p = .error fault := by
  induction pace generalizing m with
  | ended fault' =>
    unfold run at h
    split at h
    · rename_i hmore
      split at h
      · rename_i found hstep
        obtain rfl : found = fault := by simpa [Trace.fault] using h
        exact ⟨m, hm, hmore, hstep⟩
      · simp [Trace.fault] at h
    · simp [Trace.fault] at h
  | event first rest ih =>
    unfold run at h
    split at h
    · rename_i hmore
      split at h
      · rename_i found hstep
        obtain rfl : found = fault := by simpa [Trace.fault] using h
        exact ⟨m, hm, hmore, hstep⟩
      · rename_i event m' hstep
        exact ih () (hm.step hmore hstep) h
    · simp [Trace.fault] at h

end Machine

end Stencil
