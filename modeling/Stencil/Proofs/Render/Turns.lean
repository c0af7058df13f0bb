import Mathlib.Tactic.Lemma
import Stencil.Render.Cursor

/-!
# Turns of a walk

A walk goes on at a station: a sequence with its indentation, an index in it, and the frames
of the templates around it. How the walk came there plays no part. Each turn leaves a template,
enters one, or yields, and the number of turns that a walk is granted is always enough to
yield something.

## Main definitions

* `Cursor.Station`, `Cursor.station` — where a walk goes on.
* `Cursor.behind` — the cursor behind the instruction at which the walk goes on.

## Main results

* `Cursor.turns_turnBound` — within the bound, something is yielded.
* `Cursor.next_of_turn_none` — a turn that yields nothing does not change what comes next.
* `Cursor.hasNext_of_turn_none` — nor does it change whether something is left to yield.
* `Cursor.eq_tooDeep_of_turn` — the one way in which a turn fails while something is left.
-/

namespace Stencil

namespace Cursor

/-! ## Stations -/

/-- Where a walk goes on. -/
structure Station where
  sequence : Sequence
  indent : String
  /-- The frames of the templates around, innermost first. -/
  outer : List Frame
  limit : Nat
  /-- The index at which the walk goes on in the sequence. -/
  index : Nat

/-- Where the walk of a cursor goes on. -/
def station (c : Cursor) : Station := ⟨c.top.sequence, c.indent, c.outer, c.limit, c.nextIndex⟩

/-- The instruction at a station. -/
def Station.instr? (σ : Station) : Option Instr := σ.sequence.instrs[σ.index]?

/-- The station at another index of the same sequence. -/
def Station.at (σ : Station) (i : Nat) : Station := { σ with index := i }

/-- The station behind the inclusion at which a frame stands. -/
def Station.back (f : Frame) (outer : List Frame) (limit : Nat) : Station :=
  ⟨f.sequence, f.indent, outer, limit, f.following⟩

/-- The station at the start of an included template. -/
def Station.into (σ : Station) (program : Program) (name indent : String) : Station where
  sequence := (program.partials.find? name).getD σ.sequence
  indent := σ.indent ++ indent
  outer := ⟨σ.sequence, some σ.index, σ.indent⟩ :: σ.outer
  limit := σ.limit
  index := 0

/-- The cursor behind the instruction at which the walk goes on. -/
def behind (c : Cursor) : Cursor :=
  { c with top := { c.top with index := some c.nextIndex }, pending := .nothing }

variable {p : Program} {c c' : Cursor}

/-- If nothing is pending, the walk goes on behind the instruction that was reached last. -/
lemma nextIndex_of_nothing (h : c.pending = .nothing) : c.nextIndex = c.top.following := by
  rw [nextIndex, h]

/-- A section that is not entered is skipped. -/
lemma nextIndex_of_opened {target : Nat} (h : c.pending = .opened target) :
    c.nextIndex = target + 1 := by
  rw [nextIndex, h]

/-- A section that is not repeated is left. -/
lemma nextIndex_of_closed {target : Nat} (h : c.pending = .closed target) :
    c.nextIndex = c.top.following := by
  rw [nextIndex, h]

/-- A section that is repeated starts again with its body. -/
lemma nextIndex_of_repeated {target : Nat} (h : c.pending = .repeated target) :
    c.nextIndex = target + 1 := by
  rw [nextIndex, h]

/-- In front of an instruction, something is left to yield. -/
lemma hasNext_of_lt (h : c.nextIndex < c.top.sequence.instrs.size) : c.hasNext = true := by
  simp [hasNext, h]

/-- The number of included templates at hand is the number of frames around. -/
lemma depth_eq_length (c : Cursor) : c.depth = c.station.outer.length := c.depth_eq

/-! ## One turn -/

/-- At the end of an included template, a turn goes back to the one that includes it. -/
lemma turn_leave {f : Frame} {outer : List Frame} (h : c.station.instr? = none)
    (houter : c.outer = f :: outer) :
    ∃ c', c.turn p = (c', none) ∧ c'.station = .back f outer c.limit := by
  obtain ⟨top, around, depth, hdepth, pending, limit⟩ := c
  obtain rfl : around = f :: outer := houter
  simp only [station, Station.instr?] at h
  simp only [turn, h]
  exact ⟨_, rfl, rfl⟩

/-- Going back to the template that includes the one at hand takes up its frame as it was left. -/
lemma turn_leave_frames {f : Frame} {outer : List Frame} (h : c.station.instr? = none)
    (houter : c.outer = f :: outer) :
    (c.turn p).1.top = f ∧ (c.turn p).1.outer = outer ∧ (c.turn p).1.pending = .nothing := by
  obtain ⟨top, around, depth, hdepth, pending, limit⟩ := c
  obtain rfl : around = f :: outer := houter
  simp only [station, Station.instr?] at h
  simp [turn, h]

/-- At the end of the outermost sequence, nothing is left. -/
lemma turn_exhausted (h : c.station.instr? = none) (houter : c.outer = []) :
    c.turn p = ({ c with pending := .nothing }, some (.error .exhausted)) := by
  obtain ⟨top, around, depth, hdepth, pending, limit⟩ := c
  obtain rfl : around = [] := houter
  simp only [station, Station.instr?] at h
  simp only [turn, h]

/-- Entering a template adds one frame to those around. -/
lemma depth_add_one (c : Cursor) : c.depth + 1 = (c.behind.top :: c.outer).length :=
  congrArg (· + 1) c.depth_eq

/-- What a turn does at an instruction. -/
def meet (p : Program) (c : Cursor) : Instr → Cursor × Option (Except CursorFault Instr)
  | .openSection inverted path target =>
    ({ c.behind with pending := .opened target }, some (.ok (.openSection inverted path target)))
  | .closeSection path target =>
    ({ c.behind with pending := .closed target }, some (.ok (.closeSection path target)))
  | .text content => (c.behind, some (.ok (.text (indented c.indent content))))
  | .interpolate escaped path => (c.behind, some (.ok (.interpolate escaped path)))
  | .enter name indent =>
    if c.limit ≤ c.depth then (c.behind, some (.error (.tooDeep c.limit name)))
    else
      ({ c.behind with
          top := .start (c.target p name) (c.indent ++ indent)
          outer := c.behind.top :: c.outer
          depth := c.depth + 1
          depth_eq := c.depth_add_one },
        none)

/-- A turn at an instruction. -/
lemma turn_instr {i : Instr} (h : c.station.instr? = some i) : c.turn p = c.meet p i := by
  simp only [station, Station.instr?] at h
  simp only [turn, h]
  cases i <;> rfl

/-- A turn at an inclusion enters the template. -/
lemma turn_enter {name indent : String} (h : c.station.instr? = some (.enter name indent))
    (hlimit : c.depth < c.limit) :
    ∃ c', c.turn p = (c', none) ∧ c'.depth = c.depth + 1 ∧
      c'.station = c.station.into p name indent := by
  rw [turn_instr h, meet, if_neg (Nat.not_le.2 hlimit)]
  exact ⟨_, rfl, rfl, rfl⟩

/-- A turn at an inclusion at the greatest depth fails. -/
lemma turn_tooDeep {name indent : String} (h : c.station.instr? = some (.enter name indent))
    (hlimit : c.limit ≤ c.depth) :
    c.turn p = (c.behind, some (.error (.tooDeep c.limit name))) := by
  rw [turn_instr h, meet, if_pos hlimit]

/-! ## Enough turns -/

/-- More turns do not change what is yielded. -/
lemma turns_mono {n m : Nat} {r : Cursor × Except CursorFault Instr} (h : c.turns p n = some r)
    (hnm : n ≤ m) : c.turns p m = some r := by
  induction n generalizing c m with
  | zero => simp [turns] at h
  | succ n ih =>
    obtain ⟨k, rfl⟩ : ∃ k, m = k + 1 := ⟨m - 1, by omega⟩
    simp only [turns] at h ⊢
    split at h
    · exact h
    · exact ih h (by omega)

/-- In front of an instruction, something is yielded as soon as no further template may be
entered: a template that is entered has a first instruction. -/
lemma turns_of_instr {n : Nat} {i : Instr} (h : c.station.instr? = some i)
    (hn : c.limit - c.depth < n) : ∃ r, c.turns p n = some r := by
  induction n generalizing c i with
  | zero => omega
  | succ n ih =>
    cases i with
    | enter name indent =>
      by_cases hlimit : c.limit ≤ c.depth
      · exact ⟨_, by simp only [turns, turn_tooDeep h hlimit]; rfl⟩
      · obtain ⟨c', hturn, hdepth, hstation⟩ := turn_enter (p := p) h (Nat.not_le.1 hlimit)
        have hlimit' : c'.limit = c.limit := congrArg Station.limit hstation
        -- the sequence that is entered is not empty
        obtain ⟨first, hfirst⟩ : ∃ first, c'.station.instr? = some first := by
          rw [Station.instr?, hstation]
          exact ⟨_, Array.getElem?_eq_getElem (Sequence.size_pos _)⟩
        obtain ⟨r, hr⟩ := ih hfirst (by omega)
        exact ⟨r, by simpa [turns, hturn] using hr⟩
    | text content => exact ⟨_, by simp only [turns, turn_instr h]; rfl⟩
    | interpolate escaped path => exact ⟨_, by simp only [turns, turn_instr h]; rfl⟩
    | openSection inverted path target => exact ⟨_, by simp only [turns, turn_instr h]; rfl⟩
    | closeSection path target => exact ⟨_, by simp only [turns, turn_instr h]; rfl⟩

/-- **Within the bound, something is yielded.**

**Proof sketch.** Templates that are finished are left first, each by one turn. The first one
that is not finished has an instruction, from where templates are only entered until the
greatest depth is reached. -/
theorem turns_turnBound (p : Program) (c : Cursor) : ∃ r, c.turns p c.turnBound = some r := by
  have hall : ∀ (outer : List Frame) (c : Cursor), c.outer = outer →
      ∃ r, c.turns p (c.depth + c.limit + 2) = some r := by
    intro outer
    induction outer with
    | nil =>
      intro c houter
      cases h : c.station.instr? with
      | none => exact ⟨_, by simp only [turns, turn_exhausted h houter]; rfl⟩
      | some i => exact turns_of_instr h (by omega)
    | cons f outer ih =>
      intro c houter
      cases h : c.station.instr? with
      | none =>
        obtain ⟨c', hturn, hstation⟩ := turn_leave (p := p) h houter
        have houter' : c'.outer = outer := congrArg Station.outer hstation
        have hlimit : c'.limit = c.limit := congrArg Station.limit hstation
        have hdepth : c.depth = c'.depth + 1 := by
          rw [c.depth_eq, c'.depth_eq, houter, houter', List.length_cons]
        obtain ⟨r, hr⟩ := ih c' houter'
        refine ⟨r, ?_⟩
        rw [show c.depth + c.limit + 2 = c'.depth + c'.limit + 2 + 1 by omega]
        simpa [turns, hturn] using hr
      | some i => exact turns_of_instr h (by omega)
  exact hall c.outer c rfl

/-- What a turn yields is what comes next. -/
lemma next_of_turn_some {r : Except CursorFault Instr} (h : c.turn p = (c', some r)) :
    c.next p = (c', r) := by
  simp [next, turnBound, turns, h]

/-- **A turn that yields nothing does not change what comes next.** -/
theorem next_of_turn_none (h : c.turn p = (c', none)) : c.next p = c'.next p := by
  obtain ⟨r, hr⟩ := turns_turnBound p c
  obtain ⟨r', hr'⟩ := turns_turnBound p c'
  have hrest : c'.turns p (c.depth + c.limit + 1) = some r := by
    simpa [turnBound, turns, h] using hr
  have hsame : r = r' := by
    have hmax := turns_mono hrest (Nat.le_max_left _ c'.turnBound)
    rw [turns_mono hr' (Nat.le_max_right _ _)] at hmax
    exact (Option.some.inj hmax).symm
  simp [next, hr, hr', hsame]

/-- There is an instruction at a station exactly if its index is within the sequence. -/
lemma Station.isSome_instr? (σ : Station) :
    σ.instr?.isSome = decide (σ.index < σ.sequence.instrs.size) := by
  rw [Bool.eq_iff_iff]
  simp [instr?]

/-- Whether something is left to yield, seen from the station. -/
lemma hasNext_eq (c : Cursor) :
    c.hasNext = (c.station.instr?.isSome || c.station.outer.any Frame.isUnfinished) := by
  rw [Station.isSome_instr?]
  rfl

/-- Whether a frame is unfinished, seen from the station that goes on behind it. -/
lemma isUnfinished_eq (f : Frame) (outer : List Frame) (limit : Nat) :
    f.isUnfinished = (Station.back f outer limit).instr?.isSome := by
  rw [Station.isSome_instr?]
  rfl

/-- **A turn that yields nothing does not change whether something is left to yield.** -/
theorem hasNext_of_turn_none (h : c.turn p = (c', none)) : c'.hasNext = c.hasNext := by
  cases hi : c.station.instr? with
  | none =>
    cases houter : c.outer with
    | nil => simp [turn_exhausted hi houter] at h
    | cons f outer =>
      obtain ⟨d, hturn, hstation⟩ := turn_leave (p := p) hi houter
      obtain rfl : d = c' := by simpa [hturn] using h
      have houter' : c.station.outer = f :: outer := houter
      rw [hasNext_eq, hasNext_eq, hi, houter', hstation, List.any_cons,
        isUnfinished_eq f outer c.limit]
      rfl
  | some i =>
    cases i with
    | enter name indent =>
      by_cases hlimit : c.limit ≤ c.depth
      · simp [turn_tooDeep hi hlimit] at h
      · obtain ⟨d, hturn, -, hstation⟩ := turn_enter (p := p) hi (Nat.not_le.1 hlimit)
        obtain rfl : d = c' := by simpa [hturn] using h
        have hfirst : d.station.instr?.isSome := by
          rw [hstation]
          simpa [Station.instr?, Station.into] using Sequence.size_pos _
        simp [hasNext_eq, hi, hfirst]
    | text content => simp [turn_instr hi, meet] at h
    | interpolate escaped path => simp [turn_instr hi, meet] at h
    | openSection inverted path target => simp [turn_instr hi, meet] at h
    | closeSection path target => simp [turn_instr hi, meet] at h

/-! ## What a turn yields -/

/-- A turn keeps the greatest depth. -/
lemma limit_turn (p : Program) (c : Cursor) : (c.turn p).1.limit = c.limit := by
  cases hi : c.station.instr? with
  | none =>
    cases houter : c.outer with
    | nil => rw [turn_exhausted hi houter]
    | cons f outer =>
      obtain ⟨d, hturn, hstation⟩ := turn_leave (p := p) hi houter
      rw [hturn]
      exact congrArg Station.limit hstation
  | some i =>
    rw [turn_instr hi]
    cases i with
    | enter name indent =>
      rw [meet]
      split <;> rfl
    | text content => rfl
    | interpolate escaped path => rfl
    | openSection inverted path target => rfl
    | closeSection path target => rfl

/-- A turn that yields an instruction is one at an instruction. -/
lemma exists_instr_of_turn {i : Instr} (h : c.turn p = (c', some (.ok i))) :
    ∃ x, c.station.instr? = some x ∧ c.meet p x = (c', some (.ok i)) := by
  cases hx : c.station.instr? with
  | some x => exact ⟨x, rfl, (turn_instr hx).symm.trans h⟩
  | none =>
    cases houter : c.outer with
    | nil =>
      rw [turn_exhausted hx houter] at h
      cases h
    | cons f outer =>
      obtain ⟨d, hturn, -⟩ := turn_leave (p := p) hx houter
      rw [hturn] at h
      cases h

/-- **A turn fails at an inclusion at the greatest depth only**, as long as something is left to
yield. -/
theorem eq_tooDeep_of_turn {fault : CursorFault} (hmore : c.hasNext = true)
    (h : c.turn p = (c', some (.error fault))) : ∃ name, fault = .tooDeep c.limit name := by
  cases hi : c.station.instr? with
  | none =>
    cases houter : c.outer with
    | nil =>
      -- nothing is left at the end of the outermost sequence
      have houter' : c.station.outer = [] := houter
      rw [hasNext_eq, hi, houter'] at hmore
      cases hmore
    | cons f outer =>
      obtain ⟨d, hturn, -⟩ := turn_leave (p := p) hi houter
      rw [hturn] at h
      cases h
  | some i =>
    rw [turn_instr hi] at h
    cases i with
    | enter name indent =>
      rw [meet] at h
      split at h
      · cases h
        exact ⟨name, rfl⟩
      · cases h
    | text content => cases h
    | interpolate escaped path => cases h
    | openSection inverted path target => cases h
    | closeSection path target => cases h

end Cursor

end Stencil
