import Mathlib.Tactic.Lemma
import Stencil.Proofs.Render.Scripts

/-!
# What one call for an instruction does

As long as something is left to yield, a call for the next instruction goes on in one of the
frames at hand: in the innermost one, or, if this one is finished, in one of those around. It
reaches the next place there, and from this place on it only enters templates, each at its first
instruction, until it comes to an instruction that is yielded or to an inclusion that lies too
deep. The frames around are not touched.

## Main definitions

* `Cursor.frames` — the frames at hand, innermost first.
* `Cursor.Resumes` — the frame in which a walk goes on, and the index in it.
* `Cursor.Advance` — what a call for the next instruction does.
* `Cursor.ContinuesAt` — the next call goes on at a given index of the innermost frame.

## Main results

* `Cursor.exists_advance` — every call does what `Cursor.Advance` says.
* `Cursor.continuesAt_nextIndex` — where a walk goes on.
* `Cursor.Visits.next_ne` — a call for the next instruction always changes the cursor.
-/

namespace Stencil

/-- The frame at another place. -/
def Frame.at (f : Frame) (i : Nat) : Frame := { f with index := some i }

/-- What is pending behind an instruction that was yielded. -/
def Instr.pending : Instr → Pending
  | openSection _ _ target => .opened target
  | closeSection _ target => .closed target
  | _ => .nothing

/-- An instruction as it is yielded: text with its indentation. -/
def Instr.shown (indent : String) : Instr → Instr
  | text content => text (Cursor.indented indent content)
  | i => i

/-- An instruction that names a template is an inclusion of it. -/
lemma Instr.eq_enter_of_included {i : Instr} {name : String} (h : i.included? = some name) :
    ∃ indent, i = .enter name indent := by
  cases i with
  | enter name' indent => cases h; exact ⟨indent, rfl⟩
  | text content => cases h
  | interpolate escaped path => cases h
  | openSection inverted path target => cases h
  | closeSection path target => cases h

/-- How an instruction is shown plays no part for what is pending. -/
@[simp] lemma Instr.pending_shown (indent : String) (i : Instr) :
    (i.shown indent).pending = i.pending := by
  cases i <;> rfl

namespace Cursor

/-- The frames at hand, innermost first. -/
def frames (c : Cursor) : List Frame := c.top :: c.outer

/-- **The walk goes on at an index of a frame**, around which there are others: in the innermost
frame, or behind the inclusion at which one of those around stands. -/
inductive Resumes (c : Cursor) : Frame → List Frame → Nat → Prop where
  | here : Resumes c c.top c.outer c.nextIndex
  | back {f : Frame} {outer : List Frame} : c.top.sequence.instrs.size ≤ c.nextIndex →
      f :: outer <:+ c.outer → Resumes c f outer f.following

/-- **What a call for the next instruction does**, from the cursor `c` to the cursor `d`. -/
structure Advance (c d : Cursor) (r : Except CursorFault Instr) (f : Frame) (outer : List Frame)
    (q : Nat) : Prop where
  resumes : c.Resumes f outer q
  lt_size : q < f.sequence.instrs.size
  /-- Further in, there are only templates of which the first instruction was reached. -/
  frames_eq : ∃ entered, d.frames = entered ++ f.at q :: outer ∧ ∀ g ∈ entered, g.index = some 0
  /-- What was reached last is yielded, or it is an inclusion at the greatest depth. -/
  reached : ∃ x, d.top.reached? = some x ∧ d.pending = x.pending ∧
    (x.included? = none ∧ r = .ok (x.shown d.indent) ∨
      ∃ name, x.included? = some name ∧ r = .error (.tooDeep c.limit name))

variable {p : Program} {limit : Nat} {c c' d : Cursor}

/-- A turn at an instruction that is no inclusion yields it. -/
lemma turn_of_not_included {x : Instr} (h : c.station.instr? = some x) (hx : x.included? = none) :
    c.turn p = ({ c.behind with pending := x.pending }, some (.ok (x.shown c.indent))) := by
  rw [turn_instr h]
  cases x with
  | enter name indent => cases hx
  | text content => rfl
  | interpolate escaped path => rfl
  | openSection inverted path target => rfl
  | closeSection path target => rfl

/-- What a turn that yields something does at an instruction. -/
lemma reached_of_turn {x : Instr} {r : Except CursorFault Instr} (h : c.station.instr? = some x)
    (hturn : c.turn p = (d, some r)) :
    d.frames = c.top.at c.nextIndex :: c.outer ∧ d.top.reached? = some x ∧
      d.pending = x.pending ∧ (x.included? = none ∧ r = .ok (x.shown d.indent) ∨
        ∃ name, x.included? = some name ∧ r = .error (.tooDeep c.limit name)) := by
  cases hx : x.included? with
  | none =>
    rw [turn_of_not_included h hx] at hturn
    cases hturn
    exact ⟨rfl, h, rfl, .inl ⟨rfl, rfl⟩⟩
  | some name =>
    obtain ⟨indent, rfl⟩ := Instr.eq_enter_of_included hx
    rw [turn_instr h, meet] at hturn
    split at hturn
    · cases hturn
      exact ⟨rfl, h, rfl, .inr ⟨name, rfl, rfl⟩⟩
    · cases hturn

/-- A cursor on the way to what comes next: it still goes on where the first one does, or it has
reached the next place there and has only entered templates since. -/
def Underway (c d : Cursor) : Prop :=
  (∀ f outer q, d.Resumes f outer q → c.Resumes f outer q) ∨
    ∃ f outer q entered, c.Resumes f outer q ∧ q < f.sequence.instrs.size ∧
      d.outer = entered ++ f.at q :: outer ∧ (∀ g ∈ entered, g.index = some 0) ∧ d.nextIndex = 0

/-- A cursor on the way that stands in front of an instruction: the frames when it is reached. -/
lemma Underway.exists_frames {x : Instr} (h : Underway c d) (hx : d.station.instr? = some x) :
    ∃ f outer q entered, c.Resumes f outer q ∧ q < f.sequence.instrs.size ∧
      d.top.at d.nextIndex :: d.outer = entered ++ f.at q :: outer ∧
      ∀ g ∈ entered, g.index = some 0 := by
  rcases h with hresumes | ⟨f, outer, q, entered, hresumes, hlt, houter, hentered, hzero⟩
  · refine ⟨d.top, d.outer, d.nextIndex, [], hresumes _ _ _ .here, ?_, rfl, by simp⟩
    exact (Array.getElem?_eq_some_iff.1 hx).1
  · refine ⟨f, outer, q, d.top.at d.nextIndex :: entered, hresumes, hlt, by rw [houter]; rfl, ?_⟩
    intro g hg
    rcases List.mem_cons.1 hg with rfl | hg
    · rw [hzero]
      rfl
    · exact hentered g hg

/-- A turn that yields nothing leads on. -/
lemma Underway.turn (h : Underway c d) (hturn : d.turn p = (c', none)) : Underway c c' := by
  cases hx : d.station.instr? with
  | none =>
    cases houter : d.outer with
    | nil => simp [turn_exhausted hx houter] at hturn
    | cons f outer =>
      have hframes := turn_leave_frames (p := p) hx houter
      rw [hturn] at hframes
      obtain ⟨rfl, rfl, hpending⟩ := hframes
      have hend : d.top.sequence.instrs.size ≤ d.nextIndex := by
        simpa [station, Station.instr?] using hx
      rcases h with hresumes | ⟨-, -, -, -, -, -, -, -, hzero⟩
      · refine .inl fun g around q hg => hresumes g around q ?_
        cases hg with
        | here =>
          rw [nextIndex_of_nothing hpending]
          exact .back hend (houter ▸ List.suffix_refl _)
        | back _ hsuffix =>
          exact .back hend (houter ▸ hsuffix.trans (List.suffix_cons _ _))
      · -- a template that was entered has an instruction
        have hpos := d.top.sequence.size_pos
        omega
  | some x =>
    cases hincluded : x.included? with
    | none => simp [turn_of_not_included hx hincluded] at hturn
    | some name =>
      obtain ⟨f, outer, q, entered, hresumes, hlt, hframes, hentered⟩ := h.exists_frames hx
      obtain ⟨indent, rfl⟩ := Instr.eq_enter_of_included hincluded
      rw [turn_instr hx, meet] at hturn
      split at hturn
      · cases hturn
      · cases hturn
        exact .inr ⟨f, outer, q, entered, hresumes, hlt, hframes, hentered, rfl⟩

/-- **As long as something is left to yield, a call for the next instruction advances.**

**Proof sketch.** Turns that yield nothing leave finished templates first and then enter others,
and the turn that yields something does so at an instruction. -/
theorem exists_advance (p : Program) (hmore : c.hasNext = true) :
    ∃ f outer q, c.Advance (c.next p).1 (c.next p).2 f outer q := by
  obtain ⟨d, d', r, ⟨hway, hd, hlimit⟩, hyield, hnext⟩ :=
    exists_turn_eq_next (p := p) (c := c)
      (Q := fun d => Underway c d ∧ d.hasNext = true ∧ d.limit = c.limit)
      (fun d d' hd hsilent => by
        obtain ⟨hway, hmore, hlimit⟩ := hd
        have hkeep := limit_turn p d
        rw [hsilent] at hkeep
        exact ⟨hway.turn hsilent, (hasNext_of_turn_none hsilent).trans hmore,
          hkeep.trans hlimit⟩)
      ⟨.inl fun _ _ _ h => h, hmore, rfl⟩
  rw [hnext]
  cases hx : d.station.instr? with
  | none =>
    cases houter : d.outer with
    | nil =>
      -- nothing is left at the end of the main sequence
      have houter' : d.station.outer = [] := houter
      rw [hasNext_eq, hx, houter'] at hd
      cases hd
    | cons f outer =>
      obtain ⟨e, hleave, -⟩ := turn_leave (p := p) hx houter
      simp [hleave] at hyield
  | some x =>
    obtain ⟨f, outer, q, entered, hresumes, hlt, hframes, hentered⟩ := hway.exists_frames hx
    obtain ⟨hframes', hreached⟩ := reached_of_turn hx hyield
    refine ⟨f, outer, q, hresumes, hlt, ⟨entered, hframes'.trans hframes, hentered⟩, x, ?_⟩
    rw [← hlimit]
    exact hreached

/-- Where an instruction is yielded, something was left. -/
lemma hasNext_of_next {i : Instr} (h : c.next p = (d, .ok i)) : c.hasNext = true := by
  cases hmore : c.hasNext with
  | true => rfl
  | false =>
    have hfail := (next_of_not_hasNext p hmore).1
    rw [h] at hfail
    cases hfail

/-- What is yielded is the instruction that was reached last. -/
lemma reached_of_next {i : Instr} (h : c.next p = (d, .ok i)) :
    ∃ x, d.top.reached? = some x ∧ i = x.shown d.indent ∧ d.pending = i.pending := by
  obtain ⟨f, outer, q, hadvance⟩ := exists_advance p (hasNext_of_next h)
  obtain ⟨x, hx, hpending, hyield⟩ := hadvance.reached
  rw [h] at hx hpending hyield
  rcases hyield with ⟨-, hyield⟩ | ⟨name, -, hfail⟩
  · have hi : i = x.shown d.indent := Except.ok.inj hyield
    exact ⟨x, hx, hi, by rw [hpending, hi, Instr.pending_shown]⟩
  · cases hfail

/-! ## Where a walk goes on -/

/-- **The next call goes on at an index of the innermost frame.** If there is an instruction, it is
reached, and yielded if it is no inclusion. If there is none, the frame is left, and as long as
something is left to yield, the walk goes on behind the inclusion at which some frame around
stands. -/
structure ContinuesAt (p : Program) (c : Cursor) (q : Nat) : Prop where
  reaches : q < c.top.sequence.instrs.size → c.top.at q :: c.outer <:+ (c.next p).1.frames
  yields : ∀ x, c.top.sequence.instrs[q]? = some x → x.included? = none →
    (c.next p).2 = .ok (x.shown c.indent) ∧ (c.next p).1.frames = c.top.at q :: c.outer
  leaves : c.top.sequence.instrs.size ≤ q → c.hasNext = true →
    ∃ f outer, f :: outer <:+ c.outer ∧ f.at f.following :: outer <:+ (c.next p).1.frames

/-- **Where a walk goes on.** -/
theorem continuesAt_nextIndex (p : Program) (c : Cursor) : c.ContinuesAt p c.nextIndex := by
  have hsuffix : ∀ {f : Frame} {outer : List Frame} {q : Nat},
      c.Advance (c.next p).1 (c.next p).2 f outer q →
        f.at q :: outer <:+ (c.next p).1.frames := by
    intro f outer q h
    obtain ⟨entered, hframes, -⟩ := h.frames_eq
    rw [hframes]
    exact List.suffix_append entered _
  refine ⟨fun hlt => ?_, fun x hx hnone => ?_, fun hend hmore => ?_⟩
  · obtain ⟨f, outer, q, h⟩ := exists_advance p (hasNext_of_lt hlt)
    cases h.resumes with
    | here => exact hsuffix h
    | back hend _ => omega
  · have hturn := turn_of_not_included (p := p) (c := c) hx hnone
    rw [next_of_turn_some hturn]
    exact ⟨rfl, rfl⟩
  · obtain ⟨f, outer, q, h⟩ := exists_advance p hmore
    cases h.resumes with
    | here =>
      have hlt := h.lt_size
      omega
    | back _ hback => exact ⟨f, outer, hback, hsuffix h⟩

/-- No frame is at the place behind the one that was reached last. -/
lemma index_ne_following (f : Frame) : f.index ≠ some f.following := by
  obtain ⟨sequence, index, indent⟩ := f
  cases index with
  | none => nofun
  | some i => exact fun h => Nat.succ_ne_self i (Option.some.inj h).symm

/-- A walk never goes on at the place that was reached last. -/
lemma Visits.index_ne_nextIndex (hp : p.IsSequenced) (h : Visits p limit c)
    (hrepeat : ∀ target, c.pending ≠ .repeated target) : c.top.index ≠ some c.nextIndex := by
  cases hpending : c.pending with
  | nothing =>
    rw [nextIndex_of_nothing hpending]
    exact index_ne_following c.top
  | closed target =>
    rw [nextIndex_of_closed hpending]
    exact index_ne_following c.top
  | opened target =>
    obtain ⟨i, inverted, path, hi, -, -, hlt⟩ := h.exists_opening hp hpending
    rw [nextIndex_of_opened hpending, hi]
    intro heq
    have hi' := Option.some.inj heq
    omega
  | repeated target => exact absurd hpending (hrepeat target)

/-- **A call for the next instruction always changes the cursor**, as long as something is left to
yield. -/
theorem Visits.next_ne (hp : p.IsSequenced) (h : Visits p limit c) (hmore : c.hasNext = true) :
    (c.next p).1 ≠ c := by
  obtain ⟨f, outer, q, hadvance⟩ := exists_advance p hmore
  obtain ⟨entered, hframes, -⟩ := hadvance.frames_eq
  obtain ⟨x, -, hpending, -⟩ := hadvance.reached
  intro hsame
  rw [hsame] at hframes hpending
  cases hadvance.resumes with
  | here =>
    -- the frame at hand is at the place where the walk goes on
    have hsplit : [c.top] ++ c.outer = (entered ++ [c.top.at c.nextIndex]) ++ c.outer := by
      simpa [frames] using hframes
    have htop := List.append_cancel_right hsplit
    have hentered : entered = [] := by
      have hlength := congrArg List.length htop
      rw [List.length_append, List.length_singleton, List.length_singleton] at hlength
      exact List.length_eq_zero_iff.1 (by omega)
    rw [hentered, List.nil_append, List.singleton_inj] at htop
    refine h.index_ne_nextIndex hp (fun target hrepeat => ?_) (congrArg Frame.index htop)
    rw [hpending] at hrepeat
    cases x <;> cases hrepeat
  | back _ hback =>
    obtain ⟨front, hfront⟩ := hback
    have hsplit : c.top :: front ++ f :: outer = entered ++ f.at f.following :: outer := by
      rw [List.cons_append, hfront]
      exact hframes
    have htail := (List.append_inj' hsplit rfl).2
    exact index_ne_following f (congrArg Frame.index (List.cons.inj htail).1)

end Cursor

end Stencil
