import Mathlib.Tactic.Lemma
import Stencil.Proofs.Code.Bracketing
import Stencil.Proofs.Render.Deliveries
import Stencil.Proofs.Render.Walks

/-!
# Scopes and cursor keep in step

The machine keeps two stacks: the scopes of the sections that run, and the frames of the
templates at hand, each with its place in a sequence. Between two steps of a run the scopes are
those of the sections around the places of the frames. So no step meets the end of a section
that does not run, and a run fails by too deep an inclusion only.

## Main definitions

* `Sequence.sectionsAt` — the sections around a place in a sequence.
* `Cursor.entered` — the sections that the frames of a walk have entered and not left.
* `Machine.InStep` — the scopes are those of these sections.

## Main results

* `Machine.InStep.perform` — acting upon what the cursor yields succeeds, and keeps in step.
* `Machine.InStep.next` — what the cursor yields between two steps.
* `Machine.Reaches.inStep` — every run keeps in step.
* `Program.IsSequenced.run_inStep` — what follows for every run and every rendering.
-/

namespace Stencil

open Node Cursor

/-! ## The sections around a place -/

/-- The sections that are open behind an instruction, given those open in front of it, innermost
first. -/
def Instr.track (opened : List Path) : Instr → List Path
  | .openSection _ path _ => path :: opened
  | .closeSection _ _ => opened.tail
  | _ => opened

/-- The sections of a sequence around an index, innermost first: those that were opened and not
closed before it. -/
def Sequence.sectionsAt (s : Sequence) (i : Nat) : List Path :=
  (s.instrs.toList.take i).foldl Instr.track []

mutual

/-- Behind a tree, the same sections are open as in front of it. -/
lemma foldl_track_layout (opened : List Path) (i : Nat) :
    (n : Node) → (n.layout i).foldl Instr.track opened = opened
  | .text _ => rfl
  | .interpolate _ _ => rfl
  | .enter _ _ => rfl
  | .region inverted path body => by
    have hbody := foldl_track_layoutAll (path :: opened) (i + 1) body
    simp [layout, Instr.track, hbody]

/-- Behind a list of trees, the same sections are open as in front of it. -/
lemma foldl_track_layoutAll (opened : List Path) (i : Nat) :
    (ns : List Node) → (layoutAll i ns).foldl Instr.track opened = opened
  | [] => rfl
  | n :: ns => by
    rw [layoutAll, List.foldl_append, foldl_track_layout opened i n]
    exact foldl_track_layoutAll opened (i + n.size) ns

end

namespace Sequence

variable {s : Sequence} {i : Nat}

/-- No section is around the first instruction. -/
lemma sectionsAt_zero (s : Sequence) : s.sectionsAt 0 = [] := rfl

/-- The sections behind some instructions, from those in front of them. -/
lemma sectionsAt_add {xs : List Instr} (h : Stands s.instrs.toList i xs) :
    s.sectionsAt (i + xs.length) = xs.foldl Instr.track (s.sectionsAt i) := by
  have htake : (s.instrs.toList.drop i).take xs.length = xs := by
    obtain ⟨rest, hrest⟩ := h
    rw [← hrest, List.take_left]
  rw [sectionsAt, List.take_add, htake, List.foldl_append]
  rfl

/-- The sections behind an instruction, from those in front of it. -/
lemma sectionsAt_succ {x : Instr} (h : s.instrs[i]? = some x) :
    s.sectionsAt (i + 1) = x.track (s.sectionsAt i) := by
  have hx : s.instrs.toList[i]? = some x := by rwa [Array.getElem?_toList]
  rw [sectionsAt, List.take_add_one, hx, Option.toList_some, List.foldl_append]
  rfl

namespace IsFinished

/-- No section is around the end of a finished sequence. -/
lemma sectionsAt_end (h : s.IsFinished) (hi : s.instrs[i]? = none) : s.sectionsAt i = [] := by
  have hsize : s.instrs.toList.length ≤ i := by simpa using hi
  rw [sectionsAt, List.take_of_length_le hsize, h.layout_outline, foldl_track_layoutAll]

/-- Behind the closing of a section, the same sections are around as in front of its opening. -/
lemma sectionsAt_behind (h : s.IsFinished) {inverted : Bool} {path : Path} {target : Nat}
    (hopen : s.instrs[i]? = some (.openSection inverted path target)) :
    s.sectionsAt (target + 1) = s.sectionsAt i := by
  rw [← Array.getElem?_toList] at hopen
  obtain ⟨body, rfl, hregion⟩ := h.region_of_open hopen
  have hlength : i + 1 + sizeAll body + 1 =
      i + ((Node.region inverted path body).layout i).length := by
    rw [length_layout, size]
    omega
  rw [hlength, sectionsAt_add hregion, foldl_track_layout]

/-- In front of the closing of a section and at the start of its body, the section is around,
and otherwise what is around its opening. -/
lemma sectionsAt_close (h : s.IsFinished) {path : Path} {target : Nat}
    (hclose : s.instrs[i]? = some (.closeSection path target)) :
    s.sectionsAt i = path :: s.sectionsAt target ∧
      s.sectionsAt (target + 1) = path :: s.sectionsAt target := by
  rw [← Array.getElem?_toList] at hclose
  obtain ⟨inverted, body, rfl, hregion⟩ := h.region_of_close hclose
  obtain ⟨hopen, hbody, hlast⟩ := hregion.region
  -- the closing names the section that it ends
  rw [hclose] at hlast
  cases hlast
  rw [Array.getElem?_toList] at hopen
  have hstart : s.sectionsAt (target + 1) = path :: s.sectionsAt target :=
    sectionsAt_succ hopen
  refine ⟨?_, hstart⟩
  rw [← length_layoutAll (target + 1) body, sectionsAt_add hbody, foldl_track_layoutAll, hstart]

end IsFinished

end Sequence

/-! ## The sections of a walk -/

/-- The sections that a frame has entered and not left, innermost first: those around the place
at which it goes on when the templates that it includes are finished. -/
def Frame.entered (f : Frame) : List Path :=
  f.sequence.sectionsAt f.following

namespace Cursor

/-- The sections that the frames of a walk have entered and not left, those of the innermost
frame first, and of each frame the innermost section first. -/
def entered (c : Cursor) : List Path :=
  c.top.sequence.sectionsAt c.nextIndex ++ c.outer.flatMap Frame.entered

/-- The sections around a station. -/
def Station.entered (σ : Station) : List Path :=
  σ.sequence.sectionsAt σ.index ++ σ.outer.flatMap Frame.entered

variable {p : Program} {c d : Cursor}

/-- The sections of a walk are those around its station. -/
lemma entered_station (c : Cursor) : c.station.entered = c.entered := rfl

/-- All frames of a walk through a sequenced program stand in finished sequences. -/
lemma Station.IsWithin.isFinished {σ : Station} (h : σ.IsWithin p) (hp : p.IsSequenced) :
    σ.sequence.IsFinished := hp _ h.1

/-- **A turn that yields nothing enters and leaves no section.** -/
theorem entered_of_turn_none (hp : p.IsSequenced) (hc : c.station.IsWithin p)
    (h : c.turn p = (d, none)) : d.entered = c.entered := by
  rw [← entered_station, ← entered_station]
  cases hinstr : c.station.instr? with
  | none =>
    cases houter : c.outer with
    | nil => simp [turn_exhausted hinstr houter] at h
    | cons f outer =>
      obtain ⟨d', hturn, hstation⟩ := turn_leave (p := p) hinstr houter
      obtain rfl : d' = d := by simpa [hturn] using h
      -- no section is around the end of the template that is left
      have hend : c.station.sequence.sectionsAt c.station.index = [] :=
        (hc.isFinished hp).sectionsAt_end hinstr
      have houter' : c.station.outer = f :: outer := houter
      rw [hstation, Station.entered, Station.entered, hend, houter']
      rfl
  | some i =>
    cases i with
    | enter name indent =>
      by_cases hlimit : c.limit ≤ c.depth
      · simp [turn_tooDeep hinstr hlimit] at h
      · obtain ⟨d', hturn, -, hstation⟩ := turn_enter (p := p) hinstr (Nat.not_le.1 hlimit)
        obtain rfl : d' = d := by simpa [hturn] using h
        -- the frame of the inclusion goes on behind it
        have hframe : Frame.entered ⟨c.station.sequence, some c.station.index, c.station.indent⟩ =
            c.station.sequence.sectionsAt c.station.index :=
          Sequence.sectionsAt_succ hinstr
        rw [hstation, Station.into, Station.entered, Station.entered, Sequence.sectionsAt_zero,
          List.flatMap_cons, hframe, List.nil_append]
    | text content => simp [turn_instr hinstr, meet] at h
    | interpolate escaped path => simp [turn_instr hinstr, meet] at h
    | openSection inverted path target => simp [turn_instr hinstr, meet] at h
    | closeSection path target => simp [turn_instr hinstr, meet] at h

end Cursor

/-! ## Scopes -/

namespace Scopes

/-- A section that is met is skipped, or it becomes the innermost one that runs. -/
lemma openSection_cases (s : Scopes) (inverted : Bool) (path : Path) :
    s.openSection inverted path = (false, s) ∨
      ∃ scope : Scope, scope.path = path ∧
        s.openSection inverted path = (true, { s with inner := scope :: s.inner }) := by
  rw [openSection]
  by_cases hruns : (contextsOf (s.get? path)).isEmpty = inverted
  · exact .inr ⟨_, rfl, if_pos hruns⟩
  · exact .inl (if_neg hruns)

/-- The innermost section that runs ends, or runs again with other data. -/
lemma closeSection_cases {s : Scopes} {scope : Scope} {outer : List Scope}
    (h : s.inner = scope :: outer) :
    s.closeSection scope.path = .ok (false, { s with inner := outer }) ∨
      ∃ left, s.closeSection scope.path =
        .ok (true, { s with inner := { scope with contexts := left } :: outer }) := by
  simp only [closeSection, h, if_true]
  split
  · exact .inl rfl
  · exact .inr ⟨_, rfl⟩

end Scopes

/-! ## Steps -/

namespace Machine

/-- The walk stays in the program, and the scopes are those of the sections that it has entered
and not left. -/
structure InStep (p : Program) (m : Machine) : Prop where
  isWithin : m.cursor.station.IsWithin p
  paths_eq : m.scopes.inner.map (·.path) = m.cursor.entered

namespace InStep

variable {p : Program} {m : Machine} {c : Cursor}

/-- The machine in front of a program is in step. -/
lemma start (p : Program) (limit : Nat) (root : Value) : InStep p (.start p limit root) :=
  ⟨(Visits.start : Visits p limit (.start p limit)).isWithin, rfl⟩

/-- A turn that yields nothing keeps in step. -/
lemma of_turn_none (hp : p.IsSequenced) (h : InStep p m) (hturn : m.cursor.turn p = (c, none)) :
    InStep p { m with cursor := c } := by
  refine ⟨?_, ?_⟩
  · have hc := h.isWithin.turn
    rwa [hturn] at hc
  · exact h.paths_eq.trans (entered_of_turn_none hp h.isWithin hturn).symm

/-- A machine is in step if its cursor goes on in the sequence at hand and its scopes are those
around the place there. -/
lemma of_station (h : InStep p m) {i : Nat} {m' : Machine}
    (hstation : m'.cursor.station = m.cursor.station.at i)
    (hpaths : m'.scopes.inner.map (·.path) =
      m.cursor.top.sequence.sectionsAt i ++ m.cursor.outer.flatMap Frame.entered) :
    InStep p m' := by
  refine ⟨hstation ▸ h.isWithin, ?_⟩
  rw [hpaths, ← entered_station, hstation]
  rfl

/-- **Acting upon what the cursor yields succeeds, and keeps in step.** In particular a section
that is closed is the innermost one that runs.

**Proof sketch.** The sections around the place at hand change with it: an opening that is
entered adds one, a closing that is not repeated takes one away, and a section that is skipped
or repeated leads to a place with the same sections around. -/
theorem perform (hp : p.IsSequenced) (h : InStep p m) {i : Instr}
    (hturn : m.cursor.turn p = (c, some (.ok i))) :
    ∃ e m', Machine.perform { m with cursor := c } i = .ok (e, m') ∧ InStep p m' := by
  have hpaths := h.paths_eq
  have hfinished : m.cursor.top.sequence.IsFinished := h.isWithin.isFinished hp
  obtain ⟨x, hinstr, hmeet⟩ := exists_instr_of_turn hturn
  have hsucc : m.cursor.top.sequence.sectionsAt (m.cursor.nextIndex + 1) =
      x.track (m.cursor.top.sequence.sectionsAt m.cursor.nextIndex) :=
    Sequence.sectionsAt_succ hinstr
  cases x with
  | text content =>
    cases hmeet
    refine ⟨_, _, rfl, h.of_station (i := m.cursor.nextIndex + 1) rfl ?_⟩
    rw [hsucc]
    exact hpaths
  | interpolate escaped path =>
    cases hmeet
    refine ⟨_, _, rfl, h.of_station (i := m.cursor.nextIndex + 1) rfl ?_⟩
    rw [hsucc]
    exact hpaths
  | enter name indent =>
    rw [meet] at hmeet
    split at hmeet <;> cases hmeet
  | openSection inverted path target =>
    cases hmeet
    rcases m.scopes.openSection_cases inverted path with hskip | ⟨scope, rfl, hrun⟩
    · simp only [Machine.perform, hskip]
      refine ⟨_, _, rfl, h.of_station (i := target + 1) rfl ?_⟩
      rw [hfinished.sectionsAt_behind hinstr]
      exact hpaths
    · simp only [Machine.perform, hrun]
      refine ⟨_, _, rfl, h.of_station (i := m.cursor.nextIndex + 1) rfl ?_⟩
      rw [hsucc]
      exact congrArg (scope.path :: ·) hpaths
  | closeSection path target =>
    cases hmeet
    obtain ⟨hhere, hbody⟩ := hfinished.sectionsAt_close (i := m.cursor.nextIndex) hinstr
    have hentered : m.scopes.inner.map (·.path) =
        path :: (m.cursor.top.sequence.sectionsAt target ++
          m.cursor.outer.flatMap Frame.entered) := by
      rw [hpaths, entered, hhere]
      rfl
    obtain ⟨scope, outer, hinner, rfl, houter⟩ := List.map_eq_cons_iff.1 hentered
    rcases Scopes.closeSection_cases hinner with hend | ⟨left, hagain⟩
    · simp only [Machine.perform, hend]
      refine ⟨_, _, rfl, h.of_station (i := m.cursor.nextIndex + 1) rfl ?_⟩
      rw [hsucc, Instr.track, hhere]
      exact houter
    · simp only [Machine.perform, hagain]
      refine ⟨_, _, rfl, h.of_station (i := target + 1) rfl ?_⟩
      rw [hbody, List.map_cons, houter]
      rfl

/-- **What the cursor yields between two steps** is never an inclusion, and acting upon it
succeeds and keeps in step. It fails to yield at too deep an inclusion only. -/
theorem next (hp : p.IsSequenced) (h : InStep p m) (hmore : m.cursor.hasNext = true) :
    (∀ c fault, m.cursor.next p = (c, .error fault) →
      ∃ name, fault = .tooDeep m.cursor.limit name) ∧
    ∀ c i, m.cursor.next p = (c, .ok i) → i.included? = none ∧
      ∃ e m', Machine.perform { m with cursor := c } i = .ok (e, m') ∧ InStep p m' := by
  -- turns that yield nothing lead to a turn that yields, and keep in step on their way
  obtain ⟨d, d', r, ⟨hd, hdmore, hlimit⟩, hyield, hnext⟩ :=
    exists_turn_eq_next (p := p) (c := m.cursor)
      (Q := fun d => InStep p { m with cursor := d } ∧ d.hasNext = true ∧
        d.limit = m.cursor.limit)
      (fun d d' hd hsilent => by
        obtain ⟨hd, hdmore, hlimit⟩ := hd
        have hkeep := limit_turn p d
        rw [hsilent] at hkeep
        exact ⟨of_turn_none (m := { m with cursor := d }) hp hd hsilent,
          (hasNext_of_turn_none hsilent).trans hdmore, hkeep.trans hlimit⟩)
      ⟨h, hmore, rfl⟩
  rw [hnext]
  constructor
  · rintro c fault ⟨⟩
    rw [← hlimit]
    exact eq_tooDeep_of_turn hdmore hyield
  · rintro c i ⟨⟩
    obtain ⟨e, m', hperform, hm'⟩ := hd.perform hp hyield
    refine ⟨?_, e, m', hperform, hm'⟩
    cases i with
    | enter name indent => cases hperform
    | text content => rfl
    | interpolate escaped path => rfl
    | openSection inverted path target => rfl
    | closeSection path target => rfl

end InStep

/-- **Every run keeps in step.** -/
theorem Reaches.inStep {p : Program} {limit : Nat} {root : Value} {m : Machine}
    (hp : p.IsSequenced) (h : Reaches p (.start p limit root) m) : InStep p m := by
  induction h with
  | start => exact .start p limit root
  | step _ hmore hstep ih =>
    obtain ⟨c, i, hnext, hperform⟩ := step_eq_ok hstep
    obtain ⟨-, e, m', hperform', hm'⟩ := (ih.next hp hmore).2 c i hnext
    -- acting upon an instruction has one outcome
    rw [hperform] at hperform'
    cases hperform'
    exact hm'

end Machine

/-! ## Renderings -/

namespace Program.IsSequenced

variable {p : Program}

/-- A run fails by too deep an inclusion only. -/
lemma fault_run (hp : p.IsSequenced) {limit : Nat} {root : Value} {fault : RunFault}
    (h : (p.run limit root).fault = some fault) :
    ∃ name, fault = .cursor (.tooDeep limit name) := by
  obtain ⟨m, hm, hmore, hstep⟩ := Machine.exists_step_of_fault .start h
  obtain ⟨hfail, hact⟩ := (hm.inStep hp).next hp hmore
  rw [hm.visits.limit_eq] at hfail
  unfold Machine.step at hstep
  split at hstep
  · rename_i c found hnext
    obtain ⟨name, rfl⟩ := hfail c found hnext
    exact ⟨name, (Except.error.inj hstep).symm⟩
  · rename_i c i hnext
    obtain ⟨-, e, m', hperform, -⟩ := hact c i hnext
    rw [hperform] at hstep
    cases hstep

/-- A rendering fails by too deep an inclusion or by the formatter only. -/
lemma fault_render (hp : p.IsSequenced) {e : Engine} {limit : Nat} {root : Value}
    {fault : RenderFault} (h : (e.render p (some limit) root).fault = some fault) :
    (∃ name, fault = .run (.cursor (.tooDeep limit name))) ∨
      ∃ v g, e.formatter v = .error g ∧ fault = .format g := by
  rcases Trace.fault_outputFrom h with ⟨g, hg, rfl⟩ | hformat
  · obtain ⟨name, rfl⟩ := hp.fault_run hg
    exact .inl ⟨name, rfl⟩
  · exact .inr hformat

/-- Rendering to a text fails by too deep an inclusion or with a fault of the formatter only. -/
lemma fault_renderText (hp : p.IsSequenced) {e : Engine} {limit : Nat} {root : Value}
    {fault : Fault} (h : e.renderText p (some limit) (.ok root) = .error fault) :
    (fault.kind = .contractViolation → ∃ v, e.formatter v = .error fault) ∧
      ((∃ name, fault = .ofCause (.run (.cursor (.tooDeep limit name)))) ∨
        ∃ v, e.formatter v = .error fault) := by
  rw [Engine.renderText_eq] at h
  split at h
  · cases h
  · rename_i found hfound
    cases h
    rcases hp.fault_render hfound with ⟨name, rfl⟩ | ⟨v, g, hg, rfl⟩
    · exact ⟨nofun, .inl ⟨name, rfl⟩⟩
    · exact ⟨fun _ => ⟨v, hg⟩, .inr ⟨v, hg⟩⟩

/-- **Scopes and cursor keep in step in every run of a program that was sequenced.** Between two
steps the scopes are those of the sections that the frames have entered and not left. As long
as something is left, the cursor yields what is no inclusion, or fails at the greatest depth,
and no answer to it fails. So a rendering to a text fails at the greatest depth or with a fault of
the formatter, one to a sink also with that of the sink. None violates a contract: a fault that
tells of a violated contract is one with which the formatter failed.

**Proof sketch.** A step consists of turns that yield nothing, which enter and leave no section,
and of the answer to what is yielded at last, which opens or closes the innermost one on both
sides. The fault of a run is that of a step. -/
theorem run_inStep (hp : p.IsSequenced) (limit : Nat) (root : Value) :
    (∀ m, Machine.Reaches p (.start p limit root) m →
      m.scopes.inner.map (·.path) = m.cursor.entered ∧
      (m.cursor.hasNext = true →
        (∀ c fault, m.cursor.next p = (c, .error fault) → ∃ name, fault = .tooDeep limit name) ∧
        ∀ c i, m.cursor.next p = (c, .ok i) → i.included? = none ∧
          ∃ e m', Machine.perform { m with cursor := c } i = .ok (e, m'))) ∧
    ∀ (e : Engine) (fault : Fault),
      (e.renderText p (some limit) (.ok root) = .error fault →
        (fault.kind = .contractViolation → ∃ v, e.formatter v = .error fault) ∧
          ((∃ name, fault = .ofCause (.run (.cursor (.tooDeep limit name)))) ∨
            ∃ v, e.formatter v = .error fault)) ∧
      ∀ sink : Sink, (e.renderTo p (some limit) (.ok root) sink).2 = .error fault →
        (fault.kind = .contractViolation → ∃ v, e.formatter v = .error fault) ∧
          ((∃ name, fault = .ofCause (.run (.cursor (.tooDeep limit name)))) ∨
            (∃ v, e.formatter v = .error fault) ∨
              ∃ g, (e.renderTo p (some limit) (.ok root) sink).1.fault = some g ∧
                fault = .ofCause (.transfer g)) := by
  refine ⟨fun m hm => ?_, fun e fault => ⟨fun htext => ?_, fun sink hsink => ?_⟩⟩
  · have hstep := hm.inStep hp
    refine ⟨hstep.paths_eq, fun hmore => ?_⟩
    obtain ⟨hfail, hact⟩ := hstep.next hp hmore
    rw [hm.visits.limit_eq] at hfail
    refine ⟨hfail, fun c i hnext => ?_⟩
    obtain ⟨hi, event, m', hperform, -⟩ := hact c i hnext
    exact ⟨hi, event, m', hperform⟩
  · exact hp.fault_renderText htext
  · rcases Engine.fault_renderTo hsink with htext | ⟨g, hg, rfl⟩
    · obtain ⟨hkind, hdeep | hformat⟩ := hp.fault_renderText htext
      · exact ⟨hkind, .inl hdeep⟩
      · exact ⟨hkind, .inr (.inl hformat)⟩
    · exact ⟨nofun, .inr (.inr ⟨g, hg, rfl⟩)⟩

end Program.IsSequenced

/-- A section around an included template, whose own section includes a template that nobody
knows, at the greatest depth. -/
theorem run_inStep_on_unknown :
    ∃ (p : Program) (root : Value) (m : Machine) (fault : Fault), p.IsSequenced ∧
      Machine.Reaches p (.start p 1 root) m ∧
      m.cursor.entered.map (·.segments) = [["t"], ["s"]] ∧
      m.scopes.inner.map (·.path) = m.cursor.entered ∧
      Engine.empty.renderText p (some 1) (.ok root) = .error fault ∧
      fault.kind ≠ .contractViolation := by
  let main : Sequence :=
    ⟨#[.openSection false ⟨["s"], by decide⟩ 2, .enter "p" "",
      .closeSection ⟨["s"], by decide⟩ 0], by decide⟩
  let item : Sequence :=
    ⟨#[.openSection false ⟨["t"], by decide⟩ 3, .text "x", .enter "unknown" "",
      .closeSection ⟨["t"], by decide⟩ 0], by decide⟩
  let p : Program := ⟨"", main, ⟨[("p", item)], List.pairwise_singleton _ _⟩⟩
  let root : Value := .map [("s", .list [.bool true, .bool true]), ("t", .bool true)]
  have hmain : main.IsFinished :=
    Sequence.isFinished_of_ofList (show Sequence.ofList main.instrs.toList = .ok main from rfl)
  have hitem : item.IsFinished :=
    Sequence.isFinished_of_ofList (show Sequence.ofList item.instrs.toList = .ok item from rfl)
  have hp : p.IsSequenced := by
    intro s hs
    rcases List.mem_cons.1 hs with rfl | hs
    · exact hmain
    · obtain rfl : s = item := by simpa [p] using hs
      exact hitem
  obtain ⟨hruns, hfaults⟩ := hp.run_inStep 1 root
  -- both openings and the text have been yielded
  have hfirst : Machine.Reaches p (.start p 1 root) (.start p 1 root) := .start
  have hopened := hfirst.step rfl rfl
  have hinner := hopened.step rfl rfl
  have hreach := hinner.step rfl rfl
  have hfault : (Engine.empty.render p (some 1) root).fault =
      some (.run (.cursor (.tooDeep 1 "unknown"))) := by decide +kernel
  have htext : Engine.empty.renderText p (some 1) (.ok root) =
      .error (.ofCause (.run (.cursor (.tooDeep 1 "unknown")))) := by
    rw [Engine.renderText_eq, hfault]
    rfl
  refine ⟨p, root, _, _, hp, hreach, by rfl, (hruns _ hreach).1, htext, fun hkind => ?_⟩
  obtain ⟨v, hv⟩ := ((hfaults Engine.empty _).1 htext).1 hkind
  exact Formatter.escaped_ne_error v _ hv

end Stencil
