import Mathlib.Data.List.Induction
import Mathlib.Tactic.Lemma
import Stencil.Proofs.Engine.Closure
import Stencil.Proofs.Render.Lockstep

/-!
# Scripts of calls

A caller may call the cursor in any order, also after a call that failed. Whether something is
left to yield can be asked at any time, and the answer foretells what the next call for an
instruction does. A walk that came to its end stays there, with one exception: an opening is
yielded, its section is the last thing in the main sequence and is not entered, and all the same
the next instruction is asked for. This call fails, but it also forgets that the section was to be
skipped, so the walk goes on inside of it.

## Main definitions

* `Cursor.Call`, `Cursor.after`, `Cursor.afterAll` — a call, and the cursor behind some calls.
* `Cursor.IsPlaced` — what is pending belongs to the instruction that was reached last, and the
  frames around stand at inclusions.
* `Cursor.IsOver` — nothing is left to yield, whatever is called.

## Main results

* `Cursor.next_of_hasNext`, `Cursor.next_of_not_hasNext` — what the next call for an instruction
  does, told beforehand.
* `Cursor.Visits.isPlaced` — every walk is placed.
* `Cursor.hasNext_foretells` — behind every script, whether something is left to yield.
* `Program.IsSequenced.isOver_next_iff` — the ends of walks that are final.
-/

namespace Stencil

/-- The instruction that was reached last in a frame. -/
def Frame.reached? (f : Frame) : Option Instr := f.index.bind fun i => f.sequence.instrs[i]?

namespace Cursor

/-! ## What comes next, told beforehand -/

variable {p : Program} {limit : Nat} {c c' d : Cursor}

/-- An inclusion is never yielded. -/
lemma included?_of_turn {i : Instr} (h : c.turn p = (c', some (.ok i))) : i.included? = none := by
  obtain ⟨x, -, hmeet⟩ := exists_instr_of_turn h
  cases x with
  | enter name indent =>
    rw [meet] at hmeet
    split at hmeet <;> cases hmeet
  | text content => cases hmeet; rfl
  | interpolate escaped path => cases hmeet; rfl
  | openSection inverted path target => cases hmeet; rfl
  | closeSection path target => cases hmeet; rfl

/-- **As long as something is left to yield**, the next call for an instruction yields one, or
fails at too deep an inclusion. -/
theorem next_of_hasNext (p : Program) (hmore : c.hasNext = true) :
    (∃ i, (c.next p).2 = .ok i ∧ i.included? = none) ∨
      ∃ name, (c.next p).2 = .error (.tooDeep c.limit name) := by
  obtain ⟨d, d', r, ⟨hd, hlimit⟩, hyield, hnext⟩ :=
    exists_turn_eq_next (p := p) (c := c) (Q := fun d => d.hasNext = true ∧ d.limit = c.limit)
      (fun d d' hd hsilent => by
        have hkeep := limit_turn p d
        rw [hsilent] at hkeep
        exact ⟨(hasNext_of_turn_none hsilent).trans hd.1, hkeep.trans hd.2⟩)
      ⟨hmore, rfl⟩
  rw [hnext]
  cases r with
  | ok i => exact .inl ⟨i, rfl, included?_of_turn hyield⟩
  | error fault =>
    obtain ⟨name, rfl⟩ := eq_tooDeep_of_turn hd hyield
    exact .inr ⟨name, by rw [hlimit]⟩

/-- **Where nothing is left to yield**, the next call for an instruction fails. It leaves all
included templates, and forgets what was pending. Behind an included template nothing is left
afterwards either. -/
theorem next_of_not_hasNext (p : Program) (hdone : c.hasNext = false) :
    (c.next p).2 = .error .exhausted ∧
      (c.outer = [] → (c.next p).1 = { c with pending := .nothing }) ∧
      (c.outer ≠ [] → (c.next p).1.outer = [] ∧ (c.next p).1.pending = .nothing ∧
        (c.next p).1.hasNext = false) := by
  -- silent turns lead out of included templates, and nothing is pending behind them
  obtain ⟨d, d', r, ⟨hd, hway⟩, hyield, hnext⟩ :=
    exists_turn_eq_next (p := p) (c := c)
      (Q := fun d => d.hasNext = false ∧ (d = c ∨ c.outer ≠ [] ∧ d.pending = .nothing))
      (fun d d' hd hsilent => by
        refine ⟨(hasNext_of_turn_none hsilent).trans hd.1, .inr ?_⟩
        have hend : d.station.instr? = none := by
          have h := hd.1
          rw [hasNext_eq, Bool.or_eq_false_iff] at h
          simpa using h.1
        cases houter : d.outer with
        | nil => simp [turn_exhausted hend houter] at hsilent
        | cons f outer =>
          have hframes := turn_leave_frames (p := p) hend houter
          rw [hsilent] at hframes
          refine ⟨?_, hframes.2.2⟩
          rcases hd.2 with rfl | ⟨hne, -⟩
          · rw [houter]
            exact List.cons_ne_nil f outer
          · exact hne)
      ⟨hdone, .inl rfl⟩
  have hend : d.station.instr? = none := by
    rw [hasNext_eq, Bool.or_eq_false_iff] at hd
    simpa using hd.1
  have houter : d.outer = [] := by
    cases houter : d.outer with
    | nil => rfl
    | cons f outer =>
      obtain ⟨e, hleave, -⟩ := turn_leave (p := p) hend houter
      simp [hleave] at hyield
  rw [turn_exhausted hend houter] at hyield
  cases hyield
  rw [hnext]
  refine ⟨rfl, fun hc => ?_, fun hc => ?_⟩
  · rcases hway with rfl | ⟨hne, -⟩
    · rfl
    · exact absurd hc hne
  · rcases hway with rfl | ⟨-, hpending⟩
    · exact absurd houter hc
    · refine ⟨houter, rfl, ?_⟩
      rw [← hpending]
      exact hd

/-! ## Walks are placed -/

/-- **What is pending belongs to the instruction that was reached last**, and the frames around
stand at the inclusions of the templates within. -/
structure IsPlaced (c : Cursor) : Prop where
  opened : ∀ target, c.pending = .opened target →
    ∃ inverted path, c.top.reached? = some (.openSection inverted path target)
  closed : ∀ target, c.pending = .closed target ∨ c.pending = .repeated target →
    ∃ path, c.top.reached? = some (.closeSection path target)
  around : ∀ f ∈ c.outer, ∃ name indent, f.reached? = some (.enter name indent)

namespace IsPlaced

/-- Where nothing is pending, only the frames around matter. -/
lemma of_nothing (h : c.pending = .nothing)
    (haround : ∀ f ∈ c.outer, ∃ name indent, f.reached? = some (.enter name indent)) :
    c.IsPlaced := by
  refine ⟨fun target ht => ?_, fun target ht => ?_, haround⟩
  · rw [h] at ht
    cases ht
  · rw [h] at ht
    rcases ht with ht | ht <;> cases ht

/-- A turn keeps a walk placed. -/
lemma turn (h : c.IsPlaced) : (c.turn p).1.IsPlaced := by
  cases hinstr : c.station.instr? with
  | none =>
    cases houter : c.outer with
    | nil =>
      rw [turn_exhausted hinstr houter]
      exact of_nothing rfl h.around
    | cons f outer =>
      obtain ⟨-, hframes, hpending⟩ := turn_leave_frames (p := p) hinstr houter
      refine of_nothing hpending ?_
      rw [hframes]
      exact fun g hg => h.around g (houter ▸ List.mem_cons_of_mem f hg)
  | some i =>
    have hreached : c.behind.top.reached? = some i := hinstr
    rw [turn_instr hinstr]
    cases i with
    | enter name indent =>
      rw [meet]
      split
      · exact of_nothing rfl h.around
      · refine of_nothing rfl fun g hg => ?_
        rcases List.mem_cons.1 hg with rfl | hg
        · exact ⟨name, indent, hreached⟩
        · exact h.around g hg
    | text content => exact of_nothing rfl h.around
    | interpolate escaped path => exact of_nothing rfl h.around
    | openSection inverted path target =>
      refine ⟨?_, ?_, h.around⟩
      · rintro t ⟨⟩
        exact ⟨inverted, path, hreached⟩
      · rintro t (ht | ht) <;> cases ht
    | closeSection path target =>
      refine ⟨fun t ht => (by cases ht), ?_, h.around⟩
      rintro t (ht | ht) <;> cases ht
      exact ⟨path, hreached⟩

end IsPlaced

/-- **Every walk is placed.** -/
theorem Visits.isPlaced (h : Visits p limit c) : c.IsPlaced := by
  induction h with
  | start => exact .of_nothing rfl nofun
  | turn _ ih => exact ih.turn
  | enterSection _ henter ih =>
    rw [(enterSection_eq_ok_iff.1 henter).2]
    exact .of_nothing rfl ih.around
  | exitSection _ hexit ih =>
    obtain ⟨target, hpending, rfl⟩ := exitSection_eq_ok_iff.1 hexit
    refine ⟨fun t ht => (by cases ht), ?_, ih.around⟩
    rintro t (ht | ht) <;> cases ht
    exact ih.closed target (.inl hpending)
  | reset _ _ => exact .of_nothing rfl nofun

/-- A section that is pending lies within its sequence, which goes on at least up to its end. -/
lemma Visits.exists_opening (hp : p.IsSequenced) (h : Visits p limit c) {target : Nat}
    (hpending : c.pending = .opened target) :
    ∃ i inverted path, c.top.index = some i ∧
      c.top.sequence.instrs[i]? = some (.openSection inverted path target) ∧
      c.top.sequence.instrs[target]? = some (.closeSection path i) ∧ i < target := by
  obtain ⟨inverted, path, hreached⟩ := h.isPlaced.opened target hpending
  obtain ⟨i, hi, hopen⟩ := Option.bind_eq_some_iff.1 hreached
  obtain ⟨hlt, hclose⟩ :=
    (h.isWithin.isFinished hp).wellBracketed.closing i inverted path target hopen
  exact ⟨i, inverted, path, hi, hopen, hclose, hlt⟩

/-- A section that may be repeated, or is to be, starts in front of the place that was reached. -/
lemma Visits.exists_closing (hp : p.IsSequenced) (h : Visits p limit c) {target : Nat}
    (hpending : c.pending = .closed target ∨ c.pending = .repeated target) :
    ∃ j inverted path, c.top.index = some j ∧
      c.top.sequence.instrs[j]? = some (.closeSection path target) ∧
      c.top.sequence.instrs[target]? = some (.openSection inverted path j) ∧ target < j := by
  obtain ⟨path, hreached⟩ := h.isPlaced.closed target hpending
  obtain ⟨j, hj, hclose⟩ := Option.bind_eq_some_iff.1 hreached
  have hbracketed := (h.isWithin.isFinished hp).wellBracketed
  obtain ⟨⟨inverted, hopen⟩, -⟩ := hbracketed.opening j path target hclose
  exact ⟨j, inverted, path, hj, hclose, hopen, (hbracketed.closing _ _ _ _ hopen).1⟩

/-! ## Scripts -/

/-- What a caller can ask of a cursor. -/
inductive Call where
  | next
  | enterSection
  | exitSection
  | hasNext
  | reset
  deriving DecidableEq

/-- The cursor behind a call. An answer that is refused leaves it as it is, and a call for an
instruction that fails moves on. -/
def after (p : Program) (c : Cursor) : Call → Cursor
  | .next => (c.next p).1
  | .enterSection =>
    match c.enterSection with
    | .ok c' => c'
    | .error _ => c
  | .exitSection =>
    match c.exitSection with
    | .ok c' => c'
    | .error _ => c
  | .hasNext => c
  | .reset => c.reset

/-- The cursor behind a script of calls on a new cursor. -/
def afterAll (p : Program) (limit : Nat) (script : List Call) : Cursor :=
  script.foldl (after p) (.start p limit)

/-- A call is a part of a walk, whether it fails or not. -/
lemma Visits.after (h : Visits p limit c) (call : Call) : Visits p limit (c.after p call) := by
  cases call with
  | next => exact h.of_next (show c.next p = ((c.next p).1, (c.next p).2) from rfl)
  | enterSection =>
    rw [Cursor.after]
    split
    · rename_i henter
      exact h.enterSection henter
    · exact h
  | exitSection =>
    rw [Cursor.after]
    split
    · rename_i hexit
      exact h.exitSection hexit
    · exact h
  | hasNext => exact h
  | reset => exact h.reset

/-- One more call. -/
lemma afterAll_concat (p : Program) (limit : Nat) (script : List Call) (call : Call) :
    afterAll p limit (script ++ [call]) = (afterAll p limit script).after p call := by
  rw [afterAll, List.foldl_append]
  rfl

/-- A script is a walk. -/
theorem visits_afterAll (p : Program) (limit : Nat) (script : List Call) :
    Visits p limit (afterAll p limit script) := by
  induction script using List.reverseRecOn with
  | nil => exact .start
  | append_singleton script call ih =>
    rw [afterAll_concat]
    exact ih.after call

/-- **Whether something is left to yield foretells what the next call for an instruction does**,
behind every script of calls. If something is left, an instruction is yielded, or the call fails at
the greatest depth. If nothing is left, the call violates its contract.

**Proof sketch.** The turns that yield nothing do not change whether something is left. The turn
that comes after them finds an instruction if something is left, and the end of the main sequence
if not: a template that is entered has an instruction. -/
theorem hasNext_foretells {script : List Call} (hc : afterAll p limit script = c) :
    (c.hasNext = true ↔ (c.next p).2 ≠ .error .exhausted) ∧
      (c.hasNext = true → (∃ i, (c.next p).2 = .ok i) ∨
        ∃ name, (c.next p).2 = .error (.tooDeep limit name) ∧
          (RunFault.cursor (.tooDeep limit name)).kind = .recursionLimit) ∧
      (c.hasNext = false → (c.next p).2 = .error .exhausted ∧
        (RunFault.cursor .exhausted).kind = .contractViolation) := by
  have hlimit : c.limit = limit := by
    rw [← hc]
    exact (visits_afterAll p limit script).limit_eq
  have hmore : c.hasNext = true → (∃ i, (c.next p).2 = .ok i) ∨
      ∃ name, (c.next p).2 = .error (.tooDeep limit name) := by
    intro h
    rw [← hlimit]
    exact (next_of_hasNext p h).imp (fun ⟨i, hi, _⟩ => ⟨i, hi⟩) id
  refine ⟨⟨fun h => ?_, fun h => ?_⟩, fun h => ?_, fun h => ?_⟩
  · rcases hmore h with ⟨i, hi⟩ | ⟨name, hname⟩
    · simp [hi]
    · simp [hname]
  · cases hmore' : c.hasNext with
    | true => rfl
    | false => exact absurd (next_of_not_hasNext p hmore').1 h
  · exact (hmore h).imp id fun ⟨name, hname⟩ => ⟨name, hname, rfl⟩
  · exact ⟨(next_of_not_hasNext p h).1, rfl⟩

/-- An answer that is refused, and a section at the end of an included template that is not
entered, in front of text in the main sequence. -/
theorem hasNext_foretells_on_skipped :
    ∃ (p : Program) (c : Cursor), p.IsSequenced ∧
      afterAll p 1 [.exitSection, .next, .hasNext] = c ∧ c.depth = 1 ∧ c.pending = .opened 2 ∧
        c.hasNext = true ∧ (c.next p).2 ≠ .error .exhausted := by
  let main : Sequence := ⟨#[.enter "p" "", .text "z"], by decide⟩
  let item : Sequence :=
    ⟨#[.openSection false ⟨["s"], by decide⟩ 2, .text "x", .closeSection ⟨["s"], by decide⟩ 0],
      by decide⟩
  let p : Program := ⟨"", main, ⟨[("p", item)], List.pairwise_singleton _ _⟩⟩
  have hp : p.IsSequenced := Program.isSequenced_of_ofList
    (List.forall_mem_cons.2 ⟨rfl, List.forall_mem_singleton.2 rfl⟩)
  have hmore : (afterAll p 1 [.exitSection, .next, .hasNext]).hasNext = true := rfl
  exact ⟨p, _, hp, rfl, rfl, rfl, hmore, (hasNext_foretells rfl).1.1 hmore⟩

/-! ## Ends -/

/-- **Nothing is left to yield, whatever is called** short of going back to the start, and every
further call for an instruction fails. -/
def IsOver (p : Program) (c : Cursor) : Prop :=
  ∀ calls : List Call, .reset ∉ calls →
    (calls.foldl (after p) c).hasNext = false ∧
      ((calls.foldl (after p) c).next p).2 = .error .exhausted

/-- At the end of the main sequence, with nothing pending, no call changes anything. -/
lemma isOver_of_not_hasNext (houter : c.outer = []) (hpending : c.pending = .nothing)
    (hdone : c.hasNext = false) : IsOver p c := by
  obtain ⟨hfail, hstay, -⟩ := next_of_not_hasNext p hdone
  have hcall : ∀ call : Call, call ≠ .reset → c.after p call = c := by
    intro call hcall
    cases call with
    | next =>
      rw [after, hstay houter, ← hpending]
    | enterSection =>
      rw [after, enterSection, hpending]
    | exitSection =>
      rw [after, exitSection, hpending]
    | hasNext => rfl
    | reset => exact absurd rfl hcall
  intro calls hcalls
  have hsame : calls.foldl (after p) c = c := by
    induction calls with
    | nil => rfl
    | cons call calls ih =>
      rw [List.mem_cons, not_or] at hcalls
      rw [List.foldl_cons, hcall call (Ne.symm hcalls.1), ih hcalls.2]
  rw [hsame]
  exact ⟨hdone, hfail⟩

/-- In front of the start of a section that is to be repeated, something is left to yield. -/
lemma Visits.hasNext_of_repeated (hp : p.IsSequenced) (h : Visits p limit c) {target : Nat}
    (hpending : c.pending = .repeated target) : c.hasNext = true := by
  obtain ⟨j, inverted, path, -, hclose, -, hlt⟩ := h.exists_closing hp (.inr hpending)
  obtain ⟨hj, -⟩ := Array.getElem?_eq_some_iff.1 hclose
  refine hasNext_of_lt ?_
  rw [nextIndex_of_repeated hpending]
  omega

/-- A section that was entered has something left to yield, at least its closing. -/
lemma Visits.hasNext_of_enterSection (hp : p.IsSequenced) (h : Visits p limit c)
    (henter : c.enterSection = .ok d) : d.hasNext = true := by
  obtain ⟨⟨target, hpending⟩, rfl⟩ := enterSection_eq_ok_iff.1 henter
  obtain ⟨i, inverted, path, hi, -, hclose, hlt⟩ := h.exists_opening hp hpending
  obtain ⟨htarget, -⟩ := Array.getElem?_eq_some_iff.1 hclose
  refine hasNext_of_lt ?_
  rw [nextIndex_of_nothing rfl, Frame.following, hi]
  exact Nat.lt_of_le_of_lt hlt htarget

end Cursor

/-- **The ends of walks that are final.** Where nothing is left to yield, the call for the next
instruction fails. From then on nothing is left for good, unless a section of the main sequence can
still be entered: in this case the failing call enters it.

**Proof sketch.** The call that fails forgets what was pending. In an included template this does
not matter, since the template is left before the call fails. In the main sequence it only matters
for an opening: behind the closing of a section the walk goes on where it is anyway, and if a
section is to be repeated, then something is left. -/
theorem Program.IsSequenced.isOver_next_iff {p : Program} (hp : p.IsSequenced) {limit : Nat}
    {script : List Cursor.Call} {c : Cursor} (hc : Cursor.afterAll p limit script = c)
    (hdone : c.hasNext = false) :
    (c.next p).2 = .error .exhausted ∧
      ((c.next p).1.IsOver p ↔ ¬(c.depth = 0 ∧ ∃ d, c.enterSection = .ok d)) ∧
      (c.depth = 0 → ∀ d, c.enterSection = .ok d → (c.next p).1 = d ∧ d.hasNext = true) := by
  have hvisits : Cursor.Visits p limit c := hc ▸ Cursor.visits_afterAll p limit script
  obtain ⟨hfail, hmain, hincluded⟩ := Cursor.next_of_not_hasNext p hdone
  have hdepth : c.depth = 0 ↔ c.outer = [] := by
    rw [c.depth_eq, List.length_eq_zero_iff]
  have henters : c.depth = 0 → ∀ d, c.enterSection = .ok d →
      (c.next p).1 = d ∧ d.hasNext = true := by
    intro hzero d henter
    refine ⟨?_, hvisits.hasNext_of_enterSection hp henter⟩
    rw [hmain (hdepth.1 hzero), (Cursor.enterSection_eq_ok_iff.1 henter).2]
  refine ⟨hfail, ⟨?_, fun hnone => ?_⟩, henters⟩
  · rintro hover ⟨hzero, d, henter⟩
    obtain ⟨hnext, hmore⟩ := henters hzero d henter
    have hstart := (hover [] List.not_mem_nil).1
    rw [List.foldl_nil, hnext, hmore] at hstart
    cases hstart
  · by_cases houter : c.outer = []
    · refine Cursor.isOver_of_not_hasNext ?_ ?_ ?_ <;> rw [hmain houter]
      · exact houter
      · -- what was pending led nowhere else than where the walk is
        have hindex : Cursor.nextIndex { c with pending := .nothing } = c.nextIndex := by
          cases hpending : c.pending with
          | nothing => exact (Cursor.nextIndex_of_nothing hpending).symm
          | closed target => exact (Cursor.nextIndex_of_closed hpending).symm
          | opened target =>
            have henter := Cursor.enterSection_eq_ok_iff.2 ⟨⟨target, hpending⟩, rfl⟩
            exact absurd ⟨hdepth.2 houter, _, henter⟩ hnone
          | repeated target =>
            rw [hvisits.hasNext_of_repeated hp hpending] at hdone
            cases hdone
        rw [Cursor.hasNext, hindex]
        exact hdone
    · obtain ⟨hleft, hpending, hend⟩ := hincluded houter
      exact Cursor.isOver_of_not_hasNext hleft hpending hend

/-- A section that is not entered ends an included template, which ends the main sequence. -/
theorem isOver_next_on_included :
    ∃ (p : Program) (c : Cursor), p.IsSequenced ∧ Cursor.afterAll p 64 [.next] = c ∧
      c.hasNext = false ∧ c.depth = 1 ∧ (∃ d, c.enterSection = .ok d) ∧ (c.next p).1.IsOver p := by
  let main : Sequence := ⟨#[.enter "p" ""], by decide⟩
  let item : Sequence :=
    ⟨#[.openSection false ⟨["s"], by decide⟩ 2, .text "x", .closeSection ⟨["s"], by decide⟩ 0],
      by decide⟩
  let p : Program := ⟨"", main, ⟨[("p", item)], List.pairwise_singleton _ _⟩⟩
  have hp : p.IsSequenced := Program.isSequenced_of_ofList
    (List.forall_mem_cons.2 ⟨rfl, List.forall_mem_singleton.2 rfl⟩)
  have hdone : (Cursor.afterAll p 64 [.next]).hasNext = false := rfl
  refine ⟨p, _, hp, rfl, hdone, rfl, ⟨_, rfl⟩, (hp.isOver_next_iff rfl hdone).2.1.2 ?_⟩
  rintro ⟨hzero, -⟩
  cases hzero

/-- **Not every end is final.** The section that a template ends with is not entered, nothing is
left, and the call for the next instruction fails; behind it the text of the section is yielded. -/
theorem text_yielded_behind_exhausted :
    ∃ p : Program,
      (Engine.empty.compile none "\x7b\x7b#s\x7d\x7dx\x7b\x7b/s\x7d\x7d").outcome = .ok p ∧
        p.IsSequenced ∧ (Cursor.afterAll p 64 [.next]).hasNext = false ∧
        ((Cursor.afterAll p 64 [.next]).next p).2 = .error .exhausted ∧
        (Cursor.afterAll p 64 [.next, .next]).hasNext = true ∧
        ((Cursor.afterAll p 64 [.next, .next]).next p).2 = .ok (.text "x") := by
  let source := "\x7b\x7b#s\x7d\x7dx\x7b\x7b/s\x7d\x7d"
  let p : Program :=
    ⟨source, ⟨#[.openSection false ⟨["s"], by decide⟩ 2, .text "x",
      .closeSection ⟨["s"], by decide⟩ 0], by decide⟩, .empty⟩
  have hrun : (Engine.empty.compile none source).outcome.toOption.map id = some p := by
    decide +kernel
  obtain ⟨q, hq, rfl⟩ := exists_of_toOption_map_eq_some hrun
  exact ⟨p, hq, Engine.compile_isSequenced hq, rfl, rfl, rfl, rfl⟩

end Stencil
