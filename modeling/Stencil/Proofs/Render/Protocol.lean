import Mathlib.Data.List.Induction
import Mathlib.Tactic.Lemma
import Stencil.Proofs.Code.Bracketing
import Stencil.Proofs.Render.Advances

/-!
# The protocol of sections

A caller enters a section right behind its opening and repeats it right behind its closing. It may
call in any order, and answers at other places are refused. This file shows for every script that
asks for the next instruction only while something is left to yield when an answer is accepted,
where the walk goes on behind an opening and behind a closing, and that nothing inside of a section
is reached unless the section was entered.

## Main definitions

* `Cursor.IsGuarded` — the scripts that never ask for an instruction where none is left.
* `Cursor.ChangedLast` — the last call of a script that changed the cursor.
* `Cursor.HasEntered` — a section was entered and was not left since.
* `Cursor.KeepsProtocol` — what holds of openings and closings behind a script.

## Main results

* `Cursor.exists_changedLast` — what is pending was yielded by the last call that changed the
  cursor.
* `Cursor.hasEntered_of_inside` — a walk is inside of entered sections only.
* `Program.IsSequenced.keepsProtocol` — all scripts keep the protocol.
-/

namespace Stencil

/-- A frame that is at a place already. -/
lemma Frame.at_eq {f : Frame} {i : Nat} (h : f.index = some i) : f.at i = f := by
  obtain ⟨sequence, index, indent⟩ := f
  obtain rfl : index = some i := h
  rfl

namespace Cursor

variable {p : Program} {limit : Nat} {script : List Call} {c d : Cursor}

/-! ## Guarded scripts -/

/-- **A script that asks for the next instruction only while something is left to yield.** -/
def IsGuarded (p : Program) : Cursor → List Call → Prop
  | _, [] => True
  | c, call :: calls => (call = .next → c.hasNext = true) ∧ IsGuarded p (c.after p call) calls

instance decidableIsGuarded (p : Program) :
    (c : Cursor) → (calls : List Call) → Decidable (IsGuarded p c calls)
  | _, [] => inferInstanceAs (Decidable True)
  | c, call :: calls =>
    have := decidableIsGuarded p (c.after p call) calls
    inferInstanceAs (Decidable ((call = .next → c.hasNext = true) ∧ _))

/-- The last call of a guarded script. -/
lemma isGuarded_concat {calls : List Call} {call : Call} :
    IsGuarded p c (calls ++ [call]) ↔
      IsGuarded p c calls ∧ (call = .next → (calls.foldl (after p) c).hasNext = true) := by
  induction calls generalizing c with
  | nil => simp [IsGuarded]
  | cons first calls ih => simp [IsGuarded, ih, and_assoc]

/-! ## The last change -/

/-- **The last call of a script that changed the cursor**, with the calls before it. -/
def ChangedLast (p : Program) (limit : Nat) (script before : List Call) (call : Call) : Prop :=
  ∃ later, script = before ++ call :: later ∧
    (afterAll p limit before).after p call ≠ afterAll p limit before ∧
    ∀ part, part <+: later →
      afterAll p limit (before ++ call :: part) = (afterAll p limit before).after p call

/-- The cursor is still the one behind the last call that changed it. -/
lemma ChangedLast.afterAll_eq {before : List Call} {call : Call}
    (h : ChangedLast p limit script before call) :
    afterAll p limit script = (afterAll p limit before).after p call := by
  obtain ⟨later, rfl, -, hsame⟩ := h
  exact hsame later (List.prefix_refl later)

/-- A call that changes the cursor is the last one to do so. -/
lemma changedLast_concat {call : Call}
    (h : (afterAll p limit script).after p call ≠ afterAll p limit script) :
    ChangedLast p limit (script ++ [call]) script call := by
  refine ⟨[], rfl, h, fun part hpart => ?_⟩
  rw [List.prefix_nil.1 hpart, afterAll_concat]

/-- A call that leaves the cursor as it is leaves the last change as it is. -/
lemma ChangedLast.concat {before : List Call} {call last : Call}
    (h : ChangedLast p limit script before call)
    (hlast : (afterAll p limit script).after p last = afterAll p limit script) :
    ChangedLast p limit (script ++ [last]) before call := by
  have heq := h.afterAll_eq
  obtain ⟨later, rfl, hchange, hsame⟩ := h
  refine ⟨later ++ [last], by rw [List.append_assoc, List.cons_append], hchange,
    fun part hpart => ?_⟩
  rcases List.prefix_concat_iff.1 hpart with rfl | hpart
  · rw [← List.cons_append, ← List.append_assoc, afterAll_concat, hlast, heq]
  · exact hsame part hpart

/-- **What is pending was yielded by the last call that changed the cursor**, as long as it has not
been settled by an answer. -/
theorem exists_changedLast (hp : p.IsSequenced) {Q : Pending → Prop} (hnothing : ¬Q .nothing)
    (hrepeated : ∀ target, ¬Q (.repeated target))
    (hguard : IsGuarded p (.start p limit) script) (h : Q (afterAll p limit script).pending) :
    ∃ before i, ChangedLast p limit script before .next ∧
      ((afterAll p limit before).next p).2 = .ok i ∧ Q i.pending := by
  induction script using List.reverseRecOn with
  | nil => exact absurd h hnothing
  | append_singleton script call ih =>
    obtain ⟨hguard, hmore⟩ := isGuarded_concat.1 hguard
    have hvisits := visits_afterAll p limit script
    rw [afterAll_concat] at h
    -- a call that changes nothing leaves the last change as it is
    have hstay : (afterAll p limit script).after p call = afterAll p limit script →
        ∃ before i, ChangedLast p limit (script ++ [call]) before .next ∧
          ((afterAll p limit before).next p).2 = .ok i ∧ Q i.pending := by
      intro hsame
      rw [hsame] at h
      obtain ⟨before, i, hchange, hyield⟩ := ih hguard h
      exact ⟨before, i, hchange.concat hsame, hyield⟩
    cases call with
    | next =>
      obtain ⟨f, outer, q, hadvance⟩ := exists_advance p (hmore rfl)
      obtain ⟨x, -, hpending, hyield⟩ := hadvance.reached
      have hx : Q x.pending := hpending ▸ h
      have hshown : ∃ i, ((afterAll p limit script).next p).2 = .ok i ∧ Q i.pending := by
        rcases hyield with ⟨-, hyield⟩ | ⟨name, hname, -⟩
        · refine ⟨_, hyield, ?_⟩
          cases x <;> exact hx
        · -- an inclusion leaves nothing pending
          obtain ⟨indent, rfl⟩ := Instr.eq_enter_of_included hname
          exact absurd hx hnothing
      obtain ⟨i, hi⟩ := hshown
      exact ⟨script, i, changedLast_concat (hvisits.next_ne hp (hmore rfl)), hi⟩
    | enterSection =>
      cases henter : (afterAll p limit script).enterSection with
      | error fault =>
        refine hstay ?_
        rw [after, henter]
      | ok d =>
        rw [after, henter, (enterSection_eq_ok_iff.1 henter).2] at h
        exact absurd h hnothing
    | exitSection =>
      cases hexit : (afterAll p limit script).exitSection with
      | error fault =>
        refine hstay ?_
        rw [after, hexit]
      | ok d =>
        obtain ⟨target, -, rfl⟩ := exitSection_eq_ok_iff.1 hexit
        rw [after, hexit] at h
        exact absurd h (hrepeated target)
    | hasNext => exact hstay rfl
    | reset => exact absurd h hnothing

/-! ## Entered sections -/

/-- **A section was entered and was not left since**: the one between two places of a frame with
others around. -/
def HasEntered (p : Program) (limit : Nat) (script : List Call) (f : Frame) (outer : List Frame)
    (i target : Nat) : Prop :=
  ∃ before later, script = before ++ .enterSection :: later ∧
    (afterAll p limit before).frames = f.at i :: outer ∧
    (∃ d, (afterAll p limit before).enterSection = .ok d) ∧
    ∀ part, part <+: later → ∃ j, i ≤ j ∧ j ≤ target ∧
      f.at j :: outer <:+ (afterAll p limit (before ++ .enterSection :: part)).frames

/-- A section that is entered. -/
lemma hasEntered_concat {f : Frame} {outer : List Frame} {i target : Nat}
    (hframes : (afterAll p limit script).frames = f.at i :: outer)
    (henter : (afterAll p limit script).enterSection = .ok d) (hle : i ≤ target) :
    HasEntered p limit (script ++ [.enterSection]) f outer i target := by
  refine ⟨script, [], rfl, hframes, ⟨d, henter⟩, fun part hpart => ⟨i, Nat.le_refl i, hle, ?_⟩⟩
  have hsame : d.frames = f.at i :: outer := by
    rw [(enterSection_eq_ok_iff.1 henter).2, ← hframes]
    rfl
  have hsuffix : f.at i :: outer <:+ d.frames := ⟨[], hsame.symm⟩
  rw [List.prefix_nil.1 hpart, afterAll_concat, after, henter]
  exact hsuffix

/-- A call that stays inside of a section. -/
lemma HasEntered.concat {f : Frame} {outer : List Frame} {i j target : Nat} {call : Call}
    (h : HasEntered p limit script f outer i target) (hi : i ≤ j) (hj : j ≤ target)
    (hframes : f.at j :: outer <:+ ((afterAll p limit script).after p call).frames) :
    HasEntered p limit (script ++ [call]) f outer i target := by
  obtain ⟨before, later, rfl, hbefore, henter, hinside⟩ := h
  refine ⟨before, later ++ [call], by rw [List.append_assoc, List.cons_append], hbefore, henter,
    fun part hpart => ?_⟩
  rcases List.prefix_concat_iff.1 hpart with rfl | hpart
  · refine ⟨j, hi, hj, ?_⟩
    rw [← List.cons_append, ← List.append_assoc, afterAll_concat]
    exact hframes
  · exact hinside part hpart

/-- **A walk is inside of a section** in a frame with others around: behind the opening, or at the
opening when the section was entered. -/
def IsInside (c : Cursor) (f : Frame) (outer : List Frame) (i target : Nat) : Prop :=
  ∃ k, f.at k :: outer <:+ c.frames ∧ i ≤ k ∧ k ≤ target ∧ (k = i → c.pending = .nothing)

/-- In front of its program, a walk is inside of no section. -/
lemma not_isInside_of_index {f : Frame} {outer : List Frame} {i target : Nat}
    (hindex : c.top.index = none) (houter : c.outer = []) : ¬c.IsInside f outer i target := by
  rintro ⟨k, hsuffix, -⟩
  rw [frames, houter] at hsuffix
  rcases List.suffix_cons_iff.1 hsuffix with heq | hsuffix
  · rw [← (List.cons.inj heq).1] at hindex
    cases hindex
  · cases List.suffix_nil.1 hsuffix

/-- A frame on a stack is one of those on top, or it is in what is left below them. -/
lemma mem_or_suffix_of_suffix_append {f : Frame} {front outer rest : List Frame}
    (h : f :: outer <:+ front ++ rest) : f ∈ front ∨ f :: outer <:+ rest := by
  induction front with
  | nil => exact .inr h
  | cons g front ih =>
    rcases List.suffix_cons_iff.1 h with heq | hsuffix
    · exact .inl ((List.cons.inj heq).1 ▸ List.mem_cons_self)
    · exact (ih hsuffix).imp_left (List.mem_cons_of_mem g)

/-- All frames of a walk stand in bracketed sequences. -/
lemma Visits.wellBracketed (hp : p.IsSequenced) (h : Visits p limit c) {f : Frame}
    {outer : List Frame} (hf : f :: outer <:+ c.frames) : WellBracketed f.sequence.instrs := by
  rcases List.mem_cons.1 (hf.subset List.mem_cons_self) with rfl | hmem
  · exact (hp _ h.isWithin.1).wellBracketed
  · exact (hp _ (h.isWithin.2 f hmem)).wellBracketed

/-- A frame that stands at an inclusion does not stand at an opening. -/
lemma IsPlaced.ne_of_mem_outer (h : c.IsPlaced) {f : Frame} (hf : f ∈ c.outer)
    {i k target : Nat} {inverted : Bool} {path : Path} (hk : f.index = some k)
    (hopen : f.sequence.instrs[i]? = some (.openSection inverted path target)) : k ≠ i := by
  rintro rfl
  obtain ⟨name, indent, hreached⟩ := h.around f hf
  rw [Frame.reached?, hk, Option.bind_some, hopen] at hreached
  cases hreached

/-- **If a walk goes on inside of a section, it was inside of it before**: the only way in is to
enter it.

**Proof sketch.** Behind an instruction of the section, and behind a template that the section
includes, this is clear. A section that is skipped or repeated either lies within this one or is
this one, since sections do not overlap. -/
theorem Visits.isInside_of_resumes (hp : p.IsSequenced) (h : Visits p limit c) {f : Frame}
    {outer : List Frame} {q i target : Nat} {inverted : Bool} {path : Path}
    (hopen : f.sequence.instrs[i]? = some (.openSection inverted path target))
    (hresumes : c.Resumes f outer q) (hi : i < q) (hq : q ≤ target) :
    c.IsInside f outer i target := by
  cases hresumes with
  | here =>
    have hbracketed := h.wellBracketed hp (List.suffix_refl c.frames)
    have hplace : ∀ k, c.top.index = some k → c.top.at k :: c.outer <:+ c.frames := by
      intro k hk
      rw [Frame.at_eq hk]
      exact List.suffix_refl c.frames
    cases hpending : c.pending with
    | nothing =>
      rw [nextIndex_of_nothing hpending, Frame.following] at hi hq
      cases hk : c.top.index with
      | none => simp [hk] at hi
      | some k =>
        simp only [hk] at hi hq
        exact ⟨k, hplace k hk, by omega, by omega, fun _ => hpending⟩
    | opened t =>
      obtain ⟨k, v, w, hk, hskipped, hclose, hlt⟩ := h.exists_opening hp hpending
      rw [nextIndex_of_opened hpending] at hi hq
      have hne : i ≠ t := by
        rintro rfl
        rw [hopen] at hclose
        cases hclose
      -- the section that is skipped lies within
      have hik : i < k := by
        rcases Nat.lt_trichotomy i k with hik | rfl | hki
        · exact hik
        · rw [hopen] at hskipped
          cases hskipped
          omega
        · have hapart := hbracketed.nested _ _ _ _ _ _ _ _ hskipped hopen hki
          omega
      exact ⟨k, hplace k hk, by omega, by omega, by omega⟩
    | closed t =>
      obtain ⟨k, v, w, hk, hclose, -, -⟩ := h.exists_closing hp (.inl hpending)
      rw [nextIndex_of_closed hpending, Frame.following] at hi hq
      simp only [hk] at hi hq
      have hne : k ≠ i := by
        rintro rfl
        rw [hopen] at hclose
        cases hclose
      exact ⟨k, hplace k hk, by omega, by omega, fun heq => absurd heq hne⟩
    | repeated t =>
      obtain ⟨k, v, w, hk, -, hrepeated, hlt⟩ := h.exists_closing hp (.inr hpending)
      rw [nextIndex_of_repeated hpending] at hi hq
      -- the section that is repeated is this one, or it lies within
      have hkt : k ≤ target := by
        rcases Nat.eq_or_lt_of_le (Nat.lt_succ_iff.1 hi) with rfl | hit
        · rw [hopen] at hrepeated
          cases hrepeated
          exact Nat.le_refl _
        · have hapart := hbracketed.nested _ _ _ _ _ _ _ _ hopen hrepeated hit
          omega
      exact ⟨k, hplace k hk, by omega, hkt, by omega⟩
  | back hend hback =>
    have hmem : f ∈ c.outer := hback.subset List.mem_cons_self
    obtain ⟨name, indent, hreached⟩ := h.isPlaced.around f hmem
    obtain ⟨k, hk, -⟩ := Option.bind_eq_some_iff.1 hreached
    have hne := h.isPlaced.ne_of_mem_outer hmem hk hopen
    rw [Frame.following] at hi hq
    simp only [hk] at hi hq
    refine ⟨k, ?_, by omega, by omega, fun heq => absurd heq hne⟩
    rw [Frame.at_eq hk]
    exact hback.trans (List.suffix_cons _ _)

/-- **A call for the next instruction leads into no section.** -/
theorem Visits.isInside_of_next (hp : p.IsSequenced) (h : Visits p limit c)
    (hmore : c.hasNext = true) {f : Frame} {outer : List Frame} {i target : Nat} {inverted : Bool}
    {path : Path} (hopen : f.sequence.instrs[i]? = some (.openSection inverted path target))
    (hinside : (c.next p).1.IsInside f outer i target) : c.IsInside f outer i target := by
  obtain ⟨g, around, q, hadvance⟩ := exists_advance p hmore
  obtain ⟨entered, hframes, hentered⟩ := hadvance.frames_eq
  obtain ⟨x, hx, hpending, -⟩ := hadvance.reached
  obtain ⟨k, hsuffix, hik, hkt, hnothing⟩ := hinside
  -- right behind the call, an opening at which the walk stands is pending
  have hne : k ≠ i := by
    intro heq
    rcases List.suffix_cons_iff.1 hsuffix with htop | hbelow
    · have hreached : (c.next p).1.top.reached? = some (.openSection inverted path target) := by
        rw [← (List.cons.inj htop).1, heq]
        exact hopen
      rw [hreached] at hx
      cases hx
      have hsettled := hnothing heq
      rw [hpending] at hsettled
      cases hsettled
    · have hplaced : (c.next p).1.IsPlaced := (h.after .next).isPlaced
      exact hplaced.ne_of_mem_outer (hbelow.subset List.mem_cons_self) rfl hopen heq
  rw [hframes] at hsuffix
  rcases mem_or_suffix_of_suffix_append hsuffix with hmem | hsuffix
  · -- the first instruction of a template is inside of no section
    have hzero := Option.some.inj (hentered _ hmem)
    omega
  rcases List.suffix_cons_iff.1 hsuffix with heq | hbelow
  · obtain ⟨hframe, rfl⟩ := List.cons.inj heq
    obtain rfl : k = q := Option.some.inj (congrArg Frame.index hframe)
    have hopen' : (f.at k).sequence.instrs[i]? = some (.openSection inverted path target) := hopen
    rw [hframe] at hopen'
    obtain ⟨j, hj, hrest⟩ :=
      h.isInside_of_resumes (f := g) hp hopen' hadvance.resumes (by omega) hkt
    have hplace : (f.at k).at j = (g.at k).at j := congrArg (Frame.at · j) hframe
    refine ⟨j, ?_, hrest⟩
    rw [show f.at j = (f.at k).at j from rfl, hplace]
    exact hj
  · have haround : around <:+ c.outer := by
      cases hadvance.resumes with
      | here => exact List.suffix_refl _
      | back _ hback => exact (List.suffix_cons _ _).trans hback
    exact ⟨k, (hbelow.trans haround).trans (List.suffix_cons _ _), hik, hkt,
      fun heq => absurd heq hne⟩

/-- **A walk is inside of entered sections only.** -/
theorem hasEntered_of_isInside (hp : p.IsSequenced)
    (hguard : IsGuarded p (.start p limit) script) {f : Frame} {outer : List Frame}
    {i target : Nat} {inverted : Bool} {path : Path}
    (hopen : f.sequence.instrs[i]? = some (.openSection inverted path target))
    (hinside : (afterAll p limit script).IsInside f outer i target) :
    HasEntered p limit script f outer i target := by
  induction script using List.reverseRecOn with
  | nil =>
    exact absurd hinside (not_isInside_of_index rfl rfl)
  | append_singleton script call ih =>
    obtain ⟨hguard, hmore⟩ := isGuarded_concat.1 hguard
    have hvisits := visits_afterAll p limit script
    rw [afterAll_concat] at hinside
    have hstay : (afterAll p limit script).IsInside f outer i target →
        HasEntered p limit (script ++ [call]) f outer i target := by
      intro hbefore
      obtain ⟨k, hsuffix, hik, hkt, -⟩ := hinside
      exact (ih hguard hbefore).concat hik hkt hsuffix
    cases call with
    | next => exact hstay (hvisits.isInside_of_next hp (hmore rfl) hopen hinside)
    | enterSection =>
      cases henter : (afterAll p limit script).enterSection with
      | error fault =>
        rw [after, henter] at hinside
        exact hstay hinside
      | ok d =>
        rw [after, henter, (enterSection_eq_ok_iff.1 henter).2] at hinside
        obtain ⟨k, hsuffix, hik, hkt, -⟩ := id hinside
        rcases Nat.eq_or_lt_of_le hik with rfl | hlt
        · rcases List.suffix_cons_iff.1 hsuffix with heq | hbelow
          · exact hasEntered_concat heq.symm henter hkt
          · exact absurd rfl (hvisits.isPlaced.ne_of_mem_outer
              (hbelow.subset List.mem_cons_self) rfl hopen)
        · exact hstay ⟨k, hsuffix, hik, hkt, by omega⟩
    | exitSection =>
      cases hexit : (afterAll p limit script).exitSection with
      | error fault =>
        rw [after, hexit] at hinside
        exact hstay hinside
      | ok d =>
        obtain ⟨t, -, rfl⟩ := exitSection_eq_ok_iff.1 hexit
        rw [after, hexit] at hinside
        obtain ⟨k, hsuffix, hik, hkt, hnothing⟩ := id hinside
        exact hstay ⟨k, hsuffix, hik, hkt, fun heq => by cases hnothing heq⟩
    | hasNext => exact hstay hinside
    | reset => exact absurd hinside (not_isInside_of_index rfl rfl)

/-! ## The protocol -/

/-- **What a caller can rely on** behind a script of calls. -/
structure KeepsProtocol (p : Program) (limit : Nat) (script : List Call) : Prop where
  /-- A section is entered exactly if the last change was the call that yielded its opening. -/
  enters : (∃ d, (afterAll p limit script).enterSection = .ok d) ↔
    ∃ before inverted path target, ChangedLast p limit script before .next ∧
      ((afterAll p limit before).next p).2 = .ok (.openSection inverted path target)
  /-- A section is repeated exactly if the last change was the call that yielded its closing. -/
  repeats : (∃ d, (afterAll p limit script).exitSection = .ok d) ↔
    ∃ before path target, ChangedLast p limit script before .next ∧
      ((afterAll p limit before).next p).2 = .ok (.closeSection path target)
  /-- An answer that is refused changes nothing. -/
  refuses : ∀ fault,
    ((afterAll p limit script).enterSection = .error fault → fault = .nothingOpened ∧
      (afterAll p limit script).after p .enterSection = afterAll p limit script) ∧
    ((afterAll p limit script).exitSection = .error fault → fault = .nothingClosed ∧
      (afterAll p limit script).after p .exitSection = afterAll p limit script)
  /-- What is yielded is the instruction at which the innermost frame stands. -/
  yields : ∀ d i, (afterAll p limit script).next p = (d, .ok i) →
    ∃ x, d.top.reached? = some x ∧ i = x.shown d.indent
  /-- Behind an opening, the walk goes on with the body if the section is entered, and behind the
  matching closing otherwise. -/
  opening : ∀ d inverted path target,
    (afterAll p limit script).next p = (d, .ok (.openSection inverted path target)) →
      ∃ i, d.top.index = some i ∧ i < target ∧
        d.top.sequence.instrs[i]? = some (.openSection inverted path target) ∧
        d.top.sequence.instrs[target]? = some (.closeSection path i) ∧
        d.ContinuesAt p (target + 1) ∧
        ∃ e, d.enterSection = .ok e ∧ e.frames = d.frames ∧ e.ContinuesAt p (i + 1)
  /-- Behind a closing, the walk goes on with the body if the section is repeated, and behind the
  closing otherwise. -/
  closing : ∀ d path target,
    (afterAll p limit script).next p = (d, .ok (.closeSection path target)) →
      ∃ i inverted, d.top.index = some i ∧ target < i ∧
        d.top.sequence.instrs[i]? = some (.closeSection path target) ∧
        d.top.sequence.instrs[target]? = some (.openSection inverted path i) ∧
        d.ContinuesAt p (i + 1) ∧
        ∃ e, d.exitSection = .ok e ∧ e.frames = d.frames ∧ e.ContinuesAt p (target + 1)
  /-- A frame stands inside of sections that were entered only, be it at an instruction that is
  yielded or at an inclusion. -/
  inside : ∀ f outer, f :: outer <:+ (afterAll p limit script).frames →
    ∀ k, f.index = some k → ∀ i inverted path target,
      f.sequence.instrs[i]? = some (.openSection inverted path target) → i < k → k ≤ target →
        HasEntered p limit script f outer i target

/-- Where a walk goes on behind an opening. -/
lemma Visits.continuesAt_of_opening (hp : p.IsSequenced) (h : Visits p limit c) {inverted : Bool}
    {path : Path} {target : Nat} (hnext : c.next p = (d, .ok (.openSection inverted path target))) :
    ∃ i, d.top.index = some i ∧ i < target ∧
      d.top.sequence.instrs[i]? = some (.openSection inverted path target) ∧
      d.top.sequence.instrs[target]? = some (.closeSection path i) ∧
      d.ContinuesAt p (target + 1) ∧
      ∃ e, d.enterSection = .ok e ∧ e.frames = d.frames ∧ e.ContinuesAt p (i + 1) := by
  obtain ⟨x, hx, hshown, hpending⟩ := reached_of_next hnext
  obtain ⟨i, v, w, hi, hopen, hclose, hlt⟩ := (h.of_next hnext).exists_opening hp hpending
  -- what is yielded is what was reached
  have hsame : x = .openSection v w target := by
    rw [Frame.reached?, hi, Option.bind_some, hopen] at hx
    exact (Option.some.inj hx).symm
  subst hsame
  cases hshown
  have hskip := continuesAt_nextIndex p d
  rw [nextIndex_of_opened hpending] at hskip
  refine ⟨i, hi, hlt, hopen, hclose, hskip, _,
    enterSection_eq_ok_iff.2 ⟨⟨target, hpending⟩, rfl⟩, rfl, ?_⟩
  have henter := continuesAt_nextIndex p { d with pending := .nothing }
  rwa [nextIndex_of_nothing rfl, Frame.following, hi] at henter

/-- Where a walk goes on behind a closing. -/
lemma Visits.continuesAt_of_closing (hp : p.IsSequenced) (h : Visits p limit c) {path : Path}
    {target : Nat} (hnext : c.next p = (d, .ok (.closeSection path target))) :
    ∃ i inverted, d.top.index = some i ∧ target < i ∧
      d.top.sequence.instrs[i]? = some (.closeSection path target) ∧
      d.top.sequence.instrs[target]? = some (.openSection inverted path i) ∧
      d.ContinuesAt p (i + 1) ∧
      ∃ e, d.exitSection = .ok e ∧ e.frames = d.frames ∧ e.ContinuesAt p (target + 1) := by
  obtain ⟨x, hx, hshown, hpending⟩ := reached_of_next hnext
  obtain ⟨i, v, w, hi, hclose, hopen, hlt⟩ := (h.of_next hnext).exists_closing hp (.inl hpending)
  have hsame : x = .closeSection w target := by
    rw [Frame.reached?, hi, Option.bind_some, hclose] at hx
    exact (Option.some.inj hx).symm
  subst hsame
  cases hshown
  have hleave := continuesAt_nextIndex p d
  rw [nextIndex_of_closed hpending, Frame.following, hi] at hleave
  refine ⟨i, v, hi, hlt, hclose, hopen, hleave, _,
    exitSection_eq_ok_iff.2 ⟨target, hpending, rfl⟩, rfl, ?_⟩
  have hrepeat := continuesAt_nextIndex p { d with pending := .repeated target }
  rwa [nextIndex_of_repeated rfl] at hrepeat

/-- What is pending behind the last change. -/
lemma ChangedLast.pending_eq {before : List Call} {i : Instr}
    (h : ChangedLast p limit script before .next)
    (hyield : ((afterAll p limit before).next p).2 = .ok i) :
    (afterAll p limit script).pending = i.pending := by
  obtain ⟨-, -, -, hpending⟩ :=
    reached_of_next (d := ((afterAll p limit before).next p).1) (Prod.ext rfl hyield)
  rw [h.afterAll_eq]
  exact hpending

end Cursor

/-- **All scripts keep the protocol of sections**, as long as they ask for the next instruction only
while something is left to yield.

**Proof sketch.** What is pending was yielded by the last change, which settles when an answer is
accepted, and it determines where the walk goes on. A walk that goes on inside of a section was
inside of it before, so a section that it is inside of was entered at its opening. -/
theorem Program.IsSequenced.keepsProtocol {p : Program} (hp : p.IsSequenced) {limit : Nat}
    {script : List Cursor.Call} (hguard : Cursor.IsGuarded p (.start p limit) script) :
    Cursor.KeepsProtocol p limit script where
  enters := by
    constructor
    · rintro ⟨d, henter⟩
      obtain ⟨before, i, hchange, hyield, target, hi⟩ :=
        Cursor.exists_changedLast hp (Q := fun pending => ∃ target, pending = .opened target)
          nofun nofun hguard (Cursor.enterSection_eq_ok_iff.1 henter).1
      cases i with
      | openSection inverted path close => exact ⟨before, inverted, path, close, hchange, hyield⟩
      | _ => cases hi
    · rintro ⟨before, inverted, path, target, hchange, hyield⟩
      exact ⟨_, Cursor.enterSection_eq_ok_iff.2 ⟨⟨target, hchange.pending_eq hyield⟩, rfl⟩⟩
  repeats := by
    constructor
    · rintro ⟨d, hexit⟩
      obtain ⟨target, hpending, -⟩ := Cursor.exitSection_eq_ok_iff.1 hexit
      obtain ⟨before, i, hchange, hyield, target, hi⟩ :=
        Cursor.exists_changedLast hp (Q := fun pending => ∃ target, pending = .closed target)
          nofun nofun hguard ⟨target, hpending⟩
      cases i with
      | closeSection path start => exact ⟨before, path, start, hchange, hyield⟩
      | _ => cases hi
    · rintro ⟨before, path, target, hchange, hyield⟩
      exact ⟨_, Cursor.exitSection_eq_ok_iff.2 ⟨target, hchange.pending_eq hyield, rfl⟩⟩
  refuses := by
    intro fault
    refine ⟨fun hrefuse => ⟨?_, by rw [Cursor.after, hrefuse]⟩,
      fun hrefuse => ⟨?_, by rw [Cursor.after, hrefuse]⟩⟩
    · unfold Cursor.enterSection at hrefuse
      split at hrefuse <;> cases hrefuse
      rfl
    · unfold Cursor.exitSection at hrefuse
      split at hrefuse <;> cases hrefuse
      rfl
  yields := by
    intro d i hnext
    obtain ⟨x, hx, hshown, -⟩ := Cursor.reached_of_next hnext
    exact ⟨x, hx, hshown⟩
  opening _ _ _ _ hnext := (Cursor.visits_afterAll p limit script).continuesAt_of_opening hp hnext
  closing _ _ _ hnext := (Cursor.visits_afterAll p limit script).continuesAt_of_closing hp hnext
  inside := by
    intro f outer hsuffix k hk i inverted path target hopen hik hkt
    rw [← Frame.at_eq hk] at hsuffix
    exact Cursor.hasEntered_of_isInside hp hguard hopen
      ⟨k, hsuffix, Nat.le_of_lt hik, hkt, fun heq => absurd heq (Nat.ne_of_gt hik)⟩

/-- An answer that is refused behind an opening, the section is entered, and a template that is
included in it is at hand. -/
theorem keepsProtocol_on_included :
    ∃ (p : Program) (script : List Cursor.Call), p.IsSequenced ∧
      script = [.next, .exitSection, .enterSection, .hasNext, .next] ∧
      Cursor.IsGuarded p (.start p 64) script ∧ (Cursor.afterAll p 64 script).depth = 1 ∧
      Cursor.KeepsProtocol p 64 script := by
  let main : Sequence :=
    ⟨#[.openSection false ⟨["s"], by decide⟩ 2, .enter "p" "", .closeSection ⟨["s"], by decide⟩ 0,
      .text "z"], by decide⟩
  let item : Sequence := ⟨#[.text "x"], by decide⟩
  let p : Program := ⟨"", main, ⟨[("p", item)], List.pairwise_singleton _ _⟩⟩
  have hp : p.IsSequenced := Program.isSequenced_of_ofList
    (List.forall_mem_cons.2 ⟨rfl, List.forall_mem_singleton.2 rfl⟩)
  have hguard : Cursor.IsGuarded p (.start p 64)
      [.next, .exitSection, .enterSection, .hasNext, .next] := by decide +kernel
  exact ⟨p, _, hp, rfl, hguard, rfl, hp.keepsProtocol hguard⟩

end Stencil
