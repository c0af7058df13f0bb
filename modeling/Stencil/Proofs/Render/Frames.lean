import Mathlib.Data.List.Basic
import Mathlib.Tactic.Lemma
import Stencil.Proofs.Render.Advances

/-!
# The frames of a walk

The frames at hand stand on top of each other: the outermost one in the main sequence, and each
other one in a template that the frame below includes at the place where it stands. The indentation
of a frame is made of those of all inclusions below it. Nothing that a caller does changes this. In
particular the outermost frame never gives up its sequence, so going back to the start forgets all
that was called before.

## Main definitions

* `indentAround` — the indentation that the inclusions at which frames stand add up to.
* `Program.Stacks` — frames on top of each other.
* `Cursor.KeepsFrames` — what holds of the frames and of what is pending behind every script.
* `Cursor.responses` — what a caller gets to see of a script.

## Main results

* `Cursor.Visits.stacks` — the frames of a walk stand on top of each other.
* `Program.IsSequenced.keepsFrames` — the frames and what is pending, behind every script.
* `Cursor.Visits.reset_eq` — a walk that goes back to the start is a new one.
* `Cursor.responses_reset` — what a caller gets to see behind a return to the start.
-/

namespace Stencil

/-- The indentation of the template that the instruction includes, if it is an inclusion. -/
def Instr.indent? : Instr → Option String
  | enter _ indent => some indent
  | _ => none

/-- The indentations of the inclusions at which frames stand, put together, that of the outermost
frame first. -/
def indentAround (frames : List Frame) : String :=
  String.join (frames.reverse.filterMap fun f => f.reached?.bind Instr.indent?)

/-- A frame further in adds the indentation of the inclusion at which it stands. -/
lemma indentAround_cons {f : Frame} {outer : List Frame} {name more : String}
    (h : f.reached? = some (.enter name more)) :
    indentAround (f :: outer) = indentAround outer ++ more := by
  have hlast : [f].filterMap (fun f => f.reached?.bind Instr.indent?) = [more] := by
    rw [List.filterMap_cons_some (by rw [h]; rfl), List.filterMap_nil]
  rw [indentAround, List.reverse_cons, List.filterMap_append, hlast, String.join_append,
    String.join_cons, String.join_nil, String.append_empty]
  rfl

/-! ## Frames on top of each other -/

/-- **Frames on top of each other**, innermost first. The outermost one is in the main sequence and
is not indented. Each other one is in the template that the frame below includes at the place where
it stands, with the indentation of this inclusion behind that of the frame below. There are at most
`limit` of these. -/
inductive Program.Stacks (p : Program) (limit : Nat) : List Frame → Prop where
  /-- The main sequence alone. -/
  | main {f : Frame} (hsequence : f.sequence = p.main) (hindent : f.indent = "") :
      p.Stacks limit [f]
  /-- A template on top of the one that includes it. A name that the program lacks stands for the
  sequence below. -/
  | included {g f : Frame} {outer : List Frame} {name more : String}
      (h : p.Stacks limit (f :: outer)) (hreached : f.reached? = some (.enter name more))
      (hsequence : g.sequence = (p.partials.find? name).getD f.sequence)
      (hindent : g.indent = f.indent ++ more) (hlimit : outer.length < limit) :
      p.Stacks limit (g :: f :: outer)

namespace Program.Stacks

variable {p : Program} {limit : Nat} {f g : Frame} {outer frames : List Frame}

/-- At which place the innermost frame stands plays no part. -/
lemma of_top (h : p.Stacks limit (f :: outer)) (hsequence : g.sequence = f.sequence)
    (hindent : g.indent = f.indent) : p.Stacks limit (g :: outer) := by
  cases h with
  | main hmain hnone => exact .main (hsequence.trans hmain) (hindent.trans hnone)
  | included h hreached htemplate hmore hlimit =>
    exact .included h hreached (hsequence.trans htemplate) (hindent.trans hmore) hlimit

/-- The frames around some of them stand on top of each other. -/
lemma of_suffix (h : p.Stacks limit frames) (hsuffix : f :: outer <:+ frames) :
    p.Stacks limit (f :: outer) := by
  induction h with
  | main hsequence hindent =>
    rcases List.suffix_cons_iff.1 hsuffix with heq | hnil
    · rw [heq]
      exact .main hsequence hindent
    · cases List.suffix_nil.1 hnil
  | included h hreached hsequence hindent hlimit ih =>
    rcases List.suffix_cons_iff.1 hsuffix with heq | hbelow
    · rw [heq]
      exact .included h hreached hsequence hindent hlimit
    · exact ih hbelow

/-- The outermost frame is in the main sequence and is not indented. -/
lemma exists_outermost (h : p.Stacks limit frames) :
    ∃ f, frames.getLast? = some f ∧ f.sequence = p.main ∧ f.indent = "" := by
  induction h with
  | main hsequence hindent => exact ⟨_, rfl, hsequence, hindent⟩
  | included _ _ _ _ _ ih =>
    obtain ⟨f, hf, hmain⟩ := ih
    exact ⟨f, by rw [List.getLast?_cons, hf]; rfl, hmain⟩

/-- At most `limit` frames are around the innermost one. -/
lemma length_outer_le (h : p.Stacks limit (f :: outer)) : outer.length ≤ limit := by
  cases h with
  | main => exact Nat.zero_le limit
  | included _ _ _ _ hlimit => exact hlimit

/-- **A frame has the indentation of all inclusions around it.** -/
theorem indent_eq (h : p.Stacks limit (f :: outer)) : f.indent = indentAround outer := by
  generalize hframes : f :: outer = frames at h
  induction h generalizing f outer with
  | main hsequence hindent =>
    obtain ⟨rfl, rfl⟩ := List.cons.inj hframes
    exact hindent
  | included _ hreached _ hindent _ ih =>
    obtain ⟨rfl, rfl⟩ := List.cons.inj hframes
    rw [hindent, ih rfl, indentAround_cons hreached]

end Program.Stacks

/-! ## The frames of a walk -/

namespace Cursor

variable {p : Program} {limit : Nat} {script : List Call} {c : Cursor}

/-- A turn puts a frame on top of the others at an inclusion, takes one away at the end of a
template, and otherwise only moves on. -/
lemma stacks_turn (hlimit : c.limit = limit) (h : p.Stacks limit c.frames) :
    p.Stacks limit (c.turn p).1.frames := by
  cases hinstr : c.station.instr? with
  | none =>
    cases houter : c.outer with
    | nil =>
      rw [turn_exhausted hinstr houter]
      exact h
    | cons f outer =>
      obtain ⟨htop, houter', -⟩ := turn_leave_frames (p := p) hinstr houter
      rw [frames, htop, houter']
      refine h.of_suffix ?_
      rw [frames, houter]
      exact List.suffix_cons _ _
  | some i =>
    have hbehind : p.Stacks limit (c.behind.top :: c.outer) := h.of_top rfl rfl
    rw [turn_instr hinstr]
    cases i with
    | enter name indent =>
      rw [meet]
      split
      · exact hbehind
      · rename_i hdepth
        rw [hlimit, c.depth_eq] at hdepth
        exact .included hbehind hinstr rfl rfl (Nat.lt_of_not_le hdepth)
    | text content => exact hbehind
    | interpolate escaped path => exact hbehind
    | openSection inverted path target => exact hbehind
    | closeSection path target => exact hbehind

/-- **The frames of a walk stand on top of each other.** -/
theorem Visits.stacks (h : Visits p limit c) : p.Stacks limit c.frames := by
  induction h with
  | start => exact .main rfl rfl
  | turn hc ih => exact stacks_turn hc.limit_eq ih
  | enterSection _ henter ih =>
    rw [(enterSection_eq_ok_iff.1 henter).2]
    exact ih
  | exitSection _ hexit ih =>
    obtain ⟨target, -, rfl⟩ := exitSection_eq_ok_iff.1 hexit
    exact ih
  | @reset c _ ih =>
    -- what is left is the outermost frame
    obtain ⟨f, hlast, hsequence, hindent⟩ := ih.exists_outermost
    rw [frames, List.getLast?_cons] at hlast
    obtain rfl := Option.some.inj hlast
    exact .main hsequence hindent

/-- **What holds of the frames of a walk and of what is pending.** -/
structure KeepsFrames (p : Program) (limit : Nat) (c : Cursor) : Prop where
  /-- There is a frame, and the outermost one is in the main sequence, without indentation. -/
  outermost : ∃ f, c.frames.getLast? = some f ∧ f.sequence = p.main ∧ f.indent = ""
  /-- All frames but one are those of included templates, of which there are not too many. -/
  depth_le : c.frames.length = c.depth + 1 ∧ c.depth ≤ limit
  /-- A frame around another one stands at an inclusion. The one inside of it is in the template
  that is included, and is indented by this inclusion and all those further out. A name that the
  program lacks stands for the sequence of the frame around. -/
  included : ∀ g f outer, g :: f :: outer <:+ c.frames → ∃ name more,
    f.reached? = some (.enter name more) ∧
      g.sequence = (p.partials.find? name).getD f.sequence ∧ g.indent = indentAround (f :: outer)
  /-- A section that may be entered is the one that was opened where the innermost frame stands. -/
  opened : ∀ target, c.pending = .opened target → ∃ i inverted path, c.top.index = some i ∧
    c.top.sequence.instrs[i]? = some (.openSection inverted path target) ∧
      c.top.sequence.instrs[target]? = some (.closeSection path i) ∧ i < target
  /-- A section that may be repeated, or is to be, is the one that was closed where the innermost
  frame stands. -/
  closed : ∀ target, c.pending = .closed target ∨ c.pending = .repeated target →
    ∃ i inverted path, c.top.index = some i ∧
      c.top.sequence.instrs[i]? = some (.closeSection path target) ∧
        c.top.sequence.instrs[target]? = some (.openSection inverted path i) ∧ target < i

end Cursor

/-- **The frames of a walk and what is pending, behind every script of calls.** The frames stand on
top of each other, from the main sequence on, and there are never more than the greatest depth of
inclusion allows. Where a jump is pending, both of its ends are those of one section of the template
at hand.

**Proof sketch.** A turn either moves the innermost frame, or puts a frame on top of it at an
inclusion, or takes it away. What is pending belongs to the instruction that was reached last, and
the sequence in which this one stands is well bracketed. -/
theorem Program.IsSequenced.keepsFrames {p : Program} (hp : p.IsSequenced) {limit : Nat}
    {script : List Cursor.Call} {c : Cursor} (hc : Cursor.afterAll p limit script = c) :
    c.KeepsFrames p limit := by
  have hvisits : Cursor.Visits p limit c := hc ▸ Cursor.visits_afterAll p limit script
  have hstacks := hvisits.stacks
  refine
    { outermost := hstacks.exists_outermost
      depth_le := ⟨congrArg (· + 1) c.depth_eq.symm, ?_⟩
      included := ?_
      opened := fun target hpending => hvisits.exists_opening hp hpending
      closed := fun target hpending => hvisits.exists_closing hp hpending }
  · rw [c.depth_eq]
    exact hstacks.length_outer_le
  · intro g f outer hsuffix
    have habove := hstacks.of_suffix hsuffix
    have hindent := habove.indent_eq
    cases habove with
    | included _ hreached hsequence _ _ => exact ⟨_, _, hreached, hsequence, hindent⟩

/-- A section is to be repeated, in a template that includes itself under a name that the program
lacks. -/
theorem keepsFrames_on_unknown :
    ∃ (p : Program) (c : Cursor), p.IsSequenced ∧
      Cursor.afterAll p 2 [.next, .next, .next, .enterSection, .next, .exitSection] = c ∧
      c.depth = 2 ∧ c.indent = " \t" ∧ c.pending = .repeated 0 ∧ c.KeepsFrames p 2 := by
  let main : Sequence := ⟨#[.text "x", .enter "p" " "], by decide⟩
  let item : Sequence :=
    ⟨#[.openSection false ⟨["s"], by decide⟩ 1, .closeSection ⟨["s"], by decide⟩ 0,
      .enter "q" "\t"], by decide⟩
  let p : Program := ⟨"", main, ⟨[("p", item)], List.pairwise_singleton _ _⟩⟩
  have hp : p.IsSequenced := Program.isSequenced_of_ofList
    (List.forall_mem_cons.2 ⟨rfl, List.forall_mem_singleton.2 rfl⟩)
  let c := Cursor.afterAll p 2 [.next, .next, .next, .enterSection, .next, .exitSection]
  have hrun : c.depth = 2 ∧ c.indent = " \t" ∧ c.pending = .repeated 0 := by decide +kernel
  exact ⟨p, c, hp, rfl, hrun.1, hrun.2.1, hrun.2.2, hp.keepsFrames rfl⟩

/-! ## Going back to the start -/

namespace Cursor

variable {p : Program} {limit : Nat} {c : Cursor}

/-- **A walk that goes back to the start is a new one.** -/
theorem Visits.reset_eq (h : Visits p limit c) : c.reset = .start p limit := by
  obtain ⟨f, hlast, hsequence, hindent⟩ := h.stacks.exists_outermost
  rw [frames, List.getLast?_cons] at hlast
  obtain rfl := Option.some.inj hlast
  simp only [Cursor.reset, Cursor.start, Frame.start, h.limit_eq, hsequence, hindent]

/-- What a call answers. -/
inductive Answer where
  /-- An instruction, or a fault. -/
  | yielded (result : Except CursorFault Instr)
  /-- Whether a section was entered or repeated. -/
  | settled (result : Except CursorFault Unit)
  /-- Whether something is left to yield. -/
  | told (more : Bool)
  /-- The walk is in front of its program. -/
  | restarted

/-- The answer of a call. -/
def answer (p : Program) (c : Cursor) : Call → Answer
  | .next => .yielded (c.next p).2
  | .enterSection => .settled (c.enterSection.map fun _ => ())
  | .exitSection => .settled (c.exitSection.map fun _ => ())
  | .hasNext => .told c.hasNext
  | .reset => .restarted

/-- What a caller gets to see of a call: the answer, and behind it whether something is left to
yield, the number of included templates at hand and the indentation. -/
structure Response where
  answer : Answer
  hasNext : Bool
  depth : Nat
  indent : String

/-- What a caller gets to see of a script of calls. -/
def responses (p : Program) : Cursor → List Call → List Response
  | _, [] => []
  | c, call :: calls =>
    let d := c.after p call
    ⟨c.answer p call, d.hasNext, d.depth, d.indent⟩ :: d.responses p calls

/-- What a caller gets to see of two scripts in a row. -/
lemma responses_append (p : Program) (c : Cursor) (before later : List Call) :
    c.responses p (before ++ later) =
      c.responses p before ++ (before.foldl (after p) c).responses p later := by
  induction before generalizing c with
  | nil => rfl
  | cons call before ih =>
    rw [List.cons_append, responses, responses, ih, List.cons_append]
    rfl

/-- In front of a program, something is left to yield. -/
lemma hasNext_start (p : Program) (limit : Nat) : (start p limit).hasNext = true :=
  hasNext_of_lt p.main.size_pos

/-- **Going back to the start forgets all that was called before.** Whatever a caller does behind it
shows what the same calls show on a new walk with the same greatest depth. What was called before
may have stopped anywhere: within included templates, behind an opening or a closing, or behind a
call that failed.

**Proof sketch.** The outermost frame is all that is left of the walk, and it is in the main
sequence and not indented. -/
theorem responses_reset (p : Program) (limit : Nat) (before later : List Call) :
    (start p limit).responses p (before ++ .reset :: later) =
      (start p limit).responses p before ++
        ⟨.restarted, true, 0, ""⟩ :: (start p limit).responses p later := by
  have hstart : (before.foldl (after p) (start p limit)).after p .reset = start p limit :=
    (visits_afterAll p limit before).reset_eq
  rw [responses_append, responses]
  simp only [hstart, hasNext_start]
  rfl

end Cursor

end Stencil
