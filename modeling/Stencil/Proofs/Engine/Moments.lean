import Mathlib.Data.Finset.Card
import Mathlib.Data.Finset.Dedup
import Mathlib.Tactic.Lemma
import Stencil.Proofs.Engine.Acceptance
import Stencil.Proofs.Loops

/-!
# Compiling one step at a time

Compiling is a loop over a stack of templates. The one on top comes to its next reference: a
template that is there or being compiled is passed over, another one is put on top of the stack.
When the template on top has no references left, its sequence is kept and the one below goes on.
Nothing bounds this loop. What an engine compiles is what the loop ends with.

## Main definitions

* `Shelf` — where the sources of included templates come from.
* `Task`, `Waiting`, `Moment` — the templates that are being compiled inside one another.
* `Moment.step` — one step of compiling.
* `Moment.Goes`, `Moment.Stops` — what a step can do.

## Main results

* `Moment.step_eq_inr`, `Moment.step_eq_inl` — a step does one of these.
* `compileAt_follows` — compiling with enough levels is what the loop does.
* `Engine.compile_endsIn` — what an engine compiles is what the loop ends with.
-/

namespace Stencil

open Stencil.Markup

/-- Where the sources of included templates come from: the source for a name, or the reason why
there is none, and the names for which a loader is asked. -/
structure Shelf where
  sourceOf : String → Except Cause String
  asksFor : String → Bool

/-- The sources that an engine has. -/
def Engine.shelf (e : Engine) : Shelf := ⟨e.sourceOf, e.asksFor⟩

/-- The linkage after the source of a template was looked for. -/
def Shelf.note (shelf : Shelf) (st : Linkage) (name : String) : Linkage :=
  if shelf.asksFor name then { st with asked := st.asked ++ [name] } else st

/-- A template that is being compiled: its source, and the references that it has not come to. -/
structure Task where
  source : String
  left : List Reference
  deriving DecidableEq

/-- The template with the given source, none of whose references was come to. -/
def Task.start (source : String) : Task := ⟨source, (Draft.ofText source.toList).references⟩

/-- A template that waits for one that it includes. -/
structure Waiting where
  /-- The name of the template that it waits for. -/
  name : String
  task : Task

/-- A moment of compiling: the innermost template that is being compiled, those that wait for
it, innermost first, and what compiling has brought about. -/
structure Moment where
  task : Task
  outer : List Waiting
  linkage : Linkage

/-- Looking for a source compiles nothing. -/
@[simp]
lemma Shelf.compiled_note (shelf : Shelf) (st : Linkage) (name : String) :
    (shelf.note st name).compiled = st.compiled := by
  unfold note
  split <;> rfl

/-- What is looked up before a template is compiled. -/
lemma known_iff {st : Linkage} {chain : List String} {n : String} :
    (st.compiled.contains n || chain.contains n) = true ↔
      st.compiled.contains n = true ∨ n ∈ chain := by
  simp

/-- A template that becomes complete was being compiled before. -/
lemma contains_insert_or_mem {t : Table Sequence} {s : Sequence} {n m : String}
    {chain : List String} :
    ((t.insert n s).contains m = true ∨ m ∈ chain) ↔ (t.contains m = true ∨ m ∈ n :: chain) := by
  rw [Table.contains, Table.find?_insert]
  by_cases hn : n = m
  · simp [hn]
  · simp [hn, Ne.symm hn, Table.contains]

namespace Moment

/-- The moment at which compiling begins. -/
def start (source : String) : Moment := ⟨.start source, [], {}⟩

/-- How many templates are being compiled inside one another. -/
def depth (m : Moment) : Nat := m.outer.length + 1

/-- The name under which the template inside of the waiting ones is compiled. The outermost one
has none. -/
def nameIn (outer : List Waiting) : Option String := outer.head?.map Waiting.name

/-- The names that are being compiled inside of the waiting templates, innermost first. -/
def chainOf (own : Option String) (outer : List Waiting) : List String :=
  outer.map Waiting.name ++ own.toList

/-- One step of compiling: the answer, or the moment from which compiling goes on. -/
def step (shelf : Shelf) (own : Option String) (m : Moment) :
    (Linkage × Except Fault Sequence) ⊕ Moment :=
  match m.task.left with
  | r :: rest =>
    if m.linkage.compiled.contains r.name || (chainOf own m.outer).contains r.name then
      .inr { m with task := ⟨m.task.source, rest⟩ }
    else
      match shelf.sourceOf r.name with
      | .error cause =>
        .inl (shelf.note m.linkage r.name,
          .error ⟨cause, nameIn m.outer, r.span.map fun span => ⟨m.task.source, span⟩⟩)
      | .ok text =>
        .inr ⟨.start text, ⟨r.name, m.task.source, rest⟩ :: m.outer, shelf.note m.linkage r.name⟩
  | [] =>
    match (Draft.ofText m.task.source.toList).outcome, m.outer with
    | .error error, outer =>
      .inl (m.linkage, .error { error.toFault m.task.source with name := nameIn outer })
    | .ok s, [] => .inl (m.linkage, .ok s)
    | .ok s, w :: outer =>
      .inr ⟨w.task, outer, { m.linkage with compiled := m.linkage.compiled.insert w.name s }⟩

/-! ## What a step can do -/

/-- The ways in which compiling goes on. -/
inductive Goes (shelf : Shelf) (own : Option String) : Moment → Moment → Prop
  /-- The template is there, or it is being compiled. -/
  | skip {source : String} {r : Reference} {rest : List Reference} {outer : List Waiting}
      {st : Linkage} (hknown : st.compiled.contains r.name = true ∨ r.name ∈ chainOf own outer) :
      Goes shelf own ⟨⟨source, r :: rest⟩, outer, st⟩ ⟨⟨source, rest⟩, outer, st⟩
  /-- The template is compiled now. -/
  | enter {source text : String} {r : Reference} {rest : List Reference} {outer : List Waiting}
      {st : Linkage}
      (hnew : ¬(st.compiled.contains r.name = true ∨ r.name ∈ chainOf own outer))
      (htext : shelf.sourceOf r.name = .ok text) :
      Goes shelf own ⟨⟨source, r :: rest⟩, outer, st⟩
        ⟨.start text, ⟨r.name, source, rest⟩ :: outer, shelf.note st r.name⟩
  /-- The template is complete. -/
  | leave {source : String} {w : Waiting} {outer : List Waiting} {st : Linkage} {s : Sequence}
      (hdraft : (Draft.ofText source.toList).outcome = .ok s) :
      Goes shelf own ⟨⟨source, []⟩, w :: outer, st⟩
        ⟨w.task, outer, { st with compiled := st.compiled.insert w.name s }⟩

/-- The ways in which compiling stops. -/
inductive Stops (shelf : Shelf) (own : Option String) :
    Moment → Linkage × Except Fault Sequence → Prop
  /-- The template has no source. -/
  | missing {source : String} {r : Reference} {rest : List Reference} {outer : List Waiting}
      {st : Linkage} {cause : Cause}
      (hnew : ¬(st.compiled.contains r.name = true ∨ r.name ∈ chainOf own outer))
      (hcause : shelf.sourceOf r.name = .error cause) :
      Stops shelf own ⟨⟨source, r :: rest⟩, outer, st⟩ (shelf.note st r.name,
        .error ⟨cause, nameIn outer, r.span.map fun span => ⟨source, span⟩⟩)
  /-- The template has no sequence. -/
  | malformed {source : String} {outer : List Waiting} {st : Linkage} {error : DraftError}
      (hdraft : (Draft.ofText source.toList).outcome = .error error) :
      Stops shelf own ⟨⟨source, []⟩, outer, st⟩
        (st, .error { error.toFault source with name := nameIn outer })
  /-- The outermost template is complete. -/
  | done {source : String} {st : Linkage} {s : Sequence}
      (hdraft : (Draft.ofText source.toList).outcome = .ok s) :
      Stops shelf own ⟨⟨source, []⟩, [], st⟩ (st, .ok s)

variable {shelf : Shelf} {own : Option String} {m m' : Moment}
  {answer : Linkage × Except Fault Sequence}

/-- A step that goes on does so in one of the ways. -/
lemma step_eq_inr : m.step shelf own = .inr m' ↔ Goes shelf own m m' := by
  constructor
  · intro h
    obtain ⟨⟨source, left⟩, outer, st⟩ := m
    cases left with
    | cons r rest =>
      simp only [step] at h
      split at h
      · rename_i hknown
        cases h
        exact .skip (known_iff.1 hknown)
      · rename_i hnew
        split at h
        · cases h
        · rename_i text htext
          cases h
          exact .enter (mt known_iff.2 hnew) htext
    | nil =>
      simp only [step] at h
      split at h
      · cases h
      · cases h
      · rename_i s w outer hdraft
        cases h
        exact .leave hdraft
  · intro h
    cases h with
    | skip hknown => exact if_pos (known_iff.2 hknown)
    | enter hnew htext =>
      simp only [step, htext]
      exact if_neg (mt known_iff.1 hnew)
    | leave hdraft => simp only [step, hdraft]

/-- A step that stops does so in one of the ways. -/
lemma step_eq_inl : m.step shelf own = .inl answer ↔ Stops shelf own m answer := by
  constructor
  · intro h
    obtain ⟨⟨source, left⟩, outer, st⟩ := m
    cases left with
    | cons r rest =>
      simp only [step] at h
      split at h
      · cases h
      · rename_i hnew
        split at h
        · rename_i cause hcause
          cases h
          exact .missing (mt known_iff.2 hnew) hcause
        · cases h
    | nil =>
      simp only [step] at h
      split at h
      · rename_i error hdraft
        cases h
        exact .malformed hdraft
      · rename_i s hdraft
        cases h
        exact .done hdraft
      · cases h
  · intro h
    cases h with
    | missing hnew hcause =>
      simp only [step, hcause]
      exact if_neg (mt known_iff.1 hnew)
    | malformed hdraft => simp only [step, hdraft]
    | done hdraft => simp only [step, hdraft]

end Moment

/-! ## What an engine compiles -/

section Following

open Moment

variable {e : Engine} {own : Option String} {descend : Descent} {outer : List Waiting}

/-- What the loop brings about while the references that are left are linked. -/
inductive Links (e : Engine) (own : Option String) (outer : List Waiting) (task : Task)
    (st : Linkage) : Linkage × Except Fault Unit → Prop
  /-- The loop comes to where no references are left. -/
  | linked {st' : Linkage} (hpasses : Passes (step e.shelf own) ⟨task, outer, st⟩
      ⟨⟨task.source, []⟩, outer, st'⟩) : Links e own outer task st (st', .ok ())
  /-- The loop ends with a fault. It names the template unless it names an inner one. -/
  | failed {st' : Linkage} {fault : Fault} {k : Nat}
      (hends : EndsIn (step e.shelf own) ⟨task, outer, st⟩ k
        (st', .error { fault with name := fault.name.or (nameIn outer) })) :
      Links e own outer task st (st', .error fault)

/-- What the loop brings about while a template is compiled. -/
inductive Follows (e : Engine) (own : Option String) (outer : List Waiting) (text : String)
    (st : Linkage) : Linkage × Except Fault Sequence → Prop
  /-- The loop comes to where no references are left, and the source has a sequence. -/
  | sequenced {st' : Linkage} {s : Sequence} (hdraft : (Draft.ofText text.toList).outcome = .ok s)
      (hpasses : Passes (step e.shelf own) ⟨.start text, outer, st⟩
        ⟨⟨text, []⟩, outer, st'⟩) : Follows e own outer text st (st', .ok s)
  /-- The loop ends with a fault. It names the template unless it names an inner one. -/
  | failed {st' : Linkage} {fault : Fault} {k : Nat}
      (hends : EndsIn (step e.shelf own) ⟨.start text, outer, st⟩ k
        (st', .error { fault with name := fault.name.or (nameIn outer) })) :
      Follows e own outer text st (st', .error fault)

/-- What the loop brings about from where it comes to is what it brings about. -/
lemma Links.behind {task : Task} {rest : List Reference} {st st₁ : Linkage}
    {result : Linkage × Except Fault Unit} (h : Links e own outer ⟨task.source, rest⟩ st₁ result)
    (hpasses : Passes (step e.shelf own) ⟨task, outer, st⟩ ⟨⟨task.source, rest⟩, outer, st₁⟩) :
    Links e own outer task st result := by
  cases h with
  | linked h => exact .linked (hpasses.trans h)
  | failed h =>
    obtain ⟨k, hends⟩ := hpasses.endsIn h
    exact .failed hends

/-- The references of a template are linked as the loop does it if what they refer to is. -/
lemma linkAll_follows {source : String} (references : List Reference)
    (hdescend : ∀ n text rest st, n ∉ chainOf own outer → e.sourceOf n = .ok text →
      Follows e own (⟨n, source, rest⟩ :: outer) text st
        (descend (n :: chainOf own outer) text st)) (st : Linkage) :
    Links e own outer ⟨source, references⟩ st
      (linkAll e descend (chainOf own outer) source references st) := by
  induction references generalizing st with
  | nil => exact .linked .refl
  | cons r rest ih =>
    rw [linkAll]
    split
    · rename_i hknown
      exact (ih st).behind (.of_step (step_eq_inr.2 (.skip (known_iff.1 hknown))))
    · rename_i hnew
      replace hnew := mt known_iff.2 hnew
      split
      · rename_i cause hcause
        exact .failed (.last (step_eq_inl.2 (.missing hnew hcause)))
      · rename_i text htext
        have henter : Passes (step e.shelf own) ⟨⟨source, r :: rest⟩, outer, st⟩
            ⟨.start text, ⟨r.name, source, rest⟩ :: outer, st.noting e r.name⟩ :=
          .of_step (step_eq_inr.2 (.enter hnew htext))
        have hinner := hdescend r.name text rest (st.noting e r.name)
          (fun hchain => hnew (.inr hchain)) htext
        split
        · rename_i st₁ fault hdescended
          rw [hdescended] at hinner
          obtain - | ⟨hends⟩ := hinner
          -- the fault names the inner template now, or a template further in
          have hname : fault.name.or (some r.name) = some (fault.name.getD r.name) := by
            cases fault.name <;> rfl
          simp only [nameIn, List.head?_cons, Option.map_some, hname] at hends
          obtain ⟨k, hends⟩ := henter.endsIn hends
          exact .failed hends
        · rename_i st₁ s hdescended
          rw [hdescended] at hinner
          obtain ⟨hdraft, hinner⟩ := hinner
          exact (ih _).behind ((henter.trans hinner).tail (step_eq_inr.2 (.leave hdraft)))

/-- A template is compiled as the loop does it if what it includes is. -/
lemma compileWith_follows {text : String}
    (hdescend : ∀ n inner rest st, n ∉ chainOf own outer → e.sourceOf n = .ok inner →
      Follows e own (⟨n, text, rest⟩ :: outer) inner st
        (descend (n :: chainOf own outer) inner st)) (st : Linkage) :
    Follows e own outer text st (compileWith e descend (chainOf own outer) text st) := by
  have hlink := linkAll_follows (Draft.ofText text.toList).references hdescend st
  unfold compileWith
  dsimp only
  split
  · rename_i st' fault hlinked
    rw [hlinked] at hlink
    obtain - | ⟨hends⟩ := hlink
    exact .failed hends
  · rename_i st' hlinked
    rw [hlinked] at hlink
    obtain ⟨hpasses⟩ := hlink
    split
    · rename_i error hdraft
      obtain ⟨k, hends⟩ := hpasses.endsIn (.last (step_eq_inl.2 (.malformed hdraft)))
      exact .failed hends
    · rename_i s hdraft
      exact .sequenced hdraft hpasses

/-- **Compiling with enough levels is what the loop does.** A level for each known name that is
not being compiled is enough.

**Proof sketch.** Induction on the levels, for any templates that wait. Going down to a template
takes one of the names that are left. -/
theorem compileAt_follows {levels : Nat}
    (hlevels : (e.known.toFinset \ (chainOf own outer).toFinset).card ≤ levels) (text : String)
    (st : Linkage) :
    Follows e own outer text st (compileAt e levels (chainOf own outer) text st) := by
  -- a template with a source that is not being compiled is among the names that are left
  have hleft : ∀ {outer : List Waiting} {n inner : String}, n ∉ chainOf own outer →
      e.sourceOf n = .ok inner → n ∈ e.known.toFinset \ (chainOf own outer).toFinset := by
    intro outer n inner hn hinner
    simpa using ⟨Engine.mem_known_of_sourceOf hinner, hn⟩
  induction levels generalizing outer text st with
  | zero =>
    rw [compileAt]
    refine compileWith_follows (fun n inner rest st hn hinner => ?_) st
    have hnone := Finset.card_eq_zero.1 (Nat.le_zero.1 hlevels)
    simpa [hnone] using hleft hn hinner
  | succ levels ih =>
    rw [compileAt]
    refine compileWith_follows (fun n inner rest st hn hinner => ?_) st
    refine @ih (⟨n, text, rest⟩ :: outer) ?_ inner st
    have hlt := Finset.card_erase_lt_of_mem (hleft hn hinner)
    rw [show chainOf own (⟨n, text, rest⟩ :: outer) = n :: chainOf own outer from rfl,
      List.toFinset_cons, Finset.sdiff_insert]
    omega

/-- **What an engine compiles is what the loop ends with.** -/
theorem Engine.compile_endsIn (e : Engine) (own : Option String) (source : String) :
    ∃ k st outcome, EndsIn (step e.shelf own) (.start source) k (st, outcome) ∧
      e.compile own source =
        ⟨st.asked, outcome.map fun main => Program.closing own ⟨source, main, st.compiled⟩⟩ := by
  have hlevels : (e.known.toFinset \ (chainOf own []).toFinset).card ≤ e.known.length :=
    (Finset.card_le_card Finset.sdiff_subset).trans (List.toFinset_card_le _)
  have hfollows := compileAt_follows hlevels source {}
  unfold compile
  split
  · rename_i st fault hcompiled
    rw [show chainOf own [] = own.toList from rfl, hcompiled] at hfollows
    obtain - | ⟨hends⟩ := hfollows
    rw [show fault.name.or (nameIn []) = fault.name from Option.or_none] at hends
    exact ⟨_, st, .error fault, hends, rfl⟩
  · rename_i st main hcompiled
    rw [show chainOf own [] = own.toList from rfl, hcompiled] at hfollows
    obtain ⟨hdraft, hpasses⟩ := hfollows
    obtain ⟨k, hends⟩ := hpasses.endsIn (.last (step_eq_inl.2 (.done hdraft)))
    exact ⟨k, st, .ok main, hends, rfl⟩

end Following

end Stencil
