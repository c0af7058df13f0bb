import Mathlib.Data.List.Forall2
import Mathlib.Data.Option.Basic
import Mathlib.Tactic.Lemma
import Stencil.Proofs.Render.Escaping

/-!
# Two runs of a program

A program is run with two sets of data. If the data corresponds, in that every path of the
program leads to values that correspond, whatever corresponding values the sections have put in
front, then the two runs do the same things one by one: they meet the same texts and sections,
the sections run for the same number of times, and what they write corresponds.

## Main definitions

* `Correspondence` — what two sets of data have to have in common, as to a program.
* `Event.Alike`, `Trace.Alike` — the same is done, with values that correspond.
* `Machine.Alike` — the walks are at the same place, with data that corresponds.
* `Machine.Meets` — the machines that two runs reach with the same number of steps.

## Main results

* `Correspondence.evaluate` — the evaluations by structure are alike.
* `Correspondence.step` — a step of two machines that are alike.
* `Correspondence.meets`, `Correspondence.exists_meets` — machines that two runs reach together
  are alike, and every machine of one run is reached together with one of the other.
* `Correspondence.run` — the runs are alike.
-/

namespace Stencil

/-! ## What is alike -/

section Relations

variable (R : Value → Value → Prop)

/-- Two events do the same, with values that correspond. -/
inductive Event.Alike : Event → Event → Prop where
  | text (indent content : String) : Alike (.text indent content) (.text indent content)
  | value (indent : String) (escaped : Bool) {v? w? : Option Value} : Option.Rel R v? w? →
      Alike (.value indent escaped v?) (.value indent escaped w?)
  | opened (inverted : Bool) (path : Path) (runs : Bool) :
      Alike (.opened inverted path runs) (.opened inverted path runs)
  | closed (path : Path) (again : Bool) : Alike (.closed path again) (.closed path again)

/-- Two traces do the same event by event, with values that correspond, and end in the same
way. -/
inductive Trace.Alike : Trace → Trace → Prop where
  | ended (fault : Option RunFault) : Alike (.ended fault) (.ended fault)
  | event {e e' : Event} {rest rest' : Unit → Trace} : e.Alike R e' →
      Alike (rest ()) (rest' ()) → Alike (.event e rest) (.event e' rest')

/-- Two scopes of one section, with data that corresponds item by item. -/
structure Scope.Alike (s s' : Scope) : Prop where
  path : s.path = s'.path
  contexts : List.Forall₂ R s.contexts s'.contexts

/-- The same sections run, with data that corresponds, over the given sets of data. -/
structure Scopes.Alike (root root' : Value) (s s' : Scopes) : Prop where
  inner : List.Forall₂ (Scope.Alike R) s.inner s'.inner
  root_left : s.root = root
  root_right : s'.root = root'

/-- Two machines at the same place of their walks, with data that corresponds. -/
structure Machine.Alike (root root' : Value) (m m' : Machine) : Prop where
  cursor : m.cursor = m'.cursor
  scopes : m.scopes.Alike R root root' m'.scopes

/-- The data at hand corresponds item by item, up to that of the whole rendering. -/
def Stacked (root root' : Value) (contexts contexts' : List Value) : Prop :=
  ∃ inner inner', contexts = inner ++ [root] ∧ contexts' = inner' ++ [root'] ∧
    List.Forall₂ R inner inner'

/-- **What two sets of data have in common as to a program**: every path that the program names
leads to values that correspond, whatever corresponding data is in front, and values that
correspond make sections run for as many times, with data that corresponds. -/
structure Correspondence (p : Program) (root root' : Value) : Prop where
  lookup : ∀ contexts contexts' path, Stacked R root root' contexts contexts' →
    path ∈ p.paths → Option.Rel R (lookup contexts path) (lookup contexts' path)
  contextsOf : ∀ v? w?, Option.Rel R v? w? →
    List.Forall₂ R (contextsOf v?) (contextsOf w?)

end Relations

/-- The machines that two runs reach with the same number of steps. -/
inductive Machine.Meets (p : Program) (first first' : Machine) : Machine → Machine → Prop where
  | start : Meets p first first' first first'
  | step {m m' d d' : Machine} {e e' : Event} : Meets p first first' m m' →
      m.cursor.hasNext = true → m.step p = .ok (e, d) →
        m'.cursor.hasNext = true → m'.step p = .ok (e', d') → Meets p first first' d d'

variable {R : Value → Value → Prop} {p : Program} {root root' : Value}

/-- The data of a section in front of data that corresponds. -/
lemma Stacked.cons {contexts contexts' : List Value} {v w : Value}
    (h : Stacked R root root' contexts contexts') (hvw : R v w) :
    Stacked R root root' (v :: contexts) (w :: contexts') := by
  obtain ⟨inner, inner', rfl, rfl, hinner⟩ := h
  exact ⟨v :: inner, w :: inner', rfl, rfl, .cons hvw hinner⟩

/-- Only the data of the whole rendering is at hand. -/
lemma Stacked.roots : Stacked R root root' [root] [root'] := ⟨[], [], rfl, rfl, .nil⟩

/-- Lists whose items correspond are empty together. -/
lemma isEmpty_eq_of_forall₂ {vs ws : List Value} (h : List.Forall₂ R vs ws) :
    vs.isEmpty = ws.isEmpty := by
  cases h <;> rfl

/-- Values that may be missing correspond by equality exactly if they are equal. -/
lemma rel_eq_iff {v? w? : Option Value} : Option.Rel Eq v? w? ↔ v? = w? := by
  constructor
  · rintro (h | _)
    · exact congrArg some h
    · rfl
  · rintro rfl
    cases v? with
    | none => exact .none
    | some v => exact .some rfl

/-- Traces that are alike with equal values are equal. -/
lemma Trace.Alike.eq {t t' : Trace} (h : t.Alike Eq t') : t = t' := by
  induction h with
  | ended fault => rfl
  | @event e e' rest rest' he _ ih =>
    obtain rfl : e = e' := by
      cases he with
      | value indent escaped hvalue => rw [rel_eq_iff.1 hvalue]
      | text indent content => rfl
      | opened inverted path runs => rfl
      | closed path again => rfl
    congr 1
    funext u
    exact ih

/-! ## The paths of trees -/

namespace Node

mutual

/-- The paths that a tree names. -/
def paths : Node → List Path
  | text _ => []
  | interpolate _ path => [path]
  | enter _ _ => []
  | region _ path body => path :: pathsAll body

/-- The paths that a list of trees names. -/
def pathsAll : List Node → List Path
  | [] => []
  | n :: ns => n.paths ++ pathsAll ns

end

end Node

open Node

/-- The trees of some instructions name what the instructions name. -/
lemma pathsAll_outlineLevels (is : List Instr) :
    pathsAll (outlineLevels is).1 ⊆ is.filterMap Instr.path? ∧
      ∀ ns ∈ (outlineLevels is).2, pathsAll ns ⊆ is.filterMap Instr.path? := by
  induction is with
  | nil => exact ⟨List.nil_subset _, List.forall_mem_nil _⟩
  | cons i is ih =>
    obtain ⟨hhere, houter⟩ := ih
    cases i with
    | text content =>
      exact ⟨hhere, houter⟩
    | enter name indent =>
      exact ⟨hhere, houter⟩
    | interpolate escaped path =>
      refine ⟨List.cons_subset_cons path hhere, fun ns hns => ?_⟩
      exact List.subset_cons_of_subset path (houter ns hns)
    | closeSection path target =>
      refine ⟨List.nil_subset _, fun ns hns => List.subset_cons_of_subset path ?_⟩
      rcases List.mem_cons.1 hns with rfl | hns
      · exact hhere
      · exact houter ns hns
    | openSection inverted path target =>
      rw [List.filterMap_cons_some (show Instr.path? (.openSection inverted path target) =
        some path from rfl)]
      rw [outlineLevels]
      split
      · rename_i body here outer hlevels
        rw [hlevels] at hhere houter
        refine ⟨List.cons_subset_cons path ?_, fun ns hns => ?_⟩
        · exact List.append_subset.2 ⟨hhere, houter here List.mem_cons_self⟩
        · exact List.subset_cons_of_subset path (houter ns (List.mem_cons_of_mem here hns))
      · rename_i body hlevels
        rw [hlevels] at hhere
        refine ⟨List.cons_subset_cons path ?_, List.forall_mem_nil _⟩
        exact List.append_subset.2 ⟨hhere, List.nil_subset _⟩

/-- The outline of a sequence names paths of its program. -/
lemma pathsAll_outline {s : Sequence} (hs : s ∈ p.sequences) : pathsAll s.outline ⊆ p.paths := by
  intro path hpath
  exact List.mem_flatMap.2 ⟨s, hs, (pathsAll_outlineLevels s.instrs.toList).1 hpath⟩

/-! ## Evaluation by structure -/

/-- What is evaluated with data that corresponds, in front of traces that are alike, gives traces
that are alike. -/
def EvaluatesAlike (R : Value → Value → Prop) (root root' : Value)
    (body : List Value → Rest → Trace) : Prop :=
  ∀ contexts contexts' (after after' : Rest), Stacked R root root' contexts contexts' →
    (after ()).Alike R (after' ()) → (body contexts after).Alike R (body contexts' after')

/-- The runs of a section are alike if its body is. -/
lemma EvaluatesAlike.runRegion {path : Path} {body : List Value → Rest → Trace}
    (hbody : EvaluatesAlike R root root' body) {contexts contexts' vs ws : List Value}
    {after after' : Rest} (hstacked : Stacked R root root' contexts contexts')
    (hvw : List.Forall₂ R vs ws) (hafter : (after ()).Alike R (after' ())) :
    (runRegion path body contexts vs after).Alike R (runRegion path body contexts' ws after') := by
  induction hvw with
  | nil => exact hafter
  | cons hfirst hleft ih =>
    refine hbody _ _ _ _ (hstacked.cons hfirst) ?_
    rw [isEmpty_eq_of_forall₂ hleft]
    exact .event (.closed path _) ih

namespace Correspondence

mutual

/-- A tree is evaluated alike if an inclusion is. -/
lemma alike_evalNode (h : Correspondence R p root root') {inclusion : Inclusion}
    (hincl : ∀ name indent, EvaluatesAlike R root root' (inclusion name indent))
    (indent : String) : (n : Node) → n.paths ⊆ p.paths →
      EvaluatesAlike R root root' (evalNode inclusion indent n)
  | .text content, _, _, _, _, _, _, hafter => .event (.text indent _) hafter
  | .interpolate escaped path, hpaths, _, _, _, _, hstacked, hafter =>
    .event (.value indent escaped (h.lookup _ _ path hstacked (hpaths List.mem_cons_self))) hafter
  | .enter name more, _, contexts, contexts', after, after', hstacked, hafter =>
    hincl name (indent ++ more) contexts contexts' after after' hstacked hafter
  | .region inverted path body, hpaths, contexts, contexts', after, after', hstacked, hafter => by
    have hbody := alike_evalNodes h hincl indent body fun path' hpath' =>
      hpaths (List.mem_cons_of_mem path hpath')
    have hdata := h.contextsOf _ _ (h.lookup _ _ path hstacked (hpaths List.mem_cons_self))
    simp only [evalNode, ← isEmpty_eq_of_forall₂ hdata]
    split
    · refine .event (.opened inverted path true) ?_
      split
      · exact hbody _ _ _ _ hstacked (.event (.closed path false) hafter)
      · exact hbody.runRegion hstacked hdata hafter
    · exact .event (.opened inverted path false) hafter

/-- A list of trees is evaluated alike if an inclusion is. -/
lemma alike_evalNodes (h : Correspondence R p root root') {inclusion : Inclusion}
    (hincl : ∀ name indent, EvaluatesAlike R root root' (inclusion name indent))
    (indent : String) : (ns : List Node) → pathsAll ns ⊆ p.paths →
      EvaluatesAlike R root root' (evalNodes inclusion indent ns)
  | [], _, _, _, _, _, _, hafter => hafter
  | n :: ns, hpaths, contexts, contexts', after, after', hstacked, hafter => by
    rw [pathsAll, List.append_subset] at hpaths
    have hrest := alike_evalNodes h hincl indent ns hpaths.2 _ _ after after' hstacked hafter
    exact alike_evalNode h hincl indent n hpaths.1 _ _ _ _ hstacked hrest

end

/-- A sequence is evaluated alike at any depth. -/
lemma alike_evalAt (h : Correspondence R p root root') (limit left : Nat) :
    ∀ s ∈ p.sequences, ∀ indent,
      EvaluatesAlike R root root' (evalAt p limit left s indent) := by
  induction left with
  | zero =>
    intro s hs indent
    refine h.alike_evalNodes ?_ indent s.outline (pathsAll_outline hs)
    intro name more contexts contexts' after after' _ _
    exact .ended _
  | succ left ih =>
    intro s hs indent
    refine h.alike_evalNodes ?_ indent s.outline (pathsAll_outline hs)
    intro name more
    cases hfind : p.partials.find? name with
    | none => exact ih s hs more
    | some found => exact ih found (Program.mem_sequences.2 (.inr ⟨name, hfind⟩)) more

/-- **The evaluations by structure are alike.** -/
theorem evaluate (h : Correspondence R p root root') (limit : Nat) :
    (p.evaluate limit root).Alike R (p.evaluate limit root') :=
  h.alike_evalAt limit limit p.main List.mem_cons_self "" _ _ _ _ .roots (.ended none)

end Correspondence

/-! ## Steps -/

/-- The data at hand of scopes that are alike corresponds. -/
lemma Scopes.Alike.contexts {s s' : Scopes} (h : s.Alike R root root' s') :
    Stacked R root root' s.contexts s'.contexts := by
  have hhead : ∀ scope scope' : Scope, scope.Alike R scope' →
      Option.Rel R scope.contexts.head? scope'.contexts.head? := by
    rintro ⟨path, contexts⟩ ⟨path', contexts'⟩ ⟨-, hcontexts⟩
    cases hcontexts with
    | nil => exact .none
    | cons hv _ => exact .some hv
  refine ⟨_, _, ?_, ?_, List.rel_filterMap (fun _ _ halike => hhead _ _ halike) h.inner⟩
  · rw [Scopes.contexts, h.root_left]
  · rw [Scopes.contexts, h.root_right]

/-- A section is closed on either side, or cannot be closed for the same reason. -/
lemma Scopes.Alike.closeSection {s s' : Scopes} (h : s.Alike R root root' s') (path : Path) :
    (∃ fault, s.closeSection path = .error fault ∧ s'.closeSection path = .error fault) ∨
      ∃ again t t', s.closeSection path = .ok (again, t) ∧
        s'.closeSection path = .ok (again, t') ∧ t.Alike R root root' t' := by
  obtain ⟨inner, left⟩ := s
  obtain ⟨inner', right⟩ := s'
  obtain ⟨hinner, hleft, hright⟩ := h
  cases hinner with
  | nil => exact .inl ⟨_, rfl, rfl⟩
  | @cons scope scope' outer outer' hfirst houter =>
    obtain ⟨name, contexts⟩ := scope
    obtain ⟨name', contexts'⟩ := scope'
    obtain ⟨hname, hcontexts⟩ := hfirst
    obtain rfl : name = name' := hname
    by_cases hpath : name = path
    · refine .inr ?_
      simp only [Scopes.closeSection, hpath, if_true]
      cases hcontexts with
      | nil => exact ⟨false, _, _, rfl, rfl, houter, hleft, hright⟩
      | cons _ hmore =>
        cases hmore with
        | nil => exact ⟨false, _, _, rfl, rfl, houter, hleft, hright⟩
        | cons hv hmore =>
          exact ⟨true, _, _, rfl, rfl, .cons ⟨rfl, .cons hv hmore⟩ houter, hleft, hright⟩
    · refine .inl ⟨.notInnermost path name, ?_, ?_⟩
      · exact if_neg hpath
      · exact if_neg hpath

/-- What a step gives on either side: the same fault, or events and machines that are alike. -/
inductive Machine.Advance (R : Value → Value → Prop) (root root' : Value) :
    Except RunFault (Event × Machine) → Except RunFault (Event × Machine) → Prop where
  | failed (fault : RunFault) : Advance R root root' (.error fault) (.error fault)
  | moved {e e' : Event} {m m' : Machine} : e.Alike R e' → m.Alike R root root' m' →
      Advance R root root' (.ok (e, m)) (.ok (e', m'))

namespace Correspondence

variable {limit : Nat} {m m' d d' : Machine}

/-- A section runs on either side, or is skipped on either side. -/
lemma openSection (h : Correspondence R p root root') {s s' : Scopes}
    (hs : s.Alike R root root' s') (inverted : Bool) {path : Path} (hpath : path ∈ p.paths) :
    ∃ runs t t', s.openSection inverted path = (runs, t) ∧
      s'.openSection inverted path = (runs, t') ∧ t.Alike R root root' t' := by
  have hdata := h.contextsOf _ _ (h.lookup _ _ path hs.contexts hpath)
  by_cases hruns : (Stencil.contextsOf (s.get? path)).isEmpty = inverted
  · have hruns' : (Stencil.contextsOf (s'.get? path)).isEmpty = inverted :=
      (isEmpty_eq_of_forall₂ hdata).symm.trans hruns
    refine ⟨true, _, _, if_pos hruns, if_pos hruns', .cons ⟨rfl, ?_⟩ hs.inner, hs.root_left,
      hs.root_right⟩
    cases inverted with
    | true => exact .nil
    | false => exact hdata
  · have hruns' : (Stencil.contextsOf (s'.get? path)).isEmpty ≠ inverted := fun he =>
      hruns ((isEmpty_eq_of_forall₂ hdata).trans he)
    exact ⟨false, s, s', if_neg hruns, if_neg hruns', hs⟩

/-- **Acting upon an instruction of the program** does the same on either side. -/
theorem perform (h : Correspondence R p root root') (hm : m.Alike R root root' m') {i : Instr}
    (hi : ∀ path, i.path? = some path → path ∈ p.paths) :
    Machine.Advance R root root' (m.perform i) (m'.perform i) := by
  obtain ⟨cursor, scopes⟩ := m
  obtain ⟨cursor', scopes'⟩ := m'
  obtain ⟨hcursor, hscopes⟩ := hm
  obtain rfl : cursor = cursor' := hcursor
  cases i with
  | text content => exact .moved (.text _ _) ⟨rfl, hscopes⟩
  | enter name more => exact .failed _
  | interpolate escaped path =>
    have hvalue := h.lookup _ _ path hscopes.contexts (hi path rfl)
    exact .moved (.value _ _ hvalue) ⟨rfl, hscopes⟩
  | openSection inverted path target =>
    obtain ⟨runs, t, t', ht, ht', halike⟩ := h.openSection hscopes inverted (hi path rfl)
    simp only [Machine.perform, ht, ht']
    cases runs with
    | false => exact .moved (.opened _ _ _) ⟨rfl, halike⟩
    | true =>
      cases cursor.enterSection with
      | error fault => exact .failed _
      | ok entered => exact .moved (.opened _ _ _) ⟨rfl, halike⟩
  | closeSection path target =>
    rcases hscopes.closeSection path with ⟨fault, hfault, hfault'⟩ | ⟨again, t, t', ht, ht', halike⟩
    · simp only [Machine.perform, hfault, hfault']
      exact .failed _
    · simp only [Machine.perform, ht, ht']
      cases again with
      | false => exact .moved (.closed _ _) ⟨rfl, halike⟩
      | true =>
        cases cursor.exitSection with
        | error fault => exact .failed _
        | ok left => exact .moved (.closed _ _) ⟨rfl, halike⟩

/-- **A step does the same on either side** of a walk through the program. -/
theorem step (h : Correspondence R p root root') (hm : m.Alike R root root' m')
    (hvisits : Cursor.Visits p limit m.cursor) :
    Machine.Advance R root root' (m.step p) (m'.step p) := by
  unfold Machine.step
  rw [← hm.cursor]
  split
  · exact .failed _
  · rename_i c i hnext
    have halike : Machine.Alike R root root' ⟨c, m.scopes⟩ ⟨c, m'.scopes⟩ := ⟨rfl, hm.scopes⟩
    refine h.perform halike fun path hpath => ?_
    obtain ⟨s, hs, x, hx, rfl⟩ := hvisits.exists_of_next hnext
    refine Program.mem_paths hs hx ?_
    cases x <;> exact hpath

/-! ## Runs -/

/-- A step is a part of a walk. -/
private lemma visits_of_step {e : Event} (hm : Cursor.Visits p limit m.cursor)
    (hstep : m.step p = .ok (e, d)) : Cursor.Visits p limit d.cursor := by
  obtain ⟨c, i, hnext, hperform⟩ := Machine.step_eq_ok hstep
  exact Machine.visits_of_perform (m := ⟨c, m.scopes⟩) (hm.of_next hnext) hperform

/-- Machines in front of the program are alike. -/
lemma start : (Machine.start p limit root).Alike R root root' (.start p limit root') :=
  ⟨rfl, .nil, rfl, rfl⟩

/-- **Machines that two runs reach together are alike.** -/
theorem meets (h : Correspondence R p root root')
    (hmeets : Machine.Meets p (.start p limit root) (.start p limit root') m m') :
    Cursor.Visits p limit m.cursor ∧ m.Alike R root root' m' := by
  induction hmeets with
  | start => exact ⟨.start, start⟩
  | step _ _ hstep _ hstep' ih =>
    obtain ⟨hvisits, hm⟩ := ih
    have hadvance := h.step hm hvisits
    rw [hstep, hstep'] at hadvance
    cases hadvance with
    | moved _ hd => exact ⟨visits_of_step hvisits hstep, hd⟩

/-- **To every machine that a run reaches there is one that the other run reaches** with the same
number of steps. -/
theorem exists_meets (h : Correspondence R p root root')
    (hm : Machine.Reaches p (.start p limit root) m) :
    ∃ m', Machine.Meets p (.start p limit root) (.start p limit root') m m' := by
  induction hm with
  | start => exact ⟨_, .start⟩
  | step _ hnext hstep ih =>
    obtain ⟨m', hmeets⟩ := ih
    obtain ⟨hvisits, halike⟩ := h.meets hmeets
    have hadvance := h.step halike hvisits
    rw [hstep] at hadvance
    generalize hstep' : m'.step p = y at hadvance
    cases hadvance with
    | moved _ _ => exact ⟨_, .step hmeets hnext hstep (halike.cursor ▸ hnext) hstep'⟩

/-- Runs from machines that are alike are alike, if they take steps for as long. -/
lemma alike_run (h : Correspondence R p root root') {pace pace' : Trace}
    (hpace : pace.Alike R pace') (hm : m.Alike R root root' m')
    (hvisits : Cursor.Visits p limit m.cursor) : (m.run p pace).Alike R (m'.run p pace') := by
  induction hpace generalizing m m' with
  | ended fault =>
    have hadvance := h.step hm hvisits
    unfold Machine.run
    rw [← hm.cursor]
    by_cases hnext : m.cursor.hasNext = true
    · rw [if_pos hnext, if_pos hnext]
      generalize m.step p = x, m'.step p = y at hadvance
      cases hadvance with
      | failed fault => exact .ended _
      | moved he _ => exact .event he (.ended _)
    · rw [if_neg hnext, if_neg hnext]
      exact .ended _
  | event _ _ ih =>
    have hadvance := h.step hm hvisits
    unfold Machine.run
    rw [← hm.cursor]
    by_cases hnext : m.cursor.hasNext = true
    · rw [if_pos hnext, if_pos hnext]
      cases hx : m.step p with
      | error fault =>
        rw [hx] at hadvance
        generalize m'.step p = y at hadvance
        cases hadvance with
        | failed fault => exact .ended _
      | ok moved =>
        obtain ⟨e, d⟩ := moved
        rw [hx] at hadvance
        generalize m'.step p = y at hadvance
        cases hadvance with
        | moved he halike => exact .event he (ih halike (visits_of_step hvisits hx))
    · rw [if_neg hnext, if_neg hnext]
      exact .ended _

/-- **The runs are alike.** -/
theorem run (h : Correspondence R p root root') (limit : Nat) :
    (p.run limit root).Alike R (p.run limit root') :=
  h.alike_run (h.evaluate limit) start .start

end Correspondence

end Stencil
