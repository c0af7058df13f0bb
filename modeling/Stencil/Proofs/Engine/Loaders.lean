import Mathlib.Tactic.Lemma
import Stencil.Proofs.Data.Tables
import Stencil.Proofs.Engine.Requests

/-!
# Loaders that are functions

An engine holds a loader that answers for finitely many names. A loader may as well be any function
from names to sources. Compiling that ends has asked for finitely many names, and it depends on the
loader through the answers for these names only. So what it ends with is what an engine compiles
whose loader knows these answers and no others.

## Main definitions

* `Shelf.fetching` — the sources that some templates and any function provide.
* `Shelf.AgreesOn` — two shelves with the same answers for what was asked for.
* `Loader.restricted` — a function as the loader for some names.

## Main results

* `Moment.endsIn_of_agreesOn` — compiling depends on the answers for what was asked for.
* `Shelf.fetching_ends` — a loader for finitely many names is as good as a function.
-/

namespace Stencil

/-- The sources that templates and a function provide. The function is asked for the names under
which there is no template. -/
def Shelf.fetching (templates : Table Program)
    (load : String → Except TransferFault String) : Shelf where
  sourceOf name :=
    match templates.find? name with
    | some program => .ok program.source
    | none =>
      match load name with
      | .ok source => .ok source
      | .error fault =>
        if fault.isNotFound then .error (.unknownPartial name)
        else .error (.unreadablePartial name fault)
  asksFor name := !templates.contains name

/-- The loader that gives for some names what a function gives for them. -/
def Loader.restricted (load : String → Except TransferFault String) (names : List String) :
    Loader :=
  ⟨.ofList (names.map fun n => (n, load n))⟩

/-- An engine with a loader provides what its templates and the loader do. -/
lemma Engine.shelf_eq_fetching {e : Engine} {l : Loader} (h : e.loader = some l) :
    e.shelf = .fetching e.templates l.load := by
  simp only [shelf, Shelf.fetching, Shelf.mk.injEq]
  constructor
  · funext name
    rw [sourceOf, h]
    cases e.templates.find? name <;> rfl
  · funext name
    rw [asksFor, h]
    rfl

/-- For the names that it was made for, the loader gives what the function gives. -/
lemma Loader.load_restricted (load : String → Except TransferFault String) {names : List String}
    {n : String} (h : n ∈ names) : (restricted load names).load n = load n := by
  rw [Loader.load, restricted, Table.find?_ofList_map load h]
  rfl

/-- Two shelves ask a loader for the same names, and they have the same sources but for names for
which a loader is asked and that are not among the given ones. -/
structure Shelf.AgreesOn (shelf shelf' : Shelf) (asked : List String) : Prop where
  asksFor : ∀ n, shelf'.asksFor n = shelf.asksFor n
  sourceOf : ∀ n, (shelf.asksFor n = true → n ∈ asked) → shelf'.sourceOf n = shelf.sourceOf n

/-- Functions with the same answers for some names agree on them. -/
lemma Shelf.fetching_agreesOn (templates : Table Program)
    {load load' : String → Except TransferFault String} {asked : List String}
    (h : ∀ n ∈ asked, load' n = load n) :
    (fetching templates load).AgreesOn (fetching templates load') asked where
  asksFor _ := rfl
  sourceOf n hn := by
    simp only [fetching]
    cases hfind : templates.find? n with
    | some program => rfl
    | none =>
      have hasked : n ∈ asked := hn (by simp [fetching, Table.contains, hfind])
      simp only [h n hasked]

namespace Moment

variable {shelf shelf' : Shelf} {own : Option String} {m m' : Moment} {asked : List String}
  {answer : Linkage × Except Fault Sequence} {k : Nat}

/-- Looking for a source is noted in the same way. -/
lemma note_of_agreesOn (h : shelf.AgreesOn shelf' asked) (st : Linkage) (n : String) :
    shelf'.note st n = shelf.note st n := by
  rw [Shelf.note, Shelf.note, h.asksFor]

/-- What was asked for stays asked for. -/
lemma Goes.asked_subset (h : Goes shelf own m m') : m.linkage.asked ⊆ m'.linkage.asked := by
  cases h with
  | skip => exact List.Subset.refl _
  | enter => exact fun n hn => mem_asked_note.2 (.inl hn)
  | leave => exact List.Subset.refl _

/-- What was asked for stays asked for when compiling stops. -/
lemma Stops.asked_subset (h : Stops shelf own m answer) : m.linkage.asked ⊆ answer.1.asked := by
  cases h with
  | missing => exact fun n hn => mem_asked_note.2 (.inl hn)
  | malformed => exact List.Subset.refl _
  | done => exact List.Subset.refl _

/-- What was asked for stays asked for to the end. -/
lemma asked_subset_of_endsIn (h : EndsIn (step shelf own) m k answer) :
    m.linkage.asked ⊆ answer.1.asked := by
  induction h with
  | last hlast => exact (step_eq_inl.1 hlast).asked_subset
  | more hmore _ ih => exact List.Subset.trans (step_eq_inr.1 hmore).asked_subset ih

/-- A name whose source is looked for is asked for if a loader is asked for it. -/
lemma sourceOf_of_agreesOn {st : Linkage} {n : String} (h : shelf.AgreesOn shelf' asked)
    (hasked : (shelf.note st n).asked ⊆ asked) : shelf'.sourceOf n = shelf.sourceOf n :=
  h.sourceOf n fun hasks => hasked (mem_asked_note.2 (.inr ⟨rfl, hasks⟩))

/-- A step that goes on depends on the answers for what was asked for behind it. -/
lemma Goes.of_agreesOn (hgoes : Goes shelf own m m') (h : shelf.AgreesOn shelf' asked)
    (hasked : m'.linkage.asked ⊆ asked) : Goes shelf' own m m' := by
  cases hgoes with
  | skip hknown => exact .skip hknown
  | enter hnew htext =>
    rw [← note_of_agreesOn h]
    exact .enter hnew ((sourceOf_of_agreesOn h hasked).trans htext)
  | leave hdraft => exact .leave hdraft

/-- A step that stops depends on the answers for what was asked for in the end. -/
lemma Stops.of_agreesOn (hstops : Stops shelf own m answer) (h : shelf.AgreesOn shelf' asked)
    (hasked : answer.1.asked ⊆ asked) : Stops shelf' own m answer := by
  cases hstops with
  | missing hnew hcause =>
    rw [← note_of_agreesOn h]
    exact .missing hnew ((sourceOf_of_agreesOn h hasked).trans hcause)
  | malformed hdraft => exact .malformed hdraft
  | done hdraft => exact .done hdraft

/-- **Compiling depends on the answers for what was asked for.** Where these are the same, it ends
in the same iteration with the same answer. -/
theorem endsIn_of_agreesOn (hends : EndsIn (step shelf own) m k answer)
    (h : shelf.AgreesOn shelf' answer.1.asked) : EndsIn (step shelf' own) m k answer := by
  induction hends with
  | last hlast =>
    exact .last (step_eq_inl.2 ((step_eq_inl.1 hlast).of_agreesOn h (List.Subset.refl _)))
  | more hmore hrest ih =>
    -- what is asked for now is among what was asked for in the end
    have hgoes := (step_eq_inr.1 hmore).of_agreesOn h (asked_subset_of_endsIn hrest)
    exact .more (step_eq_inr.2 hgoes) (ih h)

end Moment

/-- **A loader for finitely many names is as good as a function.** If compiling with a function as
the loader ends, it ends in the same way with the loader that gives what the function gives for the
names that were asked for, and nothing else. What it ends with is what each engine with the same
templates and this loader compiles.

**Proof sketch.** What is asked for at a moment is asked for in the end, so both loaders give the
same for each name that is looked for on the way. -/
theorem Shelf.fetching_ends {templates : Table Program}
    {load : String → Except TransferFault String} {own : Option String} {source : String} {k : Nat}
    {st : Linkage} {outcome : Except Fault Sequence}
    (hends : EndsIn (Moment.step (fetching templates load) own) (.start source) k (st, outcome))
    {e : Engine} (htemplates : e.templates = templates)
    (hloader : e.loader = some (.restricted load st.asked)) :
    EndsIn (Moment.step e.shelf own) (.start source) k (st, outcome) ∧
      e.compile own source =
        ⟨st.asked, outcome.map fun main => Program.closing own ⟨source, main, st.compiled⟩⟩ := by
  have hagrees : (fetching templates load).AgreesOn e.shelf st.asked := by
    rw [Engine.shelf_eq_fetching hloader, htemplates]
    exact fetching_agreesOn templates fun n hn => Loader.load_restricted load hn
  have hends' := Moment.endsIn_of_agreesOn hends hagrees
  obtain ⟨k', st', outcome', hcompiled, hcompile⟩ := e.compile_endsIn own source
  obtain ⟨-, hanswer⟩ := hends'.unique hcompiled
  cases hanswer
  exact ⟨hends', hcompile⟩

end Stencil
