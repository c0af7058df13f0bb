import Mathlib.Tactic.Lemma
import Stencil.Engine.Session
import Stencil.Proofs.Engine.Links

/-!
# Where the sequences of a program come from

The sequence that a program has under a name is that of the source of this name alone. All
templates that are needed share the sequences compiled so far and the list of those that are
being compiled, but nothing of this, and nothing of the place of the reference, goes into a
sequence: a template counts as if it had been compiled by itself.

## Main definitions

* `Engine.Gives` — the programs that compiling or adding a template gives.
* `Engine.Provides` — the source of a name while a template is compiled.

## Main results

* `Engine.gives_iff` — adding a template gives what compiling it under its name gives.
* `Engine.Provides.unique` — a name has one source.
* `compileAt_of_known` — compiling a template whose references are known.
* `Engine.Gives.partial_alone` — a partial is the sequence of its source alone.
-/

namespace Stencil

/-! ## Programs and sources -/

/-- The programs that an engine gives for a template: the one that is compiled without a name,
or the one that is found under the name under which the template was added. -/
inductive Engine.Gives (e : Engine) : Option String → String → Program → Prop
  | compiled {source : String} {p : Program} : (e.compile none source).outcome = .ok p →
      e.Gives none source p
  | added {own source : String} {e' : Engine} {p : Program} :
      (e.add own source).2 = .ok e' → e'.get? own = some p → e.Gives (some own) source p

/-- The source that a name has while a template is compiled: its own source if the name is that
of the template, otherwise the source that is registered under the name, otherwise what the
loader gives. -/
inductive Engine.Provides (e : Engine) (own : Option String) (source : String) :
    String → String → Prop
  | own {n : String} : own = some n → e.Provides own source n source
  | registered {n : String} {p : Program} : own ≠ some n → e.get? n = some p →
      e.Provides own source n p.source
  | loaded {n text : String} {l : Loader} : own ≠ some n → e.get? n = none →
      e.loader = some l → l.load n = .ok text → e.Provides own source n text

namespace Engine

variable {e : Engine} {own : Option String} {n source text : String} {p : Program}

/-- Adding a template gives what compiling it under its name gives. -/
theorem gives_iff : e.Gives own source p ↔ (e.compile own source).outcome = .ok p := by
  constructor
  · rintro (h | @⟨own, _, e', _, hadd, hget⟩)
    · exact h
    · rw [add] at hadd
      cases hcompile : (e.compile (some own) source).outcome with
      | error fault => simp [hcompile, Except.map] at hadd
      | ok q =>
        obtain rfl : { e with templates := e.templates.insert own q } = e' := by
          simpa [hcompile, Except.map] using hadd
        obtain rfl : q = p := by simpa [get?] using hget
        rfl
  · intro h
    cases own with
    | none => exact .compiled h
    | some own =>
      have hadd : (e.add own source).2 = .ok { e with templates := e.templates.insert own p } := by
        rw [add, h]
        rfl
      exact .added hadd (by simp [get?])

/-- The source of a name that is not that of the template. -/
lemma provides_of_sourceOf (hown : own ≠ some n) (h : e.sourceOf n = .ok text) :
    e.Provides own source n text := by
  rw [sourceOf] at h
  cases hfind : e.templates.find? n with
  | some q =>
    obtain rfl : q.source = text := by simpa [hfind] using h
    exact .registered hown hfind
  | none =>
    cases hloader : e.loader with
    | none => simp [hfind, hloader] at h
    | some l =>
      cases hload : l.load n with
      | ok found =>
        obtain rfl : found = text := by simpa [hfind, hloader, hload] using h
        exact .loaded hown hfind hloader hload
      | error fault =>
        simp only [hfind, hloader, hload] at h
        split at h <;> cases h

/-- **A name has one source.** -/
theorem Provides.unique {text' : String} (h : e.Provides own source n text)
    (h' : e.Provides own source n text') : text = text' := by
  cases h with
  | own hown =>
    cases h' with
    | own _ => rfl
    | registered hown' _ => exact absurd hown hown'
    | loaded hown' _ _ _ => exact absurd hown hown'
  | registered hown hget =>
    cases h' with
    | own hown' => exact absurd hown' hown
    | registered _ hget' => rw [Option.some.inj (hget.symm.trans hget')]
    | loaded _ hget' _ _ => simp [hget] at hget'
  | loaded hown hget hloader hload =>
    cases h' with
    | own hown' => exact absurd hown' hown
    | registered _ hget' => simp [hget] at hget'
    | loaded _ _ hloader' hload' =>
      obtain rfl := Option.some.inj (hloader.symm.trans hloader')
      exact Except.ok.inj (hload.symm.trans hload')

end Engine

/-! ## Compiling alone -/

section Known

variable {e : Engine} {chain : List String} {st : Linkage}

/-- References that are known need nothing. -/
lemma linkAll_of_known (descend : Descent) (source : String) {references : List Reference}
    (h : ∀ r ∈ references, st.compiled.contains r.name = true ∨ r.name ∈ chain) :
    linkAll e descend chain source references st = (st, .ok ()) := by
  induction references with
  | nil => rfl
  | cons r rest ih =>
    have hknown : (st.compiled.contains r.name || chain.contains r.name) = true := by
      simpa using h r List.mem_cons_self
    rw [linkAll, if_pos hknown]
    exact ih fun r' hr' => h r' (List.mem_cons_of_mem r hr')

/-- **Compiling a template whose references are known** changes nothing and yields the sequence
of its source, whatever the engine is. -/
theorem compileAt_of_known (e : Engine) (levels : Nat) {text : String} {s : Sequence}
    (hdraft : (Draft.ofText text.toList).outcome = .ok s)
    (h : ∀ r ∈ (Draft.ofText text.toList).references,
      st.compiled.contains r.name = true ∨ r.name ∈ chain) :
    compileAt e levels chain text st = (st, .ok s) := by
  cases levels with
  | zero => rw [compileAt, compileWith, linkAll_of_known _ _ h, hdraft]
  | succ levels => rw [compileAt, compileWith, linkAll_of_known _ _ h, hdraft]

end Known

/-! ## Partials -/

namespace Engine

variable {e : Engine} {name : Option String} {n source : String} {p : Program} {s : Sequence}

/-- The entry of a program under a name is the sequence of the source of this name. -/
lemma Gives.exists_provides (h : e.Gives name source p) (hn : p.partials.find? n = some s) :
    ∃ text, e.Provides name source n text ∧ (Draft.ofText text.toList).outcome = .ok s := by
  obtain ⟨main, compiled, hmain, hlinked, rfl⟩ := compile_eq_ok (gives_iff.1 h)
  -- what was linked is not the template itself, which is only added at the end
  have hcompiled : ∀ s, compiled.find? n = some s →
      ∃ text, e.Provides name source n text ∧ (Draft.ofText text.toList).outcome = .ok s := by
    intro s hs
    obtain ⟨text, htext, hdraft⟩ := (hlinked.origin n s hs).resolve_left (by simp)
    refine ⟨text, provides_of_sourceOf ?_ htext, hdraft⟩
    rintro rfl
    simpa [Table.contains] using hlinked.avoids n (by simp) (Table.contains_iff.2 ⟨s, hs⟩)
  cases name with
  | none => exact hcompiled s hn
  | some own =>
    simp only [Program.closing] at hn
    split at hn
    · rw [Table.find?_insert] at hn
      split at hn
      · rename_i hown
        obtain rfl := Option.some.inj hn
        exact ⟨source, .own (congrArg some hown), hmain⟩
      · exact hcompiled s hn
    · exact hcompiled s hn

/-- **A partial is the sequence of its source alone.** Whatever program an engine gives for a
template, what the program has under a name is the sequence of the source of this name: of the
new source if the name is that of the template, even if an older template is registered under
it. Compiling this source gives the same sequence wherever its references are known: with any
engine, whatever was compiled before and whatever is being compiled further out. So the same
source gives the same sequence in all programs, whichever template includes it.

**Proof sketch.** Linking keeps for each new sequence that it is the one of its source, and the
name of the template itself is not linked. A reference that is known needs nothing, so only the
source is left to decide what is compiled. -/
theorem Gives.partial_alone (h : e.Gives name source p) (hn : p.partials.find? n = some s) :
    ∃ text, e.Provides name source n text ∧ (Draft.ofText text.toList).outcome = .ok s ∧
      (∀ (e' : Engine) (levels : Nat) (chain : List String) (st : Linkage),
        (∀ r ∈ (Draft.ofText text.toList).references,
          st.compiled.contains r.name = true ∨ r.name ∈ chain) →
        compileAt e' levels chain text st = (st, .ok s)) ∧
      ∀ e' name' source' p' n' s', Gives e' name' source' p' →
        p'.partials.find? n' = some s' → e'.Provides name' source' n' text → s' = s := by
  obtain ⟨text, htext, hdraft⟩ := h.exists_provides hn
  refine ⟨text, htext, hdraft, fun e' levels chain st => compileAt_of_known e' levels hdraft, ?_⟩
  intro e' name' source' p' n' s' h' hn' htext'
  obtain ⟨text', hprovides, hdraft'⟩ := h'.exists_provides hn'
  obtain rfl := hprovides.unique htext'
  exact Except.ok.inj (hdraft'.symm.trans hdraft)

end Engine

/-- A template is replaced by one that refers, with other delimiters and from an indented line,
to a template that includes the one that is replaced. -/
theorem partial_alone_on_replaced :
    ∃ (e e' : Engine) (source : String) (p : Program) (s : Sequence),
      (e.get? "t").map Program.source = some "old" ∧
      (e.add "t" source).2 = .ok e' ∧ e'.get? "t" = some p ∧
      p.partials.find? "t" = some s ∧ s.instrs = #[.enter "a" "  "] ∧
      (Draft.ofText source.toList).outcome = .ok s ∧
      ∀ (e' : Engine) (levels : Nat), compileAt e' levels ["a"] source {} = ({}, .ok s) := by
  let old : Program := ⟨"old", ⟨#[.text "old"], by decide⟩, .empty⟩
  let e : Engine :=
    { templates := .ofList [("t", old)]
      loader := some ⟨.ofList [("a", .ok "\x7b\x7b>t\x7d\x7d\x7b\x7bx\x7d\x7d")]⟩ }
  let source := "\x7b\x7b=<% %>=\x7d\x7d\n  <%>a%>\n"
  have hrun : (e.compile (some "t") source).outcome.toOption.map
      (fun p => (p.partials.find? "t").map Sequence.instrs) =
        some (some #[.enter "a" "  "]) := by decide +kernel
  obtain ⟨p, hp, hfound⟩ := exists_of_toOption_map_eq_some hrun
  obtain ⟨s, hs, hinstrs⟩ := Option.map_eq_some_iff.1 hfound
  have hgives : e.Gives (some "t") source p := Engine.gives_iff.2 hp
  obtain ⟨text, htext, hdraft, halone, -⟩ := hgives.partial_alone hs
  obtain rfl : text = source := htext.unique (.own rfl)
  have hnames : (Draft.ofText source.toList).references.map Reference.name = ["a"] := by
    decide +kernel
  cases hgives with
  | added hadd hget =>
    refine ⟨e, _, source, p, s, by decide +kernel, hadd, hget, hs, hinstrs, hdraft, ?_⟩
    intro e' levels
    refine halone e' levels ["a"] {} fun r hr => .inr ?_
    rw [← hnames]
    exact List.mem_map_of_mem hr

end Stencil
