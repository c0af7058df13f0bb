import Mathlib.Data.Finset.Card
import Mathlib.Data.Finset.Dedup
import Mathlib.Tactic.Lemma
import Stencil.Proofs.Code.Validity
import Stencil.Proofs.Engine.Links

/-!
# Templates that compile

Linking goes down a chain of distinct names that are all known to the engine, so it never runs
out of levels. What it needs are the templates that are reached by inclusions, and it finds all
of them. So a template compiles exactly if it is well-formed and whatever it needs is there
and well-formed too.

## Main definitions

* `Engine.Needed` — the templates that are needed to compile a template.

## Main results

* `compileAt_succeeds` — compiling with enough levels succeeds.
* `Engine.exists_program_iff` — the templates that compile.
* `Engine.compile_succeeds_iff` — the templates that compile, if what they refer to compiles.
-/

namespace Stencil

open Stencil.Text Stencil.Markup

/-- A template is needed if it is one of the given ones or a source that is needed refers to it,
unless it is the one that is being compiled. -/
inductive Engine.Needed (e : Engine) (own : Option String) (names : List String) : String → Prop
  | root {n : String} : n ∈ names → own ≠ some n → e.Needed own names n
  | step {m n text : String} : e.Needed own names m → e.sourceOf m = .ok text →
      n ∈ (Scan.ofText text.toList).included → own ≠ some n → e.Needed own names n

/-- What is found in a table is under one of its names. -/
lemma Table.mem_names_of_find? {α : Type _} {t : Table α} {n : String} {v : α}
    (h : t.find? n = some v) : n ∈ t.names :=
  List.mem_map.2 ⟨(n, v), Entries.mem_of_find? h, rfl⟩

/-- A template that has a source is known. -/
lemma Engine.mem_known_of_sourceOf {e : Engine} {n text : String} (h : e.sourceOf n = .ok text) :
    n ∈ e.known := by
  rw [sourceOf] at h
  rw [known, List.mem_append]
  cases hfind : e.templates.find? n with
  | some p => exact .inl (Table.mem_names_of_find? hfind)
  | none =>
    right
    cases hloader : e.loader with
    | none => simp [hfind, hloader] at h
    | some l =>
      simp only [hfind, hloader] at h
      cases hanswer : l.answers.find? n with
      | some answer => simpa using Table.mem_names_of_find? hanswer
      | none =>
        simp [Loader.load, hanswer, TransferFault.isNotFound] at h

/-! ## Linking succeeds -/

section Success

variable {e : Engine} {descend : Descent} {chain : List String} {text : String}

/-- References of which each one is at hand or can be compiled are linked. -/
lemma linkAll_succeeds {references : List Reference}
    (h : ∀ r ∈ references, r.name ∉ chain → ∃ inner, e.sourceOf r.name = .ok inner ∧
      ∀ st, ∃ st' s, descend (r.name :: chain) inner st = (st', .ok s)) (source : String)
    (st : Linkage) : ∃ st', linkAll e descend chain source references st = (st', .ok ()) := by
  induction references generalizing st with
  | nil => exact ⟨st, rfl⟩
  | cons r rest ih =>
    have hrest := ih fun r' hr' => h r' (List.mem_cons_of_mem r hr')
    rw [linkAll]
    split
    · exact hrest st
    · rename_i hnew
      have hchain : r.name ∉ chain := by
        simp only [Bool.or_eq_true, List.contains_eq_mem, decide_eq_true_eq, not_or] at hnew
        exact hnew.2
      obtain ⟨inner, hinner, hdescend⟩ := h r List.mem_cons_self hchain
      obtain ⟨st', s, hs⟩ := hdescend (st.noting e r.name)
      simp only [hinner, hs]
      exact hrest _

/-- A well-formed template of which each reference is at hand or can be compiled compiles. -/
lemma compileWith_succeeds (htext : (Scan.ofText text.toList).IsWellFormed)
    (h : ∀ n ∈ (Scan.ofText text.toList).included, n ∉ chain → ∃ inner,
      e.sourceOf n = .ok inner ∧ ∀ st, ∃ st' s, descend (n :: chain) inner st = (st', .ok s))
    (st : Linkage) : ∃ st' s, compileWith e descend chain text st = (st', .ok s) := by
  obtain ⟨s, hs⟩ := (Draft.exists_sequence_iff _).2 htext
  rw [← Draft.included_eq_included_scan hs, Draft.included_eq hs, List.forall_mem_map] at h
  obtain ⟨st', hlink⟩ := linkAll_succeeds h text st
  exact ⟨st', s, by simp only [compileWith, hlink, hs]⟩

/-- **Compiling with enough levels succeeds** if the template is well-formed and what is needed has
a source that is well-formed. A level for each known name outside of the chain is enough.

**Proof sketch.** Induction on the levels. A template that is needed and not in the chain is
known, so going down to it takes one of the names that are left. -/
theorem compileAt_succeeds {own : Option String} {names : List String}
    (hneeded : ∀ n, e.Needed own names n →
      ∃ inner, e.sourceOf n = .ok inner ∧ (Scan.ofText inner.toList).IsWellFormed)
    {levels : Nat} (hlevels : (e.known.toFinset \ chain.toFinset).card ≤ levels)
    (hown : ∀ n, own = some n → n ∈ chain) (htext : (Scan.ofText text.toList).IsWellFormed)
    (hincluded : ∀ n ∈ (Scan.ofText text.toList).included, n ∈ chain ∨ e.Needed own names n)
    (st : Linkage) : ∃ st' s, compileAt e levels chain text st = (st', .ok s) := by
  -- a template that is not in the chain is needed, and its name is one of those that are left
  have hleft : ∀ {chain : List String} {n inner : String}, n ∉ chain → e.sourceOf n = .ok inner →
      n ∈ e.known.toFinset \ chain.toFinset := by
    intro chain n inner hn hinner
    simpa using ⟨Engine.mem_known_of_sourceOf hinner, hn⟩
  induction levels generalizing chain text st with
  | zero =>
    refine compileWith_succeeds htext (fun n hn hchain => ?_) st
    obtain ⟨inner, hinner, -⟩ := hneeded n ((hincluded n hn).resolve_left hchain)
    have hnone := Finset.card_eq_zero.1 (Nat.le_zero.1 hlevels)
    simpa [hnone] using hleft hchain hinner
  | succ levels ih =>
    refine compileWith_succeeds htext (fun n hn hchain => ?_) st
    have hn' := (hincluded n hn).resolve_left hchain
    obtain ⟨inner, hinner, hwell⟩ := hneeded n hn'
    refine ⟨inner, hinner, ih ?_ ?_ hwell ?_⟩
    · have hlt := Finset.card_erase_lt_of_mem (hleft hchain hinner)
      rw [List.toFinset_cons, Finset.sdiff_insert]
      omega
    · exact fun m hm => List.mem_cons_of_mem n (hown m hm)
    · intro m hm
      by_cases hm' : own = some m
      · exact .inl (List.mem_cons_of_mem n (hown m hm'))
      · exact .inr (.step hn' hinner hm hm')

end Success

namespace Engine

variable {e : Engine} {name : Option String} {source : String}

/-- What is needed by a template that compiles is linked: it has a source, and the sequence of this
source is there in the end. -/
lemma exists_find?_of_needed {compiled : Table Sequence} {names : List String} {n : String}
    (hlinked : Linked e name.toList .empty compiled names) (h : e.Needed name names n) :
    ∃ text s, e.sourceOf n = .ok text ∧ (Draft.ofText text.toList).outcome = .ok s ∧
      compiled.find? n = some s := by
  have horigin : ∀ m, compiled.contains m = true → ∃ text s, e.sourceOf m = .ok text ∧
      (Draft.ofText text.toList).outcome = .ok s ∧ compiled.find? m = some s := by
    intro m hm
    obtain ⟨s, hs⟩ := Table.contains_iff.1 hm
    obtain ⟨text, htext, hdraft⟩ := (hlinked.origin m s hs).resolve_left (by simp)
    exact ⟨text, s, htext, hdraft, hs⟩
  refine horigin n ?_
  induction h with
  | root hmem hown => exact (hlinked.covers _ hmem).resolve_right (by simpa using hown)
  | @step m n text _ htext hmem hown ih =>
    obtain ⟨text', s, htext', hdraft, hs⟩ := horigin m ih
    obtain rfl : text' = text := Except.ok.inj (htext'.symm.trans htext)
    rw [← Draft.included_eq_included_scan hdraft] at hmem
    have hclosed := (hlinked.closed m s hs).resolve_left (by simp) n hmem
    exact hclosed.resolve_right (by simpa using hown)

/-- **The templates that compile** are those that are well-formed and need only templates that
have a source that is well-formed.

**Proof sketch.** What is needed is linked if compiling succeeds. Conversely, there are as many
levels as known names, and this is enough. -/
theorem exists_program_iff (e : Engine) (name : Option String) (source : String) :
    (∃ p, (e.compile name source).outcome = .ok p) ↔
      (Scan.ofText source.toList).IsWellFormed ∧
        ∀ n, e.Needed name (Scan.ofText source.toList).included n →
          ∃ text, e.sourceOf n = .ok text ∧ (Scan.ofText text.toList).IsWellFormed := by
  constructor
  · rintro ⟨p, hp⟩
    obtain ⟨main, compiled, hmain, hlinked, -⟩ := compile_eq_ok hp
    rw [Draft.included_eq_included_scan hmain] at hlinked
    refine ⟨(Draft.exists_sequence_iff _).1 ⟨main, hmain⟩, fun n hn => ?_⟩
    obtain ⟨text, s, htext, hdraft, -⟩ := exists_find?_of_needed hlinked hn
    exact ⟨text, htext, (Draft.exists_sequence_iff _).1 ⟨s, hdraft⟩⟩
  · rintro ⟨hwell, hneeded⟩
    have hlevels : (e.known.toFinset \ name.toList.toFinset).card ≤ e.known.length :=
      (Finset.card_le_card Finset.sdiff_subset).trans (List.toFinset_card_le _)
    obtain ⟨st, s, hs⟩ := compileAt_succeeds hneeded hlevels (by simp) hwell
      (fun n hn => by
        by_cases hown : name = some n
        · exact .inl (by simp [hown])
        · exact .inr (.root hn hown)) {}
    exact ⟨_, by rw [compile, hs]⟩

/-- What is needed is referred to, or needed by what is referred to. -/
lemma Needed.exists_root {names : List String} {n : String} (h : e.Needed name names n) :
    ∃ m ∈ names, name ≠ some m ∧ (n = m ∨ ∀ text, e.sourceOf m = .ok text →
      e.Needed name (Scan.ofText text.toList).included n) := by
  induction h with
  | @root n hn hown => exact ⟨n, hn, hown, .inl rfl⟩
  | @step m n text _ htext hn hown ih =>
    obtain ⟨k, hk, hkown, rfl | hneeded⟩ := ih
    · refine ⟨m, hk, hkown, .inr fun text' htext' => ?_⟩
      obtain rfl : text' = text := Except.ok.inj (htext'.symm.trans htext)
      exact .root hn hown
    · exact ⟨k, hk, hkown, .inr fun text' htext' => .step (hneeded text' htext') htext hn hown⟩

/-- **The templates that compile, if what they refer to compiles**, are those that are well-formed:
all the checks that are made while a template is read, line by line, and while its instructions
are put together add up to this one condition on the scan of the template. A template that is
compiled under a name may refer to this name, and so may what it refers to.

**Proof sketch.** What is needed is referred to by the template itself or needed by what it refers
to, and this compiles. -/
theorem compile_succeeds_iff
    (h : ∀ n ∈ (Scan.ofText source.toList).included, name = some n ∨
      ∃ text p, e.sourceOf n = .ok text ∧ (e.compile name text).outcome = .ok p) :
    (∃ p, (e.compile name source).outcome = .ok p) ↔
      (Scan.ofText source.toList).IsWellFormed := by
  rw [exists_program_iff, and_iff_left_iff_imp]
  intro _ n hn
  obtain ⟨m, hm, hown, hcases⟩ := hn.exists_root
  obtain ⟨text, p, htext, hp⟩ := (h m hm).resolve_left hown
  obtain ⟨hwell, hneeded⟩ := (e.exists_program_iff name text).1 ⟨p, hp⟩
  rcases hcases with rfl | hneeded'
  · exact ⟨text, htext, hwell⟩
  · exact hneeded n (hneeded' text htext)

end Engine

/-- Two templates that refer to the same one. In the first one, the delimiters change in front of
a section with a comment that joins lines. In the second one, they change inside of the section. -/
theorem compile_succeeds_iff_on_directives :
    ∃ (e : Engine) (good bad : String),
      (Scan.ofText good.toList).included = ["p"] ∧ (Scan.ofText bad.toList).included = ["p"] ∧
      (Scan.ofText good.toList).IsWellFormed ∧ (∃ p, (e.compile none good).outcome = .ok p) ∧
      ¬(Scan.ofText bad.toList).IsWellFormed ∧ ¬∃ p, (e.compile none bad).outcome = .ok p := by
  let e : Engine := { loader := some ⟨.ofList [("p", .ok "\x7b\x7bx\x7d\x7d")]⟩ }
  let good := "\x7b\x7b=<% %>=\x7d\x7d<%#a%>\n<% ! b\n%><%>p%>\n<%/a%>"
  let bad := "\x7b\x7b#a\x7d\x7d\x7b\x7b=<% %>=\x7d\x7d\n<%! b\n%><%>p%>\n<%/a%>"
  have hgood : (Scan.ofText good.toList).included = ["p"] := by decide +kernel
  have hbad : (Scan.ofText bad.toList).included = ["p"] := by decide +kernel
  -- the template that both refer to is there and compiles
  have hpartial : (e.compile none "\x7b\x7bx\x7d\x7d").outcome.toOption.map Program.source =
      some "\x7b\x7bx\x7d\x7d" := by decide +kernel
  obtain ⟨inner, hinner, -⟩ := exists_of_toOption_map_eq_some hpartial
  have hrefers : ∀ n ∈ ["p"], (none : Option String) = some n ∨
      ∃ text p, e.sourceOf n = .ok text ∧ (e.compile none text).outcome = .ok p := by
    rintro n hn
    obtain rfl := List.mem_singleton.1 hn
    exact .inr ⟨_, inner, by decide +kernel, hinner⟩
  have hcompiles : ∃ p, (e.compile none good).outcome = .ok p := by
    have hrun : (e.compile none good).outcome.toOption.map Program.source = some good := by
      decide +kernel
    obtain ⟨p, hp, -⟩ := exists_of_toOption_map_eq_some hrun
    exact ⟨p, hp⟩
  have hfails : ¬∃ p, (e.compile none bad).outcome = .ok p := by
    rintro ⟨p, hp⟩
    have hrun : (e.compile none bad).outcome.toOption.isNone = true := by decide +kernel
    rw [hp] at hrun
    cases hrun
  refine ⟨e, good, bad, hgood, hbad, ?_, hcompiles, ?_, hfails⟩
  · exact (Engine.compile_succeeds_iff (hgood ▸ hrefers)).1 hcompiles
  · exact fun hwell => hfails ((Engine.compile_succeeds_iff (hbad ▸ hrefers)).2 hwell)

end Stencil
