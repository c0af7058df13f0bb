import Mathlib.Tactic.Lemma
import Stencil.Engine.Session
import Stencil.Proofs.Engine.Nesting

/-!
# What the loader is asked for

The loader is asked for a source when a template is put on the stack whose name was not come to
before. So it is asked for each name once, and never for that of the template itself. When
compiling succeeds, what it was asked for are the included templates that the engine does not
hold, in the order in which a depth-first walk through the sources comes to them.

## Main definitions

* `Linkage.AskedOnce` — what the loader was asked for at a moment.
* `Engine.Walk` — a depth-first walk through the sources.

## Main results

* `Moment.AskedOnce.of_passes` — the loader is asked for each name once.
* `Engine.Walk.unique` — there is one depth-first walk.
* `compileAt_walks` — compiling is a depth-first walk.
* `Engine.compile_asks` — what the loader is asked for.
-/

namespace Stencil

open Stencil.Markup

/-! ## Each name once -/

/-- The loader was asked for distinct names, each of which is one for which it is asked and not
that of the template itself. -/
structure Linkage.AskedOnce (shelf : Shelf) (own : Option String) (st : Linkage) : Prop where
  nodup : st.asked.Nodup
  asks : ∀ n ∈ st.asked, shelf.asksFor n = true
  foreign : ∀ n ∈ st.asked, own ≠ some n

namespace Moment

variable {shelf : Shelf} {own : Option String} {m m' : Moment} {st : Linkage} {r : Reference}
  {outer : List Waiting} {source : String} {outcome : Except Fault Sequence}

/-- At a moment, the loader was asked for each name once, and what it was asked for is compiled
or being compiled. -/
structure AskedOnce (shelf : Shelf) (own : Option String) (m : Moment) : Prop where
  once : m.linkage.AskedOnce shelf own
  known : ∀ n ∈ m.linkage.asked,
    m.linkage.compiled.contains n = true ∨ n ∈ chainOf own m.outer

/-- What the loader is asked for is what it was asked for, and the name if it is asked for it. -/
lemma mem_asked_note {n k : String} :
    k ∈ (shelf.note st n).asked ↔ k ∈ st.asked ∨ (k = n ∧ shelf.asksFor n = true) := by
  unfold Shelf.note
  split
  · rename_i hasks
    simp [hasks]
  · rename_i hasks
    simp [hasks]

/-- The loader is asked for a name that it was not asked for if the name is not known. -/
lemma AskedOnce.note (h : AskedOnce shelf own ⟨⟨source, r :: rest⟩, outer, st⟩)
    (hnew : ¬(st.compiled.contains r.name = true ∨ r.name ∈ chainOf own outer)) :
    (shelf.note st r.name).AskedOnce shelf own where
  nodup := by
    unfold Shelf.note
    split
    · refine List.nodup_append.2 ⟨h.once.nodup, List.nodup_singleton _, ?_⟩
      rintro n hn _ hm rfl
      obtain rfl := List.mem_singleton.1 hm
      exact hnew (h.known _ hn)
    · exact h.once.nodup
  asks n hn := by
    rcases mem_asked_note.1 hn with hn | ⟨rfl, hasks⟩
    · exact h.once.asks n hn
    · exact hasks
  foreign n hn := by
    rcases mem_asked_note.1 hn with hn | ⟨rfl, -⟩
    · exact h.once.foreign n hn
    · rintro rfl
      exact hnew (.inr (by simp [chainOf]))

/-- A step asks for no name again. -/
lemma AskedOnce.goes (h : AskedOnce shelf own m) (hgoes : Goes shelf own m m') :
    AskedOnce shelf own m' := by
  cases hgoes with
  | skip => exact ⟨h.once, h.known⟩
  | enter hnew =>
    refine ⟨h.note hnew, fun n hn => ?_⟩
    rw [Shelf.compiled_note]
    rcases mem_asked_note.1 hn with hn | ⟨rfl, -⟩
    · exact (h.known n hn).imp id (List.mem_cons_of_mem _)
    · exact .inr List.mem_cons_self
  | leave =>
    refine ⟨⟨h.once.nodup, h.once.asks, h.once.foreign⟩, fun n hn => ?_⟩
    exact contains_insert_or_mem.2 (h.known n hn)

/-- **At each moment, the loader was asked for each name once.** -/
theorem AskedOnce.of_passes (h : Passes (step shelf own) (start source) m) :
    AskedOnce shelf own m := by
  refine h.invariant (P := AskedOnce shelf own) ?_ ⟨⟨?_, ?_, ?_⟩, ?_⟩
  · intro m m' hstep hasked
    exact hasked.goes (step_eq_inr.1 hstep)
  · exact List.nodup_nil
  all_goals simp [start]

/-- When compiling stops, the loader was asked for each name once. -/
lemma Stops.askedOnce (hstops : Stops shelf own m (st, outcome)) (h : AskedOnce shelf own m) :
    st.AskedOnce shelf own := by
  cases hstops with
  | missing hnew => exact h.note hnew
  | malformed => exact h.once
  | done => exact h.once

end Moment

/-! ## Depth-first walks -/

/-- A depth-first walk through the sources, in the order of the references: from the names that
were come to, over a list of references, to the names that were come to in the end. A name that
is come to for the first time is followed by what its source refers to. -/
inductive Engine.Walk (e : Engine) : List String → List String → List String → Prop
  /-- No references are left. -/
  | done {seen : List String} : e.Walk seen [] seen
  /-- The name was come to before. -/
  | again {seen rest seen' : List String} {n : String} (hn : n ∈ seen)
      (hrest : e.Walk seen rest seen') : e.Walk seen (n :: rest) seen'
  /-- The name is come to for the first time. -/
  | first {seen rest inner seen' : List String} {n text : String} (hn : n ∉ seen)
      (htext : e.sourceOf n = .ok text)
      (hinner : e.Walk (seen ++ [n]) (Scan.ofText text.toList).included inner)
      (hrest : e.Walk inner rest seen') : e.Walk seen (n :: rest) seen'

namespace Engine.Walk

variable {e : Engine} {seen names seen' seen'' : List String}

/-- **There is one depth-first walk.** -/
theorem unique (h : e.Walk seen names seen') (h' : e.Walk seen names seen'') : seen' = seen'' := by
  induction h generalizing seen'' with
  | done =>
    cases h'
    rfl
  | again hn _ ih =>
    cases h' with
    | again _ hrest' => exact ih hrest'
    | first hn' => exact absurd hn hn'
  | first hn htext _ _ ihinner ihrest =>
    cases h' with
    | again hn' => exact absurd hn' hn
    | first _ htext' hinner' hrest' =>
      obtain rfl := Except.ok.inj (htext.symm.trans htext')
      obtain rfl := ihinner hinner'
      exact ihrest hrest'

/-- A walk comes to no name twice. -/
lemma nodup (h : e.Walk seen names seen') (hseen : seen.Nodup) : seen'.Nodup := by
  induction h with
  | done => exact hseen
  | again _ _ ih => exact ih hseen
  | first hn _ _ _ ihinner ihrest =>
    refine ihrest (ihinner ?_)
    rw [List.nodup_append]
    refine ⟨hseen, List.nodup_singleton _, ?_⟩
    rintro m hm _ hm' rfl
    exact hn (List.mem_singleton.1 hm' ▸ hm)

/-- Each name that a walk comes to has a source. -/
lemma exists_source (h : e.Walk seen names seen') :
    ∀ n ∈ seen', n ∈ seen ∨ ∃ text, e.sourceOf n = .ok text := by
  induction h with
  | done => exact fun n hn => .inl hn
  | again _ _ ih => exact ih
  | first _ htext _ _ ihinner ihrest =>
    intro n hn
    rcases ihrest n hn with hn | hn
    · rcases ihinner n hn with hn | hn
      · rcases List.mem_append.1 hn with hn | hn
        · exact .inl hn
        · exact .inr ⟨_, List.mem_singleton.1 hn ▸ htext⟩
      · exact .inr hn
    · exact .inr hn

end Engine.Walk

section Walking

variable {e : Engine} {descend : Descent}

/-- The names that were come to are those that are compiled or being compiled. -/
def Met (chain : List String) (st : Linkage) (seen : List String) : Prop :=
  ∀ n, n ∈ seen ↔ st.compiled.contains n = true ∨ n ∈ chain

/-- What linking some names does is a walk that comes to further names, and the loader is asked
for some of these. -/
def WalksTo (e : Engine) (chain names : List String) (st st' : Linkage) : Prop :=
  ∀ seen, Met chain st seen → ∃ order, e.Walk seen names (seen ++ order) ∧
    Met chain st' (seen ++ order) ∧ st'.asked = st.asked ++ order.filter e.asksFor

/-- A way of compiling included templates that is a walk when it succeeds. -/
def Descent.Walks (e : Engine) (descend : Descent) : Prop :=
  ∀ chain text st st' s, descend chain text st = (st', .ok s) →
    WalksTo e chain (Scan.ofText text.toList).included st st'

/-- Linking a list of references is a walk over their names. -/
lemma linkAll_walks (hdescend : descend.Walks e) {chain : List String} {source : String}
    {references : List Reference} {st st' : Linkage}
    (h : linkAll e descend chain source references st = (st', .ok ())) :
    WalksTo e chain (references.map Reference.name) st st' := by
  intro seen hmet
  induction references generalizing st seen with
  | nil =>
    cases h
    exact ⟨[], by simpa using .done, by simpa using hmet, by simp⟩
  | cons r rest ih =>
    rw [linkAll] at h
    split at h
    · rename_i hknown
      obtain ⟨order, hwalk, hmet', hasked⟩ := ih h seen hmet
      exact ⟨order, .again ((hmet r.name).2 (by simpa using hknown)) hwalk, hmet', hasked⟩
    · rename_i hnew
      split at h
      · cases h
      · rename_i text htext
        split at h
        · cases h
        · rename_i st₁ s hs
          -- the name is met first, then what its source refers to, then the rest
          have hfirst : Met (r.name :: chain) (st.noting e r.name) (seen ++ [r.name]) := by
            intro n
            rw [Linkage.compiled_noting, List.mem_append, List.mem_singleton, hmet n, List.mem_cons,
              or_assoc]
            exact or_congr_right or_comm
          obtain ⟨inner, hinner, hmet₁, hasked₁⟩ := hdescend _ _ _ _ _ hs _ hfirst
          have hmet₂ : Met chain { st₁ with compiled := st₁.compiled.insert r.name s }
              (seen ++ [r.name] ++ inner) := fun n => (hmet₁ n).trans contains_insert_or_mem.symm
          obtain ⟨order, hwalk, hmet', hasked⟩ := ih h _ hmet₂
          refine ⟨r.name :: inner ++ order, ?_, ?_, ?_⟩
          · refine .first (mt (fun hn => known_iff.2 ((hmet r.name).1 hn)) hnew) htext hinner ?_
            simpa using hwalk
          · simpa using hmet'
          · rw [hasked, hasked₁, Linkage.noting]
            split <;> simp [*]

/-- Compiling a template is a walk over what it refers to if compiling what it includes is. -/
lemma compileWith_walks (hdescend : descend.Walks e) : (compileWith e descend).Walks e := by
  intro chain source st st' s h
  simp only [compileWith] at h
  split at h
  · cases h
  · rename_i st₁ hlink
    split at h
    · cases h
    · rename_i sequence hdraft
      cases h
      rw [← Draft.included_eq_included_scan hdraft, Draft.included_eq hdraft]
      exact linkAll_walks hdescend hlink

/-- **Compiling with any number of levels is a depth-first walk** when it succeeds. -/
theorem compileAt_walks (e : Engine) (levels : Nat) : (compileAt e levels).Walks e := by
  induction levels with
  | zero =>
    refine compileWith_walks ?_
    intro chain text st st' s h
    cases h
  | succ levels ih => exact compileWith_walks ih

end Walking

/-! ## What the loader is asked for -/

namespace Engine

variable {e : Engine} {own : Option String} {source : String}

/-- The loader is asked for the source of a template that the engine does not hold. -/
lemma asksFor_of_sourceOf {n text : String} (h : e.sourceOf n = .ok text) :
    e.asksFor n = !e.templates.contains n := by
  unfold sourceOf at h
  split at h
  · rename_i hfind
    simp [asksFor, Table.contains, hfind]
  · cases h
  · rename_i hloader
    simp [asksFor, hloader]

/-- A template that compiles is compiled by a walk. -/
lemma exists_walk {p : Program} (h : (e.compile own source).outcome = .ok p) :
    ∃ order, e.Walk own.toList (Scan.ofText source.toList).included (own.toList ++ order) ∧
      (∀ n, n ∈ order ↔ p.partials.contains n = true ∧ own ≠ some n) ∧
      (e.compile own source).asked = order.filter fun n => !e.templates.contains n := by
  unfold compile at h ⊢
  split at h
  · cases h
  · rename_i st main hmain
    cases h
    obtain ⟨order, hwalk, hmet, hasked⟩ := compileAt_walks e _ _ _ _ _ _ hmain own.toList
      (fun n => by simp [Table.contains])
    have hnodup := List.nodup_append.1 (hwalk.nodup (by cases own <;> simp))
    have hown : ∀ n ∈ order, own ≠ some n := by
      rintro n hn rfl
      exact hnodup.2.2 n (by simp) n hn rfl
    refine ⟨order, hwalk, fun n => ?_, ?_⟩
    · have hn : n ∈ own.toList ∨ n ∈ order ↔ st.compiled.contains n = true ∨ n ∈ own.toList := by
        rw [← List.mem_append]
        exact hmet n
      by_cases hforeign : own = some n
      · exact iff_of_false (fun h => hown n h hforeign) (fun h => h.2 hforeign)
      · rw [Table.contains, Program.find?_closing hforeign, ← Table.contains]
        simpa [hforeign] using hn
    · refine (hasked.trans (List.nil_append _)).trans (List.filter_congr fun n hn => ?_)
      obtain hmem | ⟨text, htext⟩ := hwalk.exists_source n (List.mem_append_right _ hn)
      · exact absurd rfl (hnodup.2.2 n hmem n hn)
      · exact asksFor_of_sourceOf htext

/-- **What the loader is asked for.** While a template is compiled, whether this succeeds or not,
the loader is asked for each name at most once, never for one under which the engine holds a
template, and never for that of the template itself; adding a template asks for what compiling it
under its name asks for. If compiling succeeds, these names are exactly those of the included
templates that the engine does not hold and that are not the template itself, in the order in
which a depth-first walk through the sources comes to them.

**Proof sketch.** What the loader was asked for is compiled or being compiled at each moment, and
the loader is only asked for other names. Compiling goes the way of the walk: the names that the
walk came to are those that are compiled or being compiled. -/
theorem compile_asks (e : Engine) (own : Option String) (source : String) :
    (e.compile own source).asked.Nodup ∧
      (∀ n ∈ (e.compile own source).asked, e.templates.contains n = false ∧ own ≠ some n) ∧
      (∀ n, own = some n → (e.add n source).1 = (e.compile own source).asked) ∧
      ∀ p, (e.compile own source).outcome = .ok p →
        (∀ n, n ∈ (e.compile own source).asked ↔
          p.partials.contains n = true ∧ e.templates.contains n = false ∧ own ≠ some n) ∧
        ∃ order, e.Walk own.toList (Scan.ofText source.toList).included (own.toList ++ order) ∧
          (e.compile own source).asked = order.filter fun n => !e.templates.contains n := by
  obtain ⟨k, st, outcome, hends, hcompile⟩ := e.compile_endsIn own source
  obtain ⟨m, hpasses, hlast⟩ := hends.exists_last
  have honce := (Moment.step_eq_inl.1 hlast).askedOnce (Moment.AskedOnce.of_passes hpasses)
  have hasked : (e.compile own source).asked = st.asked := by rw [hcompile]
  refine ⟨hasked ▸ honce.nodup, fun n hn => ?_, ?_, fun p hp => ?_⟩
  · rw [hasked] at hn
    have hasks : e.asksFor n = true := honce.asks n hn
    simp only [asksFor, Bool.and_eq_true, Bool.not_eq_true'] at hasks
    exact ⟨hasks.2, honce.foreign n hn⟩
  · rintro n rfl
    rfl
  · obtain ⟨order, hwalk, hmem, hrequests⟩ := exists_walk hp
    refine ⟨fun n => ?_, order, hwalk, hrequests⟩
    rw [hrequests, List.mem_filter, hmem n, Bool.not_eq_true', and_assoc]
    exact and_congr_right fun _ => and_comm

end Engine

/-- A template that is added refers to two templates, of which the first one leads back to it and
to a template that the engine holds. -/
theorem compile_asks_on_shared :
    ∃ (e : Engine) (source : String) (p : Program),
      (e.compile (some "t") source).outcome = .ok p ∧ e.templates.names = ["r"] ∧
      (e.add "t" source).1 = ["a", "b", "c"] ∧
      (∀ n, n ∈ ["a", "b", "c"] ↔
        p.partials.contains n = true ∧ e.templates.contains n = false ∧ some "t" ≠ some n) ∧
      ∃ order, e.Walk ["t"] ["a", "c"] ("t" :: order) ∧
        ["a", "b", "c"] = order.filter fun n => !e.templates.contains n := by
  let held : Program := ⟨"\x7b\x7b>c\x7d\x7d", ⟨#[.enter "c" ""], by decide⟩, .empty⟩
  let e : Engine :=
    { templates := .ofList [("r", held)]
      loader := some ⟨.ofList [("a", .ok "\x7b\x7b>b\x7d\x7d\x7b\x7b>r\x7d\x7d"),
        ("b", .ok "\x7b\x7b>t\x7d\x7d\x7b\x7b>c\x7d\x7d"), ("c", .ok "x"), ("d", .ok "y")]⟩ }
  let source := "\x7b\x7b>a\x7d\x7d\x7b\x7b>c\x7d\x7d"
  have hrun : (e.compile (some "t") source).outcome.toOption.map Program.source = some source := by
    decide +kernel
  have hasked : (e.compile (some "t") source).asked = ["a", "b", "c"] := by decide +kernel
  have hincluded : (Scan.ofText source.toList).included = ["a", "c"] := by decide +kernel
  obtain ⟨p, hp, -⟩ := exists_of_toOption_map_eq_some hrun
  obtain ⟨-, -, hadd, hsucceeds⟩ := Engine.compile_asks e (some "t") source
  obtain ⟨hmem, order, hwalk, hrequests⟩ := hsucceeds p hp
  rw [hasked] at hmem hrequests
  rw [hincluded] at hwalk
  exact ⟨e, source, p, hp, by decide +kernel, (hadd "t" rfl).trans hasked, hmem, order, hwalk,
    hrequests⟩

end Stencil
