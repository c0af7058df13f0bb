import Mathlib.Tactic.Lemma
import Stencil.Engine.Linking
import Stencil.Proofs.Code.Drafts
import Stencil.Proofs.Data.Tables

/-!
# What linking adds

Linking a list of references adds the templates that are needed and not there yet. What a new
template includes is there in the end or still being compiled further out, every new template
is needed by a chain of inclusions, and its sequence is that of its own source.

## Main definitions

* `Reached` — a name that is reached from others by inclusions.
* `Linked` — how the compiled templates change while references are linked.
* `Descent.IsSound` — a way of compiling included templates that changes them so.

## Main results

* `Linked.keep` — a reference that is compiled and kept.
* `compileAt_isSound` — compiling with any number of levels is sound.
* `Engine.compile_eq_ok` — what is known of a template that compiles.
-/

namespace Stencil

/-- A name is one of the given ones, or included by a template that is reached from them. -/
inductive Reached (t : Table Sequence) (names : List String) : String → Prop where
  | root {n : String} : n ∈ names → Reached t names n
  | step {m n : String} {s : Sequence} : Reached t names m → t.find? m = some s →
      n ∈ s.included → Reached t names n

namespace Reached

variable {t u : Table Sequence} {names others : List String} {n : String}

/-- What is reached stays reached from names that reach these, in a table that holds more. -/
lemma trans (h : Reached t names n) (hnames : ∀ m ∈ names, Reached u others m)
    (htable : ∀ m s, t.find? m = some s → u.find? m = some s) : Reached u others n := by
  induction h with
  | root hm => exact hnames _ hm
  | step _ hfind hincluded ih => exact .step ih (htable _ _ hfind) hincluded

end Reached

/-- The compiled templates change from `t` to `t'` while references to `names` are linked, and
the templates in `chain` are being compiled further out. -/
structure Linked (e : Engine) (chain : List String) (t t' : Table Sequence)
    (names : List String) : Prop where
  /-- Compiled templates stay as they are. -/
  grows : ∀ n s, t.find? n = some s → t'.find? n = some s
  /-- Templates that are being compiled further out are not added. -/
  avoids : ∀ n ∈ chain, t'.contains n = true → t.contains n = true
  /-- Every name is there in the end, or is being compiled further out. -/
  covers : ∀ n ∈ names, t'.contains n = true ∨ n ∈ chain
  /-- A new sequence is that of the source of its template. -/
  origin : ∀ n s, t'.find? n = some s → t.find? n = some s ∨
    ∃ source, e.sourceOf n = .ok source ∧ (Draft.ofText source.toList).outcome = .ok s
  /-- What a new template includes is there in the end, or is being compiled further out. -/
  closed : ∀ n s, t'.find? n = some s → t.find? n = some s ∨
    ∀ m ∈ s.included, t'.contains m = true ∨ m ∈ chain
  /-- A new template is reached from the names. -/
  reached : ∀ n s, t'.find? n = some s → t.find? n = some s ∨ Reached t' names n

namespace Linked

variable {e : Engine} {chain rest : List String} {t t₁ t' : Table Sequence} {n : String}

/-- Without references nothing changes. -/
lemma nil : Linked e chain t t [] where
  grows _ _ h := h
  avoids _ _ h := h
  covers n h := by simp at h
  origin _ _ h := .inl h
  closed _ _ h := .inl h
  reached _ _ h := .inl h

/-- What is contained stays contained. -/
lemma contains_of_contains {names : List String} (h : Linked e chain t t' names)
    (hn : t.contains n = true) : t'.contains n = true := by
  obtain ⟨s, hs⟩ := Table.contains_iff.1 hn
  exact Table.contains_iff.2 ⟨s, h.grows n s hs⟩

/-- No template is linked under the name of the one that is being compiled. -/
lemma ne_of_find? {name : Option String} {names : List String} {s : Sequence}
    (h : Linked e name.toList .empty t names) (hfind : t.find? n = some s) : name ≠ some n := by
  rintro rfl
  simpa [Table.contains] using h.avoids n (by simp) (Table.contains_iff.2 ⟨s, hfind⟩)

/-- A reference to a template that is there or being compiled changes nothing. -/
lemma skip (hn : t.contains n = true ∨ n ∈ chain) (h : Linked e chain t t' rest) :
    Linked e chain t t' (n :: rest) where
  grows := h.grows
  avoids := h.avoids
  covers m hm := by
    rcases List.mem_cons.1 hm with rfl | hm
    · exact hn.imp h.contains_of_contains id
    · exact h.covers m hm
  origin := h.origin
  closed := h.closed
  reached m s hs := (h.reached m s hs).imp id fun hm =>
    hm.trans (fun k hk => .root (List.mem_cons_of_mem n hk)) fun _ _ hk => hk

/-- **A reference to a template that is compiled and kept.** It is being compiled itself while
its own references are linked.

**Proof sketch.** The name is new when it is set, since a template that is being compiled is
not added. So nothing is replaced, and each entry in the end is old, or one of those that its
references added, or the template itself, or one of those that the rest adds. -/
theorem keep {s : Sequence} {source : String} (hsource : e.sourceOf n = .ok source)
    (hdraft : (Draft.ofText source.toList).outcome = .ok s) (hnew : ¬t.contains n = true)
    (hchain : n ∉ chain) (hinner : Linked e (n :: chain) t t₁ s.included)
    (h : Linked e chain (t₁.insert n s) t' rest) : Linked e chain t t' (n :: rest) := by
  have hn₁ : ∀ m u, t₁.find? m = some u → m ≠ n := by
    rintro m u hu rfl
    exact hnew (hinner.avoids m List.mem_cons_self (Table.contains_iff.2 ⟨u, hu⟩))
  have hset : (t₁.insert n s).find? n = some s := by simp
  have hkeep : ∀ m u, t₁.find? m = some u → t'.find? m = some u := by
    intro m u hu
    refine h.grows m u ?_
    rw [Table.find?_insert, if_neg (hn₁ m u hu).symm]
    exact hu
  have hself : t'.find? n = some s := h.grows n s hset
  have hcontains : ∀ m, t₁.contains m = true ∨ m ∈ n :: chain →
      t'.contains m = true ∨ m ∈ chain := by
    rintro m (hm | hm)
    · obtain ⟨u, hu⟩ := Table.contains_iff.1 hm
      exact .inl (Table.contains_iff.2 ⟨u, hkeep m u hu⟩)
    · rcases List.mem_cons.1 hm with rfl | hm
      · exact .inl (Table.contains_iff.2 ⟨s, hself⟩)
      · exact .inr hm
  have hroot : Reached t' (n :: rest) n := .root List.mem_cons_self
  -- an entry that is set before the rest is linked is the template itself or was there before
  have hentry : ∀ m u, (t₁.insert n s).find? m = some u →
      (m = n ∧ u = s) ∨ t₁.find? m = some u := by
    intro m u hu
    rw [Table.find?_insert] at hu
    split at hu
    · rename_i hmn
      exact .inl ⟨hmn.symm, (Option.some.inj hu).symm⟩
    · exact .inr hu
  refine ⟨fun m u hu => hkeep m u (hinner.grows m u hu), ?_, ?_, ?_, ?_, ?_⟩
  · intro m hm hcontained
    obtain ⟨u, hu⟩ := Table.contains_iff.1 (h.avoids m hm hcontained)
    rcases hentry m u hu with ⟨rfl, -⟩ | hu
    · exact absurd hm hchain
    · exact hinner.avoids m (List.mem_cons_of_mem n hm) (Table.contains_iff.2 ⟨u, hu⟩)
  · intro m hm
    rcases List.mem_cons.1 hm with rfl | hm
    · exact .inl (Table.contains_iff.2 ⟨s, hself⟩)
    · exact h.covers m hm
  · intro m u hu
    rcases h.origin m u hu with hu | hu
    · rcases hentry m u hu with ⟨rfl, rfl⟩ | hu
      · exact .inr ⟨source, hsource, hdraft⟩
      · exact hinner.origin m u hu
    · exact .inr hu
  · intro m u hu
    rcases h.closed m u hu with hu | hu
    · rcases hentry m u hu with ⟨rfl, rfl⟩ | hu
      · exact .inr fun k hk => hcontains k (hinner.covers k hk)
      · exact (hinner.closed m u hu).imp id fun hm k hk => hcontains k (hm k hk)
    · exact .inr hu
  · intro m u hu
    rcases h.reached m u hu with hu | hu
    · rcases hentry m u hu with ⟨rfl, rfl⟩ | hu
      · exact .inr hroot
      · refine (hinner.reached m u hu).imp id fun hm => hm.trans (fun k hk => ?_) hkeep
        exact .step hroot hself hk
    · exact .inr (hu.trans (fun k hk => .root (List.mem_cons_of_mem n hk)) fun _ _ hk => hk)

end Linked

/-! ## Compiling -/

/-- A way of compiling included templates that, when it succeeds, yields the sequence of the
source and links its references. -/
def Descent.IsSound (e : Engine) (descend : Descent) : Prop :=
  ∀ chain source st st' s, descend chain source st = (st', .ok s) →
    (Draft.ofText source.toList).outcome = .ok s ∧
      Linked e chain st.compiled st'.compiled s.included

variable {e : Engine} {descend : Descent} {chain : List String} {source : String}

/-- Looking for a source compiles nothing. -/
@[simp]
lemma Linkage.compiled_noting (st : Linkage) (e : Engine) (name : String) :
    (st.noting e name).compiled = st.compiled := by
  unfold noting
  split <;> rfl

/-- What compiling the templates of a list of references adds. -/
lemma linkAll_linked (hdescend : descend.IsSound e) {references : List Reference}
    {st st' : Linkage} (h : linkAll e descend chain source references st = (st', .ok ())) :
    Linked e chain st.compiled st'.compiled (references.map Reference.name) := by
  induction references generalizing st with
  | nil =>
    cases h
    exact .nil
  | cons r rest ih =>
    rw [linkAll] at h
    split at h
    · rename_i hknown
      refine .skip ?_ (ih h)
      simpa using hknown
    · rename_i hknown
      simp only [Bool.or_eq_true, List.contains_eq_mem, decide_eq_true_eq, not_or] at hknown
      split at h
      · simp at h
      · rename_i text htext
        split at h
        · simp at h
        · rename_i st₁ s hs
          obtain ⟨hdraft, hinner⟩ := hdescend _ _ _ _ _ hs
          rw [Linkage.compiled_noting] at hinner
          exact .keep htext hdraft hknown.1 hknown.2 hinner (ih h)

/-- Compiling a template is sound if compiling what it includes is. -/
lemma compileWith_isSound (hdescend : descend.IsSound e) : (compileWith e descend).IsSound e := by
  intro chain source st st' s h
  simp only [compileWith] at h
  split at h
  · simp at h
  · rename_i st₁ hlink
    split at h
    · simp at h
    · rename_i sequence houtcome
      cases h
      refine ⟨houtcome, ?_⟩
      rw [Draft.included_eq houtcome]
      exact linkAll_linked hdescend hlink

/-- **Compiling with any number of levels is sound.** -/
theorem compileAt_isSound (e : Engine) (levels : Nat) : (compileAt e levels).IsSound e := by
  induction levels with
  | zero =>
    refine compileWith_isSound ?_
    intro chain source st st' s h
    simp at h
  | succ levels ih => exact compileWith_isSound ih

/-- **What is known of a template that compiles.** Its own sequence is that of its source, and
the templates it includes are linked while it is being compiled under its name. -/
theorem Engine.compile_eq_ok {name : Option String} {p : Program}
    (h : (e.compile name source).outcome = .ok p) :
    ∃ main compiled, (Draft.ofText source.toList).outcome = .ok main ∧
      Linked e name.toList .empty compiled main.included ∧
        p = Program.closing name ⟨source, main, compiled⟩ := by
  unfold compile at h
  split at h
  · simp at h
  · rename_i st main hmain
    obtain ⟨hdraft, hlinked⟩ := compileAt_isSound e _ _ _ _ _ _ hmain
    cases h
    exact ⟨main, st.compiled, hdraft, hlinked, rfl⟩

/-! ## The sequences of a program -/

namespace Program

variable {p : Program}

/-- A program has under a name that is not its own what was compiled. -/
lemma find?_closing {own : Option String} {n : String} (hn : own ≠ some n) :
    (p.closing own).partials.find? n = p.partials.find? n := by
  cases own with
  | none => rfl
  | some k =>
    simp only [closing]
    split
    · rw [Table.find?_insert, if_neg fun hk => hn (congrArg some hk)]
    · rfl

/-- Settling the own name of a program adds no sequence. -/
lemma sequences_closing {name : Option String} {s : Sequence}
    (h : s ∈ (p.closing name).sequences) : s ∈ p.sequences := by
  cases name with
  | none => exact h
  | some own =>
    simp only [closing] at h
    split at h
    · rcases mem_sequences.1 h with rfl | ⟨n, hn⟩
      · exact mem_sequences.2 (.inl rfl)
      · rw [Table.find?_insert] at hn
        split at hn
        · exact mem_sequences.2 (.inl (Option.some.inj hn).symm)
        · exact mem_sequences.2 (.inr ⟨n, hn⟩)
    · exact h

end Program

/-- **Each sequence of a program that compiles is that of a template**: of the source, or of what is
known under some name. -/
lemma Engine.exists_draft {name : Option String} {p : Program} {s : Sequence}
    (h : (e.compile name source).outcome = .ok p) (hs : s ∈ p.sequences) :
    ∃ text : String, (text = source ∨ ∃ n, e.sourceOf n = .ok text) ∧
      (Draft.ofText text.toList).outcome = .ok s := by
  obtain ⟨main, compiled, hmain, hlinked, rfl⟩ := compile_eq_ok h
  rcases Program.mem_sequences.1 (Program.sequences_closing hs) with rfl | ⟨n, hn⟩
  · exact ⟨source, .inl rfl, hmain⟩
  · obtain ⟨text, htext, hdraft⟩ := (hlinked.origin n s hn).resolve_left (by simp)
    exact ⟨text, .inr ⟨n, htext⟩, hdraft⟩

/-- The sequences of a program that compiles are finished. -/
lemma Engine.compile_isSequenced {name : Option String} {p : Program}
    (h : (e.compile name source).outcome = .ok p) : p.IsSequenced := by
  intro s hs
  obtain ⟨text, -, hdraft⟩ := exists_draft h hs
  exact Draft.isFinished hdraft

end Stencil
