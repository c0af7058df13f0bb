import Mathlib.Tactic.Lemma
import Stencil.Render.Scopes

/-!
# Passes over a section

A section that runs is passed over once for each of its data, and an inverted section once without
data of its own. The end of a pass takes off the data of the pass, and the section with the last of
them, so behind the last pass the scopes are what they were before the section was opened. Sections
within a pass come and go above the one that runs, and leave no trace.

## Main definitions

* `Scopes.Call`, `Scopes.afterAll` — calls on scopes that stay in use.
* `Scopes.ClosesAbove`, `Scopes.Balanced` — calls that close no section that was open before, and
  calls that leave no section open either.
* `Scopes.InPass` — the passes over a section that was opened.
* `Scopes.RunsWith` — how a section runs with its data.

## Main results

* `Scopes.Balanced.afterAll_eq` — balanced calls leave the scopes as they were.
* `Scopes.runsWith` — a section that is opened runs once with each of its data.
* `Scopes.keepsDiscipline` — how sections are opened, passed over and closed.
-/

namespace Stencil

namespace Scopes

variable {s t : Scopes} {path : Path} {inverted : Bool}

/-! ## Opening -/

/-- A section runs if there is data for it, and an inverted one if there is none. -/
lemma fst_openSection (s : Scopes) (inverted : Bool) (path : Path) :
    (s.openSection inverted path).1 = decide ((contextsOf (s.get? path)).isEmpty = inverted) := by
  unfold openSection
  by_cases h : (contextsOf (s.get? path)).isEmpty = inverted
  · simp [h]
  · simp [h]

/-- A section that runs is put on top of the others, with its data if it is not inverted. -/
lemma snd_openSection_of_runs (h : (s.openSection inverted path).1 = true) :
    (s.openSection inverted path).2 =
      ⟨⟨path, if inverted then [] else contextsOf (s.get? path)⟩ :: s.inner, s.root⟩ := by
  rw [fst_openSection, decide_eq_true_eq] at h
  unfold openSection
  simp [h]

/-- A section that does not run changes nothing. -/
lemma snd_openSection_of_not (h : (s.openSection inverted path).1 = false) :
    (s.openSection inverted path).2 = s := by
  rw [fst_openSection, decide_eq_false_iff_not] at h
  unfold openSection
  simp [h]

/-- The data with which a section runs: the items of a list, or the value itself. -/
lemma exists_of_contextsOf_ne_nil {v? : Option Value} (h : contextsOf v? ≠ []) :
    ∃ v, v? = some v ∧
      ((∃ items, v = .list items ∧ contextsOf v? = items) ∨
        (∀ items, v ≠ .list items) ∧ contextsOf v? = [v]) := by
  cases v? with
  | none => exact absurd rfl h
  | some v =>
    refine ⟨v, rfl, ?_⟩
    cases v with
    | list items => exact .inl ⟨items, rfl, rfl⟩
    | none => exact absurd rfl h
    | bool b =>
      cases b with
      | false => exact absurd rfl h
      | true => exact .inr ⟨by simp, rfl⟩
    | integer n => exact .inr ⟨by simp, rfl⟩
    | float x => exact .inr ⟨by simp, rfl⟩
    | string text => exact .inr ⟨by simp, rfl⟩
    | map entries => exact .inr ⟨by simp, rfl⟩
    | object id field call => exact .inr ⟨by simp, rfl⟩

/-! ## Closing -/

/-- Ending a run in place, compared with ending it on a copy. -/
lemma closeInPlace_eq (s : Scopes) (path : Path) :
    s.closeInPlace path =
      match s.closeSection path with
      | .ok (again, s') => (s', .ok again)
      | .error fault => (s, .error fault) := by
  obtain ⟨inner, root⟩ := s
  unfold closeInPlace closeSection
  cases inner with
  | nil => rfl
  | cons scope outer =>
    by_cases hpath : scope.path = path
    · cases htail : scope.contexts.tail with
      | nil => simp [hpath, htail]
      | cons v left => simp [hpath, htail]
    · simp [hpath]

/-- **A section cannot be closed** if none runs or another one is the innermost, and then nothing
changes. -/
lemma closeInPlace_eq_error_iff {fault : ScopeFault} :
    s.closeInPlace path = (t, .error fault) ↔
      t = s ∧ (s.size = 1 ∧ fault = .onlyRoot path ∨
        ∃ scope outer, s.inner = scope :: outer ∧ scope.path ≠ path ∧
          fault = .notInnermost path scope.path) := by
  obtain ⟨inner, root⟩ := s
  unfold closeInPlace size
  cases inner with
  | nil => simp [eq_comm]
  | cons scope outer =>
    by_cases hpath : scope.path = path
    · by_cases htail : scope.contexts.tail.isEmpty
      · simp [hpath, htail]
      · simp [hpath, htail]
    · simp [hpath, eq_comm (a := fault), eq_comm (a := t)]

/-- The last run of a section ends with the section. -/
lemma closeInPlace_of_last {vs : List Value} (inner : List Scope) (root : Value)
    (h : vs.tail = []) :
    closeInPlace ⟨⟨path, vs⟩ :: inner, root⟩ path = (⟨inner, root⟩, .ok false) := by
  simp [closeInPlace, h]

/-- Another run of a section ends with the data of that run. -/
lemma closeInPlace_of_again {vs : List Value} (inner : List Scope) (root : Value)
    (h : vs.tail ≠ []) :
    closeInPlace ⟨⟨path, vs⟩ :: inner, root⟩ path =
      (⟨⟨path, vs.tail⟩ :: inner, root⟩, .ok true) := by
  simp [closeInPlace, h]

/-! ## Calls -/

/-- A call on scopes that stay in use. -/
inductive Call where
  | opening (inverted : Bool) (path : Path)
  | closing (path : Path)

/-- The scopes after a call. -/
def after (s : Scopes) : Call → Scopes
  | .opening inverted path => (s.openSection inverted path).2
  | .closing path => (s.closeInPlace path).1

/-- The scopes after some calls. -/
def afterAll (s : Scopes) (calls : List Call) : Scopes := calls.foldl after s

@[simp]
lemma afterAll_nil (s : Scopes) : s.afterAll [] = s := rfl

@[simp]
lemma afterAll_cons (s : Scopes) (c : Call) (calls : List Call) :
    s.afterAll (c :: calls) = (s.after c).afterAll calls := rfl

@[simp]
lemma afterAll_append (s : Scopes) (calls more : List Call) :
    s.afterAll (calls ++ more) = (s.afterAll calls).afterAll more :=
  List.foldl_append

/-- No call touches the data of the whole rendering. -/
lemma root_after (s : Scopes) (c : Call) : (s.after c).root = s.root := by
  cases c with
  | opening inverted path =>
    simp only [after, openSection]
    split <;> rfl
  | closing path =>
    simp only [after, closeInPlace]
    split
    · rfl
    · split
      · rfl
      · split <;> rfl

/-- **The data of the whole rendering stays**, whatever the calls are. -/
lemma root_afterAll (s : Scopes) (calls : List Call) : (s.afterAll calls).root = s.root := by
  induction calls generalizing s with
  | nil => rfl
  | cons c calls ih => rw [afterAll_cons, ih, root_after]

/-- Each closing is called while there are more scopes than the given number. -/
def ClosesAbove (depth : Nat) : Scopes → List Call → Prop
  | _, [] => True
  | s, .opening inverted path :: calls => ClosesAbove depth (s.after (.opening inverted path)) calls
  | s, .closing path :: calls => depth < s.size ∧ ClosesAbove depth (s.after (.closing path)) calls

/-- Calls in a row close above some scopes if each of the two parts does. -/
lemma ClosesAbove.append {depth : Nat} {calls more : List Call} (h : ClosesAbove depth s calls)
    (hmore : ClosesAbove depth (s.afterAll calls) more) : ClosesAbove depth s (calls ++ more) := by
  induction calls generalizing s with
  | nil => exact hmore
  | cons c calls ih =>
    cases c with
    | opening inverted path => exact ih h hmore
    | closing path => exact ⟨h.1, ih h.2 hmore⟩

/-- Calls that close above more scopes close above fewer. -/
lemma ClosesAbove.mono {depth depth' : Nat} {calls : List Call} (h : ClosesAbove depth s calls)
    (hle : depth' ≤ depth) : ClosesAbove depth' s calls := by
  induction calls generalizing s with
  | nil => trivial
  | cons c calls ih =>
    cases c with
    | opening inverted path => exact ih h
    | closing path => exact ⟨Nat.lt_of_le_of_lt hle h.1, ih h.2⟩

/-- A call above some scopes leaves them where they are. -/
lemma exists_after_eq (upper base : List Scope) (root : Value) (c : Call)
    (h : ∀ path, c = .closing path → upper ≠ []) :
    ∃ upper', after ⟨upper ++ base, root⟩ c = ⟨upper' ++ base, root⟩ := by
  cases c with
  | opening inverted path =>
    rw [after]
    cases hruns : (openSection ⟨upper ++ base, root⟩ inverted path).1 with
    | true =>
      rw [snd_openSection_of_runs hruns]
      exact ⟨_ :: upper, rfl⟩
    | false =>
      rw [snd_openSection_of_not hruns]
      exact ⟨upper, rfl⟩
  | closing path =>
    cases upper with
    | nil => exact absurd rfl (h path rfl)
    | cons scope upper =>
      obtain ⟨other, vs⟩ := scope
      by_cases hpath : other = path
      · subst hpath
        by_cases htail : vs.tail = []
        · rw [after, List.cons_append, closeInPlace_of_last _ _ htail]
          exact ⟨upper, rfl⟩
        · rw [after, List.cons_append, closeInPlace_of_again _ _ htail]
          exact ⟨⟨other, vs.tail⟩ :: upper, rfl⟩
      · have hkept : closeInPlace ⟨⟨other, vs⟩ :: (upper ++ base), root⟩ path =
            (⟨⟨other, vs⟩ :: (upper ++ base), root⟩, .error (.notInnermost path other)) :=
          closeInPlace_eq_error_iff.2 ⟨rfl, .inr ⟨_, _, rfl, hpath, rfl⟩⟩
        rw [after, List.cons_append, hkept]
        exact ⟨⟨other, vs⟩ :: upper, rfl⟩

/-- **Calls above some scopes leave them where they are**, and only change what is above.

**Proof sketch.** By induction on the calls. A closing is called while there are more scopes, so it
meets one of those above. -/
lemma ClosesAbove.exists_afterAll_eq (upper base : List Scope) {root : Value} {calls : List Call}
    (h : ClosesAbove (base.length + 1) ⟨upper ++ base, root⟩ calls) :
    ∃ upper', afterAll ⟨upper ++ base, root⟩ calls = ⟨upper' ++ base, root⟩ := by
  induction calls generalizing upper with
  | nil => exact ⟨upper, rfl⟩
  | cons c calls ih =>
    have hmeets : ∀ path, c = .closing path → upper ≠ [] := by
      rintro path rfl rfl
      simp [ClosesAbove, size] at h
    obtain ⟨upper', hafter⟩ := exists_after_eq upper base root c hmeets
    have hcalls : ClosesAbove (base.length + 1) (after ⟨upper ++ base, root⟩ c) calls := by
      cases c with
      | opening inverted path => exact h
      | closing path => exact h.2
    rw [hafter] at hcalls
    rw [afterAll_cons, hafter]
    exact ih upper' hcalls

/-- The calls are properly nested: none of them closes a section that was open before, and together
they leave no further section open. -/
structure Balanced (s : Scopes) (calls : List Call) : Prop where
  above : ClosesAbove s.size s calls
  size_eq : (s.afterAll calls).size = s.size

/-- No call at all is balanced. -/
lemma Balanced.nil (s : Scopes) : s.Balanced [] := ⟨trivial, rfl⟩

/-- **Balanced calls leave the scopes as they were.** -/
theorem Balanced.afterAll_eq {calls : List Call} (h : s.Balanced calls) :
    s.afterAll calls = s := by
  obtain ⟨base, root⟩ := s
  obtain ⟨upper, hafter⟩ := ClosesAbove.exists_afterAll_eq [] base h.above
  rw [List.nil_append] at hafter
  have hsize := h.size_eq
  simp only [hafter, size, List.length_append] at hsize
  have hupper : upper = [] := List.length_eq_zero_iff.1 (by omega)
  rw [hafter, hupper, List.nil_append]

/-- Balanced calls in a row are balanced. -/
lemma Balanced.append {calls more : List Call} (h : s.Balanced calls) (hmore : s.Balanced more) :
    s.Balanced (calls ++ more) where
  above := by
    apply h.above.append
    rw [h.afterAll_eq]
    exact hmore.above
  size_eq := by rw [afterAll_append, h.afterAll_eq, hmore.size_eq]

/-- An opening that does not run is balanced without a closing. -/
lemma balanced_opening (h : (s.openSection inverted path).1 = false) :
    s.Balanced [.opening inverted path] where
  above := trivial
  size_eq := by rw [afterAll_cons, after, snd_openSection_of_not h, afterAll_nil]

/-! ## Passes -/

/-- The passes over a section that is opened in some scopes, counted from 0: the calls up to the
start of a pass and the scopes there. Within a pass there are balanced calls, and another pass
starts where closing the section tells that it runs again. -/
inductive InPass (s : Scopes) (path : Path) : Nat → List Call → Scopes → Prop where
  | first : (s.openSection false path).1 = true →
      InPass s path 0 [.opening false path] (s.openSection false path).2
  | next {j : Nat} {calls body : List Call} {t t' : Scopes} : InPass s path j calls t →
      t.Balanced body → (t.afterAll body).closeInPlace path = (t', .ok true) →
        InPass s path (j + 1) (calls ++ body ++ [.closing path]) t'

namespace InPass

variable {j : Nat} {calls body : List Call}

/-- At the start of a pass the data of the passes before it is gone. -/
lemma eq_drop (h : s.InPass path j calls t) :
    t = ⟨⟨path, (contextsOf (s.get? path)).drop j⟩ :: s.inner, s.root⟩ ∧
      j < (contextsOf (s.get? path)).length := by
  induction h with
  | first hruns =>
    refine ⟨snd_openSection_of_runs hruns, ?_⟩
    rw [fst_openSection, decide_eq_true_eq, List.isEmpty_eq_false_iff] at hruns
    exact List.length_pos_iff.2 hruns
  | @next j calls body t t' _ hbody hclose ih =>
    obtain ⟨rfl, hj⟩ := ih
    rw [hbody.afterAll_eq] at hclose
    by_cases hlast : ((contextsOf (s.get? path)).drop j).tail = []
    · rw [closeInPlace_of_last _ _ hlast] at hclose
      cases hclose
    · rw [closeInPlace_of_again _ _ hlast] at hclose
      cases hclose
      rw [List.tail_drop] at hlast ⊢
      rw [List.drop_eq_nil_iff] at hlast
      exact ⟨rfl, by omega⟩

/-- The calls up to the start of a pass lead there. -/
lemma afterAll_eq (h : s.InPass path j calls t) : s.afterAll calls = t := by
  induction h with
  | first _ => rfl
  | next _ _ hclose ih =>
    rw [afterAll_append, afterAll_append, ih, afterAll_cons, after, hclose]
    rfl

/-- During a pass there is one more scope. -/
lemma size_eq (h : s.InPass path j calls t) : t.size = s.size + 1 := by
  rw [h.eq_drop.1]
  rfl

/-- The calls up to the end of a pass close no section that was open before. -/
lemma closesAbove_closing (h : s.InPass path j calls t) (hcalls : ClosesAbove s.size s calls)
    (hbody : t.Balanced body) : ClosesAbove s.size s (calls ++ body ++ [.closing path]) := by
  have hsize := h.size_eq
  refine (hcalls.append ?_).append ⟨?_, trivial⟩
  · rw [h.afterAll_eq]
    exact hbody.above.mono (by omega)
  · rw [afterAll_append, h.afterAll_eq, hbody.afterAll_eq]
    omega

/-- The calls up to the start of a pass close no section that was open before. -/
lemma closesAbove (h : s.InPass path j calls t) : ClosesAbove s.size s calls := by
  induction h with
  | first _ => trivial
  | next hpass hbody _ ih => exact hpass.closesAbove_closing ih hbody

/-- **The end of a pass** that is not the last one takes off the data of the pass. -/
lemma close_of_lt (h : s.InPass path j calls t) (hbody : t.Balanced body)
    (hj : j + 1 < (contextsOf (s.get? path)).length) :
    ∃ t', (t.afterAll body).closeInPlace path = (t', .ok true) := by
  rw [hbody.afterAll_eq, h.eq_drop.1]
  have hleft : ((contextsOf (s.get? path)).drop j).tail ≠ [] := by
    rw [List.tail_drop]
    intro hnil
    rw [List.drop_eq_nil_iff] at hnil
    omega
  exact ⟨_, closeInPlace_of_again _ _ hleft⟩

/-- **The end of the last pass** takes off the section. -/
lemma close_of_eq (h : s.InPass path j calls t) (hbody : t.Balanced body)
    (hj : j + 1 = (contextsOf (s.get? path)).length) :
    (t.afterAll body).closeInPlace path = (s, .ok false) := by
  rw [hbody.afterAll_eq, h.eq_drop.1]
  have hleft : ((contextsOf (s.get? path)).drop j).tail = [] := by
    rw [List.tail_drop]
    apply List.drop_eq_nil_of_le
    omega
  exact closeInPlace_of_last _ _ hleft

/-- The calls of all passes are balanced. -/
lemma balanced (h : s.InPass path j calls t) (hbody : t.Balanced body)
    (hj : j + 1 = (contextsOf (s.get? path)).length) :
    s.Balanced (calls ++ body ++ [.closing path]) := by
  refine ⟨h.closesAbove_closing h.closesAbove hbody, ?_⟩
  rw [afterAll_append, afterAll_append, h.afterAll_eq, afterAll_cons, after,
    h.close_of_eq hbody hj]
  rfl

/-- During a pass its data is the innermost one. -/
lemma contexts_eq (h : s.InPass path j calls t) :
    ∃ v, (contextsOf (s.get? path))[j]? = some v ∧ t.contexts = v :: s.contexts := by
  obtain ⟨rfl, hj⟩ := h.eq_drop
  refine ⟨(contextsOf (s.get? path))[j], List.getElem?_eq_getElem hj, ?_⟩
  simp [contexts, List.head?_drop, List.getElem?_eq_getElem hj]

end InPass

/-- There is a pass for each of the data. -/
lemma exists_inPass (h : (s.openSection false path).1 = true) {j : Nat}
    (hj : j < (contextsOf (s.get? path)).length) : ∃ calls t, s.InPass path j calls t := by
  induction j with
  | zero => exact ⟨_, _, .first h⟩
  | succ j ih =>
    obtain ⟨calls, t, hpass⟩ := ih (by omega)
    obtain ⟨t', hclose⟩ := hpass.close_of_lt (.nil t) hj
    exact ⟨_, t', hpass.next (.nil t) hclose⟩

/-- A section that is opened in some scopes runs once with each of its data. -/
structure RunsWith (s : Scopes) (path : Path) (vs : List Value) : Prop where
  /-- There is a pass for each of the data and no other one, whatever happens within the passes. -/
  exists_inPass_iff : ∀ j, (∃ calls t, s.InPass path j calls t) ↔ j < vs.length
  /-- During a pass its data is the innermost one. -/
  contexts_eq : ∀ j calls t, s.InPass path j calls t → s.afterAll calls = t ∧
    ∃ v, vs[j]? = some v ∧ t.contexts = v :: s.contexts
  /-- Whatever is called within a pass, the section stays where it is. -/
  within : ∀ j calls t, s.InPass path j calls t → ∀ body, ClosesAbove t.size t body →
    ∃ upper, t.afterAll body = ⟨upper ++ t.inner, t.root⟩
  /-- The end of a pass tells that the section runs again, if it is not the last pass. -/
  again : ∀ j calls t, s.InPass path j calls t → ∀ body, t.Balanced body → j + 1 < vs.length →
    ∃ t', (t.afterAll body).closeInPlace path = (t', .ok true)
  /-- The end of the last pass leaves what was there before the section was opened, and all calls
  together are balanced. -/
  last : ∀ j calls t, s.InPass path j calls t → ∀ body, t.Balanced body → j + 1 = vs.length →
    (t.afterAll body).closeInPlace path = (s, .ok false) ∧
      s.Balanced (calls ++ body ++ [.closing path])

/-- **A section that is opened runs once with each of its data.** -/
theorem runsWith (h : (s.openSection false path).1 = true) :
    s.RunsWith path (contextsOf (s.get? path)) where
  exists_inPass_iff := by
    intro j
    constructor
    · rintro ⟨calls, t, hpass⟩
      exact hpass.eq_drop.2
    · intro hj
      exact exists_inPass h hj
  contexts_eq := fun _ _ _ hpass => ⟨hpass.afterAll_eq, hpass.contexts_eq⟩
  within := by
    rintro j calls ⟨inner, root⟩ hpass body hbody
    exact ClosesAbove.exists_afterAll_eq [] inner hbody
  again := fun _ _ _ hpass _ hbody hj => hpass.close_of_lt hbody hj
  last := fun _ _ _ hpass _ hbody hj => ⟨hpass.close_of_eq hbody hj, hpass.balanced hbody hj⟩

/-- An inverted section that runs is over with the first closing. -/
lemma close_inverted (h : (s.openSection true path).1 = true) {body : List Call}
    (hbody : (s.openSection true path).2.Balanced body) :
    ((s.openSection true path).2.afterAll body).closeInPlace path = (s, .ok false) := by
  rw [hbody.afterAll_eq, snd_openSection_of_runs h]
  exact closeInPlace_of_last _ _ rfl

/-- The calls from the opening of an inverted section to its closing are balanced. -/
lemma balanced_inverted (h : (s.openSection true path).1 = true) {body : List Call}
    (hbody : (s.openSection true path).2.Balanced body) :
    s.Balanced (.opening true path :: body ++ [.closing path]) := by
  have hsize : (s.openSection true path).2.size = s.size + 1 := by
    rw [snd_openSection_of_runs h]
    rfl
  constructor
  · refine ClosesAbove.append (hbody.above.mono (by omega)) ⟨?_, trivial⟩
    rw [afterAll_cons, after, hbody.afterAll_eq]
    omega
  · rw [afterAll_append, afterAll_cons, after, afterAll_cons, after, close_inverted h hbody]
    rfl

/-- **How sections are opened, passed over and closed.** Of a section and an inverted section with
the same path exactly one runs. A section that runs does so once with each of its data, which are
the items of a list or the value itself: with any balanced calls within the passes, it is closed as
often as there are data, each time but the last one it runs again, and in the end the scopes are
exactly what they were. An inverted section that runs is over with one closing. An opening that does
not run changes nothing, nor does a closing that fails, which it does if no section runs or another
one is the innermost. The data of the whole rendering is never taken off. What is called within a
pass may be put together from sections, inverted sections and openings that do not run.

**Proof sketch.** Balanced calls only change what stands above the section, and leave nothing there.
So the data of the section is taken off by its closings alone, one for each. -/
theorem keepsDiscipline (s : Scopes) (path : Path) :
    ((s.openSection false path).1 = true ↔ (s.openSection true path).1 = false) ∧
      ((s.openSection false path).1 = true → ∃ v vs, s.get? path = some v ∧ vs ≠ [] ∧
        ((∃ items, v = .list items ∧ vs = items) ∨ (∀ items, v ≠ .list items) ∧ vs = [v]) ∧
          s.RunsWith path vs) ∧
      ((s.openSection true path).1 = true →
        ∀ body, (s.openSection true path).2.Balanced body →
          ((s.openSection true path).2.afterAll body).closeInPlace path = (s, .ok false) ∧
            s.Balanced (.opening true path :: body ++ [.closing path])) ∧
      (∀ inverted, (s.openSection inverted path).1 = false →
        (s.openSection inverted path).2 = s ∧ s.Balanced [.opening inverted path]) ∧
      (s.Balanced [] ∧ ∀ calls more, s.Balanced calls → s.Balanced more →
        s.Balanced (calls ++ more)) ∧
      (∀ t fault, s.closeInPlace path = (t, .error fault) ↔
        t = s ∧ (s.size = 1 ∧ fault = .onlyRoot path ∨
          ∃ scope outer, s.inner = scope :: outer ∧ scope.path ≠ path ∧
            fault = .notInnermost path scope.path)) ∧
      (∀ t again, s.closeInPlace path = (t, .ok again) ↔ s.closeSection path = .ok (again, t)) ∧
      ∀ calls, ∃ upper, (s.afterAll calls).contexts = upper ++ [s.root] := by
  refine ⟨?_, fun h => ?_, fun h body hbody => ⟨close_inverted h hbody, balanced_inverted h hbody⟩,
    fun _ h => ⟨snd_openSection_of_not h, balanced_opening h⟩,
    ⟨.nil s, fun _ _ h hmore => h.append hmore⟩, fun _ _ => closeInPlace_eq_error_iff,
    fun t again => ?_, fun calls => ?_⟩
  · rw [fst_openSection, fst_openSection]
    cases (contextsOf (s.get? path)).isEmpty <;> simp
  · have hdata : contextsOf (s.get? path) ≠ [] := by
      rw [fst_openSection, decide_eq_true_eq, List.isEmpty_eq_false_iff] at h
      exact h
    obtain ⟨v, hv, hvs⟩ := exists_of_contextsOf_ne_nil hdata
    exact ⟨v, _, hv, hdata, hvs, runsWith h⟩
  · rw [closeInPlace_eq]
    cases s.closeSection path with
    | error fault => simp
    | ok result =>
      obtain ⟨again', t'⟩ := result
      simp [and_comm]
  · rw [contexts, root_afterAll]
    exact ⟨_, rfl⟩

/-- A section with two items, in whose first pass an inverted section is opened and closed and the
wrong section is closed. -/
theorem keepsDiscipline_on_list :
    ∃ (root first second : Value) (list missing : Path) (t : Scopes),
      (ofRoot root).get? list = some (.list [first, second]) ∧
        ((ofRoot root).openSection false list).1 = true ∧
          ((ofRoot root).openSection false list).2.Balanced
              [.opening true missing, .closing list, .closing missing] ∧
            (((ofRoot root).openSection false list).2.afterAll
                [.opening true missing, .closing list, .closing missing]).closeInPlace list =
              (t, .ok true) ∧
            t.contexts = [second, root] ∧ t.closeInPlace list = (ofRoot root, .ok false) := by
  let first : Value := .map [("x", .string "1")]
  let second : Value := .map [("x", .string "2")]
  let root : Value := .map [("list", .list [first, second])]
  let list : Path := ⟨["list"], by decide⟩
  let missing : Path := ⟨["missing"], by decide⟩
  let body : List Call := [.opening true missing, .closing list, .closing missing]
  have hget : (ofRoot root).get? list = some (.list [first, second]) := rfl
  have hruns : ((ofRoot root).openSection false list).1 = true := by decide +kernel
  have hbody : ((ofRoot root).openSection false list).2.Balanced body :=
    ⟨⟨by decide +kernel, by decide +kernel, trivial⟩, by decide +kernel⟩
  obtain ⟨v, vs, hv, -, hvs, hrun⟩ := ((ofRoot root).keepsDiscipline list).2.1 hruns
  obtain rfl : .list [first, second] = v := Option.some.inj (hget.symm.trans hv)
  obtain rfl : vs = [first, second] := by
    rcases hvs with ⟨items, hitems, rfl⟩ | ⟨hother, -⟩
    · cases hitems
      rfl
    · exact absurd rfl (hother _)
  have hfirst := InPass.first hruns
  obtain ⟨t, hagain⟩ := hrun.again _ _ _ hfirst body hbody (by decide)
  have hsecond := hfirst.next hbody hagain
  obtain ⟨-, w, hw, hcontexts⟩ := hrun.contexts_eq _ _ _ hsecond
  cases hw
  exact ⟨root, first, second, list, missing, t, hget, hruns, hbody, hagain, hcontexts,
    (hrun.last _ _ _ hsecond [] (.nil t) rfl).1⟩

end Scopes

end Stencil
