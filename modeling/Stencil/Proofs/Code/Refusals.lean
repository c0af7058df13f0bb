import Mathlib.Data.List.Induction
import Mathlib.Tactic.Lemma
import Stencil.Fault
import Stencil.Proofs.Code.Untrusted
import Stencil.Proofs.Markup.Appending

/-!
# What a builder refuses

An instruction does not fit a builder if it closes a section that is not the innermost one. Such an
instruction is not added, and a list of instructions with one that does not fit is not added
either: those before it are taken back. So a list makes a sequence or there is a first closing in
it that goes astray, unless the list ends too early, and the fault tells which of these it is.

## Main definitions

* `Builder.IsReached` — a builder after calls in place, of which any may have failed.
* `Builder.Takes`, `Builder.Refuses` — instructions that are added one by one, and those of which
  one does not fit.
* `LeavesOpen` — the sections that some section ends leave open.
* `StraysAt`, `Misnested` — a closing that goes astray, and what is wrong with a list.

## Main results

* `Builder.IsReached.keeps_or_takes` — a builder is left as it was, or takes every instruction.
* `leavesOpen_iff_unwind` — the sections that are left open are those that a builder would note.
* `Sequence.ofList_eq_error_iff` — why a list of instructions makes no sequence.
* `Sequence.ofList_judges` — which lists make a sequence, and what is said about the others.
-/

namespace Stencil

open Stencil.Markup

/-! ## One instruction -/

namespace Builder

variable {b b' c : Builder} {i : Instr} {is : List Instr} {fault : NestingFault}

/-- Adding an instruction in place, compared with adding it to a copy. -/
lemma pushInPlace_eq (b : Builder) (i : Instr) :
    b.pushInPlace i =
      match b.push i with
      | .ok b' => (b', .ok b.instrs.size)
      | .error fault => (b, .error fault) := by
  cases i with
  | closeSection path target =>
    unfold pushInPlace closeInPlace push
    cases hopened : b.opened with
    | nil => simp
    | cons o outer =>
      obtain ⟨expected, start⟩ := o
      by_cases hpath : expected = path
      · simp [hpath]
      · simp [hpath]
  | openSection inverted path target => rfl
  | text content => rfl
  | interpolate escaped path => rfl
  | enter name indent => rfl

/-- An instruction that fits is added, and its index is that of the last instruction. -/
lemma pushInPlace_eq_ok_iff {index : Nat} :
    b.pushInPlace i = (b', .ok index) ↔ b.push i = .ok b' ∧ b.instrs.size = index := by
  rw [pushInPlace_eq]
  cases b.push i with
  | ok c => simp
  | error fault => simp

/-- An instruction that does not fit changes nothing. -/
lemma pushInPlace_eq_error_iff :
    b.pushInPlace i = (b', .error fault) ↔ b.push i = .error fault ∧ b' = b := by
  rw [pushInPlace_eq]
  cases b.push i with
  | ok c => simp
  | error other => simp [and_comm, eq_comm]

/-- **What does not fit**: the closing of a section that is not the innermost one. -/
lemma push_eq_error_iff :
    b.push i = .error fault ↔
      ∃ path target, i = .closeSection path target ∧
        (b.paths = [] ∧ fault = .unopened path ∨
          ∃ expected outer, b.paths = expected :: outer ∧ expected ≠ path ∧
            fault = .mismatched expected path) := by
  cases i with
  | closeSection path target =>
    unfold push paths
    cases hopened : b.opened with
    | nil => simp [eq_comm (a := fault)]
    | cons o outer =>
      obtain ⟨expected, start⟩ := o
      by_cases hpath : expected = path
      · simp [hpath]
      · simp [hpath, eq_comm (a := fault)]
  | openSection inverted path target => simp [push]
  | text content => simp [push]
  | interpolate escaped path => simp [push]
  | enter name indent => simp [push]

/-! ## Lists of instructions -/

/-- The instructions are added one by one, and each of them fits. -/
inductive Takes : Builder → List Instr → Builder → Prop where
  | nil {b : Builder} : Takes b [] b
  | cons {b b' c : Builder} {i : Instr} {is : List Instr} :
      b.pushInPlace i = (b', .ok b.instrs.size) → Takes b' is c → Takes b (i :: is) c

/-- One of the instructions does not fit behind those before it. -/
def Refuses (b : Builder) (is : List Instr) (fault : NestingFault) : Prop :=
  ∃ front i rest c, is = front ++ i :: rest ∧ b.Takes front c ∧
    c.pushInPlace i = (c, .error fault)

/-- Instructions that are added one by one to a builder, compared with a list added to a copy. -/
lemma takes_iff : b.Takes is c ↔ b.extend is = .ok c := by
  constructor
  · intro h
    induction h with
    | nil => rfl
    | cons hi _ ih =>
      rw [extend_cons, (pushInPlace_eq_ok_iff.1 hi).1]
      exact ih
  · intro h
    induction is generalizing b with
    | nil =>
      cases h
      exact .nil
    | cons i is ih =>
      obtain ⟨b', hi, his⟩ := exists_of_bind_eq_ok h
      exact .cons (pushInPlace_eq_ok_iff.2 ⟨hi, rfl⟩) (ih his)

/-- Adding instructions until one of them does not fit is adding the first one in place, and then
the others if it fits. -/
lemma pushAll_cons (b : Builder) (i : Instr) (is : List Instr) :
    b.pushAll (i :: is) =
      match b.pushInPlace i with
      | (b', .ok _) => b'.pushAll is
      | (b', .error fault) => (b', some fault) := by
  rw [pushAll, pushInPlace_eq]
  cases b.push i with
  | ok b' => rfl
  | error fault => rfl

/-- All instructions fit, one by one. -/
lemma pushAll_eq_none_iff : b.pushAll is = (c, none) ↔ b.Takes is c := by
  have hall := pushAll_eq b is
  rw [takes_iff]
  cases hextend : b.extend is with
  | ok b' =>
    rw [hextend] at hall
    simp [hall]
  | error fault =>
    rw [hextend] at hall
    constructor
    · intro h
      simp [h] at hall
    · intro h
      cases h

/-- Instructions are added until one of them does not fit. -/
lemma exists_pushAll_iff :
    (∃ c, b.pushAll is = (c, some fault)) ↔ b.Refuses is fault := by
  constructor
  · rintro ⟨c, h⟩
    induction is generalizing b with
    | nil => simp [pushAll] at h
    | cons i is ih =>
      rw [pushAll_cons, pushInPlace_eq] at h
      cases hi : b.push i with
      | error other =>
        rw [hi] at h
        cases h
        exact ⟨[], i, is, _, rfl, .nil, pushInPlace_eq_error_iff.2 ⟨hi, rfl⟩⟩
      | ok b' =>
        rw [hi] at h
        obtain ⟨front, j, rest, d, rfl, hfront, hj⟩ := ih h
        exact ⟨i :: front, j, rest, d, rfl, .cons (pushInPlace_eq_ok_iff.2 ⟨hi, rfl⟩) hfront, hj⟩
  · rintro ⟨front, i, rest, c, rfl, hfront, hi⟩
    refine ⟨c, ?_⟩
    induction hfront with
    | nil => rw [List.nil_append, pushAll_cons, hi]
    | cons hj _ ih =>
      rw [List.cons_append, pushAll_cons, hj]
      exact ih hi

/-- A list of which all instructions fit is added. -/
lemma extendInPlace_eq_none_iff : b.extendInPlace is = (c, none) ↔ b.Takes is c := by
  rw [← pushAll_eq_none_iff, extendInPlace]
  obtain ⟨b', fault?⟩ := b.pushAll is
  cases fault? <;> simp

/-! ## Builders that stay in use -/

/-- The builder is a new one after some calls in place, of which any may have failed. -/
inductive IsReached : Builder → Prop where
  | new : IsReached empty
  | push {b : Builder} : IsReached b → (i : Instr) → IsReached (b.pushInPlace i).1
  | extend {b : Builder} : IsReached b → (is : List Instr) → IsReached (b.extendInPlace is).1

namespace IsReached

/-- A builder that stays in use has a shape. -/
lemma exists_shape (h : b.IsReached) : ∃ levels here, b.Shape levels here := by
  have hpush : ∀ (b : Builder) (i : Instr) (b' : Builder),
      (∃ levels here, b.Shape levels here) → b.push i = .ok b' →
        ∃ levels here, b'.Shape levels here := by
    rintro b i b' ⟨levels, here, hshape⟩ hi
    exact hshape.push hi
  induction h with
  | new => exact ⟨[], [], .empty⟩
  | @push b _ i ih =>
    rw [pushInPlace_eq]
    cases hi : b.push i with
    | ok b' => exact hpush b i b' ih hi
    | error fault => exact ih
  | @extend b _ is ih =>
    rw [extendInPlace_eq ih]
    cases his : b.extend is with
    | ok b' =>
      exact extend_preserves (P := fun b => ∃ levels here, b.Shape levels here) hpush ih his
    | error fault => exact ih

/-- **A list with an instruction that does not fit is taken back**, and the builder is what it was.

**Proof sketch.** A builder that stays in use has a shape, so none of its open sections has a
target. The instructions in front of the one that does not fit stand behind those of the builder,
and with them only openings of open sections can have changed. -/
lemma extendInPlace_eq_some_iff (h : b.IsReached) :
    b.extendInPlace is = (c, some fault) ↔ c = b ∧ b.Refuses is fault := by
  obtain ⟨levels, here, hshape⟩ := h.exists_shape
  have hextends : b.Extends (b.pushAll is).1 :=
    extends_pushAll is ⟨levels, here, hshape⟩ (Extends.refl hshape)
  rw [← exists_pushAll_iff, extendInPlace]
  cases hall : b.pushAll is with
  | mk b' fault? =>
    rw [hall] at hextends
    cases fault? with
    | none => simp
    | some other => simp [hextends.rollback_eq, eq_comm]

/-- **All or nothing.** A builder that stays in use takes a list of instructions exactly if it
takes them one by one, and is then the same as behind the last of them. If it does not take them it
is exactly what it was before, with all instructions, their targets and the open sections; that is
so exactly if one of the instructions does not fit behind those before it, and that fault is told.
An instruction that does not fit changes nothing either. -/
theorem keeps_or_takes (h : b.IsReached) :
    (∀ is c, b.extendInPlace is = (c, none) ↔ b.Takes is c) ∧
      (∀ is c fault, b.extendInPlace is = (c, some fault) ↔ c = b ∧ b.Refuses is fault) ∧
      ∀ i c fault, b.pushInPlace i = (c, .error fault) → c = b := by
  refine ⟨fun _ _ => extendInPlace_eq_none_iff, fun _ _ _ => h.extendInPlace_eq_some_iff, ?_⟩
  intro i c fault hi
  exact (pushInPlace_eq_error_iff.1 hi).2

end IsReached

/-- A list of instructions closes a section that was opened before it, and then does not fit; the
builder is as it was, and takes the closing on its own. -/
theorem keeps_or_takes_on_closed :
    ∃ (a : Path) (b c : Builder), b.IsReached ∧
      b.instrs = #[.openSection false a Instr.unresolved] ∧ b.opened = [(a, 0)] ∧
        b.extendInPlace [.text "x", .closeSection a 0, .closeSection a 0] =
            (b, some (.unopened a)) ∧
          b.extendInPlace [.closeSection a 7] = (c, none) ∧ b.Takes [.closeSection a 7] c ∧
            c.instrs = #[.openSection false a 1, .closeSection a 0] := by
  let a : Path := ⟨["a"], by decide⟩
  let b : Builder := (empty.pushInPlace (.openSection false a 3)).1
  have hreached : b.IsReached := IsReached.new.push _
  have hfault : (b.extendInPlace [.text "x", .closeSection a 0, .closeSection a 0]).2 =
      some (.unopened a) := by decide +kernel
  have hnone : (b.extendInPlace [.closeSection a 7]).2 = none := by decide +kernel
  refine ⟨a, b, (b.extendInPlace [.closeSection a 7]).1, hreached, by decide +kernel,
    by decide +kernel, ?_, Prod.ext rfl hnone, ?_, by decide +kernel⟩
  · obtain ⟨hkept, -⟩ := (hreached.keeps_or_takes.2.1 _ _ _).1 (Prod.ext rfl hfault)
    exact Prod.ext hkept hfault
  · exact (hreached.keeps_or_takes.1 _ _).1 (Prod.ext rfl hnone)

end Builder

/-! ## Sections that are left open -/

/-- The section ends leave some sections open, given innermost first: they hold an opening for each
of these, and what stands in front of the first opening, and behind each of them as far as the next
one, is nested. -/
inductive LeavesOpen : List SectionEnd → List Path → Prop where
  | nested {es : List SectionEnd} : Nested es → LeavesOpen es []
  | opening {es inner : List SectionEnd} {outer : List Path} {path : Path} : LeavesOpen es outer →
      Nested inner → LeavesOpen (es ++ .opening path :: inner) (path :: outer)

section LeavesOpen

variable {es inner : List SectionEnd} {stack : List Path}

/-- Nested section ends leave no further section open. -/
lemma LeavesOpen.append_nested (h : LeavesOpen es stack) (hinner : Nested inner) :
    LeavesOpen (es ++ inner) stack := by
  cases h with
  | nested hes => exact .nested (hes.append hinner)
  | opening houter hbefore =>
    rw [List.append_assoc, List.cons_append]
    exact .opening houter (hbefore.append hinner)

/-- **The sections that are left open** are those that are found by going through the section ends
one by one.

**Proof sketch.** From left to right each opening is put on the others, and what is nested changes
nothing. The other way round by induction on the section ends, from the last one: an opening leaves
one more section open, and a closing ends the innermost one, which is then nested. -/
theorem leavesOpen_iff_unwind (es : List SectionEnd) (stack : List Path) :
    LeavesOpen es stack ↔ unwind [] es = some stack := by
  constructor
  · intro h
    induction h with
    | nested hes => exact hes.unwind_eq []
    | opening _ hinner ih => rw [unwind_append, ih, Option.bind_some, unwind, hinner.unwind_eq]
  · intro h
    induction es using List.reverseRecOn generalizing stack with
    | nil =>
      obtain rfl := Option.some.inj h
      exact .nested .nil
    | append_singleton es e ih =>
      rw [unwind_append] at h
      obtain ⟨before, hbefore, he⟩ := Option.bind_eq_some_iff.1 h
      have hopen := ih before hbefore
      cases e with
      | opening path =>
        obtain rfl := Option.some.inj he
        exact .opening hopen .nil
      | closing path =>
        cases hopen with
        | nested hes => cases he
        | @opening es inner outer expected houter hinner =>
          rw [unwind] at he
          split at he
          · rename_i hpath
            subst hpath
            obtain rfl := Option.some.inj he
            have hregion : Nested (.opening expected :: (inner ++ .closing expected :: [])) :=
              .region hinner .nil
            simpa using houter.append_nested hregion
          · cases he

/-- A closing in front of which, and behind which, section ends fit is that of the innermost
section. -/
lemma LeavesOpen.exists_of_closing {front rest : List SectionEnd} {path : Path}
    (h : LeavesOpen (front ++ .closing path :: rest) stack) :
    ∃ outer, LeavesOpen front (path :: outer) := by
  rw [leavesOpen_iff_unwind, unwind_append] at h
  obtain ⟨before, hbefore, hrest⟩ := Option.bind_eq_some_iff.1 h
  cases before with
  | nil => cases hrest
  | cons expected outer =>
    rw [unwind] at hrest
    split at hrest
    · rename_i hpath
      subst hpath
      exact ⟨outer, (leavesOpen_iff_unwind _ _).2 hbefore⟩
    · cases hrest

end LeavesOpen

namespace Builder

variable {b : Builder} {is : List Instr} {stack : List Path}

/-- A new builder takes the instructions whose section ends leave some sections open, and these are
open in it then. -/
lemma exists_takes_iff :
    (∃ b, empty.Takes is b ∧ b.paths = stack) ↔
      LeavesOpen (is.filterMap Instr.sectionEnd?) stack := by
  simp only [takes_iff]
  have hpaths := map_paths_extend empty is
  have hempty : empty.paths = [] := rfl
  rw [leavesOpen_iff_unwind, ← hempty, ← hpaths]
  cases empty.extend is with
  | error fault => simp [Except.toOption]
  | ok b => simp [Except.toOption]

/-- A builder cannot be finished while a section is open, or without instructions. -/
lemma finish_eq_error_iff {fault : NestingFault} :
    b.finish = .error fault ↔
      (∃ path outer, b.paths = path :: outer ∧ fault = .neverClosed path) ∨
        b.paths = [] ∧ b.instrs = #[] ∧ fault = .empty := by
  unfold finish current? paths
  cases hopened : b.opened with
  | nil =>
    by_cases hsize : 0 < b.instrs.size
    · have hne : b.instrs ≠ #[] := by
        intro h
        simp [h] at hsize
      simp [hsize, hne]
    · have hnil : b.instrs = #[] := Array.size_eq_zero_iff.1 (by omega)
      simp [hnil, eq_comm (a := fault)]
  | cons o outer => simp [eq_comm (a := fault)]

/-- A new builder that took no instructions has none. -/
lemma Takes.instrs_eq_nil_iff (h : empty.Takes is b) : b.instrs = #[] ↔ is = [] := by
  have hlength := congrArg List.length (map_stored_extend (takes_iff.1 h))
  simp only [List.length_map, List.length_append, Array.length_toList] at hlength
  rw [← Array.size_eq_zero_iff, ← List.length_eq_zero_iff, hlength]
  simp [empty]

end Builder

/-! ## Lists that make no sequence -/

/-- Behind the front there is a closing of a section that is not the innermost one. The sections
that are open there are given innermost first. -/
structure StraysAt (is front : List Instr) (stack : List Path) (path : Path) : Prop where
  split : ∃ target rest, is = front ++ .closeSection path target :: rest
  leavesOpen : LeavesOpen (front.filterMap Instr.sectionEnd?) stack
  astray : stack.head? ≠ some path

/-- What is wrong with a list of instructions. -/
inductive Misnested (is : List Instr) : NestingFault → Prop where
  /-- A closing has the path of another section than the innermost one. -/
  | mismatched {front : List Instr} {expected found : Path} {outer : List Path} :
      StraysAt is front (expected :: outer) found → Misnested is (.mismatched expected found)
  /-- There is a closing where no section is open. -/
  | unopened {front : List Instr} {found : Path} :
      StraysAt is front [] found → Misnested is (.unopened found)
  /-- No closing goes astray, but some sections are left open. -/
  | neverClosed {path : Path} {outer : List Path} :
      LeavesOpen (is.filterMap Instr.sectionEnd?) (path :: outer) → Misnested is (.neverClosed path)
  /-- There is no instruction. -/
  | empty : is = [] → Misnested is .empty

namespace StraysAt

variable {is front : List Instr} {stack : List Path} {path : Path}

/-- **The first closing that goes astray is the one that is found**: each closing before it is that
of the innermost section. -/
lemma exists_of_earlier (h : StraysAt is front stack path) {earlier rest : List Instr}
    {other : Path} {target : Nat} (hsplit : front = earlier ++ .closeSection other target :: rest) :
    ∃ outer, LeavesOpen (earlier.filterMap Instr.sectionEnd?) (other :: outer) := by
  have hends : front.filterMap Instr.sectionEnd? =
      earlier.filterMap Instr.sectionEnd? ++
        .closing other :: rest.filterMap Instr.sectionEnd? := by
    rw [hsplit, List.filterMap_append]
    rfl
  have hopen := h.leavesOpen
  rw [hends] at hopen
  exact hopen.exists_of_closing

/-- Where a closing goes astray, the builder refuses it. -/
lemma refuses (h : StraysAt is front stack path) {fault : NestingFault}
    (hfault : stack = [] ∧ fault = .unopened path ∨
      ∃ expected outer, stack = expected :: outer ∧ expected ≠ path ∧
        fault = .mismatched expected path) :
    Builder.empty.Refuses is fault := by
  obtain ⟨target, rest, rfl⟩ := h.split
  obtain ⟨b, hb, rfl⟩ := Builder.exists_takes_iff.2 h.leavesOpen
  have hpush : b.push (.closeSection path target) = .error fault :=
    Builder.push_eq_error_iff.2 ⟨path, target, rfl, hfault⟩
  exact ⟨front, _, rest, b, rfl, hb, Builder.pushInPlace_eq_error_iff.2 ⟨hpush, rfl⟩⟩

/-- A list with a closing that goes astray is misnested, with this closing. -/
lemma exists_misnested (h : StraysAt is front stack path) :
    ∃ fault, Misnested is fault ∧ fault.kind = .sectionMismatch := by
  cases stack with
  | nil => exact ⟨_, .unopened h, rfl⟩
  | cons expected outer => exact ⟨_, .mismatched h, rfl⟩

end StraysAt

/-- A misnesting is a mismatch of sections or a breach of the contract, and it is a mismatch only
where a closing goes astray. -/
lemma Misnested.kind {is : List Instr} {fault : NestingFault} (h : Misnested is fault) :
    fault.kind = .sectionMismatch ∧ (∃ front stack path, StraysAt is front stack path) ∨
      fault.kind = .contractViolation ∧
        (is = [] ∨ ∃ path outer, LeavesOpen (is.filterMap Instr.sectionEnd?) (path :: outer)) := by
  cases h with
  | mismatched h => exact .inl ⟨rfl, _, _, _, h⟩
  | unopened h => exact .inl ⟨rfl, _, _, _, h⟩
  | neverClosed h => exact .inr ⟨rfl, .inr ⟨_, _, h⟩⟩
  | empty h => exact .inr ⟨rfl, .inl h⟩

namespace Sequence

variable {is : List Instr} {fault : NestingFault}

/-- A list of instructions is sequenced by adding it to a new builder and finishing that one. -/
lemma ofList_inPlace {b : Builder} {fault? : Option NestingFault}
    (h : Builder.empty.extendInPlace is = (b, fault?)) :
    ofList is = fault?.elim b.finish .error := by
  rw [Builder.extendInPlace_eq ⟨[], [], .empty⟩] at h
  unfold ofList
  cases hextend : Builder.empty.extend is with
  | ok c =>
    rw [hextend] at h
    cases h
    rfl
  | error fault =>
    rw [hextend] at h
    cases h
    rfl

/-- A list of instructions is refused while it is added, or when it is to be finished. -/
lemma ofList_eq_error :
    ofList is = .error fault ↔
      Builder.empty.Refuses is fault ∨
        ∃ b, Builder.empty.Takes is b ∧ b.finish = .error fault := by
  have hrefuses : Builder.empty.Refuses is fault ↔
      Builder.empty.extendInPlace is = (Builder.empty, some fault) := by
    simp [Builder.IsReached.new.extendInPlace_eq_some_iff]
  simp only [hrefuses, ← Builder.extendInPlace_eq_none_iff]
  cases hextend : Builder.empty.extendInPlace is with
  | mk b fault? =>
    rw [ofList_inPlace hextend]
    cases fault? with
    | none => simp
    | some other =>
      obtain ⟨rfl, -⟩ := Builder.IsReached.new.extendInPlace_eq_some_iff.1 hextend
      simp

/-- **Why a list of instructions makes no sequence.** The fault tells of the first closing that goes
astray, with the innermost section if there is one; without such a closing it names the innermost
section that is left open, or there is no instruction.

**Proof sketch.** The instructions in front of the one that does not fit are all taken, and the
sections that are open then are those that their section ends leave open. -/
theorem ofList_eq_error_iff (is : List Instr) (fault : NestingFault) :
    ofList is = .error fault ↔ Misnested is fault := by
  rw [ofList_eq_error]
  constructor
  · rintro (⟨front, i, rest, b, rfl, hfront, hi⟩ | ⟨b, hb, hfinish⟩)
    · obtain ⟨path, target, rfl, hfault⟩ :=
        Builder.push_eq_error_iff.1 (Builder.pushInPlace_eq_error_iff.1 hi).1
      have hopen : LeavesOpen (front.filterMap Instr.sectionEnd?) b.paths :=
        Builder.exists_takes_iff.1 ⟨b, hfront, rfl⟩
      rcases hfault with ⟨hpaths, rfl⟩ | ⟨expected, outer, hpaths, hne, rfl⟩
      · rw [hpaths] at hopen
        exact .unopened ⟨⟨target, rest, rfl⟩, hopen, by simp⟩
      · rw [hpaths] at hopen
        exact .mismatched ⟨⟨target, rest, rfl⟩, hopen, by simpa using hne⟩
    · have hopen : LeavesOpen (is.filterMap Instr.sectionEnd?) b.paths :=
        Builder.exists_takes_iff.1 ⟨b, hb, rfl⟩
      rcases Builder.finish_eq_error_iff.1 hfinish with
        ⟨path, outer, hpaths, rfl⟩ | ⟨-, hinstrs, rfl⟩
      · rw [hpaths] at hopen
        exact .neverClosed hopen
      · exact .empty (hb.instrs_eq_nil_iff.1 hinstrs)
  · intro h
    cases h with
    | mismatched h =>
      have hne := h.astray
      exact .inl (h.refuses (.inr ⟨_, _, rfl, by simpa using hne, rfl⟩))
    | unopened h => exact .inl (h.refuses (.inl ⟨rfl, rfl⟩))
    | neverClosed h =>
      obtain ⟨b, hb, hpaths⟩ := Builder.exists_takes_iff.2 h
      exact .inr ⟨b, hb, Builder.finish_eq_error_iff.2 (.inl ⟨_, _, hpaths, rfl⟩)⟩
    | empty h =>
      subst h
      exact .inr ⟨Builder.empty, .nil, rfl⟩

/-- **Which lists of instructions make a sequence, and what is said about the others.** A list is
sequenced by adding it to a new builder and finishing that. This succeeds exactly if the list is not
empty and its sections are nested. It fails with a mismatch of sections exactly if some closing goes
astray; then every closing before the one that is reported is that of the innermost section. It
fails with a breach of the contract exactly if there is no instruction, or sections are left open,
and the innermost one of these is named.

**Proof sketch.** A builder notes the sections that the section ends so far leave open, so it
refuses the first closing that goes astray and nothing else. -/
theorem ofList_judges (is : List Instr) :
    (∀ b fault?, Builder.empty.extendInPlace is = (b, fault?) →
        ofList is = fault?.elim b.finish .error) ∧
      ((∃ s, ofList is = .ok s) ↔ is ≠ [] ∧ Nested (is.filterMap Instr.sectionEnd?)) ∧
      (∀ fault, ofList is = .error fault ↔ Misnested is fault) ∧
      ((∃ fault, ofList is = .error fault ∧ fault.kind = .sectionMismatch) ↔
        ∃ front stack path, StraysAt is front stack path) ∧
      (∀ front stack path, StraysAt is front stack path →
        ∀ earlier other target rest, front = earlier ++ .closeSection other target :: rest →
          ∃ outer, LeavesOpen (earlier.filterMap Instr.sectionEnd?) (other :: outer)) ∧
      ∀ fault, ofList is = .error fault → (¬∃ front stack path, StraysAt is front stack path) →
        fault.kind = .contractViolation ∧
          (is = [] ∨
            ∃ path outer, LeavesOpen (is.filterMap Instr.sectionEnd?) (path :: outer)) := by
  refine ⟨fun b fault? h => ofList_inPlace h, exists_ofList_iff is, ofList_eq_error_iff is, ?_,
    fun front stack path h earlier other target rest hsplit => h.exists_of_earlier hsplit, ?_⟩
  · constructor
    · rintro ⟨fault, hfault, hkind⟩
      rcases ((ofList_eq_error_iff is fault).1 hfault).kind with ⟨-, hstrays⟩ | ⟨hother, -⟩
      · exact hstrays
      · rw [hkind] at hother
        cases hother
    · rintro ⟨front, stack, path, hstrays⟩
      obtain ⟨fault, hmisnested, hkind⟩ := hstrays.exists_misnested
      exact ⟨fault, (ofList_eq_error_iff is fault).2 hmisnested, hkind⟩
  · intro fault hfault hnone
    rcases ((ofList_eq_error_iff is fault).1 hfault).kind with ⟨-, hstrays⟩ | hbreach
    · exact absurd hstrays hnone
    · exact hbreach

/-- Two sections cross, and behind them there is a further closing that goes astray. -/
theorem ofList_judges_on_crossing :
    ∃ (a b : Path) (front rest : List Instr) (fault : NestingFault),
      StraysAt (front ++ .closeSection a 0 :: rest) front [b, a] a ∧
        ofList (front ++ .closeSection a 0 :: rest) = .error fault ∧
          fault = .mismatched b a ∧ fault.kind = .sectionMismatch := by
  let a : Path := ⟨["a"], by decide⟩
  let b : Path := ⟨["b"], by decide⟩
  let front : List Instr :=
    [.openSection false a 0, .text "x", .openSection true b 0, .openSection false b 0,
      .closeSection b 0]
  let rest : List Instr := [.closeSection b 0]
  have hfront : front.filterMap Instr.sectionEnd? =
      [] ++ .opening a :: [] ++ .opening b :: [.opening b, .closing b] := rfl
  have hopen : LeavesOpen (front.filterMap Instr.sectionEnd?) [b, a] := by
    rw [hfront]
    exact .opening (.opening (.nested .nil) .nil) (.region .nil .nil)
  have hstrays : StraysAt (front ++ .closeSection a 0 :: rest) front [b, a] a :=
    ⟨⟨0, rest, rfl⟩, hopen, by decide⟩
  obtain ⟨-, -, hfault, -⟩ := ofList_judges (front ++ .closeSection a 0 :: rest)
  exact ⟨a, b, front, rest, _, hstrays, (hfault _).2 (.mismatched hstrays), rfl, rfl⟩

end Sequence

end Stencil
