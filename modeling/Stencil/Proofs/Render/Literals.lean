import Mathlib.Data.List.Forall2
import Mathlib.Tactic.Lemma
import Stencil.Proofs.Code.Changes
import Stencil.Render.Evaluation

/-!
# Code that differs in its literals

Two lists of instructions may differ in the texts that they write and in the indentations of what
they include, and agree in all else. Their outlines then have the same shape, and evaluating them
with the same data does the same things one by one. So a relation between traces holds of the
evaluations if it is kept in front of each event.

## Main definitions

* `Instr.Matches`, `Node.Matches` — instructions and trees that differ in their literals.
* `Trace.IsKept` — a relation between traces that every event of two templates keeps.
* `EvaluatesAs` — what is evaluated in front of related traces gives related traces.
* `Program.Matches` — a program with all of its instructions changed in their literals.

## Main results

* `outline_matches` — the outlines of lists of instructions that differ in their literals.
* `evalNodes_matches` — the evaluations of trees that differ in their literals.
* `Program.Matches.evaluate` — the evaluations of programs that differ in their literals.
-/

namespace Stencil

/-! ## Instructions and trees -/

section Relations

variable (texts indents : String → String → Prop)

/-- Two instructions that differ in what they write or indent with, and in nothing else. -/
inductive Instr.Matches : Instr → Instr → Prop where
  | text {content content' : String} : texts content content' →
      Matches (.text content) (.text content')
  | interpolate (escaped : Bool) (path : Path) :
      Matches (.interpolate escaped path) (.interpolate escaped path)
  | openSection (inverted : Bool) (path : Path) (target : Nat) :
      Matches (.openSection inverted path target) (.openSection inverted path target)
  | closeSection (path : Path) (target : Nat) :
      Matches (.closeSection path target) (.closeSection path target)
  | enter (name : String) {indent indent' : String} : indents indent indent' →
      Matches (.enter name indent) (.enter name indent')

/-- Two trees that differ in what they write or indent with, and in nothing else. -/
inductive Node.Matches : Node → Node → Prop where
  | text {content content' : String} : texts content content' →
      Matches (.text content) (.text content')
  | interpolate (escaped : Bool) (path : Path) :
      Matches (.interpolate escaped path) (.interpolate escaped path)
  | enter (name : String) {indent indent' : String} : indents indent indent' →
      Matches (.enter name indent) (.enter name indent')
  | region (inverted : Bool) (path : Path) {body body' : List Node} :
      List.Forall₂ Matches body body' →
        Matches (.region inverted path body) (.region inverted path body')

end Relations

variable {texts indents : String → String → Prop}

/-- The trees of instructions that differ in their literals, up to each closing without an
opening. -/
lemma outlineLevels_matches {is is' : List Instr}
    (h : List.Forall₂ (Instr.Matches texts indents) is is') :
    List.Forall₂ (Node.Matches texts indents) (outlineLevels is).1 (outlineLevels is').1 ∧
      List.Forall₂ (List.Forall₂ (Node.Matches texts indents)) (outlineLevels is).2
        (outlineLevels is').2 := by
  induction h with
  | nil => exact ⟨.nil, .nil⟩
  | @cons i i' is is' hi _ ih =>
    obtain ⟨hhere, houter⟩ := ih
    cases hi with
    | text hcontent => exact ⟨.cons (.text hcontent) hhere, houter⟩
    | interpolate escaped path => exact ⟨.cons (.interpolate escaped path) hhere, houter⟩
    | enter name hindent => exact ⟨.cons (.enter name hindent) hhere, houter⟩
    | closeSection path target => exact ⟨.nil, .cons hhere houter⟩
    | openSection inverted path target =>
      simp only [outlineLevels]
      generalize outlineLevels is = levels, outlineLevels is' = levels' at hhere houter ⊢
      obtain ⟨body, outer⟩ := levels
      obtain ⟨body', outer'⟩ := levels'
      cases houter with
      | nil => exact ⟨.cons (.region inverted path hhere) .nil, .nil⟩
      | cons hnext hmore => exact ⟨.cons (.region inverted path hhere) hnext, hmore⟩

/-- **The outlines of lists of instructions that differ in their literals.** -/
theorem outline_matches {is is' : List Instr}
    (h : List.Forall₂ (Instr.Matches texts indents) is is') :
    List.Forall₂ (Node.Matches texts indents) (outline is) (outline is') :=
  (outlineLevels_matches h).1

/-- The outline of a sequence with all of its instructions changed in their literals. -/
lemma Sequence.outline_change {s : Sequence} {g : Instr → Instr}
    (h : ∀ i ∈ s.instrs, i.Matches texts indents (g i)) :
    List.Forall₂ (Node.Matches texts indents) s.outline (s.change g).outline := by
  refine outline_matches ?_
  have hlist : (s.change g).instrs.toList = s.instrs.toList.map g := Array.toList_map
  rw [hlist, List.forall₂_map_right_iff]
  exact List.forall₂_same.2 fun i hi => h i (Array.mem_toList_iff.1 hi)

/-! ## Evaluation by structure -/

/-- What is evaluated in front of related traces gives related traces. -/
def EvaluatesAs (T : Trace → Trace → Prop) (body body' : List Value → Rest → Trace) : Prop :=
  ∀ contexts after after', T (after ()) (after' ()) →
    T (body contexts after) (body' contexts after')

/-- **A relation between traces that every event of two templates keeps**: the templates have the
given indentations, and their texts are related by `texts`. -/
structure Trace.IsKept (T : Trace → Trace → Prop) (texts : String → String → Prop)
    (indent indent' : String) : Prop where
  text : ∀ {content content' : String} {rest rest' : Unit → Trace}, texts content content' →
    T (rest ()) (rest' ()) →
      T (.event (.text indent (Cursor.indented indent content)) rest)
        (.event (.text indent' (Cursor.indented indent' content')) rest')
  value : ∀ (escaped : Bool) (v? : Option Value) {rest rest' : Unit → Trace},
    T (rest ()) (rest' ()) →
      T (.event (.value indent escaped v?) rest) (.event (.value indent' escaped v?) rest')
  opened : ∀ (inverted : Bool) (path : Path) (runs : Bool) {rest rest' : Unit → Trace},
    T (rest ()) (rest' ()) →
      T (.event (.opened inverted path runs) rest) (.event (.opened inverted path runs) rest')
  closed : ∀ (path : Path) (again : Bool) {rest rest' : Unit → Trace}, T (rest ()) (rest' ()) →
    T (.event (.closed path again) rest) (.event (.closed path again) rest')

section evalNodes

variable {T : Trace → Trace → Prop} {indent indent' : String} {inclusion inclusion' : Inclusion}

/-- The runs of a section are related if those of its body are. -/
lemma EvaluatesAs.runRegion {path : Path} {body body' : List Value → Rest → Trace}
    (hkept : Trace.IsKept T texts indent indent') (hbody : EvaluatesAs T body body')
    (contexts vs : List Value) {after after' : Rest} (hafter : T (after ()) (after' ())) :
    T (runRegion path body contexts vs after) (runRegion path body' contexts vs after') := by
  induction vs with
  | nil => exact hafter
  | cons v left ih => exact hbody _ _ _ (hkept.closed path _ ih)

mutual

/-- The evaluations of two trees are related, if those of what is included are. -/
lemma evalNode_matches (hkept : Trace.IsKept T texts indent indent')
    (hincl : ∀ name more more', indents more more' →
      EvaluatesAs T (inclusion name (indent ++ more)) (inclusion' name (indent' ++ more'))) :
    (n n' : Node) → n.Matches texts indents n' →
      EvaluatesAs T (evalNode inclusion indent n) (evalNode inclusion' indent' n')
  | .text _, _, .text hcontent, _, _, _, hafter => hkept.text hcontent hafter
  | .interpolate _ _, _, .interpolate escaped _, _, _, _, hafter =>
    hkept.value escaped _ hafter
  | .enter _ _, _, .enter name hmore, contexts, after, after', hafter =>
    hincl name _ _ hmore contexts after after' hafter
  | .region _ _ body, .region _ _ body', .region inverted path hbodies, contexts, after, after',
      hafter => by
    have hbody := evalNodes_matches hkept hincl body body' hbodies
    simp only [evalNode]
    split
    · refine hkept.opened inverted path true ?_
      split
      · exact hbody _ _ _ (hkept.closed path false hafter)
      · exact hbody.runRegion hkept contexts _ hafter
    · exact hkept.opened inverted path false hafter

/-- **The evaluations of lists of trees that differ in their literals** are related, if those of
what is included are. -/
theorem evalNodes_matches (hkept : Trace.IsKept T texts indent indent')
    (hincl : ∀ name more more', indents more more' →
      EvaluatesAs T (inclusion name (indent ++ more)) (inclusion' name (indent' ++ more'))) :
    (ns ns' : List Node) → List.Forall₂ (Node.Matches texts indents) ns ns' →
      EvaluatesAs T (evalNodes inclusion indent ns) (evalNodes inclusion' indent' ns')
  | [], _, .nil, _, _, _, hafter => hafter
  | n :: ns, n' :: ns', .cons hfirst hrest, contexts, after, after', hafter =>
    evalNode_matches hkept hincl n n' hfirst contexts _ _
      (evalNodes_matches hkept hincl ns ns' hrest contexts after after' hafter)

end

end evalNodes

/-! ## Programs -/

/-- The second program is the first one with all of its instructions changed, in their literals
only. -/
structure Program.Matches (texts indents : String → String → Prop) (g : Instr → Instr)
    (p p' : Program) : Prop where
  main : p'.main = p.main.change g
  partials : ∀ name, p'.partials.find? name = (p.partials.find? name).map (Sequence.change g)
  instrs : ∀ s ∈ p.sequences, ∀ i ∈ s.instrs, i.Matches texts indents (g i)

namespace Program.Matches

variable {g : Instr → Instr} {p p' : Program} {T : Trace → Trace → Prop}

/-- The evaluations of a sequence and of the changed one are related at any depth, if a template may
be indented in both ways, and so may the templates in it. -/
lemma evalAt (h : Program.Matches texts indents g p p')
    (hended : ∀ fault, T (.ended fault) (.ended fault))
    (hkept : ∀ {indent indent'}, indents indent indent' → Trace.IsKept T texts indent indent')
    (happend : ∀ {indent indent' more more'}, indents indent indent' → indents more more' →
      indents (indent ++ more) (indent' ++ more')) (limit left : Nat) :
    ∀ s ∈ p.sequences, ∀ indent indent', indents indent indent' →
      EvaluatesAs T (Stencil.evalAt p limit left s indent)
        (Stencil.evalAt p' limit left (s.change g) indent') := by
  induction left with
  | zero =>
    intro s hs indent indent' hindent
    refine evalNodes_matches (hkept hindent) ?_ _ _ (Sequence.outline_change (h.instrs s hs))
    intro name more more' _ contexts after after' _
    exact hended _
  | succ left ih =>
    intro s hs indent indent' hindent
    refine evalNodes_matches (hkept hindent) ?_ _ _ (Sequence.outline_change (h.instrs s hs))
    intro name more more' hmore
    have hnested := happend hindent hmore
    rw [h.partials name]
    cases hfound : p.partials.find? name with
    | none => exact ih s hs _ _ hnested
    | some t => exact ih t (mem_sequences.2 (.inr ⟨name, hfound⟩)) _ _ hnested

/-- **The evaluations of programs that differ in their literals** are related, if every event keeps
the relation and the same ends are related. -/
theorem evaluate (h : Program.Matches texts indents g p p')
    (hended : ∀ fault, T (.ended fault) (.ended fault))
    (hkept : ∀ {indent indent'}, indents indent indent' → Trace.IsKept T texts indent indent')
    (happend : ∀ {indent indent' more more'}, indents indent indent' → indents more more' →
      indents (indent ++ more) (indent' ++ more')) (hempty : indents "" "") (limit : Nat)
    (root : Value) : T (p.evaluate limit root) (p'.evaluate limit root) := by
  rw [Program.evaluate, Program.evaluate, h.main]
  exact h.evalAt hended hkept happend limit limit p.main List.mem_cons_self "" "" hempty [root] _ _
    (hended none)

end Program.Matches

end Stencil
