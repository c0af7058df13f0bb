import Mathlib.Tactic.Lemma
import Stencil.Proofs.Code.Changes
import Stencil.Proofs.Code.Endings
import Stencil.Proofs.Engine.Links
import Stencil.Proofs.Text.Spacing

/-!
# Programs without their indentations

The indentation of an inclusion is what stands in front of the tag on its line, if nothing but
blanks does, and no line break can stand there. So compiled programs indent with spaces and tabs
only.

## Main definitions

* `Instr.unindented`, `Sequence.unindented`, `Program.unindented` — without indentations.
* `Instr.IndentsOnly`, `Sequence.IndentsOnly`, `Program.IndentsOnly` — code that indents with spaces
  and tabs.

## Main results

* `Program.IsSequenced.unindented` — a program without its indentations is sequenced.
* `Engine.compile_indentsOnly` — compiled programs indent with spaces and tabs.
-/

namespace Stencil

open Stencil.Text Stencil.Markup

/-! ## Taking indentations away -/

namespace Instr

/-- The instruction without the indentation of what it includes. -/
def unindented : Instr → Instr
  | enter name _ => enter name ""
  | i => i

/-- The instruction indents what it includes with spaces and tabs. -/
def IndentsOnly : Instr → Prop
  | enter _ indent => Indents indent.toList
  | _ => True

/-- The ends of sections have no indentation. -/
lemma keepsSections_unindented : KeepsSections unindented where
  ends := by
    intro i path h
    cases i <;> first | rfl | cases h
  others := by
    intro i h
    cases i <;> first | rfl | cases h

/-- The targets do not matter for the indentations. -/
lemma indentsOnly_stored_iff {i : Instr} : i.stored.IndentsOnly ↔ i.IndentsOnly := by
  cases i <;> rfl

end Instr

/-- The sequence without the indentations of what it includes. -/
def Sequence.unindented (s : Sequence) : Sequence := s.change Instr.unindented

/-- The sequence indents with spaces and tabs. -/
def Sequence.IndentsOnly (s : Sequence) : Prop := ∀ i ∈ s.instrs, i.IndentsOnly

namespace Program

variable {p : Program}

/-- The program without the indentations of what it includes, in its own sequence and in all
others. -/
def unindented (p : Program) : Program :=
  ⟨p.source, p.main.unindented, p.partials.map Sequence.unindented⟩

/-- The program indents with spaces and tabs. -/
def IndentsOnly (p : Program) : Prop := ∀ s ∈ p.sequences, s.IndentsOnly

/-- The sequences of a program without its indentations. -/
lemma sequences_unindented (p : Program) :
    p.unindented.sequences = p.sequences.map Sequence.unindented := by
  simp [sequences, unindented, Table.map]

/-- **A program without its indentations is sequenced**, if the program is. -/
theorem IsSequenced.unindented (hp : p.IsSequenced) : p.unindented.IsSequenced := by
  intro s hs
  rw [sequences_unindented] at hs
  obtain ⟨t, ht, rfl⟩ := List.mem_map.1 hs
  exact Instr.keepsSections_unindented.isFinished (hp t ht)

end Program

/-! ## The indentations of compiled programs -/

/-- In front of a tag that takes its logical line with it are spaces and tabs. -/
lemma indents_leading {ts line : List Token} (hline : line ∈ logicalLines ts) {tag : Tag}
    (hsole : soleTag? (line.map Token.mark) = some tag) :
    Indents (leading (line.map Token.mark)) := by
  have hunbroken := unbroken_leading hline hsole
  have hblank : ((line.map Token.mark).filterMap Sum.getLeft?).all isBlank = true := by
    unfold soleTag? at hsole
    split at hsole
    · split at hsole
      · rename_i hboth
        exact (Bool.and_eq_true _ _ ▸ hboth).2
      · cases hsole
    · cases hsole
  intro c hc
  have hall : c ∈ (line.map Token.mark).filterMap Sum.getLeft? :=
    ((List.takeWhile_sublist _).filterMap _).subset hc
  have hc' := List.all_eq_true.1 hblank c hall
  have hbreak := hunbroken c hc
  -- a blank that is no line break
  simp only [isBlank, isBreak, isIndenting, Bool.or_eq_true, decide_eq_true_eq,
    Bool.or_eq_false_iff, decide_eq_false_iff_not] at hc' hbreak ⊢
  tauto

/-- What a translation includes is not indented, or it is indented by what stands in front of a tag
that takes its logical line with it. -/
lemma indent_of_enter_mem_translation {ts : List Token} {name indent : String}
    (h : .enter name indent ∈ translation ts) :
    indent = "" ∨ ∃ line ∈ logicalLines ts, ∃ tag, soleTag? (line.map Token.mark) = some tag ∧
      indent = String.ofList (leading (line.map Token.mark)) := by
  rcases mem_translation h with ⟨content, hcontent⟩ | ⟨line, hline, hmem⟩
  · cases hcontent
  · obtain ⟨front, tag, htag, hfront⟩ := exists_tag_of_mem_contribution hmem
    obtain rfl : String.ofList front = indent := by
      cases tag <;> cases htag
      rfl
    rcases hfront with rfl | ⟨hsole, rfl⟩
    · exact .inl rfl
    · exact .inr ⟨line, hline, tag, hsole, rfl⟩

/-- A translation indents with spaces and tabs. -/
lemma indentsOnly_of_mem_translation {ts : List Token} {i : Instr} (hi : i ∈ translation ts) :
    i.IndentsOnly := by
  cases i with
  | enter name indent =>
    rcases indent_of_enter_mem_translation hi with rfl | ⟨line, hline, tag, hsole, rfl⟩
    · exact List.forall_mem_nil _
    · rw [Instr.IndentsOnly, String.toList_ofList]
      exact indents_leading hline hsole
  | text content => trivial
  | interpolate escaped path => trivial
  | openSection inverted path target => trivial
  | closeSection path target => trivial

/-- The code of a template indents with spaces and tabs. -/
lemma Draft.indentsOnly {cs : List Char} {s : Sequence}
    (hs : (Draft.ofText cs).outcome = .ok s) : s.IndentsOnly := by
  obtain ⟨ts, -, -, hstored⟩ := outcome_eq_translation hs
  intro i hi
  have hmem : i.stored ∈ translation ts := by
    rw [← hstored]
    exact List.mem_map_of_mem (Array.mem_toList_iff.2 hi)
  exact Instr.indentsOnly_stored_iff.1 (indentsOnly_of_mem_translation hmem)

/-- **Compiled programs indent with spaces and tabs.** -/
theorem Engine.compile_indentsOnly {e : Engine} {own : Option String} {source : String}
    {p : Program} (h : (e.compile own source).outcome = .ok p) : p.IndentsOnly := by
  intro s hs
  obtain ⟨text, -, hdraft⟩ := exists_draft h hs
  exact Draft.indentsOnly hdraft

end Stencil
