import Mathlib.Tactic.Lemma
import Stencil.Proofs.Code.Insertions
import Stencil.Proofs.Engine.Appending

/-!
# Compiling a template with comments on lines of their own

A line with nothing but a comment can be put in front of any line of a template that compiles. The
template still compiles, and its program has the same main sequence and the same partials. What a
program holds beside its source depends on the sequence of the template only, and this stays.

## Main results

* `Engine.compile_of_outcome_eq` — templates with the same sequence compile to the same code.
* `Engine.compile_insertLine` — such a line leaves what is compiled as it is.
-/

namespace Stencil

open Stencil.Text Stencil.Markup

/-- How the own name of a program is settled does not depend on its source. -/
lemma Program.partials_closing_congr {p q : Program} (hmain : p.main = q.main)
    (hpartials : p.partials = q.partials) (name : Option String) :
    (p.closing name).partials = (q.closing name).partials := by
  have hsequences : p.sequences = q.sequences := by rw [sequences, sequences, hmain, hpartials]
  cases name with
  | none => exact hpartials
  | some own =>
    simp only [closing, hsequences]
    split
    · show p.partials.insert own p.main = q.partials.insert own q.main
      rw [hmain, hpartials]
    · exact hpartials

namespace Engine

variable {e : Engine} {name : Option String}

/-- **Templates with the same sequence compile to the same code.** If one of them compiles, so does
the other one, to the same main sequence and the same partials.

**Proof sketch.** What is included can be told from the sequence, so both need the same templates,
and the partials are the sequences of these. Tables with equal contents are equal. -/
theorem compile_of_outcome_eq {source other : String} {p : Program}
    (hp : (e.compile name source).outcome = .ok p)
    (h : (Draft.ofText other.toList).outcome = (Draft.ofText source.toList).outcome) :
    ∃ q, (e.compile name other).outcome = .ok q ∧ q.main = p.main ∧ q.partials = p.partials := by
  have hneeded := ((e.exists_program_iff name source).1 ⟨p, hp⟩).2
  obtain ⟨main, compiled, hmain, hlinked, rfl⟩ := compile_eq_ok hp
  rw [hmain] at h
  rw [← Draft.included_eq_included_scan hmain, Draft.included_eq_included_scan h] at hneeded
  obtain ⟨q, hq⟩ := (e.exists_program_iff name other).2
    ⟨(Draft.exists_sequence_iff _).1 ⟨main, h⟩, hneeded⟩
  refine ⟨q, hq, ?_⟩
  obtain ⟨main', compiled', hmain', hlinked', rfl⟩ := compile_eq_ok hq
  obtain rfl : main = main' := Except.ok.inj (h.symm.trans hmain')
  obtain rfl : compiled = compiled' := Table.ext_find? fun n => Option.ext fun s => by
    rw [find?_iff_of_linked hlinked, find?_iff_of_linked hlinked']
  rw [Program.main_closing, Program.main_closing]
  exact ⟨rfl, Program.partials_closing_congr (p := ⟨other, main, compiled⟩)
    (q := ⟨source, main, compiled⟩) rfl rfl name⟩

/-- **A line with nothing but a comment leaves what is compiled as it is.** It is put into a
template that compiles, where a line starts and no tag is open. The comment stands between the
delimiters that are active there, however many sections are open, its text may run over many lines,
and blanks may stand beside it. Which tag is open and which pair is active is told by a scan of what
stands in front, and lexing it line by line ends with the same tag and the same pair. The template
still compiles, to the same main sequence and the same partials, also if it is compiled under a name
and includes itself.

**Proof sketch.** The line is one logical line, since nothing is open in front of it and it leaves
nothing open, and the comment takes it along. So the tokens in front and behind are translated as
before, and the characters at the end of what stands in front and at the start of what stands behind
make one text again. -/
theorem compile_insertLine {before after : String} {p : Program}
    (hp : (e.compile name (before ++ after)).outcome = .ok p)
    (hmeet : MeetAtLine before.toList after.toList)
    (houtside : (Scan.ofText before.toList).unclosed = none)
    (line : CommentLine (Scan.ofText before.toList).active.val) :
    ∃ q, (e.compile name (before ++ String.ofList line.chars ++ after)).outcome = .ok q ∧
      q.main = p.main ∧ q.partials = p.partials := by
  obtain ⟨main, -, hmain, -, -⟩ := compile_eq_ok hp
  refine compile_of_outcome_eq hp ?_
  rw [hmain, String.toList_append, String.toList_append, String.toList_ofList, List.append_assoc]
  rw [String.toList_append] at hmain
  exact Draft.outcome_insertLine hmain hmeet houtside line

end Engine

/-- A template that includes itself, with a line in the middle of a section between changed
delimiters. The comment runs over two lines and holds a character of its closer. The text in front
of the line and the text behind it are one text. -/
theorem compile_insertLine_on_section :
    ∃ (e : Engine) (before after : String) (line : CommentLine ⟨['<', '%'], ['%', '>']⟩)
      (p q : Program),
      (Scan.ofText before.toList).active.val = ⟨['<', '%'], ['%', '>']⟩ ∧
      line.lead = ['\t', ' '] ∧ line.text = ['a', '\r', '\n', '>', '%'] ∧ line.tail = [' '] ∧
      (e.compile (some "t") (before ++ after)).outcome = .ok p ∧
      p.main.instrs.toList.map Instr.stored =
        [.openSection false ⟨["s"], by decide⟩ Instr.unresolved, .text "b\nc",
          .closeSection ⟨["s"], by decide⟩ Instr.unresolved, .enter "t" ""] ∧
      p.partials.names = ["t"] ∧
      (e.compile (some "t") (before ++ String.ofList line.chars ++ after)).outcome = .ok q ∧
      q.main = p.main ∧ q.partials = p.partials := by
  let before := "\x7b\x7b=<% %>=\x7d\x7d\n<%#s%>\nb\n"
  let after := "c<%/s%><%>t%>"
  have hactive : (Scan.ofText before.toList).active.val = ⟨['<', '%'], ['%', '>']⟩ := by
    decide +kernel
  let line : CommentLine ⟨['<', '%'], ['%', '>']⟩ :=
    { lead := ['\t', ' '], text := ['a', '\r', '\n', '>', '%'], tail := [' '],
      lead_blank := List.forall_iff_forall_mem.1 (by decide),
      tail_blank := List.forall_iff_forall_mem.1 (by decide),
      closed := cutAt_append_self_iff.1 (by decide +kernel) }
  have hrun : (Engine.empty.compile (some "t") (before ++ after)).outcome.toOption.map
        (fun p => (p.partials.names, p.main.instrs.toList.map Instr.stored)) =
      some (["t"], [.openSection false ⟨["s"], by decide⟩ Instr.unresolved, .text "b\nc",
        .closeSection ⟨["s"], by decide⟩ Instr.unresolved, .enter "t" ""]) := by
    decide +kernel
  obtain ⟨p, hp, hparts⟩ := exists_of_toOption_map_eq_some hrun
  obtain ⟨hnames, hcode⟩ := Prod.mk.inj hparts
  obtain ⟨line', hline⟩ : ∃ line' : CommentLine (Scan.ofText before.toList).active.val,
      line'.chars = line.chars := by
    rw [hactive]
    exact ⟨line, rfl⟩
  obtain ⟨q, hq, hmain, hpartials⟩ := Engine.compile_insertLine hp
    ⟨.inr (by decide +kernel), by decide +kernel⟩ (by decide +kernel) line'
  rw [hline] at hq
  exact ⟨Engine.empty, before, after, line, p, q, hactive, rfl, rfl, rfl, hp, hcode, hnames, hq,
    hmain, hpartials⟩

end Stencil
