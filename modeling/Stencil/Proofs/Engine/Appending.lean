import Mathlib.Tactic.Lemma
import Stencil.Proofs.Code.Appending
import Stencil.Proofs.Engine.Acceptance

/-!
# Compiling two templates in a row

If two templates compile, and the first one ends with a line and leaves the standard pair active,
then both in a row compile as well. The main sequence is made from the instructions of both, and
the partials are those of both: what is needed by one of the two is needed by both together, and
nothing else is.

## Main results

* `Engine.needed_append` — what is needed by two lists of names in a row.
* `Engine.find?_iff_of_linked` — the partials of a template that compiles.
* `Engine.compile_append` — two templates in a row compile to both programs put together.
-/

namespace Stencil

open Stencil.Text Stencil.Markup

namespace Engine

variable {e : Engine} {name : Option String}

/-! ## What is needed -/

/-- What some names need, more names need as well. -/
lemma Needed.mono {names others : List String} {n : String} (h : e.Needed name names n)
    (hsubset : names ⊆ others) : e.Needed name others n := by
  induction h with
  | root hmem hown => exact .root (hsubset hmem) hown
  | step _ htext hmem hown ih => exact .step ih htext hmem hown

/-- What is needed by one of two lists of names is needed by both in a row, and nothing else is. -/
lemma needed_append {names others : List String} {n : String} :
    e.Needed name (names ++ others) n ↔ e.Needed name names n ∨ e.Needed name others n := by
  constructor
  · intro h
    induction h with
    | root hmem hown =>
      exact (List.mem_append.1 hmem).imp (fun hmem => .root hmem hown) fun hmem => .root hmem hown
    | step _ htext hmem hown ih =>
      exact ih.imp (fun hm => .step hm htext hmem hown) fun hm => .step hm htext hmem hown
  · rintro (h | h)
    · exact h.mono (List.subset_append_left names others)
    · exact h.mono (List.subset_append_right names others)

/-- What is reached among the templates that were linked is needed, the own name left aside. -/
lemma needed_of_reached {compiled : Table Sequence} {names : List String} {n : String}
    (hlinked : Linked e name.toList .empty compiled names) (h : Reached compiled names n)
    (hown : name ≠ some n) : e.Needed name names n := by
  induction h with
  | root hmem => exact .root hmem hown
  | @step m n s _ hfind hmem ih =>
    obtain ⟨text, htext, hdraft⟩ := (hlinked.origin m s hfind).resolve_left (by simp)
    rw [Draft.included_eq_included_scan hdraft] at hmem
    exact .step (ih (hlinked.ne_of_find? hfind)) htext hmem hown

/-- **The partials of a template that compiles**, the own name left aside, are the sequences of the
templates that it needs. -/
theorem find?_iff_of_linked {compiled : Table Sequence} {names : List String} {n : String}
    {s : Sequence} (hlinked : Linked e name.toList .empty compiled names) :
    compiled.find? n = some s ↔ e.Needed name names n ∧
      ∃ text, e.sourceOf n = .ok text ∧ (Draft.ofText text.toList).outcome = .ok s := by
  constructor
  · intro hfind
    have hreached := (hlinked.reached n s hfind).resolve_left (by simp)
    exact ⟨needed_of_reached hlinked hreached (hlinked.ne_of_find? hfind),
      (hlinked.origin n s hfind).resolve_left (by simp)⟩
  · rintro ⟨hneeded, text, htext, hdraft⟩
    obtain ⟨text', s', htext', hdraft', hfind⟩ := exists_find?_of_needed hlinked hneeded
    obtain rfl : text' = text := Except.ok.inj (htext'.symm.trans htext)
    obtain rfl : s' = s := Except.ok.inj (hdraft'.symm.trans hdraft)
    exact hfind

/-- **The partials of two templates in a row**, the own name left aside, are those of both. -/
theorem find?_append {compiled compiled' both : Table Sequence} {names others : List String}
    (hlinked : Linked e name.toList .empty compiled names)
    (hlinked' : Linked e name.toList .empty compiled' others)
    (hboth : Linked e name.toList .empty both (names ++ others)) (n : String) (s : Sequence) :
    both.find? n = some s ↔ compiled.find? n = some s ∨ compiled'.find? n = some s := by
  rw [find?_iff_of_linked hlinked, find?_iff_of_linked hlinked', find?_iff_of_linked hboth,
    needed_append, or_and_right]

/-- Two templates that compile and meet where a line starts compile together. -/
lemma exists_program_append {first second : String} {p q : Program}
    (hp : (e.compile name first).outcome = .ok p) (hq : (e.compile name second).outcome = .ok q)
    (hmeet : MeetAtLine first.toList second.toList)
    (hactive : (Scan.ofText first.toList).active.val = .standard) :
    ∃ r, (e.compile name (first ++ second)).outcome = .ok r := by
  obtain ⟨hwell, hneeded⟩ := (e.exists_program_iff name first).1 ⟨p, hp⟩
  obtain ⟨hwell', hneeded'⟩ := (e.exists_program_iff name second).1 ⟨q, hq⟩
  rw [exists_program_iff, String.toList_append]
  refine ⟨hwell.append hmeet.sealed hactive hwell', fun n hn => ?_⟩
  rw [Scan.included_append hmeet.sealed hactive hwell.closed hwell'.closed, needed_append] at hn
  exact hn.elim (hneeded n) (hneeded' n)

end Engine

/-! ## The own name -/

namespace Program

variable {p : Program} {own n : String}

/-- Whether something in the program includes a template of this name. -/
def Includes (p : Program) (n : String) : Prop := ∃ s ∈ p.sequences, n ∈ s.included

/-- A program includes what its main sequence and its partials include. -/
lemma includes_iff : p.Includes n ↔
    n ∈ p.main.included ∨ ∃ m s, p.partials.find? m = some s ∧ n ∈ s.included := by
  constructor
  · rintro ⟨s, hs, hn⟩
    rcases mem_sequences.1 hs with rfl | ⟨m, hm⟩
    · exact .inl hn
    · exact .inr ⟨m, s, hm, hn⟩
  · rintro (hn | ⟨m, s, hm, hn⟩)
    · exact ⟨p.main, mem_sequences.2 (.inl rfl), hn⟩
    · exact ⟨s, mem_sequences.2 (.inr ⟨m, hm⟩), hn⟩

/-- Under the own name stands the main sequence if something includes it. -/
lemma find?_closing_self (hown : p.partials.find? own = none) (s : Sequence) :
    (p.closing (some own)).partials.find? own = some s ↔ p.Includes own ∧ s = p.main := by
  have hincludes : (p.sequences.any fun s => s.included.contains own) = true ↔ p.Includes own := by
    simp [Includes]
  simp only [closing]
  split
  · rename_i hused
    rw [Table.find?_insert, if_pos rfl, Option.some.injEq]
    simp [hincludes.1 hused, eq_comm]
  · rename_i hunused
    simp [hown, mt hincludes.2 hunused]

/-- The own name stands in the table of a program if something includes it. -/
lemma contains_closing_self (hown : p.partials.find? own = none) :
    (p.closing (some own)).partials.contains own = true ↔ p.Includes own := by
  rw [Table.contains_iff]
  simp [find?_closing_self hown]

end Program

/-! ## Two templates in a row -/

/-- **Two templates in a row compile to both programs put together**, if both compile, and the first
one ends with a line and leaves the standard pair active. The main sequence is made from the
instructions of both, and only a text at the end of the first one and a text at the start of the
second one are put together. The partials are those of both programs. If the templates are compiled
under a name of their own, and one of the programs has a partial under this name, then the main
sequence of both together stands there.

**Proof sketch.** No tag and no logical line goes over from the first template to the second one,
so the tokens are those of both, and so are the logical lines, the section ends and the names of the
templates that are included. What these need is what is needed by one of the two. -/
theorem Engine.compile_append {e : Engine} {name : Option String} {first second : String}
    {p q : Program} (hp : (e.compile name first).outcome = .ok p)
    (hq : (e.compile name second).outcome = .ok q)
    (hmeet : MeetAtLine first.toList second.toList)
    (hactive : (Scan.ofText first.toList).active.val = .standard) :
    ∃ r, (e.compile name (first ++ second)).outcome = .ok r ∧
      Sequence.ofList (combined p.main.instrs.toList q.main.instrs.toList) = .ok r.main ∧
      (∀ n, name ≠ some n → ∀ s, r.partials.find? n = some s ↔
        p.partials.find? n = some s ∨ q.partials.find? n = some s) ∧
      ∀ own, name = some own → ∀ s, r.partials.find? own = some s ↔
        (p.partials.contains own = true ∨ q.partials.contains own = true) ∧ s = r.main := by
  obtain ⟨r, hr⟩ := exists_program_append hp hq hmeet hactive
  refine ⟨r, hr, ?_⟩
  obtain ⟨main, compiled, hmain, hlinked, rfl⟩ := compile_eq_ok hp
  obtain ⟨main', compiled', hmain', hlinked', rfl⟩ := compile_eq_ok hq
  obtain ⟨whole, both, hwhole, hboth, rfl⟩ := compile_eq_ok hr
  obtain ⟨u, hu, hofList⟩ := Draft.exists_append hmeet hactive hmain hmain'
  rw [← String.toList_append, hwhole] at hu
  obtain rfl : whole = u := Except.ok.inj hu
  have hincluded : whole.included = main.included ++ main'.included := by
    rw [Draft.included_eq_included_scan hwhole, Draft.included_eq_included_scan hmain,
      Draft.included_eq_included_scan hmain', String.toList_append]
    exact Scan.included_append hmeet.sealed hactive
      ((Draft.exists_sequence_iff _).1 ⟨_, hmain⟩).closed
      ((Draft.exists_sequence_iff _).1 ⟨_, hmain'⟩).closed
  rw [hincluded] at hboth
  have hfind := find?_append hlinked hlinked' hboth
  simp only [Program.main_closing]
  refine ⟨hofList, fun n hn s => ?_, ?_⟩
  · rw [Program.find?_closing hn, Program.find?_closing hn, Program.find?_closing hn]
    exact hfind n s
  · rintro own rfl s
    have hnone : ∀ {t : Table Sequence} {names : List String},
        Linked e (some own).toList .empty t names → t.find? own = none := fun h =>
      Option.eq_none_iff_forall_ne_some.2 fun v hv => h.ne_of_find? hv rfl
    rw [Program.find?_closing_self (hnone hboth), Program.contains_closing_self (hnone hlinked),
      Program.contains_closing_self (hnone hlinked')]
    refine and_congr_left fun _ => ?_
    rw [Program.includes_iff, Program.includes_iff, Program.includes_iff]
    simp only [hincluded, hfind, List.mem_append, or_and_right, exists_or]
    exact or_or_or_comm

/-- Two templates that share a partial. In the first one, the delimiters change and change back, and
a comment joins lines. It ends with a carriage return, and the text in front of it goes over to the
second one. -/
theorem compile_append_on_shared :
    ∃ (e : Engine) (first second : String) (p q r : Program),
      (e.compile none first).outcome = .ok p ∧ (e.compile none second).outcome = .ok q ∧
      (e.compile none (first ++ second)).outcome = .ok r ∧
      p.partials.names = ["p"] ∧ q.partials.names = ["p", "q"] ∧
      r.main.instrs.toList.map Instr.stored =
        [.text "a", .openSection false ⟨["s"], by decide⟩ Instr.unresolved, .text "\n",
          .enter "p" " ", .closeSection ⟨["s"], by decide⟩ Instr.unresolved, .text "\nb\rc",
          .enter "q" "", .openSection true ⟨["s"], by decide⟩ Instr.unresolved, .enter "p" "",
          .closeSection ⟨["s"], by decide⟩ Instr.unresolved] ∧
      Sequence.ofList (combined p.main.instrs.toList q.main.instrs.toList) = .ok r.main ∧
      ∀ n s, r.partials.find? n = some s ↔
        p.partials.find? n = some s ∨ q.partials.find? n = some s := by
  let e : Engine :=
    { loader := some ⟨.ofList [("p", .ok "1\n"), ("q", .ok "\x7b\x7b>p\x7d\x7d2")]⟩ }
  let first := "a\x7b\x7b#s\x7d\x7d\n \x7b\x7b>p\x7d\x7d\n\x7b\x7b/s\x7d\x7d\n" ++
    "\x7b\x7b=<% %>=\x7d\x7d<%! c\n%>\nb<%=\x7b\x7b \x7d\x7d=%>\r"
  let second := "c\x7b\x7b>q\x7d\x7d\x7b\x7b^s\x7d\x7d\x7b\x7b>p\x7d\x7d\x7b\x7b/s\x7d\x7d"
  have hfirst : (e.compile none first).outcome.toOption.map
        (fun p => (p.partials.names, p.main.instrs.toList.map Instr.stored)) =
      some (["p"], [.text "a", .openSection false ⟨["s"], by decide⟩ Instr.unresolved, .text "\n",
        .enter "p" " ", .closeSection ⟨["s"], by decide⟩ Instr.unresolved, .text "\nb\r"]) := by
    decide +kernel
  have hsecond : (e.compile none second).outcome.toOption.map
        (fun p => (p.partials.names, p.main.instrs.toList.map Instr.stored)) =
      some (["p", "q"], [.text "c", .enter "q" "",
        .openSection true ⟨["s"], by decide⟩ Instr.unresolved, .enter "p" "",
        .closeSection ⟨["s"], by decide⟩ Instr.unresolved]) := by
    decide +kernel
  obtain ⟨p, hp, hparts⟩ := exists_of_toOption_map_eq_some hfirst
  obtain ⟨q, hq, hparts'⟩ := exists_of_toOption_map_eq_some hsecond
  obtain ⟨hnames, hcode⟩ := Prod.mk.inj hparts
  obtain ⟨hnames', hcode'⟩ := Prod.mk.inj hparts'
  obtain ⟨r, hr, hofList, hpartials, -⟩ := Engine.compile_append hp hq
    ⟨.inr (by decide +kernel), by decide +kernel⟩ (by decide +kernel)
  refine ⟨e, first, second, p, q, r, hp, hq, hr, hnames, hnames', ?_, hofList,
    fun n => hpartials n (by simp)⟩
  rw [Sequence.map_stored_of_ofList hofList, map_stored_combined, hcode, hcode']
  decide +kernel

end Stencil
