import Mathlib.Tactic.Lemma
import Stencil.Proofs.Render.Deliveries
import Stencil.Proofs.Render.Walks
import Stencil.Proofs.Text.Entities
import Stencil.Proofs.Text.Indenting

/-!
# Escaped output

A program writes its texts and indentations, and the data with which it is rendered. If all of
the data is escaped, whatever it is and on whichever way it comes to the output, the markup in
the output is that of the program.

## Main definitions

* `Program.literal` — the characters that a program writes by itself.
* `Program.IsEscaping` — a program that writes no data without escaping it.
* `Event.WritesFrom` — an event that writes literal characters or an escaped value.

## Main results

* `Formatter.escaped_eq` — the written form of every value is escaped.
* `Cursor.Visits.exists_of_next` — what a walk yields is an instruction of its program.
* `Program.IsEscaping.mem_pieces` — what is written is literal or escaped.
* `Program.IsEscaping.output_markupFree` — the output has no markup of its own.
-/

namespace Stencil

open Stencil.Text

/-! ## Values -/

/-- The digits of a natural number hold no markup. -/
lemma unmarked_toDigits (n : Nat) : Unmarked (Nat.toDigits 10 n) :=
  .of_isDigit fun _ hc => Nat.isDigit_of_mem_toDigits (by decide) (by decide) hc

/-- The written form of an integer holds no markup. -/
lemma unmarked_toString (n : Int) : Unmarked (toString n).toList := by
  cases n with
  | ofNat n =>
    show Unmarked (Nat.repr n).toList
    rw [Nat.toList_repr]
    exact unmarked_toDigits n
  | negSucc n =>
    show Unmarked ("-" ++ Nat.repr (n + 1)).toList
    rw [String.toList_append, Nat.toList_repr]
    exact .append (by decide) (unmarked_toDigits (n + 1))

namespace Binary64

/-- A number that is written without an exponent holds no markup. -/
lemma unmarked_positional (digits power : Nat) : Unmarked (positional digits power) := by
  have hdigits : Unmarked (Nat.toDigits 10 digits) := unmarked_toDigits digits
  have hzeros : ∀ n, Unmarked (List.replicate n '0') := fun n =>
    .of_isDigit fun c hc => by rw [List.eq_of_mem_replicate hc]; rfl
  simp only [positional]
  split
  · exact hdigits.append (hzeros _)
  · split
    · exact .append (.append (by decide) (hzeros _)) hdigits
    · refine .append (fun c hc => hdigits c (List.mem_of_mem_take hc)) ?_
      exact List.forall_mem_cons.2 ⟨rfl, fun c hc => hdigits c (List.mem_of_mem_drop hc)⟩

/-- The written form of a number holds no markup. -/
lemma unmarked_text (x : Binary64) : Unmarked x.text.toList := by
  have hmagnitude : Unmarked x.magnitudeText := by
    unfold magnitudeText
    split
    · decide
    · split
      · decide
      · exact unmarked_positional _ _
  unfold text
  split
  · decide
  · rw [String.toList_ofList]
    split
    · exact List.forall_mem_cons.2 ⟨rfl, hmagnitude⟩
    · exact hmagnitude

end Binary64

/-- A text without any markup is its own escaped form. -/
lemma escapeText_eq_self {s : String} (h : Unmarked s.toList) : escapeText s = s := by
  rw [escapeText, h.escape_eq, String.ofList_toList]

/-- **The written form of every value is escaped.** What is written as it is holds no markup. -/
theorem Formatter.escaped_eq (v : Value) : Formatter.escaped v = .ok (escapeText v.text) := by
  cases v with
  | none => rfl
  | object id field call => rfl
  | bool b => cases b <;> rfl
  | integer n => exact congrArg Except.ok (escapeText_eq_self (unmarked_toString n.toInt)).symm
  | float x => exact congrArg Except.ok (escapeText_eq_self x.unmarked_text).symm
  | string s => rfl
  | list items => rfl
  | map entries => rfl

/-! ## Literal characters -/

/-- The characters that an instruction writes by itself: a text, or an indentation. -/
def Instr.literal : Instr → List Char
  | .text content => content.toList
  | .enter _ indent => indent.toList
  | _ => []

/-- The instruction as it is yielded in a template with the given indentation. -/
def Instr.yielded (indent : String) : Instr → Instr
  | .text content => .text (Cursor.indented indent content)
  | i => i

/-- A text with its lines indented holds nothing but the text and the indentation. -/
lemma Cursor.indented_subset {chars : List Char} {indent content : String}
    (hindent : indent.toList ⊆ chars) (hcontent : content.toList ⊆ chars) :
    (indented indent content).toList ⊆ chars := by
  rw [indented_eq, String.toList_ofList, indentLines_eq_indentBreaks]
  generalize content.toList = cs at hcontent ⊢
  fun_induction indentBreaks indent.toList cs with
  | case1 => exact hcontent
  | case2 c => exact hcontent
  | case3 c d rest ih =>
    obtain ⟨hc, hrest⟩ := List.cons_subset.1 hcontent
    refine List.cons_subset.2 ⟨hc, List.append_subset.2 ⟨?_, ih hrest⟩⟩
    split
    · exact hindent
    · exact List.nil_subset _

namespace Program

/-- The characters that a program writes by itself: those of its texts and indentations. -/
def literal (p : Program) : List Char :=
  p.sequences.flatMap fun s => s.instrs.toList.flatMap Instr.literal

/-- All data that a program writes is escaped. -/
def IsEscaping (p : Program) : Prop :=
  ∀ s ∈ p.sequences, ∀ path, .interpolate false path ∉ s.instrs

variable {p : Program}

/-- What an instruction of a program writes by itself. -/
lemma literal_subset {s : Sequence} {i : Instr} (hs : s ∈ p.sequences) (hi : i ∈ s.instrs) :
    i.literal ⊆ p.literal := fun _ hc =>
  List.mem_flatMap.2 ⟨s, hs, List.mem_flatMap.2 ⟨i, Array.mem_toList_iff.2 hi, hc⟩⟩

end Program

/-! ## What is yielded -/

namespace Cursor

variable {p : Program} {limit : Nat} {c c' : Cursor}

/-- The indentations of a walk are literal. -/
lemma Visits.indent_subset (h : Visits p limit c) : c.indent.toList ⊆ p.literal := by
  have hinherited : IsInherited p fun s indent =>
      s ∈ p.sequences ∧ indent.toList ⊆ p.literal := by
    rintro s indent name more ⟨hs, hindent⟩ henter
    refine ⟨isInherited_isWithin p s indent name more hs henter, ?_⟩
    rw [String.toList_append, List.append_subset]
    exact ⟨hindent, Program.literal_subset hs henter⟩
  exact (h.all hinherited ⟨List.mem_cons_self, List.nil_subset _⟩).1.2

/-- **What a walk yields is an instruction of its program**, with the lines of a text
indented. -/
theorem Visits.exists_of_next {i : Instr} (h : Visits p limit c)
    (hnext : c.next p = (c', .ok i)) :
    ∃ s ∈ p.sequences, ∃ x ∈ s.instrs, i = x.yielded c'.indent := by
  obtain ⟨d, d', r, hd, hyield, hd'⟩ := h.exists_turn
  rw [hnext] at hd'
  cases hd'
  obtain ⟨x, hinstr, hmeet⟩ := exists_instr_of_turn hyield
  refine ⟨d.top.sequence, hd.isWithin.1, x, Array.mem_of_getElem? hinstr, ?_⟩
  cases x with
  | enter name indent =>
    rw [meet] at hmeet
    split at hmeet <;> cases hmeet
  | text content => cases hmeet; rfl
  | interpolate escaped path => cases hmeet; rfl
  | openSection inverted path target => cases hmeet; rfl
  | closeSection path target => cases hmeet; rfl

end Cursor

/-! ## What is written -/

/-- The event writes nothing but the given characters, and values that are escaped. -/
def Event.WritesFrom (chars : List Char) : Event → Prop
  | .text indent content => indent.toList ⊆ chars ∧ content.toList ⊆ chars
  | .value indent escaped _ => indent.toList ⊆ chars ∧ escaped = true
  | .opened _ _ _ => True
  | .closed _ _ => True

namespace Program.IsEscaping

variable {p : Program} {limit : Nat} {root : Value}

/-- **Every event of a program that escapes its data writes literal characters or an escaped
value.** -/
theorem writesFrom (hp : p.IsEscaping) {event : Event}
    (h : event ∈ (p.run limit root).events) : event.WritesFrom p.literal := by
  obtain ⟨m, m', hm, -, hstep⟩ := Machine.exists_step_of_mem_events .start h
  obtain ⟨c, i, hnext, hperform⟩ := Machine.step_eq_ok hstep
  have hindent : c.indent.toList ⊆ p.literal := (hm.visits.of_next hnext).indent_subset
  obtain ⟨s, hs, x, hx, rfl⟩ := hm.visits.exists_of_next hnext
  have hliteral := literal_subset hs hx
  cases x with
  | text content =>
    cases hperform
    exact ⟨hindent, Cursor.indented_subset hindent hliteral⟩
  | interpolate escaped path =>
    cases hperform
    cases escaped with
    | true => exact ⟨hindent, rfl⟩
    | false => exact absurd hx (hp s hs path)
  | enter name indent => cases hperform
  | openSection inverted path target =>
    simp only [Instr.yielded, Machine.perform] at hperform
    split at hperform
    · cases hperform
      trivial
    · split at hperform <;> cases hperform
      trivial
  | closeSection path target =>
    simp only [Instr.yielded, Machine.perform] at hperform
    split at hperform
    · cases hperform
    · cases hperform
      trivial
    · split at hperform <;> cases hperform
      trivial

/-- **What is written is literal or escaped.** -/
theorem mem_pieces (hp : p.IsEscaping) {e : Engine} (he : e.formatter = Formatter.escaped)
    {limit : Option Nat} {s : String} (h : s ∈ (e.render p limit root).pieces) :
    s.toList ⊆ p.literal ∨ ∃ t, s = escapeText t := by
  obtain ⟨event, hevent, indent, content, hcontent, hs⟩ := Trace.exists_content_of_mem_pieces h
  have hfrom := hp.writesFrom hevent
  rw [he] at hcontent
  cases event with
  | text indent content =>
    cases hcontent
    rcases hs with rfl | rfl
    · exact .inl hfrom.1
    · exact .inl hfrom.2
  | value indent escaped v? =>
    obtain ⟨hindent, rfl⟩ := hfrom
    simp only [Event.content, if_true, Formatter.escaped_eq] at hcontent
    cases hcontent
    rcases hs with rfl | rfl
    · exact .inl hindent
    · exact .inr ⟨_, rfl⟩
  | opened inverted path runs => cases hcontent
  | closed path again => cases hcontent

/-- Nothing that is written holds markup if the program holds none. -/
lemma markupFree_join (hp : p.IsEscaping) {e : Engine} (he : e.formatter = Formatter.escaped)
    (hliteral : MarkupFree p.literal) (limit : Option Nat) (root : Value) :
    MarkupFree (String.join (e.render p limit root).pieces).toList := by
  rw [String.toList_join, List.flatMap_def]
  refine .flatten (List.forall_mem_map.2 fun s hs => ?_)
  rcases hp.mem_pieces he hs with hs | ⟨t, rfl⟩
  · exact fun c hc => hliteral c (hs hc)
  · rw [escapeText, String.toList_ofList]
    exact markupFree_escape _

/-- All ampersands that are written start entities if the program holds none. -/
lemma guarded_join (hp : p.IsEscaping) {e : Engine} (he : e.formatter = Formatter.escaped)
    (hamp : '&' ∉ p.literal) (limit : Option Nat) (root : Value) :
    Guarded (String.join (e.render p limit root).pieces).toList := by
  rw [String.toList_join, List.flatMap_def]
  refine .flatten (List.forall_mem_map.2 fun s hs => ?_)
  rcases hp.mem_pieces he hs with hs | ⟨t, rfl⟩
  · exact .of_not_mem fun hc => hamp (hs hc)
  · rw [escapeText, String.toList_ofList]
    exact guarded_escape _

/-- **The output has no markup but that of the program.** If a program escapes all of its data
and its texts and indentations hold no angle bracket and no double quote, then neither does the
text that it is rendered to, or that a sink accepts, for any data. If they hold no ampersand
either, all ampersands of the text start entities.

**Proof sketch.** Whatever is written is made of literal characters, or is an escaped text: so
is the form of every value, since a number holds nothing to be escaped. Both properties go over
from the parts of the output to the whole. -/
theorem output_markupFree (hp : p.IsEscaping) {e : Engine}
    (he : e.formatter = Formatter.escaped) (hliteral : MarkupFree p.literal)
    (limit : Option Nat) (data : Except DatumFault Value) :
    (∀ text, e.renderText p limit data = .ok text →
      MarkupFree text.toList ∧ ('&' ∉ p.literal → Guarded text.toList)) ∧
    ∀ sink : Sink, (e.renderTo p limit data sink).2 = .ok () →
      ∃ text, (e.renderTo p limit data sink).1.bytes = utf8Bytes text ∧
        MarkupFree text.toList ∧ ('&' ∉ p.literal → Guarded text.toList) := by
  cases data with
  | error fault => exact ⟨nofun, nofun⟩
  | ok root =>
    have hfree := hp.markupFree_join he hliteral limit root
    have hguarded := fun hamp => hp.guarded_join he hamp limit root
    have htexts : ∀ text, e.renderText p limit (.ok root) = .ok text →
        MarkupFree text.toList ∧ ('&' ∉ p.literal → Guarded text.toList) := by
      intro text htext
      rw [Engine.renderText_eq] at htext
      split at htext
      · cases htext
        exact ⟨hfree, hguarded⟩
      · cases htext
    refine ⟨htexts, fun sink hsink => ?_⟩
    obtain ⟨text, htext, hbytes⟩ := (e.renderTo_eq_ok_iff p limit root sink).1 hsink
    exact ⟨text, hbytes, htexts text htext⟩

end Program.IsEscaping

/-- Texts and a map that are full of markup, in an indented template that a section includes for
each of them. -/
theorem output_markupFree_on_list :
    ∃ (p : Program) (root : Value) (text : String), p.IsEscaping ∧ MarkupFree p.literal ∧
      '&' ∉ p.literal ∧ Engine.empty.renderText p none (.ok root) = .ok text ∧
      text = "  &lt;b a=&quot;1&quot;&gt;\n  \x7b&lt;k&gt;=&amp;lt;, n=-1\x7d\n" ∧
      MarkupFree text.toList ∧ Guarded text.toList := by
  let main : Sequence :=
    ⟨#[.openSection false ⟨["s"], by decide⟩ 2, .enter "p" "  ",
      .closeSection ⟨["s"], by decide⟩ 0], by decide⟩
  let item : Sequence := ⟨#[.interpolate true .self, .text "\n"], by decide⟩
  let p : Program := ⟨"", main, ⟨[("p", item)], List.pairwise_singleton _ _⟩⟩
  let root : Value := .map [("s", .list [.string "<b a=\"1\">",
    .map [("<k>", .string "&lt;"), ("n", .integer (-1))]])]
  let text := "  &lt;b a=&quot;1&quot;&gt;\n  \x7b&lt;k&gt;=&amp;lt;, n=-1\x7d\n"
  have hp : p.IsEscaping := by
    intro s hs path
    rcases List.mem_cons.1 hs with rfl | hs
    · simp [p, main]
    · obtain rfl : s = item := by simpa [p] using hs
      simp [item]
  have hfree : MarkupFree p.literal := by decide +kernel
  have hamp : '&' ∉ p.literal := by decide +kernel
  have hpieces : (Engine.empty.render p none root).fault = none ∧
      String.join (Engine.empty.render p none root).pieces = text := by decide +kernel
  have htext : Engine.empty.renderText p none (.ok root) = .ok text := by
    rw [Engine.renderText_eq, hpieces.1]
    exact congrArg Except.ok hpieces.2
  obtain ⟨hmarkup, hguarded⟩ := (hp.output_markupFree rfl hfree none _).1 text htext
  exact ⟨p, root, text, hp, hfree, hamp, htext, rfl, hmarkup, hguarded hamp⟩

end Stencil
