import Mathlib.Tactic.Lemma
import Stencil.Proofs.Engine.Bytewise
import Stencil.Proofs.Text.Excerpts

/-!
# What is underlined for a fault

A fault of compiling is told with the line of the template in which the part in question starts, and
with carets under it. There is one caret for each column of the part on this line. The carriage
returns at the end of the line are not shown, but those that belong to the part are counted, each as
one column. A part holds such carriage returns only if it goes on as far as the end of its line, as
a comment does that is never closed.

## Main definitions

* `Fault.heading` — the name of the included template, above the line.

## Main results

* `Engine.fault_starts_in_line` — a fault of compiling shows a part that begins within a line.
* `Engine.compile_fault_underlined` — what is shown and underlined for a fault of compiling.
-/

namespace Stencil

open Stencil.Text Stencil.Markup

/-- The carriage returns at the end of a line have a column each. -/
lemma Text.width_of_returns {cs : List Char} (h : ∀ c ∈ cs, c = '\r') : width cs = cs.length := by
  induction cs with
  | nil => rfl
  | cons c cs ih =>
    obtain ⟨rfl, hcs⟩ := List.forall_mem_cons.1 h
    have hc : charWidth '\r' = 1 := by decide +kernel
    rw [width, ih hcs, hc, List.length_cons, Nat.add_comm]

/-- **A fault of compiling shows a part of a template that begins within a line**: with an opener,
that is. -/
theorem Engine.fault_starts_in_line {e : Engine} {own : Option String} {source : String} {f : Fault}
    (h : (e.compile own source).outcome = .error f) :
    ∃ place part, f.place = some place ∧ StartsInLine part ∧
      place.span.Covers place.source.toList part := by
  obtain ⟨m, place, -, -, hplace, hshown⟩ := compile_fault_shown h
  cases hmissing : f.cause.missing? with
  | some n =>
    obtain ⟨⟨piece, hpiece, hspan, -, hcovers, tag, htag, -⟩, -⟩ := hshown.missing n hmissing
    have hstarts := scan_startsInLine Delimiters.standard_isUnbroken hpiece (by rw [htag]; rfl)
    exact ⟨place, piece.content, hplace, hstarts, hspan ▸ hcovers⟩
  | none =>
    obtain ⟨fault, -, hdraft⟩ := hshown.malformed hmissing
    obtain ⟨span, part, hspan, hstarts, hcovers⟩ := Draft.error_covers hdraft
    obtain rfl := Option.some.inj hspan
    exact ⟨place, part, hplace, hstarts, hcovers⟩

namespace Fault

/-- The name of the included template in which a fault arose, above the line that is shown. -/
def heading (f : Fault) : String :=
  match f.name with
  | some name => "\n  --> " ++ name
  | none => ""

/-- A fault with a place is told with a heading and the line, laid out. -/
lemma pretty_eq {f : Fault} {place : Place} (h : f.place = some place) :
    f.pretty = f.heading ++ laidOut f.cause.message
      (positionAt place.source.toList place.span.start)
      (lineAt place.source.toList place.span.start) (caretCount place) := by
  rw [pretty, h]
  rfl

end Fault

/-- **What is shown and underlined for a fault of compiling.** The line that is shown is the one,
as lines end at line feeds, in which the part in question starts; neither its line feed nor the
carriage returns in front of that are shown. The carets start in the column that the position tells,
and there is one for each column of the part on this line, but at least one. Carriage returns of the
part that are not shown are counted too. If there are none, the carets are as many as the columns of
the part that are shown, and unless these are none they do not run past what is shown.

**Proof sketch.** Each fault shows a part that begins with an opener, so the part begins on the line
in front of the carriage returns at its end. -/
theorem Engine.compile_fault_underlined {e : Engine} {own : Option String} {source : String}
    {f : Fault} (h : (e.compile own source).outcome = .error f) :
    ∃ (place : Place) (s : Shown), f.place = some place ∧
      s.Fits place.source.toList place.span ∧
      f.position = some ⟨s.above.count '\n' + 1, width s.lead + 1⟩ ∧
      f.pretty = f.heading ++ Fault.laidOut f.cause.message
        ⟨s.above.count '\n' + 1, width s.lead + 1⟩ s.code
        (max 1 (width s.visible + s.cut.length)) ∧
      (s.cut = [] → 0 < width s.visible →
        width s.lead + max 1 (width s.visible + s.cut.length) ≤ width s.code) := by
  obtain ⟨place, part, hplace, hstarts, hcovers⟩ := fault_starts_in_line h
  obtain ⟨s, hfits, hposition, hline, hunder⟩ := exists_shown hcovers hstarts
  have hreturns := width_of_returns fun c hc => hfits.returns c (List.mem_append_left _ hc)
  have hcarets : Fault.caretCount place = max 1 (width s.visible + s.cut.length) := by
    rw [Fault.caretCount, hcovers.slice_eq, hunder, width_append, hreturns]
  refine ⟨place, s, hplace, hfits, ?_, ?_, ?_⟩
  · rw [Fault.position, hplace, Option.map_some, hposition]
  · rw [Fault.pretty_eq hplace, hposition, hline, hcarets]
  · intro hcut hvisible
    rw [Shown.code, width_append, width_append, hcut, List.length_nil]
    omega

/-- A comment in an included template that is never closed, on a line with a wide character that
ends with three characters, and goes on below. Both carriage returns are counted. -/
theorem compile_fault_underlined_on_comment :
    ∃ (e : Engine) (source : String) (f : Fault) (place : Place) (s : Shown),
      e.sourceOf "p" = .ok "x\r\n字\t\x7b\x7b! y\r\r\nz" ∧
      (e.compile none source).outcome = .error f ∧ f.place = some place ∧
      s.Fits place.source.toList place.span ∧
      f.position = some ⟨2, 4⟩ ∧ width s.lead = 3 ∧
      f.pretty = "\n  --> p\n   |\n 2 | 字\t\x7b\x7b! y\n   |    ^^^^^^^ unterminated tag\n" ∧
      f.pretty = f.heading ++ Fault.laidOut f.cause.message
        ⟨s.above.count '\n' + 1, width s.lead + 1⟩ s.code
        (max 1 (width s.visible + s.cut.length)) := by
  let text := "x\r\n字\t\x7b\x7b! y\r\r\nz"
  let e : Engine := { loader := some ⟨.ofList [("p", .ok text)]⟩ }
  let f : Fault := ⟨.markup .unterminated, some "p", some ⟨text, ⟨7, 16⟩⟩⟩
  have hcompile : (e.compile none "\x7b\x7b>p\x7d\x7d").outcome = .error f := by decide +kernel
  have hposition : f.position = some ⟨2, 4⟩ := by decide +kernel
  obtain ⟨place, s, hplace, hfits, hstart, hpretty, -⟩ := Engine.compile_fault_underlined hcompile
  have hlead : width s.lead = 3 := by
    rw [hposition, Option.some.injEq, Position.mk.injEq] at hstart
    omega
  exact ⟨e, _, f, place, s, by decide +kernel, hcompile, hplace, hfits, hposition, hlead,
    by decide +kernel, hpretty⟩

/-- **The underline can run past the line that is shown.** A comment is never closed, and the line
on which it starts ends with two characters. The whole line is the part that is underlined; it is
shown in five columns, but there are six carets. -/
theorem underlined_past_line :
    ∃ (e : Engine) (source : String) (f : Fault) (place : Place) (s : Shown),
      source = "\x7b\x7b! x\r\n" ∧ (e.compile none source).outcome = .error f ∧
      f.place = some place ∧ place.source = source ∧ s.Fits source.toList place.span ∧
      s.visible = s.code ∧ width s.visible = 5 ∧ f.position = some ⟨1, 1⟩ ∧
      f.pretty = f.heading ++ Fault.laidOut f.cause.message ⟨1, 1⟩ s.code 6 ∧
      f.pretty ≠ f.heading ++
        Fault.laidOut f.cause.message ⟨1, 1⟩ s.code (max 1 (width s.visible)) := by
  let source := "\x7b\x7b! x\r\n"
  let place : Place := ⟨source, ⟨0, 7⟩⟩
  let f : Fault := ⟨.markup .unterminated, none, some place⟩
  let s : Shown := ⟨[], [], ['{', '{', '!', ' ', 'x'], [], ['\r'], [], ['\n']⟩
  have hfits : s.Fits source.toList place.span :=
    { text_eq := by decide +kernel
      above_ends := .inl rfl
      below_starts := .inr ⟨[], rfl⟩
      unbroken := by decide +kernel
      trimmed := by decide +kernel
      returns := List.forall_mem_singleton.2 rfl
      start_eq := by decide +kernel
      part := ⟨['\n'], ⟨[], [], by decide +kernel, by decide +kernel⟩, fun _ => ⟨rfl, rfl⟩⟩
      beside := fun h => absurd rfl h }
  exact ⟨.empty, source, f, place, s, rfl, by decide +kernel, rfl, rfl, hfits, by decide +kernel,
    by decide +kernel, by decide +kernel, by decide +kernel, by decide +kernel⟩

end Stencil
