import Mathlib.Tactic.Lemma
import Stencil.Proofs.Code.Bytewise
import Stencil.Proofs.Engine.Whereabouts
import Stencil.Proofs.Text.Positions
import Stencil.Report

/-!
# Compiling by byte offsets

An engine can compile with all texts read by offsets: each template is taken apart by its ranges,
and so is the text that a fault shows. Every cut lies between characters, no range ends in front of
its start, and no case comes up that was left out. What comes out is what the engine compiles, and
the position and the excerpt that the fault has.

A template is read to its end here before what it includes is compiled. If compiling stops at an
included template, the rest is not needed, but it could be read as well.

## Main definitions

* `Engine.compileInBytes` — compiles a template, with checks.
* `Fault.positionInBytes`, `Fault.prettyInBytes` — what a fault shows, with checks.

## Main results

* `Engine.compileInBytes_eq` — compiling with checks meets no defect.
* `Fault.inBytes_eq` — a fault that shows a part of a text is shown without a defect.
* `Engine.compile_inBytes` — neither compiling nor the faults of it meet a defect.
-/

namespace Stencil

open Stencil.Text

/-! ## Compiling -/

/-- The way in which an included template is compiled with checks. -/
abbrev CheckedDescent := List String → String → Linkage → Checked (Linkage × Except Fault Sequence)

/-- Compiles the templates that a list of references needs, with checks. -/
def linkAllInBytes (e : Engine) (descend : CheckedDescent) (chain : List String)
    (source : String) : List Reference → Linkage → Checked (Linkage × Except Fault Unit)
  | [], st => .ok (st, .ok ())
  | r :: rest, st =>
    if st.compiled.contains r.name || chain.contains r.name then
      linkAllInBytes e descend chain source rest st
    else
      match e.sourceOf r.name with
      | .error cause =>
        .ok (st.noting e r.name, .error ⟨cause, none, r.span.map fun span => ⟨source, span⟩⟩)
      | .ok text => do
        match ← descend (r.name :: chain) text (st.noting e r.name) with
        | (st', .error fault) => .ok (st', .error (fault.within r.name))
        | (st', .ok sequence) =>
          linkAllInBytes e descend chain source rest
            { st' with compiled := st'.compiled.insert r.name sequence }

/-- Compiles a template with checks. -/
def compileWithInBytes (e : Engine) (descend : CheckedDescent) : CheckedDescent :=
  fun chain source st => do
    let draft ← Draft.readAt source.toList
    match ← linkAllInBytes e descend chain source draft.references st with
    | (st', .error fault) => .ok (st', .error fault)
    | (st', .ok ()) =>
      match draft.outcome with
      | .error error => .ok (st', .error (error.toFault source))
      | .ok sequence => .ok (st', .ok sequence)

/-- Compiles a template with at most the given number of levels of inclusion, with checks. -/
def compileAtInBytes (e : Engine) : Nat → CheckedDescent
  | 0 =>
    compileWithInBytes e fun chain _ st =>
      .ok (st, .error (.ofCause (.unknownPartial (chain.headD ""))))
  | levels + 1 => compileWithInBytes e (compileAtInBytes e levels)

/-- Compiles a template with checks. -/
def Engine.compileInBytes (e : Engine) (own : Option String) (source : String) :
    Checked Compilation := do
  match ← compileAtInBytes e e.known.length own.toList source {} with
  | (st, .error fault) => return ⟨st.asked, .error fault⟩
  | (st, .ok main) => return ⟨st.asked, .ok (Program.closing own ⟨source, main, st.compiled⟩)⟩

section Compiling

variable {e : Engine} {descend : Descent} {descend' : CheckedDescent}

/-- References are linked without a defect if what they refer to is compiled without one. -/
lemma linkAllInBytes_eq
    (h : ∀ chain text st, descend' chain text st = .ok (descend chain text st))
    (chain : List String) (source : String) (references : List Reference) (st : Linkage) :
    linkAllInBytes e descend' chain source references st =
      .ok (linkAll e descend chain source references st) := by
  induction references generalizing st with
  | nil => rfl
  | cons r rest ih =>
    rw [linkAllInBytes, linkAll]
    split
    · exact ih st
    · cases e.sourceOf r.name with
      | error cause => rfl
      | ok text =>
        simp only [h, bind, Except.bind]
        rcases descend (r.name :: chain) text (st.noting e r.name) with ⟨st', fault | sequence⟩
        · rfl
        · exact ih _

/-- A template is compiled without a defect if what it includes is. -/
lemma compileWithInBytes_eq
    (h : ∀ chain text st, descend' chain text st = .ok (descend chain text st))
    (chain : List String) (source : String) (st : Linkage) :
    compileWithInBytes e descend' chain source st =
      .ok (compileWith e descend chain source st) := by
  simp only [compileWithInBytes, compileWith, Draft.readAt_eq, linkAllInBytes_eq h, bind,
    Except.bind]
  rcases linkAll e descend chain source (Draft.ofText source.toList).references st with
    ⟨st', fault | done⟩
  · rfl
  · cases (Draft.ofText source.toList).outcome <;> rfl

/-- Compiling with a number of levels meets no defect. -/
lemma compileAtInBytes_eq (e : Engine) (levels : Nat) (chain : List String) (source : String)
    (st : Linkage) :
    compileAtInBytes e levels chain source st = .ok (compileAt e levels chain source st) := by
  induction levels generalizing chain source st with
  | zero => exact compileWithInBytes_eq (fun chain text st => rfl) chain source st
  | succ levels ih => exact compileWithInBytes_eq ih chain source st

/-- **Compiling with checks meets no defect**, and it gives what the engine compiles. -/
theorem Engine.compileInBytes_eq (e : Engine) (own : Option String) (source : String) :
    e.compileInBytes own source = .ok (e.compile own source) := by
  simp only [compileInBytes, compile, compileAtInBytes_eq, bind, Except.bind]
  rcases compileAt e e.known.length own.toList source {} with ⟨st, fault | main⟩ <;> rfl

end Compiling

/-! ## Faults -/

namespace Fault

/-- The line and column that a fault points to, found with checks. -/
def positionInBytes (f : Fault) : Checked (Option Position) :=
  match f.place with
  | none => .ok none
  | some p => some <$> Text.positionInBytes p.source.toList p.span.start

/-- A line of a template with carets under it, laid out. -/
def laidOut (message : String) (position : Position) (line : List Char) (carets : Nat) : String :=
  let number := toString position.line
  let margin := repeated number.length ' '
  "\n " ++ margin ++ " |\n " ++ number ++ " | " ++ String.ofList line
    ++ "\n " ++ margin ++ " | " ++ repeated (position.column - 1) ' ' ++ repeated carets '^'
    ++ " " ++ message ++ "\n"

/-- The line of the template in which the part in question starts, with carets under it, found
with checks. -/
def excerptInBytes (message : String) (p : Place) : Checked String := do
  let position ← Text.positionInBytes p.source.toList p.span.start
  let line := numberedLine (position.line - 1) p.source.toList
  let part ← p.span.sliceAt p.source.toList
  return laidOut message position (line.reverse.dropWhile (· = '\r')).reverse
    (max 1 (width (firstLine part)))

/-- The fault with the line of the template that shows it, found with checks. -/
def prettyInBytes (f : Fault) : Checked String :=
  match f.place with
  | none => .ok f.message
  | some p =>
    ((match f.name with
      | some name => "\n  --> " ++ name
      | none => "") ++ ·) <$> excerptInBytes f.cause.message p

variable {f : Fault} {p : Place} {part : List Char}

/-- The position of a part of a text is found. -/
lemma positionInBytes_of_covers (h : p.span.Covers p.source.toList part) :
    Text.positionInBytes p.source.toList p.span.start =
      .ok (positionAt p.source.toList p.span.start) := by
  obtain ⟨front, back, hsource, hspan⟩ := h
  rw [hsource, hspan, List.append_assoc]
  exact positionInBytes_eq front (part ++ back)

/-- The line in which a part of a text starts is found by its number. -/
lemma numberedLine_of_covers (h : p.span.Covers p.source.toList part) :
    numberedLine ((positionAt p.source.toList p.span.start).line - 1) p.source.toList =
      lastLine (takeBytes p.span.start p.source.toList) ++
        firstLine (dropBytes p.span.start p.source.toList) := by
  obtain ⟨front, back, hsource, hspan⟩ := h
  rw [hsource, hspan, List.append_assoc]
  simp only [positionAt, takeBytes_size_append, dropBytes_size_append, Nat.add_sub_cancel]
  exact numberedLine_count front (part ++ back)

/-- The line of a part of a text is shown with carets under the part. -/
lemma excerptInBytes_eq (message : String) (h : p.span.Covers p.source.toList part) :
    excerptInBytes message p = .ok (excerpt message p) := by
  have hlaid : excerpt message p = laidOut message (positionAt p.source.toList p.span.start)
      (lineAt p.source.toList p.span.start) (caretCount p) := rfl
  rw [hlaid, caretCount, h.slice_eq, lineAt, ← numberedLine_of_covers h, excerptInBytes,
    positionInBytes_of_covers h, Span.sliceAt_eq_ok_iff.2 h]
  rfl

/-- **A fault that shows a part of a text is shown without a defect.** -/
theorem inBytes_eq (hplace : f.place = some p) (h : p.span.Covers p.source.toList part) :
    f.positionInBytes = .ok f.position ∧ f.prettyInBytes = .ok f.pretty := by
  constructor
  · simp only [positionInBytes, position, hplace, positionInBytes_of_covers h]
    rfl
  · simp only [prettyInBytes, pretty, hplace, excerptInBytes_eq f.cause.message h]
    rfl

end Fault

/-! ## Engines -/

/-- **Neither compiling nor the faults of it meet a defect.**

**Proof sketch.** Each template is read without one. A fault with which compiling stops shows a part
of a text, so the cuts at the ends of this part go through. -/
theorem Engine.compile_inBytes (e : Engine) (own : Option String) (source : String) :
    e.compileInBytes own source = .ok (e.compile own source) ∧
      ∀ f, (e.compile own source).outcome = .error f →
        f.positionInBytes = .ok f.position ∧ f.prettyInBytes = .ok f.pretty := by
  refine ⟨e.compileInBytes_eq own source, fun f hf => ?_⟩
  obtain ⟨m, st, hpasses, hstops⟩ := exists_stops hf
  obtain ⟨place, hplace, hshown⟩ := hstops.shownAt (Moment.Nested.of_passes hpasses)
  obtain ⟨part, -, hcovers⟩ := hshown.covers
  exact Fault.inBytes_eq hplace hcovers

/-- Delimiters of two letters with two bytes each, and a section that is left open behind such
letters in a template that is included by a tag with these delimiters. -/
theorem compile_inBytes_on_letters :
    ∃ (e : Engine) (source : String) (f : Fault),
      source = "é\x7b\x7b=«« »»=\x7d\x7d\n««> größe »»" ∧
      e.compileInBytes none source = .ok (e.compile none source) ∧
      (e.compile none source).outcome = .error f ∧
      f.place = some ⟨"ü\nß\x7b\x7b#a\x7d\x7dö", ⟨5, 11⟩⟩ ∧
      f.positionInBytes = .ok (some ⟨2, 2⟩) ∧ f.prettyInBytes = .ok f.pretty := by
  let e : Engine := { loader := some ⟨.ofList [("größe", .ok "ü\nß\x7b\x7b#a\x7d\x7dö")]⟩ }
  let f : Fault := ⟨.unclosed "a", some "größe", some ⟨"ü\nß\x7b\x7b#a\x7d\x7dö", ⟨5, 11⟩⟩⟩
  have hcompile : (e.compile none "é\x7b\x7b=«« »»=\x7d\x7d\n««> größe »»").outcome = .error f := by
    decide +kernel
  have hposition : f.position = some ⟨2, 2⟩ := by decide +kernel
  obtain ⟨hcompiled, hfaults⟩ :=
    e.compile_inBytes none "é\x7b\x7b=«« »»=\x7d\x7d\n««> größe »»"
  obtain ⟨hpositioned, hpretty⟩ := hfaults f hcompile
  exact ⟨e, _, f, rfl, hcompiled, hcompile, rfl, hposition ▸ hpositioned, hpretty⟩

end Stencil
