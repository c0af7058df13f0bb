import Stencil.Code.Builder
import Stencil.Markup.Part

/-!
# The code of one template

A template on its own, the templates that it includes left aside, is turned into code.
Text that is not divided by an instruction makes one instruction, and tags that change
the delimiters or say nothing make none.

## Main definitions

* `codeOf` — the instructions for a list of parts.
* `Draft.ofText` — the code of a template, with the inclusions that it refers to.
-/

namespace Stencil

open Stencil.Text Stencil.Markup

/-- The instruction for a tag, if it has one. -/
def instrOfTag? (indent : List Char) : Tag → Option Instr
  | .interpolation escaped path => some (.interpolate escaped path)
  | .opening inverted path => some (.openSection inverted path Instr.unresolved)
  | .closing path => some (.closeSection path Instr.unresolved)
  | .inclusion name => some (.enter name (String.ofList indent))
  | .delimiters _ => none
  | .comment => none

/-- An instruction with the range of the tag that it stems from; text stems from none. -/
structure Step where
  instr : Instr
  span : Option Span
  deriving DecidableEq

/-- The instruction that writes a text, if there is something to write. -/
def textStep (content : List Char) : List Step :=
  if content.isEmpty then [] else [⟨.text (String.ofList content), none⟩]

/-- The instructions for a list of parts, after text that is still to be written. -/
def codeOf (pending : List Char) : List Part → List Step
  | [] => textStep pending
  | .text content :: rest => codeOf (pending ++ content) rest
  | .tag tag span indent :: rest =>
    match instrOfTag? indent tag with
    | none => codeOf pending rest
    | some instr => textStep pending ++ ⟨instr, some span⟩ :: codeOf [] rest

/-- The ways in which a template on its own can be malformed. -/
inductive DraftFault where
  | markup (fault : MarkupFault)
  | nesting (fault : NestingFault)
  /-- The template ends while the section is open. -/
  | unclosed (name : String)
  deriving DecidableEq

/-- A fault, with the range of the template that shows it if there is one. -/
structure DraftError where
  fault : DraftFault
  span : Option Span
  deriving DecidableEq

/-- An inclusion: the name of a template and the tag that refers to it. -/
structure Reference where
  name : String
  span : Option Span
  deriving DecidableEq

/-- The inclusion that a step refers to. -/
def Step.reference? (s : Step) : Option Reference :=
  s.instr.included?.map fun name => ⟨name, s.span⟩

/-- The code of a template: its inclusions in order, up to the fault if there is one, and
the sequence of instructions. -/
structure Draft where
  references : List Reference
  outcome : Except DraftError Sequence

/-- Adds steps to a builder until one of them does not fit. Also returns those added. -/
def Builder.addSteps (b : Builder) : List Step → List Step × Except DraftError Builder
  | [] => ([], .ok b)
  | s :: rest =>
    match b.push s.instr with
    | .error fault => ([], .error ⟨.nesting fault, s.span⟩)
    | .ok b' =>
      let (added, result) := b'.addSteps rest
      (s :: added, result)

/-- The finished sequence. A template without instructions writes the empty text. -/
def Builder.complete (b : Builder) : Except NestingFault Sequence :=
  if b.isEmpty then (b.push (.text "")).bind Builder.finish else b.finish

/-- The code of a template. A fault in the code of the rows that are complete comes before
the fault at which reading stopped. -/
def Draft.ofText (cs : List Char) : Draft :=
  let reading := Reading.ofText cs
  let (added, result) := Builder.empty.addSteps (codeOf [] (reading.rows.flatMap partsOfRow))
  { references := added.filterMap Step.reference?
    outcome :=
      match result, reading.ending with
      | .error e, _ => .error e
      | .ok _, .error e => .error ⟨.markup e.fault, some e.span⟩
      | .ok b, .ok (span :: _) => .error ⟨.unclosed ((b.current?.map Path.text).getD ""), span⟩
      | .ok b, .ok [] =>
        match b.complete with
        | .error fault => .error ⟨.nesting fault, none⟩
        | .ok sequence => .ok sequence }

end Stencil
