import Stencil.Code.Draft
import Stencil.Data.Datum
import Stencil.Render.Trace
import Stencil.Text.Position
import Stencil.Transfer

/-!
# Faults

All that can go wrong between a template and its output. A fault has a cause, from which
its kind and its message follow; a fault in a template also shows the place, and one in an
included template names it. A formatter may fail with any of these faults.

## Main definitions

* `Cause` — the reasons why something fails.
* `FaultKind`, `Cause.kind` — a coarser division of the causes.
* `Cause.message` — what is said about a cause.
* `Fault` — a cause with its place and the name of the included template.
* `Fault.position` — the line and column that a fault points to.
-/

namespace Stencil

open Stencil.Text Stencil.Markup

/-- The reasons why something fails. -/
inductive Cause where
  | markup (fault : MarkupFault)
  | nesting (fault : NestingFault)
  /-- A template ends while the section is open. -/
  | unclosed (name : String)
  /-- Nobody knows an included template. -/
  | unknownPartial (name : String)
  /-- An included template cannot be read. -/
  | unreadablePartial (name : String) (fault : TransferFault)
  | run (fault : RunFault)
  /-- A text cannot be formatted or handed over. -/
  | unformattable
  | datum (fault : DatumFault)
  | transfer (fault : TransferFault)
  deriving DecidableEq

/-- A coarse division of the causes. -/
inductive FaultKind where
  | malformed
  | sectionMismatch
  | partialNotFound
  | contractViolation
  | recursionLimit
  | transfer
  | serialize
  deriving DecidableEq

/-- The name under which a kind is shown. -/
def FaultKind.name : FaultKind → String
  | malformed => "Syntax"
  | sectionMismatch => "SectionMismatch"
  | partialNotFound => "PartialNotFound"
  | contractViolation => "ContractViolation"
  | recursionLimit => "RecursionLimit"
  | transfer => "Io"
  | serialize => "Serialize"

/-- The kind of a misnesting: a list that ends too early was not meant to be finished. -/
def NestingFault.kind : NestingFault → FaultKind
  | mismatched _ _ => .sectionMismatch
  | unopened _ => .sectionMismatch
  | neverClosed _ => .contractViolation
  | empty => .contractViolation

/-- The kind of a failed run: only too deep an inclusion is the fault of the program. -/
def RunFault.kind : RunFault → FaultKind
  | cursor (.tooDeep _ _) => .recursionLimit
  | _ => .contractViolation

/-- The kind of a cause. -/
def Cause.kind : Cause → FaultKind
  | markup _ => .malformed
  | nesting fault => fault.kind
  | unclosed _ => .sectionMismatch
  | unknownPartial _ => .partialNotFound
  | unreadablePartial _ _ => .transfer
  | run fault => fault.kind
  | unformattable => .transfer
  | datum _ => .serialize
  | transfer _ => .transfer

/-! ### Messages -/

/-- A name as it is set off in a message. -/
def ticked (s : String) : String := "`" ++ s ++ "`"

/-- The tag that closes a section, as it is set off in a message. -/
def tickedClosing (path : Path) : String := ticked ("\x7b\x7b/" ++ path.text ++ "\x7d\x7d")

/-- What is said about a malformed tag. -/
def Markup.TagFault.message : TagFault → String
  | empty => "empty tag"
  | invalidContent content => "invalid tag content " ++ ticked (String.ofList content)
  | missingName => "expected partial name"
  | invalidDirective content =>
    "invalid delimiter directive " ++ ticked ("=" ++ String.ofList content)
  | tripleDelimiters =>
    "delimiters may not be " ++ ticked "\x7b\x7b\x7b" ++ " or " ++ ticked "\x7d\x7d\x7d"

/-- What is said about malformed markup. -/
def Markup.MarkupFault.message : MarkupFault → String
  | tag fault => fault.message
  | unterminated => "unterminated tag"
  | delimitersInSection => "cannot change delimiters inside a section"

/-- What is said about a misnesting. -/
def NestingFault.message : NestingFault → String
  | mismatched expected found =>
    "expected " ++ tickedClosing expected ++ " but found " ++ tickedClosing found
  | unopened found => "unexpected " ++ tickedClosing found ++ ", no section is open"
  | neverClosed path =>
    "sequence is not processable, section " ++ ticked path.text ++ " is never closed"
  | empty => "sequence is not processable, it is empty"

/-- What is said about a failed walk. -/
def CursorFault.message : CursorFault → String
  | exhausted => "called `next` on an exhausted processor"
  | nothingOpened => "called `enter_section` but no open section is pending"
  | nothingClosed => "called `exit_section` but no close section is pending"
  | tooDeep limit _ => "reached maximum partial depth (" ++ toString limit ++ ")"

/-- What is said about a section that cannot be closed. -/
def ScopeFault.message : ScopeFault → String
  | onlyRoot path =>
    "cannot close section " ++ ticked path.text ++ ", only the root section is open"
  | notInnermost path innermost =>
    "cannot close section " ++ ticked path.text ++ ", the innermost section is "
      ++ ticked innermost.text

/-- What is said about a failed run. -/
def RunFault.message : RunFault → String
  | cursor fault => fault.message
  | scope fault => fault.message
  | yieldedInclusion name =>
    "processor yielded partial " ++ ticked name ++ " instead of entering it"

/-- What is said about data that has no value. -/
def DatumFault.message : DatumFault → String
  | wide true => "i128 is not supported"
  | wide false => "u128 is not supported"
  | keyNotText => "map key must be a string"
  | valueBeforeKey => "map value serialized before its key"
  | object => "object values cannot be serialized, use `render_from` instead"
  | refused reason => reason

/-- What is said about a cause. -/
def Cause.message : Cause → String
  | markup fault => fault.message
  | nesting fault => fault.message
  | unclosed name => "unclosed section " ++ ticked name
  | unknownPartial name => "unknown partial " ++ ticked name
  | unreadablePartial name _ => "failed to load partial " ++ ticked name
  | run fault => fault.message
  | unformattable => "format error"
  | datum fault => fault.message
  | transfer _ => "io error"

/-- The failure of reading or writing behind a cause, if there is one. -/
def Cause.underlying? : Cause → Option TransferFault
  | unreadablePartial _ fault => some fault
  | transfer fault => some fault
  | _ => none

/-! ### Faults -/

/-- A part of a template. -/
structure Place where
  source : String
  span : Span
  deriving DecidableEq

/-- A cause, with the name of the included template in which it arose and the part of the
template that shows it, as far as there are any. -/
structure Fault where
  cause : Cause
  name : Option String
  place : Option Place
  deriving DecidableEq

namespace Fault

/-- A fault that no template shows. Too deep an inclusion names the included template. -/
def ofCause (cause : Cause) : Fault :=
  match cause with
  | .run (.cursor (.tooDeep _ name)) => ⟨cause, some name, none⟩
  | _ => ⟨cause, none, none⟩

/-- The kind of a fault. -/
def kind (f : Fault) : FaultKind := f.cause.kind

/-- The fault with the name of an included template, unless a template included by that one
is already named. -/
def within (f : Fault) (name : String) : Fault :=
  { f with name := some (f.name.getD name) }

/-- The line and column that a fault points to. -/
def position (f : Fault) : Option Position :=
  f.place.map fun p => positionAt p.source.toList p.span.start

end Fault

/-- The cause of a fault in a template on its own. -/
def DraftFault.cause : DraftFault → Cause
  | markup fault => .markup fault
  | nesting fault => .nesting fault
  | unclosed name => .unclosed name

/-- A fault in a template on its own, shown against its source. -/
def DraftError.toFault (source : String) (e : DraftError) : Fault :=
  ⟨e.fault.cause, none, e.span.map fun span => ⟨source, span⟩⟩

end Stencil
