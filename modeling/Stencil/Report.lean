import Stencil.Code.Listing
import Stencil.Fault

/-!
# Reports

A fault is told to people on one line, or with the line of the template that shows it and
a row of carets under the part in question, or as a listing of all its parts.

## Main definitions

* `Fault.message` — one line.
* `Fault.pretty` — with the line of the template.
* `Fault.listing` — all parts.
-/

namespace Stencil

open Stencil.Text

namespace Fault

/-- The included template in which the fault arose, as the message names it. -/
def whereabouts (f : Fault) : String :=
  match f.name with
  | some name => " in partial " ++ ticked name
  | none => ""

/-- The fault on one line. What failed outside of the program is told only if no place in a
template is. -/
def message (f : Fault) : String :=
  match f.position with
  | some p =>
    f.cause.message ++ " at line " ++ toString p.line ++ " column " ++ toString p.column
      ++ f.whereabouts
  | none =>
    f.cause.message ++ f.whereabouts ++
      match f.cause.underlying? with
      | some fault => ": " ++ fault.reason
      | none => ""

/-- A number of equal characters. -/
def repeated (n : Nat) (c : Char) : String := String.ofList (List.replicate n c)

/-- The number of carets: the width of the part in question that lies on its first line, but
at least one. -/
def caretCount (p : Place) : Nat :=
  max 1 (width (firstLine (p.span.slice p.source.toList)))

/-- The line of the template in which the part in question starts, with carets under it. -/
def excerpt (message : String) (p : Place) : String :=
  let position := positionAt p.source.toList p.span.start
  let number := toString position.line
  let margin := repeated number.length ' '
  "\n " ++ margin ++ " |\n " ++ number ++ " | "
    ++ String.ofList (lineAt p.source.toList p.span.start)
    ++ "\n " ++ margin ++ " | " ++ repeated (position.column - 1) ' ' ++ repeated (caretCount p) '^'
    ++ " " ++ message ++ "\n"

/-- The fault with the line of the template that shows it. -/
def pretty (f : Fault) : String :=
  match f.place with
  | none => f.message
  | some p =>
    (match f.name with
      | some name => "\n  --> " ++ name
      | none => "")
      ++ excerpt f.cause.message p

end Fault

/-- The name under which a kind of failure is listed. -/
def TransferKind.name : TransferKind → String
  | notFound => "NotFound"
  | permissionDenied => "PermissionDenied"
  | invalidData => "InvalidData"
  | other => "Other"

/-- The listing of a failure of reading or writing. -/
def TransferFault.listing : TransferFault → String
  | reported kind reason =>
    closedRecord "Custom" ["kind: " ++ kind.name, "error: " ++ quoted reason]
  | invalidText =>
    closedRecord "Error"
      ["kind: InvalidData", "message: " ++ quoted TransferFault.invalidText.reason]
  | nothingAccepted =>
    closedRecord "Error"
      ["kind: WriteZero", "message: " ++ quoted TransferFault.nothingAccepted.reason]

/-- The listing of a position. -/
def Text.Position.listing (p : Position) : String :=
  closedRecord "Position" ["line: " ++ toString p.line, "column: " ++ toString p.column]

/-- The listing of a fault. Parts that it lacks are left out. -/
def Fault.listing (f : Fault) : String :=
  closedRecord "Error"
    (["kind: " ++ f.kind.name, "msg: " ++ quoted f.cause.message]
      ++ (f.name.map fun name => "name: " ++ quoted name).toList
      ++ (f.position.map fun p => "position: " ++ p.listing).toList
      ++ (f.cause.underlying?.map fun fault => "source: " ++ fault.listing).toList)

end Stencil
