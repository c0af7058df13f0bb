import Stencil.Code.Program
import Stencil.Text.Quoted

/-!
# Listings

The form in which code is shown to people, with the jump targets.

## Main definitions

* `Instr.listing`, `Sequence.listing`, `Program.listing` — the listings.
-/

namespace Stencil

open Stencil.Text

/-- Items between brackets, with commas between them. -/
def bracketed (items : List String) : String :=
  "[" ++ ", ".intercalate items ++ "]"

/-- Items between braces, with commas between them. -/
def braced (items : List String) : String :=
  "\x7b" ++ ", ".intercalate items ++ "\x7d"

/-- A named record of which only some fields are shown. -/
def openRecord (name : String) (fields : List String) : String :=
  name ++ " \x7b " ++ ", ".intercalate (fields ++ [".."]) ++ " \x7d"

/-- A named record of which all fields are shown. -/
def closedRecord (name : String) (fields : List String) : String :=
  name ++ " \x7b " ++ ", ".intercalate fields ++ " \x7d"

/-- The listing of an instruction. -/
def Instr.listing : Instr → String
  | text content => "AppendText(" ++ quoted content ++ ")"
  | interpolate true path => "AppendVariable(" ++ path.text ++ ")"
  | interpolate false path => "AppendUnescapedVariable(" ++ path.text ++ ")"
  | openSection false path target => "OpenSection(" ++ path.text ++ ", " ++ toString target ++ ")"
  | openSection true path target =>
    "OpenInvertedSection(" ++ path.text ++ ", " ++ toString target ++ ")"
  | closeSection path target => "CloseSection(" ++ path.text ++ ", " ++ toString target ++ ")"
  | enter name indent => "EnterPartial(" ++ quoted name ++ ", " ++ quoted indent ++ ")"

/-- The listing of a sequence. -/
def Sequence.listing (s : Sequence) : String :=
  bracketed (s.instrs.toList.map Instr.listing)

/-- The listing of a program. -/
def Program.listing (p : Program) : String :=
  openRecord "Program"
    ["main: " ++ p.main.listing,
      "partials: " ++ braced (p.partials.entries.map fun (name, s) =>
        quoted name ++ ": " ++ s.listing)]

end Stencil
