import Stencil.Data.Value
import Stencil.Fault
import Stencil.Text.Entity

/-!
# Formatters

A formatter turns a value into the text that is written for it. Nothing is written of a
value whose formatting fails. It may fail with any fault, also with one that it met while it
compiled or rendered another template.

## Main definitions

* `Formatter` — a total function from values to texts or faults.
* `Formatter.plain` — the written form of the value.
* `Formatter.escaped` — with entities in place of markup; the one in force if none is set.
* `Formatter.upperCase`, `Formatter.angled`, `Formatter.kindOnly`, `Formatter.presentOnly`,
  `Formatter.refusing` — other choices.
-/

namespace Stencil

open Stencil.Text

/-- A way to turn values into texts. -/
abbrev Formatter := Value → Except Fault String

/-- The text with entities in place of markup. -/
def escapeText (s : String) : String := String.ofList (escape s.toList)

namespace Formatter

/-- The written form of a value. -/
def plain : Formatter := fun v => .ok v.text

/-- The form of a value in which nothing is read as markup. Only texts and collections can
hold markup, and all else is written as it is. -/
def escaped : Formatter
  | .none => .ok ""
  | .object _ _ _ => .ok ""
  | .bool b => .ok (Value.bool b).text
  | .integer n => .ok (Value.integer n).text
  | .float x => .ok (Value.float x).text
  | .string s => .ok (escapeText s)
  | v => .ok (escapeText v.text)

/-- The written form with entities in place of markup. -/
def escapedText : Formatter := fun v => .ok (escapeText v.text)

/-- The written form with the ASCII letters in upper case. -/
def upperCase : Formatter := fun v => .ok (v.text.map Char.toUpper)

/-- The escaped form between angle brackets. -/
def angled : Formatter := fun v => (escaped v).map fun s => "<" ++ s ++ ">"

/-- The kind of the value. -/
def kindOnly : Formatter := fun v => .ok v.kindName

/-- The escaped form, except that the absent value has none. -/
def presentOnly : Formatter
  | .none => .error (.ofCause .unformattable)
  | v => escaped v

/-- No value has a form, since something outside of the program failed. -/
def refusing (fault : TransferFault) : Formatter := fun _ => .error (.ofCause (.transfer fault))

end Formatter

end Stencil
