import Stencil.Text.Span
import Stencil.Text.Width

/-!
# Positions

For people a place in a text is a line and a column. Lines end at line feeds only, and
columns are counted in display width, both from one.

## Main definitions

* `Position`, `positionAt` — the line and column of a byte offset.
* `lineAt` — the line in which a byte offset lies, as far as it is shown.
-/

namespace Stencil.Text

/-- A line and a column, both counted from one. -/
structure Position where
  line : Nat
  column : Nat
  deriving DecidableEq

/-- The text after the last line feed. -/
def lastLine (cs : List Char) : List Char :=
  (cs.reverse.takeWhile (· ≠ '\n')).reverse

/-- The text before the first line feed. -/
def firstLine (cs : List Char) : List Char :=
  cs.takeWhile (· ≠ '\n')

/-- The line and column of a byte offset. -/
def positionAt (cs : List Char) (offset : Nat) : Position :=
  let before := takeBytes offset cs
  ⟨before.count '\n' + 1, width (lastLine before) + 1⟩

/-- The line in which a byte offset lies, without its line feed and the carriage returns in
front of that. -/
def lineAt (cs : List Char) (offset : Nat) : List Char :=
  let line := lastLine (takeBytes offset cs) ++ firstLine (dropBytes offset cs)
  (line.reverse.dropWhile (· = '\r')).reverse

end Stencil.Text
