/-!
# Lines of a text

A line ends with `\n`, `\r\n`, or a `\r` that no `\n` follows, and keeps its ending; the
last line may lack one. Indenting a text puts the indentation in front of every line
except the first, so what precedes the text decides how its first line starts.

## Main definitions

* `lines` — the lines of a text, in order.
* `indentLines` — a text with an indentation before every line but the first.
* `hasInnerBreak` — whether some line break is followed by more text.

## Main results

* `lines_flatten` — the lines of a text, put together, are the text.
-/

namespace Stencil.Text

/-- The characters that end a line, alone or as the pair `\r\n`. -/
def isBreak (c : Char) : Bool :=
  c = '\n' || c = '\r'

/-- The lines of a text, each with its ending. A `\r\n` is one ending. -/
def lines : List Char → List (List Char)
  | [] => []
  | '\r' :: '\n' :: rest => ['\r', '\n'] :: lines rest
  | c :: rest =>
    if isBreak c then [c] :: lines rest
    else
      match lines rest with
      | [] => [[c]]
      | line :: more => (c :: line) :: more

/-- Cutting a text into lines loses nothing. -/
theorem lines_flatten (cs : List Char) : (lines cs).flatten = cs := by
  fun_induction lines cs with
  | case1 => rfl
  | case2 rest ih => simp [ih]
  | case3 c rest _ _ ih => simp [ih]
  | case4 c rest _ _ h ih => simp_all
  | case5 c rest _ _ line more h ih => simp_all

/-- Whether some line break of the text is followed by more text. -/
def hasInnerBreak : List Char → Bool
  | [] => false
  | '\r' :: '\n' :: rest => !rest.isEmpty
  | c :: rest => if isBreak c then !rest.isEmpty else hasInnerBreak rest

/-- Puts `indent` in front of every line of the text except the first. -/
def indentLines (indent cs : List Char) : List Char :=
  indent.intercalate (lines cs)

/-- The text without the line breaks at its end. -/
def dropEnding (cs : List Char) : List Char :=
  (cs.reverse.dropWhile isBreak).reverse

/-- Whether the last character of a text ends a line. -/
def endsLine (cs : List Char) : Bool :=
  cs.getLast?.any isBreak

end Stencil.Text
