import Stencil.Render.Formatter
import Stencil.Render.Trace
import Stencil.Text.Lines

/-!
# Output

The texts that a rendering writes, in order. A text that starts a line is preceded by the
indentation of its template, unless there is nothing to write. The output is made on
demand, like the trace it stems from.

## Main definitions

* `writes` — what is written for one text.
* `Written` — the texts that are written, and the fault that ended the rendering.
* `Written.pieces`, `Written.fault`, `Written.text` — all texts, the fault, and the whole.
* `Trace.output` — the output of a trace.
-/

namespace Stencil

open Stencil.Text

/-- The texts written for one text, with the indentation in front if it starts a line. -/
def writes (lineStart : Bool) (indent content : String) : List String :=
  if content.isEmpty then []
  else if lineStart && !indent.isEmpty then [indent, content]
  else [content]

/-- Whether what is written next starts a line. -/
def startsLine (lineStart : Bool) (content : String) : Bool :=
  if content.isEmpty then lineStart else endsLine content.toList

/-- The ways in which a rendering fails. -/
inductive RenderFault where
  | run (fault : RunFault)
  /-- The formatter failed. -/
  | format (fault : Fault)
  deriving DecidableEq

/-- The fault with which a rendering failed. That of a formatter is passed on as it is. -/
def RenderFault.toFault : RenderFault → Fault
  | run fault => .ofCause (.run fault)
  | format fault => fault

/-- The texts that a rendering writes, each with what comes after it, and the fault that
ended the rendering if there is one. -/
inductive Written where
  | ended (fault : Option RenderFault)
  | piece (content : String) (rest : Unit → Written)

namespace Written

instance : Inhabited Written := ⟨.ended none⟩

/-- All texts that are written, in order. -/
def pieces : Written → List String
  | ended _ => []
  | piece content rest => content :: (rest ()).pieces

/-- The fault at the end, if there is one. -/
def fault : Written → Option RenderFault
  | ended fault => fault
  | piece _ rest => (rest ()).fault

/-- What is written, behind some other texts. -/
def behind : List String → (Unit → Written) → Written
  | [], rest => rest ()
  | content :: more, rest => piece content fun _ => behind more rest

/-- A text with all that is written behind it, if the rendering did not fail. -/
def textAfter (start : String) : Written → Except RenderFault String
  | ended none => .ok start
  | ended (some fault) => .error fault
  | piece content rest => (rest ()).textAfter (start ++ content)

/-- All that is written, if the rendering did not fail. -/
def text (w : Written) : Except RenderFault String := w.textAfter ""

end Written

/-- The text that an event writes, with its indentation, if it writes at all. -/
def Event.content (formatter : Formatter) : Event → Except Fault (Option (String × String))
  | .text indent content => .ok (some (indent, content))
  | .value indent escaped v? =>
    match (if escaped then formatter else Formatter.plain) (v?.getD .none) with
    | .ok content => .ok (some (indent, content))
    | .error fault => .error fault
  | .opened _ _ _ => .ok none
  | .closed _ _ => .ok none

/-- The output of a trace, given whether it begins at the start of a line. -/
def Trace.outputFrom (formatter : Formatter) (lineStart : Bool) : Trace → Written
  | .ended fault => .ended (fault.map .run)
  | .event e rest =>
    match e.content formatter with
    | .error f => .ended (some (.format f))
    | .ok none => (rest ()).outputFrom formatter lineStart
    | .ok (some (indent, content)) =>
      Written.behind (writes lineStart indent content) fun _ =>
        (rest ()).outputFrom formatter (startsLine lineStart content)

/-- The output of a trace. -/
def Trace.output (formatter : Formatter) (t : Trace) : Written :=
  t.outputFrom formatter true

end Stencil
