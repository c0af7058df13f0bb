import Stencil.Code.Program
import Stencil.Text.Lines

/-!
# Walking through a program

A cursor yields the instructions of a program one by one. It enters included templates on
its own and never yields their inclusion. A section is skipped unless the caller enters
it, and it is left unless the caller asks for it to be repeated.

## Main definitions

* `Frame`, `Pending`, `Cursor` — where the walk stands.
* `Cursor.turn` — one turn: leave a finished template, enter one, or yield.
* `Cursor.next` — turns until something is yielded.
* `Cursor.enterSection`, `Cursor.exitSection` — run, and repeat, the section just met.
* `Cursor.hasNext` — whether there is something left to yield.
-/

namespace Stencil

open Stencil.Text

/-- The place reached in a sequence, and the indentation of its lines. -/
structure Frame where
  sequence : Sequence
  /-- The index of the last instruction that was reached. -/
  index : Option Nat
  indent : String

/-- The index of the instruction after the last one that was reached. -/
def Frame.following (f : Frame) : Nat :=
  match f.index with
  | none => 0
  | some i => i + 1

/-- Whether there are instructions after the last one that was reached. -/
def Frame.isUnfinished (f : Frame) : Bool :=
  f.following < f.sequence.instrs.size

/-- The frame at the start of a sequence. -/
def Frame.start (sequence : Sequence) (indent : String) : Frame := ⟨sequence, none, indent⟩

/-- What the end of a section that was just yielded lets the caller decide. -/
inductive Pending where
  | nothing
  /-- A section was opened, and is skipped unless it is entered. -/
  | opened (target : Nat)
  /-- A section was closed, and is left unless it is repeated. -/
  | closed (target : Nat)
  /-- A section is to be repeated. -/
  | repeated (target : Nat)
  deriving DecidableEq

/-- The ways in which a walk fails. -/
inductive CursorFault where
  /-- There is nothing left to yield. -/
  | exhausted
  /-- No section was just opened. -/
  | nothingOpened
  /-- No section was just closed. -/
  | nothingClosed
  /-- A template is included at the greatest depth. -/
  | tooDeep (limit : Nat) (name : String)
  deriving DecidableEq

/-- Where the walk stands: the frame of the template at hand and those of the templates
that include it, innermost first. -/
structure Cursor where
  top : Frame
  outer : List Frame
  /-- The number of included templates at hand. -/
  depth : Nat
  depth_eq : depth = outer.length
  pending : Pending
  limit : Nat

namespace Cursor

/-- The greatest depth of inclusion if none is set. -/
def standardLimit : Nat := 64

/-- The cursor in front of a program. -/
def start (program : Program) (limit : Nat) : Cursor :=
  ⟨.start program.main "", [], 0, rfl, .nothing, limit⟩

/-- The indentation of the template at hand. -/
def indent (c : Cursor) : String := c.top.indent

/-- The index at which the walk goes on in the template at hand. -/
def nextIndex (c : Cursor) : Nat :=
  match c.pending with
  | .opened target => target + 1
  | .repeated target => target + 1
  | .nothing => c.top.following
  | .closed _ => c.top.following

/-- Whether there is something left to yield. -/
def hasNext (c : Cursor) : Bool :=
  c.nextIndex < c.top.sequence.instrs.size || c.outer.any Frame.isUnfinished

/-- The text as it stands in a template with the given indentation: each line but the first
is indented. -/
def indented (indent text : String) : String :=
  if indent.isEmpty || !hasInnerBreak text.toList then text
  else String.ofList (indentLines indent.toList text.toList)

/-- The sequence of an included template. A name that the program lacks stands for the
template at hand. -/
def target (program : Program) (c : Cursor) (name : String) : Sequence :=
  (program.partials.find? name).getD c.top.sequence

/-- One turn of the walk: the cursor after it and, unless the walk goes on, what is yielded
or the fault. -/
def turn (program : Program) (c : Cursor) : Cursor × Option (Except CursorFault Instr) :=
  let i := c.nextIndex
  match c.top.sequence.instrs[i]?, houter : c.outer with
  | none, frame :: outer =>
    ({ c with
        top := frame
        outer := outer
        depth := c.depth - 1
        depth_eq := by simp [c.depth_eq, houter]
        pending := .nothing },
      none)
  | none, [] => ({ c with pending := .nothing }, some (.error .exhausted))
  | some instr, _ =>
    let here := { c with top := { c.top with index := some i }, pending := .nothing }
    match instr with
    | .openSection _ _ target => ({ here with pending := .opened target }, some (.ok instr))
    | .closeSection _ target => ({ here with pending := .closed target }, some (.ok instr))
    | .text content => (here, some (.ok (.text (indented c.indent content))))
    | .interpolate _ _ => (here, some (.ok instr))
    | .enter name indent =>
      if c.limit ≤ c.depth then (here, some (.error (.tooDeep c.limit name)))
      else
        ({ here with
            top := .start (c.target program name) (c.indent ++ indent)
            outer := here.top :: c.outer
            depth := c.depth + 1
            depth_eq := by simp [c.depth_eq] },
          none)

/-- Turns until something is yielded, at most `n` of them. -/
def turns (program : Program) : Nat → Cursor → Option (Cursor × Except CursorFault Instr)
  | 0, _ => none
  | n + 1, c =>
    match c.turn program with
    | (c', some result) => some (c', result)
    | (c', none) => turns program n c'

/-- A number of turns after which something has been yielded: every template at hand may
have to be left, and then templates may be entered down to the greatest depth. -/
def turnBound (c : Cursor) : Nat := c.depth + c.limit + 2

/-- The next instruction, with the cursor behind it. A walk that fails still moves on. -/
def next (program : Program) (c : Cursor) : Cursor × Except CursorFault Instr :=
  (c.turns program c.turnBound).getD (c, .error .exhausted)

/-- Enters the section that was just opened. -/
def enterSection (c : Cursor) : Except CursorFault Cursor :=
  match c.pending with
  | .opened _ => .ok { c with pending := .nothing }
  | _ => .error .nothingOpened

/-- Repeats the section that was just closed. -/
def exitSection (c : Cursor) : Except CursorFault Cursor :=
  match c.pending with
  | .closed target => .ok { c with pending := .repeated target }
  | _ => .error .nothingClosed

/-- The cursor back in front of its program. -/
def reset (c : Cursor) : Cursor :=
  { c with
      top := { (c.outer.getLast?.getD c.top) with index := none }
      outer := []
      depth := 0
      depth_eq := rfl
      pending := .nothing }

end Cursor

end Stencil
