import Stencil.Path

/-!
# Instructions

A template is compiled to a flat list of instructions. The two ends of a section carry
each other's index, so a section can be skipped or repeated by a jump.

## Main definitions

* `Instr` — one instruction.
* `Sequence` — a finished, non-empty list of instructions.
-/

namespace Stencil

/-- One instruction. The `target` of a section's end is the index of its other end. -/
inductive Instr where
  /-- Writes text. -/
  | text (content : String)
  /-- Writes the data at a path, with or without escaping. -/
  | interpolate (escaped : Bool) (path : Path)
  /-- Starts a section, or an inverted section. -/
  | openSection (inverted : Bool) (path : Path) (target : Nat)
  /-- Ends a section. -/
  | closeSection (path : Path) (target : Nat)
  /-- Runs the sequence of another template, each of its lines indented. -/
  | enter (name : String) (indent : String)
  deriving DecidableEq

namespace Instr

/-- The target of a section whose other end is not known yet: the largest machine number, at
which no list has an entry. -/
def unresolved : Nat := 0xFFFFFFFFFFFFFFFF

/-- The instruction with another target, if it has one. -/
def withTarget (target : Nat) : Instr → Instr
  | openSection inverted path _ => openSection inverted path target
  | closeSection path _ => closeSection path target
  | i => i

/-- The instruction without the target of an opening, if it is one. -/
def reopened : Instr → Instr
  | openSection inverted path _ => openSection inverted path unresolved
  | i => i

/-- The index that the end of a section carries. -/
def target? : Instr → Option Nat
  | openSection _ _ target => some target
  | closeSection _ target => some target
  | _ => none

/-- The path of the section that the instruction opens or closes. -/
def sectionPath? : Instr → Option Path
  | openSection _ path _ => some path
  | closeSection path _ => some path
  | _ => none

/-- The name of the template that the instruction runs. -/
def included? : Instr → Option String
  | enter name _ => some name
  | _ => none

end Instr

/-- A finished list of instructions, never empty. -/
structure Sequence where
  instrs : Array Instr
  size_pos : 0 < instrs.size
  deriving DecidableEq

namespace Sequence

/-- The names of the templates that the sequence runs, in order. -/
def included (s : Sequence) : List String :=
  s.instrs.toList.filterMap Instr.included?

end Sequence

end Stencil
