import Stencil.Code.Instr

/-!
# Building a sequence

A builder takes instructions one by one and matches the ends of sections as it goes: an
opening is noted, and the closing that matches it settles the targets of both. Targets
that the instructions bring along are ignored.

## Main definitions

* `Builder` — the instructions so far and the sections that are open.
* `Builder.push`, `Builder.extend` — add one instruction, or a list of them or none.
* `Builder.pushInPlace`, `Builder.extendInPlace` — the same for a builder that stays in use, with
  `Builder.rollback` to take instructions back.
* `Builder.finish` — the finished sequence, if no section is open.
* `NestingFault` — the ways in which sections can be misnested.
-/

namespace Stencil

/-- The ways in which a list of instructions fails to be a sequence. -/
inductive NestingFault where
  /-- The section that is open is another one. -/
  | mismatched (expected found : Path)
  /-- No section is open. -/
  | unopened (found : Path)
  /-- The list ends while the section is open. -/
  | neverClosed (path : Path)
  /-- The list has no instruction. -/
  | empty
  deriving DecidableEq

/-- A sequence under construction. -/
structure Builder where
  /-- The instructions so far; those that open a section still open have no target yet. -/
  instrs : Array Instr := #[]
  /-- The sections that are open with the indices of their openings, innermost first. -/
  opened : List (Path × Nat) := []
  deriving DecidableEq

namespace Builder

/-- The builder without instructions. -/
def empty : Builder := {}

instance : Inhabited Builder := ⟨empty⟩

/-- The number of sections that are open. -/
def depth (b : Builder) : Nat := b.opened.length

/-- The innermost section that is open. -/
def current? (b : Builder) : Option Path := b.opened.head?.map (·.1)

/-- Whether there is no instruction yet. -/
def isEmpty (b : Builder) : Bool := b.instrs.isEmpty

/-- Whether the instructions so far make a sequence. -/
def isComplete (b : Builder) : Bool := !b.isEmpty && b.depth == 0

/-- Adds one instruction at the end. -/
def push (b : Builder) : Instr → Except NestingFault Builder
  | .openSection inverted path _ =>
    .ok { instrs := b.instrs.push (.openSection inverted path Instr.unresolved)
          opened := (path, b.instrs.size) :: b.opened }
  | .closeSection path _ =>
    match b.opened with
    | [] => .error (.unopened path)
    | (expected, start) :: outer =>
      if expected = path then
        .ok { instrs :=
                (b.instrs.modify start (Instr.withTarget b.instrs.size)).push
                  (.closeSection path start)
              opened := outer }
      else .error (.mismatched expected path)
  | i => .ok { b with instrs := b.instrs.push i }

/-- Adds a list of instructions at the end. If one of them does not fit, none is added. -/
def extend (b : Builder) (is : List Instr) : Except NestingFault Builder :=
  is.foldlM push b

/-- Ends the innermost section of a builder that stays in use, if it has the given path, and
settles the target of its opening. Also returns the index of the opening. -/
def closeInPlace (b : Builder) (path : Path) (target : Nat) :
    Builder × Except NestingFault Nat :=
  match b.opened with
  | [] => (b, .error (.unopened path))
  | (expected, start) :: outer =>
    if expected ≠ path then (b, .error (.mismatched expected path))
    else
      let b := { b with opened := outer }
      ({ b with instrs := b.instrs.modify start (Instr.withTarget target) }, .ok start)

/-- Adds one instruction at the end of a builder that stays in use. Also returns its index. -/
def pushInPlace (b : Builder) (i : Instr) : Builder × Except NestingFault Nat :=
  let index := b.instrs.size
  match i with
  | .openSection inverted path _ =>
    let b := { b with opened := (path, index) :: b.opened }
    ({ b with instrs := b.instrs.push (.openSection inverted path Instr.unresolved) }, .ok index)
  | .closeSection path _ =>
    match b.closeInPlace path index with
    | (b, .error fault) => (b, .error fault)
    | (b, .ok start) => ({ b with instrs := b.instrs.push (.closeSection path start) }, .ok index)
  | i => ({ b with instrs := b.instrs.push i }, .ok index)

/-- Takes back the instructions from an index on, given the sections that were open there. Such
a section may have been closed since, so its opening loses its target again. -/
def rollback (b : Builder) (size : Nat) (opened : List (Path × Nat)) : Builder :=
  { instrs := opened.foldl (fun is o => is.modify o.2 Instr.reopened) (b.instrs.take size)
    opened := opened }

/-- Adds instructions until one of them does not fit. -/
def pushAll (b : Builder) : List Instr → Builder × Option NestingFault
  | [] => (b, none)
  | i :: is =>
    match b.push i with
    | .error fault => (b, some fault)
    | .ok b' => b'.pushAll is

/-- Adds a list of instructions at the end. If one of them does not fit, those before it are
taken back, and the builder can be used on. -/
def extendInPlace (b : Builder) (is : List Instr) : Builder × Option NestingFault :=
  match b.pushAll is with
  | (b', none) => (b', none)
  | (b', some fault) => (b'.rollback b.instrs.size b.opened, some fault)

/-- The finished sequence. -/
def finish (b : Builder) : Except NestingFault Sequence :=
  match b.current? with
  | some path => .error (.neverClosed path)
  | none => if h : 0 < b.instrs.size then .ok ⟨b.instrs, h⟩ else .error .empty

end Builder

/-- The sequence that a list of instructions makes. -/
def Sequence.ofList (is : List Instr) : Except NestingFault Sequence :=
  Builder.empty.extend is >>= Builder.finish

end Stencil
