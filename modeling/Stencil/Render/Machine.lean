import Stencil.Render.Evaluation

/-!
# Running a program

A program is run by a machine that walks through the flat sequences with a cursor and
keeps the data of the sections that run. Each step of the machine is one event of the
evaluation by structure, which therefore sets the pace: it tells whether another step may
follow, and it always ends.

## Main definitions

* `Machine` — a cursor and the scopes.
* `Machine.step` — one event.
* `Machine.run` — steps until the program ends.
* `Program.run` — the trace of a program.
-/

namespace Stencil

/-- A program in the middle of its run. -/
structure Machine where
  cursor : Cursor
  scopes : Scopes

namespace Machine

/-- The machine in front of a program. -/
def start (program : Program) (limit : Nat) (root : Value) : Machine :=
  ⟨.start program limit, .ofRoot root⟩

/-- Acts upon an instruction that the cursor yielded. -/
def perform (m : Machine) : Instr → Except RunFault (Event × Machine)
  | .text content => .ok (.text m.cursor.indent content, m)
  | .interpolate escaped path => .ok (.value m.cursor.indent escaped (m.scopes.get? path), m)
  | .openSection inverted path _ =>
    match m.scopes.openSection inverted path with
    | (false, scopes) => .ok (.opened inverted path false, { m with scopes := scopes })
    | (true, scopes) =>
      match m.cursor.enterSection with
      | .error fault => .error (.cursor fault)
      | .ok cursor => .ok (.opened inverted path true, ⟨cursor, scopes⟩)
  | .closeSection path _ =>
    match m.scopes.closeSection path with
    | .error fault => .error (.scope fault)
    | .ok (false, scopes) => .ok (.closed path false, { m with scopes := scopes })
    | .ok (true, scopes) =>
      match m.cursor.exitSection with
      | .error fault => .error (.cursor fault)
      | .ok cursor => .ok (.closed path true, ⟨cursor, scopes⟩)
  | .enter name _ => .error (.yieldedInclusion name)

/-- One step of the run. -/
def step (program : Program) (m : Machine) : Except RunFault (Event × Machine) :=
  match m.cursor.next program with
  | (_, .error fault) => .error (.cursor fault)
  | (cursor, .ok instr) => perform { m with cursor := cursor } instr

/-- The trace of a run that takes a step for each event of `pace`, and one more. -/
def run (program : Program) (pace : Trace) (m : Machine) : Trace :=
  if m.cursor.hasNext then
    match m.step program with
    | .error fault => .ended (some fault)
    | .ok (event, m') =>
      .event event fun _ =>
        match pace with
        | .ended _ => .ended none
        | .event _ rest => run program (rest ()) m'
  else .ended none

end Machine

/-- The trace of a program, run by the machine. A run takes one step for each event of the
evaluation by structure, and one more for a fault. -/
def Program.run (program : Program) (limit : Nat) (root : Value) : Trace :=
  (Machine.start program limit root).run program (program.evaluate limit root)

end Stencil
