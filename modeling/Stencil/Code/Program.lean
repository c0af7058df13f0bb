import Stencil.Code.Builder
import Stencil.Data.Table

/-!
# Programs

A compiled template: its source, its own sequence, and the sequences of the templates that
it includes, directly or through others, each once under its name.

## Main definitions

* `Program` — a compiled template.
* `Program.isClosed` — no sequence includes a template that the program lacks.
-/

namespace Stencil

/-- A compiled template. -/
structure Program where
  source : String
  main : Sequence
  partials : Table Sequence
  deriving DecidableEq

namespace Program

/-- All sequences of a program. -/
def sequences (p : Program) : List Sequence :=
  p.main :: p.partials.entries.map (·.2)

/-- Whether every template that some sequence includes is a part of the program. -/
def isClosed (p : Program) : Bool :=
  p.sequences.all fun s => s.included.all p.partials.contains

end Program

end Stencil
