import Stencil.Code.Instr

/-!
# The outline of a sequence

A sequence is flat, but its sections nest, so it can be read as a list of trees: each
section with its body between the opening and the closing that match. Jump targets play
no part in this reading.

## Main definitions

* `Node` — an instruction that is no end of a section, or a section with its body.
* `outline` — the trees of a list of instructions.
-/

namespace Stencil

/-- An instruction that is no end of a section, or a section with its body. -/
inductive Node where
  | text (content : String)
  | interpolate (escaped : Bool) (path : Path)
  | enter (name : String) (indent : String)
  | region (inverted : Bool) (path : Path) (body : List Node)

/-- The trees of a list of instructions up to the first closing without an opening, and
the trees behind each such closing, as far as the next one. -/
def outlineLevels : List Instr → List Node × List (List Node)
  | [] => ([], [])
  | .text content :: rest =>
    let (here, outer) := outlineLevels rest
    (.text content :: here, outer)
  | .interpolate escaped path :: rest =>
    let (here, outer) := outlineLevels rest
    (.interpolate escaped path :: here, outer)
  | .enter name indent :: rest =>
    let (here, outer) := outlineLevels rest
    (.enter name indent :: here, outer)
  | .closeSection _ _ :: rest =>
    let (here, outer) := outlineLevels rest
    ([], here :: outer)
  | .openSection inverted path _ :: rest =>
    match outlineLevels rest with
    | (body, here :: outer) => (.region inverted path body :: here, outer)
    | (body, []) => ([.region inverted path body], [])

/-- The trees of a list of instructions. -/
def outline (is : List Instr) : List Node :=
  (outlineLevels is).1

/-- The trees of a sequence. -/
def Sequence.outline (s : Sequence) : List Node :=
  Stencil.outline s.instrs.toList

end Stencil
