import Stencil.Code.Outline
import Stencil.Render.Trace

/-!
# Evaluation by structure

The meaning of a program, by recursion on the trees of its sequences: a section runs once
for each value of its data, with that value as the innermost one; an inverted section runs
once if there is no data; an included template runs in place, indented. Everything is
evaluated in front of a trace of what comes after it, which a fault cuts off.

## Main definitions

* `runRegion` — the runs of a section.
* `evalNodes` — the trace of a list of trees, given what an inclusion does.
* `evalAt` — the trace of a sequence at a depth of inclusion.
* `Program.evaluate` — the trace of a program.
-/

namespace Stencil

/-- What comes after the part of a program at hand. -/
abbrev Rest := Unit → Trace

/-- What the inclusion of a template does, given its name, the indentation, the data at
hand and what comes after it. -/
abbrev Inclusion := String → String → List Value → Rest → Trace

/-- The runs of a section, one for each value of its data. -/
def runRegion (path : Path) (body : List Value → Rest → Trace) (contexts : List Value) :
    List Value → Rest → Trace
  | [], after => after ()
  | v :: left, after =>
    body (v :: contexts) fun _ =>
      .event (.closed path !left.isEmpty) fun _ => runRegion path body contexts left after

mutual

/-- The trace of a tree in a template with the given indentation. -/
def evalNode (inclusion : Inclusion) (indent : String) : Node → List Value → Rest → Trace
  | .text content => fun _ after => .event (.text indent (Cursor.indented indent content)) after
  | .interpolate escaped path => fun contexts after =>
    .event (.value indent escaped (lookup contexts path)) after
  | .enter name more => fun contexts after => inclusion name (indent ++ more) contexts after
  | .region inverted path body => fun contexts after =>
    let data := contextsOf (lookup contexts path)
    if data.isEmpty = inverted then
      .event (.opened inverted path true) fun _ =>
        if inverted then
          evalNodes inclusion indent body contexts fun _ => .event (.closed path false) after
        else runRegion path (evalNodes inclusion indent body) contexts data after
    else .event (.opened inverted path false) after

/-- The trace of a list of trees in a template with the given indentation. -/
def evalNodes (inclusion : Inclusion) (indent : String) :
    List Node → List Value → Rest → Trace
  | [] => fun _ after => after ()
  | n :: ns => fun contexts after =>
    evalNode inclusion indent n contexts fun _ => evalNodes inclusion indent ns contexts after

end

/-- The trace of a sequence when templates may be included `left` more levels deep. The
name of a template that the program lacks stands for the sequence at hand. -/
def evalAt (program : Program) (limit : Nat) :
    Nat → Sequence → String → List Value → Rest → Trace
  | 0, s, indent, contexts, after =>
    evalNodes (fun name _ _ _ => .ended (some (.cursor (.tooDeep limit name)))) indent
      s.outline contexts after
  | left + 1, s, indent, contexts, after =>
    evalNodes (fun name => evalAt program limit left ((program.partials.find? name).getD s))
      indent s.outline contexts after

/-- The trace of a program. -/
def Program.evaluate (program : Program) (limit : Nat) (root : Value) : Trace :=
  evalAt program limit limit program.main "" [root] fun _ => .ended none

end Stencil
