import Stencil.Data.Value
import Stencil.Path

/-!
# Scopes

While a section runs, its data is the innermost place in which paths are looked up. A path
is owned by the innermost data that has its first name, and is then resolved there and
nowhere else, even if its other names cannot be found there.

## Main definitions

* `owns`, `lookup` — who owns a path, and what a path leads to.
* `contextsOf` — the data with which a section runs, once for each.
* `Scopes` — the sections that run, over the data of the whole rendering.
* `Scopes.openSection`, `Scopes.closeSection` — start and end a run of a section.
* `Scopes.closeInPlace` — ends a run of a section in scopes that stay in use.
-/

namespace Stencil

/-- Whether the first name of a path is known to a value. The value at hand is known to
all. -/
def owns (path : Path) (v : Value) : Bool :=
  match path.base? with
  | none => true
  | some name => (v.member name).isSome

/-- The value of a path, given the data at hand, innermost first. -/
def lookup (contexts : List Value) (path : Path) : Option Value :=
  (contexts.find? (owns path)).bind (Value.resolve · path.segments)

/-- The data with which a section runs, once for each: nothing for a value that is missing,
absent, false or an empty list, the items of a list, and else the value itself. -/
def contextsOf : Option Value → List Value
  | none => []
  | some .none => []
  | some (.bool false) => []
  | some (.list items) => items
  | some v => [v]

/-- A section that runs: its path and the data of the current run and of those to come. An
inverted section runs once without data of its own. -/
structure Scope where
  path : Path
  contexts : List Value

/-- The sections that run, innermost first, over the data of the whole rendering. -/
structure Scopes where
  inner : List Scope
  root : Value

/-- The ways in which a section cannot be closed. -/
inductive ScopeFault where
  /-- No section runs. -/
  | onlyRoot (path : Path)
  /-- Another section is the innermost one. -/
  | notInnermost (path innermost : Path)
  deriving DecidableEq

namespace Scopes

/-- No section runs. -/
def ofRoot (root : Value) : Scopes := ⟨[], root⟩

/-- The number of scopes, that of the whole rendering included. -/
def size (s : Scopes) : Nat := s.inner.length + 1

/-- The data at hand, innermost first. -/
def contexts (s : Scopes) : List Value :=
  s.inner.filterMap (·.contexts.head?) ++ [s.root]

/-- The value of a path. -/
def get? (s : Scopes) (path : Path) : Option Value :=
  lookup s.contexts path

/-- Starts a section if it is to run, that is, if there is data for it or, for an inverted
section, if there is none. Returns whether it runs. -/
def openSection (s : Scopes) (inverted : Bool) (path : Path) : Bool × Scopes :=
  let contexts := contextsOf (s.get? path)
  if contexts.isEmpty = inverted then
    (true, { s with inner := ⟨path, if inverted then [] else contexts⟩ :: s.inner })
  else (false, s)

/-- Ends a run of the innermost section. Returns whether it runs again. -/
def closeSection (s : Scopes) (path : Path) : Except ScopeFault (Bool × Scopes) :=
  match s.inner with
  | [] => .error (.onlyRoot path)
  | scope :: outer =>
    if scope.path = path then
      match scope.contexts.tail with
      | [] => .ok (false, { s with inner := outer })
      | left => .ok (true, { s with inner := { scope with contexts := left } :: outer })
    else .error (.notInnermost path scope.path)

/-- Ends a run of the innermost section in scopes that stay in use. The data of the run is taken
off, and the section with it if no data is left. -/
def closeInPlace (s : Scopes) (path : Path) : Scopes × Except ScopeFault Bool :=
  match s.inner with
  | [] => (s, .error (.onlyRoot path))
  | scope :: outer =>
    if scope.path ≠ path then (s, .error (.notInnermost path scope.path))
    else
      let scope := { scope with contexts := scope.contexts.tail }
      let s := { s with inner := scope :: outer }
      if scope.contexts.isEmpty then ({ s with inner := outer }, .ok false) else (s, .ok true)

end Scopes

end Stencil
