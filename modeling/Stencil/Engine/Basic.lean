import Stencil.Render.Sink

/-!
# Engines

An engine knows templates by name and may have a loader that fetches the sources of
others. It also holds what rendering needs to know beside a program and its data.

## Main definitions

* `Loader` — sources of templates by name.
* `Engine` — templates, loader, formatter and the greatest depth of inclusion.
* `Engine.sourceOf` — the source of a template that is to be included.
* `Engine.known` — the names for which there is an answer.
-/

namespace Stencil

/-- The sources that can be fetched, or the failures met on the way, by name. -/
structure Loader where
  answers : Table (Except TransferFault String)

/-- What a loader gives for a name. -/
def Loader.load (l : Loader) (name : String) : Except TransferFault String :=
  (l.answers.find? name).getD (.error (.reported .notFound ("no partial named " ++ ticked name)))

/-- The templates and settings with which templates are compiled and rendered. -/
structure Engine where
  templates : Table Program := .empty
  loader : Option Loader := none
  formatter : Formatter := Formatter.escaped
  /-- The greatest depth of inclusion. -/
  limit : Nat := Cursor.standardLimit

namespace Engine

/-- The engine that knows no template. -/
def empty : Engine := {}

/-- Whether the loader is asked for the source of a template. -/
def asksFor (e : Engine) (name : String) : Bool :=
  e.loader.isSome && !e.templates.contains name

/-- The source of a template that is to be included: that of the template known under the
name, or else what the loader gives. -/
def sourceOf (e : Engine) (name : String) : Except Cause String :=
  match e.templates.find? name, e.loader with
  | some program, _ => .ok program.source
  | none, none => .error (.unknownPartial name)
  | none, some loader =>
    match loader.load name with
    | .ok source => .ok source
    | .error fault =>
      if fault.isNotFound then .error (.unknownPartial name)
      else .error (.unreadablePartial name fault)

/-- The names for which there is a template or an answer of the loader. -/
def known (e : Engine) : List String :=
  e.templates.names ++ (e.loader.map fun l => l.answers.names).getD []

end Engine

end Stencil
