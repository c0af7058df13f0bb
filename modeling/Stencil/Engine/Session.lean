import Stencil.Code.Document
import Stencil.Engine.Linking
import Stencil.Render.Machine
import Stencil.Report

/-!
# Using an engine

The operations on an engine: add a template, look one up, compile a template that is given
as text, as bytes, or as the document of a program, and render a program.

## Main definitions

* `Engine.add`, `Engine.get?` — the templates of an engine.
* `Engine.compileBytes` — compiles a template that is read from outside.
* `Engine.render`, `Engine.renderText`, `Engine.renderTo` — render a program.
* `Engine.listing` — an engine as it is shown to people.
-/

namespace Stencil

open Stencil.Text

namespace Engine

/-- Adds a template under a name. The old template of that name stays if the new one cannot
be compiled. Also returns the names for which the loader was asked. -/
def add (e : Engine) (name source : String) : List String × Except Fault Engine :=
  let compilation := e.compile (some name) source
  (compilation.asked,
    compilation.outcome.map fun p => { e with templates := e.templates.insert name p })

/-- The template under a name. -/
def get? (e : Engine) (name : String) : Option Program := e.templates.find? name

/-- Compiles a template that is read as bytes. Nothing is compiled if reading failed or the
bytes are no text. -/
def compileBytes (e : Engine) (input : Except TransferFault (List UInt8)) : Compilation :=
  match input with
  | .error fault => ⟨[], .error (.ofCause (.transfer fault))⟩
  | .ok bytes =>
    match String.fromUTF8? ⟨bytes.toArray⟩ with
    | some source => e.compile none source
    | none => ⟨[], .error (.ofCause (.transfer .invalidText))⟩

/-- The output of a program, at the given greatest depth of inclusion if there is one. -/
def render (e : Engine) (p : Program) (limit : Option Nat) (data : Value) : Written :=
  (p.run (limit.getD e.limit) data).output e.formatter

/-- Renders a program to a text. Nothing is rendered if there is no data. -/
def renderText (e : Engine) (p : Program) (limit : Option Nat)
    (data : Except DatumFault Value) : Except Fault String :=
  match data with
  | .error fault => .error (.ofCause (.datum fault))
  | .ok v => (e.render p limit v).text.mapError RenderFault.toFault

/-- Renders a program to a sink. What was written before a fault stays written. -/
def renderTo (e : Engine) (p : Program) (limit : Option Nat)
    (data : Except DatumFault Value) (sink : Sink) : Delivery × Except Fault Unit :=
  match data with
  | .error fault => (⟨[], 0, none⟩, .error (.ofCause (.datum fault)))
  | .ok v =>
    match (e.render p limit v).deliverTo sink with
    | (delivery, none) => (delivery, .ok ())
    | (delivery, some fault) => (delivery, .error fault.toFault)

/-- The listing of an engine. -/
def listing (e : Engine) : String :=
  openRecord "Engine"
    ["has_loader: " ++ (if e.loader.isSome then "true" else "false"),
      "templates: " ++ bracketed (e.templates.names.map quoted),
      "max_partial_depth: " ++ toString e.limit]

end Engine

/-- The listing of a program that an engine holds. -/
def Program.listingAs (p : Program) (holder : String) : String :=
  openRecord holder ["program: " ++ p.listing]

/-- What is said about a document that is no program, if it has faults of its own. -/
def DocumentFault.message? : DocumentFault → Option String
  | malformed => none
  | invalidPath text => some ("invalid query " ++ ticked text)
  | nesting fault name => some (Fault.message ⟨.nesting fault, name, none⟩)

end Stencil
