import Stencil.Engine.Basic

/-!
# Linking

The templates that a template includes are compiled with it, in the order in which they
are first referred to, each one once. A template that is being compiled further out is not
compiled again: its sequence will be there when all is done.

A chain of templates that are being compiled inside one another has distinct names, all of
them known to the engine, so there are never more levels than known names.

## Main definitions

* `Linkage` — the sequences compiled so far, and what the loader was asked for.
* `linkAll` — compiles what a list of references needs.
* `compileAt` — compiles a template, with a given number of levels of inclusion.
* `Engine.compile` — compiles a template into a program.
-/

namespace Stencil

/-- What compiling has brought about: the sequences of the included templates that are
complete, and the names for which the loader was asked, in order. -/
structure Linkage where
  compiled : Table Sequence := .empty
  asked : List String := []

/-- The way in which an included template is compiled, given the names of the templates
that are being compiled, innermost first, and its source. -/
abbrev Descent := List String → String → Linkage → Linkage × Except Fault Sequence

/-- The linkage after the source of a template was looked for. -/
def Linkage.noting (st : Linkage) (e : Engine) (name : String) : Linkage :=
  if e.asksFor name then { st with asked := st.asked ++ [name] } else st

/-- Compiles the templates that a list of references needs. -/
def linkAll (e : Engine) (descend : Descent) (chain : List String) (source : String) :
    List Reference → Linkage → Linkage × Except Fault Unit
  | [], st => (st, .ok ())
  | r :: rest, st =>
    if st.compiled.contains r.name || chain.contains r.name then
      linkAll e descend chain source rest st
    else
      match e.sourceOf r.name with
      | .error cause =>
        (st.noting e r.name, .error ⟨cause, none, r.span.map fun span => ⟨source, span⟩⟩)
      | .ok text =>
        match descend (r.name :: chain) text (st.noting e r.name) with
        | (st', .error fault) => (st', .error (fault.within r.name))
        | (st', .ok sequence) =>
          linkAll e descend chain source rest
            { st' with compiled := st'.compiled.insert r.name sequence }

/-- Compiles a template. What it includes comes first: a fault in an included template
counts before a fault that stands further down in the template itself. -/
def compileWith (e : Engine) (descend : Descent) : Descent := fun chain source st =>
  let draft := Draft.ofText source.toList
  match linkAll e descend chain source draft.references st with
  | (st', .error fault) => (st', .error fault)
  | (st', .ok ()) =>
    match draft.outcome with
    | .error error => (st', .error (error.toFault source))
    | .ok sequence => (st', .ok sequence)

/-- Compiles a template with at most the given number of levels of inclusion. Below the
last level every template counts as unknown. -/
def compileAt (e : Engine) : Nat → Descent
  | 0 =>
    compileWith e fun chain _ st =>
      (st, .error (.ofCause (.unknownPartial (chain.headD ""))))
  | levels + 1 => compileWith e (compileAt e levels)

/-- What compiling a template yields, and the names for which the loader was asked. -/
structure Compilation where
  asked : List String
  outcome : Except Fault Program

/-- The program of a template that is compiled under a name: if anything includes that
name, the template is a part of its own program. -/
def Program.closing (name : Option String) (p : Program) : Program :=
  match name with
  | none => p
  | some n =>
    if p.sequences.any fun s => s.included.contains n then
      { p with partials := p.partials.insert n p.main }
    else p

namespace Engine

/-- Compiles a template. A template that is compiled under a name may include itself. -/
def compile (e : Engine) (name : Option String) (source : String) : Compilation :=
  match compileAt e e.known.length name.toList source {} with
  | (st, .error fault) => ⟨st.asked, .error fault⟩
  | (st, .ok main) => ⟨st.asked, .ok (Program.closing name ⟨source, main, st.compiled⟩)⟩

end Engine

end Stencil
