import Stencil.Code.Program

/-!
# Programs as documents

A program is stored as a document of texts, lists and records. Jump targets are not
stored: reading a document sequences every list of instructions again, so that whatever
the document says about targets is ignored.

A record may also be stored as the list of its fields in their fixed order, the name of
the operation first; the fields of a program are then its source, its own instructions
and those of its partials.

## Main definitions

* `Document` — a tree of plain data.
* `DocumentFault` — the ways in which a document fails to be a program.
* `Program.toDocument`, `Program.ofDocument` — store and read a program.
-/

namespace Stencil

/-- A tree of plain data. A number is `mantissa * 10 ^ (-decimals)`. -/
inductive Document where
  | null
  | bool (b : Bool)
  | number (mantissa : Int) (decimals : Nat)
  | text (s : String)
  | array (items : List Document)
  | object (fields : List (String × Document))

/-- The ways in which a document fails to be a program. -/
inductive DocumentFault where
  /-- A part is missing or of the wrong form. -/
  | malformed
  /-- A text that should be a path is none. -/
  | invalidPath (text : String)
  /-- A list of instructions is no sequence; the name is that of the partial. -/
  | nesting (fault : NestingFault) (name : Option String)
  deriving DecidableEq

namespace Document

instance : Inhabited Document := ⟨null⟩

/-- A text. -/
def asText : Document → Except DocumentFault String
  | text s => .ok s
  | _ => .error .malformed

/-- A path in its written form. -/
def asPath (d : Document) : Except DocumentFault Path := do
  let s ← d.asText
  match Path.ofText? s with
  | some path => .ok path
  | none => .error (.invalidPath s)

/-- The field of a record. -/
def field (fields : List (String × Document)) (name : String) :
    Except DocumentFault Document :=
  match Entries.find? name fields with
  | some d => .ok d
  | none => .error .malformed

end Document

namespace Instr

/-- The names of the fields of an operation, in their order. -/
def fieldNames? : String → Option (List String)
  | "append_text" => some ["text"]
  | "append_variable" => some ["name"]
  | "append_unescaped_variable" => some ["name"]
  | "open_section" => some ["name"]
  | "open_inverted_section" => some ["name"]
  | "close_section" => some ["name"]
  | "enter_partial" => some ["name", "indentation"]
  | _ => none

/-- What was read from the first fields, provided that no fields are left over. -/
def ofAllFields (left : List Document) (i : Instr) : Except DocumentFault Instr :=
  if left.isEmpty then .ok i else .error .malformed

/-- The instruction of an operation with the given fields. A fault in a field counts before
one field too many. -/
def ofFields : String → List Document → Except DocumentFault Instr
  | "append_text", d :: left => d.asText >>= fun s => ofAllFields left (text s)
  | "append_variable", d :: left => d.asPath >>= fun p => ofAllFields left (interpolate true p)
  | "append_unescaped_variable", d :: left =>
    d.asPath >>= fun p => ofAllFields left (interpolate false p)
  | "open_section", d :: left =>
    d.asPath >>= fun p => ofAllFields left (openSection false p unresolved)
  | "open_inverted_section", d :: left =>
    d.asPath >>= fun p => ofAllFields left (openSection true p unresolved)
  | "close_section", d :: left =>
    d.asPath >>= fun p => ofAllFields left (closeSection p unresolved)
  | "enter_partial", d :: e :: left => do
    let name ← d.asText
    let indent ← e.asText
    ofAllFields left (enter name indent)
  | _, _ => .error .malformed

/-- Reads an instruction, without target. -/
def ofDocument : Document → Except DocumentFault Instr
  | .object fields => do
    let op ← (← Document.field fields "op").asText
    match fieldNames? op with
    | some names => do ofFields op (← names.mapM (Document.field fields))
    | none => .error .malformed
  | .array (op :: rest) => do ofFields (← op.asText) rest
  | _ => .error .malformed

/-- Stores an instruction, without its target. -/
def toDocument : Instr → Document
  | text content => .object [("op", .text "append_text"), ("text", .text content)]
  | interpolate true path => named "append_variable" path
  | interpolate false path => named "append_unescaped_variable" path
  | openSection false path _ => named "open_section" path
  | openSection true path _ => named "open_inverted_section" path
  | closeSection path _ => named "close_section" path
  | enter name indent =>
    .object [("indentation", .text indent), ("name", .text name), ("op", .text "enter_partial")]
where
  /-- A record with the written form of a path. -/
  named (op : String) (path : Path) : Document :=
    .object [("name", .text path.text), ("op", .text op)]

/-- Reads a list of instructions. -/
def listOfDocument : Document → Except DocumentFault (List Instr)
  | .array items => items.mapM ofDocument
  | _ => .error .malformed

end Instr

namespace Sequence

/-- Stores the instructions of a sequence. -/
def toDocument (s : Sequence) : Document :=
  .array (s.instrs.toList.map Instr.toDocument)

end Sequence

/-- The lists of instructions in a document, before they are sequenced. -/
structure RawProgram where
  source : String
  main : List Instr
  partials : Table (List Instr)

namespace RawProgram

/-- Reads the partials, in the order of their names. -/
def partialsOfDocument : Document → Except DocumentFault (Table (List Instr))
  | .object fields =>
    (Table.ofList fields).entries.foldlM
      (fun t (name, d) => t.insert name <$> Instr.listOfDocument d) Table.empty
  | _ => .error .malformed

/-- Reads a part that may be missing. -/
def optional {α : Type} (read : Document → Except DocumentFault α) (default : α) :
    Option Document → Except DocumentFault α
  | some d => read d
  | none => .ok default

/-- Reads the parts of a program. The first fault counts: of a record, in the order of the
names of its fields; of a list, in the order of the list. -/
def ofDocument : Document → Except DocumentFault RawProgram
  | .object fields => do
    let main? ← (Entries.find? "main" fields).mapM Instr.listOfDocument
    let partials ← optional partialsOfDocument .empty (Entries.find? "partials" fields)
    let source ← optional Document.asText "" (Entries.find? "source" fields)
    match main? with
    | some main => .ok ⟨source, main, partials⟩
    | none => .error .malformed
  | .array (d :: e :: rest) => do
    let source ← d.asText
    let main ← Instr.listOfDocument e
    let partials ← optional partialsOfDocument .empty rest.head?
    if rest.length ≤ 1 then .ok ⟨source, main, partials⟩ else .error .malformed
  | .array [d] => do
    let _ ← d.asText
    .error .malformed
  | _ => .error .malformed

/-- Sequences a list of instructions under the name of its partial, if it has one. -/
def sequence (name : Option String) (is : List Instr) : Except DocumentFault Sequence :=
  match Sequence.ofList is with
  | .ok s => .ok s
  | .error fault => .error (.nesting fault name)

/-- Sequences the instructions of a program, its own first and then those of its partials
in the order of their names. -/
def toProgram (raw : RawProgram) : Except DocumentFault Program := do
  let main ← sequence none raw.main
  let partials ← raw.partials.entries.foldlM
    (fun t (name, is) => t.insert name <$> sequence (some name) is) Table.empty
  return ⟨raw.source, main, partials⟩

end RawProgram

namespace Program

/-- Stores a program. -/
def toDocument (p : Program) : Document :=
  .object
    [("main", p.main.toDocument),
      ("partials", .object (p.partials.entries.map fun (name, s) => (name, s.toDocument))),
      ("source", .text p.source)]

/-- Reads a program. All of the document is read before anything is sequenced. -/
def ofDocument (d : Document) : Except DocumentFault Program :=
  RawProgram.ofDocument d >>= RawProgram.toProgram

end Program

end Stencil
