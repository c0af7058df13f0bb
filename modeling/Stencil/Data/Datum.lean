import Stencil.Data.Value

/-!
# Typed data

Programs hand over their data as a tree that still shows how each part is typed: widths
of numbers, options, wrappers, records and the variants of enumerations. A value forgets
these differences. Map keys must have a plain text, and an object cannot be handed over
since its members are not known.

## Main definitions

* `Datum` — a tree of typed data.
* `Datum.toValue` — the value of a tree, or the first fault in it.
* `Value.toDatum` — a value as typed data.
-/

namespace Stencil

/-- A key or a value of a map, in the order in which they are handed over. -/
inductive MapPart (α : Type) where
  | key (part : α)
  | value (part : α)

/-- A tree of typed data. -/
inductive Datum where
  /-- The absent option and everything else without content. -/
  | unit
  | bool (b : Bool)
  /-- A signed number of at most 64 bits. -/
  | signed (n : Int64)
  /-- An unsigned number of at most 64 bits. -/
  | unsigned (n : UInt64)
  /-- A number of 128 bits. -/
  | wide (isSigned : Bool)
  | single (pattern : UInt32)
  | double (x : Binary64)
  | char (c : Char)
  | text (s : String)
  | bytes (bytes : List UInt8)
  /-- A present option. -/
  | present (content : Datum)
  /-- A record type with one nameless field. -/
  | wrapped (content : Datum)
  /-- A variant without content. -/
  | plainVariant (name : String)
  /-- A variant with content. Several nameless fields are a list, named ones a record. -/
  | variant (name : String) (content : Datum)
  /-- A list, a tuple, or a record type with several nameless fields. -/
  | seq (items : List Datum)
  | map (parts : List (MapPart Datum))
  | record (fields : List (String × Datum))
  /-- Data that refuses to be handed over. -/
  | refusing (reason : String)
  /-- An object among the data. -/
  | object

/-- The reasons why typed data has no value. -/
inductive DatumFault where
  | wide (isSigned : Bool)
  | keyNotText
  | valueBeforeKey
  | object
  | refused (reason : String)
  deriving DecidableEq

namespace Datum

instance : Inhabited Datum := ⟨unit⟩

/-- The text of a map key. -/
def keyText : Datum → Except DatumFault String
  | signed n => .ok (toString n.toInt)
  | unsigned n => .ok (toString n.toNat)
  | char c => .ok (String.singleton c)
  | text s => .ok s
  | plainVariant name => .ok name
  | wrapped content => keyText content
  | wide isSigned => .error (.wide isSigned)
  | refusing reason => .error (.refused reason)
  | object => .error .object
  | _ => .error .keyNotText

mutual

/-- The value of typed data. -/
def toValue : Datum → Except DatumFault Value
  | unit => .ok .none
  | bool b => .ok (.bool b)
  | signed n => .ok (.integer n)
  | unsigned n => .ok (.ofUnsigned n)
  | wide isSigned => .error (.wide isSigned)
  | single pattern => .ok (.float (.ofBinary32 pattern))
  | double x => .ok (.float x)
  | char c => .ok (.string (String.singleton c))
  | text s => .ok (.string s)
  | bytes bs => .ok (.ofBytes bs)
  | present content => toValue content
  | wrapped content => toValue content
  | plainVariant name => .ok (.string name)
  | variant name content =>
    match toValue content with
    | .error e => .error e
    | .ok v => .ok (.map [(name, v)])
  | seq items =>
    match toValues items with
    | .error e => .error e
    | .ok vs => .ok (.list vs)
  | map parts =>
    match mapEntries Option.none [] parts with
    | .error e => .error e
    | .ok entries => .ok (.map entries)
  | record fields =>
    match recordEntries [] fields with
    | .error e => .error e
    | .ok entries => .ok (.map entries)
  | refusing reason => .error (.refused reason)
  | object => .error .object

/-- The values of a list of typed data. -/
def toValues : List Datum → Except DatumFault (List Value)
  | [] => .ok []
  | d :: ds =>
    match toValue d with
    | .error e => .error e
    | .ok v =>
      match toValues ds with
      | .error e => .error e
      | .ok vs => .ok (v :: vs)

/-- The entries of a map, given the key that waits for its value and the entries so far. -/
def mapEntries (key : Option String) (entries : List (String × Value)) :
    List (MapPart Datum) → Except DatumFault (List (String × Value))
  | [] => .ok entries
  | .key d :: rest =>
    match keyText d with
    | .error e => .error e
    | .ok k => mapEntries (some k) entries rest
  | .value d :: rest =>
    match key with
    | Option.none => .error .valueBeforeKey
    | some k =>
      match toValue d with
      | .error e => .error e
      | .ok v => mapEntries Option.none (Entries.insert k v entries) rest

/-- The entries of a record, given those so far. -/
def recordEntries (entries : List (String × Value)) :
    List (String × Datum) → Except DatumFault (List (String × Value))
  | [] => .ok entries
  | (name, d) :: rest =>
    match toValue d with
    | .error e => .error e
    | .ok v => recordEntries (Entries.insert name v entries) rest

end

end Datum

namespace Value

mutual

/-- A value as typed data. -/
def toDatum : Value → Datum
  | none => .unit
  | bool b => .bool b
  | integer n => .signed n
  | float x => .double x
  | string s => .text s
  | list items => .seq (toData items)
  | map entries => .map (toMapParts entries)
  | object _ _ _ => .object

/-- A list of values as typed data. -/
def toData : List Value → List Datum
  | [] => []
  | v :: vs => toDatum v :: toData vs

/-- The entries of a map as keys and values. -/
def toMapParts : List (String × Value) → List (MapPart Datum)
  | [] => []
  | (k, v) :: rest => .key (.text k) :: .value (toDatum v) :: toMapParts rest

end

/-- Whether a value can be handed over as typed data, and if not why. -/
def handOver (v : Value) : Except DatumFault Unit :=
  v.toDatum.toValue.map fun _ => ()

end Value

end Stencil
