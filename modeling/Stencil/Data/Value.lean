import Stencil.Data.Table
import Stencil.Number.Shortest

/-!
# Values

The data that a template is rendered with: a tree of lists and maps over plain values, in
which objects may occur that answer questions about their members when asked.

## Main definitions

* `Value` — a tree of data.
* `Value.member` — the member of a map or an object under a name.
* `Value.same` — equality of data; numbers are compared as numbers, objects by identity.
* `Value.text` — the written form.
-/

namespace Stencil

/-- A tree of data. The entries of a map stand in the order of their names. An object has
an identity, fields, and accessors that are tried for a name that is not a field. -/
inductive Value where
  | none
  | bool (b : Bool)
  | integer (n : Int64)
  | float (x : Binary64)
  | string (s : String)
  | list (items : List Value)
  | map (entries : List (String × Value))
  | object (id : Nat) (field call : String → Option Value)

namespace Value

instance : Inhabited Value := ⟨none⟩

/-- An unsigned number, as an integer if it fits and else as the nearest float. -/
def ofUnsigned (n : UInt64) : Value :=
  if n.toNat < twoTo 63 then integer (Int64.ofNat n.toNat) else float (Binary64.ofNat n.toNat)

/-- A list of bytes. -/
def ofBytes (bytes : List UInt8) : Value :=
  list (bytes.map fun b => integer (Int64.ofNat b.toNat))

/-- A map with the given entries, of which the last one under a name counts. -/
def ofEntries (entries : List (String × Value)) : Value :=
  map (Entries.ofList entries)

/-- Whether the value has members that can be asked for by name. -/
def hasMembers : Value → Bool
  | map _ | object _ _ _ => true
  | _ => false

/-- The member under a name. An object is asked for a field first. -/
def member (v : Value) (name : String) : Option Value :=
  match v with
  | map entries => Entries.find? name entries
  | object _ field call => field name <|> call name
  | _ => Option.none

/-- The value at the end of a path of members. -/
def resolve (v : Value) (segments : List String) : Option Value :=
  segments.foldlM member v

mutual

/-- Whether two values are the same data. -/
def same : Value → Value → Bool
  | none, none => true
  | bool a, bool b => a == b
  | integer a, integer b => a == b
  | float a, float b => a.same b
  | string a, string b => a == b
  | list as, list bs => sameItems as bs
  | map as, map bs => sameEntries as bs
  | object a _ _, object b _ _ => a == b
  | _, _ => false

/-- Whether two lists hold the same data. -/
def sameItems : List Value → List Value → Bool
  | [], [] => true
  | a :: as, b :: bs => same a b && sameItems as bs
  | _, _ => false

/-- Whether two lists of entries hold the same data under the same names. -/
def sameEntries : List (String × Value) → List (String × Value) → Bool
  | [], [] => true
  | (k, a) :: as, (l, b) :: bs => k == l && same a b && sameEntries as bs
  | _, _ => false

end

instance : BEq Value := ⟨same⟩

/-- The parts of a written list or map with the separator between them. -/
def joined (parts : List String) : String :=
  ", ".intercalate parts

mutual

/-- The written form of a value. Objects and the absent value leave nothing. -/
def text : Value → String
  | none => ""
  | bool b => if b then "true" else "false"
  | integer n => toString n.toInt
  | float x => x.text
  | string s => s
  | list items => "[" ++ joined (itemTexts items) ++ "]"
  | map entries => "\x7b" ++ joined (entryTexts entries) ++ "\x7d"
  | object _ _ _ => ""

/-- The written forms of the items of a list. -/
def itemTexts : List Value → List String
  | [] => []
  | v :: vs => text v :: itemTexts vs

/-- The written forms of the entries of a map. -/
def entryTexts : List (String × Value) → List String
  | [] => []
  | (k, v) :: rest => (k ++ "=" ++ text v) :: entryTexts rest

end

/-- The name of a kind of value. -/
def kindName : Value → String
  | none => "none"
  | bool _ => "bool"
  | integer _ => "integer"
  | float _ => "float"
  | string _ => "string"
  | list _ => "list"
  | map _ => "map"
  | object _ _ _ => "object"

end Value

end Stencil
