import Mathlib.Data.List.Forall2
import Mathlib.Tactic.Lemma
import Stencil.Proofs.Data.Conversions

/-!
# Reading typed data

Typed data is read place by place, a key before its value. The first place that is at fault decides;
if there is none, what is read is determined part by part. Numbers of 128 bits, data that refuses
and objects are faults wherever they are read, and a map may only have keys with a text, each in
front of its value.

## Main definitions

* `Datum.Site`, `Datum.Site.fault?` — a place that is come to, and what is wrong with it.
* `Datum.sites` — the places of a tree in the order in which they are come to.
* `Datum.pairs` — the values of a map under the texts of their keys.
* `Datum.IsReadAs` — what a tree is read as, part by part.

## Main results

* `Datum.faultOf_toValue` — the fault of a tree is the first one that is come to.
* `Datum.isReadAs_of_toValue`, `Datum.IsReadAs.unique` — what is read is determined part by part.
* `Datum.toValue_decided` — when a tree is read, and as what.
-/

namespace Stencil

namespace Datum

variable {d : Datum} {v w : Value}

/-! ## Places and their faults -/

/-- The data in records with one nameless field, at any depth. -/
def unwrapped : Datum → Datum
  | wrapped content => unwrapped content
  | d => d

/-- The text of data that can be the key of a map. -/
def keyName? : Datum → Option String
  | text s => some s
  | char c => some (String.singleton c)
  | signed n => some (toString n.toInt)
  | unsigned n => some (toString n.toNat)
  | plainVariant name => some name
  | _ => none

/-- What is wrong with data that is read as anything at all. -/
def ownFault? : Datum → Option DatumFault
  | wide isSigned => some (.wide isSigned)
  | refusing reason => some (.refused reason)
  | object => some .object
  | _ => none

/-- A place that is come to when typed data is read. -/
inductive Site where
  /-- Data that is read as a value. -/
  | value (d : Datum)
  /-- Data that is read as the key of a map. -/
  | key (d : Datum)
  /-- A value of a map with no key in front of it. -/
  | keyless (d : Datum)

/-- What is wrong with a place, apart from the places inside of it. -/
def Site.fault? : Site → Option DatumFault
  | value d => d.ownFault?
  | key d =>
    if d.unwrapped.keyName?.isSome then none
    else some (d.unwrapped.ownFault?.getD .keyNotText)
  | keyless _ => some .valueBeforeKey

mutual

/-- The places that are come to when typed data is read, in their order. -/
def sites : Datum → List Site
  | present content => .value (present content) :: sites content
  | wrapped content => .value (wrapped content) :: sites content
  | variant name content => .value (variant name content) :: sites content
  | seq items => .value (seq items) :: itemSites items
  | map parts => .value (map parts) :: partSites false parts
  | record fields => .value (record fields) :: fieldSites fields
  | d => [.value d]

/-- The places in a list of typed data. -/
def itemSites : List Datum → List Site
  | [] => []
  | d :: rest => sites d ++ itemSites rest

/-- The places in the keys and values of a map, which may stand behind a key. -/
def partSites (behindKey : Bool) : List (MapPart Datum) → List Site
  | [] => []
  | .key d :: rest => .key d :: partSites true rest
  | .value d :: rest => (if behindKey then sites d else [.keyless d]) ++ partSites false rest

/-- The places in the fields of a record. -/
def fieldSites : List (String × Datum) → List Site
  | [] => []
  | (_, d) :: rest => sites d ++ fieldSites rest

end

/-! ## The first fault -/

/-- The fault with which reading ends. -/
def faultOf {α : Type} : Except DatumFault α → Option DatumFault
  | .ok _ => none
  | .error fault => some fault

/-- Reading ends without a fault exactly if something is read. -/
lemma faultOf_eq_none_iff {α : Type} {x : Except DatumFault α} :
    faultOf x = none ↔ ∃ a, x = .ok a := by
  cases x <;> simp [faultOf]

/-- The fault with which reading ends, if it does. -/
lemma faultOf_eq_some_iff {α : Type} {x : Except DatumFault α} {fault : DatumFault} :
    faultOf x = some fault ↔ x = .error fault := by
  cases x <;> simp [faultOf]

/-- What is wrong with a key. -/
lemma faultOf_keyText (d : Datum) : faultOf d.keyText = (Site.key d).fault? := by
  cases d with
  | wrapped content => exact faultOf_keyText content
  | _ => rfl

/-- The text of a key. -/
lemma keyName?_of_keyText {d : Datum} {name : String} (h : d.keyText = .ok name) :
    d.unwrapped.keyName? = some name := by
  cases d with
  | wrapped content => exact keyName?_of_keyText (d := content) h
  | signed n => exact congrArg some (Except.ok.inj h)
  | unsigned n => exact congrArg some (Except.ok.inj h)
  | char c => exact congrArg some (Except.ok.inj h)
  | text s => exact congrArg some (Except.ok.inj h)
  | plainVariant name => exact congrArg some (Except.ok.inj h)
  | _ => cases h

mutual

/-- **The fault of a tree is the first one that is come to.** -/
theorem faultOf_toValue (d : Datum) : faultOf d.toValue = d.sites.findSome? Site.fault? :=
  match d with
  | unit => rfl
  | bool _ => rfl
  | signed _ => rfl
  | unsigned _ => rfl
  | wide _ => rfl
  | single _ => rfl
  | double _ => rfl
  | char _ => rfl
  | text _ => rfl
  | bytes _ => rfl
  | plainVariant _ => rfl
  | refusing _ => rfl
  | object => rfl
  | present content => faultOf_toValue content
  | wrapped content => faultOf_toValue content
  | variant name content => by
    have hcontent := faultOf_toValue content
    show faultOf (variant name content).toValue = content.sites.findSome? Site.fault?
    rw [← hcontent, toValue]
    cases content.toValue <;> rfl
  | seq items => by
    have hitems := faultOf_toValues items
    show faultOf (seq items).toValue = (itemSites items).findSome? Site.fault?
    rw [← hitems, toValue]
    cases toValues items <;> rfl
  | map parts => by
    have hparts : faultOf (mapEntries Option.none [] parts) =
      (partSites false parts).findSome? Site.fault? := faultOf_mapEntries parts Option.none []
    show faultOf (map parts).toValue = (partSites false parts).findSome? Site.fault?
    rw [← hparts, toValue]
    cases mapEntries Option.none [] parts <;> rfl
  | record fields => by
    have hfields := faultOf_recordEntries fields []
    show faultOf (record fields).toValue = (fieldSites fields).findSome? Site.fault?
    rw [← hfields, toValue]
    cases recordEntries [] fields <;> rfl

/-- The fault of a list is the first one that is come to. -/
lemma faultOf_toValues (ds : List Datum) :
    faultOf (toValues ds) = (itemSites ds).findSome? Site.fault? :=
  match ds with
  | [] => rfl
  | d :: rest => by
    have hrest := faultOf_toValues rest
    rw [itemSites, List.findSome?_append, ← faultOf_toValue d, ← hrest, toValues]
    cases d.toValue with
    | error fault => rfl
    | ok v => cases toValues rest <;> rfl

/-- The fault of the keys and values of a map is the first one that is come to. -/
lemma faultOf_mapEntries (parts : List (MapPart Datum)) (key : Option String)
    (before : List (String × Value)) :
    faultOf (mapEntries key before parts) =
      (partSites key.isSome parts).findSome? Site.fault? :=
  match parts with
  | [] => rfl
  | .key d :: rest => by
    rw [partSites, List.findSome?_cons, ← faultOf_keyText d, mapEntries]
    cases d.keyText with
    | error fault => rfl
    | ok name => exact faultOf_mapEntries rest (some name) before
  | .value d :: rest => by
    cases key with
    | none => rfl
    | some name =>
      rw [partSites, List.findSome?_append, Option.isSome_some, if_pos rfl, ← faultOf_toValue d,
        mapEntries]
      cases d.toValue with
      | error fault => rfl
      | ok v => exact faultOf_mapEntries rest Option.none (Entries.insert name v before)

/-- The fault of the fields of a record is the first one that is come to. -/
lemma faultOf_recordEntries (fields : List (String × Datum)) (before : List (String × Value)) :
    faultOf (recordEntries before fields) = (fieldSites fields).findSome? Site.fault? :=
  match fields with
  | [] => rfl
  | (name, d) :: rest => by
    rw [fieldSites, List.findSome?_append, ← faultOf_toValue d, recordEntries]
    cases d.toValue with
    | error fault => rfl
    | ok v => exact faultOf_recordEntries rest (Entries.insert name v before)

end

/-! ## What is read -/

/-- The values of a map, each under the text of the key right in front of it. -/
def pairs : List (MapPart Datum) → List (String × Datum)
  | .key k :: .value d :: rest =>
    match k.unwrapped.keyName? with
    | some name => (name, d) :: pairs rest
    | none => pairs rest
  | _ :: rest => pairs rest
  | [] => []

/-- What typed data is read as, part by part. -/
inductive IsReadAs : Datum → Value → Prop where
  | unit : IsReadAs unit .none
  | bool (b : Bool) : IsReadAs (bool b) (.bool b)
  | signed (n : Int64) : IsReadAs (signed n) (.integer n)
  | unsigned (n : UInt64) : IsReadAs (unsigned n) (.ofUnsigned n)
  | single (pattern : UInt32) : IsReadAs (single pattern) (.float (.ofBinary32 pattern))
  | double (x : Binary64) : IsReadAs (double x) (.float x)
  | char (c : Char) : IsReadAs (char c) (.string (String.singleton c))
  | text (s : String) : IsReadAs (text s) (.string s)
  | bytes (bs : List UInt8) : IsReadAs (bytes bs) (.ofBytes bs)
  | present {d : Datum} {v : Value} (h : IsReadAs d v) : IsReadAs (present d) v
  | wrapped {d : Datum} {v : Value} (h : IsReadAs d v) : IsReadAs (wrapped d) v
  | plainVariant (name : String) : IsReadAs (plainVariant name) (.string name)
  /-- A variant with content is a map with one entry, under the name of the variant. -/
  | variant (name : String) {d : Datum} {v : Value} (h : IsReadAs d v) :
    IsReadAs (variant name d) (.map [(name, v)])
  /-- A list has all items in their order. -/
  | seq {items : List Datum} {vs : List Value} (hlength : items.length = vs.length)
    (h : ∀ (i : Nat) d v, items[i]? = some d → vs[i]? = some v → IsReadAs d v) :
    IsReadAs (seq items) (.list vs)
  /-- A record has one entry under each name of a field, for the last field of this name. -/
  | record {fields : List (String × Datum)} {entries : List (String × Value)}
    (hasc : Ascending entries)
    (hnames : ∀ name, name ∈ entries.map Prod.fst ↔ name ∈ fields.map Prod.fst)
    (h : ∀ name d v, Entries.IsLast name d fields → (name, v) ∈ entries → IsReadAs d v) :
    IsReadAs (record fields) (.map entries)
  /-- A map is read like the record of its values under the texts of their keys. -/
  | map {parts : List (MapPart Datum)} {entries : List (String × Value)}
    (h : IsReadAs (record (pairs parts)) (.map entries)) : IsReadAs (map parts) (.map entries)

/-- Values under the same names, one for each. -/
def AreReadAs (fields : List (String × Datum)) (read : List (String × Value)) : Prop :=
  List.Forall₂ (fun field e => field.1 = e.1 ∧ IsReadAs field.2 e.2) fields read

/-- One more value, at the end. -/
lemma areReadAs_concat {fields : List (String × Datum)} {read : List (String × Value)}
    {field : String × Datum} {e : String × Value} :
    AreReadAs (fields ++ [field]) (read ++ [e]) ↔
      AreReadAs fields read ∧ field.1 = e.1 ∧ IsReadAs field.2 e.2 := by
  rw [AreReadAs, ← List.forall₂_reverse_iff, List.reverse_concat, List.reverse_concat,
    List.forall₂_cons, List.forall₂_reverse_iff, and_comm]
  rfl

/-- What is last under a name is read from what is last under it. -/
lemma AreReadAs.isLast {fields : List (String × Datum)} {read : List (String × Value)}
    (h : AreReadAs fields read) {name : String} {d : Datum} {v : Value}
    (hd : Entries.IsLast name d fields) (hv : Entries.IsLast name v read) : IsReadAs d v := by
  induction fields using List.reverseRecOn generalizing read with
  | nil => exact absurd hd Entries.not_isLast_nil
  | append_singleton fields field ih =>
    rcases List.eq_nil_or_concat read with rfl | ⟨read, e, rfl⟩
    · exact absurd hv Entries.not_isLast_nil
    · rw [List.concat_eq_append] at h hv
      obtain ⟨hfront, hname, hread⟩ := areReadAs_concat.1 h
      rw [Entries.isLast_concat] at hd hv
      by_cases hlast : e.1 = name
      · rw [if_pos hlast] at hv
        rw [if_pos (hname.trans hlast)] at hd
        exact hd ▸ hv ▸ hread
      · rw [if_neg hlast] at hv
        rw [if_neg fun hfield => hlast (hname.symm.trans hfield)] at hd
        exact ih hfront hd hv

/-- The entries of a record, set one after the other. -/
lemma AreReadAs.record {fields : List (String × Datum)} {read : List (String × Value)}
    (h : AreReadAs fields read) : IsReadAs (record fields) (.map (Entries.ofList read)) := by
  have hnames : fields.map Prod.fst = read.map Prod.fst := by
    induction h with
    | nil => rfl
    | cons hfirst _ ih => rw [List.map_cons, List.map_cons, hfirst.1, ih]
  refine .record (Entries.ofList_ascending read) (fun name => ?_) fun name d v hd hv => ?_
  · rw [Entries.mem_names_ofList_iff, hnames]
  · exact h.isLast hd (Entries.mem_ofList_iff.1 hv)

mutual

/-- **What is read is determined part by part.** -/
theorem isReadAs_of_toValue (d : Datum) {v : Value} (h : d.toValue = .ok v) : d.IsReadAs v :=
  match d with
  | unit => by cases h; exact .unit
  | bool b => by cases h; exact .bool b
  | signed n => by cases h; exact .signed n
  | unsigned n => by cases h; exact .unsigned n
  | wide _ => by cases h
  | single pattern => by cases h; exact .single pattern
  | double x => by cases h; exact .double x
  | char c => by cases h; exact .char c
  | text s => by cases h; exact .text s
  | bytes bs => by cases h; exact .bytes bs
  | present content => .present (isReadAs_of_toValue content h)
  | wrapped content => .wrapped (isReadAs_of_toValue content h)
  | plainVariant name => by cases h; exact .plainVariant name
  | variant name content => by
    rw [toValue] at h
    split at h
    · cases h
    · rename_i u hcontent
      cases h
      exact .variant name (isReadAs_of_toValue content hcontent)
  | seq items => by
    rw [toValue] at h
    split at h
    · cases h
    · rename_i vs hitems
      cases h
      have hread := areReadAs_of_toValues items hitems
      refine .seq hread.length_eq fun i d v hd hv => ?_
      obtain ⟨hi, rfl⟩ := List.getElem?_eq_some_iff.1 hd
      obtain ⟨hi', rfl⟩ := List.getElem?_eq_some_iff.1 hv
      exact hread.get hi hi'
  | map parts => by
    rw [toValue] at h
    split at h
    · cases h
    · rename_i entries hparts
      cases h
      obtain ⟨read, hread, rfl⟩ := areReadAs_of_mapEntries parts hparts
      exact .map hread.record
  | record fields => by
    rw [toValue] at h
    split at h
    · cases h
    · rename_i entries hfields
      cases h
      obtain ⟨read, hread, rfl⟩ := areReadAs_of_recordEntries fields hfields
      exact hread.record
  | refusing _ => by cases h
  | object => by cases h

/-- What is read from a list. -/
lemma areReadAs_of_toValues (ds : List Datum) {vs : List Value} (h : toValues ds = .ok vs) :
    List.Forall₂ IsReadAs ds vs :=
  match ds with
  | [] => by
    cases h
    exact .nil
  | d :: rest => by
    rw [toValues] at h
    split at h
    · cases h
    · rename_i u hfirst
      split at h
      · cases h
      · rename_i us hrest
        cases h
        exact .cons (isReadAs_of_toValue d hfirst) (areReadAs_of_toValues rest hrest)

/-- What is read from the keys and values of a map, to be set one after the other. -/
lemma areReadAs_of_mapEntries (parts : List (MapPart Datum))
    {before entries : List (String × Value)}
    (h : mapEntries Option.none before parts = .ok entries) :
    ∃ read, AreReadAs (pairs parts) read ∧
      entries = read.foldl (fun t e => Entries.insert e.1 e.2 t) before :=
  match parts with
  | [] => by
    cases h
    exact ⟨[], .nil, rfl⟩
  | .value d :: rest => by cases h
  | .key k :: rest => by
    rw [mapEntries] at h
    split at h
    · cases h
    · rename_i name hname
      cases rest with
      | nil =>
        cases h
        exact ⟨[], .nil, rfl⟩
      | cons part more =>
        cases part with
        | key l =>
          -- the key in front is left for the one behind it
          show ∃ read, AreReadAs (pairs (.key l :: more)) read ∧ _
          exact areReadAs_of_mapEntries (.key l :: more) h
        | value d =>
          rw [mapEntries] at h
          split at h
          · cases h
          · rename_i v hv
            obtain ⟨read, hread, rfl⟩ := areReadAs_of_mapEntries more h
            refine ⟨(name, v) :: read, ?_, rfl⟩
            rw [pairs, keyName?_of_keyText hname]
            exact .cons ⟨rfl, isReadAs_of_toValue d hv⟩ hread

/-- What is read from the fields of a record, to be set one after the other. -/
lemma areReadAs_of_recordEntries (fields : List (String × Datum))
    {before entries : List (String × Value)} (h : recordEntries before fields = .ok entries) :
    ∃ read, AreReadAs fields read ∧
      entries = read.foldl (fun t e => Entries.insert e.1 e.2 t) before :=
  match fields with
  | [] => by
    cases h
    exact ⟨[], .nil, rfl⟩
  | (name, d) :: rest => by
    rw [recordEntries] at h
    split at h
    · cases h
    · rename_i v hv
      obtain ⟨read, hread, rfl⟩ := areReadAs_of_recordEntries rest h
      exact ⟨(name, v) :: read, .cons ⟨rfl, isReadAs_of_toValue d hv⟩ hread, rfl⟩

end

/-- **Typed data is read as one value only.** -/
theorem IsReadAs.unique (h : d.IsReadAs v) (h' : d.IsReadAs w) : v = w := by
  induction h generalizing w with
  | unit => cases h'; rfl
  | bool b => cases h'; rfl
  | signed n => cases h'; rfl
  | unsigned n => cases h'; rfl
  | single pattern => cases h'; rfl
  | double x => cases h'; rfl
  | char c => cases h'; rfl
  | text s => cases h'; rfl
  | bytes bs => cases h'; rfl
  | plainVariant name => cases h'; rfl
  | present _ ih =>
    cases h' with
    | present h' => exact ih h'
  | wrapped _ ih =>
    cases h' with
    | wrapped h' => exact ih h'
  | variant name _ ih =>
    cases h' with
    | variant _ h' => rw [ih h']
  | @seq items vs hlength _ ih =>
    cases h' with
    | @seq _ ws hlength' h' =>
      congr 1
      apply List.ext_getElem (hlength.symm.trans hlength')
      intro i hi hi'
      have hd : i < items.length := hlength ▸ hi
      exact ih i _ _ (List.getElem?_eq_getElem hd) (List.getElem?_eq_getElem hi)
        (h' i _ _ (List.getElem?_eq_getElem hd) (List.getElem?_eq_getElem hi'))
  | @record fields entries hasc hnames _ ih =>
    cases h' with
    | @record _ entries' hasc' hnames' h' =>
      congr 1
      apply Entries.ext_names hasc hasc'
      · exact fun name => (hnames name).trans (hnames' name).symm
      · intro name v w hv hw
        obtain ⟨d, hd⟩ := Entries.exists_isLast ((hnames name).1 (List.mem_map_of_mem hv))
        exact ih name d v hd hv (h' name d w hd hw)
  | map _ ih =>
    cases h' with
    | map h' => exact ih h'

/-- **When typed data is read, and as what.** Reading fails exactly if some place that is come to is
at fault: a number of 128 bits, data that refuses or an object, a value of a map without a key, or a
key that is neither a text, a character, a number of at most 64 bits, a plain variant nor a record
type with one of these as its only field. The fault is that of the first such place, where a key
comes before its value. If there is none, the data is read part by part: a list keeps all items in
their order, a map has one entry for each text of a key, with the value that comes last for it, and
a variant with content is a map with one entry, under the name of the variant. -/
theorem toValue_decided (d : Datum) :
    ((∃ fault, d.toValue = .error fault) ↔ ∃ site ∈ d.sites, site.fault? ≠ none) ∧
      (∀ fault, d.toValue = .error fault ↔
        ∃ front site back, d.sites = front ++ site :: back ∧ site.fault? = some fault ∧
          ∀ s ∈ front, s.fault? = none) ∧
      ∀ v, d.toValue = .ok v ↔ (∀ site ∈ d.sites, site.fault? = none) ∧ d.IsReadAs v := by
  have hfault := faultOf_toValue d
  have hread : (∃ v, d.toValue = .ok v) ↔ ∀ site ∈ d.sites, site.fault? = none := by
    rw [← faultOf_eq_none_iff, hfault, List.findSome?_eq_none_iff]
  refine ⟨?_, fun fault => ?_, fun v => ?_⟩
  · have hfails : (∃ fault, d.toValue = .error fault) ↔ ¬∃ v, d.toValue = .ok v := by
      cases d.toValue <;> simp
    rw [hfails, hread]
    simp only [not_forall, exists_prop, ne_eq]
  · rw [← faultOf_eq_some_iff, hfault, List.findSome?_eq_some_iff]
  · constructor
    · exact fun h => ⟨hread.1 ⟨v, h⟩, isReadAs_of_toValue d h⟩
    · rintro ⟨hsites, hv⟩
      obtain ⟨w, hw⟩ := hread.2 hsites
      rw [hw, hv.unique (isReadAs_of_toValue d hw)]

/-- The key is at fault before the value is come to. -/
example : (map [.key (bool true), .value object]).toValue = .error .keyNotText := rfl

end Datum

end Stencil
