import Mathlib.Tactic.Lemma
import Stencil.Engine.Session
import Stencil.Proofs.Data.Tables

/-!
# Values as typed data

A value can be handed over as typed data, like the data of any program, and is then read again part
by part. Nothing is lost on this way, and nothing stands in its way but objects.

## Main definitions

* `Value.Holds` — the values inside of a value, at any depth.
* `Value.HasObject` — there is an object inside of the value.
* `Value.Ordered` — the names ascend in all maps inside of the value.
* `Value.IsRead` — both: the names ascend, and there is no object.

## Main results

* `Value.toValue_toDatum_of_hasObject` — an object anywhere is the fault.
* `Datum.isRead_of_toValue` — what typed data comes to.
* `Datum.toValue_toDatum_of_toValue` — a value that was read is read again as it is.
* `Value.toValue_toDatum_iff` — the values that come back as they are.
* `Engine.render_converted` — rendering a value that is handed over as typed data.
-/

namespace Stencil

namespace Value

variable {v w : Value} {items : List Value} {entries : List (String × Value)}

/-! ## The values inside of a value -/

/-- The values inside of a value, at any depth; it is one of them itself. -/
inductive Holds : Value → Value → Prop where
  | self (v : Value) : Holds v v
  | item {v w : Value} {items : List Value} (hv : v ∈ items) (h : Holds v w) :
    Holds (list items) w
  | entry {v w : Value} {name : String} {entries : List (String × Value)}
    (hv : (name, v) ∈ entries) (h : Holds v w) : Holds (map entries) w

/-- There is an object inside of the value. -/
def HasObject (v : Value) : Prop :=
  ∃ id field call, v.Holds (object id field call)

/-- The names ascend in all maps inside of the value. -/
def Ordered (v : Value) : Prop :=
  ∀ entries, v.Holds (map entries) → Ascending entries

/-- An object is inside of a list if it is inside of an item. -/
@[simp]
lemma hasObject_list : (list items).HasObject ↔ ∃ v ∈ items, v.HasObject := by
  constructor
  · rintro ⟨id, field, call, h⟩
    cases h with
    | item hv h => exact ⟨_, hv, id, field, call, h⟩
  · rintro ⟨v, hv, id, field, call, h⟩
    exact ⟨id, field, call, h.item hv⟩

/-- An object is inside of a map if it is inside of an entry. -/
@[simp]
lemma hasObject_map : (map entries).HasObject ↔ ∃ e ∈ entries, e.2.HasObject := by
  constructor
  · rintro ⟨id, field, call, h⟩
    cases h with
    | entry hv h => exact ⟨_, hv, id, field, call, h⟩
  · rintro ⟨e, hv, id, field, call, h⟩
    exact ⟨id, field, call, h.entry hv⟩

/-- An object is inside of itself. -/
@[simp]
lemma hasObject_object (id : Nat) (field call : String → Option Value) :
    (object id field call).HasObject :=
  ⟨id, field, call, .self _⟩

/-- There are no maps inside of an object that is not asked. -/
@[simp]
lemma ordered_object (id : Nat) (field call : String → Option Value) :
    (object id field call).Ordered := by
  intro entries hin
  cases hin

/-- The names in a list ascend if they do in its items. -/
@[simp]
lemma ordered_list : (list items).Ordered ↔ ∀ v ∈ items, v.Ordered := by
  constructor
  · exact fun h v hv entries hin => h entries (hin.item hv)
  · intro h entries hin
    cases hin with
    | item hv hin => exact h _ hv entries hin

/-- The names in a map ascend if its own do, and those in its entries. -/
@[simp]
lemma ordered_map :
    (map entries).Ordered ↔ Ascending entries ∧ ∀ e ∈ entries, e.2.Ordered := by
  constructor
  · exact fun h => ⟨h entries (.self _), fun e he inner hin => h inner (hin.entry he)⟩
  · rintro ⟨hasc, h⟩ inner hin
    cases hin with
    | self => exact hasc
    | entry hv hin => exact h _ hv inner hin

/-- A value that is neither a list nor a map nor an object. -/
def IsPlain : Value → Prop
  | list _ | map _ | object _ _ _ => False
  | _ => True

/-- There is no object inside of a plain value. -/
lemma IsPlain.not_hasObject (h : v.IsPlain) : ¬ v.HasObject := by
  rintro ⟨id, field, call, hin⟩
  cases hin <;> exact h

/-- There are no maps inside of a plain value. -/
lemma IsPlain.ordered (h : v.IsPlain) : v.Ordered := by
  intro entries hin
  cases hin <;> exact h.elim

/-! ## Values that are handed over -/

mutual

/-- A value without objects is read as it is. -/
lemma toValue_toDatum (v : Value) (hord : v.Ordered) (hobj : ¬ v.HasObject) :
    v.toDatum.toValue = .ok v :=
  match v with
  | none => rfl
  | bool _ => rfl
  | integer _ => rfl
  | float _ => rfl
  | string _ => rfl
  | list items => by
    have hitems := toValues_toData items (ordered_list.1 hord)
      fun v hv h => hobj (hasObject_list.2 ⟨v, hv, h⟩)
    rw [toDatum, Datum.toValue, hitems]
  | map entries => by
    obtain ⟨hasc, hord⟩ := ordered_map.1 hord
    have hentries := mapEntries_toMapParts [] entries hasc hord
      fun e he h => hobj (hasObject_map.2 ⟨e, he, h⟩)
    rw [toDatum, Datum.toValue, hentries]
    rfl
  | object id field call => absurd (hasObject_object id field call) hobj

/-- Values without objects are read as they are. -/
lemma toValues_toData (vs : List Value) (hord : ∀ v ∈ vs, v.Ordered)
    (hobj : ∀ v ∈ vs, ¬ v.HasObject) : Datum.toValues (toData vs) = .ok vs :=
  match vs with
  | [] => rfl
  | v :: rest => by
    have hfirst := toValue_toDatum v (hord v List.mem_cons_self) (hobj v List.mem_cons_self)
    have hrest := toValues_toData rest (fun w hw => hord w (List.mem_cons_of_mem v hw))
      fun w hw => hobj w (List.mem_cons_of_mem v hw)
    rw [toData, Datum.toValues, hfirst, hrest]

/-- Entries without objects are read behind those that were read before. -/
lemma mapEntries_toMapParts (before entries : List (String × Value))
    (hasc : Ascending (before ++ entries)) (hord : ∀ e ∈ entries, e.2.Ordered)
    (hobj : ∀ e ∈ entries, ¬ e.2.HasObject) :
    Datum.mapEntries Option.none before (toMapParts entries) = .ok (before ++ entries) :=
  match entries with
  | [] => by rw [toMapParts, Datum.mapEntries, List.append_nil]
  | (name, v) :: rest => by
    have hfirst := toValue_toDatum v (hord (name, v) List.mem_cons_self)
      (hobj (name, v) List.mem_cons_self)
    have hbehind : ∀ e ∈ before, e.1 < name := fun e he =>
      (List.pairwise_append.1 hasc).2.2 e he (name, v) List.mem_cons_self
    have hrest := mapEntries_toMapParts (before ++ [(name, v)]) rest (by simpa using hasc)
      (fun e he => hord e (List.mem_cons_of_mem _ he))
      fun e he => hobj e (List.mem_cons_of_mem _ he)
    simp only [toMapParts, Datum.mapEntries, Datum.keyText, hfirst,
      Entries.insert_of_forall_lt hbehind, hrest, List.append_assoc, List.singleton_append]

end

mutual

/-- **An object anywhere is the fault**, and all that is in front of it is read without one. -/
theorem toValue_toDatum_of_hasObject (v : Value) (hord : v.Ordered) (hobj : v.HasObject) :
    v.toDatum.toValue = .error .object :=
  match v with
  | none => absurd hobj (IsPlain.not_hasObject trivial)
  | bool _ => absurd hobj (IsPlain.not_hasObject trivial)
  | integer _ => absurd hobj (IsPlain.not_hasObject trivial)
  | float _ => absurd hobj (IsPlain.not_hasObject trivial)
  | string _ => absurd hobj (IsPlain.not_hasObject trivial)
  | list items => by
    have hitems := toValues_toData_of_hasObject items (ordered_list.1 hord)
      (hasObject_list.1 hobj)
    rw [toDatum, Datum.toValue, hitems]
  | map entries => by
    have hentries := mapEntries_toMapParts_of_hasObject [] entries (ordered_map.1 hord).2
      (hasObject_map.1 hobj)
    rw [toDatum, Datum.toValue, hentries]
  | object _ _ _ => rfl

/-- The first value with an object is the fault. -/
lemma toValues_toData_of_hasObject (vs : List Value) (hord : ∀ v ∈ vs, v.Ordered)
    (hobj : ∃ v ∈ vs, v.HasObject) : Datum.toValues (toData vs) = .error .object :=
  match vs with
  | [] => absurd hobj (by simp)
  | v :: rest => by
    have hfirst : v.Ordered := hord v List.mem_cons_self
    rw [toData, Datum.toValues]
    by_cases hv : v.HasObject
    · rw [toValue_toDatum_of_hasObject v hfirst hv]
    · have hrest := toValues_toData_of_hasObject rest
        (fun w hw => hord w (List.mem_cons_of_mem v hw)) (by simpa [hv] using hobj)
      rw [toValue_toDatum v hfirst hv, hrest]

/-- The first entry with an object is the fault. -/
lemma mapEntries_toMapParts_of_hasObject (before entries : List (String × Value))
    (hord : ∀ e ∈ entries, e.2.Ordered) (hobj : ∃ e ∈ entries, e.2.HasObject) :
    Datum.mapEntries Option.none before (toMapParts entries) = .error .object :=
  match entries with
  | [] => absurd hobj (by simp)
  | (name, v) :: rest => by
    have hfirst : v.Ordered := hord (name, v) List.mem_cons_self
    simp only [toMapParts, Datum.mapEntries, Datum.keyText]
    by_cases hv : v.HasObject
    · rw [toValue_toDatum_of_hasObject v hfirst hv]
    · rw [toValue_toDatum v hfirst hv]
      exact mapEntries_toMapParts_of_hasObject (Entries.insert name v before) rest
        (fun e he => hord e (List.mem_cons_of_mem _ he)) (by simpa [hv] using hobj)

end

end Value

/-! ## What typed data comes to -/

/-- A value that can be read from typed data: its names ascend, and it has no objects. -/
structure Value.IsRead (v : Value) : Prop where
  ordered : v.Ordered
  not_hasObject : ¬ v.HasObject

namespace Value.IsRead

variable {v : Value} {name : String} {entries : List (String × Value)}

/-- Plain values. -/
lemma of_isPlain (h : v.IsPlain) : v.IsRead := ⟨h.ordered, h.not_hasObject⟩

/-- A list of values that can be read. -/
lemma list {items : List Value} (h : ∀ v ∈ items, v.IsRead) : (Value.list items).IsRead where
  ordered := ordered_list.2 fun v hv => (h v hv).ordered
  not_hasObject hobj := by
    obtain ⟨v, hv, hobj⟩ := hasObject_list.1 hobj
    exact (h v hv).not_hasObject hobj

/-- A map of values that can be read. -/
lemma map (hasc : Ascending entries) (h : ∀ e ∈ entries, e.2.IsRead) :
    (Value.map entries).IsRead where
  ordered := ordered_map.2 ⟨hasc, fun e he => (h e he).ordered⟩
  not_hasObject hobj := by
    obtain ⟨e, he, hobj⟩ := hasObject_map.1 hobj
    exact (h e he).not_hasObject hobj

/-- Entries stay such that can be read if one more is set. -/
lemma insert (hv : v.IsRead) (h : (Value.map entries).IsRead) :
    (Value.map (Entries.insert name v entries)).IsRead := by
  obtain ⟨hasc, hord⟩ := ordered_map.1 h.ordered
  refine map (Entries.insert_ascending name v hasc) fun e he => ?_
  rcases Entries.mem_insert he with rfl | he
  · exact hv
  · exact ⟨hord e he, fun hobj => h.not_hasObject (hasObject_map.2 ⟨e, he, hobj⟩)⟩

end Value.IsRead

namespace Datum

variable {v : Value}

/-- An unsigned number is plain. -/
lemma isPlain_ofUnsigned (n : UInt64) : (Value.ofUnsigned n).IsPlain := by
  unfold Value.ofUnsigned
  split <;> trivial

/-- Bytes are a list of plain values. -/
lemma isRead_ofBytes (bytes : List UInt8) : (Value.ofBytes bytes).IsRead := by
  refine .list fun v hv => ?_
  obtain ⟨b, -, rfl⟩ := List.mem_map.1 hv
  exact .of_isPlain trivial

mutual

/-- **What typed data comes to**: the names ascend, and there are no objects. -/
theorem isRead_of_toValue (d : Datum) {v : Value} (h : d.toValue = .ok v) : v.IsRead :=
  match d with
  | unit => by cases h; exact .of_isPlain trivial
  | bool _ => by cases h; exact .of_isPlain trivial
  | signed _ => by cases h; exact .of_isPlain trivial
  | unsigned n => by cases h; exact .of_isPlain (isPlain_ofUnsigned n)
  | wide _ => by cases h
  | single _ => by cases h; exact .of_isPlain trivial
  | double _ => by cases h; exact .of_isPlain trivial
  | char _ => by cases h; exact .of_isPlain trivial
  | text _ => by cases h; exact .of_isPlain trivial
  | bytes bs => by cases h; exact isRead_ofBytes bs
  | present content => isRead_of_toValue content h
  | wrapped content => isRead_of_toValue content h
  | plainVariant _ => by cases h; exact .of_isPlain trivial
  | variant name content => by
    rw [toValue] at h
    split at h
    · cases h
    · rename_i u hcontent
      cases h
      refine .map (List.pairwise_singleton _ _) fun e he => ?_
      rw [List.mem_singleton.1 he]
      exact isRead_of_toValue content hcontent
  | seq items => by
    rw [toValue] at h
    split at h
    · cases h
    · rename_i vs hitems
      cases h
      exact .list (isRead_of_toValues items hitems)
  | map parts => by
    rw [toValue] at h
    split at h
    · cases h
    · rename_i entries hparts
      cases h
      exact isRead_of_mapEntries parts (.map List.Pairwise.nil (by simp)) hparts
  | record fields => by
    rw [toValue] at h
    split at h
    · cases h
    · rename_i entries hfields
      cases h
      exact isRead_of_recordEntries fields (.map List.Pairwise.nil (by simp)) hfields
  | refusing _ => by cases h
  | object => by cases h

/-- What a list of typed data comes to. -/
lemma isRead_of_toValues (ds : List Datum) {vs : List Value} (h : toValues ds = .ok vs) :
    ∀ v ∈ vs, v.IsRead :=
  match ds with
  | [] => by
    cases h
    simp
  | d :: rest => by
    rw [toValues] at h
    split at h
    · cases h
    · rename_i u hfirst
      split at h
      · cases h
      · rename_i us hrest
        cases h
        exact List.forall_mem_cons.2 ⟨isRead_of_toValue d hfirst, isRead_of_toValues rest hrest⟩

/-- What keys and values come to, behind entries that can be read. -/
lemma isRead_of_mapEntries (parts : List (MapPart Datum)) {key : Option String}
    {before entries : List (String × Value)} (hbefore : (Value.map before).IsRead)
    (h : mapEntries key before parts = .ok entries) : (Value.map entries).IsRead :=
  match parts with
  | [] => by
    cases h
    exact hbefore
  | .key d :: rest => by
    rw [mapEntries] at h
    split at h
    · cases h
    · exact isRead_of_mapEntries rest hbefore h
  | .value d :: rest => by
    cases key with
    | none => simp [mapEntries] at h
    | some k =>
      rw [mapEntries] at h
      split at h
      · cases h
      · rename_i u hvalue
        exact isRead_of_mapEntries rest (.insert (isRead_of_toValue d hvalue) hbefore) h

/-- What fields come to, behind entries that can be read. -/
lemma isRead_of_recordEntries (fields : List (String × Datum))
    {before entries : List (String × Value)} (hbefore : (Value.map before).IsRead)
    (h : recordEntries before fields = .ok entries) : (Value.map entries).IsRead :=
  match fields with
  | [] => by
    cases h
    exact hbefore
  | (name, d) :: rest => by
    rw [recordEntries] at h
    split at h
    · cases h
    · rename_i u hvalue
      exact isRead_of_recordEntries rest (.insert (isRead_of_toValue d hvalue) hbefore) h

end

/-- **A value that was read is read again as it is.** -/
theorem toValue_toDatum_of_toValue {d : Datum} (h : d.toValue = .ok v) :
    v.toDatum.toValue = .ok v :=
  v.toValue_toDatum (isRead_of_toValue d h).ordered (isRead_of_toValue d h).not_hasObject

end Datum

/-- **The values that come back as they are**: those whose names ascend and that have no
objects. -/
theorem Value.toValue_toDatum_iff {v : Value} : v.toDatum.toValue = .ok v ↔ v.IsRead :=
  ⟨Datum.isRead_of_toValue v.toDatum, fun h => v.toValue_toDatum h.ordered h.not_hasObject⟩

/-! ## Rendering values that are handed over -/

/-- Nothing is added to what is said about data that has no value. -/
lemma Fault.message_ofCause_datum (fault : DatumFault) :
    (Fault.ofCause (.datum fault)).message = fault.message := by
  rw [message]
  change fault.message ++ "" ++ "" = fault.message
  rw [String.append_empty, String.append_empty]

/-- **Rendering a value that is handed over as typed data.** It is read as it is, and rendering
gives the same in both ways, unless there is an object at any depth inside of it. In that case it
is never read, rendering fails with the fault that tells this, and the sink is not asked for
anything. The names in a map of a value always ascend; this is what the hypothesis says. -/
theorem Engine.render_converted {v : Value} (hord : v.Ordered) (e : Engine) (p : Program)
    (limit : Option Nat) (sink : Sink) :
    ((∃ u, v.toDatum.toValue = .ok u) ↔ ¬ v.HasObject) ∧
      (∀ u, v.toDatum.toValue = .ok u → u = v ∧
        e.renderText p limit v.toDatum.toValue = e.renderText p limit (.ok v) ∧
        e.renderTo p limit v.toDatum.toValue sink = e.renderTo p limit (.ok v) sink) ∧
      (v.HasObject → v.toDatum.toValue = .error .object ∧
        ∃ fault : Fault, fault.kind = .serialize ∧
          fault.message = "object values cannot be serialized, use `render_from` instead" ∧
          e.renderText p limit v.toDatum.toValue = .error fault ∧
          e.renderTo p limit v.toDatum.toValue sink = (⟨[], 0, none⟩, .error fault)) := by
  by_cases hobj : v.HasObject
  · have hread : v.toDatum.toValue = .error .object := v.toValue_toDatum_of_hasObject hord hobj
    have hmessage : (Fault.ofCause (.datum .object)).message = DatumFault.object.message :=
      Fault.message_ofCause_datum .object
    rw [hread]
    refine ⟨by simp [hobj], fun u hu => ?_, fun _ => ⟨rfl, .ofCause (.datum .object), ?_⟩⟩
    · cases hu
    · exact ⟨rfl, hmessage, rfl, rfl⟩
  · have hread : v.toDatum.toValue = .ok v := v.toValue_toDatum hord hobj
    rw [hread]
    exact ⟨by simp [hobj], fun u hu => ⟨(Except.ok.inj hu).symm, rfl, rfl⟩, (absurd · hobj)⟩

/-- A list in a map, with an object in it and without. -/
theorem render_converted_on_nested :
    ∃ v w : Value, v.HasObject ∧ ¬ w.HasObject ∧
      v = .map [("a", .integer 1), ("b", .list [w, .object 0 (fun _ => none) fun _ => none])] ∧
      w = .map [("x", .bool true), ("y", .list [.string "<", .none])] ∧
      v.toDatum.toValue = .error .object ∧ w.toDatum.toValue = .ok w ∧
      (∃ fault : Fault, fault.kind = .serialize ∧
        Engine.empty.renderTo ⟨"a", ⟨#[.text "a"], by decide⟩, .empty⟩ none v.toDatum.toValue
          (.limited none none (.accept 0)) = (⟨[], 0, none⟩, .error fault)) ∧
      Engine.empty.renderText ⟨"a", ⟨#[.text "a"], by decide⟩, .empty⟩ none w.toDatum.toValue =
        Engine.empty.renderText ⟨"a", ⟨#[.text "a"], by decide⟩, .empty⟩ none (.ok w) := by
  let p : Program := ⟨"a", ⟨#[.text "a"], by decide⟩, .empty⟩
  let w : Value := .map [("x", .bool true), ("y", .list [.string "<", .none])]
  let v : Value :=
    .map [("a", .integer 1), ("b", .list [w, .object 0 (fun _ => none) fun _ => none])]
  have hw : w.IsRead := by
    refine .map (List.pairwise_pair.2 (by decide)) ?_
    simp only [List.forall_mem_cons]
    refine ⟨.of_isPlain trivial, .list ?_, nofun⟩
    simp only [List.forall_mem_cons]
    exact ⟨.of_isPlain trivial, .of_isPlain trivial, nofun⟩
  have hv : v.Ordered := by
    refine Value.ordered_map.2 ⟨List.pairwise_pair.2 (by decide), ?_⟩
    have hone : (Value.integer 1).Ordered := Value.IsPlain.ordered trivial
    simp [hone, hw.ordered]
  have hobj : v.HasObject :=
    Value.hasObject_map.2 ⟨_, List.mem_cons_of_mem _ List.mem_cons_self,
      Value.hasObject_list.2 ⟨_, List.mem_cons_of_mem _ List.mem_cons_self,
        Value.hasObject_object _ _ _⟩⟩
  obtain ⟨-, -, hv⟩ :=
    Engine.empty.render_converted hv p none (.limited none none (.accept 0))
  obtain ⟨hwread, hwsame, -⟩ :=
    Engine.empty.render_converted hw.ordered p none (.limited none none (.accept 0))
  obtain ⟨u, hu⟩ := hwread.2 hw.not_hasObject
  obtain ⟨rfl, htext, -⟩ := hwsame u hu
  obtain ⟨hverror, fault, hkind, -, -, hto⟩ := hv hobj
  exact ⟨v, w, hobj, hw.not_hasObject, rfl, rfl, hverror, hu, ⟨fault, hkind, hto⟩, htext⟩

end Stencil
