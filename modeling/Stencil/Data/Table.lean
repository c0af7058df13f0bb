/-!
# Tables

A table holds values under distinct names, in the order of the names. It is a list of
entries whose names strictly increase, so equal contents mean equal tables. The functions
on plain lists of entries are stated first: data trees hold such lists directly.

## Main definitions

* `Entries.find?`, `Entries.insert` — look up a name, and set the value under a name.
* `Ascending` — the names strictly increase.
* `Table` — a list of entries with ascending names.

## Main results

* `Entries.find?_insert` — what is found after setting a name.
* `Entries.insert_ascending` — setting a name keeps the names ascending.
-/

namespace Stencil

variable {α : Type _}

namespace Entries

/-- The value under a name. -/
def find? (name : String) : List (String × α) → Option α
  | [] => none
  | (k, v) :: rest => if k = name then some v else find? name rest

/-- Sets the value under a name, at the place that the order of names gives it. -/
def insert (name : String) (value : α) : List (String × α) → List (String × α)
  | [] => [(name, value)]
  | (k, v) :: rest =>
    if name < k then (name, value) :: (k, v) :: rest
    else if name = k then (name, value) :: rest
    else (k, v) :: insert name value rest

/-- The entries of a list set one after the other: the last value under a name stays. -/
def ofList (entries : List (String × α)) : List (String × α) :=
  entries.foldl (fun t (k, v) => insert k v t) []

theorem find?_insert (name other : String) (value : α) (entries : List (String × α)) :
    find? other (insert name value entries) =
      if name = other then some value else find? other entries := by
  induction entries with
  | nil => simp [insert, find?]
  | cons e rest ih =>
    obtain ⟨k, v⟩ := e
    simp only [insert]
    split
    · simp [find?]
    · split
      · rename_i h
        subst h
        simp only [find?]
        split <;> rfl
      · rename_i h
        simp only [find?, ih]
        by_cases hk : k = other
        · rw [if_pos hk, if_neg (fun e => h (e.trans hk.symm)), if_pos hk]
        · simp [hk]

theorem mem_insert {name : String} {value : α} {e : String × α} {entries : List (String × α)}
    (h : e ∈ insert name value entries) : e = (name, value) ∨ e ∈ entries := by
  induction entries with
  | nil => simpa [insert] using h
  | cons d rest ih =>
    obtain ⟨k, v⟩ := d
    simp only [insert] at h
    split at h
    · simpa using h
    · split at h
      · rcases List.mem_cons.1 h with h | h <;> simp [h]
      · rcases List.mem_cons.1 h with h | h
        · simp [h]
        · rcases ih h with h | h <;> simp [h]

end Entries

/-- The names of the entries strictly increase. -/
def Ascending (entries : List (String × α)) : Prop :=
  entries.Pairwise fun a b => a.1 < b.1

theorem Entries.insert_ascending (name : String) (value : α) {entries : List (String × α)}
    (h : Ascending entries) : Ascending (insert name value entries) := by
  induction entries with
  | nil => simp [insert, Ascending]
  | cons e rest ih =>
    obtain ⟨k, v⟩ := e
    have hrest : ∀ d ∈ rest, k < d.1 := (List.pairwise_cons.1 h).1
    have htail : Ascending rest := (List.pairwise_cons.1 h).2
    simp only [insert]
    split
    · rename_i hlt
      refine List.pairwise_cons.2 ⟨fun d hd => ?_, h⟩
      rcases List.mem_cons.1 hd with hd | hd
      · simpa [hd] using hlt
      · exact String.lt_trans hlt (hrest d hd)
    · rename_i hle
      split
      · rename_i heq
        subst heq
        exact List.pairwise_cons.2 ⟨hrest, htail⟩
      · rename_i hne
        refine List.pairwise_cons.2 ⟨fun d hd => ?_, ih htail⟩
        rcases mem_insert hd with hd | hd
        · subst hd
          exact Decidable.byContradiction fun hge =>
            hne (String.le_antisymm (String.not_lt.1 hge) (String.not_lt.1 hle))
        · exact hrest d hd

/-- Values under distinct names, in the order of the names. -/
structure Table (α : Type _) where
  entries : List (String × α)
  ascending : Ascending entries
  deriving DecidableEq

namespace Table

/-- The table without entries. -/
def empty : Table α := ⟨[], List.Pairwise.nil⟩

instance : Inhabited (Table α) := ⟨empty⟩

/-- The value under a name. -/
def find? (t : Table α) (name : String) : Option α := Entries.find? name t.entries

/-- Whether a name has a value. -/
def contains (t : Table α) (name : String) : Bool := (t.find? name).isSome

/-- Sets the value under a name. -/
def insert (t : Table α) (name : String) (value : α) : Table α :=
  ⟨Entries.insert name value t.entries, Entries.insert_ascending name value t.ascending⟩

/-- The names that have a value, in their order. -/
def names (t : Table α) : List String := t.entries.map (·.1)

/-- The entries of a list set one after the other. -/
def ofList (entries : List (String × α)) : Table α :=
  entries.foldl (fun t (k, v) => t.insert k v) empty

@[simp]
theorem find?_insert (t : Table α) (name other : String) (value : α) :
    (t.insert name value).find? other = if name = other then some value else t.find? other :=
  Entries.find?_insert name other value t.entries

end Table

end Stencil
