import Mathlib.Data.List.Induction
import Mathlib.Data.List.Sort
import Mathlib.Tactic.Lemma
import Stencil.Data.Table

/-!
# Contents of tables

What can be found in a table are its entries, and setting ascending entries one after the
other gives these entries again. Of other entries the last one under each name stays.

## Main definitions

* `Entries.IsLast` — the last value under a name.
* `Table.map` — the values changed, the names kept.

## Main results

* `Table.find?_map`, `Table.map_insert` — tables with the values changed.
* `Entries.find?_eq_some_iff` — what can be found among ascending entries.
* `Entries.mem_ofList_iff` — the last value under a name stays.
* `Table.ext_find?` — tables with equal contents are equal.
* `Table.ofList_entries` — setting the entries of a table one after the other gives the table.
* `Table.foldlM_insert_map` — setting what is read from entries gives a table of what was
  stored in them.
-/

namespace Stencil

variable {α : Type _}

namespace Entries

variable {name : String} {value : α} {entries : List (String × α)}

/-- What is found under a name is an entry. -/
lemma mem_of_find? (h : find? name entries = some value) : (name, value) ∈ entries := by
  induction entries with
  | nil => simp [find?] at h
  | cons e rest ih =>
    obtain ⟨k, v⟩ := e
    simp only [find?] at h
    split at h
    · rename_i hk
      cases h
      exact hk ▸ List.mem_cons_self
    · exact List.mem_cons_of_mem _ (ih h)

/-- **What can be found among ascending entries** are these entries. -/
theorem find?_eq_some_iff (hasc : Ascending entries) :
    find? name entries = some value ↔ (name, value) ∈ entries := by
  refine ⟨mem_of_find?, fun h => ?_⟩
  induction entries with
  | nil => simp at h
  | cons e rest ih =>
    obtain ⟨k, v⟩ := e
    obtain ⟨hfirst, hrest⟩ := List.pairwise_cons.1 hasc
    simp only [find?]
    rcases List.mem_cons.1 h with h | h
    · cases h
      simp
    · have hlt : k < name := hfirst _ h
      rw [if_neg (by rintro rfl; exact String.lt_irrefl k hlt)]
      exact ih hrest h

/-- A name behind all others is set at the end. -/
lemma insert_of_forall_lt (h : ∀ e ∈ entries, e.1 < name) :
    insert name value entries = entries ++ [(name, value)] := by
  induction entries with
  | nil => rfl
  | cons e rest ih =>
    obtain ⟨k, v⟩ := e
    have hk : k < name := h (k, v) List.mem_cons_self
    have hne : name ≠ k := by
      rintro rfl
      exact String.lt_irrefl name hk
    rw [insert, if_neg (String.lt_asymm hk), if_neg hne,
      ih fun e he => h e (List.mem_cons_of_mem _ he)]
    rfl

/-- Ascending entries are determined by what is among them. -/
lemma ext_mem {entries entries' : List (String × α)} (h : Ascending entries)
    (h' : Ascending entries') (hmem : ∀ e, e ∈ entries ↔ e ∈ entries') : entries = entries' := by
  have hirrefl : Std.Irrefl fun a b : String × α => a.1 < b.1 :=
    ⟨fun a => String.lt_irrefl a.1⟩
  have hantisymm : Std.Antisymm fun a b : String × α => a.1 < b.1 :=
    ⟨fun a b hab hba => absurd hba (String.lt_asymm hab)⟩
  exact h.eq_of_mem_iff h' hmem

/-! ### The last value under a name -/

variable {k : String} {v w : α}

/-- The value is the last one under its name. -/
def IsLast (name : String) (value : α) (entries : List (String × α)) : Prop :=
  ∃ front back, entries = front ++ (name, value) :: back ∧ ∀ e ∈ back, e.1 ≠ name

/-- Nothing is last where there are no entries. -/
@[simp]
lemma not_isLast_nil : ¬IsLast name v [] := by
  rintro ⟨front, back, heq, -⟩
  simp at heq

/-- One more entry is the last one under its own name, and changes nothing under other names. -/
lemma isLast_concat : IsLast name v (entries ++ [(k, w)]) ↔
    if k = name then w = v else IsLast name v entries := by
  constructor
  · rintro ⟨front, back, heq, hback⟩
    rcases List.eq_nil_or_concat back with rfl | ⟨back, last, rfl⟩
    · obtain ⟨rfl, hlast⟩ := List.append_inj' heq rfl
      obtain ⟨rfl, rfl⟩ := Prod.mk.inj (List.cons.inj hlast).1
      rw [if_pos rfl]
    · rw [List.concat_eq_append, ← List.cons_append, ← List.append_assoc] at heq
      obtain ⟨rfl, hlast⟩ := List.append_inj' heq rfl
      obtain rfl : (k, w) = last := (List.cons.inj hlast).1
      rw [List.concat_eq_append, List.forall_mem_append] at hback
      rw [if_neg (hback.2 (k, w) List.mem_cons_self)]
      exact ⟨front, back, rfl, hback.1⟩
  · intro h
    split at h
    · rename_i hname
      exact ⟨entries, [], by rw [hname, h], List.forall_mem_nil _⟩
    · rename_i hname
      obtain ⟨front, back, rfl, hback⟩ := h
      refine ⟨front, back ++ [(k, w)], by simp, List.forall_mem_append.2 ⟨hback, ?_⟩⟩
      exact List.forall_mem_singleton.2 hname

/-- A name that occurs has a last value. -/
lemma exists_isLast (h : name ∈ entries.map Prod.fst) : ∃ v, IsLast name v entries := by
  induction entries using List.reverseRecOn with
  | nil => cases h
  | append_singleton entries e ih =>
    obtain ⟨k, w⟩ := e
    simp only [isLast_concat]
    by_cases hname : k = name
    · exact ⟨w, by rw [if_pos hname]⟩
    · simp only [if_neg hname]
      apply ih
      simpa [Ne.symm hname] using h

/-- Setting one more entry after others. -/
lemma ofList_concat (entries : List (String × α)) (k : String) (w : α) :
    ofList (entries ++ [(k, w)]) = insert k w (ofList entries) := by
  rw [ofList, List.foldl_append]
  rfl

/-- The names ascend, in whatever order the entries are set. -/
lemma ofList_ascending (entries : List (String × α)) : Ascending (ofList entries) := by
  induction entries using List.reverseRecOn with
  | nil => exact List.Pairwise.nil
  | append_singleton entries e ih =>
    rw [ofList_concat]
    exact insert_ascending e.1 e.2 ih

/-- **The last value under a name stays** when entries are set one after the other. -/
theorem mem_ofList_iff : (name, v) ∈ ofList entries ↔ IsLast name v entries := by
  induction entries using List.reverseRecOn with
  | nil => simp [ofList]
  | append_singleton entries e ih =>
    obtain ⟨k, w⟩ := e
    rw [isLast_concat, ← find?_eq_some_iff (ofList_ascending _), ofList_concat, find?_insert]
    split
    · rw [Option.some.injEq]
    · rw [find?_eq_some_iff (ofList_ascending _), ih]

/-- The names are kept. -/
lemma mem_names_ofList_iff :
    name ∈ (ofList entries).map Prod.fst ↔ name ∈ entries.map Prod.fst := by
  constructor
  · intro h
    obtain ⟨⟨k, v⟩, he, rfl⟩ := List.mem_map.1 h
    obtain ⟨front, back, rfl, -⟩ := mem_ofList_iff.1 he
    simp
  · intro h
    obtain ⟨v, hv⟩ := exists_isLast h
    exact List.mem_map.2 ⟨(name, v), mem_ofList_iff.2 hv, rfl⟩

/-- Ascending entries are equal if the names are the same and the values under each name are. -/
lemma ext_names {entries entries' : List (String × α)} (h : Ascending entries)
    (h' : Ascending entries')
    (hnames : ∀ name, name ∈ entries.map Prod.fst ↔ name ∈ entries'.map Prod.fst)
    (hvalues : ∀ name v w, (name, v) ∈ entries → (name, w) ∈ entries' → v = w) :
    entries = entries' := by
  apply ext_mem h h'
  rintro ⟨name, v⟩
  constructor
  · intro hv
    obtain ⟨⟨name, w⟩, hw, rfl⟩ := List.mem_map.1 ((hnames name).1 (List.mem_map_of_mem hv))
    rwa [hvalues name v w hv hw]
  · intro hv
    obtain ⟨⟨name, w⟩, hw, rfl⟩ := List.mem_map.1 ((hnames name).2 (List.mem_map_of_mem hv))
    rwa [← hvalues name w v hw hv]

end Entries

namespace Table

/-- A table is determined by its entries. -/
lemma ext_entries {t u : Table α} (h : t.entries = u.entries) : t = u := by
  cases t
  cases u
  congr

/-- **Tables with equal contents are equal**, since the names ascend. -/
theorem ext_find? {t u : Table α} (h : ∀ name, t.find? name = u.find? name) : t = u := by
  refine ext_entries (Entries.ext_mem t.ascending u.ascending ?_)
  rintro ⟨name, value⟩
  rw [← Entries.find?_eq_some_iff t.ascending, ← Entries.find?_eq_some_iff u.ascending]
  exact iff_of_eq (congrArg (· = some value) (h name))

/-- The empty table holds nothing. -/
@[simp]
lemma find?_empty (name : String) : (empty : Table α).find? name = none := rfl

/-- A name has a value in a table exactly if something is found. -/
lemma contains_iff {t : Table α} {name : String} :
    t.contains name = true ↔ ∃ v, t.find? name = some v :=
  Option.isSome_iff_exists

/-- Setting further entries, in ascending order and behind all others. -/
lemma foldl_insert (entries : List (String × α)) :
    ∀ t : Table α, Ascending (t.entries ++ entries) →
      (entries.foldl (fun t (k, v) => t.insert k v) t).entries = t.entries ++ entries := by
  induction entries with
  | nil => simp
  | cons e rest ih =>
    intro t hasc
    obtain ⟨k, v⟩ := e
    have hbelow : ∀ d ∈ t.entries, d.1 < k := fun d hd =>
      (List.pairwise_append.1 hasc).2.2 d hd (k, v) List.mem_cons_self
    have hinsert : (t.insert k v).entries = t.entries ++ [(k, v)] :=
      Entries.insert_of_forall_lt hbelow
    rw [List.foldl_cons, ih (t.insert k v) (by rw [hinsert]; simpa using hasc), hinsert]
    simp

/-- **Setting ascending entries one after the other gives these entries.** -/
theorem ofList_entries {entries : List (String × α)} (h : Ascending entries) :
    (ofList entries).entries = entries :=
  foldl_insert entries empty h

/-- The table with the values changed and the names kept. -/
def map {β : Type _} (f : α → β) (t : Table α) : Table β where
  entries := t.entries.map fun e => (e.1, f e.2)
  ascending := by
    rw [Ascending, List.pairwise_map]
    exact t.ascending

/-- Changing nothing gives the same table. -/
@[simp]
lemma map_id (t : Table α) : t.map id = t :=
  ext_entries (List.map_id _)

/-- What is found is changed with the other values. -/
@[simp]
lemma find?_map {β : Type _} (f : α → β) (t : Table α) (name : String) :
    (t.map f).find? name = (t.find? name).map f := by
  have hentries : ∀ entries : List (String × α),
      Entries.find? name (entries.map fun e => (e.1, f e.2)) =
        (Entries.find? name entries).map f := by
    intro entries
    induction entries with
    | nil => rfl
    | cons e rest ih =>
      simp only [List.map_cons, Entries.find?]
      split
      · rfl
      · exact ih
  exact hentries t.entries

/-- The same names have a value. -/
@[simp]
lemma contains_map {β : Type _} (f : α → β) (t : Table α) (name : String) :
    (t.map f).contains name = t.contains name := by
  rw [contains, contains, find?_map, Option.isSome_map]

/-- The names are kept. -/
@[simp]
lemma names_map {β : Type _} (f : α → β) (t : Table α) : (t.map f).names = t.names :=
  List.map_map

/-- Setting a value and then changing all of them. -/
lemma map_insert {β : Type _} (f : α → β) (t : Table α) (name : String) (value : α) :
    (t.insert name value).map f = (t.map f).insert name (f value) := by
  have hentries : ∀ entries : List (String × α),
      (Entries.insert name value entries).map (fun e => (e.1, f e.2)) =
        Entries.insert name (f value) (entries.map fun e => (e.1, f e.2)) := by
    intro entries
    induction entries with
    | nil => rfl
    | cons e rest ih =>
      simp only [Entries.insert, List.map_cons]
      split
      · rfl
      · split
        · rfl
        · rw [List.map_cons, ih]
  exact ext_entries (hentries t.entries)

/-- Setting values one after the other and then changing all of them. -/
lemma map_ofList {β : Type _} (f : α → β) (entries : List (String × α)) :
    (ofList entries).map f = ofList (entries.map fun e => (e.1, f e.2)) := by
  have hfold : ∀ t : Table α, (entries.foldl (fun t (k, v) => t.insert k v) t).map f =
      (entries.map fun e => (e.1, f e.2)).foldl (fun t (k, v) => t.insert k v) (t.map f) := by
    induction entries with
    | nil =>
      intro t
      rfl
    | cons e rest ih =>
      intro t
      rw [List.foldl_cons, List.map_cons, List.foldl_cons, ih, map_insert]
  exact hfold empty

/-- In the table of a function for some names, each of these has the value of the function. -/
lemma find?_ofList_map (f : String → α) {names : List String} {name : String}
    (h : name ∈ names) : (ofList (names.map fun k => (k, f k))).find? name = some (f name) := by
  induction names using List.reverseRecOn with
  | nil => cases h
  | append_singleton names k ih =>
    rw [List.map_append, List.map_singleton, ofList, List.foldl_append, List.foldl_cons,
      List.foldl_nil, find?_insert]
    split
    · rename_i hname
      rw [hname]
    · rename_i hname
      apply ih
      simpa [Ne.symm hname] using h

/-! ## Reading the values of a table -/

section Reading

variable {β γ ε : Type _} {f : String → β → Except ε γ}

/-- **Setting what is read from the entries of a table one after the other.** If each value
that is stored can be read, all of them are read, and nothing else is in the table.

**Proof sketch.** Reading succeeds at each entry, so what is set in the end are the values that
are read, in the same ascending order of the names. -/
theorem foldlM_insert_map {t : Table α} {store : α → β} {value : α → γ}
    (h : ∀ e ∈ t.entries, f e.1 (store e.2) = .ok (value e.2)) :
    (t.map store).entries.foldlM (fun u (k, x) => u.insert k <$> f k x) empty =
      .ok (t.map value) := by
  have hread : ∀ (entries : List (String × α)) (u : Table γ),
      (∀ e ∈ entries, f e.1 (store e.2) = .ok (value e.2)) →
        (entries.map fun e => (e.1, store e.2)).foldlM
            (fun u (k, x) => u.insert k <$> f k x) u =
          .ok ((entries.map fun e => (e.1, value e.2)).foldl (fun u (k, v) => u.insert k v) u) := by
    intro entries
    induction entries with
    | nil =>
      intro u _
      rfl
    | cons e rest ih =>
      intro u he
      have hfirst : f e.1 (store e.2) = .ok (value e.2) := he e List.mem_cons_self
      simp only [List.map_cons, List.foldlM_cons, hfirst]
      exact ih _ fun d hd => he d (List.mem_cons_of_mem e hd)
  rw [show (t.map store).entries = t.entries.map fun e => (e.1, store e.2) from rfl,
    hread t.entries empty h]
  exact congrArg Except.ok (ext_entries (ofList_entries (t.map value).ascending))

/-- What is in the table after what is read from entries was set: what was there before, or
what was read. -/
lemma find?_foldlM_insert {entries : List (String × β)} {t t' : Table γ} {name : String} {v : γ}
    (h : entries.foldlM (fun u (k, x) => u.insert k <$> f k x) t = .ok t')
    (hv : t'.find? name = some v) :
    t.find? name = some v ∨ ∃ x, f name x = .ok v := by
  induction entries generalizing t with
  | nil =>
    cases h
    exact .inl hv
  | cons e rest ih =>
    rw [List.foldlM_cons] at h
    cases hread : f e.1 e.2 with
    | error fault =>
      simp only [hread] at h
      cases h
    | ok w =>
      simp only [hread] at h
      rcases ih h with hfound | hfound
      · rw [find?_insert] at hfound
        split at hfound
        · rename_i hname
          cases hfound
          exact .inr ⟨e.2, hname ▸ hread⟩
        · exact .inl hfound
      · exact .inr hfound

/-- All values are set if all of them can be read. -/
lemma exists_foldlM_insert {entries : List (String × β)}
    (h : ∀ e ∈ entries, ∃ v, f e.1 e.2 = .ok v) (t : Table γ) :
    ∃ t', entries.foldlM (fun u (k, x) => u.insert k <$> f k x) t = .ok t' := by
  induction entries generalizing t with
  | nil => exact ⟨t, rfl⟩
  | cons e rest ih =>
    obtain ⟨v, hv⟩ := h e List.mem_cons_self
    simp only [List.foldlM_cons, hv]
    exact ih (fun d hd => h d (List.mem_cons_of_mem e hd)) (t.insert e.1 v)

/-- The first value that cannot be read is the fault. -/
lemma foldlM_insert_eq_error {front : List (String × β)} {e : String × β} {fault : ε}
    (hfront : ∀ d ∈ front, ∃ v, f d.1 d.2 = .ok v) (he : f e.1 e.2 = .error fault)
    (rest : List (String × β)) (t : Table γ) :
    (front ++ e :: rest).foldlM (fun u (k, x) => u.insert k <$> f k x) t = .error fault := by
  obtain ⟨t', ht'⟩ := exists_foldlM_insert hfront t
  have hrest : (e :: rest).foldlM (fun u (k, x) => u.insert k <$> f k x) t' = .error fault := by
    simp only [List.foldlM_cons, he]
    rfl
  rw [List.foldlM_append, ht']
  exact hrest

/-- If all values are set, all of them can be read. -/
lemma exists_of_foldlM_insert {entries : List (String × β)} {t t' : Table γ}
    (h : entries.foldlM (fun u (k, x) => u.insert k <$> f k x) t = .ok t') :
    ∀ e ∈ entries, ∃ v, f e.1 e.2 = .ok v := by
  induction entries generalizing t with
  | nil => exact List.forall_mem_nil _
  | cons e rest ih =>
    rw [List.foldlM_cons] at h
    cases hread : f e.1 e.2 with
    | error fault =>
      simp only [hread] at h
      cases h
    | ok v =>
      simp only [hread] at h
      intro d hd
      rcases List.mem_cons.1 hd with rfl | hd
      · exact ⟨v, hread⟩
      · exact ih h d hd

/-- What is read from the entries of a table, and can be told from what was read, is set in their
places. -/
theorem map_foldlM_insert {back : γ → β} {u : Table β} {t : Table γ}
    (h : u.entries.foldlM (fun t (k, x) => t.insert k <$> f k x) empty = .ok t)
    (hback : ∀ e ∈ u.entries, ∀ v, f e.1 e.2 = .ok v → back v = e.2) : t.map back = u := by
  have hfold : ∀ (entries : List (String × β)) (t t' : Table γ),
      entries.foldlM (fun t (k, x) => t.insert k <$> f k x) t = .ok t' →
        (∀ e ∈ entries, ∀ v, f e.1 e.2 = .ok v → back v = e.2) →
          t'.map back = entries.foldl (fun u (k, x) => u.insert k x) (t.map back) := by
    intro entries
    induction entries with
    | nil =>
      intro t t' h _
      cases h
      rfl
    | cons e rest ih =>
      intro t t' h hback
      rw [List.foldlM_cons] at h
      cases hread : f e.1 e.2 with
      | error fault =>
        simp only [hread] at h
        cases h
      | ok v =>
        simp only [hread] at h
        rw [ih _ _ h fun d hd => hback d (List.mem_cons_of_mem e hd), map_insert,
          hback e List.mem_cons_self v hread, List.foldl_cons]
  rw [hfold u.entries empty t h hback]
  exact ext_entries (ofList_entries u.ascending)

end Reading

end Table

end Stencil
