import Mathlib.Tactic.Lemma
import Stencil.Proofs.Render.Records

/-!
# Who owns a path

The data of the sections that run stands in frames, one for each section and the outermost one for
the whole rendering. A path is looked up in the innermost frame whose data at hand knows the first
name of it, and there alone: neither the frames around it nor those within it that do not know the
name have a say in what is found, or in that nothing is found.

## Main definitions

* `Knows` — data that knows the first name of a path.
* `Scopes.frames`, `IsOwner` — the data of the sections, and those that may answer for a path.

## Main results

* `owns_iff_knows`, `knows_iff_resolve` — owning a path and resolving its first name agree.
* `Scopes.get?_eq_resolve` — what is found is what the owner finds.
* `Scopes.get?_decided` — nothing but the owner counts.
-/

namespace Stencil

/-! ## The first name of a path -/

/-- The path up to its first name. The path of the data at hand has none. -/
def Path.first (p : Path) : Path :=
  ⟨p.segments.take 1, fun s hs => p.segments_isIdent s (List.mem_of_mem_take hs)⟩

/-- What is left of a path up to its first name. -/
@[simp]
lemma Path.segments_first (p : Path) : p.first.segments = p.segments.take 1 := rfl

/-- The first name of a path is an entry of a map, whatever value it has, or a field or an accessor
of an object. All data knows the path of the data at hand. -/
inductive Knows (path : Path) : Value → Prop where
  | self (v : Value) : path.isSelf = true → Knows path v
  | entry {name : String} {entries : List (String × Value)} {v : Value} :
      path.base? = some name → Entries.find? name entries = some v → Knows path (.map entries)
  | field {name : String} {id : Nat} {field call : String → Option Value} {v : Value} :
      path.base? = some name → field name = some v → Knows path (.object id field call)
  | accessor {name : String} {id : Nat} {field call : String → Option Value} {v : Value} :
      path.base? = some name → call name = some v → Knows path (.object id field call)

/-- **Only maps and objects have members.** An object is asked for an accessor if it has no field
of the name. -/
lemma Value.member_eq_some_iff {v w : Value} {name : String} :
    v.member name = some w ↔
      (∃ entries, v = .map entries ∧ Entries.find? name entries = some w) ∨
        ∃ id field call, v = .object id field call ∧
          (field name = some w ∨ field name = Option.none ∧ call name = some w) := by
  cases v with
  | map entries => simp [member]
  | object id field call => simp [member, Option.or_eq_some_iff]
  | none => simp [member]
  | bool b => simp [member]
  | integer n => simp [member]
  | float x => simp [member]
  | string s => simp [member]
  | list items => simp [member]

section Knows

variable {path : Path} {v : Value}

/-- A path with a first name is known to data that has a member of that name. -/
lemma knows_iff_member {name : String} (hname : path.base? = some name) :
    Knows path v ↔ ∃ w, v.member name = some w := by
  have hself : path.isSelf = false := by
    rw [Path.isSelf, List.isEmpty_eq_false_iff]
    intro hnil
    simp [Path.base?, hnil] at hname
  simp only [Value.member_eq_some_iff]
  constructor
  · intro h
    cases h with
    | self _ hyes =>
      rw [hself] at hyes
      cases hyes
    | entry hname' hfind =>
      cases hname.symm.trans hname'
      exact ⟨_, .inl ⟨_, rfl, hfind⟩⟩
    | field hname' hfield =>
      cases hname.symm.trans hname'
      exact ⟨_, .inr ⟨_, _, _, rfl, .inl hfield⟩⟩
    | @accessor _ _ field _ _ hname' hcall =>
      cases hname.symm.trans hname'
      cases hfield : field name with
      | some u => exact ⟨u, .inr ⟨_, _, _, rfl, .inl hfield⟩⟩
      | none => exact ⟨_, .inr ⟨_, _, _, rfl, .inr ⟨hfield, hcall⟩⟩⟩
  · rintro ⟨w, ⟨entries, rfl, hfind⟩ | ⟨id, field, call, rfl, hfield | ⟨-, hcall⟩⟩⟩
    · exact .entry hname hfind
    · exact .field hname hfield
    · exact .accessor hname hcall

/-- **Data owns the paths whose first name it knows.** -/
theorem owns_iff_knows (path : Path) (v : Value) : owns path v = true ↔ Knows path v := by
  unfold owns
  cases hname : path.base? with
  | none =>
    have hself : path.isSelf = true := by
      rw [Path.isSelf, List.isEmpty_iff]
      exact List.head?_eq_none_iff.1 hname
    simp [Knows.self v hself]
  | some name =>
    rw [knows_iff_member hname]
    exact Option.isSome_iff_exists

/-- **Data knows the paths whose first name can be resolved in it.** -/
theorem knows_iff_resolve (path : Path) (v : Value) :
    Knows path v ↔ ∃ w, v.resolve path.first.segments = some w := by
  rw [Path.segments_first, Value.resolve]
  cases hsegments : path.segments with
  | nil =>
    have hself : path.isSelf = true := by
      rw [Path.isSelf, hsegments]
      rfl
    simp [Knows.self v hself]
  | cons name rest =>
    have hname : path.base? = some name := by
      rw [Path.base?, hsegments]
      rfl
    rw [knows_iff_member hname]
    simp

end Knows

/-! ## Frames -/

namespace Scopes

/-- The data of the sections that run, innermost first, and that of the whole rendering. Of each
section the first one is at hand; an inverted section has no data. -/
def frames (s : Scopes) : List (List Value) := s.inner.map Scope.contexts ++ [[s.root]]

/-- The data at hand is that of the frames. -/
lemma contexts_eq_frames (s : Scopes) : s.contexts = s.frames.filterMap List.head? := by
  rw [contexts, frames, List.filterMap_append, List.filterMap_map]
  rfl

end Scopes

/-- The data at hand of a frame knows the first name of a path. -/
def IsOwner (path : Path) (frame : List Value) : Prop := ∃ v, frame.head? = some v ∧ Knows path v

section IsOwner

variable {path : Path} {v : Value} {rest : List Value}

/-- The frame of an inverted section owns nothing. -/
lemma not_isOwner_nil (path : Path) : ¬IsOwner path [] := by
  rintro ⟨v, hv, -⟩
  cases hv

/-- A frame owns what its data at hand knows. -/
lemma isOwner_cons : IsOwner path (v :: rest) ↔ Knows path v := by
  simp [IsOwner]

/-- A frame with data owns the path of the data at hand. -/
lemma isOwner_self (h : path.isSelf = true) (v : Value) (rest : List Value) :
    IsOwner path (v :: rest) :=
  isOwner_cons.2 (.self v h)

/-- A frame owns a path with a first name if its data at hand has a member of that name, and then
the member may be the absent value. -/
lemma isOwner_named {name : String} (hname : path.base? = some name) :
    IsOwner path (v :: rest) ↔ v.hasMembers = true ∧ ∃ w, v.member name = some w := by
  rw [isOwner_cons, knows_iff_member hname]
  constructor
  · rintro ⟨w, hw⟩
    refine ⟨?_, w, hw⟩
    rcases Value.member_eq_some_iff.1 hw with ⟨entries, rfl, -⟩ | ⟨id, field, call, rfl, -⟩
    · rfl
    · rfl
  · rintro ⟨-, hmember⟩
    exact hmember

end IsOwner

/-- In frames that do not own a path nobody is found to own it. -/
lemma find?_frames_eq_none {path : Path} {frames : List (List Value)}
    (h : ∀ f ∈ frames, ¬IsOwner path f) :
    (frames.filterMap List.head?).find? (owns path) = none := by
  rw [List.find?_eq_none]
  intro v hv howns
  obtain ⟨f, hf, hhead⟩ := List.mem_filterMap.1 hv
  exact h f hf ⟨v, hhead, (owns_iff_knows path v).1 howns⟩

namespace Scopes

variable {s s' : Scopes} {path : Path} {inside inside' outside outside' : List (List Value)}
  {owner : List Value}

/-- **What is found is what the owner finds.** -/
theorem get?_eq_resolve (h : s.frames = inside ++ owner :: outside)
    (hinside : ∀ f ∈ inside, ¬IsOwner path f) {v : Value} (hv : owner.head? = some v)
    (hknows : Knows path v) : s.get? path = v.resolve path.segments := by
  have hcontexts : s.contexts =
      inside.filterMap List.head? ++ v :: outside.filterMap List.head? := by
    rw [contexts_eq_frames, h, List.filterMap_append, List.filterMap_cons_some hv]
  have howns : owns path v = true := (owns_iff_knows path v).2 hknows
  rw [get?, lookup, hcontexts, List.find?_append, find?_frames_eq_none hinside, Option.none_or,
    List.find?_cons_of_pos howns, Option.bind_some]

/-- Where no frame owns a path, nothing is found. -/
lemma get?_eq_none (h : ∀ f ∈ s.frames, ¬IsOwner path f) : s.get? path = none := by
  rw [get?, lookup, contexts_eq_frames, find?_frames_eq_none h]
  rfl

/-- **Nothing but the owner counts.** What a path leads to is what the innermost frame that owns it
finds, and that may be nothing, whatever the frames around it would find. Two stacks of scopes with
the same owner lead to the same, if the frames within the owner do not own the path. The frame of an
inverted section owns nothing, any other frame owns the path of the data at hand, and it owns a path
with a first name if its data is a map or an object with a member of that name, even if the member
is the absent value. It does not matter who holds the data, and whoever does, owning a path and
resolving its first name agree.

**Proof sketch.** The search for an owner passes the frames within, which do not own the path, and
ends at the owner, so the frames around it are never looked at. -/
theorem get?_decided (path : Path) :
    (∀ (s s' : Scopes) (inside inside' outside outside' : List (List Value)) (owner : List Value),
      s.frames = inside ++ owner :: outside → s'.frames = inside' ++ owner :: outside' →
        IsOwner path owner → (∀ f ∈ inside ++ inside', ¬IsOwner path f) →
          s'.get? path = s.get? path ∧
            ∃ v, owner.head? = some v ∧ s.get? path = v.resolve path.segments) ∧
      (∀ s : Scopes, (∀ f ∈ s.frames, ¬IsOwner path f) → s.get? path = none) ∧
      (¬IsOwner path [] ∧ ∀ v rest,
        (path.isSelf = true → IsOwner path (v :: rest)) ∧
          ∀ name, path.base? = some name →
            (IsOwner path (v :: rest) ↔ v.hasMembers = true ∧ ∃ w, v.member name = some w)) ∧
      ∀ (s : Scopes) (held : List Held), held.map Held.value = s.contexts →
        (Held.lookup held path).map Held.value = s.get? path ∧
          ∀ h ∈ held, (h.owns path = true ↔ IsOwner path [h.value]) ∧
            (IsOwner path [h.value] ↔ ∃ found, h.resolve path.first = some found) := by
  refine ⟨?_, fun s h => get?_eq_none h, ⟨not_isOwner_nil path, fun v rest =>
    ⟨fun hself => isOwner_self hself v rest, fun name hname => isOwner_named hname⟩⟩, ?_⟩
  · rintro s s' inside inside' outside outside' owner hs hs' ⟨v, hv, hknows⟩ hinside
    have hfound : s.get? path = v.resolve path.segments :=
      get?_eq_resolve hs (fun f hf => hinside f (List.mem_append_left _ hf)) hv hknows
    have hfound' : s'.get? path = v.resolve path.segments :=
      get?_eq_resolve hs' (fun f hf => hinside f (List.mem_append_right _ hf)) hv hknows
    exact ⟨hfound'.trans hfound.symm, v, hv, hfound⟩
  · intro s held hheld
    refine ⟨?_, fun h _ => ⟨?_, ?_⟩⟩
    · rw [Held.value_lookup, hheld]
      rfl
    · rw [Held.owns_value, owns_iff_knows, isOwner_cons]
    · rw [isOwner_cons, knows_iff_resolve, ← Held.value_resolve]
      simp [Option.map_eq_some_iff]

/-- The absent value stands under the first name, so nothing is found, though the data around it
has what the path asks for; nor is anything found if frames that do not own the path come between,
and the data around the owner is gone. -/
theorem get?_decided_on_absent :
    ∃ (path : Path) (inner outer : Value) (s s' : Scopes),
      s.frames = [[inner], [outer]] ∧
        s'.frames = [[], [.string "x", inner], [inner], [.none]] ∧ IsOwner path [inner] ∧
          outer.resolve path.segments = some (.string "far") ∧
            s.get? path = none ∧ s'.get? path = none := by
  let path : Path := ⟨["a", "b"], by decide⟩
  let inner : Value := .map [("a", .none)]
  let outer : Value := .map [("a", .map [("b", .string "far")])]
  let s : Scopes := ⟨[⟨path, [inner]⟩], outer⟩
  let s' : Scopes :=
    ⟨[⟨path, []⟩, ⟨path, [.string "x", inner]⟩, ⟨path, [inner]⟩], .none⟩
  have hbase : path.base? = some "a" := rfl
  have howner : IsOwner path [inner] := isOwner_cons.2 (.entry hbase rfl)
  have hinside : ∀ f ∈ [] ++ [[], [.string "x", inner]], ¬IsOwner path f := by
    intro f hf
    rcases List.mem_cons.1 hf with rfl | hf
    · exact not_isOwner_nil path
    · obtain rfl := List.mem_singleton.1 hf
      intro h
      cases ((isOwner_named hbase).1 h).1
  obtain ⟨hsame, v, hv, hfound⟩ := (get?_decided path).1 s s' [] [[], [.string "x", inner]]
    [[outer]] [[.none]] [inner] rfl rfl howner hinside
  cases hv
  have hnone : s.get? path = none := hfound
  exact ⟨path, inner, outer, s, s', rfl, rfl, howner, rfl, hnone, hsame.trans hnone⟩

end Scopes

end Stencil
