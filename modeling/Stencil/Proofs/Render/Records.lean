import Mathlib.Data.List.Forall2
import Mathlib.Tactic.Lemma
import Stencil.Proofs.Render.Pairs

/-!
# Records in place of maps

An object that answers for every name what a map holds under it can stand for the map, wherever
the data has one. The members of a map are parts of the data, and those of an object are made when
they are asked for; the way of a path is the same through either, and so is what a section makes
of a value. A program can tell the two apart only by writing a value as a whole.

## Main definitions

* `Value.Recast` — data in which objects stand for some of the maps.
* `Value.HasRecast` — data in which an object does stand for a map.
* `Held` — a value that is a part of the data, or that was made for the rendering.
* `Held.lookup`, `Held.contextsOf` — paths and sections, with note taken of who holds a value.
* `Trace.formatted` — the events that a rendering comes to.

## Main results

* `Held.value_lookup`, `Held.value_contextsOf` — it does not matter who holds a value.
* `Value.Recast.eq_of_not_hasRecast` — data without any replaced map is the same.
* `Value.Recast.lookup` — paths lead to data that corresponds.
* `Value.Recast.rendering` — programs are run alike with maps and with records.
-/

namespace Stencil

/-! ## Objects for maps -/

namespace Value

/-- The second value is the first one with objects in place of some of the maps, at any depth. Such
an object finds what the map holds, with maps replaced likewise, and nothing else. -/
inductive Recast : Value → Value → Prop where
  /-- Nothing is replaced. -/
  | same (v : Value) : Recast v v
  /-- The items of a list. -/
  | list {vs ws : List Value} : List.Forall₂ Recast vs ws → Recast (.list vs) (.list ws)
  /-- The values of a map. -/
  | map {entries entries' : List (String × Value)} :
      entries.map Prod.fst = entries'.map Prod.fst →
        List.Forall₂ Recast (entries.map Prod.snd) (entries'.map Prod.snd) →
          Recast (.map entries) (.map entries')
  /-- The map itself. -/
  | record {entries : List (String × Value)} (id : Nat) {field call : String → Option Value} :
      (∀ name, Option.Rel Recast (Entries.find? name entries) (field name <|> call name)) →
        Recast (.map entries) (.object id field call)

/-- In the second value an object stands for a map of the first one. -/
inductive HasRecast : Value → Value → Prop where
  | here {entries : List (String × Value)} {id : Nat} {field call : String → Option Value} :
      HasRecast (.map entries) (.object id field call)
  | item {vs ws : List Value} {v w : Value} : (v, w) ∈ vs.zip ws → HasRecast v w →
      HasRecast (.list vs) (.list ws)
  | entry {entries entries' : List (String × Value)} {v w : Value} :
      (v, w) ∈ (entries.map Prod.snd).zip (entries'.map Prod.snd) → HasRecast v w →
        HasRecast (.map entries) (.map entries')

/-- Only lists and maps can have a map in them. -/
lemma HasRecast.kindName {v w : Value} (h : v.HasRecast w) :
    v.kindName = "map" ∨ v.kindName = "list" := by
  cases h with
  | here => exact .inl rfl
  | entry _ _ => exact .inl rfl
  | item _ _ => exact .inr rfl

namespace Recast

mutual

/-- **Data without any replaced map is the same.** -/
theorem eq_of_not_hasRecast : (v w : Value) → Recast v w → ¬HasRecast v w → v = w
  | .none, _, .same _, _ => rfl
  | .bool _, _, .same _, _ => rfl
  | .integer _, _, .same _, _ => rfl
  | .float _, _, .same _, _ => rfl
  | .string _, _, .same _, _ => rfl
  | .object _ _ _, _, .same _, _ => rfl
  | .list _, _, .same _, _ => rfl
  | .list vs, .list ws, .list h, hnot =>
    congrArg Value.list (items_eq vs ws h fun _ _ hmem hhas => hnot (.item hmem hhas))
  | .map _, _, .same _, _ => rfl
  | .map entries, .map entries', .map hnames h, hnot =>
    congrArg Value.map (entries_eq entries entries' hnames h fun _ _ hmem hhas =>
      hnot (.entry hmem hhas))
  | .map _, _, .record _ _, hnot => absurd .here hnot

/-- Lists without any replaced map are the same. -/
lemma items_eq : (vs ws : List Value) → List.Forall₂ Recast vs ws →
    (∀ v w, (v, w) ∈ vs.zip ws → ¬HasRecast v w) → vs = ws
  | [], _, .nil, _ => rfl
  | v :: vs, w :: ws, .cons hfirst hrest, hnot => by
    have hvw : v = w := eq_of_not_hasRecast v w hfirst (hnot v w List.mem_cons_self)
    have hvws : vs = ws := items_eq vs ws hrest fun v' w' hmem =>
      hnot v' w' (List.mem_cons_of_mem _ hmem)
    rw [hvw, hvws]

/-- Entries without any replaced map are the same. -/
lemma entries_eq : (entries entries' : List (String × Value)) →
    entries.map Prod.fst = entries'.map Prod.fst →
      List.Forall₂ Recast (entries.map Prod.snd) (entries'.map Prod.snd) →
        (∀ v w, (v, w) ∈ (entries.map Prod.snd).zip (entries'.map Prod.snd) → ¬HasRecast v w) →
          entries = entries'
  | [], [], _, _, _ => rfl
  | (name, v) :: entries, (name', w) :: entries', hnames, .cons hfirst hrest, hnot => by
    obtain ⟨hname, hnames⟩ := List.cons.inj hnames
    have hvw : v = w := eq_of_not_hasRecast v w hfirst (hnot v w List.mem_cons_self)
    have hentries : entries = entries' := entries_eq entries entries' hnames hrest
      fun v' w' hmem => hnot v' w' (List.mem_cons_of_mem _ hmem)
    rw [hvw, hentries, show name = name' from hname]

end

/-! ## Paths and sections -/

variable {v w : Value} {path : Path}

/-- A value that may be missing, with nothing replaced. -/
lemma rel_same (v? : Option Value) : Option.Rel Recast v? v? := by
  cases v? with
  | none => exact .none
  | some v => exact .some (.same v)

/-- What is found among entries whose values correspond. -/
lemma find? (name : String) : (entries entries' : List (String × Value)) →
    entries.map Prod.fst = entries'.map Prod.fst →
      List.Forall₂ Recast (entries.map Prod.snd) (entries'.map Prod.snd) →
        Option.Rel Recast (Entries.find? name entries) (Entries.find? name entries')
  | [], [], _, _ => .none
  | (k, v) :: entries, (k', w) :: entries', hnames, .cons hfirst hrest => by
    obtain ⟨hk, hothers⟩ := List.cons.inj hnames
    obtain rfl : k = k' := hk
    by_cases hname : k = name
    · simpa [Entries.find?, hname] using Option.Rel.some hfirst
    · simpa [Entries.find?, hname] using find? name entries entries' hothers hrest

/-- **A member of a value** is found on either side, or on neither. -/
theorem member (h : Recast v w) (name : String) :
    Option.Rel Recast (v.member name) (w.member name) := by
  cases h with
  | same => exact rel_same _
  | list _ => exact .none
  | map hnames hvalues => exact find? name _ _ hnames hvalues
  | record id hfind => exact hfind name

/-- A path of members is found on either side, or on neither. -/
lemma resolve (h : Recast v w) (segments : List String) :
    Option.Rel Recast (v.resolve segments) (w.resolve segments) := by
  induction segments generalizing v w with
  | nil => exact .some h
  | cons name segments ih =>
    have hmember := h.member name
    simp only [Value.resolve, List.foldlM_cons]
    generalize v.member name = v?, w.member name = w? at hmember
    cases hmember with
    | none => exact .none
    | some h => exact ih h

/-- The same paths are known. -/
lemma owns_eq (h : Recast v w) (path : Path) : owns path v = owns path w := by
  unfold owns
  cases path.base? with
  | none => rfl
  | some name =>
    show (v.member name).isSome = (w.member name).isSome
    have hmember := h.member name
    generalize v.member name = v?, w.member name = w? at hmember
    cases hmember <;> rfl

/-- **Paths lead to data that corresponds**, or nowhere on either side. -/
theorem lookup {contexts contexts' : List Value} (h : List.Forall₂ Recast contexts contexts')
    (path : Path) :
    Option.Rel Recast (lookup contexts path) (Stencil.lookup contexts' path) := by
  induction h with
  | nil => exact .none
  | @cons v w contexts contexts' hfirst _ ih =>
    unfold Stencil.lookup
    rw [List.find?_cons, List.find?_cons, ← hfirst.owns_eq path]
    cases owns path v with
    | true => exact hfirst.resolve path.segments
    | false => exact ih

/-- **A section runs as often on either side**, with data that corresponds. -/
theorem contextsOf {v? w? : Option Value} (h : Option.Rel Recast v? w?) :
    List.Forall₂ Recast (contextsOf v?) (Stencil.contextsOf w?) := by
  cases h with
  | none => exact .nil
  | some h =>
    cases h with
    | same v => exact List.forall₂_same.2 fun v _ => .same v
    | list hitems => exact hitems
    | map hnames hvalues => exact .cons (.map hnames hvalues) .nil
    | record id hfind => exact .cons (.record id hfind) .nil

/-- All data at hand corresponds if that of the whole rendering does. -/
lemma forall₂_of_stacked {root root' : Value} (h : Recast root root')
    {contexts contexts' : List Value} (hstacked : Stacked Recast root root' contexts contexts') :
    List.Forall₂ Recast contexts contexts' := by
  obtain ⟨inner, inner', rfl, rfl, hinner⟩ := hstacked
  exact List.rel_append hinner (.cons h .nil)

/-- The data with maps and that with records correspond, for every program. -/
lemma correspondence {root root' : Value} (h : Recast root root') (p : Program) :
    Correspondence Recast p root root' := by
  constructor
  · intro contexts contexts' path hstacked _
    exact lookup (h.forall₂_of_stacked hstacked) path
  · intro v? w? hvalue
    exact contextsOf hvalue

end Recast

end Value

/-! ## Who holds a value -/

/-- A value as a rendering holds it: a part of its data, or one that was made when an object was
asked for it. -/
inductive Held where
  | borrowed (v : Value)
  | owned (v : Value)

namespace Held

/-- The value that is held. -/
def value : Held → Value
  | borrowed v => v
  | owned v => v

/-- A member of a part of the data. A map has its members, and an object makes them. -/
def member (v : Value) (name : String) : Option Held :=
  match v with
  | .map entries => (Entries.find? name entries).map borrowed
  | .object _ field call => (field name <|> call name).map owned
  | _ => none

/-- A member of a value that is held. What belongs to a value that was made is made as well. -/
def step : Held → String → Option Held
  | borrowed v, name => member v name
  | owned v, name => (member v name).map fun found => owned found.value

/-- The end of a path of members that starts at a part of the data. -/
def walk (v : Value) (segments : List String) : Option Held :=
  segments.foldlM step (borrowed v)

/-- The end of a path that starts at a value that is held. -/
def resolve (path : Path) : Held → Option Held
  | borrowed v => walk v path.segments
  | owned v => (walk v path.segments).map fun found => owned found.value

/-- Whether the first name of a path is known to a value that is held. -/
def owns (path : Path) (held : Held) : Bool :=
  match path.base? with
  | none => true
  | some name => held.value.hasMembers && (member held.value name).isSome

/-- The value of a path, given the values that are held, innermost first. -/
def lookup (contexts : List Held) (path : Path) : Option Held :=
  (contexts.find? (owns path)).bind (resolve path)

/-- The data with which a section runs, held as the value that it is made of. -/
def contextsOf : Option Held → List Held
  | none => []
  | some (borrowed (.list items)) => items.map borrowed
  | some (owned (.list items)) => items.map owned
  | some held =>
    match held.value with
    | .none => []
    | .bool false => []
    | _ => [held]

/-- A member is the same, whoever holds it. -/
lemma value_member (v : Value) (name : String) : (member v name).map value = v.member name := by
  cases v with
  | map entries =>
    show ((Entries.find? name entries).map borrowed).map value = Entries.find? name entries
    cases Entries.find? name entries <;> rfl
  | object id field call =>
    show ((field name <|> call name).map owned).map value = (field name <|> call name)
    cases field name <|> call name <;> rfl
  | none => rfl
  | bool b => rfl
  | integer n => rfl
  | float x => rfl
  | string s => rfl
  | list items => rfl

/-- A member of a value that is held is that of the value. -/
lemma value_step (held : Held) (name : String) :
    (held.step name).map value = held.value.member name := by
  cases held with
  | borrowed v => exact value_member v name
  | owned v =>
    rw [value, ← value_member]
    show ((member v name).map fun found => owned found.value).map value = _
    cases member v name <;> rfl

/-- The end of a path of members is the same, whoever holds the values on the way. -/
lemma value_walk (v : Value) (segments : List String) :
    (walk v segments).map value = v.resolve segments := by
  have hfrom : ∀ held : Held, (segments.foldlM step held).map value =
      segments.foldlM Value.member held.value := by
    induction segments with
    | nil =>
      intro held
      rfl
    | cons name segments ih =>
      intro held
      simp only [List.foldlM_cons, ← value_step]
      cases held.step name with
      | none => rfl
      | some found => exact ih found
  exact hfrom (borrowed v)

/-- The end of a path is the same, whoever holds the value at its start. -/
lemma value_resolve (path : Path) (held : Held) :
    (held.resolve path).map value = held.value.resolve path.segments := by
  cases held with
  | borrowed v => exact value_walk v path.segments
  | owned v =>
    rw [value, ← value_walk]
    show ((walk v path.segments).map fun found => owned found.value).map value = _
    cases walk v path.segments <;> rfl

/-- A path is known to a value, whoever holds it. -/
lemma owns_value (path : Path) (held : Held) : held.owns path = Stencil.owns path held.value := by
  unfold owns Stencil.owns
  cases path.base? with
  | none => rfl
  | some name =>
    show (held.value.hasMembers && (member held.value name).isSome) =
      (held.value.member name).isSome
    rw [← value_member, Option.isSome_map]
    cases held.value <;> rfl

/-- **It does not matter who holds the values** in which a path is looked up. -/
theorem value_lookup (contexts : List Held) (path : Path) :
    (lookup contexts path).map value = Stencil.lookup (contexts.map value) path := by
  have howns : Stencil.owns path ∘ value = owns path :=
    funext fun held => (owns_value path held).symm
  unfold lookup Stencil.lookup
  rw [List.find?_map, howns]
  cases contexts.find? (owns path) with
  | none => rfl
  | some held => exact value_resolve path held

/-- **It does not matter who holds the value** of which a section is made. -/
theorem value_contextsOf (held? : Option Held) :
    (contextsOf held?).map value = Stencil.contextsOf (held?.map value) := by
  have hitems : ∀ (f : Value → Held) (items : List Value), value ∘ f = id →
      (items.map f).map value = items := by
    intro f items hf
    rw [List.map_map, hf, List.map_id]
  cases held? with
  | none => rfl
  | some held =>
    cases held with
    | borrowed v =>
      cases v with
      | list items => exact hitems borrowed items rfl
      | bool b => cases b <;> rfl
      | none => rfl
      | integer n => rfl
      | float x => rfl
      | string s => rfl
      | map entries => rfl
      | object id field call => rfl
    | owned v =>
      cases v with
      | list items => exact hitems owned items rfl
      | bool b => cases b <;> rfl
      | none => rfl
      | integer n => rfl
      | float x => rfl
      | string s => rfl
      | map entries => rfl
      | object id field call => rfl

end Held

/-! ## Renderings -/

/-- The events that a rendering comes to: all of them, or those up to the first one that cannot be
formatted. -/
def Trace.formatted (formatter : Formatter) : Trace → List Event
  | .ended _ => []
  | .event e rest =>
    match e.content formatter with
    | .error _ => [e]
    | .ok _ => e :: (rest ()).formatted formatter

/-- The value that an event writes, if there is one. -/
def Event.value? : Event → Option Value
  | .value _ _ v? => v?
  | .text _ _ => none
  | .opened _ _ _ => none
  | .closed _ _ => none

/-- The events write values, and in the second one an object stands for a map of the first. -/
def Event.ShowsRecast (e e' : Event) : Prop :=
  ∃ v w, e.value? = some v ∧ e'.value? = some w ∧ v.HasRecast w

namespace Value.Recast

/-- Events that write no replaced map are the same. -/
lemma event_eq {e e' : Event} (h : e.Alike Recast e') (hshows : ¬e.ShowsRecast e') : e = e' := by
  cases h with
  | text indent content => rfl
  | opened inverted path runs => rfl
  | closed path again => rfl
  | value indent escaped hvalue =>
    cases hvalue with
    | none => rfl
    | some h => rw [eq_of_not_hasRecast _ _ h fun hhas => hshows ⟨_, _, rfl, rfl, hhas⟩]

/-- Paths lead to data that corresponds, whoever holds the values on the way. -/
lemma held_lookup {contexts contexts' : List Value} (h : List.Forall₂ Recast contexts contexts')
    {held held' : List Held} (hheld : held.map Held.value = contexts)
    (hheld' : held'.map Held.value = contexts') (path : Path) :
    Option.Rel (fun a b => Recast a.value b.value) (Held.lookup held path)
      (Held.lookup held' path) := by
  have hvalues := lookup h path
  rw [← hheld, ← hheld', ← Held.value_lookup, ← Held.value_lookup] at hvalues
  generalize Held.lookup held path = a?, Held.lookup held' path = b? at hvalues
  cases a? with
  | none =>
    cases b? with
    | none => exact .none
    | some b => cases hvalues
  | some a =>
    cases b? with
    | none => cases hvalues
    | some b =>
      cases hvalues with
      | some hab => exact .some hab

/-- Sections are made of values that correspond, whoever holds them. -/
lemma held_contextsOf {a? b? : Option Held}
    (h : Option.Rel (fun a b => Recast a.value b.value) a? b?) :
    List.Forall₂ (fun a b => Recast a.value b.value) (Held.contextsOf a?)
      (Held.contextsOf b?) := by
  have hvalues : Option.Rel Recast (a?.map Held.value) (b?.map Held.value) := by
    cases h with
    | none => exact .none
    | some hab => exact .some hab
  have hcontexts := contextsOf hvalues
  rw [← Held.value_contextsOf, ← Held.value_contextsOf] at hcontexts
  exact List.forall₂_map_right_iff.1 (List.forall₂_map_left_iff.1 hcontexts)

/-- Traces that write no replaced map, as far as a rendering comes, are written in the same way. -/
lemma outputFrom_eq {formatter : Formatter} {t t' : Trace} (h : t.Alike Recast t')
    (hshows : ∀ pair ∈ (t.formatted formatter).zip (t'.formatted formatter),
      ¬pair.1.ShowsRecast pair.2) (lineStart : Bool) :
    t.outputFrom formatter lineStart = t'.outputFrom formatter lineStart := by
  induction h generalizing lineStart with
  | ended fault => rfl
  | @event e e' rest rest' he _ ih =>
    simp only [Trace.formatted] at hshows
    obtain rfl : e = e' := by
      refine event_eq he (hshows (e, e') ?_)
      cases e.content formatter <;> cases e'.content formatter <;> exact List.mem_cons_self
    simp only [Trace.outputFrom]
    cases hcontent : e.content formatter with
    | error fault => rfl
    | ok content? =>
      rw [hcontent] at hshows
      have hrest := ih fun pair hpair => hshows pair (List.mem_cons_of_mem _ hpair)
      cases content? with
      | none => exact hrest lineStart
      | some content => simp only [hrest]

/-- **Records and maps are interchangeable for lookups.** If some maps of the data, at any depth,
are replaced by objects that find what the maps hold, then every program is run in the same way:
every section runs, is skipped and repeats the same number of times, and every value that is
written corresponds. To every machine that one run reaches there is one that the other reaches
with the same number of steps. Both are at the same place, and there every path leads to data that
corresponds, or nowhere on either side, and so does the data of the section that it would make,
whether the values on the way are parts of the data or were made. If no value with a replaced map
is written, the texts are the same.

**Proof sketch.** The members of two values that correspond do so too, hence so does all that a
path leads to and all that is pushed by a section, and no step of the machines can tell the values
apart. Values that correspond without any replaced map are equal. -/
theorem rendering {root root' : Value} (h : Recast root root') (p : Program) (limit : Nat) :
    (p.run limit root).Alike Recast (p.run limit root') ∧
      (∀ m, Machine.Reaches p (.start p limit root) m →
        ∃ m', Machine.Meets p (.start p limit root) (.start p limit root') m m') ∧
      (∀ m m', Machine.Meets p (.start p limit root) (.start p limit root') m m' →
        m.cursor = m'.cursor ∧
          ∀ held held' : List Held, held.map Held.value = m.scopes.contexts →
            held'.map Held.value = m'.scopes.contexts → ∀ path,
              Option.Rel (fun a b => Recast a.value b.value) (Held.lookup held path)
                  (Held.lookup held' path) ∧
                List.Forall₂ (fun a b => Recast a.value b.value)
                  (Held.contextsOf (Held.lookup held path))
                  (Held.contextsOf (Held.lookup held' path))) ∧
      ∀ (e : Engine) (depth : Option Nat), depth.getD e.limit = limit →
        (∀ pair ∈ ((p.run limit root).formatted e.formatter).zip
            ((p.run limit root').formatted e.formatter), ¬pair.1.ShowsRecast pair.2) →
          e.render p depth root = e.render p depth root' ∧
            e.renderText p depth (.ok root) = e.renderText p depth (.ok root') ∧
            ∀ sink, e.renderTo p depth (.ok root) sink = e.renderTo p depth (.ok root') sink := by
  have hcorrespondence := h.correspondence p
  have hrun := hcorrespondence.run limit
  refine ⟨hrun, fun m hm => hcorrespondence.exists_meets hm, fun m m' hmeets => ?_, ?_⟩
  · obtain ⟨-, halike⟩ := hcorrespondence.meets hmeets
    refine ⟨halike.cursor, fun held held' hheld hheld' path => ?_⟩
    have hlookup := held_lookup (h.forall₂_of_stacked halike.scopes.contexts) hheld hheld' path
    exact ⟨hlookup, held_contextsOf hlookup⟩
  · intro e depth hdepth hshows
    have hrender : e.render p depth root = e.render p depth root' := by
      rw [Engine.render, Engine.render, hdepth]
      exact outputFrom_eq hrun hshows true
    refine ⟨hrender, ?_, fun sink => ?_⟩
    · simp only [Engine.renderText, hrender]
    · simp only [Engine.renderTo, hrender]

end Value.Recast

/-- An object whose accessor gives a further object with a field, as a section and on the way of a
dotted path. -/
theorem rendering_on_accessors :
    ∃ (p : Program) (root root' : Value), root.Recast root' ∧ root.HasRecast root' ∧
      Engine.empty.renderText p none (.ok root') = .ok "1, 1" := by
  let p : Program :=
    ⟨"", ⟨#[.interpolate true ⟨["a", "b", "c"], by decide⟩, .text ", ",
      .openSection false ⟨["a"], by decide⟩ 4, .interpolate true ⟨["b", "c"], by decide⟩,
      .closeSection ⟨["a"], by decide⟩ 2], by decide⟩, .empty⟩
  let field (v : Value) (name other : String) : Option Value :=
    if name = other then some v else none
  let inner : Value := .map [("c", .string "1")]
  let inner' : Value := .object 1 (field (.string "1") "c") fun _ => none
  let outer : Value := .map [("b", inner)]
  let outer' : Value := .object 2 (fun _ => none) (field inner' "b")
  have hinner : inner.Recast inner' := by
    refine .record 1 fun name => ?_
    by_cases hname : "c" = name
    · simpa [Entries.find?, field, hname] using Option.Rel.some (.same _)
    · simp [Entries.find?, field, hname]
  have houter : outer.Recast outer' := by
    refine .record 2 fun name => ?_
    by_cases hname : "b" = name
    · simpa [Entries.find?, field, hname] using Option.Rel.some hinner
    · simp [Entries.find?, field, hname]
  let root : Value := .map [("a", outer)]
  let root' : Value := .map [("a", outer')]
  have hroot : root.Recast root' := .map rfl (.cons houter .nil)
  refine ⟨p, root, root', hroot, .entry List.mem_cons_self .here, ?_⟩
  obtain ⟨-, -, -, hrender⟩ := hroot.rendering p 64
  have hwritten : (((p.run 64 root).formatted Formatter.escaped).filterMap Event.value?).all
      fun v => v.kindName = "string" := by decide +kernel
  rw [← (hrender Engine.empty none rfl ?_).2.1, Engine.renderText_eq]
  · have hfault : (Engine.empty.render p none root).fault = none := by decide +kernel
    have hpieces : String.join (Engine.empty.render p none root).pieces = "1, 1" := by
      decide +kernel
    rw [hfault]
    exact congrArg Except.ok hpieces
  · -- only texts are written
    rintro ⟨e, e'⟩ hpair ⟨v, w, hv, -, hhas⟩
    have hstring := List.all_eq_true.1 hwritten v
      (List.mem_filterMap.2 ⟨e, (List.of_mem_zip hpair).1, hv⟩)
    rcases hhas.kindName with hkind | hkind
    · simp [hkind] at hstring
    · simp [hkind] at hstring

end Stencil
