import Mathlib.Data.List.Forall2
import Mathlib.Tactic.Lemma
import Stencil.Engine.Session
import Stencil.Proofs.Code.Bracketing
import Stencil.Proofs.Code.Storage
import Stencil.Proofs.Code.Validity

/-!
# Documents from elsewhere

A document that is read as a program need not have been stored by one. What it says of the targets
of jumps is not even looked at: of the record of an instruction only the operation and the fields
of that operation count. Each list of instructions is sequenced again, so a program that is read
has true targets, whatever the document says, and the first list that is no sequence is reported.

## Main definitions

* `Document.SameInstr`, `Document.SameCode`, `Document.SamePartials`, `Document.SameProgram` —
  documents that agree in all that counts.
* `Sequence.IsSound` — a sequence on which no jump goes astray.

## Main results

* `Program.ofDocument_eq_of_same` — what does not count does not matter.
* `Program.raw_of_ofDocument` — a program holds the instructions of its document.
* `RawProgram.toProgram_main_error`, `RawProgram.toProgram_partial_error`,
  `RawProgram.exists_toProgram` — which list of instructions is reported.
* `Program.ofDocument_distrusts` — documents from elsewhere.
-/

namespace Stencil

open Stencil.Markup

/-! ## Lists of computations that may fail -/

section Lists

variable {α β γ ε : Type _}

/-- Computations that are equal one by one are equal one after the other. -/
lemma mapM_eq_of_forall₂ {f : α → Except ε γ} {g : β → Except ε γ} {xs : List α} {ys : List β}
    (h : List.Forall₂ (fun x y => f x = g y) xs ys) : xs.mapM f = ys.mapM g := by
  induction h with
  | nil => rfl
  | cons hfirst _ ih => rw [List.mapM_cons, List.mapM_cons, hfirst, ih]

/-- The results of computations one after the other are results of these. -/
lemma exists_of_mapM_eq_ok {f : α → Except ε β} {xs : List α} {ys : List β}
    (h : xs.mapM f = .ok ys) : ∀ y ∈ ys, ∃ x, f x = .ok y := by
  induction xs generalizing ys with
  | nil =>
    cases h
    exact List.forall_mem_nil _
  | cons x xs ih =>
    rw [List.mapM_cons] at h
    obtain ⟨first, hfirst, h⟩ := exists_of_bind_eq_ok h
    obtain ⟨others, hothers, h⟩ := exists_of_bind_eq_ok h
    cases h
    exact List.forall_mem_cons.2 ⟨⟨x, hfirst⟩, ih hothers⟩

end Lists

/-! ## What counts in a document -/

/-- The fields that some operation has. -/
lemma Instr.fieldNames?_subset {op : String} {names : List String}
    (h : fieldNames? op = some names) : names ⊆ ["text", "name", "indentation"] := by
  unfold fieldNames? at h
  split at h
  all_goals cases h
  all_goals simp

namespace Document

/-- Documents of one instruction: two records agree on the operation and on its fields. -/
inductive SameInstr : Document → Document → Prop where
  | same (d : Document) : SameInstr d d
  | record {fields fields' : List (String × Document)} :
      Entries.find? "op" fields = Entries.find? "op" fields' →
        (∀ op names, Entries.find? "op" fields = some (.text op) →
          Instr.fieldNames? op = some names →
            ∀ name ∈ names, Entries.find? name fields = Entries.find? name fields') →
          SameInstr (.object fields) (.object fields')

/-- Documents of a list of instructions that agree one by one. -/
inductive SameCode : Document → Document → Prop where
  | same (d : Document) : SameCode d d
  | array {items items' : List Document} : List.Forall₂ SameInstr items items' →
      SameCode (.array items) (.array items')

/-- Documents of partials that agree under each name. -/
inductive SamePartials : Document → Document → Prop where
  | same (d : Document) : SamePartials d d
  | object {fields fields' : List (String × Document)} :
      List.Forall₂ (fun e e' => e.1 = e'.1 ∧ SameCode e.2 e'.2) fields fields' →
        SamePartials (.object fields) (.object fields')

/-- Documents of a program that agree on its source, and on its instructions and those of its
partials up to what does not count in them. -/
inductive SameProgram : Document → Document → Prop where
  | same (d : Document) : SameProgram d d
  | record {fields fields' : List (String × Document)} :
      Option.Rel SameCode (Entries.find? "main" fields) (Entries.find? "main" fields') →
        Option.Rel SamePartials (Entries.find? "partials" fields)
          (Entries.find? "partials" fields') →
          Entries.find? "source" fields = Entries.find? "source" fields' →
            SameProgram (.object fields) (.object fields')
  | array {d e e' : Document} {rest rest' : List Document} : SameCode e e' →
      List.Forall₂ SamePartials rest rest' →
        SameProgram (.array (d :: e :: rest)) (.array (d :: e' :: rest'))

/-- **Fields for targets do not count**: a record of an instruction may be given any, and they may
be taken from it. -/
theorem sameInstr_of_targets {fields fields' : List (String × Document)}
    (h : ∀ name, name ≠ "close" → name ≠ "open" →
      Entries.find? name fields = Entries.find? name fields') :
    SameInstr (.object fields) (.object fields') := by
  refine .record (h "op" (by decide) (by decide)) fun op names _ hnames name hname => ?_
  have hcounted := Instr.fieldNames?_subset hnames hname
  simp only [List.mem_cons, List.not_mem_nil, or_false] at hcounted
  rcases hcounted with rfl | rfl | rfl
  · exact h "text" (by decide) (by decide)
  · exact h "name" (by decide) (by decide)
  · exact h "indentation" (by decide) (by decide)

variable {d d' : Document}

/-- What does not count in an instruction does not matter. -/
lemma SameInstr.ofDocument_eq (h : SameInstr d d') : Instr.ofDocument d = Instr.ofDocument d' := by
  cases h with
  | same d => rfl
  | @record fields fields' hop hfields =>
    simp only [Instr.ofDocument, field, ← hop]
    cases hfound : Entries.find? "op" fields with
    | none => rfl
    | some d =>
      cases d with
      | text op =>
        simp only [ok_bind, asText]
        cases hnames : Instr.fieldNames? op with
        | none => rfl
        | some names =>
          have hread : names.mapM (field fields) = names.mapM (field fields') := by
            refine mapM_eq_of_forall₂ (List.forall₂_same.2 fun name hname => ?_)
            rw [field, field, hfields op names hfound hnames name hname]
          exact congrArg (· >>= Instr.ofFields op) hread
      | null => rfl
      | bool b => rfl
      | number mantissa decimals => rfl
      | array items => rfl
      | object inner => rfl

/-- What does not count in a list of instructions does not matter. -/
lemma SameCode.listOfDocument_eq (h : SameCode d d') :
    Instr.listOfDocument d = Instr.listOfDocument d' := by
  cases h with
  | same d => rfl
  | array hitems => exact mapM_eq_of_forall₂ (hitems.imp fun _ _ hitem => hitem.ofDocument_eq)

/-- What does not count in the partials does not matter. -/
lemma SamePartials.partialsOfDocument_eq (h : SamePartials d d') :
    RawProgram.partialsOfDocument d = RawProgram.partialsOfDocument d' := by
  cases h with
  | same d => rfl
  | @object fields fields' hfields =>
    -- only what is read under each name is used
    have hread : (fields.map fun e => (e.1, Instr.listOfDocument e.2)) =
        fields'.map fun e => (e.1, Instr.listOfDocument e.2) := by
      induction hfields with
      | nil => rfl
      | cons hfirst _ ih =>
        rw [List.map_cons, List.map_cons, hfirst.1, hfirst.2.listOfDocument_eq, ih]
    have hfold : ∀ entries : List (String × Document),
        RawProgram.partialsOfDocument (.object entries) =
          (Table.ofList (entries.map fun e => (e.1, Instr.listOfDocument e.2))).entries.foldlM
            (fun t e => t.insert e.1 <$> e.2) Table.empty := by
      intro entries
      rw [← Table.map_ofList, Table.map, List.foldlM_map]
      rfl
    rw [hfold, hfold, hread]

/-- A part of a program that may be missing. -/
private lemma optional_eq {α : Type} {read : Document → Except DocumentFault α}
    {R : Document → Document → Prop} (hread : ∀ d d', R d d' → read d = read d') (default : α)
    {d? d?' : Option Document} (h : Option.Rel R d? d?') :
    RawProgram.optional read default d? = RawProgram.optional read default d?' := by
  cases h with
  | none => rfl
  | some h => exact hread _ _ h

/-- What does not count in a program does not matter. -/
lemma SameProgram.ofDocument_eq (h : SameProgram d d') :
    RawProgram.ofDocument d = RawProgram.ofDocument d' := by
  cases h with
  | same d => rfl
  | @record fields fields' hmain hpartials hsource =>
    have hmain' : (Entries.find? "main" fields).mapM Instr.listOfDocument =
        (Entries.find? "main" fields').mapM Instr.listOfDocument := by
      generalize Entries.find? "main" fields = d?, Entries.find? "main" fields' = d?' at hmain
      cases hmain with
      | none => rfl
      | some h => rw [Option.mapM_some, Option.mapM_some, h.listOfDocument_eq]
    have hpartials' :=
      optional_eq (fun _ _ h => SamePartials.partialsOfDocument_eq h) .empty hpartials
    simp only [RawProgram.ofDocument, hmain', hpartials', hsource]
  | @array d e e' rest rest' hmain hpartials =>
    have hlength := hpartials.length_eq
    have hrel : Option.Rel SamePartials rest.head? rest'.head? := by
      cases hpartials with
      | nil => exact .none
      | cons h _ => exact .some h
    have hhead := optional_eq (fun _ _ h => SamePartials.partialsOfDocument_eq h) .empty hrel
    simp only [RawProgram.ofDocument, hmain.listOfDocument_eq, hlength, hhead]

end Document

/-! ## What is read -/

namespace Instr

/-- What was read from all fields has no target. -/
private lemma stored_of_ofAllFields {left : List Document} {i x : Instr}
    (h : ofAllFields left x = .ok i) (hx : x.stored = x) : i.stored = i := by
  unfold ofAllFields at h
  split at h
  · cases h
    exact hx
  · cases h

/-- An instruction that is read from fields has no target. -/
lemma stored_of_ofFields {op : String} {fields : List Document} {i : Instr}
    (h : ofFields op fields = .ok i) : i.stored = i := by
  unfold ofFields at h
  split at h
  case h_7 =>
    obtain ⟨name, -, h⟩ := exists_of_bind_eq_ok h
    obtain ⟨indent, -, h⟩ := exists_of_bind_eq_ok h
    exact stored_of_ofAllFields h rfl
  case h_8 => cases h
  all_goals
    obtain ⟨part, -, h⟩ := exists_of_bind_eq_ok h
    exact stored_of_ofAllFields h rfl

/-- An instruction that is read has no target. -/
lemma stored_of_ofDocument {d : Document} {i : Instr} (h : ofDocument d = .ok i) :
    i.stored = i := by
  cases d with
  | object fields =>
    obtain ⟨e, -, h⟩ := exists_of_bind_eq_ok h
    obtain ⟨op, -, h⟩ := exists_of_bind_eq_ok h
    split at h
    · obtain ⟨parts, -, h⟩ := exists_of_bind_eq_ok h
      exact stored_of_ofFields h
    · cases h
  | array items =>
    cases items with
    | nil => cases h
    | cons op rest =>
      obtain ⟨name, -, h⟩ := exists_of_bind_eq_ok h
      exact stored_of_ofFields h
  | null => cases h
  | bool b => cases h
  | number mantissa decimals => cases h
  | text content => cases h

/-- Instructions that are read have no targets. -/
lemma stored_of_listOfDocument {d : Document} {is : List Instr}
    (h : listOfDocument d = .ok is) : is.map stored = is := by
  cases d with
  | array items =>
    refine (List.map_congr_left fun i hi => ?_).trans (List.map_id is)
    obtain ⟨e, he⟩ := exists_of_mapM_eq_ok h i hi
    exact stored_of_ofDocument he
  | null => cases h
  | bool b => cases h
  | number mantissa decimals => cases h
  | text content => cases h
  | object fields => cases h

end Instr

namespace Sequence

/-- **What is a sequence**: a list of instructions that is not empty and has its sections nested. -/
theorem exists_ofList_iff (is : List Instr) :
    (∃ s, ofList is = .ok s) ↔ is ≠ [] ∧ Nested (is.filterMap Instr.sectionEnd?) := by
  rw [← Builder.exists_extend_iff]
  constructor
  · rintro ⟨s, hs⟩
    obtain ⟨b, hb, hfinish⟩ := ofList_eq_ok hs
    refine ⟨?_, b, hb, (Builder.finish_eq_ok hfinish).1⟩
    rintro rfl
    cases hs
  · rintro ⟨hne, b, hb, hopened⟩
    have hsize : 0 < b.instrs.size := by
      have hlength := congrArg List.length (Builder.map_stored_extend hb)
      have hpos := List.length_pos_iff.2 hne
      simp [Builder.empty] at hlength
      omega
    obtain ⟨s, hs⟩ := Builder.exists_finish hopened hsize
    refine ⟨s, ?_⟩
    rw [ofList, hb, ok_bind, hs]

/-- A sequence on which no jump goes astray: it is not empty, the ends of its sections point at
each other and nest by their paths, all targets are those of its trees, and all paths have a
written form. -/
structure IsSound (s : Sequence) : Prop where
  wellBracketed : WellBracketed s.instrs
  nested : Nested (s.instrs.toList.filterMap Instr.sectionEnd?)
  layout : s.instrs.toList = Node.layoutAll 0 s.outline
  paths : ∀ i ∈ s.instrs, ∀ path, i.path? = some path → Path.ofText? path.text = some path

/-- A finished sequence is sound. -/
lemma IsFinished.isSound {s : Sequence} (h : s.IsFinished) : s.IsSound where
  wellBracketed := h.wellBracketed
  nested := by
    obtain ⟨-, hnested⟩ := (exists_ofList_iff _).1 ⟨s, h.ofList_stored⟩
    have hstored : Instr.sectionEnd? ∘ Instr.stored = Instr.sectionEnd? := by
      funext i
      cases i <;> rfl
    rwa [List.filterMap_map, hstored] at hnested
  layout := h.layout_outline
  paths := fun _ _ path _ => path.ofText?_text

end Sequence

namespace RawProgram

variable {d : Document} {raw : RawProgram}

/-- Partials that are read have no targets. -/
lemma stored_of_partialsOfDocument {t : Table (List Instr)} (h : partialsOfDocument d = .ok t)
    {name : String} {is : List Instr} (his : t.find? name = some is) :
    is.map Instr.stored = is := by
  cases d with
  | object fields =>
    rcases Table.find?_foldlM_insert (f := fun _ => Instr.listOfDocument) h his with
      hempty | ⟨e, he⟩
    · cases hempty
    · exact Instr.stored_of_listOfDocument he
  | null => cases h
  | bool b => cases h
  | number mantissa decimals => cases h
  | text content => cases h
  | array items => cases h

/-- Partials that are read, if there are any, have no targets. -/
private lemma stored_of_optional {d? : Option Document} {t : Table (List Instr)}
    (h : optional partialsOfDocument .empty d? = .ok t) {name : String} {is : List Instr}
    (his : t.find? name = some is) : is.map Instr.stored = is := by
  cases d? with
  | none =>
    cases h
    cases his
  | some d => exact stored_of_partialsOfDocument h his

/-- **Whatever a document says, what is read from it has no targets.** -/
theorem stored_of_ofDocument (h : ofDocument d = .ok raw) :
    raw.main.map Instr.stored = raw.main ∧
      ∀ name is, raw.partials.find? name = some is → is.map Instr.stored = is := by
  cases d with
  | object fields =>
    obtain ⟨main?, hmain, h⟩ := exists_of_bind_eq_ok h
    obtain ⟨partials, hpartials, h⟩ := exists_of_bind_eq_ok h
    obtain ⟨source, -, h⟩ := exists_of_bind_eq_ok h
    cases main? with
    | none => cases h
    | some main =>
      cases h
      refine ⟨?_, fun name is his => stored_of_optional hpartials his⟩
      cases hfound : Entries.find? "main" fields with
      | none =>
        rw [hfound] at hmain
        cases hmain
      | some e =>
        rw [hfound, Option.mapM_some] at hmain
        obtain ⟨is, his, heq⟩ := exists_of_map_eq_ok hmain
        cases heq
        exact Instr.stored_of_listOfDocument his
  | array items =>
    rcases items with _ | ⟨d, _ | ⟨e, rest⟩⟩
    · cases h
    · obtain ⟨source, -, h⟩ := exists_of_bind_eq_ok h
      cases h
    · obtain ⟨source, -, h⟩ := exists_of_bind_eq_ok h
      obtain ⟨main, hmain, h⟩ := exists_of_bind_eq_ok h
      obtain ⟨partials, hpartials, h⟩ := exists_of_bind_eq_ok h
      split at h
      · cases h
        exact ⟨Instr.stored_of_listOfDocument hmain,
          fun name is his => stored_of_optional hpartials his⟩
      · cases h
  | null => cases h
  | bool b => cases h
  | number mantissa decimals => cases h
  | text content => cases h

/-! ## Which list of instructions is reported -/

/-- Sequencing succeeds exactly if the instructions are a sequence, whatever their name is. -/
lemma sequence_eq_ok_iff {name : Option String} {is : List Instr} {s : Sequence} :
    sequence name is = .ok s ↔ Sequence.ofList is = .ok s := by
  unfold sequence
  cases Sequence.ofList is with
  | ok t => simp
  | error fault => simp

/-- What is no sequence is reported under its name. -/
lemma sequence_eq_error {name : Option String} {is : List Instr} {fault : NestingFault}
    (h : Sequence.ofList is = .error fault) :
    sequence name is = .error (.nesting fault name) := by
  rw [sequence, h]

/-- **The instructions of the program itself are reported first.** -/
theorem toProgram_main_error {fault : NestingFault} (h : Sequence.ofList raw.main = .error fault) :
    raw.toProgram = .error (.nesting fault none) := by
  rw [toProgram, sequence_eq_error h]
  rfl

/-- **Of the partials, the first one by name that is no sequence is reported**, under its name. -/
theorem toProgram_partial_error {main : Sequence} (hmain : Sequence.ofList raw.main = .ok main)
    {name : String} {is : List Instr} {fault : NestingFault}
    (his : raw.partials.find? name = some is) (h : Sequence.ofList is = .error fault)
    (hbefore : ∀ other js, other < name → raw.partials.find? other = some js →
      ∃ t, Sequence.ofList js = .ok t) :
    raw.toProgram = .error (.nesting fault (some name)) := by
  have hasc := raw.partials.ascending
  obtain ⟨front, rest, hentries⟩ :=
    List.append_of_mem ((Entries.find?_eq_some_iff hasc).1 his)
  have hfront : ∀ e ∈ front, ∃ t, sequence (some e.1) e.2 = .ok t := by
    intro e he
    have hlt : e.1 < name := by
      rw [hentries] at hasc
      exact (List.pairwise_append.1 hasc).2.2 e he (name, is) List.mem_cons_self
    have hmem : e ∈ raw.partials.entries := by
      rw [hentries]
      exact List.mem_append_left _ he
    obtain ⟨t, ht⟩ := hbefore e.1 e.2 hlt
      ((Entries.find?_eq_some_iff raw.partials.ascending).2 hmem)
    exact ⟨t, sequence_eq_ok_iff.2 ht⟩
  have hfault : sequence (some name) is = .error (.nesting fault (some name)) :=
    sequence_eq_error h
  have hfold := Table.foldlM_insert_eq_error (f := fun name => sequence (some name))
    (e := (name, is)) hfront hfault rest Table.empty
  rw [toProgram, sequence_eq_ok_iff.2 hmain, ok_bind, hentries, hfold]
  rfl

/-- **Sequencing succeeds if nothing is to be reported.** -/
theorem exists_toProgram {main : Sequence} (hmain : Sequence.ofList raw.main = .ok main)
    (hpartials : ∀ name is, raw.partials.find? name = some is →
      ∃ t, Sequence.ofList is = .ok t) : ∃ p, raw.toProgram = .ok p := by
  have hread : ∀ e ∈ raw.partials.entries, ∃ t, sequence (some e.1) e.2 = .ok t := by
    intro e he
    obtain ⟨t, ht⟩ := hpartials e.1 e.2
      ((Entries.find?_eq_some_iff raw.partials.ascending).2 he)
    exact ⟨t, sequence_eq_ok_iff.2 ht⟩
  obtain ⟨partials, hfold⟩ :=
    Table.exists_foldlM_insert (f := fun name => sequence (some name)) hread Table.empty
  refine ⟨⟨raw.source, main, partials⟩, ?_⟩
  simp only [toProgram, sequence_eq_ok_iff.2 hmain, ok_bind, hfold]
  rfl

/-- Everything is a sequence if sequencing succeeds. -/
lemma exists_of_toProgram {p : Program} (h : raw.toProgram = .ok p) :
    (∃ s, Sequence.ofList raw.main = .ok s) ∧
      ∀ name is, raw.partials.find? name = some is → ∃ s, Sequence.ofList is = .ok s := by
  obtain ⟨hmain, hpartials⟩ := toProgram_eq_ok h
  refine ⟨⟨_, sequence_eq_ok_iff.1 hmain⟩, fun name is his => ?_⟩
  have hmem := (Entries.find?_eq_some_iff raw.partials.ascending).1 his
  obtain ⟨s, hs⟩ := Table.exists_of_foldlM_insert
    (f := fun name => sequence (some name)) hpartials (name, is) hmem
  exact ⟨s, sequence_eq_ok_iff.1 hs⟩

/-- A program that instructions without targets are sequenced to holds these instructions. -/
lemma raw_of_toProgram {p : Program} (h : raw.toProgram = .ok p)
    (hmain : raw.main.map Instr.stored = raw.main)
    (hpartials : ∀ name is, raw.partials.find? name = some is → is.map Instr.stored = is) :
    p.raw = raw := by
  obtain ⟨hfirst, hfold⟩ := toProgram_eq_ok h
  have hstored : ∀ {name is s}, sequence name is = .ok s → is.map Instr.stored = is →
      s.stored = is := by
    intro name is s hs his
    rw [Sequence.stored, Sequence.map_stored_of_ofList (sequence_eq_ok_iff.1 hs), his]
  have htable : p.partials.map Sequence.stored = raw.partials := by
    refine Table.map_foldlM_insert (f := fun name => sequence (some name)) hfold
      fun e he s hs => hstored hs ?_
    exact hpartials e.1 e.2 ((Entries.find?_eq_some_iff raw.partials.ascending).2 he)
  obtain ⟨source, main, partials⟩ := raw
  rw [Program.raw, hstored hfirst hmain, htable]
  obtain ⟨main', -, h⟩ := exists_of_bind_eq_ok h
  obtain ⟨partials', -, h⟩ := exists_of_bind_eq_ok h
  cases h
  rfl

end RawProgram

/-! ## Documents from elsewhere -/

/-- What is said about instructions that are no sequence, with the name of their partial. -/
lemma DocumentFault.message?_nesting (fault : NestingFault) (name : String) :
    (DocumentFault.nesting fault (some name)).message? =
      some (fault.message ++ " in partial " ++ ticked name) := by
  show some (fault.message ++ (" in partial " ++ ticked name) ++ "") = _
  rw [String.append_empty, String.append_assoc]

namespace Program

variable {d : Document} {p : Program}

/-- **A program that is read holds the instructions of its document**, in the same order. -/
theorem raw_of_ofDocument (h : ofDocument d = .ok p) : RawProgram.ofDocument d = .ok p.raw := by
  obtain ⟨raw, hread, hraw⟩ := exists_of_bind_eq_ok h
  obtain ⟨hmain, hpartials⟩ := RawProgram.stored_of_ofDocument hread
  rw [hread, RawProgram.raw_of_toProgram hraw hmain hpartials]

/-- **No target of a document is trusted.** Two documents that agree on everything but fields that
do not count in their instructions, of which those for targets are some, are read as the same
program or fail for the same reason. A program that is read holds the instructions of its document,
and all of its sequences are sound, whatever the document says. If the document can be read at all,
it is a program exactly if the instructions under each name are a sequence; if those of the program
itself are none, this is the fault, and otherwise that of the first partial by name that has none,
with this name.

**Proof sketch.** Only the operation of an instruction and the fields of that operation are looked
at, and no operation has a target for a field. So what is read has no targets, and all of them are
found when it is sequenced, the program itself first and then the partials by name. -/
theorem ofDocument_distrusts (d : Document) :
    (∀ d', Document.SameProgram d d' → ofDocument d' = ofDocument d) ∧
      (∀ fields fields' : List (String × Document),
        (∀ name, name ≠ "close" → name ≠ "open" →
          Entries.find? name fields = Entries.find? name fields') →
            Document.SameInstr (.object fields) (.object fields')) ∧
      (∀ p, ofDocument d = .ok p →
        RawProgram.ofDocument d = .ok p.raw ∧ ∀ s ∈ p.sequences, s.IsSound) ∧
      ∀ raw, RawProgram.ofDocument d = .ok raw →
        (∀ fault, Sequence.ofList raw.main = .error fault →
          ofDocument d = .error (.nesting fault none)) ∧
        (∀ main name is fault, Sequence.ofList raw.main = .ok main →
          raw.partials.find? name = some is → Sequence.ofList is = .error fault →
            (∀ other js, other < name → raw.partials.find? other = some js →
              ∃ s, Sequence.ofList js = .ok s) →
              ofDocument d = .error (.nesting fault (some name)) ∧
                (DocumentFault.nesting fault (some name)).message? =
                  some (fault.message ++ " in partial " ++ ticked name)) ∧
        ((∃ p, ofDocument d = .ok p) ↔
          (raw.main ≠ [] ∧ Nested (raw.main.filterMap Instr.sectionEnd?)) ∧
            ∀ name is, raw.partials.find? name = some is →
              is ≠ [] ∧ Nested (is.filterMap Instr.sectionEnd?)) := by
  refine ⟨fun d' hsame => ?_, fun fields fields' => Document.sameInstr_of_targets,
    fun p hp => ⟨raw_of_ofDocument hp, fun s hs => ?_⟩, fun raw hraw => ⟨?_, ?_, ?_⟩⟩
  · rw [ofDocument, ofDocument, hsame.ofDocument_eq]
  · exact (isSequenced_of_ofDocument hp s hs).isSound
  · intro fault hfault
    rw [ofDocument, hraw, ok_bind, RawProgram.toProgram_main_error hfault]
  · intro main name is fault hmain his hfault hbefore
    refine ⟨?_, DocumentFault.message?_nesting fault name⟩
    rw [ofDocument, hraw, ok_bind, RawProgram.toProgram_partial_error hmain his hfault hbefore]
  · rw [ofDocument, hraw, ok_bind]
    constructor
    · rintro ⟨p, hp⟩
      obtain ⟨hmain, hpartials⟩ := RawProgram.exists_of_toProgram hp
      exact ⟨(Sequence.exists_ofList_iff _).1 hmain,
        fun name is his => (Sequence.exists_ofList_iff is).1 (hpartials name is his)⟩
    · rintro ⟨hmain, hpartials⟩
      obtain ⟨main, hmain⟩ := (Sequence.exists_ofList_iff _).2 hmain
      exact RawProgram.exists_toProgram hmain fun name is his =>
        (Sequence.exists_ofList_iff is).2 (hpartials name is his)

/-- A section with targets far out of range and a field that nobody knows, and a document of which
two partials are no sequences. -/
theorem ofDocument_distrusts_on_targets :
    ∃ (d d' e : Document) (a : Path) (p : Program), Document.SameProgram d d' ∧
      ofDocument d = .ok p ∧ ofDocument d' = .ok p ∧
      p.main.instrs = #[.openSection false a 1, .closeSection a 0] ∧ p.main.IsSound ∧
      ofDocument e = .error (.nesting (.unopened a) (some "p")) := by
  let a : Path := ⟨["a"], by decide⟩
  let op (s : String) : String × Document := ("op", .text s)
  let name : String × Document := ("name", .text "a")
  let d : Document := .object [("main", .array
    [.object [name, op "open_section"], .object [name, op "close_section"]])]
  let d' : Document := .object [("main", .array
    [.object [("close", .number 18446744073709551616 0), name, op "open_section"],
      .object [name, ("note", .null), op "close_section", ("open", .number (-1) 0)]])]
  let closing : Document := .array [.object [name, op "close_section"]]
  let e : Document := .object [("main", .array [.object [op "append_text", ("text", .text "x")]]),
    ("partials", .object [("p", closing), ("q", .array [])])]
  have hsame : Document.SameProgram d d' := by
    refine .record (.some (.array (.cons ?_ (.cons ?_ .nil)))) .none rfl
    · refine .record rfl fun op names hop hnames other hother => ?_
      cases hop
      cases hnames
      obtain rfl : other = "name" := by simpa using hother
      rfl
    · refine .record rfl fun op names hop hnames other hother => ?_
      cases hop
      cases hnames
      obtain rfl : other = "name" := by simpa using hother
      rfl
  have hread : (ofDocument d).toOption.map (·.main.instrs) =
      some #[.openSection false a 1, .closeSection a 0] := by decide +kernel
  obtain ⟨p, hp, hinstrs⟩ := exists_of_toOption_map_eq_some hread
  obtain ⟨hsames, -, hsound, -⟩ := ofDocument_distrusts d
  obtain ⟨-, -, -, hfault⟩ := ofDocument_distrusts e
  have hascending : Ascending [("p", [Instr.closeSection a Instr.unresolved]), ("q", [])] := by
    unfold Ascending
    decide +kernel
  let raw : RawProgram := ⟨"", [.text "x"], ⟨_, hascending⟩⟩
  have hraw : RawProgram.ofDocument e = .ok raw := by rfl
  obtain ⟨-, hpartial, -⟩ := hfault raw hraw
  refine ⟨d, d', e, a, p, hsame, hp, (hsames d' hsame).trans hp, hinstrs,
    (hsound p hp).2 p.main List.mem_cons_self, ?_⟩
  refine (hpartial ⟨#[.text "x"], Nat.one_pos⟩ "p" [.closeSection a Instr.unresolved] (.unopened a)
    rfl rfl rfl fun other js hother hjs => ?_).1
  -- no partial comes before the first one
  have hmem := Entries.mem_of_find? hjs
  simp only [raw, List.mem_cons, Prod.mk.injEq, List.not_mem_nil, or_false] at hmem
  rcases hmem with ⟨rfl, -⟩ | ⟨rfl, -⟩
  · exact absurd hother (String.lt_irrefl _)
  · exact absurd hother (by decide +kernel)

end Program

end Stencil
