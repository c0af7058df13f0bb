import Mathlib.Tactic.Lemma
import Stencil.Code.Document
import Stencil.Proofs.Code.Paths
import Stencil.Proofs.Engine.Links

/-!
# Programs survive storage

A program is stored without the targets of its jumps. Reading what was stored sequences the
instructions again, and that finds the same targets, so the program that is read is the program
that was stored.

## Main definitions

* `Program.raw` — a program without the targets of its jumps.
* `Program.rounds` — a program that is stored and read again and again.

## Main results

* `Instr.ofDocument_toDocument` — a stored instruction can be read, up to its target.
* `RawProgram.ofDocument_toDocument` — a stored program can be read, up to its targets.
* `Program.IsSequenced.toProgram_raw` — the targets are found again.
* `Program.isSequenced_of_ofDocument` — what is read from any document is sequenced.
* `Program.rounds_eq_ok` — programs survive any number of rounds.
-/

namespace Stencil

/-! ## Instructions -/

/-- The written form of a path can be read. -/
@[simp]
lemma Document.asPath_text (path : Path) : (Document.text path.text).asPath = .ok path := by
  simp only [asPath, asText, ok_bind, Path.ofText?_text]

namespace Instr

/-- A record with a path is read by its operation. -/
lemma ofDocument_named {op : String} {path : Path} (hop : fieldNames? op = some ["name"]) :
    ofDocument (toDocument.named op path) = ofFields op [.text path.text] := by
  have hfield : Document.field [("name", .text path.text), ("op", .text op)] "op" =
      .ok (.text op) := rfl
  simp only [toDocument.named, ofDocument, hfield, ok_bind, Document.asText, hop]
  rfl

/-- **A stored instruction can be read, up to its target.** -/
theorem ofDocument_toDocument (i : Instr) : ofDocument i.toDocument = .ok i.stored := by
  cases i with
  | text content => rfl
  | interpolate escaped path =>
    cases escaped <;>
    · rw [toDocument, ofDocument_named rfl, ofFields, Document.asPath_text]
      rfl
  | openSection inverted path target =>
    cases inverted <;>
    · rw [toDocument, ofDocument_named rfl, ofFields, Document.asPath_text]
      rfl
  | closeSection path target =>
    rw [toDocument, ofDocument_named rfl, ofFields, Document.asPath_text]
    rfl
  | enter name indent => rfl

/-- What is stored does not tell the target. -/
lemma toDocument_stored (i : Instr) : i.stored.toDocument = i.toDocument := by
  cases i with
  | openSection inverted path target => cases inverted <;> rfl
  | text content => rfl
  | interpolate escaped path => rfl
  | closeSection path target => rfl
  | enter name indent => rfl

/-- A stored list of instructions can be read, up to the targets. -/
lemma mapM_ofDocument (is : List Instr) :
    (is.map toDocument).mapM ofDocument = .ok (is.map stored) := by
  rw [List.mapM_map]
  simp only [Function.comp_def, ofDocument_toDocument]
  exact List.mapM_pure

end Instr

/-! ## Programs without targets -/

/-- The instructions of a sequence without the targets of its jumps. -/
def Sequence.stored (s : Sequence) : List Instr := s.instrs.toList.map Instr.stored

/-- A program without the targets of its jumps. -/
def Program.raw (p : Program) : RawProgram :=
  ⟨p.source, p.main.stored, p.partials.map Sequence.stored⟩

namespace Sequence

/-- A stored sequence can be read, up to its targets. -/
lemma listOfDocument_toDocument (s : Sequence) :
    Instr.listOfDocument s.toDocument = .ok s.stored :=
  Instr.mapM_ofDocument s.instrs.toList

/-- What is stored of a sequence does not tell the targets. -/
lemma toDocument_eq (s : Sequence) : s.toDocument = .array (s.stored.map Instr.toDocument) := by
  simp [toDocument, stored, Function.comp_def, Instr.toDocument_stored]

/-- Sequencing a finished sequence without its targets gives the sequence. -/
lemma IsFinished.sequence_stored {s : Sequence} (h : s.IsFinished) (name : Option String) :
    RawProgram.sequence name s.stored = .ok s := by
  rw [RawProgram.sequence, stored, h.ofList_stored]

/-- What was sequenced under a name is finished. -/
lemma isFinished_of_sequence {s : Sequence} {is : List Instr} {name : Option String}
    (h : RawProgram.sequence name is = .ok s) : s.IsFinished := by
  unfold RawProgram.sequence at h
  split at h
  · rename_i hs
    cases h
    exact isFinished_of_ofList hs
  · cases h

end Sequence

namespace RawProgram

/-- The stored partials can be read, up to their targets. They were stored in the order of their
names, so setting them one after the other gives the same table. -/
lemma partialsOfDocument_toDocument (t : Table Sequence) :
    partialsOfDocument (.object (t.entries.map fun (name, s) => (name, s.toDocument))) =
      .ok (t.map Sequence.stored) := by
  have hentries := Table.ofList_entries (t.map Sequence.toDocument).ascending
  have hread := Table.foldlM_insert_map (f := fun _ => Instr.listOfDocument)
    (fun (e : String × Sequence) (_ : e ∈ t.entries) => e.2.listOfDocument_toDocument)
  rw [← hentries] at hread
  exact hread

/-- The three parts of a stored program are read one after the other. -/
lemma ofDocument_object (main partials : Document) (source : String) :
    ofDocument (.object [("main", main), ("partials", partials), ("source", .text source)]) =
      Instr.listOfDocument main >>= fun is =>
        partialsOfDocument partials >>= fun t => .ok ⟨source, is, t⟩ := by
  have hmain : Entries.find? "main"
      [("main", main), ("partials", partials), ("source", .text source)] = some main := rfl
  have hpartials : Entries.find? "partials"
      [("main", main), ("partials", partials), ("source", .text source)] = some partials := rfl
  have hsource : Entries.find? "source"
      [("main", main), ("partials", partials), ("source", .text source)] =
        some (.text source) := rfl
  simp only [ofDocument, hmain, hpartials, hsource, optional, Option.mapM_some]
  cases Instr.listOfDocument main with
  | error fault => rfl
  | ok is =>
    cases partialsOfDocument partials with
    | error fault => rfl
    | ok t => rfl

/-- **A stored program can be read, up to its targets**: each part is read on its own. -/
theorem ofDocument_toDocument (p : Program) : ofDocument p.toDocument = .ok p.raw := by
  rw [Program.toDocument, ofDocument_object, p.main.listOfDocument_toDocument,
    partialsOfDocument_toDocument]
  rfl

/-- What is known of instructions that are sequenced to a program. -/
lemma toProgram_eq_ok {raw : RawProgram} {p : Program} (h : raw.toProgram = .ok p) :
    sequence none raw.main = .ok p.main ∧
      raw.partials.entries.foldlM
        (fun t (name, is) => t.insert name <$> sequence (some name) is) Table.empty =
          .ok p.partials := by
  obtain ⟨main, hmain, h⟩ := exists_of_bind_eq_ok h
  obtain ⟨partials, hpartials, h⟩ := exists_of_bind_eq_ok h
  cases h
  exact ⟨hmain, hpartials⟩

end RawProgram

namespace Program

variable {p : Program}

/-- What is stored of a program does not tell the targets. -/
lemma toDocument_eq_of_raw_eq {q : Program} (h : q.raw = p.raw) :
    q.toDocument = p.toDocument := by
  have hstored : ∀ r : Program, r.toDocument =
      .object
        [("main", .array (r.raw.main.map Instr.toDocument)),
          ("partials", .object (r.raw.partials.entries.map fun e =>
            (e.1, .array (e.2.map Instr.toDocument)))),
          ("source", .text r.raw.source)] := by
    intro r
    simp [toDocument, raw, Table.map, Function.comp_def, Sequence.toDocument_eq]
  rw [hstored q, hstored p, h]

/-- The targets of the partials of a program are found again. -/
lemma IsSequenced.foldlM_sequence (h : p.IsSequenced) :
    (p.partials.map Sequence.stored).entries.foldlM
      (fun t (name, is) => t.insert name <$> RawProgram.sequence (some name) is) Table.empty =
        .ok p.partials := by
  have hid : (Except.ok p.partials : Except DocumentFault _) = .ok (p.partials.map id) := by
    rw [Table.map_id]
  rw [hid]
  refine Table.foldlM_insert_map (f := fun name => RawProgram.sequence (some name)) fun e he => ?_
  have hmem : e.2 ∈ p.sequences := List.mem_cons_of_mem _ (List.mem_map_of_mem he)
  exact (h e.2 hmem).sequence_stored (some e.1)

/-- **The targets are found again** when the instructions of a program are sequenced. -/
theorem IsSequenced.toProgram_raw (h : p.IsSequenced) : p.raw.toProgram = .ok p := by
  have hmain : RawProgram.sequence none p.main.stored = .ok p.main :=
    (h p.main List.mem_cons_self).sequence_stored none
  simp only [RawProgram.toProgram, raw, hmain, h.foldlM_sequence, ok_bind]
  rfl

/-- **What is read from any document is sequenced.** -/
theorem isSequenced_of_ofDocument {d : Document} (h : ofDocument d = .ok p) : p.IsSequenced := by
  obtain ⟨raw, -, hraw⟩ := exists_of_bind_eq_ok h
  obtain ⟨hmain, hpartials⟩ := RawProgram.toProgram_eq_ok hraw
  intro s hs
  rcases mem_sequences.1 hs with rfl | ⟨name, hname⟩
  · exact Sequence.isFinished_of_sequence hmain
  · rcases Table.find?_foldlM_insert (f := fun name => RawProgram.sequence (some name))
      hpartials hname with hempty | ⟨is, his⟩
    · cases hempty
    · exact Sequence.isFinished_of_sequence his

/-- Storing a sequenced program and reading it gives the program. -/
lemma IsSequenced.ofDocument_toDocument (h : p.IsSequenced) :
    ofDocument p.toDocument = .ok p := by
  rw [ofDocument, RawProgram.ofDocument_toDocument]
  exact h.toProgram_raw

/-- A program that is stored and read again, the given number of times. -/
def rounds : Nat → Program → Except DocumentFault Program
  | 0, p => .ok p
  | n + 1, p => ofDocument p.toDocument >>= rounds n

/-- **Programs survive any number of rounds.** A program whose sequences are finished, one that
was compiled, and one that was itself read from a document is the same after each round of
storing and reading, with all targets, although what is stored does not tell them.

**Proof sketch.** The sequences of a program that was compiled or read are finished. What is
stored of a finished sequence are its instructions without targets, and sequencing these once
more finds each pair of brackets again. A path is read from its written form as it was. -/
theorem rounds_eq_ok
    (h : p.IsSequenced ∨ (∃ e name source, (Engine.compile e name source).outcome = .ok p) ∨
      ∃ d, ofDocument d = .ok p) :
    ofDocument p.toDocument = .ok p ∧ (∀ n, rounds n p = .ok p) ∧
      ∀ q : Program, q.raw = p.raw → q.toDocument = p.toDocument := by
  have hp : p.IsSequenced := by
    rcases h with h | ⟨e, name, source, h⟩ | ⟨d, h⟩
    · exact h
    · exact Engine.compile_isSequenced h
    · exact isSequenced_of_ofDocument h
  refine ⟨hp.ofDocument_toDocument, ?_, fun q => toDocument_eq_of_raw_eq⟩
  intro n
  induction n with
  | zero => rfl
  | succ n ih =>
    rw [rounds, hp.ofDocument_toDocument]
    exact ih

/-- A section within another one, with a path of two identifiers and a partial, is stored and
read three times. -/
theorem rounds_eq_ok_on_nested :
    ∃ p : Program, p.IsSequenced ∧
      p.main.instrs[1]? = some (.openSection true ⟨["b", "c"], by decide⟩ 3) ∧
        p.partials.names = ["p"] ∧ rounds 3 p = .ok p := by
  let main : Sequence :=
    ⟨#[.openSection false ⟨["a"], by decide⟩ 5, .openSection true ⟨["b", "c"], by decide⟩ 3,
      .text "1", .closeSection ⟨["b", "c"], by decide⟩ 1, .enter "p" "  ",
      .closeSection ⟨["a"], by decide⟩ 0], by decide⟩
  let item : Sequence := ⟨#[.interpolate false .self], by decide⟩
  let p : Program := ⟨"", main, ⟨[("p", item)], List.pairwise_singleton _ _⟩⟩
  have hmain : main.IsFinished :=
    Sequence.isFinished_of_ofList (show Sequence.ofList main.instrs.toList = .ok main from rfl)
  have hitem : item.IsFinished :=
    Sequence.isFinished_of_ofList (show Sequence.ofList item.instrs.toList = .ok item from rfl)
  have hp : p.IsSequenced := by
    intro s hs
    rcases List.mem_cons.1 hs with rfl | hs
    · exact hmain
    · obtain rfl : s = item := by simpa [p] using hs
      exact hitem
  obtain ⟨-, hrounds, -⟩ := rounds_eq_ok (.inl hp)
  exact ⟨p, hp, rfl, rfl, hrounds 3⟩

end Program

end Stencil
