import Mathlib.Tactic.Lemma
import Stencil.Proofs.Text.Cuts
import Stencil.Proofs.Text.Entities

/-!
# Escaping in one pass, and back

A text can be escaped without taking it apart: its characters are gone through with their byte
offsets, and at each one that has an entity the text since the last one is copied, and then the
entity is written. What is written is the escaped text, and every copy is cut out between
characters. One pass from left to right puts the characters back for their entities, so nothing is
lost.

## Main definitions

* `entityTable` — the characters that would be read as markup, with their entities.
* `Replaces` — a text, and the text with entities in place of markup.
* `charOffsets`, `escapeFrom`, `escapeAt` — escaping by byte offsets, with checked copies.
* `unescape` — puts the characters back for their entities.

## Main results

* `replaces_iff` — escaping replaces the characters of the table and keeps all others.
* `escapeAt_eq` — escaping by byte offsets never cuts inside of a character.
* `unescape_escape` — putting the characters back gives the text that was escaped.
-/

namespace Stencil.Text

/-! ## Replacing characters -/

/-- The characters that would be read as markup, each with its entity. -/
def entityTable : List (Char × List Char) :=
  [('&', ['&', 'a', 'm', 'p', ';']), ('<', ['&', 'l', 't', ';']), ('>', ['&', 'g', 't', ';']),
    ('"', ['&', 'q', 'u', 'o', 't', ';'])]

/-- The second text is the first one with each character of the table replaced by its entity and
every other character kept in its place. -/
inductive Replaces : List Char → List Char → Prop where
  | nil : Replaces [] []
  | entity {c : Char} {entity cs ds : List Char} : (c, entity) ∈ entityTable → Replaces cs ds →
      Replaces (c :: cs) (entity ++ ds)
  | kept {c : Char} {cs ds : List Char} : c ∉ entityTable.map Prod.fst → Replaces cs ds →
      Replaces (c :: cs) (c :: ds)

section Replaces

variable {c : Char} {entity cs ds : List Char}

/-- A character of the table becomes its entity. -/
lemma escapeChar_of_mem (h : (c, entity) ∈ entityTable) : escapeChar c = entity := by
  simp only [entityTable, List.mem_cons, List.not_mem_nil, or_false, Prod.mk.injEq] at h
  rcases h with ⟨rfl, rfl⟩ | ⟨rfl, rfl⟩ | ⟨rfl, rfl⟩ | ⟨rfl, rfl⟩ <;> rfl

/-- A character that is not in the table stays. -/
lemma escapeChar_of_not_mem (h : c ∉ entityTable.map Prod.fst) : escapeChar c = [c] := by
  simp only [entityTable, List.map_cons, List.map_nil, List.mem_cons, List.not_mem_nil, or_false,
    not_or] at h
  obtain ⟨hamp, hlt, hgt, hquot⟩ := h
  rw [escapeChar, if_neg hamp, if_neg hlt, if_neg hgt, if_neg hquot]

/-- A character is in the table, with its entity, or is not. -/
lemma mem_entityTable_or (c : Char) :
    (∃ entity, (c, entity) ∈ entityTable) ∨ c ∉ entityTable.map Prod.fst := by
  by_cases h : c ∈ entityTable.map Prod.fst
  · obtain ⟨⟨_, entity⟩, hmem, rfl⟩ := List.mem_map.1 h
    exact .inl ⟨entity, hmem⟩
  · exact .inr h

/-- Escaping goes from the first character on. -/
lemma escape_cons (c : Char) (cs : List Char) : escape (c :: cs) = escapeChar c ++ escape cs :=
  List.flatMap_cons

/-- **Escaping replaces the characters of the table and keeps all others**, and nothing else is
done. -/
theorem replaces_iff : Replaces cs ds ↔ ds = escape cs := by
  constructor
  · intro h
    induction h with
    | nil => rfl
    | entity hmem _ ih => rw [escape_cons, escapeChar_of_mem hmem, ih]
    | kept hnot _ ih => rw [escape_cons, escapeChar_of_not_mem hnot, ih, List.singleton_append]
  · rintro rfl
    induction cs with
    | nil => exact .nil
    | cons c cs ih =>
      rw [escape_cons]
      rcases mem_entityTable_or c with ⟨entity, hmem⟩ | hnot
      · rw [escapeChar_of_mem hmem]
        exact .entity hmem ih
      · rw [escapeChar_of_not_mem hnot]
        exact .kept hnot ih

end Replaces

/-! ## Escaping by byte offsets -/

/-- The characters of a text that starts at an offset, each with its own offset. -/
def charOffsets (offset : Nat) : List Char → List (Nat × Char)
  | [] => []
  | c :: cs => (offset, c) :: charOffsets (offset + c.utf8Size) cs

/-- The entity for a character, if it has one. -/
def entity? (c : Char) : Option (List Char) :=
  (entityTable.find? fun e => e.1 = c).map Prod.snd

/-- The texts that are written while some characters of a text are gone through, if all up to the
offset `last` was written before. A character with an entity takes up one byte. -/
def escapeFrom (source : List Char) (last : Nat) :
    List (Nat × Char) → Checked (List (List Char))
  | [] => do
    let rest ← dropAt last source
    return [rest]
  | (i, c) :: more =>
    match entity? c with
    | none => escapeFrom source last more
    | some entity => do
      let copied ← Span.sliceAt ⟨last, i⟩ source
      let written ← escapeFrom source (i + 1) more
      return copied :: entity :: written

/-- The texts that are written when a text is escaped. -/
def escapeAt (source : List Char) : Checked (List (List Char)) :=
  escapeFrom source 0 (charOffsets 0 source)

section Offsets

variable {c : Char} {entity : List Char}

/-- The entity of a character is the one in the table, and the character takes up one byte. -/
lemma entity?_eq_some (h : entity? c = some entity) :
    escapeChar c = entity ∧ c.utf8Size = 1 := by
  obtain ⟨⟨d, found⟩, hfind, rfl⟩ := Option.map_eq_some_iff.1 h
  have hmem := List.mem_of_find?_eq_some hfind
  obtain rfl : d = c := by simpa using List.find?_some hfind
  refine ⟨escapeChar_of_mem hmem, ?_⟩
  simp only [entityTable, List.mem_cons, List.not_mem_nil, or_false, Prod.mk.injEq] at hmem
  rcases hmem with ⟨rfl, -⟩ | ⟨rfl, -⟩ | ⟨rfl, -⟩ | ⟨rfl, -⟩ <;> rfl

/-- A character without an entity stays. -/
lemma escapeChar_of_entity?_eq_none (h : entity? c = none) : escapeChar c = [c] := by
  refine escapeChar_of_not_mem fun hmem => ?_
  obtain ⟨e, he, rfl⟩ := List.mem_map.1 hmem
  have hnone := List.find?_eq_none.1 (Option.map_eq_none_iff.1 h) e he
  simp at hnone

/-- **Going through the rest of a text** writes the part that was only passed so far, and the rest
escaped.

**Proof sketch.** Induction on the rest. The part that was passed has no characters with entities.
It starts where the last entity ended and goes up to the character at hand, so it is cut out between
characters. -/
theorem escapeFrom_eq (done passed rest : List Char) (hpassed : Unmarked passed) :
    ∃ written, escapeFrom (done ++ passed ++ rest) (size done)
        (charOffsets (size (done ++ passed)) rest) = .ok written ∧
      written.flatten = passed ++ escape rest := by
  induction rest generalizing done passed with
  | nil =>
    refine ⟨[passed], ?_, by simp [escape]⟩
    rw [charOffsets, escapeFrom, List.append_nil, dropAt_size_append]
    rfl
  | cons c rest ih =>
    rw [charOffsets, escapeFrom, escape_cons]
    cases hentity : entity? c with
    | none =>
      -- the character joins those that were passed
      have hself := escapeChar_of_entity?_eq_none hentity
      have hmore : Unmarked (passed ++ [c]) := hpassed.append (by simpa [Unmarked] using hself)
      obtain ⟨written, hwritten, hflatten⟩ := ih done (passed ++ [c]) hmore
      refine ⟨written, ?_, by simpa [hself] using hflatten⟩
      simpa [size, Nat.add_assoc] using hwritten
    | some entity =>
      obtain ⟨hescape, hsize⟩ := entity?_eq_some hentity
      have hcopy : Span.sliceAt ⟨size done, size (done ++ passed)⟩ (done ++ passed ++ c :: rest) =
          .ok passed := Span.sliceAt_eq_ok_iff.2 ⟨done, c :: rest, rfl, rfl⟩
      obtain ⟨written, hwritten, hflatten⟩ :=
        ih (done ++ passed ++ [c]) [] (List.forall_mem_nil _)
      have hoffset : size (done ++ passed ++ [c]) = size (done ++ passed) + c.utf8Size :=
        size_append _ _
      have hsource : done ++ passed ++ [c] ++ [] ++ rest = done ++ passed ++ c :: rest := by simp
      rw [hsource, List.append_nil, hoffset, hsize] at hwritten
      refine ⟨passed :: entity :: written, ?_, ?_⟩
      · simp only [hcopy, hsize, bind, Except.bind, hwritten]
        rfl
      · rw [List.flatten_cons, List.flatten_cons, hflatten, hescape, List.nil_append]

/-- **Escaping by byte offsets** never cuts inside of a character, and what it writes is the escaped
text. -/
theorem escapeAt_eq (cs : List Char) :
    ∃ written, escapeAt cs = .ok written ∧ written.flatten = escape cs :=
  escapeFrom_eq [] [] cs (List.forall_mem_nil _)

end Offsets

/-! ## And back -/

/-- The text with the characters back in place of their entities, in one pass from left to right. -/
def unescape : List Char → List Char
  | [] => []
  | '&' :: 'a' :: 'm' :: 'p' :: ';' :: rest => '&' :: unescape rest
  | '&' :: 'l' :: 't' :: ';' :: rest => '<' :: unescape rest
  | '&' :: 'g' :: 't' :: ';' :: rest => '>' :: unescape rest
  | '&' :: 'q' :: 'u' :: 'o' :: 't' :: ';' :: rest => '"' :: unescape rest
  | c :: rest => c :: unescape rest

/-- A character that is no ampersand does not start an entity. -/
lemma unescape_cons_of_ne {c : Char} (h : c ≠ '&') (rest : List Char) :
    unescape (c :: rest) = c :: unescape rest := by
  rw [unescape]
  all_goals
    rintro _ rfl
    exact absurd rfl h

/-- An entity is replaced, and the pass goes on behind it. -/
lemma unescape_entity_append {c : Char} {entity : List Char} (h : (c, entity) ∈ entityTable)
    (rest : List Char) : unescape (entity ++ rest) = c :: unescape rest := by
  simp only [entityTable, List.mem_cons, List.not_mem_nil, or_false, Prod.mk.injEq] at h
  rcases h with ⟨rfl, rfl⟩ | ⟨rfl, rfl⟩ | ⟨rfl, rfl⟩ | ⟨rfl, rfl⟩ <;> rfl

/-- **Putting the characters back gives the text that was escaped.** The ampersands of an escaped
text all start entities, so the pass never meets half of one. -/
theorem unescape_escape (cs : List Char) : unescape (escape cs) = cs := by
  induction cs with
  | nil => rfl
  | cons c cs ih =>
    rw [escape_cons]
    rcases mem_entityTable_or c with ⟨entity, hmem⟩ | hnot
    · rw [escapeChar_of_mem hmem, unescape_entity_append hmem, ih]
    · have hne : c ≠ '&' := by
        rintro rfl
        exact hnot (by decide)
      rw [escapeChar_of_not_mem hnot, List.singleton_append, unescape_cons_of_ne hne, ih]

/-- Texts that are the same when they are escaped are the same. -/
lemma escape_inj {cs ds : List Char} : escape cs = escape ds ↔ cs = ds := by
  refine ⟨fun h => ?_, congrArg escape⟩
  rw [← unescape_escape cs, h, unescape_escape]

end Stencil.Text
