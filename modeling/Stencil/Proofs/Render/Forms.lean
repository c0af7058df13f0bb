import Mathlib.Tactic.Lemma
import Stencil.Proofs.Render.Escaping
import Stencil.Proofs.Text.Escapes

/-!
# The forms of values

A value is displayed by writing texts one after the other: the texts of its items or entries, with
brackets around them and separators between them, down to any depth. Where a formatter escapes, it
replaces characters of what is displayed. Numbers and truth values are written without a look at
their characters, and a value that displays as nothing is not written at all; this must not make a
difference.

## Main definitions

* `Value.displayed` — the texts that are written to display a value.

## Main results

* `Value.join_displayed` — what is displayed is the written form.
* `escapeText_replaces` — escaping replaces four characters and can be undone.
* `Formatter.escaped_eq_escape_displayed` — the form of every value is what is displayed, escaped.
-/

namespace Stencil

open Stencil.Text

/-! ## Displaying values -/

namespace Value

/-- The separator in front of every item but the first. -/
def separator (index : Nat) : List String := if 0 < index then [", "] else []

mutual

/-- The texts that are written one after the other to display a value. -/
def displayed : Value → List String
  | none => []
  | bool b => [if b then "true" else "false"]
  | integer n => [toString n.toInt]
  | float x => [x.text]
  | string s => [s]
  | list items => "[" :: displayedItems 0 items ++ ["]"]
  | map entries => "\x7b" :: displayedEntries 0 entries ++ ["\x7d"]
  | object _ _ _ => []

/-- The texts that are written for the items of a list from an index on. -/
def displayedItems (index : Nat) : List Value → List String
  | [] => []
  | v :: rest => separator index ++ displayed v ++ displayedItems (index + 1) rest

/-- The texts that are written for the entries of a map from an index on. -/
def displayedEntries (index : Nat) : List (String × Value) → List String
  | [] => []
  | (name, v) :: rest =>
    separator index ++ name :: "=" :: displayed v ++ displayedEntries (index + 1) rest

end

/-- The parts from an index on, each but the first of all with the separator in front. -/
def joinedFrom (index : Nat) : List String → String
  | [] => ""
  | part :: rest => String.join (separator index) ++ part ++ joinedFrom (index + 1) rest

/-- Parts that are separated one by one are joined. -/
lemma joinedFrom_zero (parts : List String) : joinedFrom 0 parts = joined parts := by
  have hbehind : ∀ (index : Nat) (part : String) (rest : List String),
      part ++ joinedFrom (index + 1) rest = joined (part :: rest) := by
    intro index part rest
    induction rest generalizing index part with
    | nil => simp [joinedFrom, joined]
    | cons next rest ih =>
      rw [joinedFrom, joined, String.intercalate_cons_cons, ← joined, ← ih (index + 1) next]
      simp [separator, String.append_assoc]
  cases parts with
  | nil => rfl
  | cons part rest => simpa [joinedFrom, separator] using hbehind 0 part rest

mutual

/-- **What is displayed is the written form.** -/
theorem join_displayed (v : Value) : String.join v.displayed = v.text :=
  match v with
  | none => rfl
  | bool b => by simp [displayed, text]
  | integer n => by simp [displayed, text]
  | float x => by simp [displayed, text]
  | string s => by simp [displayed, text]
  | list items => by
    simp [displayed, text, join_displayedItems 0 items, joinedFrom_zero, String.append_assoc]
  | map entries => by
    simp [displayed, text, join_displayedEntries 0 entries, joinedFrom_zero, String.append_assoc]
  | object _ _ _ => rfl

/-- What is displayed of the items of a list from an index on. -/
lemma join_displayedItems (index : Nat) (items : List Value) :
    String.join (displayedItems index items) = joinedFrom index (itemTexts items) :=
  match items with
  | [] => rfl
  | v :: rest => by
    rw [displayedItems, itemTexts, joinedFrom, String.join_append, String.join_append,
      join_displayed v, join_displayedItems (index + 1) rest]

/-- What is displayed of the entries of a map from an index on. -/
lemma join_displayedEntries (index : Nat) (entries : List (String × Value)) :
    String.join (displayedEntries index entries) = joinedFrom index (entryTexts entries) :=
  match entries with
  | [] => rfl
  | (name, v) :: rest => by
    rw [displayedEntries, entryTexts, joinedFrom, String.join_append, String.join_append,
      String.join_cons, String.join_cons, join_displayed v, join_displayedEntries (index + 1) rest]
    simp only [String.append_assoc]

end

end Value

/-! ## Escaping texts -/

/-- The characters of an escaped text. -/
lemma toList_escapeText (s : String) : (escapeText s).toList = escape s.toList :=
  String.toList_ofList

/-- Escaping texts one after the other is escaping what they are together. -/
lemma escapeText_append (s t : String) : escapeText (s ++ t) = escapeText s ++ escapeText t := by
  rw [← String.toList_inj, String.toList_append, toList_escapeText, toList_escapeText,
    toList_escapeText, String.toList_append, escape_append]

/-- Texts that are escaped one by one, put together. -/
lemma join_map_escapeText (texts : List String) :
    String.join (texts.map escapeText) = escapeText (String.join texts) := by
  induction texts with
  | nil => rfl
  | cons s texts ih => rw [List.map_cons, String.join_cons, String.join_cons, ih, escapeText_append]

/-- **Escaping replaces four characters and can be undone.** The ampersand, the two angle brackets
and the double quote become entities, and every other character stays in its place. The copies that
this takes are all cut out between characters. So texts are escaped part by part; the escaped text
has no angle brackets and no double quotes, and each ampersand in it starts one of the four
entities; and one pass from left to right puts the characters back, so different texts stay
different. -/
theorem escapeText_replaces (s : String) :
    (∀ ds, Replaces s.toList ds ↔ ds = (escapeText s).toList) ∧
      (∃ written, escapeAt s.toList = .ok written ∧ written.flatten = (escapeText s).toList) ∧
      (∀ t, escapeText (s ++ t) = escapeText s ++ escapeText t) ∧
      MarkupFree (escapeText s).toList ∧ Guarded (escapeText s).toList ∧
      unescape (escapeText s).toList = s.toList ∧
      ∀ t, escapeText s = escapeText t ↔ s = t := by
  rw [toList_escapeText]
  refine ⟨fun ds => replaces_iff, escapeAt_eq s.toList, escapeText_append s,
    markupFree_escape s.toList, guarded_escape s.toList, unescape_escape s.toList, fun t => ?_⟩
  rw [← String.toList_inj, ← String.toList_inj, toList_escapeText, toList_escapeText, escape_inj]

/-! ## Formatting values -/

/-- **The form of every value is what is displayed, escaped.** Without escaping, what is written is
the texts that display the value. The formatter in force writes these texts escaped, one by one or
all at once, down to any depth, although it escapes neither numbers nor truth values and leaves out
what displays as nothing. -/
theorem Formatter.escaped_eq_escape_displayed (v : Value) :
    ∃ text, Formatter.plain v = .ok text ∧ text = String.join v.displayed ∧
      Formatter.escaped v = .ok (escapeText text) ∧
      Formatter.escaped v = .ok (String.join (v.displayed.map escapeText)) := by
  have hforms : Formatter.escaped v = .ok (escapeText v.text) := Formatter.escaped_eq v
  refine ⟨v.text, rfl, v.join_displayed.symm, hforms, ?_⟩
  rw [join_map_escapeText, v.join_displayed, hforms]

end Stencil
