import Mathlib.Data.List.Basic
import Mathlib.Tactic.Lemma
import Stencil.Text.Entity

/-!
# Texts without markup

Escaping leaves no character in a text that would be read as markup, except for the ampersands
that start its entities. Both properties hold of texts put together if they hold of each of
them, so a long text has them as soon as its parts do.

## Main definitions

* `entities` — the entities that stand for markup.
* `MarkupFree` — a text that holds no angle bracket and no double quote.
* `Guarded` — a text whose ampersands all start entities.
* `Unmarked` — a text in which there is nothing to escape.

## Main results

* `MarkupFree.flatten`, `Guarded.flatten` — texts put together.
* `markupFree_escape`, `guarded_escape` — escaped texts.
* `Unmarked.escape_eq` — a text without any markup is left as it is.
-/

namespace Stencil.Text

/-- The entities that stand for markup. -/
def entities : List (List Char) :=
  [['&', 'a', 'm', 'p', ';'], ['&', 'l', 't', ';'], ['&', 'g', 't', ';'],
    ['&', 'q', 'u', 'o', 't', ';']]

/-- No character of the text is an angle bracket or a double quote. -/
def MarkupFree (cs : List Char) : Prop := ∀ c ∈ cs, c ≠ '<' ∧ c ≠ '>' ∧ c ≠ '"'

instance : DecidablePred MarkupFree := fun cs =>
  List.decidableBAll (fun c => c ≠ '<' ∧ c ≠ '>' ∧ c ≠ '"') cs

/-- Every ampersand of the text is the first character of an entity. -/
def Guarded (cs : List Char) : Prop :=
  ∀ before after, cs = before ++ '&' :: after → ∃ entity ∈ entities, entity <+: '&' :: after

/-! ## Texts put together -/

/-- Texts without markup make a text without markup. -/
lemma MarkupFree.flatten {parts : List (List Char)} (h : ∀ cs ∈ parts, MarkupFree cs) :
    MarkupFree parts.flatten := by
  intro c hc
  obtain ⟨cs, hcs, hmem⟩ := List.mem_flatten.1 hc
  exact h cs hcs c hmem

namespace Guarded

variable {xs ys : List Char}

/-- A text without ampersands is guarded. -/
lemma of_not_mem (h : '&' ∉ xs) : Guarded xs := by
  rintro before after rfl
  exact absurd (List.mem_append_right before List.mem_cons_self) h

/-- Two guarded texts in a row are a guarded text: an entity does not end with its part. -/
lemma append (hx : Guarded xs) (hy : Guarded ys) : Guarded (xs ++ ys) := by
  intro before after h
  rcases List.append_eq_append_iff.1 h with ⟨front, rfl, hback⟩ | ⟨back, hfront, hafter⟩
  · exact hy front after hback
  · cases back with
    | nil =>
      -- the ampersand is the first character of the second text
      exact hy [] after hafter.symm
    | cons c back =>
      obtain ⟨rfl, rfl⟩ := List.cons.inj hafter
      obtain ⟨entity, hentity, hstart⟩ := hx before back hfront
      exact ⟨entity, hentity, hstart.trans (List.prefix_append ('&' :: back) ys)⟩

/-- Guarded texts make a guarded text. -/
lemma flatten {parts : List (List Char)} (h : ∀ cs ∈ parts, Guarded cs) :
    Guarded parts.flatten := by
  induction parts with
  | nil => exact of_not_mem List.not_mem_nil
  | cons cs parts ih =>
    obtain ⟨hfirst, hothers⟩ := List.forall_mem_cons.1 h
    exact hfirst.append (ih hothers)

end Guarded

/-! ## Entities -/

/-- An entity holds no markup but the ampersand that it starts with. -/
lemma eq_cons_of_mem_entities {entity : List Char} (h : entity ∈ entities) :
    ∃ rest, entity = '&' :: rest ∧ '&' ∉ rest ∧ MarkupFree entity := by
  simp only [entities, List.mem_cons, List.not_mem_nil, or_false] at h
  rcases h with rfl | rfl | rfl | rfl <;> exact ⟨_, rfl, by decide, by decide⟩

/-- An entity is guarded. -/
lemma guarded_of_mem_entities {entity : List Char} (h : entity ∈ entities) :
    Guarded entity := by
  obtain ⟨rest, rfl, hrest, -⟩ := eq_cons_of_mem_entities h
  intro before after heq
  cases before with
  | nil => exact ⟨_, h, by rw [heq]; exact List.prefix_rfl⟩
  | cons c before =>
    -- a second ampersand would be in the rest of the entity
    obtain ⟨-, rfl⟩ := List.cons.inj heq
    exact absurd (List.mem_append_right before List.mem_cons_self) hrest

/-- A character becomes an entity, or is none that would be read as markup. -/
lemma escapeChar_mem_or_eq (c : Char) :
    escapeChar c ∈ entities ∨ escapeChar c = [c] ∧ c ≠ '&' ∧ MarkupFree [c] := by
  unfold escapeChar entities
  split_ifs with hamp hlt hgt hquot
  · exact .inl (by simp)
  · exact .inl (by simp)
  · exact .inl (by simp)
  · exact .inl (by simp)
  · exact .inr ⟨rfl, hamp, by simp [MarkupFree, hlt, hgt, hquot]⟩

/-- **An escaped text is free of markup.** -/
theorem markupFree_escape (cs : List Char) : MarkupFree (escape cs) := by
  refine MarkupFree.flatten (List.forall_mem_map.2 fun c _ => ?_)
  rcases escapeChar_mem_or_eq c with hentity | ⟨hself, -, hfree⟩
  · obtain ⟨-, -, -, hfree⟩ := eq_cons_of_mem_entities hentity
    exact hfree
  · rw [hself]
    exact hfree

/-- **Every ampersand of an escaped text starts an entity.** -/
theorem guarded_escape (cs : List Char) : Guarded (escape cs) := by
  refine Guarded.flatten (List.forall_mem_map.2 fun c _ => ?_)
  rcases escapeChar_mem_or_eq c with hentity | ⟨hself, hamp, -⟩
  · exact guarded_of_mem_entities hentity
  · rw [hself]
    exact Guarded.of_not_mem (by simpa using hamp.symm)

/-! ## Texts without any markup -/

/-- No character of the text would be read as markup. -/
def Unmarked (cs : List Char) : Prop := ∀ c ∈ cs, escapeChar c = [c]

instance : DecidablePred Unmarked := fun cs =>
  List.decidableBAll (fun c => escapeChar c = [c]) cs

namespace Unmarked

variable {xs ys : List Char}

/-- Two texts without any markup in a row. -/
lemma append (hx : Unmarked xs) (hy : Unmarked ys) : Unmarked (xs ++ ys) :=
  List.forall_mem_append.2 ⟨hx, hy⟩

/-- A text of digits holds no markup. -/
lemma of_isDigit (h : ∀ c ∈ xs, c.isDigit = true) : Unmarked xs := by
  intro c hc
  have hne : ∀ d : Char, d.isDigit = false → c ≠ d := by
    rintro d hd rfl
    rw [h c hc] at hd
    cases hd
  rw [escapeChar, if_neg (hne _ rfl), if_neg (hne _ rfl), if_neg (hne _ rfl), if_neg (hne _ rfl)]

/-- **Escaping leaves a text without any markup as it is.** -/
theorem escape_eq (h : Unmarked xs) : escape xs = xs := by
  rw [escape, List.flatMap_congr h, List.flatMap_singleton']

end Unmarked

end Stencil.Text
