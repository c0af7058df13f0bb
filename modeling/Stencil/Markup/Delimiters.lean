import Stencil.Text.Search

/-!
# Delimiters

A tag stands between an opening and a closing delimiter. One pair is active at a time and
a template may change it; the triple pair `{{{`, `}}}` is recognised beside it at all
times. Where both openers stand at the same place, the triple one is taken unless the
active one is longer.

## Main definitions

* `Delimiters` — an active pair.
* `Delimiters.IsProper` — neither part of the pair is empty.
* `Delimiters.opening`, `Delimiters.closing` — the delimiters of a tag of either form.
* `Delimiters.openerAt` — the form of the tag that starts at the front of a text.
* `Delimiters.cutAtOpener` — the text before the first tag, the form of that tag, and the
  text from its opener on.
-/

namespace Stencil.Markup

open Stencil.Text

/-- The opener of a tag in triple braces. -/
def tripleOpener : List Char := ['{', '{', '{']

/-- The closer of a tag in triple braces. -/
def tripleCloser : List Char := ['}', '}', '}']

/-- The active pair of delimiters. -/
structure Delimiters where
  opener : List Char
  closer : List Char
  deriving DecidableEq

namespace Delimiters

/-- Neither delimiter is empty. A template can announce no other pairs: an empty delimiter
is found everywhere, and a tag could end where it starts. -/
def IsProper (d : Delimiters) : Prop := d.opener ≠ [] ∧ d.closer ≠ []

instance (d : Delimiters) : Decidable d.IsProper := inferInstanceAs (Decidable (_ ∧ _))

/-- The pair that is active at the start of every template. -/
def standard : Delimiters := ⟨['{', '{'], ['}', '}']⟩

theorem standard_isProper : standard.IsProper := by decide

instance : Inhabited Delimiters := ⟨standard⟩

/-- The opener of a tag, in triple braces or between the active pair. -/
def opening (d : Delimiters) (triple : Bool) : List Char :=
  if triple then tripleOpener else d.opener

/-- The closer of a tag, in triple braces or between the active pair. -/
def closing (d : Delimiters) (triple : Bool) : List Char :=
  if triple then tripleCloser else d.closer

theorem opening_ne_nil {d : Delimiters} (h : d.IsProper) (triple : Bool) :
    d.opening triple ≠ [] := by
  cases triple
  · exact h.1
  · simp [opening, tripleOpener]

theorem closing_ne_nil {d : Delimiters} (h : d.IsProper) (triple : Bool) :
    d.closing triple ≠ [] := by
  cases triple
  · exact h.2
  · simp [closing, tripleCloser]

/-- Whether a tag starts at the front of a text, and if so whether it is a triple one.
The active opener wins over the triple one only if it is longer. -/
def openerAt (d : Delimiters) (cs : List Char) : Option Bool :=
  match d.opener.isPrefixOf cs, tripleOpener.isPrefixOf cs with
  | true, true => some (decide (d.opener.length ≤ tripleOpener.length))
  | true, false => some false
  | false, true => some true
  | false, false => none

/-- The text before the first opener, the form of the tag that starts there, and the text
from that opener on. -/
def cutAtOpener (d : Delimiters) : List Char → Option (List Char × Bool × List Char)
  | [] => none
  | c :: cs =>
    match d.openerAt (c :: cs) with
    | some triple => some ([], triple, c :: cs)
    | none => (d.cutAtOpener cs).map fun (before, triple, found) => (c :: before, triple, found)

theorem opening_prefix_of_openerAt {d : Delimiters} {cs : List Char} {triple : Bool}
    (h : d.openerAt cs = some triple) : d.opening triple <+: cs := by
  unfold openerAt at h
  split at h
  · rename_i ha ht
    cases triple
    · exact List.isPrefixOf_iff_prefix.1 ha
    · exact List.isPrefixOf_iff_prefix.1 ht
  · rename_i ha ht
    simp only [Option.some.injEq] at h
    subst h
    exact List.isPrefixOf_iff_prefix.1 ha
  · rename_i ha ht
    simp only [Option.some.injEq] at h
    subst h
    exact List.isPrefixOf_iff_prefix.1 ht
  · simp at h

/-- The text before the opener and the text from it on are the whole, and the opener
stands at the front of the second part. -/
theorem cutAtOpener_append {d : Delimiters} {cs before found : List Char} {triple : Bool}
    (h : d.cutAtOpener cs = some (before, triple, found)) :
    before ++ found = cs ∧ d.opening triple <+: found := by
  induction cs generalizing before with
  | nil => simp [cutAtOpener] at h
  | cons c cs ih =>
    rw [cutAtOpener] at h
    split at h
    · rename_i t ht
      simp only [Option.some.injEq, Prod.mk.injEq] at h
      obtain ⟨rfl, rfl, rfl⟩ := h
      exact ⟨rfl, opening_prefix_of_openerAt ht⟩
    · obtain ⟨⟨b, t, f⟩, hb, heq⟩ := Option.map_eq_some_iff.1 h
      simp only [Prod.mk.injEq] at heq
      obtain ⟨rfl, rfl, rfl⟩ := heq
      have := ih hb
      exact ⟨by simp [this.1], this.2⟩

end Delimiters

/-- A pair of which neither part is empty. -/
abbrev ProperDelimiters := { d : Delimiters // d.IsProper }

end Stencil.Markup
