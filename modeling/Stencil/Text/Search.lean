/-!
# Finding a pattern in a text

`cutAt` divides a text at the first place where a pattern occurs. Both parts are returned,
so a caller that goes on with the second part needs no positions.

## Main definitions

* `cutAt` — the text before and after the first occurrence of a pattern.

## Main results

* `cutAt_append` — the two parts and the pattern between them are the text.
* `cutAt_length_lt` — for a non-empty pattern, what follows it is shorter than the text.
-/

namespace Stencil.Text

/-- The text before the first occurrence of `pattern` and the text after it. -/
def cutAt (pattern : List Char) : List Char → Option (List Char × List Char)
  | [] => if pattern.isEmpty then some ([], []) else none
  | c :: cs =>
    if pattern.isPrefixOf (c :: cs) then some ([], (c :: cs).drop pattern.length)
    else (cutAt pattern cs).map fun (before, after) => (c :: before, after)

theorem cutAt_append {pattern cs before after : List Char}
    (h : cutAt pattern cs = some (before, after)) : before ++ pattern ++ after = cs := by
  induction cs generalizing before after with
  | nil => simp_all [cutAt]
  | cons c cs ih =>
    rw [cutAt] at h
    split at h
    · rename_i hp
      obtain ⟨rest, hrest⟩ := List.isPrefixOf_iff_prefix.1 hp
      simp only [Option.some.injEq, Prod.mk.injEq] at h
      rw [← h.1, ← h.2, ← hrest]
      simp
    · obtain ⟨⟨b, a⟩, hba, heq⟩ := Option.map_eq_some_iff.1 h
      simp only [Prod.mk.injEq] at heq
      rw [← heq.1, ← heq.2, ← ih hba]
      simp

theorem cutAt_length_lt {pattern cs before after : List Char} (hp : pattern ≠ [])
    (h : cutAt pattern cs = some (before, after)) : after.length < cs.length := by
  have := List.length_pos_iff.2 hp
  rw [← cutAt_append h]
  simp only [List.length_append]
  omega

end Stencil.Text
