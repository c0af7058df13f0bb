import Mathlib.Tactic.Lemma
import Stencil.Proofs.Loops
import Stencil.Proofs.Text.Cuts
import Stencil.Proofs.Text.Indenting

/-!
# Indenting by byte offsets

A text can be indented without cutting it into lines first: the next line break is looked for, the
text is copied up to behind it, and the indentation is written if text is left. When no break is
found, what is left is copied. What is written is the text with each line but the first indented,
and every cut lies between characters.

## Main definitions

* `behindBreak` — the offset behind a line break.
* `hasInnerBreakAt` — whether text follows the first line break, told by offsets.
* `Indenter`, `Indenter.step` — copying a text from line break to line break.

## Main results

* `hasInnerBreakAt_eq` — looking behind the first line break never cuts inside of a character.
* `Indenter.endsIn` — copying comes to an end and writes the indented text.
* `Cursor.indented_endsIn` — a text in an indented template, by copying.
-/

namespace Stencil.Text

/-- The byte offset behind the line break at an offset. A pair is one break. -/
def behindBreak (j : Nat) (cs : List Char) : Checked Nat := do
  let tail ← dropAt j cs
  return if ['\r', '\n'].isPrefixOf tail then j + 2 else j + 1

/-- Whether the first line break of a text is followed by more text. -/
def hasInnerBreakAt (cs : List Char) : Checked Bool :=
  match findWhere isBreak cs with
  | none => .ok false
  | some j => (fun k => decide (k < size cs)) <$> behindBreak j cs

/-- A text that is being indented: what is left of it, and what was written. -/
structure Indenter where
  rest : List Char
  written : List Char

namespace Indenter

/-- The indenter at the start of a text. -/
def start (cs : List Char) : Indenter := ⟨cs, []⟩

/-- The text is copied up to behind the line break at an offset, and the indentation is written if
text is left. -/
def copy (indent : List Char) (w : Indenter) (j : Nat) : Checked Indenter := do
  let k ← behindBreak j w.rest
  let line ← takeAt k w.rest
  let rest ← dropAt k w.rest
  return ⟨rest, w.written ++ line ++ if rest.isEmpty then [] else indent⟩

/-- One iteration. Without a line break, what is left is copied, which makes the answer. -/
def step (indent : List Char) (w : Indenter) : Checked (List Char) ⊕ Indenter :=
  match findWhere isBreak w.rest with
  | none => .inl (.ok (w.written ++ w.rest))
  | some j =>
    match copy indent w j with
    | .error d => .inl (.error d)
    | .ok w' => .inr w'

end Indenter

section Lines

variable {body ending rest indent : List Char} {lns : List (List Char)}

/-- The break that ends a line is passed behind the line. -/
lemma behindBreak_eq (hending : IsEnding ending) (hcr : ending = ['\r'] → rest.head? ≠ some '\n')
    (body : List Char) :
    behindBreak (size body) (body ++ ending ++ rest) = .ok (size (body ++ ending)) := by
  rw [behindBreak, dropAt_size_append_append, size_append, size_ending hending hcr]
  simp only [bind, Except.bind, pure, Except.pure]
  split <;> rfl

/-- Within a line, no line break is passed. -/
lemma hasInnerBreak_append (hbody : Unbroken body) (cs : List Char) :
    hasInnerBreak (body ++ cs) = hasInnerBreak cs := by
  induction body with
  | nil => rfl
  | cons c body ih =>
    obtain ⟨hc, hbody'⟩ := List.forall_mem_cons.1 hbody
    rw [List.cons_append, hasInnerBreak, if_neg (by simp [hc]), ih hbody']
    rintro rest rfl -
    cases hc

/-- Behind the ending of a line stands what is left. -/
lemma hasInnerBreak_ending (hending : IsEnding ending)
    (hcr : ending = ['\r'] → rest.head? ≠ some '\n') :
    hasInnerBreak (ending ++ rest) = !rest.isEmpty := by
  rcases hending with rfl | rfl | rfl
  · rfl
  · rw [List.singleton_append, hasInnerBreak]
    · rfl
    · rintro more - rfl
      exact hcr rfl rfl
  · rfl

/-- A text is longer than its first line exactly if something is left behind this line. -/
lemma size_line_lt (line rest : List Char) :
    decide (size line < size (line ++ rest)) = !rest.isEmpty := by
  cases rest with
  | nil => simp
  | cons c rest =>
    have hpos := size_pos (List.cons_ne_nil c rest)
    simpa using hpos

/-- **Whether text follows the first line break** is told by offsets without a cut inside of a
character. -/
theorem hasInnerBreakAt_eq (cs : List Char) : hasInnerBreakAt cs = .ok (hasInnerBreak cs) := by
  have hlines := lines_isLines cs
  rw [← lines_flatten cs]
  generalize lines cs = lns at hlines ⊢
  cases hlines with
  | nil => rfl
  | @cons body ending more hbody hends =>
    rw [List.flatten_cons]
    rcases hends with ⟨hending, hcr⟩ | ⟨rfl, -, hrest⟩
    · simp only [hasInnerBreakAt, findWhere_ending hbody hending, behindBreak_eq hending hcr,
        Functor.map, Except.map, size_line_lt]
      rw [List.append_assoc, hasInnerBreak_append hbody, hasInnerBreak_ending hending hcr]
    · rw [hrest, List.append_nil, hasInnerBreak_append hbody, hasInnerBreakAt, List.append_nil,
        findWhere_of_unbroken hbody]
      rfl

namespace Indenter

/-- Behind a line with an ending, the indentation is written if text is left. -/
lemma step_line (hbody : Unbroken body) (hending : IsEnding ending)
    (hcr : ending = ['\r'] → rest.head? ≠ some '\n') (indent written : List Char) :
    step indent ⟨body ++ ending ++ rest, written⟩ =
      .inr ⟨rest, written ++ (body ++ ending) ++ if rest.isEmpty then [] else indent⟩ := by
  have hcopy : copy indent ⟨body ++ ending ++ rest, written⟩ (size body) =
      .ok ⟨rest, written ++ (body ++ ending) ++ if rest.isEmpty then [] else indent⟩ := by
    simp only [copy, behindBreak_eq hending hcr, takeAt_size_append, dropAt_size_append, bind,
      Except.bind]
    rfl
  simp only [step, findWhere_ending hbody hending rest, hcopy]

/-- A text without a line break is copied. -/
lemma step_last (hbody : Unbroken body) (indent written : List Char) :
    step indent ⟨body, written⟩ = .inl (.ok (written ++ body)) := by
  simp only [step, findWhere_of_unbroken hbody]

/-- A text without a line break does not end a line. -/
lemma endsLine_of_unbroken (hbody : Unbroken body) : endsLine body = false := by
  rw [endsLine]
  cases hlast : body.getLast? with
  | none => rfl
  | some c => exact hbody c (List.mem_of_getLast? hlast)

/-- **Copying the lines of a text** goes on with what was written, and comes to an end with the text
in which each line but the first is indented. There is an iteration for each line that has an
ending, and one more.

**Proof sketch.** Induction on the lines. Where a line has an ending, its break is the first one of
what is left, and text is left behind it exactly if further lines follow. -/
theorem endsIn_of_isLines (indent written : List Char) (hlines : IsLines lns) :
    EndsIn (step indent) ⟨lns.flatten, written⟩ (lns.countP endsLine + 1)
      (.ok (written ++ indent.intercalate lns)) := by
  induction hlines generalizing written with
  | nil => exact .last (step_last Unbroken.nil indent written)
  | @cons body ending more hbody hends hmore ih =>
    rw [List.flatten_cons]
    rcases hends with ⟨hending, hcr⟩ | ⟨rfl, hne, hrest⟩
    · have hendsLine : endsLine (body ++ ending) = true := by
        rcases hending with rfl | rfl | rfl <;> simp [endsLine, isBreak]
      rw [List.countP_cons_of_pos hendsLine]
      refine .more (step_line hbody hending hcr indent written) ?_
      have hrest := ih (written ++ (body ++ ending) ++ if more.flatten.isEmpty then [] else indent)
      cases hmore with
      | nil => simpa using hrest
      | @cons next nextEnding later _ hnext _ =>
        have hne : (((next ++ nextEnding) :: later).flatten).isEmpty = false :=
          List.isEmpty_eq_false_iff.2 (List.append_ne_nil_of_left_ne_nil hnext.ne_nil _)
        rw [hne, if_neg Bool.false_ne_true] at hrest ⊢
        rw [List.intercalate_cons_cons]
        simpa only [List.append_assoc] using hrest
    · obtain rfl := hmore.eq_nil_of_flatten hrest
      rw [List.append_nil, List.countP_cons_of_neg (by simp [endsLine_of_unbroken hbody]),
        List.intercalate_singleton, List.flatten_nil, List.append_nil]
      exact .last (step_last hbody indent written)

/-- **Indenting by byte offsets** comes to an end, never cuts inside of a character, and writes the
text with each line but the first indented. -/
theorem endsIn (indent cs : List Char) :
    EndsIn (step indent) (start cs) ((lines cs).countP endsLine + 1)
      (.ok (indentLines indent cs)) := by
  have h := endsIn_of_isLines indent [] (lines_isLines cs)
  rwa [lines_flatten] at h

end Indenter

end Lines

end Stencil.Text

namespace Stencil

open Stencil.Text

/-- **A text in an indented template is what copying it from line break to line break writes**, also
if it is taken as it stands. -/
theorem Cursor.indented_endsIn (indent content : String) :
    EndsIn (Indenter.step indent.toList) (.start content.toList)
      ((lines content.toList).countP endsLine + 1) (.ok (indented indent content).toList) := by
  rw [indented_eq, String.toList_ofList]
  exact Indenter.endsIn indent.toList content.toList

end Stencil
