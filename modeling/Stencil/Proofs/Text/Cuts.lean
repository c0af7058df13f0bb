import Mathlib.Tactic.Lemma
import Stencil.Proofs.Text.Breaks
import Stencil.Proofs.Text.Covers

/-!
# Cutting a text at byte offsets

A text can be cut at a byte offset only if the offset lies between two characters, or at an end of
the text. Here this is checked at each cut, so what goes through without a defect never cuts where
it must not.

## Main definitions

* `Defect`, `Checked` — what can go wrong while offsets are used, and results that are checked.
* `dropAt`, `takeAt`, `Span.sliceAt` — cuts that are checked.
* `Span.checked` — a range whose ends are compared.
* `linesAt` — the lines of a text, found by offsets.

## Main results

* `dropAt_eq_ok_iff`, `takeAt_eq_ok_iff`, `Span.sliceAt_eq_ok_iff` — the cuts that go through.
* `linesAt_eq` — finding the lines of a text cuts between characters only.
-/

namespace Stencil.Text

/-- What can go wrong while byte offsets and indices are used. -/
inductive Defect where
  /-- A text is cut behind its end or inside of a character. -/
  | slice
  /-- A range ends in front of its start. -/
  | span
  /-- There is nothing at an index. -/
  | index
  /-- A case comes up that was left out. -/
  | unreachable
  /-- A loop does not get ahead. -/
  | endless
  deriving DecidableEq

/-- A result, unless a check fails. -/
abbrev Checked (α : Type) := Except Defect α

/-! ## Cuts -/

/-- The text from a byte offset on. -/
def dropAt : Nat → List Char → Checked (List Char)
  | 0, cs => .ok cs
  | _ + 1, [] => .error .slice
  | n + 1, c :: cs =>
    if c.utf8Size ≤ n + 1 then dropAt (n + 1 - c.utf8Size) cs else .error .slice

/-- The text up to a byte offset. -/
def takeAt : Nat → List Char → Checked (List Char)
  | 0, _ => .ok []
  | _ + 1, [] => .error .slice
  | n + 1, c :: cs =>
    if c.utf8Size ≤ n + 1 then (c :: ·) <$> takeAt (n + 1 - c.utf8Size) cs else .error .slice

/-- The range between two offsets. -/
def Span.checked (start stop : Nat) : Checked Span :=
  if start ≤ stop then .ok ⟨start, stop⟩ else .error .span

/-- The part of a text that a range names. -/
def Span.sliceAt (s : Span) (cs : List Char) : Checked (List Char) :=
  if s.start ≤ s.stop then dropAt s.start cs >>= takeAt (s.stop - s.start) else .error .slice

section Cuts

variable {n : Nat} {cs front back part : List Char} {s : Span}

/-- A text can be cut behind any part in front. -/
@[simp]
lemma dropAt_size_append (front back : List Char) :
    dropAt (size front) (front ++ back) = .ok back := by
  induction front with
  | nil => cases back <;> rfl
  | cons c front ih =>
    have hpos := Char.utf8Size_pos c
    obtain ⟨n, hn⟩ : ∃ n, size (c :: front) = n + 1 :=
      ⟨c.utf8Size + size front - 1, by simp only [size]; omega⟩
    have hrest : n + 1 - c.utf8Size = size front := by
      rw [← hn, size]
      omega
    rw [hn, List.cons_append, dropAt, if_pos (by rw [← hn, size]; omega), hrest, ih]

/-- A text can be cut behind the first of two parts in front. -/
lemma dropAt_size_append_append (front part back : List Char) :
    dropAt (size front) (front ++ part ++ back) = .ok (part ++ back) := by
  rw [List.append_assoc, dropAt_size_append]

/-- A text can be cut behind any part in front. -/
@[simp]
lemma takeAt_size_append (front back : List Char) :
    takeAt (size front) (front ++ back) = .ok front := by
  induction front with
  | nil => cases back <;> rfl
  | cons c front ih =>
    have hpos := Char.utf8Size_pos c
    obtain ⟨n, hn⟩ : ∃ n, size (c :: front) = n + 1 :=
      ⟨c.utf8Size + size front - 1, by simp only [size]; omega⟩
    have hrest : n + 1 - c.utf8Size = size front := by
      rw [← hn, size]
      omega
    rw [hn, List.cons_append, takeAt, if_pos (by rw [← hn, size]; omega), hrest, ih]
    rfl

/-- **A cut goes through exactly between characters.** -/
theorem dropAt_eq_ok_iff :
    dropAt n cs = .ok back ↔ ∃ front, cs = front ++ back ∧ n = size front := by
  constructor
  · intro h
    induction cs generalizing n with
    | nil =>
      cases n with
      | zero =>
        cases h
        exact ⟨[], rfl, rfl⟩
      | succ n => cases h
    | cons c cs ih =>
      cases n with
      | zero =>
        cases h
        exact ⟨[], rfl, rfl⟩
      | succ n =>
        rw [dropAt] at h
        split at h
        · rename_i hle
          obtain ⟨front, rfl, hn⟩ := ih h
          exact ⟨c :: front, rfl, by simp only [size]; omega⟩
        · cases h
  · rintro ⟨front, rfl, rfl⟩
    exact dropAt_size_append front back

/-- **A cut goes through exactly between characters.** -/
theorem takeAt_eq_ok_iff :
    takeAt n cs = .ok front ↔ ∃ back, cs = front ++ back ∧ n = size front := by
  constructor
  · intro h
    induction cs generalizing n front with
    | nil =>
      cases n with
      | zero =>
        cases h
        exact ⟨[], rfl, rfl⟩
      | succ n => cases h
    | cons c cs ih =>
      cases n with
      | zero =>
        cases h
        exact ⟨c :: cs, rfl, rfl⟩
      | succ n =>
        rw [takeAt] at h
        split at h
        · rename_i hle
          cases htake : takeAt (n + 1 - c.utf8Size) cs with
          | error d =>
            rw [htake] at h
            cases h
          | ok more =>
            rw [htake] at h
            cases h
            obtain ⟨back, rfl, hn⟩ := ih htake
            exact ⟨back, rfl, by simp only [size]; omega⟩
        · cases h
  · rintro ⟨back, rfl, rfl⟩
    exact takeAt_size_append front back

/-- **A range names a part exactly if it covers it.** -/
theorem Span.sliceAt_eq_ok_iff : s.sliceAt cs = .ok part ↔ s.Covers cs part := by
  rw [sliceAt]
  constructor
  · intro h
    split at h
    · rename_i hle
      cases hdrop : dropAt s.start cs with
      | error d =>
        rw [hdrop] at h
        cases h
      | ok back =>
        rw [hdrop] at h
        obtain ⟨front, rfl, hstart⟩ := dropAt_eq_ok_iff.1 hdrop
        obtain ⟨back, rfl, hstop⟩ := takeAt_eq_ok_iff.1 h
        refine ⟨front, back, by simp, ?_⟩
        obtain ⟨start, stop⟩ := s
        simp only [size_append, Span.mk.injEq] at hstart hstop hle ⊢
        omega
    · cases h
  · rintro ⟨front, back, rfl, rfl⟩
    have hsize : size front + size part - size front = size part := by omega
    rw [if_pos (by simp), List.append_assoc, dropAt_size_append]
    show takeAt _ _ = _
    rw [size_append, hsize, takeAt_size_append]

/-- A range whose start lies in front of its end. -/
lemma Span.checked_of_le {start stop : Nat} (h : start ≤ stop) :
    checked start stop = .ok ⟨start, stop⟩ :=
  if_pos h

end Cuts

/-! ## Lines -/

/-- The byte offset of the first character with a property. -/
def findWhere (p : Char → Bool) : List Char → Option Nat
  | [] => none
  | c :: cs => if p c then some 0 else (findWhere p cs).map (c.utf8Size + ·)

/-- The line that starts at a byte offset, unless this is the end of the text. -/
def nextLine (source : List Char) (cursor : Nat) : Checked (Option (List Char)) := do
  let rest ← dropAt cursor source
  if rest.isEmpty then
    return none
  match findWhere isBreak rest with
  | some j =>
    let tail ← dropAt j rest
    let n := if ['\r', '\n'].isPrefixOf tail then j + 2 else j + 1
    return some (← takeAt n rest)
  | none => return some (← takeAt (size rest) rest)

/-- The lines of a text from a byte offset on, each with the offset at which it starts. -/
def linesAt (source : List Char) (cursor : Nat) : Checked (List (Nat × List Char)) :=
  match nextLine source cursor with
  | .error d => .error d
  | .ok none => .ok []
  | .ok (some line) =>
    if _h : 0 < size line ∧ cursor < size source then
      ((cursor, line) :: ·) <$> linesAt source (cursor + size line)
    else .error .endless
termination_by size source - cursor

/-- Lines, each with the offset at which it starts. -/
def placed (offset : Nat) : List (List Char) → List (Nat × List Char)
  | [] => []
  | line :: more => (offset, line) :: placed (offset + size line) more

section Lines

variable {front body ending rest : List Char} {lns : List (List Char)}

/-- A text without a line break has no first one. -/
lemma findWhere_of_unbroken (h : Unbroken body) : findWhere isBreak body = none := by
  induction body with
  | nil => rfl
  | cons c body ih =>
    obtain ⟨hc, hbody⟩ := List.forall_mem_cons.1 h
    simp [findWhere, hc, ih hbody]

/-- The first line break behind a text without one. -/
lemma findWhere_append (h : Unbroken body) {c : Char} (hc : isBreak c = true) (rest : List Char) :
    findWhere isBreak (body ++ c :: rest) = some (size body) := by
  induction body with
  | nil => simp [findWhere, hc, size]
  | cons d body ih =>
    obtain ⟨hd, hbody⟩ := List.forall_mem_cons.1 h
    simp [findWhere, hd, ih hbody, size]

/-- The first line break of a text is where the ending of its first line starts. -/
lemma findWhere_ending (hbody : Unbroken body) (hending : IsEnding ending) (rest : List Char) :
    findWhere isBreak (body ++ ending ++ rest) = some (size body) := by
  obtain ⟨c, tail, hc, rfl⟩ : ∃ c tail, isBreak c = true ∧ ending = c :: tail := by
    rcases hending with rfl | rfl | rfl
    · exact ⟨'\n', [], rfl, rfl⟩
    · exact ⟨'\r', [], rfl, rfl⟩
    · exact ⟨'\r', ['\n'], rfl, rfl⟩
  rw [List.append_assoc]
  exact findWhere_append hbody hc (tail ++ rest)

/-- An ending takes up two bytes if it is a pair, and one byte if it is not. -/
lemma size_ending (hending : IsEnding ending) (hcr : ending = ['\r'] → rest.head? ≠ some '\n') :
    size ending = if ['\r', '\n'].isPrefixOf (ending ++ rest) then 2 else 1 := by
  rcases hending with rfl | rfl | rfl
  · rfl
  · rw [if_neg]
    · rfl
    · intro hpair
      refine hcr rfl (List.head?_eq_some_iff.2 ?_)
      obtain ⟨more, hmore⟩ := List.isPrefixOf_iff_prefix.1 hpair
      exact ⟨more, (List.cons.inj hmore).2.symm⟩
  · rfl

/-- The line at an offset is the one that starts there. -/
lemma nextLine_eq (hbody : Unbroken body) (hends : EndsBefore body ending rest)
    (front : List Char) :
    nextLine (front ++ (body ++ ending ++ rest)) (size front) = .ok (some (body ++ ending)) := by
  have htake := takeAt_size_append (body ++ ending) rest
  have hempty : (body ++ ending ++ rest).isEmpty = false :=
    List.isEmpty_eq_false_iff.2 (List.append_ne_nil_of_left_ne_nil hends.ne_nil rest)
  rcases hends with ⟨hending, hcr⟩ | ⟨rfl, -, rfl⟩
  · have hsize : size (body ++ ending) =
        if ['\r', '\n'].isPrefixOf (ending ++ rest) then size body + 2 else size body + 1 := by
      rw [size_append, size_ending hending hcr]
      split <;> rfl
    rw [hsize] at htake
    simp only [nextLine, dropAt_size_append, dropAt_size_append_append, hempty,
      findWhere_ending hbody hending rest, bind, Except.bind, htake]
    rfl
  · have hfind : findWhere isBreak (body ++ [] ++ []) = none := by
      simpa using findWhere_of_unbroken hbody
    simp only [List.append_nil] at htake hempty hfind ⊢
    simp only [nextLine, dropAt_size_append, hempty, hfind, bind, Except.bind, htake]
    rfl

/-- The lines of a text from an offset on are those of the text behind the offset. -/
lemma linesAt_append (hlines : IsLines lns) (front : List Char) :
    linesAt (front ++ lns.flatten) (size front) = .ok (placed (size front) lns) := by
  induction hlines generalizing front with
  | nil =>
    have hnext : nextLine (front ++ []) (size front) = .ok none := by
      rw [nextLine, dropAt_size_append]
      rfl
    rw [List.flatten_nil, linesAt]
    simp only [hnext, placed]
  | @cons body ending more hbody hends _ ih =>
    have hpos := size_pos hends.ne_nil
    rw [List.flatten_cons, linesAt]
    simp only [nextLine_eq hbody hends]
    rw [dif_pos ⟨hpos, by simp only [size_append] at hpos ⊢; omega⟩, ← size_append,
      ← List.append_assoc, ih (front ++ (body ++ ending))]
    simp [placed]

/-- **Finding the lines of a text cuts between characters only**, and it ends. -/
theorem linesAt_eq (cs : List Char) : linesAt cs 0 = .ok (placed 0 (lines cs)) := by
  have h := linesAt_append (lines_isLines cs) []
  rwa [List.nil_append, lines_flatten] at h

end Lines

end Stencil.Text
