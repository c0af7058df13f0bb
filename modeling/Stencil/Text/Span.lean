/-!
# Byte offsets and spans

Places in a text are counted in the bytes of its UTF-8 form. A `Span` is a range of such
offsets; a span names a part of a text only if both of its ends lie between characters.

## Main definitions

* `size` — the number of bytes of a text.
* `takeBytes`, `dropBytes` — the text up to and from a byte offset.
* `Span`, `Span.slice` — a range of offsets and the part of a text that it names.

## Main results

* `takeBytes_append_dropBytes` — cutting at an offset loses nothing.
* `slice_append` — a span that is built from the parts of a text names the middle part.
-/

namespace Stencil.Text

/-- The number of bytes of a text in UTF-8. -/
def size : List Char → Nat
  | [] => 0
  | c :: cs => c.utf8Size + size cs

@[simp]
theorem size_append (xs ys : List Char) : size (xs ++ ys) = size xs + size ys := by
  induction xs with
  | nil => simp [size]
  | cons x xs ih => simp [size, ih, Nat.add_assoc]

/-- The characters that lie whole in the first `n` bytes. -/
def takeBytes : Nat → List Char → List Char
  | _, [] => []
  | n, c :: cs => if c.utf8Size ≤ n then c :: takeBytes (n - c.utf8Size) cs else []

/-- The characters that are left when those in the first `n` bytes are removed. -/
def dropBytes : Nat → List Char → List Char
  | _, [] => []
  | n, c :: cs => if c.utf8Size ≤ n then dropBytes (n - c.utf8Size) cs else c :: cs

theorem takeBytes_append_dropBytes (n : Nat) (cs : List Char) :
    takeBytes n cs ++ dropBytes n cs = cs := by
  induction cs generalizing n with
  | nil => rfl
  | cons c cs ih =>
    simp only [takeBytes, dropBytes]
    split <;> simp [ih]

@[simp]
theorem takeBytes_size_append (xs ys : List Char) : takeBytes (size xs) (xs ++ ys) = xs := by
  induction xs with
  | nil =>
    cases ys with
    | nil => rfl
    | cons y ys =>
      have := Char.utf8Size_pos y
      simp only [size, List.nil_append, takeBytes]
      rw [if_neg (by omega)]
  | cons x xs ih =>
    simp only [size, List.cons_append, takeBytes]
    rw [if_pos (by omega), Nat.add_sub_cancel_left, ih]

@[simp]
theorem dropBytes_size_append (xs ys : List Char) : dropBytes (size xs) (xs ++ ys) = ys := by
  have h := takeBytes_append_dropBytes (size xs) (xs ++ ys)
  rw [takeBytes_size_append] at h
  exact List.append_cancel_left h

/-- A range of byte offsets; `stop` is the first offset after the range. -/
structure Span where
  start : Nat
  stop : Nat
  deriving DecidableEq

/-- The part of a text that a span names. -/
def Span.slice (s : Span) (cs : List Char) : List Char :=
  takeBytes (s.stop - s.start) (dropBytes s.start cs)

theorem slice_append (xs ys zs : List Char) :
    Span.slice ⟨size xs, size xs + size ys⟩ (xs ++ ys ++ zs) = ys := by
  simp [Span.slice, List.append_assoc]

end Stencil.Text
