/-!
# Blank characters

Two notions of blank are in use and must not be mixed up. The content of a tag is trimmed
of the characters with the Unicode property `White_Space`; a line counts as blank only if
it consists of spaces, tabs and line breaks.

## Main definitions

* `isSpace` — the Unicode property `White_Space`.
* `isBlank` — space, tab, carriage return and line feed.
* `trim`, `trimStart` — a text without the white space at its ends.
* `words` — the maximal runs of a text without white space.

## Main results

* `head?_trimStart_append` — the first character of a text that is not white space, by parts.
-/

namespace Stencil.Text

/-- The Unicode property `White_Space`. -/
def isSpace (c : Char) : Bool :=
  let n := c.toNat
  (0x09 ≤ n && n ≤ 0x0D) || n = 0x20 || n = 0x85 || n = 0xA0 || n = 0x1680 ||
    (0x2000 ≤ n && n ≤ 0x200A) || n = 0x2028 || n = 0x2029 || n = 0x202F || n = 0x205F ||
    n = 0x3000

/-- The characters that may stand beside a tag that is alone on its line. -/
def isBlank (c : Char) : Bool :=
  c = ' ' || c = '\t' || c = '\r' || c = '\n'

/-- The text without leading white space. -/
def trimStart (cs : List Char) : List Char :=
  cs.dropWhile isSpace

/-- The first character of a text that is not white space comes from its first part, if that
part has one. -/
theorem head?_trimStart_append (cs ds : List Char) :
    (trimStart (cs ++ ds)).head? = (trimStart cs).head?.or (trimStart ds).head? := by
  induction cs with
  | nil => rfl
  | cons c cs ih => by_cases h : isSpace c <;> simp_all [trimStart]

/-- The text without trailing white space. -/
def trimEnd (cs : List Char) : List Char :=
  (cs.reverse.dropWhile isSpace).reverse

/-- The text without white space at either end. -/
def trim (cs : List Char) : List Char :=
  trimEnd (trimStart cs)

/-- The maximal runs of characters that are not white space, in order. -/
def words : List Char → List (List Char)
  | [] => []
  | c :: rest =>
    if isSpace c then words rest
    else
      match rest with
      | [] => [[c]]
      | d :: more =>
        if isSpace d then [c] :: words (d :: more)
        else
          match words (d :: more) with
          | [] => [[c]]
          | w :: ws => (c :: w) :: ws

end Stencil.Text
