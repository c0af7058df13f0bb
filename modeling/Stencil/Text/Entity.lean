/-!
# Character entities

The four characters that would be read as markup are written as entities.

## Main definitions

* `escapeChar`, `escape` — a character and a text with entities in place of markup.

## Main results

* `escape_append` — escaping goes character by character.
-/

namespace Stencil.Text

/-- The entity for a character that would be read as markup, else the character. -/
def escapeChar (c : Char) : List Char :=
  if c = '&' then ['&', 'a', 'm', 'p', ';']
  else if c = '<' then ['&', 'l', 't', ';']
  else if c = '>' then ['&', 'g', 't', ';']
  else if c = '"' then ['&', 'q', 'u', 'o', 't', ';']
  else [c]

/-- The text with entities in place of markup. -/
def escape (cs : List Char) : List Char :=
  cs.flatMap escapeChar

@[simp]
theorem escape_append (xs ys : List Char) : escape (xs ++ ys) = escape xs ++ escape ys :=
  List.flatMap_append

end Stencil.Text
