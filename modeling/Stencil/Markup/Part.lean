import Stencil.Markup.Row

/-!
# What a row contributes

A row that holds one tag and else only blanks gives just the tag, provided the tag shows
no data: the blanks and the line break go with it. Every other row gives all of its text
and tags.

## Main definitions

* `Part` — text, or a tag with the blanks that indent it.
* `standalone?` — the tag that takes its row with it.
* `partsOfRow` — what a row contributes.
-/

namespace Stencil.Markup

open Stencil.Text

/-- What a row contributes: text, or a tag with the blanks that indent it. -/
inductive Part where
  | text (content : List Char)
  | tag (tag : Tag) (span : Span) (indent : List Char)
  deriving DecidableEq

/-- The part that an item gives in a row where no tag stands alone. -/
def partOfItem : Item → Part
  | .text content => .text content
  | .tag tag span => .tag tag span []

/-- Whether an item is text made of blanks. -/
def isBlankText : Item → Bool
  | .text content => content.all isBlank
  | .tag _ _ => false

/-- The tag of a row that holds nothing else but blanks, if the tag may stand alone. The
text in front of it is its indentation. -/
def standalone? (row : Row) : Option Part :=
  match row.dropWhile isBlankText with
  | .tag tag span :: rest =>
    if tag.standsAlone && rest.all isBlankText then
      match row.takeWhile isBlankText with
      | [.text indent] => some (.tag tag span indent)
      | _ => some (.tag tag span [])
    else none
  | _ => none

/-- What a row contributes. -/
def partsOfRow (row : Row) : List Part :=
  match standalone? row with
  | some part => [part]
  | none => row.map partOfItem

end Stencil.Markup
