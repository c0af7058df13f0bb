import Stencil.Markup.Delimiters
import Stencil.Path
import Stencil.Text.Blank

/-!
# Tags

What a tag says. The first character of its body, white space aside, tells the kinds of
tag apart; a tag in triple braces always shows data without escaping.

## Main definitions

* `Tag` — the kinds of tag and their contents.
* `TagFault` — the ways in which a body can be malformed.
* `Tag.ofBody` — reads the body of a tag.
* `Tag.standsAlone` — the kinds that take their line with them.
-/

namespace Stencil.Markup

open Stencil.Text

/-- What a tag says. -/
inductive Tag where
  /-- Shows data, with or without escaping. -/
  | interpolation (escaped : Bool) (path : Path)
  /-- Starts a section, or an inverted section. -/
  | opening (inverted : Bool) (path : Path)
  /-- Ends a section. -/
  | closing (path : Path)
  /-- Includes another template. -/
  | inclusion (name : String)
  /-- Changes the delimiters for what follows. -/
  | delimiters (pair : ProperDelimiters)
  /-- Says nothing. -/
  | comment
  deriving DecidableEq

/-- The ways in which the body of a tag can be malformed. -/
inductive TagFault where
  | empty
  | invalidContent (content : List Char)
  | missingName
  | invalidDirective (content : List Char)
  | tripleDelimiters
  deriving DecidableEq

/-- The path that the content of a tag names. -/
def pathOfContent (content : List Char) : Except TagFault Path :=
  if content.isEmpty then .error .empty
  else
    match Path.ofText? (String.ofList content) with
    | some path => .ok path
    | none => .error (.invalidContent content)

/-- The pair that a directive announces, given what follows its first equals sign: two
words and a final equals sign, neither word holding an equals sign or being one of the
triple delimiters. -/
def Delimiters.ofDirective (content : List Char) : Except TagFault ProperDelimiters :=
  match content.getLast? with
  | some '=' =>
    match words content.dropLast with
    | [opener, closer] =>
      if h : opener ≠ [] ∧ closer ≠ [] then
        if opener.contains '=' || closer.contains '=' then .error (.invalidDirective content)
        else if opener = tripleOpener || closer = tripleCloser then .error .tripleDelimiters
        else .ok ⟨⟨opener, closer⟩, h⟩
      else .error (.invalidDirective content)
    | _ => .error (.invalidDirective content)
  | _ => .error (.invalidDirective content)

namespace Tag

/-- Reads the body of a tag, the text between its delimiters. -/
def ofBody (triple : Bool) (body : List Char) : Except TagFault Tag :=
  let content := trim body
  if triple then (interpolation false) <$> pathOfContent content
  else
    match content with
    | '&' :: rest => (interpolation false) <$> pathOfContent (trim rest)
    | '#' :: rest => (opening false) <$> pathOfContent (trim rest)
    | '^' :: rest => (opening true) <$> pathOfContent (trim rest)
    | '/' :: rest => closing <$> pathOfContent (trim rest)
    | '>' :: rest =>
      let name := trim rest
      if name.isEmpty then .error .missingName else .ok (inclusion (String.ofList name))
    | '=' :: rest => delimiters <$> Delimiters.ofDirective rest
    | '!' :: _ => .ok comment
    | _ => (interpolation true) <$> pathOfContent content

/-- Whether the tag, when nothing but blanks stands on its line, takes the line with it. -/
def standsAlone : Tag → Bool
  | interpolation _ _ => false
  | _ => true

end Tag

/-- Whether the body of a tag, as far as it has been read, is that of a comment. -/
def startsComment (body : List Char) : Bool :=
  (trimStart body).head? = some '!'

end Stencil.Markup
