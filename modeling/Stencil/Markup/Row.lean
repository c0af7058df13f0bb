import Stencil.Markup.Scanner
import Stencil.Markup.Tag
import Stencil.Text.Lines

/-!
# Rows of a template

A row is a line of a template as its reader sees it: a tag may run over a line end, and
the lines that it joins are then one row. Tags are read as soon as they are complete,
since a change of delimiters already counts for the rest of its line. Only a comment may
run over a line end, and the delimiters may not change inside a section.

## Main definitions

* `Item`, `Row` — literal text or a tag, and a list of them.
* `Reader` — the state of reading in the middle of a template.
* `Reading` — the complete rows, and how the template ends.
* `Reading.ofText` — reads a whole template.
-/

namespace Stencil.Markup

open Stencil.Text

/-- A part of a row: literal text, or a tag with the range that it covers. -/
inductive Item where
  | text (content : List Char)
  | tag (tag : Tag) (span : Span)
  deriving DecidableEq

/-- The parts of a row in order. -/
abbrev Row := List Item

/-- The ways in which the tags of a template can be malformed. -/
inductive MarkupFault where
  /-- The body of a tag is malformed. -/
  | tag (fault : TagFault)
  /-- A tag lacks its closer. -/
  | unterminated
  /-- The delimiters change while a section is open. -/
  | delimitersInSection
  deriving DecidableEq

/-- A fault with the range of the template that shows it. -/
structure MarkupError where
  fault : MarkupFault
  span : Span
  deriving DecidableEq

/-- Whether an open tag is a comment, as far as its body has been read. -/
def OpenTag.isComment (t : OpenTag) : Bool := t.lead = some '!'

theorem OpenTag.isComment_eq (t : OpenTag) : t.isComment = startsComment t.body := by
  rw [isComment, startsComment, body, ← t.lead_eq]

/-- The state of reading a template. -/
structure Reader where
  scanner : Scanner
  proper : scanner.delimiters.IsProper
  /-- The section tags that are open, innermost first. -/
  opened : List Span
  /-- The items of the row so far, the last one first. -/
  recent : List Item
  deriving DecidableEq

namespace Reader

/-- The reader at the start of a template. -/
def initial : Reader := ⟨.initial, Delimiters.standard_isProper, [], []⟩

/-- The row so far. -/
def row (r : Reader) : Row := r.recent.reverse

/-- Takes in a tag. -/
def acceptTag (r : Reader) (tag : Tag) (span : Span) : Except MarkupError Reader :=
  let r' := { r with recent := .tag tag span :: r.recent }
  match tag with
  | .opening _ _ => .ok { r' with opened := span :: r.opened }
  | .closing _ => .ok { r' with opened := r.opened.tail }
  | .delimiters pair =>
    if r.opened.isEmpty then
      .ok { r' with scanner := { r.scanner with delimiters := pair.val }, proper := pair.property }
    else .error ⟨.delimitersInSection, span⟩
  | _ => .ok r'

/-- Takes in a piece. -/
def accept (r : Reader) (piece : Piece) : Except MarkupError Reader :=
  match piece with
  | .text _ content => .ok { r with recent := .text content :: r.recent }
  | .tag _ triple _ body _ =>
    match Tag.ofBody triple body with
    | .ok tag => r.acceptTag tag piece.span
    | .error fault => .error ⟨.tag fault, piece.span⟩

/-- Takes in the piece that a step of scanning completed, if it completed one. -/
def accept? (r : Reader) : Option Piece → Except MarkupError Reader
  | none => .ok r
  | some piece => r.accept piece

/-- The reader after a step of scanning, before it takes in what the step completed. -/
def scanned (r : Reader) (rest : List Char) : Reader :=
  { r with scanner := (r.scanner.next rest).1
           proper := by simpa using r.proper }

/-- Reads the rest of a line. -/
def readLine (r : Reader) (rest : List Char) : Except MarkupError Reader :=
  if _h : rest = [] then .ok r
  else
    let step := r.scanner.next rest
    match (r.scanned rest).accept? step.2.1 with
    | .error e => .error e
    | .ok r' => r'.readLine step.2.2
termination_by rest.length
decreasing_by exact Scanner.next_length_lt _ r.proper ‹_›

end Reader

/-- What reading a template yields: the rows that are complete, and either the fault at
which reading stopped or the section tags that are still open, innermost first. -/
structure Reading where
  rows : List Row
  ending : Except MarkupError (List Span)

/-- Reads a list of lines. -/
def Reader.readLines (r : Reader) : List (List Char) → Reading
  | [] =>
    match r.scanner.inside with
    | some tag => ⟨[], .error ⟨.unterminated, ⟨tag.start, r.scanner.offset⟩⟩⟩
    | none => ⟨[], .ok r.opened⟩
  | line :: more =>
    match r.readLine line with
    | .error e => ⟨[], .error e⟩
    | .ok r' =>
      match r'.scanner.inside with
      | some tag =>
        if tag.isComment then r'.readLines more
        else
          ⟨[], .error ⟨.unterminated, ⟨tag.start, r.scanner.offset + size (dropEnding line)⟩⟩⟩
      | none =>
        let reading := readLines { r' with recent := [] } more
        { reading with rows := r'.row :: reading.rows }

/-- Reads a whole template. -/
def Reading.ofText (cs : List Char) : Reading :=
  Reader.initial.readLines (lines cs)

end Stencil.Markup
