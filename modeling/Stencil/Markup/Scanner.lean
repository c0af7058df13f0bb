import Stencil.Markup.Delimiters
import Stencil.Text.Blank
import Stencil.Text.Span

/-!
# Scanning a text for tags

A scanner cuts a text into pieces, literal text and whole tags. It is fed one line at a
time and remembers a tag that a line leaves open, so that a later line can close it.

## Main definitions

* `Piece` — literal text or a whole tag, with the offset at which it starts.
* `OpenTag` — a tag without its closer, which takes in its body part by part.
* `Scanner` — the delimiters, the offset reached, and the tag that is open, if any.
* `Scanner.next` — one step over the rest of a line.

## Main results

* `OpenTag.body_extend` — a part taken in stands behind the body so far.
* `Scanner.next_delimiters` — a step leaves the delimiters as they are.
* `Scanner.next_length_lt` — between proper delimiters, a step over a non-empty rest leaves
  a shorter one.
-/

namespace Stencil.Markup

open Stencil.Text

/-- A part of a template: literal text, or a tag with its two delimiters. -/
inductive Piece where
  | text (start : Nat) (content : List Char)
  | tag (start : Nat) (triple : Bool) (opener body closer : List Char)
  deriving DecidableEq

namespace Piece

/-- The characters that a piece covers. -/
def content : Piece → List Char
  | text _ content => content
  | tag _ _ opener body closer => opener ++ body ++ closer

/-- The offset at which a piece starts. -/
def start : Piece → Nat
  | text start _ => start
  | tag start _ _ _ _ => start

/-- The range that a piece covers. -/
def span (p : Piece) : Span := ⟨p.start, p.start + size p.content⟩

end Piece

/-- A tag whose closer has not been met yet, with the part of its body read so far. -/
structure OpenTag where
  start : Nat
  triple : Bool
  /-- The body so far, the last character first. -/
  recent : List Char
  /-- The first character of the body so far that is not white space. -/
  lead : Option Char
  lead_eq : lead = (trimStart recent.reverse).head?
  deriving DecidableEq

namespace OpenTag

/-- The tag of which only the opener has been read. -/
def ofOpener (start : Nat) (triple : Bool) : OpenTag := ⟨start, triple, [], none, rfl⟩

/-- The body so far. -/
def body (t : OpenTag) : List Char := t.recent.reverse

/-- The tag after a further part of its body. -/
def extend (t : OpenTag) (part : List Char) : OpenTag where
  start := t.start
  triple := t.triple
  recent := part.reverse ++ t.recent
  lead := t.lead.or (trimStart part).head?
  lead_eq := by simp [t.lead_eq, head?_trimStart_append]

@[simp]
theorem body_ofOpener (start : Nat) (triple : Bool) : (ofOpener start triple).body = [] := rfl

@[simp]
theorem body_extend (t : OpenTag) (part : List Char) :
    (t.extend part).body = t.body ++ part := by
  simp [body, extend]

end OpenTag

/-- The state of scanning at the offset reached. -/
structure Scanner where
  delimiters : Delimiters
  offset : Nat
  inside : Option OpenTag
  deriving DecidableEq

namespace Scanner

/-- The scanner at the start of a template. -/
def initial : Scanner := ⟨.standard, 0, none⟩

/-- One step over the rest of a line: the scanner after it, the piece that it completed,
and what is then left of the line. Literal text before a tag is a piece of its own; the
next step then enters the tag without completing a piece. -/
def next (s : Scanner) (rest : List Char) : Scanner × Option Piece × List Char :=
  match s.inside with
  | none =>
    match s.delimiters.cutAtOpener rest with
    | none => ({ s with offset := s.offset + size rest }, some (.text s.offset rest), [])
    | some ([], triple, found) =>
      ({ s with offset := s.offset + size (s.delimiters.opening triple),
                inside := some (.ofOpener s.offset triple) },
        none, found.drop (s.delimiters.opening triple).length)
    | some (c :: before, _, found) =>
      ({ s with offset := s.offset + size (c :: before) }, some (.text s.offset (c :: before)),
        found)
  | some tag =>
    match cutAt (s.delimiters.closing tag.triple) rest with
    | none =>
      ({ s with offset := s.offset + size rest, inside := some (tag.extend rest) }, none, [])
    | some (before, after) =>
      ({ s with offset := s.offset + size (before ++ s.delimiters.closing tag.triple),
                inside := none },
        some (.tag tag.start tag.triple (s.delimiters.opening tag.triple) (tag.body ++ before)
          (s.delimiters.closing tag.triple)),
        after)

@[simp]
theorem next_delimiters (s : Scanner) (rest : List Char) :
    (s.next rest).1.delimiters = s.delimiters := by
  unfold next
  split <;> split <;> rfl

/-- Every step between proper delimiters uses up a part of the line. -/
theorem next_length_lt (s : Scanner) (hd : s.delimiters.IsProper) {rest : List Char}
    (h : rest ≠ []) : (s.next rest).2.2.length < rest.length := by
  have hpos := List.length_pos_iff.2 h
  unfold next
  split
  · split
    · exact hpos
    · rename_i triple found hcut
      have ⟨hall, hopen⟩ := Delimiters.cutAtOpener_append hcut
      have hne := List.length_pos_iff.2 (Delimiters.opening_ne_nil hd triple)
      simp only [List.nil_append] at hall
      simp only [hall, List.length_drop]
      omega
    · rename_i c before triple found hcut
      have ⟨hall, _⟩ := Delimiters.cutAtOpener_append hcut
      simp only [← hall, List.cons_append, List.length_cons, List.length_append]
      omega
  · split
    · exact hpos
    · rename_i before after hcut
      exact cutAt_length_lt (Delimiters.closing_ne_nil hd _) hcut

end Scanner

end Stencil.Markup
