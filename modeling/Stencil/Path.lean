/-!
# Dot paths

A tag names data by a path: identifiers joined by dots, or a lone dot for the data at
hand. A path is its list of identifiers; its text is made from them, so that two paths
are equal exactly when their texts are.

## Main definitions

* `Path` — a list of identifiers.
* `Path.text` — the written form.
* `Path.ofText?` — reads the written form and nothing else.
-/

namespace Stencil

/-- The characters with which an identifier starts. -/
def isIdentStart (c : Char) : Bool :=
  ('A' ≤ c && c ≤ 'Z') || ('a' ≤ c && c ≤ 'z') || c = '_'

/-- The characters with which an identifier goes on. -/
def isIdentRest (c : Char) : Bool :=
  ('0' ≤ c && c ≤ '9') || isIdentStart c

/-- Whether a text is an identifier: a letter or underscore, then letters, digits and
underscores, all of them ASCII. -/
def isIdent : List Char → Bool
  | [] => false
  | c :: cs => isIdentStart c && cs.all isIdentRest

/-- A path into data. The empty path stands for the data at hand. -/
structure Path where
  /-- The identifiers, outermost first. -/
  segments : List String
  segments_isIdent : ∀ s ∈ segments, isIdent s.toList = true
  deriving DecidableEq

/-- The parts of a text between its dots; there is one more part than there are dots. -/
def splitDots : List Char → List (List Char)
  | [] => [[]]
  | c :: cs =>
    if c = '.' then [] :: splitDots cs
    else
      match splitDots cs with
      | [] => [[c]]
      | part :: parts => (c :: part) :: parts

namespace Path

/-- The path that stands for the data at hand. -/
def self : Path := ⟨[], by simp⟩

/-- Whether a path stands for the data at hand. -/
def isSelf (p : Path) : Bool := p.segments.isEmpty

/-- The first identifier of a path. -/
def base? (p : Path) : Option String := p.segments.head?

/-- The written form: a lone dot, or the identifiers joined by dots. -/
def text (p : Path) : String :=
  if p.isSelf then "." else ".".intercalate p.segments

/-- Reads the written form of a path. -/
def ofText? (s : String) : Option Path :=
  if s = "." then some self
  else
    let segments := (splitDots s.toList).map String.ofList
    if h : ∀ t ∈ segments, isIdent t.toList = true then some ⟨segments, h⟩ else none

end Path

end Stencil
