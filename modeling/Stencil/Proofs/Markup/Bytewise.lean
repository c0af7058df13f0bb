import Mathlib.Tactic.Lemma
import Stencil.Proofs.Markup.Places
import Stencil.Proofs.Text.Cuts

/-!
# Lexing by byte offsets

A line can be lexed without taking it apart: the lexer is told at which offset to go on, looks for
delimiters from there, and notes the ranges of what it finds, in offsets of the whole template. A
tag that a line leaves open is noted with the offsets of its opener and of its body.

Each offset is that of a place between characters, since the scanner stands behind the part that
it has gone through. So all cuts go through, and what is found is what the scanner finds.

## Main definitions

* `ByteLexer`, `BytePiece` — a lexer that keeps offsets, and the ranges of what it finds.
* `ByteLexer.parse` — lexes a line from an offset on, with checks.
* `classify` — tells what a tag says, with a check.
* `Scanner.marked`, `Piece.marked` — scanners and pieces as offsets.

## Main results

* `Delimiters.findOpener_eq` — the first opener is found by its offset.
* `ByteLexer.parse_marked` — lexing by offsets does what a step of the scanner does.
* `classify_eq` — telling what a tag says meets no case that was left out.
-/

namespace Stencil.Markup

open Stencil.Text

/-! ## Lexers -/

/-- A tag that is open, noted by offsets in the template. -/
structure Mark where
  triple : Bool
  /-- The offset of the opener. -/
  start : Nat
  /-- The offset behind the opener. -/
  body : Nat
  deriving DecidableEq

/-- A lexer that keeps offsets. -/
structure ByteLexer where
  delimiters : Delimiters
  inside : Option Mark
  deriving DecidableEq

/-- The range of a text, or those of the body of a tag and of the whole tag. -/
inductive BytePiece where
  | text (span : Span)
  | tag (triple : Bool) (body span : Span)
  deriving DecidableEq

/-- The offset of the first occurrence of a pattern. -/
def find (pattern cs : List Char) : Option Nat :=
  (cutAt pattern cs).map fun parts => size parts.1

/-- The offset of the first opener, and the form of the tag that starts there. Where both openers
are found at the same offset, the active one only counts if it is longer. -/
def Delimiters.findOpener (d : Delimiters) (cs : List Char) : Option (Nat × Bool) :=
  match find d.opener cs, find tripleOpener cs with
  | some active, some triple =>
    if active < triple then some (active, false)
    else if active = triple then some (active, decide (size d.opener ≤ size tripleOpener))
    else some (triple, true)
  | none, some triple => some (triple, true)
  | some active, none => some (active, false)
  | none, none => none

namespace ByteLexer

/-- Lexes a line from an offset on, outside of tags. The line starts at the given offset of the
template. Returns the offset at which to go on, and what was found. -/
def parseText (l : ByteLexer) (line : List Char) (offset pos : Nat) :
    Checked (ByteLexer × Nat × Option BytePiece) := do
  let rest ← dropAt pos line
  match l.delimiters.findOpener rest with
  | some (0, triple) =>
    let opener := size (l.delimiters.opening triple)
    return ({ l with inside := some ⟨triple, offset + pos, offset + pos + opener⟩ },
      pos + opener, none)
  | some (j, _) =>
    let span ← Span.checked (offset + pos) (offset + (pos + j))
    return (l, pos + j, some (.text span))
  | none =>
    if rest.isEmpty then
      return (l, size line, none)
    let span ← Span.checked (offset + pos) (offset + size line)
    return (l, size line, some (.text span))

/-- Lexes a line from an offset on. -/
def parse (l : ByteLexer) (line : List Char) (offset pos : Nat) :
    Checked (ByteLexer × Nat × Option BytePiece) :=
  match l.inside with
  | none => l.parseText line offset pos
  | some mark => do
    let rest ← dropAt pos line
    let closer := l.delimiters.closing mark.triple
    match find closer rest with
    | none => return (l, size line, none)
    | some j =>
      let body ← Span.checked mark.body (offset + (pos + j))
      let span ← Span.checked mark.start (offset + (pos + j + size closer))
      return ({ l with inside := none }, pos + j + size closer, some (.tag mark.triple body span))

/-- The range of the body of the tag that is open, up to an offset. -/
def partialBody (l : ByteLexer) (stop : Nat) : Checked (Option Span) :=
  match l.inside with
  | none => .ok none
  | some mark => some <$> Span.checked mark.body stop

end ByteLexer

/-! ## Scanners as lexers -/

/-- What a scanner keeps, noted by offsets. -/
def Scanner.marked (s : Scanner) : ByteLexer where
  delimiters := s.delimiters
  inside := s.inside.map fun t =>
    ⟨t.triple, t.start, t.start + size (s.delimiters.opening t.triple)⟩

/-- The ranges of a piece. -/
def Piece.marked : Piece → BytePiece
  | .text start content => .text ⟨start, start + size content⟩
  | .tag start triple opener body closer =>
    .tag triple ⟨start + size opener, start + size opener + size body⟩
      ⟨start, start + size (opener ++ body ++ closer)⟩

/-- Of two texts in front of the same text, the one with fewer bytes has fewer characters. -/
lemma size_lt_iff_of_prefix {xs ys cs : List Char} (hx : xs <+: cs) (hy : ys <+: cs) :
    size xs < size ys ↔ xs.length < ys.length := by
  rcases Nat.le_total xs.length ys.length with hle | hle
  · obtain ⟨more, rfl⟩ := List.prefix_of_prefix_length_le hx hy hle
    rw [size_append, List.length_append]
    cases more with
    | nil => simp [size]
    | cons c more =>
      have := size_pos (List.cons_ne_nil c more)
      simp only [List.length_cons]
      omega
  · obtain ⟨more, rfl⟩ := List.prefix_of_prefix_length_le hy hx hle
    simp only [size_append, List.length_append]
    omega

/-- **The first opener is found by its offset.**

**Proof sketch.** Two searches and a comparison find it by the number of characters in front of
it. What stands in front of the two openers are both texts in front of the same text, so there
are fewer bytes where there are fewer characters. -/
theorem Delimiters.findOpener_eq {d : Delimiters} (hd : d.IsProper) (cs : List Char) :
    d.findOpener cs = (d.cutAtOpener cs).map fun parts => (size parts.1, parts.2.1) := by
  have hfirst : d.findOpener cs = (firstOpener d cs).map fun parts => (size parts.1, parts.2) := by
    rw [findOpener, firstOpener, find, find]
    cases hactive : cutAt d.opener cs with
    | none => cases cutAt tripleOpener cs <;> rfl
    | some active =>
      cases htriple : cutAt tripleOpener cs with
      | none => rfl
      | some triple =>
        obtain ⟨front, back⟩ := active
        obtain ⟨front', back'⟩ := triple
        have hcut := cutAt_append hactive
        have hcut' := cutAt_append htriple
        rw [List.append_assoc] at hcut hcut'
        have hprefix : front <+: cs := ⟨_, hcut⟩
        have hprefix' : front' <+: cs := ⟨_, hcut'⟩
        have hlt := size_lt_iff_of_prefix hprefix hprefix'
        have hgt := size_lt_iff_of_prefix hprefix' hprefix
        simp only [Option.map_some]
        by_cases h : front.length < front'.length
        · rw [if_pos (hlt.2 h), if_pos h]
          rfl
        · by_cases h' : front'.length < front.length
          · have hne : ¬size front = size front' := by
              have := hgt.2 h'
              omega
            rw [if_neg (mt hlt.1 h), if_neg hne, if_neg h, if_pos h']
            rfl
          · -- both openers stand at the same place, in front of the same text
            have hlength : front.length = front'.length := by omega
            obtain rfl : front = front' :=
              (List.prefix_of_prefix_length_le hprefix hprefix' (by omega)).eq_of_length hlength
            have hsame := List.append_cancel_left (hcut.trans hcut'.symm)
            have htie : size tripleOpener < size d.opener ↔
                tripleOpener.length < d.opener.length :=
              size_lt_iff_of_prefix (List.prefix_append tripleOpener back') ⟨back, hsame⟩
            have hdecide : decide (size d.opener ≤ size tripleOpener) =
                decide (d.opener.length ≤ tripleOpener.length) := by
              rw [decide_eq_decide]
              omega
            simp [hdecide]
  rw [hfirst, firstOpener_eq hd, Option.map_map]
  rfl

namespace ByteLexer

variable {s : Scanner} {front done rest used : List Char}

/-- **Lexing by offsets does what a step of the scanner does.** The line is what was lexed and the
rest, and it stands behind the part of the template in front.

**Proof sketch.** The offset lies behind what was lexed, so the cut goes through. The offsets of
what is found add up to those of the scanner, which stands behind the part in front and what was
lexed. -/
theorem parse_marked (hd : s.delimiters.IsProper) (h : s.StandsBehind (front ++ done))
    (hne : rest ≠ []) (hused : rest = used ++ (s.next rest).2.2) :
    s.marked.parse (done ++ rest) (size front) (size done) =
      .ok ((s.next rest).1.marked, size (done ++ used), (s.next rest).2.1.map Piece.marked) := by
  have hoffset : s.offset = size front + size done := by rw [h.offset_eq, size_append]
  unfold Scanner.next at hused ⊢
  cases hinside : s.inside with
  | none =>
    simp only [hinside] at hused ⊢
    have hmarked : s.marked.inside = none := by simp [Scanner.marked, hinside]
    simp only [parse, hmarked, parseText, dropAt_size_append, bind, Except.bind]
    rw [show s.marked.delimiters = s.delimiters from rfl, Delimiters.findOpener_eq hd]
    cases hcut : s.delimiters.cutAtOpener rest with
    | none =>
      simp only [hcut, List.append_nil] at hused ⊢
      subst hused
      have hempty : rest.isEmpty = false := by simpa using hne
      have hle : size front + size done ≤ size front + size (done ++ rest) := by simp
      simp only [Option.map_none, hempty, Span.checked_of_le hle]
      simp [Scanner.marked, hinside, Piece.marked, hoffset, pure, Except.pure, Nat.add_assoc]
    | some parts =>
      obtain ⟨before, triple, found⟩ := parts
      obtain ⟨hall, after, rfl⟩ := Delimiters.cutAtOpener_append hcut
      cases before with
      | nil =>
        simp only [hcut, List.drop_left] at hused ⊢
        obtain rfl : s.delimiters.opening triple = used :=
          List.append_cancel_right (hall.trans hused)
        simp [Scanner.marked, OpenTag.ofOpener, hoffset, size, pure, Except.pure]
      | cons c before =>
        simp only [hcut] at hused ⊢
        obtain rfl : c :: before = used := List.append_cancel_right (hall.trans hused)
        have hpos := size_pos (List.cons_ne_nil c before)
        obtain ⟨n, hn⟩ : ∃ n, size (c :: before) = n + 1 := ⟨size (c :: before) - 1, by omega⟩
        have hle : size front + size done ≤ size front + (size done + (n + 1)) := by omega
        simp only [Option.map_some, hn, Span.checked_of_le hle]
        simp [Scanner.marked, hinside, Piece.marked, hoffset, hn, pure, Except.pure, Nat.add_assoc]
  | some t =>
    simp only [hinside] at hused ⊢
    obtain ⟨before, hfront, hstart⟩ := h.inside t hinside
    have hsize : size front + size done =
        t.start + size (s.delimiters.opening t.triple) + size t.body := by
      rw [← size_append, hfront, hstart]
      simp [Nat.add_assoc]
    have hmarked : s.marked.inside =
        some ⟨t.triple, t.start, t.start + size (s.delimiters.opening t.triple)⟩ := by
      simp [Scanner.marked, hinside]
    simp only [parse, hmarked, dropAt_size_append, bind, Except.bind]
    rw [show s.marked.delimiters = s.delimiters from rfl, find]
    cases hcut : cutAt (s.delimiters.closing t.triple) rest with
    | none =>
      simp only [hcut, List.append_nil] at hused ⊢
      subst hused
      simp [Scanner.marked, hinside, OpenTag.extend, pure, Except.pure]
    | some parts =>
      obtain ⟨body, after⟩ := parts
      simp only [hcut] at hused ⊢
      obtain rfl : body ++ s.delimiters.closing t.triple = used :=
        List.append_cancel_right ((cutAt_append hcut).trans hused)
      have hbody : t.start + size (s.delimiters.opening t.triple) ≤
          size front + (size done + size body) := by omega
      have hspan : t.start ≤
          size front + (size done + size body + size (s.delimiters.closing t.triple)) := by omega
      simp only [Option.map_some, Span.checked_of_le hbody, Span.checked_of_le hspan]
      simp only [Scanner.marked, Piece.marked, pure, Except.pure, size_append, Option.map_none,
        Except.ok.injEq, Prod.mk.injEq, true_and, Option.some.injEq,
        BytePiece.tag.injEq, Span.mk.injEq]
      omega

end ByteLexer

/-! ## What a tag says -/

/-- The character that tells the kind of a tag, if there is one, and what follows it. -/
def tokenOf : List Char → Option Char × List Char
  | [] => (none, [])
  | c :: rest =>
    if ['&', '#', '^', '/', '>', '=', '!'].contains c then (some c, rest) else (none, c :: rest)

/-- What a tag of a kind says. -/
def classifyAs (content : List Char) : Option Char → Checked (Except TagFault Tag)
  | none => .ok ((Tag.interpolation true) <$> pathOfContent content)
  | some '&' => .ok ((Tag.interpolation false) <$> pathOfContent (trim content))
  | some '#' => .ok ((Tag.opening false) <$> pathOfContent (trim content))
  | some '^' => .ok ((Tag.opening true) <$> pathOfContent (trim content))
  | some '/' => .ok (Tag.closing <$> pathOfContent (trim content))
  | some '>' =>
    let name := trim content
    .ok (if name.isEmpty then .error .missingName else .ok (.inclusion (String.ofList name)))
  | some '=' => .ok (Tag.delimiters <$> Delimiters.ofDirective content)
  | some '!' => .ok (.ok .comment)
  | some _ => .error .unreachable

/-- What the tag with a body in the given range says. -/
def classify (source : List Char) (triple : Bool) (body : Span) :
    Checked (Except TagFault Tag) := do
  let raw := trim (← body.sliceAt source)
  if triple then
    return (Tag.interpolation false) <$> pathOfContent raw
  let (token, content) := tokenOf raw
  classifyAs content token

/-- **Telling what a tag says meets no case that was left out**, and cuts its body between
characters if the range is that of a body. -/
theorem classify_eq {source body : List Char} {span : Span} (triple : Bool)
    (h : span.Covers source body) : classify source triple span = .ok (Tag.ofBody triple body) := by
  rw [classify, Span.sliceAt_eq_ok_iff.2 h]
  simp only [bind, Except.bind, Tag.ofBody]
  cases triple with
  | true => rfl
  | false =>
    simp only [Bool.false_eq_true, if_false]
    generalize trim body = raw
    cases raw with
    | nil => rfl
    | cons c rest =>
      simp only [tokenOf]
      split
      · rename_i htoken
        have hcases : c = '&' ∨ c = '#' ∨ c = '^' ∨ c = '/' ∨ c = '>' ∨ c = '=' ∨ c = '!' := by
          simpa using htoken
        rcases hcases with rfl | rfl | rfl | rfl | rfl | rfl | rfl <;> rfl
      · rename_i htoken
        -- none of the kinds that have a character of their own comes up
        simp only [classifyAs]
        split <;> first
          | rfl
          | rename_i heq
            obtain ⟨rfl, -⟩ := List.cons.inj heq
            simp at htoken

end Stencil.Markup
