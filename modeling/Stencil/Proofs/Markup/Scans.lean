import Mathlib.Tactic.Lemma
import Stencil.Proofs.Markup.Steps

/-!
# Scanning line by line and at once

A template is lexed line by line. What a line leaves open is carried over to the next line, and
a directive changes the delimiters for the rest of its line already. A scan of the whole template
knows nothing of lines: it looks for the first opener and then for the first closer behind it.
Both give the same pieces, since no delimiter holds a line break.

## Main definitions

* `Lexer`, `Lexer.lexLine`, `Lexer.lexLines` — lexing line by line.
* `mergeTexts` — pieces of text that lie side by side are put together.
* `firstOpener` — the first opener of a text, found by one search for each form.
* `scan` — the scan of a whole template.

## Main results

* `firstOpener_eq` — two searches and a comparison find the opener that comes first.
* `Lexer.upcoming_next` — a step over a line keeps what a scan of all that follows will find.
* `Lexer.upcoming_lexLines` — lexing lines keeps it too.
* `scan_placed` — each piece of a scan lies where its range says.
* `lexLines_lines_eq_scan` — lexing a template line by line gives what scanning it at once does.
-/

namespace Stencil.Markup

open Stencil.Text

/-! ## Lexing line by line -/

/-- The pair that is active behind a piece: the one that it announces, if it is a directive. -/
def Piece.activeAfter (d : ProperDelimiters) : Piece → ProperDelimiters
  | .text _ _ => d
  | .tag _ triple _ body _ =>
    match Tag.ofBody triple body with
    | .ok t => t.activeAfter d
    | .error _ => d

/-- Behind a tag that can be read, the pair is active that the tag leaves. -/
lemma Piece.activeAfter_tag {triple : Bool} {body : List Char} {t : Tag}
    (ht : Tag.ofBody triple body = .ok t) (d : ProperDelimiters) (start : Nat)
    (opener closer : List Char) :
    (Piece.tag start triple opener body closer).activeAfter d = t.activeAfter d := by
  rw [Piece.activeAfter, ht]

/-- What holds of the active pair, and of every pair that is announced, holds of the pair that is
active behind a piece. -/
lemma Piece.activeAfter_preserves {P : ProperDelimiters → Prop} {d : ProperDelimiters}
    (hannounced : ∀ content pair, Delimiters.ofDirective content = .ok pair → P pair) (hd : P d)
    (piece : Piece) : P (piece.activeAfter d) := by
  cases piece with
  | text start content => exact hd
  | tag start triple opener body closer =>
    rw [Piece.activeAfter]
    split
    · rename_i t ht
      exact Tag.activeAfter_preserves hannounced hd ht
    · exact hd

/-- The pair that is active behind a piece holds no line break. -/
lemma Piece.activeAfter_isUnbroken {d : ProperDelimiters} (hd : d.val.IsUnbroken) (piece : Piece) :
    (piece.activeAfter d).val.IsUnbroken :=
  piece.activeAfter_preserves (P := fun pair => pair.val.IsUnbroken)
    (fun _ _ => Delimiters.isUnbroken_of_ofDirective) hd

/-- A scanner between proper delimiters: what a reader is, the row that it gathers and the tags that
it checks left aside. -/
structure Lexer where
  scanner : Scanner
  proper : scanner.delimiters.IsProper

namespace Lexer

/-- The lexer at the start of a template. -/
def initial : Lexer := ⟨.initial, Delimiters.standard_isProper⟩

/-- The active pair. -/
def pair (l : Lexer) : ProperDelimiters := ⟨l.scanner.delimiters, l.proper⟩

/-- The lexer after a step of scanning. -/
def scanned (l : Lexer) (rest : List Char) : Lexer where
  scanner := (l.scanner.next rest).1
  proper := by simpa using l.proper

/-- The lexer behind the piece that a step completed, if it completed one. A directive changes
the delimiters at once. -/
def behind (l : Lexer) : Option Piece → Lexer
  | none => l
  | some piece =>
    ⟨{ l.scanner with delimiters := piece.activeAfter l.pair }, (piece.activeAfter l.pair).property⟩

/-- Lexes the rest of a line: the pieces that are completed, and the lexer at the end. -/
def lexLine (l : Lexer) (rest : List Char) : List Piece × Lexer :=
  if _h : rest = [] then ([], l)
  else
    let step := l.scanner.next rest
    let (pieces, l') := ((l.scanned rest).behind step.2.1).lexLine step.2.2
    (step.2.1.toList ++ pieces, l')
termination_by rest.length
decreasing_by exact Scanner.next_length_lt _ l.proper ‹_›

/-- Nothing is left of the line. -/
@[simp]
lemma lexLine_nil (l : Lexer) : l.lexLine [] = ([], l) := by
  rw [lexLine, dif_pos rfl]

/-- A line is lexed by a step and lexing what it leaves. -/
lemma lexLine_of_ne_nil (l : Lexer) {rest : List Char} (hne : rest ≠ []) :
    l.lexLine rest =
      let step := l.scanner.next rest
      let others := ((l.scanned rest).behind step.2.1).lexLine step.2.2
      (step.2.1.toList ++ others.1, others.2) := by
  rw [lexLine, dif_neg hne]

/-- Lexes lines one after the other. -/
def lexLines (l : Lexer) : List (List Char) → List Piece × Lexer
  | [] => ([], l)
  | line :: more =>
    let (pieces, l') := l.lexLine line
    let (others, l'') := l'.lexLines more
    (pieces ++ others, l'')

end Lexer

/-- A piece in front of others. Two pieces of text become one. -/
def Piece.putFront : Piece → List Piece → List Piece
  | .text start front, .text _ content :: rest => .text start (front ++ content) :: rest
  | piece, rest => piece :: rest

/-- The pieces, with those of text that lie side by side put together. -/
def mergeTexts (pieces : List Piece) : List Piece := pieces.foldr Piece.putFront []

/-! ## Scanning at once -/

/-- The text in front of the first opener, and the form of the tag that starts there. Where both
openers are found at the same place, the active one only counts if it is longer. -/
def firstOpener (d : Delimiters) (cs : List Char) : Option (List Char × Bool) :=
  match cutAt d.opener cs, cutAt tripleOpener cs with
  | none, none => none
  | some (front, _), none => some (front, false)
  | none, some (front, _) => some (front, true)
  | some (active, _), some (triple, _) =>
    if active.length < triple.length then some (active, false)
    else if triple.length < active.length then some (triple, true)
    else some (active, decide (d.opener.length ≤ tripleOpener.length))

/-- What a scan finds. -/
structure Scan where
  /-- The tags, and the texts between them that are not empty. -/
  pieces : List Piece
  /-- The pair that is active at the end. -/
  active : ProperDelimiters
  /-- The tag without a closer behind it. All that follows its opener is its body. -/
  unclosed : Option OpenTag

/-- A piece of text, unless the text is empty. -/
def textPiece (start : Nat) (content : List Char) : List Piece :=
  if content.isEmpty then [] else [.text start content]

/-- Scans a text that starts at the given offset from left to right, without regard to lines: up
to the first opener, then up to the first closer that matches it, then with the pair that is
active behind this tag from there on. -/
def scan (d : ProperDelimiters) (offset : Nat) (cs : List Char) : Scan :=
  match firstOpener d cs with
  | none => ⟨textPiece offset cs, d, none⟩
  | some (front, triple) =>
    let start := offset + size front
    let inner := (cs.drop front.length).drop (d.val.opening triple).length
    match _h : cutAt (d.val.closing triple) inner with
    | none => ⟨textPiece offset front, d, some ((OpenTag.ofOpener start triple).extend inner)⟩
    | some (body, after) =>
      let piece := .tag start triple (d.val.opening triple) body (d.val.closing triple)
      let rest := scan (piece.activeAfter d) piece.span.stop after
      { rest with pieces := textPiece offset front ++ piece :: rest.pieces }
termination_by cs.length
decreasing_by
  have hlt := cutAt_length_lt (Delimiters.closing_ne_nil d.property triple) _h
  simp only [List.length_drop, inner] at hlt
  omega

/-- The scan of a whole template. -/
def Scan.ofText (cs : List Char) : Scan :=
  scan ⟨.standard, Delimiters.standard_isProper⟩ 0 cs

/-! ## Openers -/

namespace Delimiters

variable {d : Delimiters} {cs ds : List Char}

/-- **Two searches and a comparison find the opener that comes first.** -/
theorem firstOpener_eq (hd : d.IsProper) (cs : List Char) :
    firstOpener d cs = (d.cutAtOpener cs).map fun (front, triple, _) => (front, triple) := by
  induction cs with
  | nil =>
    have hopener : d.opener.isEmpty = false := by simpa using hd.1
    simp [firstOpener, cutAt, cutAtOpener, hopener, tripleOpener]
  | cons c cs ih =>
    rw [cutAtOpener]
    cases hactive : d.opener.isPrefixOf (c :: cs) with
    | true =>
      cases htriple : tripleOpener.isPrefixOf (c :: cs) with
      | true => simp [firstOpener, cutAt, openerAt, hactive, htriple]
      | false =>
        simp only [firstOpener, cutAt, openerAt, hactive, htriple]
        cases cutAt tripleOpener cs <;> simp
    | false =>
      cases htriple : tripleOpener.isPrefixOf (c :: cs) with
      | true =>
        simp only [firstOpener, cutAt, openerAt, hactive, htriple]
        cases cutAt d.opener cs <;> simp
      | false =>
        have hnone : d.openerAt (c :: cs) = none := by simp [openerAt, hactive, htriple]
        -- both searches go on behind the character
        have hcons : firstOpener d (c :: cs) =
            (firstOpener d cs).map fun found => (c :: found.1, found.2) := by
          simp only [firstOpener, cutAt, hactive, htriple]
          rcases cutAt d.opener cs with _ | ⟨active, _⟩ <;>
            rcases cutAt tripleOpener cs with _ | ⟨triple, _⟩ <;> simp
          split_ifs <;> rfl
        rw [hnone, hcons, ih, Option.map_map, Option.map_map]
        rfl

/-- A tag that starts at the front is the first one. -/
lemma cutAtOpener_of_openerAt {triple : Bool} (hd : d.IsProper) (h : d.openerAt cs = some triple) :
    d.cutAtOpener cs = some ([], triple, cs) := by
  cases cs with
  | nil =>
    have hnil := List.prefix_nil.1 (opening_prefix_of_openerAt h)
    exact absurd hnil (opening_ne_nil hd triple)
  | cons c cs => rw [cutAtOpener, h]

/-- Where a sealed text has no opener, the first one comes behind it. -/
lemma cutAtOpener_append_of_none (hd : d.IsUnbroken) (hs : Sealed cs ds)
    (h : d.cutAtOpener cs = none) :
    d.cutAtOpener (cs ++ ds) =
      (d.cutAtOpener ds).map fun (front, triple, found) => (cs ++ front, triple, found) := by
  induction cs with
  | nil => simp
  | cons c cs ih =>
    have hopen := openerAt_of_cutAtOpener_none (List.cons_ne_nil c cs) h
    have hrest : d.cutAtOpener cs = none := by
      rw [cutAtOpener, hopen] at h
      exact Option.map_eq_none_iff.1 h
    rw [← openerAt_append hd hs (List.cons_ne_nil c cs), List.cons_append] at hopen
    rw [List.cons_append, cutAtOpener, hopen, ih (hs.of_suffix (List.suffix_cons c cs)) hrest]
    simp [Function.comp_def]

/-- The first opener of a sealed text is the first one of all. -/
lemma cutAtOpener_append_of_some {front found : List Char} {triple : Bool} (hd : d.IsUnbroken)
    (hs : Sealed cs ds) (h : d.cutAtOpener cs = some (front, triple, found)) :
    d.cutAtOpener (cs ++ ds) = some (front, triple, found ++ ds) := by
  induction cs generalizing front with
  | nil => cases h
  | cons c cs ih =>
    have hopen := openerAt_append hd hs (List.cons_ne_nil c cs)
    rw [cutAtOpener] at h
    rw [List.cons_append] at hopen
    rw [List.cons_append, cutAtOpener, hopen]
    split at h
    · cases h
      rfl
    · obtain ⟨⟨b, t, f⟩, hb, heq⟩ := Option.map_eq_some_iff.1 h
      cases heq
      rw [ih (hs.of_suffix (List.suffix_cons c cs)) hb]
      rfl

end Delimiters

/-! ## Pieces of a scan -/

/-- A scan with further pieces in front, the texts put together. -/
def Scan.afterPieces (s : Scan) (pieces : List Piece) : Scan :=
  { s with pieces := pieces.foldr Piece.putFront s.pieces }

/-- Further pieces in front, in two parts. -/
lemma Scan.afterPieces_append (s : Scan) (xs ys : List Piece) :
    s.afterPieces (xs ++ ys) = (s.afterPieces ys).afterPieces xs := by
  simp [afterPieces]

/-- A text in front of a text makes one text. -/
lemma Scan.afterPieces_textPiece (s : Scan) (offset next : Nat) (xs ys : List Char) :
    (s.afterPieces (textPiece next ys)).afterPieces (textPiece offset xs) =
      s.afterPieces (textPiece (if xs = [] then next else offset) (xs ++ ys)) := by
  cases xs with
  | nil => rfl
  | cons x xs =>
    cases ys with
    | nil => simp [textPiece, afterPieces]
    | cons y ys =>
      rcases s with ⟨_ | ⟨_ | _, pieces⟩, active, unclosed⟩ <;>
        simp [textPiece, afterPieces, Piece.putFront]

/-- Scans a text in which a tag is open. -/
def scanInside (d : ProperDelimiters) (t : OpenTag) (offset : Nat) (cs : List Char) : Scan :=
  match cutAt (d.val.closing t.triple) cs with
  | none => ⟨[], d, some (t.extend cs)⟩
  | some (before, after) =>
    let piece := .tag t.start t.triple (d.val.opening t.triple) (t.body ++ before)
      (d.val.closing t.triple)
    let rest := scan (piece.activeAfter d) (offset + size (before ++ d.val.closing t.triple)) after
    { rest with pieces := piece :: rest.pieces }

/-- Taking in two parts of a body is taking in both at once. -/
lemma OpenTag.extend_extend (t : OpenTag) (xs ys : List Char) :
    (t.extend xs).extend ys = t.extend (xs ++ ys) := by
  simp [extend, head?_trimStart_append, Option.or_assoc]

section scan

variable {d : ProperDelimiters} {cs : List Char}

/-- The tag that is open is not closed. -/
lemma scanInside_of_none {t : OpenTag} (offset : Nat)
    (h : cutAt (d.val.closing t.triple) cs = none) :
    scanInside d t offset cs = ⟨[], d, some (t.extend cs)⟩ := by
  rw [scanInside, h]

/-- The tag that is open is closed, and a scan starts behind it. -/
lemma scanInside_of_some {t : OpenTag} {before after : List Char} (offset : Nat)
    (h : cutAt (d.val.closing t.triple) cs = some (before, after)) :
    scanInside d t offset cs =
      let piece := .tag t.start t.triple (d.val.opening t.triple) (t.body ++ before)
        (d.val.closing t.triple)
      (scan (piece.activeAfter d) (offset + size (before ++ d.val.closing t.triple))
        after).afterPieces [piece] := by
  rw [scanInside, h]
  rfl

/-- The scan of a text without tags. -/
lemma scan_of_cutAtOpener_none (offset : Nat) (h : d.val.cutAtOpener cs = none) :
    scan d offset cs = (⟨[], d, none⟩ : Scan).afterPieces (textPiece offset cs) := by
  rw [scan, Delimiters.firstOpener_eq d.property, h]
  cases cs <;> rfl

/-- A scan finds the text in front of the first tag, and then is inside this tag. -/
lemma scan_of_cutAtOpener_some {front found : List Char} {triple : Bool} (offset : Nat)
    (h : d.val.cutAtOpener cs = some (front, triple, found)) :
    scan d offset cs =
      (scanInside d (.ofOpener (offset + size front) triple)
        (offset + size front + size (d.val.opening triple))
        (found.drop (d.val.opening triple).length)).afterPieces (textPiece offset front) := by
  have hdrop : cs.drop front.length = found := by
    rw [← (Delimiters.cutAtOpener_append h).1, List.drop_left]
  rw [scan, Delimiters.firstOpener_eq d.property, h]
  simp only [Option.map_some]
  split
  · rename_i hcut
    simp only [hdrop] at hcut ⊢
    cases front <;> simp [scanInside, OpenTag.ofOpener, hcut, textPiece, Scan.afterPieces,
      Piece.putFront]
  · rename_i body after hcut
    rw [hdrop] at hcut
    cases front <;> simp [scanInside, OpenTag.ofOpener, OpenTag.body, hcut, Piece.span, Piece.start,
      Piece.content, Nat.add_assoc, textPiece, Scan.afterPieces, Piece.putFront]

/-- Nothing is found in the empty text. -/
lemma cutAt_nil {pattern : List Char} (hp : pattern ≠ []) : cutAt pattern [] = none := by
  rw [cutAt, if_neg (by simpa using hp)]

/-- A text without tags in front of what is found in the rest. -/
lemma scan_append_of_none {rest ds : List Char} (hd : d.val.IsUnbroken) (hs : Sealed rest ds)
    (hne : rest ≠ []) (offset : Nat) (h : d.val.cutAtOpener rest = none) :
    scan d offset (rest ++ ds) =
      (scan d (offset + size rest) ds).afterPieces (textPiece offset rest) := by
  have hlong := Delimiters.cutAtOpener_append_of_none hd hs h
  cases hcut : d.val.cutAtOpener ds with
  | none =>
    rw [hcut] at hlong
    rw [scan_of_cutAtOpener_none offset hlong, scan_of_cutAtOpener_none _ hcut,
      Scan.afterPieces_textPiece, if_neg hne]
  | some found =>
    obtain ⟨front, triple, found⟩ := found
    rw [hcut] at hlong
    rw [scan_of_cutAtOpener_some offset hlong, scan_of_cutAtOpener_some _ hcut,
      Scan.afterPieces_textPiece, if_neg hne, size_append, ← Nat.add_assoc offset]

end scan

/-- What is left after a step is the end of what was there before. -/
lemma Scanner.next_suffix (s : Scanner) (rest : List Char) :
    (s.next rest).2.2 <:+ rest := by
  unfold Scanner.next
  split
  · split
    · exact List.nil_suffix
    · rename_i triple found hcut
      rw [← (Delimiters.cutAtOpener_append hcut).1]
      exact List.drop_suffix _ found
    · rename_i c before triple found hcut
      exact ⟨_, (Delimiters.cutAtOpener_append hcut).1⟩
  · split
    · exact List.nil_suffix
    · rename_i before after hcut
      exact ⟨_, cutAt_append hcut⟩

namespace Lexer

variable {l : Lexer} {rest ds : List Char}

/-- What is still to be found, for a lexer in the middle of a template. -/
def upcoming (l : Lexer) (cs : List Char) : Scan :=
  match l.scanner.inside with
  | none => scan l.pair l.scanner.offset cs
  | some t => scanInside l.pair t l.scanner.offset cs

/-- Outside of all tags, a scan starts. -/
lemma upcoming_of_outside (h : l.scanner.inside = none) (cs : List Char) :
    l.upcoming cs = scan l.pair l.scanner.offset cs := by
  rw [upcoming, h]

/-- Inside a tag, its closer comes first. -/
lemma upcoming_of_inside {t : OpenTag} (h : l.scanner.inside = some t) (cs : List Char) :
    l.upcoming cs = scanInside l.pair t l.scanner.offset cs := by
  rw [upcoming, h]

/-- The pair stays while a line is scanned. -/
lemma pair_scanned (l : Lexer) (rest : List Char) : (l.scanned rest).pair = l.pair :=
  Subtype.ext (Scanner.next_delimiters l.scanner rest)

/-- Text does not change the delimiters. -/
lemma behind_text (l : Lexer) (start : Nat) (content : List Char) :
    l.behind (some (.text start content)) = l := rfl

/-- **A step over a line and a scan of all that follows agree.**

**Proof sketch.** What is found in the line is found at the same place in all that follows, and
what is not found in the line does not start in it, since no delimiter runs over its end. -/
theorem upcoming_next (hd : l.pair.val.IsUnbroken) (hs : Sealed rest ds) (hne : rest ≠ []) :
    l.upcoming (rest ++ ds) =
      (((l.scanned rest).behind (l.scanner.next rest).2.1).upcoming
        ((l.scanner.next rest).2.2 ++ ds)).afterPieces (l.scanner.next rest).2.1.toList := by
  have hpair := l.pair_scanned rest
  have hscanner : (l.scanned rest).scanner = (l.scanner.next rest).1 := rfl
  generalize l.scanned rest = l' at hpair hscanner
  cases hinside : l.scanner.inside with
  | none =>
    rw [upcoming_of_outside hinside]
    cases hcut : l.pair.val.cutAtOpener rest with
    | none =>
      have hcut' : l.scanner.delimiters.cutAtOpener rest = none := hcut
      simp only [Scanner.next, hinside, hcut'] at hscanner ⊢
      rw [behind_text, upcoming_of_outside (by rw [hscanner]), hpair, hscanner,
        scan_append_of_none hd hs hne _ hcut, textPiece, if_neg (by simpa using hne)]
      rfl
    | some found =>
      obtain ⟨front, triple, found⟩ := found
      have hcut' : l.scanner.delimiters.cutAtOpener rest = some (front, triple, found) := hcut
      have hlong := Delimiters.cutAtOpener_append_of_some hd hs hcut
      obtain ⟨hall, hopen⟩ := Delimiters.cutAtOpener_append hcut
      rw [scan_of_cutAtOpener_some _ hlong]
      cases front with
      | nil =>
        simp only [Scanner.next, hinside, hcut'] at hscanner ⊢
        rw [behind, upcoming_of_inside (by rw [hscanner]), hpair, hscanner,
          List.drop_append_of_le_length hopen.length_le]
        rfl
      | cons c front =>
        have hfound : l.pair.val.cutAtOpener (found ++ ds) = some ([], triple, found ++ ds) :=
          Delimiters.cutAtOpener_append_of_some hd (hs.of_suffix ⟨_, hall⟩)
            (Delimiters.cutAtOpener_of_openerAt l.proper (Delimiters.openerAt_of_cutAtOpener hcut))
        simp only [Scanner.next, hinside, hcut'] at hscanner ⊢
        rw [behind_text, upcoming_of_outside (by rw [hscanner]), hpair, hscanner,
          scan_of_cutAtOpener_some _ hfound]
        rfl
  | some t =>
    rw [upcoming_of_inside hinside]
    cases hcut : cutAt (l.pair.val.closing t.triple) rest with
    | none =>
      have hcut' : cutAt (l.scanner.delimiters.closing t.triple) rest = none := hcut
      have hlong := cutAt_append_of_none (hd.closing t.triple) hs hcut
      simp only [Scanner.next, hinside, hcut'] at hscanner ⊢
      rw [behind, upcoming_of_inside (by rw [hscanner]), hpair, hscanner]
      show _ = (scanInside l.pair (t.extend rest) (l.scanner.offset + size rest) ds).afterPieces []
      cases hds : cutAt (l.pair.val.closing t.triple) ds with
      | none =>
        rw [hds] at hlong
        rw [scanInside_of_none _ hlong, scanInside_of_none (t := t.extend rest) _ hds,
          OpenTag.extend_extend]
        rfl
      | some parts =>
        obtain ⟨before, after⟩ := parts
        rw [hds] at hlong
        rw [scanInside_of_some _ hlong, scanInside_of_some (t := t.extend rest) _ hds,
          OpenTag.body_extend, List.append_assoc t.body, List.append_assoc rest, size_append rest,
          Nat.add_assoc]
        rfl
    | some parts =>
      obtain ⟨before, after⟩ := parts
      have hcut' : cutAt (l.scanner.delimiters.closing t.triple) rest = some (before, after) := hcut
      simp only [Scanner.next, hinside, hcut'] at hscanner ⊢
      rw [upcoming_of_outside (by rw [behind, hscanner]),
        scanInside_of_some _ (cutAt_append_of_some hcut ds)]
      obtain ⟨s', proper⟩ := l'
      obtain rfl : s' = _ := hscanner
      rfl

/-- The active pair stays without line breaks. -/
lemma pair_behind_isUnbroken (hd : l.pair.val.IsUnbroken) (piece : Option Piece) :
    (l.behind piece).pair.val.IsUnbroken := by
  cases piece with
  | none => exact hd
  | some piece => exact piece.activeAfter_isUnbroken hd

/-- **Lexing a line and scanning all that follows agree.** -/
theorem upcoming_lexLine (hd : l.pair.val.IsUnbroken) (hs : Sealed rest ds) :
    l.upcoming (rest ++ ds) = ((l.lexLine rest).2.upcoming ds).afterPieces (l.lexLine rest).1 ∧
      (l.lexLine rest).2.pair.val.IsUnbroken := by
  fun_induction lexLine l rest with
  | case1 l => exact ⟨rfl, hd⟩
  | case2 l rest hne step pieces l' hrest ih =>
    have hd' : ((l.scanned rest).behind step.2.1).pair.val.IsUnbroken :=
      pair_behind_isUnbroken (l.pair_scanned rest ▸ hd) step.2.1
    have hih := ih hd' (hs.of_suffix (l.scanner.next_suffix rest))
    rw [hrest] at hih
    refine ⟨?_, hih.2⟩
    rw [upcoming_next hd hs hne, hih.1, Scan.afterPieces_append]

/-- **Lexing lines and scanning what they are made of agree.**

**Proof sketch.** Induction on the lines. Each of them is sealed against what follows. -/
theorem upcoming_lexLines {lns : List (List Char)} (hlines : IsLines lns)
    (hd : l.pair.val.IsUnbroken) :
    l.upcoming lns.flatten =
      ((l.lexLines lns).2.upcoming []).afterPieces (l.lexLines lns).1 := by
  induction hlines generalizing l with
  | nil => rfl
  | @cons body ending more hbody hends hmore ih =>
    obtain ⟨hline, hd'⟩ := upcoming_lexLine hd hends.sealed
    rw [List.flatten_cons, hline, ih hd', lexLines, Scan.afterPieces_append]

/-- At the end of a template, a scan finds nothing more. -/
lemma upcoming_nil (l : Lexer) : l.upcoming [] = ⟨[], l.pair, l.scanner.inside⟩ := by
  cases hinside : l.scanner.inside with
  | none =>
    rw [upcoming_of_outside hinside, scan_of_cutAtOpener_none _ (by rfl)]
    rfl
  | some t =>
    rw [upcoming_of_inside hinside, scanInside_of_none _
      (cutAt_nil (Delimiters.closing_ne_nil l.proper t.triple))]
    simp [OpenTag.extend, trimStart]

end Lexer

/-- The scan of a template, told from lexing its lines. -/
lemma scan_ofText_eq (cs : List Char) :
    Scan.ofText cs =
      (⟨[], (Lexer.initial.lexLines (lines cs)).2.pair,
        (Lexer.initial.lexLines (lines cs)).2.scanner.inside⟩ : Scan).afterPieces
        (Lexer.initial.lexLines (lines cs)).1 := by
  have hlex := Lexer.upcoming_lexLines (l := .initial) (lines_isLines cs)
    Delimiters.standard_isUnbroken
  rw [lines_flatten, Lexer.upcoming_nil] at hlex
  exact hlex

/-! ## Places -/

/-- A piece of text lies where its range says. -/
lemma textPiece_placed {front cs : List Char} (rest : List Char) {piece : Piece}
    (h : piece ∈ textPiece (size front) cs) :
    ∃ xs ys, front ++ (cs ++ rest) = xs ++ piece.content ++ ys ∧ size xs = piece.start := by
  rw [textPiece] at h
  split at h
  · cases h
  · obtain rfl : piece = .text (size front) cs := by simpa using h
    exact ⟨front, rest, by simp [Piece.content], rfl⟩

/-- The text in front of the first opener, the opener, and what follows it. -/
lemma firstOpener_source {d : Delimiters} (hd : d.IsProper) {cs front : List Char} {triple : Bool}
    (h : firstOpener d cs = some (front, triple)) :
    cs = front ++ (d.opening triple ++
      (cs.drop front.length).drop (d.opening triple).length) := by
  rw [Delimiters.firstOpener_eq hd] at h
  obtain ⟨⟨before, form, found⟩, hcut, heq⟩ := Option.map_eq_some_iff.1 h
  obtain ⟨rfl, rfl⟩ := Prod.mk.inj heq
  obtain ⟨hall, inner, hopen⟩ := Delimiters.cutAtOpener_append hcut
  rw [← hall, List.drop_left, ← hopen, List.drop_left]

/-- **Each piece of a scan lies where its range says.** -/
theorem scan_placed {d : ProperDelimiters} {offset : Nat} {cs : List Char} (front : List Char)
    (hfront : size front = offset) :
    ∀ piece ∈ (scan d offset cs).pieces, ∃ xs ys,
      front ++ cs = xs ++ piece.content ++ ys ∧ size xs = piece.start := by
  fun_induction scan d offset cs generalizing front with
  | case1 d offset cs hnone =>
    subst hfront
    intro piece hpiece
    simpa using textPiece_placed [] hpiece
  | case2 =>
    rename_i before triple hfirst start inner hcut
    subst hfront
    intro piece hpiece
    rw [firstOpener_source (Subtype.property _) hfirst]
    exact textPiece_placed _ hpiece
  | case3 =>
    rename_i d offset cs before triple hfirst start inner body after hcut tag rest ih
    subst hfront
    have hcs : cs = before ++ (tag.content ++ after) := by
      rw [firstOpener_source d.property hfirst]
      show before ++ (d.val.opening triple ++ inner) = _
      rw [← cutAt_append hcut]
      simp [tag, Piece.content]
    rw [hcs]
    intro piece hpiece
    rcases List.mem_append.1 hpiece with htext | hpiece
    · exact textPiece_placed _ htext
    · rcases List.mem_cons.1 hpiece with rfl | hrest
      · exact ⟨front ++ before, after, by simp, by simp [tag, start, Piece.start]⟩
      · -- the scan goes on behind the tag
        have hstop : size (front ++ before ++ tag.content) = tag.span.stop := by
          rw [size_append, size_append]
          rfl
        simpa using ih _ hstop piece hrest

/-- **Lexing a template line by line gives what scanning it at once does**: the same tags, of the
same form and with the same body, and the same text between them, all at the same place; the same
tag that is not closed; and the same pair that is active at the end. This rests on the delimiters:
neither the standard pair nor one that a directive announces holds a line break.

**Proof sketch.** After each step, what was found so far together with a scan of all that follows
is the same. A search in a line that finds something finds what a search in the whole template
does, and one that finds nothing goes on with the next line, since a delimiter that starts in a
line also ends in it. -/
theorem lexLines_lines_eq_scan (cs : List Char) :
    mergeTexts (Lexer.initial.lexLines (lines cs)).1 = (Scan.ofText cs).pieces ∧
      (Lexer.initial.lexLines (lines cs)).2.scanner.inside = (Scan.ofText cs).unclosed ∧
      (Lexer.initial.lexLines (lines cs)).2.pair = (Scan.ofText cs).active ∧
      (∀ piece ∈ (Scan.ofText cs).pieces, ∃ xs ys,
        cs = xs ++ piece.content ++ ys ∧ size xs = piece.start) ∧
      Delimiters.standard.IsUnbroken ∧
      ∀ triple body pair, Tag.ofBody triple body = .ok (.delimiters pair) →
        pair.val.IsUnbroken := by
  have hscan := scan_ofText_eq cs
  refine ⟨?_, ?_, ?_, scan_placed [] rfl, Delimiters.standard_isUnbroken, ?_⟩
  · rw [hscan]
    rfl
  · rw [hscan]
    rfl
  · rw [hscan]
    rfl
  · intro triple body pair h
    obtain ⟨-, content, -, hcontent⟩ := Tag.ofBody_eq_delimiters_iff.1 h
    exact Delimiters.isUnbroken_of_ofDirective hcontent

/-- A pair with a line break is missed at the end of a line. -/
example :
    let pair : ProperDelimiters := ⟨⟨['<', '\n'], ['>']⟩, by decide⟩
    let cs := ['<', '\n', 'a', '>']
    ((⟨⟨pair.val, 0, none⟩, pair.property⟩ : Lexer).lexLines (lines cs)).1.length = 1 ∧
      (scan pair 0 cs).pieces = [.tag 0 false ['<', '\n'] ['a'] ['>']] := by
  decide +kernel

end Stencil.Markup
