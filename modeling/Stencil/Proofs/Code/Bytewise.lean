import Mathlib.Data.List.Forall2
import Mathlib.Tactic.Lemma
import Stencil.Proofs.Code.Assembly
import Stencil.Proofs.Markup.Bytewise

/-!
# Reading a template by byte offsets

A template can be read without taking it apart: the reader keeps the ranges of the texts of a
line, not the texts, and cuts them out of the template when the line is complete. Every cut, every
range and every index is checked. All checks pass, whatever the template is, and what comes out is
its draft.

## Main definitions

* `ByteItem`, `ByteParser` — the state of reading by offsets.
* `ByteParser.parseLine`, `ByteParser.flushLine` — read a line, and put its code together.
* `Draft.readAt` — reads a template by offsets.
* `ByteParser.Mirrors` — how reading by offsets stands to reading.
* `ByteParser.AtLine`, `ByteParser.BehindLine` — the same, in front of a line and behind it.

## Main results

* `ByteParser.parseLine_reads` — a line is read as it is read without offsets.
* `ByteParser.flushLine_eq` — the code of a line is that of its parts.
* `ByteParser.AtLine.parseLines_eq` — reading lines gives the draft of their rows.
* `Draft.readAt_eq` — reading by offsets meets no defect and gives the draft.
-/

namespace Stencil

open Stencil.Text Stencil.Markup

/-- A part of a line: the range of a text, or a tag with its range. -/
inductive ByteItem where
  | text (span : Span)
  | tag (tag : Tag) (span : Span)

/-- A check in the middle of reading. -/
def Stop.check {α : Type} (x : Checked α) : Except Stop α := x.mapError .defect

/-- The state of reading a template by offsets. -/
structure ByteParser where
  lexer : ByteLexer := ⟨.standard, none⟩
  /-- The parts of the line that is read. -/
  items : List ByteItem := []
  /-- The ranges of the section tags that are open, innermost first. -/
  opens : List Span := []
  code : Assembly := {}

namespace ByteParser

/-! ## Reading -/

/-- Takes in what was lexed. A tag counts as soon as it is complete. -/
def pushPiece (source : List Char) (p : ByteParser) : BytePiece → Except Stop ByteParser
  | .text span => .ok { p with items := p.items ++ [.text span] }
  | .tag triple body span => do
    let p' := fun tag => { p with items := p.items ++ [.tag tag span] }
    match ← Stop.check (classify source triple body) with
    | .error fault => .error (.fault p.code.references ⟨.markup (.tag fault), some span⟩)
    | .ok (.opening inverted path) =>
      .ok { p' (.opening inverted path) with opens := span :: p.opens }
    | .ok (.closing path) => .ok { p' (.closing path) with opens := p.opens.tail }
    | .ok (.delimiters pair) =>
      if p.opens.isEmpty then
        .ok { p' (.delimiters pair) with lexer := { p.lexer with delimiters := pair.val } }
      else .error (.fault p.code.references ⟨.markup .delimitersInSection, some span⟩)
    | .ok tag => .ok (p' tag)

/-- Takes in what was lexed, if anything was. -/
def pushPiece? (source : List Char) (p : ByteParser) : Option BytePiece → Except Stop ByteParser
  | none => .ok p
  | some piece => p.pushPiece source piece

/-- Reads a line from an offset on. The line starts at the given offset of the template. -/
def parseLine (source line : List Char) (offset : Nat) (p : ByteParser) (pos : Nat) :
    Except Stop ByteParser :=
  if pos < size line then
    match p.lexer.parse line offset pos with
    | .error d => .error (.defect d)
    | .ok (lexer, next, piece) =>
      match { p with lexer := lexer }.pushPiece? source piece with
      | .error stop => .error stop
      | .ok p' =>
        if _h : pos < next then p'.parseLine source line offset next
        else .error (.defect .endless)
  else .ok p
termination_by size line - pos

/-- The index of the tag that takes its line with it: the only one among blanks. The items from an
index on are gone through, given the tag found before. -/
def standaloneAt (source : List Char) : List ByteItem → Nat → Option Nat → Checked (Option Nat)
  | [], _, found => .ok found
  | .tag tag _ :: rest, i, found =>
    if found.isNone && tag.standsAlone then standaloneAt source rest (i + 1) (some i) else .ok none
  | .text span :: rest, i, found => do
    if (← span.sliceAt source).all isBlank then standaloneAt source rest (i + 1) found
    else .ok none

/-- Adds an item of a line in which no tag stands alone. -/
def flushItem (source : List Char) (a : Assembly) : ByteItem → Except Stop Assembly
  | .text span => do
    let content ← Stop.check (span.sliceAt source)
    .ok { a with pending := a.pending ++ content }
  | .tag tag span => a.pushTag tag span []

/-- The indentation of a tag that takes its line with it, given the items in front of the tag. -/
def indentAt (source : List Char) : List ByteItem → Checked (List Char)
  | [.text span] => span.sliceAt source
  | _ => .ok []

/-- Puts the code of the line together. -/
def flushLine (source : List Char) (p : ByteParser) : Except Stop ByteParser := do
  match ← Stop.check (standaloneAt source p.items 0 none) with
  | some i =>
    let indent ← Stop.check (indentAt source (p.items.take i))
    match p.items[i]? with
    | none => .error (.defect .index)
    | some (.text _) => .ok { p with items := [] }
    | some (.tag tag span) =>
      let code ← p.code.pushTag tag span indent
      .ok { p with items := [], code := code }
  | none =>
    let code ← p.items.foldlM (flushItem source) p.code
    .ok { p with items := [], code := code }

/-- Whether the tag that is open is a comment, as far as its body was read. -/
def inComment (source : List Char) (p : ByteParser) (stop : Nat) : Checked Bool := do
  match ← p.lexer.partialBody stop with
  | none => .ok false
  | some body => return startsComment (← body.sliceAt source)

/-- Ends reading behind the last line. -/
def conclude (source : List Char) (p : ByteParser) : Except Stop Draft := do
  match p.lexer.inside with
  | some mark =>
    let span ← Stop.check (Span.checked mark.start (size source))
    .error (.fault p.code.references ⟨.markup .unterminated, some span⟩)
  | none =>
    let p ← p.flushLine source
    p.code.conclude p.opens

/-- Reads lines, each with the offset at which it starts. -/
def parseLines (source : List Char) (p : ByteParser) : List (Nat × List Char) → Except Stop Draft
  | [] => p.conclude source
  | (offset, line) :: more => do
    let p ← p.parseLine source line offset 0
    match p.lexer.inside with
    | some mark =>
      if ← Stop.check (p.inComment source (offset + size line)) then
        p.parseLines source more
      else
        let stop := offset + size (dropEnding line)
        let span ← Stop.check (Span.checked mark.start (max stop mark.start))
        .error (.fault p.code.references ⟨.markup .unterminated, some span⟩)
    | none =>
      let p ← p.flushLine source
      p.parseLines source more

end ByteParser

/-- Reads a template by offsets. -/
def Draft.readAt (source : List Char) : Checked Draft := do
  let lns ← linesAt source 0
  Stop.settle (ByteParser.parseLines source {} lns)

/-! ## Reading by offsets is reading -/

/-- The indentation of a tag that takes its line with it, given the items in front of the tag. -/
def indentOf : Row → List Char
  | [.text indent] => indent
  | _ => []

/-- The tag of a row that holds nothing else but blanks, with its indentation. -/
lemma standalone?_eq (row : Row) :
    standalone? row =
      match row.dropWhile isBlankText with
      | .tag tag span :: rest =>
        if tag.standsAlone && rest.all isBlankText then
          some (.tag tag span (indentOf (row.takeWhile isBlankText)))
        else none
      | _ => none := by
  unfold standalone?
  generalize row.takeWhile isBlankText = blanks
  rcases blanks with _ | ⟨_ | _, _ | _⟩ <;> rfl

/-- The range of a text covers the text, and a tag is the same. -/
inductive ByteItem.Mirrors (source : List Char) : ByteItem → Item → Prop
  | text {span : Span} {content : List Char} (h : span.Covers source content) :
      Mirrors source (.text span) (.text content)
  | tag (tag : Tag) (span : Span) : Mirrors source (.tag tag span) (.tag tag span)

namespace ByteParser

/-- Reading by offsets has come as far as reading. -/
structure Mirrors (source : List Char) (p : ByteParser) (r : Reader) : Prop where
  lexer_eq : p.lexer = r.scanner.marked
  opens_eq : p.opens = r.opened
  items : List.Forall₂ (ByteItem.Mirrors source) p.items r.row

/-- Reading by offsets does what reading does, and the code stays as it is. -/
inductive Reads (source : List Char) (code : Assembly) :
    Except MarkupError Reader → Except Stop ByteParser → Prop
  | on {r : Reader} {p : ByteParser} (h : p.Mirrors source r) (hcode : p.code = code) :
      Reads source code (.ok r) (.ok p)
  | halt (e : MarkupError) : Reads source code (.error e)
      (.error (.fault code.references ⟨.markup e.fault, some e.span⟩))

namespace Reads

variable {source : List Char} {code : Assembly} {r : Reader} {e : MarkupError}
  {result : Except Stop ByteParser}

/-- Where reading goes on, reading by offsets does. -/
lemma exists_ok (h : Reads source code (.ok r) result) :
    ∃ p, result = .ok p ∧ p.Mirrors source r ∧ p.code = code := by
  cases h with
  | on h hcode => exact ⟨_, rfl, h, hcode⟩

/-- Where reading stops, reading by offsets does. -/
lemma eq_error (h : Reads source code (.error e) result) :
    result = .error (.fault code.references ⟨.markup e.fault, some e.span⟩) := by
  cases h
  rfl

end Reads

section Lines

variable {source front back : List Char} {p : ByteParser} {r r' : Reader}
  {piece : Piece} {row : Row}

/-- The tag that is open is noted by its offsets. -/
lemma Mirrors.inside_eq (h : p.Mirrors source r) :
    p.lexer.inside = r.scanner.inside.map fun t =>
      ⟨t.triple, t.start, t.start + size (r.scanner.delimiters.opening t.triple)⟩ := by
  rw [h.lexer_eq]
  rfl

/-- A further item. -/
lemma forall₂_snoc {item : ByteItem} {item' : Item} (h : p.Mirrors source r)
    (hitem : item.Mirrors source item') :
    List.Forall₂ (ByteItem.Mirrors source) (p.items ++ [item]) (r.recent.reverse ++ [item']) :=
  List.rel_append h.items (.cons hitem .nil)

/-- **A piece is taken in as it is taken in without offsets**, if it stands where it says and no
tag is open behind it. -/
theorem pushPiece_reads (h : p.Mirrors source r) (hinside : r.scanner.inside = none)
    {before : List Char}
    (hsource : source = before ++ piece.content ++ back) (hstart : piece.start = size before) :
    Reads source p.code (r.accept piece) (p.pushPiece source piece.marked) := by
  cases piece with
  | text start content =>
    obtain rfl : start = size before := hstart
    refine .on ⟨h.lexer_eq, h.opens_eq, ?_⟩ rfl
    rw [Reader.row, List.reverse_cons]
    refine forall₂_snoc h (.text ⟨before, back, hsource, ?_⟩)
    rw [size_append]
  | tag start triple opener body closer =>
    obtain rfl : start = size before := hstart
    have hbody : Span.Covers ⟨size before + size opener, size before + size opener + size body⟩
        source body :=
      ⟨before ++ opener, closer ++ back, by simp [hsource, Piece.content],
        by simp [Nat.add_assoc]⟩
    simp only [Piece.marked, pushPiece, classify_eq triple hbody, Reader.accept, Stop.check,
      Except.mapError, bind, Except.bind]
    cases hread : Tag.ofBody triple body with
    | error fault => exact .halt _
    | ok tag =>
      have hitems : ∀ span, List.Forall₂ (ByteItem.Mirrors source) (p.items ++ [.tag tag span])
          (Item.tag tag span :: r.recent).reverse := by
        intro span
        rw [List.reverse_cons]
        exact forall₂_snoc h (.tag tag span)
      cases tag with
      | opening inverted path =>
        exact .on ⟨h.lexer_eq, congrArg (List.cons _) h.opens_eq, hitems _⟩ rfl
      | closing path => exact .on ⟨h.lexer_eq, congrArg List.tail h.opens_eq, hitems _⟩ rfl
      | delimiters pair =>
        simp only [Reader.acceptTag, h.opens_eq]
        split
        · refine .on ⟨?_, rfl, hitems _⟩ rfl
          simp [h.lexer_eq, Scanner.marked, hinside]
        · exact .halt _
      | interpolation escaped path => exact .on ⟨h.lexer_eq, h.opens_eq, hitems _⟩ rfl
      | inclusion name => exact .on ⟨h.lexer_eq, h.opens_eq, hitems _⟩ rfl
      | comment => exact .on ⟨h.lexer_eq, h.opens_eq, hitems _⟩ rfl

/-- What a step completes is taken in as it is taken in without offsets. -/
lemma pushPiece?_reads (h : p.Mirrors source r) (piece : Option Piece) (back : List Char)
    (hpiece : ∀ found, piece = some found → r.scanner.inside = none ∧ ∃ before,
      source = before ++ found.content ++ back ∧ found.start = size before) :
    Reads source p.code (r.accept? piece) (p.pushPiece? source (piece.map Piece.marked)) := by
  cases piece with
  | none => exact .on h rfl
  | some found =>
    obtain ⟨hinside, before, hsource, hstart⟩ := hpiece found rfl
    exact pushPiece_reads h hinside hsource hstart

/-- Taking in a piece leaves the scanner where it stands. -/
lemma standsBehind_of_accept? {piece : Option Piece} (h : r.scanner.StandsBehind front)
    (hinside : ∀ found, piece = some found → r.scanner.inside = none)
    (haccept : r.accept? piece = .ok r') : r'.scanner.StandsBehind front := by
  rw [Reader.accept?_eq] at haccept
  obtain ⟨opened, -, rfl⟩ := exists_of_map_eq_ok haccept
  exact Lexer.standsBehind_behind (l := r.lexer) h hinside

/-- **A line is read as it is read without offsets.** The line is what was read and the rest, and
it stands behind the part of the template in front.

**Proof sketch.** Induction on the steps through the line. A step by offsets does what a step of the
scanner does, and gets ahead by what this step uses. A piece that it completes is the end of what
the scanner has gone through, so its ranges lie where they say. -/
theorem parseLine_reads (done rest back : List Char) (h : p.Mirrors source r)
    (hstands : r.scanner.StandsBehind (front ++ done))
    (hsource : source = front ++ (done ++ rest) ++ back) :
    Reads source p.code (r.readLine rest)
      (p.parseLine source (done ++ rest) (size front) (size done)) := by
  induction hlength : rest.length using Nat.strong_induction_on generalizing r p done rest with
  | _ n ih =>
  subst hlength
  rw [parseLine]
  by_cases hne : rest = []
  · subst hne
    rw [if_neg (by simp), Reader.readLine, dif_pos rfl]
    exact .on h rfl
  · obtain ⟨used, hrest, hnext, hpiece⟩ := hstands.next rest
    have hparse := ByteLexer.parse_marked r.proper hstands hne hrest
    -- the check that the loop gets ahead passes, since a step uses up a part of the rest
    have hahead : size done < size (done ++ used) := by
      have hshort := Scanner.next_length_lt r.scanner r.proper hne
      have hused : used ≠ [] := by
        rintro rfl
        rw [List.nil_append] at hrest
        rw [← hrest] at hshort
        exact Nat.lt_irrefl _ hshort
      have := size_pos hused
      rw [size_append]
      omega
    have hscanned : Mirrors source { p with lexer := (r.scanned rest).scanner.marked }
        (r.scanned rest) := ⟨rfl, h.opens_eq, h.items⟩
    have htaken := pushPiece?_reads hscanned (r.scanner.next rest).2.1
      ((r.scanner.next rest).2.2 ++ back) fun found hfound => by
        obtain ⟨hinside, before, hfront, hstart⟩ := hpiece found hfound
        refine ⟨hinside, before, ?_, hstart⟩
        rw [hsource, ← hfront]
        nth_rewrite 1 [hrest]
        simp
    rw [if_pos (by have := size_pos hne; rw [size_append]; omega), Reader.readLine, dif_neg hne,
      h.lexer_eq, hparse]
    dsimp only
    rw [show (r.scanner.next rest).1.marked = (r.scanned rest).scanner.marked from rfl]
    cases haccept : (r.scanned rest).accept? (r.scanner.next rest).2.1 with
    | error e =>
      rw [haccept] at htaken
      rw [htaken.eq_error]
      exact .halt e
    | ok r' =>
      rw [haccept] at htaken
      obtain ⟨p', hp', hmirrors, hcode⟩ := htaken.exists_ok
      have hstands' : r'.scanner.StandsBehind (front ++ (done ++ used)) := by
        rw [← List.append_assoc]
        exact standsBehind_of_accept? (r := r.scanned rest) hnext
          (fun found hfound => (hpiece found hfound).1) haccept
      have hline : done ++ rest = done ++ used ++ (r.scanner.next rest).2.2 := by
        rw [List.append_assoc, ← hrest]
      rw [hp']
      dsimp only
      rw [dif_pos hahead, ← show p'.code = p.code from hcode, hline]
      rw [hline] at hsource
      exact ih _ (Scanner.next_length_lt r.scanner r.proper hne) (done ++ used) _ hmirrors hstands'
        hsource rfl

/-- Behind the tag that was found, all items must be blank. -/
lemma standaloneAt_some {items : List ByteItem} {row : Row}
    (h : List.Forall₂ (ByteItem.Mirrors source) items row) (i j : Nat) :
    standaloneAt source items i (some j) =
      .ok (if row.all isBlankText then some j else none) := by
  induction h generalizing i with
  | nil => rfl
  | @cons item item' items row hitem _ ih =>
    cases hitem with
    | tag tag span => rfl
    | @text span content hcovers =>
      rw [standaloneAt, Span.sliceAt_eq_ok_iff.2 hcovers]
      simp only [bind, Except.bind, List.all_cons, isBlankText, ih]
      by_cases hblank : content.all isBlank = true <;> simp [hblank]

/-- **The tag that takes its line with it is found by its index.** -/
theorem standaloneAt_none {items : List ByteItem} {row : Row}
    (h : List.Forall₂ (ByteItem.Mirrors source) items row) (i : Nat) :
    standaloneAt source items i none = .ok (
      match row.dropWhile isBlankText with
      | .tag tag _ :: rest =>
        if tag.standsAlone && rest.all isBlankText then
          some (i + (row.takeWhile isBlankText).length)
        else none
      | _ => none) := by
  induction h generalizing i with
  | nil => rfl
  | @cons item item' items row hitem hitems ih =>
    cases hitem with
    | tag tag span =>
      rw [standaloneAt, List.dropWhile_cons_of_neg (by simp [isBlankText]),
        List.takeWhile_cons_of_neg (by simp [isBlankText])]
      simp only [Option.isNone_none, Bool.true_and, standaloneAt_some hitems]
      cases tag.standsAlone <;> rfl
    | @text span content hcovers =>
      rw [standaloneAt, Span.sliceAt_eq_ok_iff.2 hcovers]
      simp only [bind, Except.bind]
      cases hblank : content.all isBlank with
      | false =>
        rw [List.dropWhile_cons_of_neg (by simp [isBlankText, hblank])]
        rfl
      | true =>
        rw [List.dropWhile_cons_of_pos (by simp [isBlankText, hblank]),
          List.takeWhile_cons_of_pos (by simp [isBlankText, hblank]), if_pos rfl, ih]
        simp only [List.length_cons, Nat.add_assoc, Nat.add_comm 1]

/-- An item adds what its part does. -/
lemma flushItem_eq {item : ByteItem} {item' : Item} (h : ByteItem.Mirrors source item item')
    (a : Assembly) : flushItem source a item = a.put (partOfItem item') := by
  cases h with
  | tag tag span => rfl
  | text hcovers =>
    rw [flushItem, Span.sliceAt_eq_ok_iff.2 hcovers]
    rfl

/-- Items add what their parts do. -/
lemma flushItems_eq {items : List ByteItem} {row : Row}
    (h : List.Forall₂ (ByteItem.Mirrors source) items row) (a : Assembly) :
    items.foldlM (flushItem source) a = (row.map partOfItem).foldlM Assembly.put a := by
  induction h generalizing a with
  | nil => rfl
  | cons hitem _ ih =>
    rw [List.foldlM_cons, List.map_cons, List.foldlM_cons, flushItem_eq hitem]
    exact bind_congr ih

/-- The indentation of a tag that takes its line with it is cut out of the template. -/
lemma indentAt_eq {items : List ByteItem} {blanks : Row}
    (h : List.Forall₂ (ByteItem.Mirrors source) items blanks) :
    indentAt source items = .ok (indentOf blanks) := by
  cases h with
  | nil => rfl
  | cons hitem hitems =>
    cases hitem with
    | tag tag span => rfl
    | text hcovers =>
      cases hitems with
      | nil => exact Span.sliceAt_eq_ok_iff.2 hcovers
      | cons _ _ => rfl

/-- The tag that takes its line with it is pushed with its indentation. -/
lemma flushLine_standalone {blanks others : Row} {tag : Tag} {span : Span}
    (h : List.Forall₂ (ByteItem.Mirrors source) p.items (blanks ++ .tag tag span :: others))
    (hfound : standaloneAt source p.items 0 none = .ok (some blanks.length)) :
    p.flushLine source = (fun code => { p with items := [], code := code }) <$>
      p.code.pushTag tag span (indentOf blanks) := by
  have hindent := indentAt_eq (List.forall₂_take_append _ _ _ h)
  -- the items in front of the tag mirror the blanks, so its index is the number of these
  have hitem : p.items[blanks.length]? = some (.tag tag span) := by
    have hrest := List.forall₂_drop_append _ _ _ h
    generalize hdrop : p.items.drop blanks.length = dropped at hrest
    cases hrest with
    | cons hitem _ =>
      cases hitem
      have hhead := congrArg List.head? hdrop
      rwa [List.head?_drop] at hhead
  simp only [flushLine, hfound, Stop.check, Except.mapError, bind, Except.bind, hindent, hitem]
  cases p.code.pushTag tag span (indentOf blanks) <;> rfl

/-- The items of a line in which no tag stands alone are added one by one. -/
lemma flushLine_of_none (h : List.Forall₂ (ByteItem.Mirrors source) p.items row)
    (hfound : standaloneAt source p.items 0 none = .ok none) :
    p.flushLine source = (fun code => { p with items := [], code := code }) <$>
      (row.map partOfItem).foldlM Assembly.put p.code := by
  simp only [flushLine, hfound, Stop.check, Except.mapError, bind, Except.bind, flushItems_eq h]
  cases (row.map partOfItem).foldlM Assembly.put p.code <;> rfl

/-- **The code of a line is that of its parts.** -/
theorem flushLine_eq (h : List.Forall₂ (ByteItem.Mirrors source) p.items row) :
    p.flushLine source = (fun code => { p with items := [], code := code }) <$>
      (partsOfRow row).foldlM Assembly.put p.code := by
  have hfound := standaloneAt_none h 0
  have hrow := List.takeWhile_append_dropWhile (p := isBlankText) (l := row)
  rw [partsOfRow, standalone?_eq]
  generalize row.dropWhile isBlankText = found at hfound hrow
  split at hfound
  · rename_i tag span others
    split at hfound
    · rename_i hstands
      rw [if_pos hstands, flushLine_standalone (hrow ▸ h) (by simpa using hfound)]
      simp only [List.foldlM_cons, List.foldlM_nil, bind_pure]
      rfl
    · rename_i hstands
      simp only [if_neg hstands]
      exact flushLine_of_none h hfound
  · exact flushLine_of_none h hfound

/-- Whether the tag that is open is a comment is told from the body cut out of the template. -/
lemma inComment_eq {t : OpenTag} (h : p.Mirrors source r) (hstands : r.scanner.StandsBehind front)
    (hsource : source = front ++ back) (hinside : r.scanner.inside = some t) :
    p.inComment source (size front) = .ok t.isComment := by
  obtain ⟨before, hfront, hstart⟩ := hstands.inside t hinside
  have hle : t.start + size (r.scanner.delimiters.opening t.triple) ≤ size front := by
    simp only [hfront, size_append, hstart]
    omega
  have hbody : Span.Covers
      ⟨t.start + size (r.scanner.delimiters.opening t.triple), size front⟩ source t.body :=
    ⟨before ++ r.scanner.delimiters.opening t.triple, back, by simp [hsource, hfront],
      by simp [hfront, hstart]⟩
  simp only [inComment, ByteLexer.partialBody, h.inside_eq, hinside, Option.map_some,
    Span.checked_of_le hle, Functor.map, Except.map, bind, Except.bind,
    Span.sliceAt_eq_ok_iff.2 hbody, OpenTag.isComment_eq]
  rfl

end Lines

/-! ## Templates -/

/-- Reading by offsets stands in front of a line, as reading does: either a comment is open, or
nothing was read of the line yet. -/
structure AtLine (source : List Char) (p : ByteParser) (r : Reader) (front : List Char) :
    Prop where
  mirrors : p.Mirrors source r
  sound : p.code.IsSound
  stands : r.scanner.StandsBehind front
  unbroken : r.lexer.pair.val.IsUnbroken
  comment : ∀ t, r.scanner.inside = some t → startsComment (beforeBreak t.body) = true
  fresh : r.scanner.inside = none → r.recent = []

/-- Reading by offsets stands behind the end of a line, as reading does. A comment that is open
has started like one in its own first line. -/
structure BehindLine (source : List Char) (p : ByteParser) (r : Reader) (front : List Char) :
    Prop where
  mirrors : p.Mirrors source r
  sound : p.code.IsSound
  stands : r.scanner.StandsBehind front
  unbroken : r.lexer.pair.val.IsUnbroken
  comment : ∀ t, r.scanner.inside = some t → t.isComment = true →
    startsComment (beforeBreak t.body) = true

section Templates

variable {source front body ending rest : List Char} {p p' : ByteParser} {r r' : Reader}
  {t : OpenTag} {lns : List (List Char)}

/-- Behind the end of a line in which a line can be read. -/
lemma AtLine.behindLine (h : p.AtLine source r front) (hbody : Unbroken body)
    (hends : EndsBefore body ending rest) (hread : r.readLine (body ++ ending) = .ok r')
    (hmirrors : p'.Mirrors source r') (hcode : p'.code = p.code) :
    p'.BehindLine source r' (front ++ (body ++ ending)) := by
  obtain ⟨-, hopen⟩ := Lexer.lexLine_joinable h.unbroken (fun t ht => .inr (h.comment t ht)) hbody
    hends.isBreak
  have hstands := (Lexer.lexLine_places (l := r.lexer) h.stands (body ++ ending)).1
  have hunbroken := (Lexer.upcoming_lexLine h.unbroken hends.sealed).2
  rw [Reader.readLine_eq] at hread
  obtain ⟨opened, -, rfl⟩ := exists_of_map_eq_ok hread
  refine ⟨hmirrors, hcode ▸ h.sound, hstands, hunbroken, fun t ht hcomment => ?_⟩
  exact startsComment_beforeBreak_of_isComment (hopen t ht) hends.isBreak hcomment

/-- Behind a line that leaves a comment open, the next line is read with the same items. -/
lemma BehindLine.atLine_of_comment (h : p.BehindLine source r front)
    (hinside : r.scanner.inside = some t) (hcomment : t.isComment = true) :
    p.AtLine source r front := by
  refine ⟨h.mirrors, h.sound, h.stands, h.unbroken, fun u hu => ?_, fun hnone => ?_⟩
  · obtain rfl : u = t := Option.some.inj (hu.symm.trans hinside)
    exact h.comment u hu hcomment
  · rw [hinside] at hnone
    cases hnone

/-- Behind a line whose code was put together, the next line is read without items. -/
lemma BehindLine.atLine_of_row (h : p.BehindLine source r front) (hinside : r.scanner.inside = none)
    {code : Assembly} (hsound : code.IsSound) :
    AtLine source { p with items := [], code := code } { r with recent := [] } front := by
  refine ⟨⟨h.mirrors.lexer_eq, h.mirrors.opens_eq, .nil⟩, hsound, h.stands, h.unbroken,
    fun t ht => ?_, fun _ => rfl⟩
  rw [hinside] at ht
  cases ht

/-- A tag that is left open by a line and is no comment starts in front of the ending of the
line. -/
lemma AtLine.start_lt (h : p.AtLine source r front) (hlines : IsLines ((body ++ ending) :: lns))
    (hread : r.readLine (body ++ ending) = .ok r') (hinside : r'.scanner.inside = some t)
    (hcomment : ¬t.isComment = true) :
    t.start < size front + size (dropEnding (body ++ ending)) := by
  have hending : (r.readLines ((body ++ ending) :: lns)).ending = .error ⟨.unterminated,
      ⟨t.start, r.scanner.offset + size (dropEnding (body ++ ending))⟩⟩ := by
    simp only [Reader.readLines, hread, hinside, if_neg hcomment]
  obtain ⟨part, hstarts, hcovers⟩ :=
    Reader.unterminated_covers hlines h.stands h.unbroken h.comment hending rfl
  rw [← h.stands.offset_eq]
  exact hcovers.start_lt hstarts.ne_nil

/-- Behind the last line reading by offsets ends as reading does. -/
lemma AtLine.conclude_eq (h : p.AtLine source r front) (hsource : source = front) :
    Stop.settle (p.conclude source) =
      .ok (p.code.finish ((r.readLines []).rows.flatMap partsOfRow) (r.readLines []).ending) := by
  subst hsource
  rw [Reader.readLines]
  cases hinside : r.scanner.inside with
  | some t =>
    obtain ⟨before, hfront, hstart⟩ := h.stands.inside t hinside
    have hle : t.start ≤ size source := by
      rw [hfront, hstart, size_append]
      omega
    simp only [conclude, h.mirrors.inside_eq, hinside, Option.map_some, Span.checked_of_le hle,
      Stop.check, Except.mapError, bind, Except.bind, Stop.settle, List.flatMap_nil,
      Assembly.finish_nil_error h.sound, h.stands.offset_eq]
  | none =>
    have hitems := h.mirrors.items
    rw [Reader.row, h.fresh hinside] at hitems
    simp only [conclude, h.mirrors.inside_eq, hinside, Option.map_none, flushLine_eq hitems]
    rw [show partsOfRow [].reverse = [] from rfl, List.foldlM_nil, List.flatMap_nil]
    simp only [pure, Except.pure, Functor.map, Except.map, bind, Except.bind]
    rw [h.mirrors.opens_eq]
    exact Assembly.conclude_eq h.sound r.opened

/-- **Reading lines by offsets gives the draft of their rows.**

**Proof sketch.** Induction on the lines. A line is read as it is read without offsets. If it leaves
a comment open, its items are kept for the line in which the comment ends. If it leaves another tag
open, reading stops, and the opener of this tag stands in front of the ending of the line. Else its
parts are put together, and the others go on from there. -/
theorem AtLine.parseLines_eq (hlines : IsLines lns) (h : p.AtLine source r front)
    (hsource : source = front ++ lns.flatten) :
    Stop.settle (p.parseLines source (placed (size front) lns)) =
      .ok (p.code.finish ((r.readLines lns).rows.flatMap partsOfRow) (r.readLines lns).ending) := by
  induction hlines generalizing p r front with
  | nil => exact h.conclude_eq (by simpa using hsource)
  | @cons body ending more hbody hends hmore ih =>
    have hreads := parseLine_reads [] (body ++ ending) more.flatten h.mirrors
      (by simpa using h.stands) (by simpa using hsource)
    rw [List.nil_append, show size ([] : List Char) = 0 from rfl] at hreads
    rw [placed, parseLines, Reader.readLines]
    cases hread : r.readLine (body ++ ending) with
    | error e =>
      rw [hread] at hreads
      rw [hreads.eq_error]
      exact congrArg Except.ok (Assembly.finish_nil_error h.sound e).symm
    | ok r' =>
      rw [hread] at hreads
      obtain ⟨p', hp', hmirrors, hcode⟩ := hreads.exists_ok
      have hbehind := h.behindLine hbody hends hread hmirrors hcode
      have hsource' : source = front ++ (body ++ ending) ++ more.flatten := by simpa using hsource
      rw [hp', ← size_append]
      simp only [bind, Except.bind, hmirrors.inside_eq]
      cases hinside : r'.scanner.inside with
      | some t =>
        simp only [Option.map_some, inComment_eq hmirrors hbehind.stands hsource' hinside,
          Stop.check, Except.mapError]
        by_cases hcomment : t.isComment = true
        · -- the items are kept for the line in which the comment ends
          rw [if_pos hcomment, if_pos hcomment, ← hcode]
          exact ih (hbehind.atLine_of_comment hinside hcomment) hsource'
        · -- the range that is shown ends behind the opener, so taking the greater end is no change
          have hlt := h.start_lt (.cons hbody hends hmore) hread hinside hcomment
          rw [if_neg hcomment, if_neg hcomment, Nat.max_eq_left (Nat.le_of_lt hlt),
            Span.checked_of_le (Nat.le_of_lt hlt), h.stands.offset_eq, hcode]
          exact congrArg Except.ok (Assembly.finish_nil_error h.sound
            ⟨.unterminated, ⟨t.start, size front + size (dropEnding (body ++ ending))⟩⟩).symm
      | none =>
        have hparts := Assembly.putAll_goesTo hbehind.sound (partsOfRow r'.row)
          ((Reader.readLines { r' with recent := [] } more).rows.flatMap partsOfRow)
          (Reader.readLines { r' with recent := [] } more).ending
        simp only [Option.map_none, flushLine_eq hmirrors.items, List.flatMap_cons, ← hcode]
        cases hput : (partsOfRow r'.row).foldlM Assembly.put p'.code with
        | error stop =>
          rw [hput] at hparts
          cases hparts with
          | halt hdraft => exact congrArg Except.ok hdraft.symm
        | ok code =>
          rw [hput] at hparts
          cases hparts with
          | on hsound hdraft =>
            rw [hdraft]
            exact ih (hbehind.atLine_of_row hinside hsound) hsource'

end Templates

end ByteParser

/-- **Reading a template by offsets meets no defect and gives its draft.** -/
theorem Draft.readAt_eq (source : List Char) : readAt source = .ok (ofText source) := by
  have hline : ByteParser.AtLine source {} .initial [] :=
    ⟨⟨rfl, rfl, .nil⟩, ⟨[], [], .empty⟩, Scanner.standsBehind_initial,
      Delimiters.standard_isUnbroken, (fun t ht => by cases ht), fun _ => rfl⟩
  have hdraft := ByteParser.AtLine.parseLines_eq (lines_isLines source) hline
    (by rw [lines_flatten, List.nil_append])
  rw [readAt, linesAt_eq]
  exact hdraft.trans (congrArg Except.ok (Assembly.finish_ofText source))

end Stencil
