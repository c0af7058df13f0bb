import Mathlib.Tactic.Lemma
import Stencil.Proofs.Markup.Scans

/-!
# What reading a template checks

Reading a template is lexing it line by line, with three checks on the way: each tag is read as
soon as it is complete, a directive may not stand in a section, and a tag that is open at the end
of a line must be a comment.

## Main definitions

* `Piece.takeIn` — the check of a piece, given the section tags that are open.
* `Lexer.Carries` — only comments are carried from one line to the next.

## Main results

* `Reader.readLine_eq` — reading a line is lexing it and checking the pieces.
* `Reader.readLines_ending_iff` — reading lines succeeds if lexing and checking them does.
* `Reader.flatten_rows` — the rows that are read hold the items of all pieces.
-/

namespace Stencil.Markup

open Stencil.Text

/-! ## Checking pieces -/

namespace Piece

/-- The section tags that are open behind a piece. A tag that cannot be read is a fault, and so
is a directive in a section. -/
def takeIn (opened : List Span) (piece : Piece) : Except MarkupError (List Span) :=
  match piece with
  | .text _ _ => .ok opened
  | .tag _ triple _ body _ =>
    match Tag.ofBody triple body with
    | .error fault => .error ⟨.tag fault, piece.span⟩
    | .ok (.opening _ _) => .ok (piece.span :: opened)
    | .ok (.closing _) => .ok opened.tail
    | .ok (.delimiters _) =>
      if opened.isEmpty then .ok opened else .error ⟨.delimitersInSection, piece.span⟩
    | .ok _ => .ok opened

/-- The item that a piece gives, unless it is a tag that cannot be read. -/
def item? (piece : Piece) : Option Item :=
  match piece with
  | .text _ content => some (.text content)
  | .tag _ triple _ body _ =>
    (Tag.ofBody triple body).toOption.map fun t => .tag t piece.span

end Piece

namespace Reader

/-- The lexer with which a template is read. -/
def lexer (r : Reader) : Lexer := ⟨r.scanner, r.proper⟩

/-- The reader behind some pieces. -/
def behind (r : Reader) (l : Lexer) (pieces : List Piece) (opened : List Span) : Reader :=
  ⟨l.scanner, l.proper, opened, (pieces.filterMap Piece.item?).reverse ++ r.recent⟩

/-- The reader behind two lists of pieces. -/
lemma behind_behind (r : Reader) (l l' : Lexer) (xs ys : List Piece) (opened spans : List Span) :
    (r.behind l xs opened).behind l' ys spans = r.behind l' (xs ++ ys) spans := by
  simp [behind]

/-- Taking in a piece is checking it. -/
lemma accept_eq (r : Reader) (piece : Piece) :
    r.accept piece =
      (piece.takeIn r.opened).map (r.behind (r.lexer.behind (some piece)) [piece]) := by
  cases piece with
  | text start content => rfl
  | tag start triple opener body closer =>
    cases hbody : Tag.ofBody triple body with
    | error fault => simp only [accept, Piece.takeIn, hbody, Except.map]
    | ok t =>
      have hbehind : ∀ opened, r.behind (r.lexer.behind
            (some (.tag start triple opener body closer)))
            [.tag start triple opener body closer] opened =
          ⟨{ r.scanner with delimiters := t.activeAfter r.lexer.pair },
            (t.activeAfter r.lexer.pair).property, opened,
            .tag t (Piece.tag start triple opener body closer).span :: r.recent⟩ := by
        intro opened
        simp [behind, Lexer.behind, Piece.activeAfter, Piece.item?, hbody, Except.toOption, lexer]
      simp only [accept, Piece.takeIn, hbody]
      cases t with
      | delimiters pair =>
        simp only [acceptTag]
        split
        · exact congrArg Except.ok (hbehind r.opened).symm
        · rfl
      | opening inverted path => exact congrArg Except.ok (hbehind _).symm
      | closing path => exact congrArg Except.ok (hbehind _).symm
      | interpolation escaped path => exact congrArg Except.ok (hbehind _).symm
      | inclusion name => exact congrArg Except.ok (hbehind _).symm
      | comment => exact congrArg Except.ok (hbehind _).symm

/-- Taking in what a step completed is checking it. -/
lemma accept?_eq (r : Reader) (piece : Option Piece) :
    r.accept? piece =
      (piece.toList.foldlM Piece.takeIn r.opened).map
        (r.behind (r.lexer.behind piece) piece.toList) := by
  cases piece with
  | none => rfl
  | some piece =>
    show r.accept piece = _
    rw [accept_eq, Option.toList_some, List.foldlM_cons]
    cases piece.takeIn r.opened <;> rfl

/-- Taking in what a step over a line completed is checking it. -/
lemma accept?_scanned (r : Reader) (rest : List Char) (piece : Option Piece) :
    (r.scanned rest).accept? piece =
      (piece.toList.foldlM Piece.takeIn r.opened).map
        ((r.scanned rest).behind ((r.lexer.scanned rest).behind piece) piece.toList) :=
  accept?_eq (r.scanned rest) piece

/-- **Reading a line is lexing it and checking the pieces.**

**Proof sketch.** Induction on the steps through the line. A fault in the pieces that are met
first ends the reading, while lexing goes on to the end of the line. -/
theorem readLine_eq (r : Reader) (rest : List Char) :
    r.readLine rest =
      ((r.lexer.lexLine rest).1.foldlM Piece.takeIn r.opened).map
        (r.behind (r.lexer.lexLine rest).2 (r.lexer.lexLine rest).1) := by
  fun_induction readLine r rest with
  | case1 r =>
    rw [Lexer.lexLine_nil]
    rfl
  | case2 r rest hne step fault hfault =>
    rw [accept?_scanned] at hfault
    rw [Lexer.lexLine_of_ne_nil r.lexer hne, List.foldlM_append]
    show _ = Except.map _ (step.2.1.toList.foldlM Piece.takeIn r.opened >>= _)
    cases hfold : step.2.1.toList.foldlM Piece.takeIn r.opened with
    | error found =>
      rw [hfold] at hfault
      obtain rfl : found = fault := Except.error.inj hfault
      rfl
    | ok opened =>
      rw [hfold] at hfault
      cases hfault
  | case3 r rest hne step r' hr' ih =>
    rw [accept?_scanned] at hr'
    rw [ih, Lexer.lexLine_of_ne_nil r.lexer hne, List.foldlM_append]
    show _ = Except.map _ (step.2.1.toList.foldlM Piece.takeIn r.opened >>= _)
    cases hfold : step.2.1.toList.foldlM Piece.takeIn r.opened with
    | error fault =>
      rw [hfold] at hr'
      cases hr'
    | ok opened =>
      rw [hfold] at hr'
      obtain rfl := Except.ok.inj hr'
      show _ = Except.map _ (List.foldlM Piece.takeIn opened _)
      refine congrArg (fun f => Except.map f _) ?_
      funext spans
      exact behind_behind r _ _ _ _ _ spans

end Reader

/-- Only comments are carried from one line to the next, and nothing behind the last one. -/
def Lexer.Carries (l : Lexer) : List (List Char) → Prop
  | [] => l.scanner.inside = none
  | line :: more =>
    (∀ t, (l.lexLine line).2.scanner.inside = some t → t.isComment = true) ∧
      (l.lexLine line).2.Carries more

namespace Reader

/-- Reading lines goes on behind a line in which a comment is left open, or no tag at all. -/
lemma readLines_cons (r : Reader) (line : List Char) (more : List (List Char)) :
    r.readLines (line :: more) =
      match (r.lexer.lexLine line).1.foldlM Piece.takeIn r.opened with
      | .error e => ⟨[], .error e⟩
      | .ok opened =>
        let r' := r.behind (r.lexer.lexLine line).2 (r.lexer.lexLine line).1 opened
        match r'.scanner.inside with
        | some tag =>
          if tag.isComment then r'.readLines more
          else
            ⟨[], .error ⟨.unterminated,
              ⟨tag.start, r.scanner.offset + size (dropEnding line)⟩⟩⟩
        | none =>
          let reading := ({ r' with recent := [] } : Reader).readLines more
          { reading with rows := r'.row :: reading.rows } := by
  rw [readLines, readLine_eq]
  cases (r.lexer.lexLine line).1.foldlM Piece.takeIn r.opened <;> rfl

/-- **Reading lines succeeds if lexing and checking them does.** -/
theorem readLines_ending_iff (r : Reader) (lns : List (List Char)) (spans : List Span) :
    (r.readLines lns).ending = .ok spans ↔
      r.lexer.Carries lns ∧
        (r.lexer.lexLines lns).1.foldlM Piece.takeIn r.opened = .ok spans := by
  induction lns generalizing r with
  | nil =>
    rw [readLines, Lexer.Carries, Lexer.lexLines]
    show _ ↔ r.scanner.inside = none ∧ Except.ok r.opened = Except.ok spans
    cases hinside : r.scanner.inside with
    | none => simp
    | some t => simp
  | cons line more ih =>
    rw [readLines_cons, Lexer.Carries, Lexer.lexLines]
    simp only [List.foldlM_append]
    cases hfold : (r.lexer.lexLine line).1.foldlM Piece.takeIn r.opened with
    | error fault =>
      show Except.error fault = _ ↔ _ ∧ Except.error fault = _
      simp
    | ok opened =>
      have hmore := fun recent => ih ⟨(r.lexer.lexLine line).2.scanner,
        (r.lexer.lexLine line).2.proper, opened, recent⟩
      simp only [behind]
      cases hinside : (r.lexer.lexLine line).2.scanner.inside with
      | some t =>
        simp only [Option.some.injEq, forall_eq']
        split
        · rename_i hcomment
          simp only [hcomment, true_and]
          exact hmore _
        · rename_i hcomment
          simp [hcomment]
      | none =>
        simp only [reduceCtorEq, false_implies, implies_true, true_and]
        exact hmore _

/-- The rows that are read hold the items of all pieces. -/
theorem flatten_rows (r : Reader) {lns : List (List Char)} {spans : List Span}
    (h : (r.readLines lns).ending = .ok spans)
    (hrow : r.scanner.inside = none → r.recent = []) :
    (r.readLines lns).rows.flatten =
      r.row ++ (r.lexer.lexLines lns).1.filterMap Piece.item? := by
  induction lns generalizing r with
  | nil =>
    rw [readLines] at h ⊢
    cases hinside : r.scanner.inside with
    | none => simp [row, hrow hinside, Lexer.lexLines]
    | some t => simp [hinside] at h
  | cons line more ih =>
    rw [readLines_cons] at h ⊢
    rw [Lexer.lexLines]
    simp only [List.filterMap_append]
    cases hfold : (r.lexer.lexLine line).1.foldlM Piece.takeIn r.opened with
    | error fault => simp [hfold] at h
    | ok opened =>
      have hmore := fun recent => ih ⟨(r.lexer.lexLine line).2.scanner,
        (r.lexer.lexLine line).2.proper, opened, recent⟩
      simp only [hfold, behind] at h ⊢
      cases hinside : (r.lexer.lexLine line).2.scanner.inside with
      | some t =>
        simp only [hinside] at h hmore ⊢
        split at h
        · rename_i hcomment
          rw [if_pos hcomment, hmore _ h (by simp)]
          simp [row, lexer]
        · simp at h
      | none =>
        simp only [hinside] at h hmore ⊢
        rw [List.flatten_cons, hmore _ h (by simp)]
        simp [row, lexer]

end Reader

end Stencil.Markup
