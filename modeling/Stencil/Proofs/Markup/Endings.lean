import Mathlib.Data.List.Forall2
import Mathlib.Tactic.Lemma
import Stencil.Markup.Part
import Stencil.Proofs.Markup.Joins
import Stencil.Proofs.Text.Endings

/-!
# Templates with other line endings

A template whose lines end with `\n` and the one with `\r\n` in place of it are read side by side.
The lexers find the same tags, except that the comments which join lines differ in their bodies, and
the texts between them differ only in their endings. So the readers either both stop at a fault or
gather rows that correspond, and the same tags stand alone.

## Main definitions

* `Piece.Crlf`, `Item.Crlf`, `Part.Crlf` — a part of a template and its form with other endings.
* `Scanner.Crlf`, `Reader.Crlf` — the states in which the two templates are read.
* `Reading.Crlf` — what is read of the two.

## Main results

* `Tag.ofBody_crlf` — a tag that may run over the end of a line is read alike.
* `Scanner.Crlf.next` — a step over a line with either ending.
* `Lexer.lexLine_crlf` — lexing a line with either ending.
* `Reader.Crlf.readLines`, `Reading.ofText_crlf` — reading a template with either ending.
* `partsOfRow_crlf` — what a row contributes.
-/

namespace Stencil.Markup

open Stencil.Text

/-! ## Outcomes -/

/-- Two outcomes correspond: either both are faults or both are results. -/
inductive SameOutcome {ε ε' α β : Type} (E : ε → ε' → Prop) (R : α → β → Prop) :
    Except ε α → Except ε' β → Prop where
  | error {e : ε} {e' : ε'} : E e e' → SameOutcome E R (.error e) (.error e')
  | ok {a : α} {b : β} : R a b → SameOutcome E R (.ok a) (.ok b)

/-- Any two faults correspond. -/
def AnyFault {ε : Type} (_ _ : ε) : Prop := True

/-- What goes on alike behind outcomes that correspond has outcomes that correspond. -/
lemma SameOutcome.bind {ε ε' α β α' β' : Type} {E : ε → ε' → Prop} {R : α → β → Prop}
    {S : α' → β' → Prop} {x : Except ε α} {y : Except ε' β} (h : SameOutcome E R x y)
    {f : α → Except ε α'} {g : β → Except ε' β'}
    (hrest : ∀ a b, R a b → SameOutcome E S (f a) (g b)) :
    SameOutcome E S (x >>= f) (y >>= g) := by
  cases h with
  | error he => exact .error he
  | ok hab => exact hrest _ _ hab

/-! ## Tags -/

/-- Whether a body starts like a comment does not depend on its endings. -/
@[simp]
lemma startsComment_crlf (body : List Char) : startsComment (crlf body) = startsComment body := by
  rw [startsComment, startsComment, head?_trimStart_crlf]

/-- What starts like a comment is one, or has three braces and cannot be read. -/
lemma Tag.ofBody_of_startsComment {body : List Char} (h : startsComment body = true) :
    ofBody false body = .ok .comment ∧ ∃ fault, ofBody true body = .error fault := by
  obtain ⟨rest, hrest⟩ := exists_trim_eq_cons (of_decide_eq_true h)
  constructor
  · simp only [ofBody, hrest]
    rfl
  · simp only [ofBody, hrest, if_true, pathOfContent, List.isEmpty_cons, ofText?_bang]
    exact ⟨_, rfl⟩

/-- **A tag that may run over the end of a line is read alike**, if it can be read at all: only
a comment does so. -/
theorem Tag.ofBody_crlf {body : List Char} (h : IsJoinable body) (triple : Bool) :
    SameOutcome AnyFault Eq (ofBody triple body) (ofBody triple (crlf body)) := by
  rcases h with hbody | hstart
  · rw [hbody.crlf_eq]
    cases ofBody triple body with
    | error fault => exact .error trivial
    | ok t => exact .ok rfl
  · have hcomment := startsComment_of_beforeBreak hstart
    obtain ⟨hplain, fault, hfault⟩ := ofBody_of_startsComment hcomment
    obtain ⟨hplain', fault', hfault'⟩ :=
      ofBody_of_startsComment ((startsComment_crlf body).trans hcomment)
    cases triple with
    | true =>
      rw [hfault, hfault']
      exact .error trivial
    | false =>
      rw [hplain, hplain']
      exact .ok rfl

/-! ## Openers -/

namespace Delimiters

variable {d : Delimiters}

/-- A tag starts at the front of a text whichever ending this has. -/
lemma openerAt_crlf (hd : d.IsUnbroken) (cs : List Char) :
    d.openerAt (crlf cs) = d.openerAt cs := by
  have htriple : tripleOpener.isPrefixOf (crlf cs) = tripleOpener.isPrefixOf cs :=
    isPrefixOf_crlf (hd.opening true) cs
  rw [openerAt, openerAt, isPrefixOf_crlf hd.1, htriple]

/-- No tag starts at a line break. -/
lemma openerAt_cons_of_isBreak (hproper : d.IsProper) (hd : d.IsUnbroken) {c : Char}
    (hc : isBreak c = true) (cs : List Char) : d.openerAt (c :: cs) = none := by
  have htriple : tripleOpener.isPrefixOf (c :: cs) = false :=
    isPrefixOf_cons_of_isBreak (hd.opening true) (opening_ne_nil hproper true) hc cs
  rw [openerAt, isPrefixOf_cons_of_isBreak hd.1 hproper.1 hc, htriple]

/-- **The first tag is found whichever ending the text has.** -/
theorem cutAtOpener_crlf (hproper : d.IsProper) (hd : d.IsUnbroken) (cs : List Char) :
    d.cutAtOpener (crlf cs) =
      (d.cutAtOpener cs).map fun (before, triple, found) => (crlf before, triple, crlf found) := by
  induction cs with
  | nil => rfl
  | cons c cs ih =>
    by_cases h : c = '\n'
    · subst h
      have hbreak := fun (c : Char) (hc : isBreak c = true) (ds : List Char) =>
        openerAt_cons_of_isBreak hproper hd hc ds
      rw [crlf_cons_lf, cutAtOpener, hbreak '\r' (by decide), cutAtOpener, hbreak '\n' (by decide),
        cutAtOpener, hbreak '\n' (by decide), ih]
      cases d.cutAtOpener cs <;> rfl
    · have hopen := openerAt_crlf hd (c :: cs)
      rw [crlf_cons_of_ne h] at hopen
      rw [crlf_cons_of_ne h, cutAtOpener, cutAtOpener, hopen]
      cases d.openerAt (c :: cs) with
      | some triple => simp [crlf_cons_of_ne h]
      | none =>
        simp only [ih]
        cases d.cutAtOpener cs with
        | none => rfl
        | some found => simp [crlf_cons_of_ne h]

end Delimiters

/-! ## Scanning -/

/-- A piece and its form with other endings, which may start at another offset. A tag may only hold
a line break if it has started like a comment in front of it. -/
inductive Piece.Crlf : Piece → Piece → Prop where
  | text (start start' : Nat) (content : List Char) :
      Crlf (.text start content) (.text start' (crlf content))
  | tag (start start' : Nat) (triple : Bool) (opener closer : List Char) {body : List Char} :
      IsJoinable body →
        Crlf (.tag start triple opener body closer) (.tag start' triple opener (crlf body) closer)

/-- A tag that is open, and its form with other endings. -/
structure OpenTag.Crlf (t t' : OpenTag) : Prop where
  triple : t'.triple = t.triple
  body : t'.body = crlf t.body

/-- Two scanners that stand at the same place, the second one in the template with other endings. -/
structure Scanner.Crlf (s s' : Scanner) : Prop where
  delimiters : s'.delimiters = s.delimiters
  inside : Option.Rel OpenTag.Crlf s.inside s'.inside

/-- Whether an open tag is a comment does not depend on the endings. -/
lemma OpenTag.Crlf.isComment_eq {t t' : OpenTag} (h : t.Crlf t') : t'.isComment = t.isComment := by
  rw [OpenTag.isComment_eq, OpenTag.isComment_eq, h.body, startsComment_crlf]

/-- The same pair is active behind a piece with either ending. -/
lemma Piece.Crlf.activeAfter_eq {p p' : Piece} (h : p.Crlf p') (d : ProperDelimiters) :
    p'.activeAfter d = p.activeAfter d := by
  cases h with
  | text start start' content => rfl
  | @tag start start' triple opener closer body hbody =>
    have hread := Tag.ofBody_crlf hbody triple
    simp only [Piece.activeAfter]
    generalize Tag.ofBody triple body = x at hread
    generalize Tag.ofBody triple (crlf body) = y at hread
    cases hread with
    | error _ => rfl
    | ok heq => rw [heq]

/-- **A step over a line with either ending** completes pieces that correspond and leaves the same
of the line. -/
theorem Scanner.Crlf.next {s s' : Scanner} (h : s.Crlf s') (hproper : s.delimiters.IsProper)
    (hd : s.delimiters.IsUnbroken) (rest : List Char)
    (htags : ∀ start triple opener body closer,
      (s.next rest).2.1 = some (.tag start triple opener body closer) → IsJoinable body) :
    (s.next rest).1.Crlf (s'.next (crlf rest)).1 ∧
      Option.Rel Piece.Crlf (s.next rest).2.1 (s'.next (crlf rest)).2.1 ∧
        (s'.next (crlf rest)).2.2 = crlf (s.next rest).2.2 := by
  obtain ⟨delimiters, offset, inside⟩ := s
  obtain ⟨delimiters', offset', inside'⟩ := s'
  obtain ⟨hdelimiters, hinside⟩ := h
  obtain rfl : delimiters' = delimiters := hdelimiters
  cases hinside with
  | none =>
    have hcut := Delimiters.cutAtOpener_crlf hproper hd rest
    cases hfound : delimiters'.cutAtOpener rest with
    | none =>
      rw [hfound] at hcut
      simp only [Scanner.next, hfound, hcut, Option.map_none]
      exact ⟨⟨rfl, .none⟩, .some (.text _ _ _), rfl⟩
    | some parts =>
      obtain ⟨before, triple, found⟩ := parts
      rw [hfound] at hcut
      cases before with
      | nil =>
        have hopener := (Delimiters.cutAtOpener_append hfound).2
        simp only [Scanner.next, hfound, hcut, Option.map_some, crlf_nil]
        exact ⟨⟨rfl, .some ⟨rfl, rfl⟩⟩, .none, drop_crlf (hd.opening triple) hopener⟩
      | cons c before =>
        -- what comes before the tag is not empty with the other endings either
        obtain ⟨c', before', hbefore⟩ := List.exists_cons_of_ne_nil
          (fun hnil => List.cons_ne_nil c before (crlf_eq_nil_iff.1 hnil))
        simp only [Scanner.next, hfound, hcut, Option.map_some, hbefore]
        rw [← hbefore]
        exact ⟨⟨rfl, .none⟩, .some (.text _ _ _), trivial⟩
  | @some t t' ht =>
    have hcut := cutAt_crlf (hd.closing t.triple) (Delimiters.closing_ne_nil hproper t.triple) rest
    cases hfound : cutAt (delimiters'.closing t.triple) rest with
    | none =>
      rw [hfound] at hcut
      simp only [Scanner.next, hfound, ht.triple, hcut, Option.map_none]
      refine ⟨⟨rfl, .some ⟨ht.triple, ?_⟩⟩, .none, rfl⟩
      rw [OpenTag.body_extend, OpenTag.body_extend, ht.body, crlf_append]
    | some parts =>
      obtain ⟨before, after⟩ := parts
      rw [hfound] at hcut
      simp only [Scanner.next, hfound] at htags
      simp only [Scanner.next, hfound, ht.triple, hcut, Option.map_some, ht.body, ← crlf_append]
      exact ⟨⟨rfl, .none⟩, .some (.tag _ _ _ _ _ (htags _ _ _ _ _ rfl)), trivial⟩

/-! ## Lexing a line -/

namespace Lexer

variable {l l' : Lexer}

/-- Lexers that stand at the same place have the same active pair. -/
lemma pair_eq_of_crlf (h : l.scanner.Crlf l'.scanner) : l'.pair = l.pair :=
  Subtype.ext h.delimiters

/-- Behind pieces that correspond, lexers stand at the same place. -/
lemma crlf_behind (h : l.scanner.Crlf l'.scanner) {piece piece' : Option Piece}
    (hpiece : Option.Rel Piece.Crlf piece piece') :
    (l.behind piece).scanner.Crlf (l'.behind piece').scanner := by
  cases hpiece with
  | none => exact h
  | some hp =>
    refine ⟨?_, h.inside⟩
    show (Piece.activeAfter l'.pair _).val = (Piece.activeAfter l.pair _).val
    rw [pair_eq_of_crlf h, hp.activeAfter_eq]

/-- **Lexing a line with either ending** gives pieces that correspond.

**Proof sketch.** Induction on the steps through the line. -/
theorem lexLine_crlf (h : l.scanner.Crlf l'.scanner) (hd : l.pair.val.IsUnbroken)
    {rest : List Char}
    (htags : ∀ start triple opener body closer,
      .tag start triple opener body closer ∈ (l.lexLine rest).1 → IsJoinable body) :
    List.Forall₂ Piece.Crlf (l.lexLine rest).1 (l'.lexLine (crlf rest)).1 ∧
      (l.lexLine rest).2.scanner.Crlf (l'.lexLine (crlf rest)).2.scanner := by
  fun_induction lexLine l rest generalizing l' with
  | case1 l =>
    rw [crlf_nil, lexLine_nil]
    exact ⟨.nil, h⟩
  | case2 =>
    rename_i l rest hne step pieces l₁ hlex ih
    have hne' : crlf rest ≠ [] := fun hnil => hne (crlf_eq_nil_iff.1 hnil)
    obtain ⟨hscanner, hpiece, hleft⟩ := h.next l.proper hd rest
      fun start triple opener body closer hstep =>
        htags start triple opener body closer
          (List.mem_append_left _ (Option.mem_toList.2 hstep))
    have hbehind : ((l.scanned rest).behind step.2.1).scanner.Crlf
        ((l'.scanned (crlf rest)).behind (l'.scanner.next (crlf rest)).2.1).scanner :=
      crlf_behind hscanner hpiece
    have hd' : ((l.scanned rest).behind step.2.1).pair.val.IsUnbroken :=
      pair_behind_isUnbroken (l.pair_scanned rest ▸ hd) step.2.1
    have hih := ih hbehind hd' (by
      rw [hlex]
      exact fun start triple opener body closer hmem =>
        htags start triple opener body closer (List.mem_append_right _ hmem))
    rw [hlex] at hih
    rw [lexLine_of_ne_nil l' hne']
    simp only [hleft]
    refine ⟨List.rel_append ?_ hih.1, hih.2⟩
    show List.Forall₂ Piece.Crlf (l.scanner.next rest).2.1.toList
      (l'.scanner.next (crlf rest)).2.1.toList
    generalize (l.scanner.next rest).2.1 = completed at hpiece ⊢
    generalize (l'.scanner.next (crlf rest)).2.1 = completed' at hpiece ⊢
    cases hpiece with
    | none => exact .nil
    | some hp => exact .cons hp .nil

end Lexer

/-! ## Reading a template -/

/-- An item and its form with other endings, which may cover another range. -/
inductive Item.Crlf : Item → Item → Prop where
  | text (content : List Char) : Crlf (.text content) (.text (crlf content))
  | tag (t : Tag) (span span' : Span) : Crlf (.tag t span) (.tag t span')

/-- As many section tags are open. -/
def SameDepth (opened opened' : List Span) : Prop := opened'.length = opened.length

/-- Two readers that stand at the same place, the second one in the template with other endings. -/
structure Reader.Crlf (r r' : Reader) : Prop where
  scanner : r.scanner.Crlf r'.scanner
  opened : SameDepth r.opened r'.opened
  recent : List.Forall₂ Item.Crlf r.recent r'.recent

/-- What is read of a template and of the one with other endings: rows that correspond, and either
a fault in both or as many open sections. -/
structure Reading.Crlf (a b : Reading) : Prop where
  rows : List.Forall₂ (List.Forall₂ Item.Crlf) a.rows b.rows
  ending : SameOutcome AnyFault SameDepth a.ending b.ending

namespace Piece.Crlf

variable {p p' : Piece} {opened opened' : List Span}

/-- A piece gives the same item with either ending. -/
lemma item? (h : p.Crlf p') : Option.Rel Item.Crlf p.item? p'.item? := by
  cases h with
  | text start start' content => exact .some (.text content)
  | @tag start start' triple opener closer body hbody =>
    have hread := Tag.ofBody_crlf hbody triple
    simp only [Piece.item?]
    generalize Tag.ofBody triple body = x at hread
    generalize Tag.ofBody triple (crlf body) = y at hread
    cases hread with
    | error _ => exact .none
    | ok heq =>
      rw [heq]
      exact .some (.tag _ _ _)

/-- **A piece is checked alike with either ending.** -/
theorem takeIn (h : p.Crlf p') (hopened : SameDepth opened opened') :
    SameOutcome AnyFault SameDepth (p.takeIn opened) (p'.takeIn opened') := by
  cases h with
  | text start start' content => exact .ok hopened
  | @tag start start' triple opener closer body hbody =>
    have hread := Tag.ofBody_crlf hbody triple
    simp only [Piece.takeIn]
    generalize Tag.ofBody triple body = x at hread
    generalize Tag.ofBody triple (crlf body) = y at hread
    cases hread with
    | error _ => exact .error trivial
    | @ok t u heq =>
      subst heq
      have hlength : opened'.length = opened.length := hopened
      cases t with
      | opening inverted path => exact .ok (congrArg Nat.succ hopened)
      | closing path =>
        refine .ok ?_
        show opened'.tail.length = opened.tail.length
        rw [List.length_tail, List.length_tail, hlength]
      | delimiters pair =>
        have hempty : opened'.isEmpty = opened.isEmpty := by
          rw [Bool.eq_iff_iff, List.isEmpty_iff_length_eq_zero, List.isEmpty_iff_length_eq_zero,
            hlength]
        simp only [hempty]
        split
        · exact .ok hopened
        · exact .error trivial
      | interpolation escaped path => exact .ok hopened
      | inclusion name => exact .ok hopened
      | comment => exact .ok hopened

/-- Pieces are checked alike with either ending. -/
lemma foldlM_takeIn {pieces pieces' : List Piece} (h : List.Forall₂ Piece.Crlf pieces pieces')
    (hopened : SameDepth opened opened') :
    SameOutcome AnyFault SameDepth (pieces.foldlM Piece.takeIn opened)
      (pieces'.foldlM Piece.takeIn opened') := by
  induction h generalizing opened opened' with
  | nil => exact .ok hopened
  | cons hp _ ih =>
    rw [List.foldlM_cons, List.foldlM_cons]
    exact (hp.takeIn hopened).bind fun _ _ hspans => ih hspans

end Piece.Crlf

/-- **Lines are read alike with either ending.**

**Proof sketch.** Induction on the lines. The tags that a line completes may all run over the end of
a line, and so may one that is carried to the next line, since it is a comment. -/
theorem Reader.Crlf.readLines {r r' : Reader} {lns : List (List Char)} (hlines : IsLines lns)
    (h : r.Crlf r') (hd : r.lexer.pair.val.IsUnbroken)
    (hinside : ∀ t, r.scanner.inside = some t → startsComment (beforeBreak t.body) = true) :
    (r.readLines lns).Crlf (r'.readLines (lns.map crlf)) := by
  induction hlines generalizing r r' with
  | nil =>
    rw [List.map_nil, Reader.readLines, Reader.readLines]
    have hrel := h.scanner.inside
    generalize r.scanner.inside = x at hrel
    generalize r'.scanner.inside = y at hrel
    cases hrel with
    | none => exact ⟨.nil, .ok h.opened⟩
    | some _ => exact ⟨.nil, .error trivial⟩
  | @cons body ending more hbody hends hmore ih =>
    obtain ⟨htags, hopen⟩ := Lexer.lexLine_joinable (l := r.lexer) hd
      (fun t ht => .inr (hinside t ht)) hbody hends.isBreak
    have hd' := (Lexer.upcoming_lexLine (l := r.lexer) hd hends.sealed).2
    have hlexers : r.lexer.scanner.Crlf r'.lexer.scanner := h.scanner
    obtain ⟨hpieces, hscanner⟩ := Lexer.lexLine_crlf hlexers hd htags
    have hfold := Piece.Crlf.foldlM_takeIn hpieces h.opened
    have hitems := List.rel_filterMap (fun _ _ hp => Piece.Crlf.item? hp) hpieces
    rw [List.map_cons, readLines_cons, readLines_cons]
    generalize r.lexer.lexLine (body ++ ending) = lexed at *
    generalize r'.lexer.lexLine (crlf (body ++ ending)) = lexed' at *
    generalize lexed.1.foldlM Piece.takeIn r.opened = x at hfold
    generalize lexed'.1.foldlM Piece.takeIn r'.opened = y at hfold
    cases hfold with
    | error _ => exact ⟨.nil, .error trivial⟩
    | @ok opened opened' hspans =>
      have hrecent : List.Forall₂ Item.Crlf (r.behind lexed.2 lexed.1 opened).recent
          (r'.behind lexed'.2 lexed'.1 opened').recent :=
        List.rel_append (List.rel_reverse hitems) h.recent
      simp only [behind]
      have hrel := hscanner.inside
      cases hplain : lexed.2.scanner.inside with
      | none =>
        rw [hplain] at hrel
        cases hcrlf : lexed'.2.scanner.inside with
        | some t' =>
          rw [hcrlf] at hrel
          cases hrel
        | none =>
          have hreaders : Reader.Crlf ⟨lexed.2.scanner, lexed.2.proper, opened, []⟩
              ⟨lexed'.2.scanner, lexed'.2.proper, opened', []⟩ := ⟨hscanner, hspans, .nil⟩
          have hmore := ih hreaders hd' (by simp [hplain])
          exact ⟨.cons (List.rel_reverse hrecent) hmore.rows, hmore.ending⟩
      | some t =>
        rw [hplain] at hrel
        cases hcrlf : lexed'.2.scanner.inside with
        | none =>
          rw [hcrlf] at hrel
          cases hrel
        | some t' =>
          rw [hcrlf] at hrel
          cases hrel with
          | some ht =>
            simp only [ht.isComment_eq]
            split
            · rename_i hcomment
              refine ih ⟨hscanner, hspans, hrecent⟩ hd' fun u hu => ?_
              obtain rfl : t = u := Option.some.inj (hplain.symm.trans hu)
              exact startsComment_beforeBreak_of_isComment (hopen t hplain) hends.isBreak hcomment
            · exact ⟨.nil, .error trivial⟩

/-- **A template is read alike with either ending.** -/
theorem Reading.ofText_crlf {cs : List Char} (h : '\r' ∉ cs) :
    (Reading.ofText cs).Crlf (Reading.ofText (crlf cs)) := by
  rw [Reading.ofText, Reading.ofText, lines_crlf h]
  refine Reader.Crlf.readLines (lines_isLines cs) ⟨⟨rfl, .none⟩, rfl, .nil⟩
    Delimiters.standard_isUnbroken ?_
  intro t ht
  cases ht

/-! ## What a row contributes -/

/-- What a row contributes, and its form with other endings. -/
inductive Part.Crlf : Part → Part → Prop where
  | text (content : List Char) : Crlf (.text content) (.text (crlf content))
  | tag (t : Tag) (span span' : Span) (indent : List Char) :
      Crlf (.tag t span indent) (.tag t span' (crlf indent))

/-- The parts in front of the first one without a property, and those from it on. -/
lemma forall₂_takeWhile_dropWhile {α β : Type} {R : α → β → Prop} {p : α → Bool} {q : β → Bool}
    (hpq : ∀ a b, R a b → q b = p a) {xs : List α} {ys : List β} (h : List.Forall₂ R xs ys) :
    List.Forall₂ R (xs.takeWhile p) (ys.takeWhile q) ∧
      List.Forall₂ R (xs.dropWhile p) (ys.dropWhile q) := by
  induction h with
  | nil => exact ⟨.nil, .nil⟩
  | @cons x y xs ys hxy hrest ih =>
    rw [List.takeWhile_cons, List.takeWhile_cons, List.dropWhile_cons, List.dropWhile_cons,
      hpq x y hxy]
    split
    · exact ⟨.cons hxy ih.1, ih.2⟩
    · exact ⟨.nil, .cons hxy hrest⟩

/-- All parts have a property if all corresponding ones do. -/
lemma all_eq_of_forall₂ {α β : Type} {R : α → β → Prop} {p : α → Bool} {q : β → Bool}
    (hpq : ∀ a b, R a b → q b = p a) {xs : List α} {ys : List β} (h : List.Forall₂ R xs ys) :
    ys.all q = xs.all p := by
  induction h with
  | nil => rfl
  | @cons x y xs ys hxy _ ih => rw [List.all_cons, List.all_cons, hpq x y hxy, ih]

/-- Whether an item is blank text does not depend on the endings. -/
lemma Item.Crlf.isBlankText_eq (i i' : Item) (h : i.Crlf i') : isBlankText i' = isBlankText i := by
  cases h with
  | text content => exact all_isBlank_crlf content
  | tag t span span' => rfl

section partsOfRow

variable {row row' : Row}

/-- The same tag stands alone with either ending. -/
lemma standalone?_crlf (h : List.Forall₂ Item.Crlf row row') :
    Option.Rel Part.Crlf (standalone? row) (standalone? row') := by
  obtain ⟨hblanks, hrest⟩ := forall₂_takeWhile_dropWhile Item.Crlf.isBlankText_eq h
  simp only [standalone?]
  generalize row.takeWhile isBlankText = blanks at hblanks
  generalize row'.takeWhile isBlankText = blanks' at hblanks
  generalize row.dropWhile isBlankText = found at hrest
  generalize row'.dropWhile isBlankText = found' at hrest
  cases hrest with
  | nil => exact .none
  | cons hitem hothers =>
    cases hitem with
    | text content => exact .none
    | tag t span span' =>
      simp only [all_eq_of_forall₂ Item.Crlf.isBlankText_eq hothers]
      split
      · cases hblanks with
        | nil => exact .some (.tag t span span' [])
        | cons hblank hmore =>
          cases hblank with
          | tag _ _ _ => exact .some (.tag t span span' [])
          | text indent =>
            cases hmore with
            | nil => exact .some (.tag t span span' indent)
            | cons _ _ => exact .some (.tag t span span' [])
      · exact .none

/-- **What a row contributes corresponds with either ending.** -/
theorem partsOfRow_crlf (h : List.Forall₂ Item.Crlf row row') :
    List.Forall₂ Part.Crlf (partsOfRow row) (partsOfRow row') := by
  have halone := standalone?_crlf h
  simp only [partsOfRow]
  generalize standalone? row = x at halone
  generalize standalone? row' = y at halone
  cases halone with
  | some hpart => exact .cons hpart .nil
  | none =>
    refine List.rel_map ?_ h
    intro item item' hitem
    cases hitem with
    | text content => exact .text content
    | tag t span span' => exact .tag t span span' []

end partsOfRow

end Stencil.Markup
