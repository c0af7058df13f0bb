import Mathlib.Tactic.Lemma
import Stencil.Proofs.Markup.Rows
import Stencil.Proofs.Markup.Stages

/-!
# Comments that run over lines

Whether a tag is a comment is decided twice. A tag that is open at the end of its first line must
have started like a comment there; a tag that is closed is read as a whole. White space in front
of the exclamation mark is passed over both times, but the first time only as far as the end of the
line. So a comment that starts with a blank line is refused, although it would be read as one.

## Main definitions

* `Stage.Aligned` — how a stage lies to the lines of the template.
* `Stage.GetsPast` — reading takes in the tag that comes next.

## Main results

* `Stage.IsReached.aligned` — every stage that is reached lies so.
* `Stage.exists_leads_close` — a comment that is carried is carried to its closer.
* `Stage.gets_past_iff_startsComment` — what the check at the end of the first line amounts to.
* `Stage.gets_past_iff` — the tags over several lines that reading gets past.
-/

namespace Stencil.Markup

open Stencil.Text

/-! ## How stages lie to lines -/

/-- A step that opens a tag at the end of a line does so at the end of a line without an ending. -/
lemma Reader.Step.ending_eq_nil {r r' : Reader} {body ending rest : List Char} {us : List Token}
    {t : OpenTag} (h : Step r (body ++ ending) us r' rest) (hrest : rest = [])
    (hne : body ++ ending ≠ []) (hd : r.pair.val.IsUnbroken)
    (hending : ∀ c ∈ ending, isBreak c = true) (hinside : r'.scanner.inside = some t)
    (ht : t.body = []) : ending = [] := by
  cases h with
  | line _ _ hnone => exact absurd (hnone.symm.trans hinside) (by simp)
  | text _ _ hnone => exact absurd (hnone.symm.trans hinside) (by simp)
  | close _ _ hnone => exact absurd (hnone.symm.trans hinside) (by simp)
  | extend _ _ hextend =>
    obtain rfl := Option.some.inj (hinside.symm.trans hextend)
    rw [OpenTag.body_extend, List.append_eq_nil_iff] at ht
    exact absurd ht.2 hne
  | @enter r' triple start _ hopen =>
    obtain ⟨after, hafter⟩ := Delimiters.opening_prefix_of_openerAt hopen
    have hall : [] ++ r.pair.val.opening triple ++ after = body ++ ending := hafter
    obtain ⟨body', hafter', -⟩ := (hd.opening triple).split_line
      (Delimiters.opening_ne_nil r.pair.property triple) hending hall
    rw [← hafter, List.drop_left, hafter'] at hrest
    exact (List.append_eq_nil_iff.1 hrest).2

namespace Stage

variable {m m' : Stage} {cs : List Char}

/-- No delimiter holds a line break, and what is left of a line has the ending of the line. A tag of
which only the opener stands in a line is the end of the last line, and between two lines only a
comment is open. -/
structure Aligned (m : Stage) : Prop where
  pair : m.reader.pair.val.IsUnbroken
  later : IsLines m.later
  rest : ∀ rest, m.rest = some rest → rest ≠ [] → ∃ body ending, rest = body ++ ending ∧
    Unbroken body ∧ (∀ c ∈ ending, isBreak c = true) ∧ (ending = [] → m.later = [])
  used : m.rest = some [] → ∀ t, m.reader.scanner.inside = some t → t.body = [] → m.later = []
  between : m.rest = none → ∀ t, m.reader.scanner.inside = some t → t.isComment = true

/-- How stages lie to lines is kept. -/
lemma Goes.aligned (h : Goes m m') (hm : m.Aligned) : m'.Aligned := by
  cases h with
  | @enter ps rows r line more =>
    have hlater : IsLines (line :: more) := hm.later
    cases hlater with
    | @cons body ending more hbody hends hmore =>
      refine ⟨hm.pair, hmore, ?_, fun hnil => ?_, by simp⟩
      · rintro rest ⟨⟩ -
        refine ⟨body, ending, rfl, hbody, hends.isBreak, ?_⟩
        rintro rfl
        exact hmore.eq_nil_of_flatten hends.of_nil.2
      · exact absurd (Option.some.inj hnil) hends.ne_nil
  | @scan ps rows r r' rest more hne haccept =>
    obtain ⟨us, hstep⟩ := Reader.exists_step haccept
    obtain ⟨body, ending, rfl, hbody, hending, hlast⟩ := hm.rest rest rfl hne
    refine ⟨hstep.pair_isUnbroken hm.pair, hm.later, ?_, fun hnil t ht hnone => ?_, by simp⟩
    · rintro rest' hsome hne'
      obtain rfl := Option.some.inj hsome
      rcases hstep.in_line hm.pair hbody hending with ⟨hnil, -⟩ | ⟨body', hbody', hunbroken, -⟩
      · exact absurd hnil hne'
      · exact ⟨body', ending, hbody', hunbroken, hending, hlast⟩
    · exact hlast (hstep.ending_eq_nil (Option.some.inj hnil) hne hm.pair hending ht hnone)
  | carry hinside hcomment =>
    refine ⟨hm.pair, hm.later, by simp, by simp, fun _ t ht => ?_⟩
    obtain rfl := Option.some.inj (ht.symm.trans hinside)
    exact hcomment
  | finish houtside =>
    refine ⟨hm.pair, hm.later, by simp, by simp, fun _ t ht => ?_⟩
    exact absurd (houtside.symm.trans ht) (by simp)

/-- **Every stage that is reached lies to the lines of the template as it should.** -/
theorem IsReached.aligned (h : m.IsReached cs) : m.Aligned := by
  induction h with
  | refl =>
    refine ⟨Delimiters.standard_isUnbroken, lines_isLines cs, by simp [start], by simp [start], ?_⟩
    rintro - t ⟨⟩
  | tail _ hgoes ih => exact hgoes.aligned ih

end Stage

/-! ## Reading inside of a tag -/

/-- A comment starts like one. -/
lemma Tag.startsComment_of_comment {triple : Bool} {body : List Char}
    (h : ofBody triple body = .ok .comment) : startsComment body = true := by
  cases triple with
  | true => exact absurd h (ofBody_triple_ne_comment body)
  | false =>
    have hprefix := trim_prefix body
    unfold ofBody at h
    simp only at h
    split at h
    · contradiction
    · split at h
      · exact absurd h (map_ne (by simp))
      · exact absurd h (map_ne (by simp))
      · exact absurd h (map_ne (by simp))
      · exact absurd h (map_ne (by simp))
      · split at h <;> cases h
      · exact absurd h (map_ne (by simp))
      · rename_i rest hrest
        obtain ⟨more, hmore⟩ := hrest ▸ hprefix
        rw [startsComment, ← hmore]
        rfl
      · exact absurd h (map_ne (by simp))

/-- What starts like a comment does so in its first line unless this line is blank. -/
lemma startsComment_beforeBreak_iff {body : List Char} (h : startsComment body = true) :
    startsComment (beforeBreak body) = true ↔ trimStart (beforeBreak body) ≠ [] := by
  rw [startsComment, decide_eq_true_eq] at h ⊢
  constructor
  · intro hfirst hnil
    rw [hnil] at hfirst
    cases hfirst
  · intro hne
    obtain ⟨c, rest, hfirst⟩ := List.exists_cons_of_ne_nil hne
    have hbody := head?_trimStart_append (beforeBreak body) (body.dropWhile fun c => !isBreak c)
    rw [beforeBreak, List.takeWhile_append_dropWhile, h] at hbody
    rw [beforeBreak] at hfirst ⊢
    rw [hfirst] at hbody ⊢
    exact hbody.symm

/-- A comment stays one when more of its body is read. -/
lemma OpenTag.isComment_extend {t : OpenTag} (h : t.isComment = true) (part : List Char) :
    (t.extend part).isComment = true := by
  rw [isComment_eq, body_extend]
  exact Reader.startsComment_append h part

/-- Nothing more of the body changes nothing. -/
lemma OpenTag.extend_nil (t : OpenTag) : t.extend [] = t := by
  cases t
  simp [extend, trimStart]

/-- The tag that is open when its closer has been found. -/
def Scanner.closed (s : Scanner) (t : OpenTag) (before : List Char) : Piece :=
  .tag t.start t.triple (s.delimiters.opening t.triple) (t.body ++ before)
    (s.delimiters.closing t.triple)

namespace Lexer

variable {l : Lexer} {t : OpenTag}

/-- What a line holds for the tag that is open: its closer, or a further part of its body. -/
lemma lexLine_inside (hinside : l.scanner.inside = some t) (line : List Char) :
    (∃ before after others,
      cutAt (l.scanner.delimiters.closing t.triple) line = some (before, after) ∧ line ≠ [] ∧
        (l.scanner.next line).2.1 = some (l.scanner.closed t before) ∧
        (l.lexLine line).1 = l.scanner.closed t before :: others) ∨
    cutAt (l.scanner.delimiters.closing t.triple) line = none ∧ (l.lexLine line).1 = [] ∧
      (l.lexLine line).2.scanner.inside = some (t.extend line) := by
  by_cases hne : line = []
  · subst hne
    rw [lexLine_nil, OpenTag.extend_nil]
    exact .inr ⟨cutAt_nil (Delimiters.closing_ne_nil l.proper t.triple), rfl, hinside⟩
  · rw [lexLine_of_ne_nil l hne]
    cases hcut : cutAt (l.scanner.delimiters.closing t.triple) line with
    | some parts =>
      obtain ⟨before, after⟩ := parts
      have hnext : (l.scanner.next line).2.1 = some (l.scanner.closed t before) := by
        simp only [Scanner.next, hinside, hcut, Scanner.closed]
      have hline : (l.scanner.next line).2.1.toList = [l.scanner.closed t before] := by
        rw [hnext, Option.toList_some]
      simp only [hline, List.singleton_append]
      exact .inl ⟨before, after, _, rfl, hne, hnext, rfl⟩
    | none =>
      have hnext : l.scanner.next line =
          ({ l.scanner with offset := l.scanner.offset + size line,
                            inside := some (t.extend line) }, none, []) := by
        simp only [Scanner.next, hinside, hcut]
      refine .inr ⟨rfl, ?_⟩
      simp only [hnext, lexLine_nil, behind, Option.toList_none, List.append_nil, true_and]
      show (l.scanner.next line).1.inside = _
      rw [hnext]

/-- **The next piece that is found inside of a tag** is this tag. -/
lemma lexLines_inside {lns : List (List Char)} {piece : Piece} {others : List Piece}
    (hinside : l.scanner.inside = some t) (h : (l.lexLines lns).1 = piece :: others) :
    ∃ opener part closer, piece = .tag t.start t.triple opener (t.body ++ part) closer := by
  induction lns generalizing l t with
  | nil => cases h
  | cons line more ih =>
    rw [lexLines] at h
    rcases lexLine_inside hinside line with ⟨before, -, rest, -, -, -, hline⟩ | ⟨-, hline, hinside'⟩
    · simp only [hline, List.cons_append] at h
      exact ⟨_, before, _, (List.cons.inj h).1.symm⟩
    · simp only [hline, List.nil_append] at h
      obtain ⟨opener, part, closer, rfl⟩ := ih hinside' h
      refine ⟨opener, line ++ part, closer, ?_⟩
      rw [OpenTag.body_extend, List.append_assoc]
      rfl

end Lexer

namespace Stage

variable {m m' : Stage} {cs : List Char} {ps others : List Piece} {rows : List Row}
  {r r' : Reader} {t : OpenTag} {rest before after : List Char} {later : List (List Char)}
  {piece : Piece}

/-- Where the closer of the tag that is open is not found, reading comes to the end of the line. -/
lemma goes_extend (hinside : r.scanner.inside = some t)
    (hcut : cutAt (r.scanner.delimiters.closing t.triple) rest = none) (hne : rest ≠ [])
    (ps : List Piece) (rows : List Row) (later : List (List Char)) :
    Goes ⟨ps, rows, r, some rest, later⟩ ⟨ps, rows, r.scanned rest, some [], later⟩ ∧
      (r.scanned rest).scanner.inside = some (t.extend rest) := by
  have hnext : r.scanner.next rest =
      ({ r.scanner with offset := r.scanner.offset + size rest,
                        inside := some (t.extend rest) }, none, []) := by
    simp only [Scanner.next, hinside, hcut]
  have haccept : (r.scanned rest).accept? (r.scanner.next rest).2.1 = .ok (r.scanned rest) := by
    rw [hnext]
    rfl
  have hgoes : Goes ⟨ps, rows, r, some rest, later⟩
      ⟨ps ++ (r.scanner.next rest).2.1.toList, rows, r.scanned rest,
        some (r.scanner.next rest).2.2, later⟩ := .scan hne haccept
  rw [hnext, Option.toList_none, List.append_nil] at hgoes
  refine ⟨hgoes, ?_⟩
  show (r.scanner.next rest).1.inside = _
  rw [hnext]

/-- What is still to come stays the same as long as no piece is complete. -/
lemma Goes.upcoming_eq (h : Goes m m') (hpieces : m'.pieces = m.pieces) :
    m'.upcoming = m.upcoming := by
  have hall := h.pieces_append_upcoming
  rw [hpieces] at hall
  exact (List.append_cancel_left hall).symm

/-- **A comment that is carried is carried to its closer**, if it has one.

**Proof sketch.** Induction on the lines that follow. A line without the closer becomes a part of
the body, and the tag is still a comment at its end. -/
theorem exists_leads_close (hinside : r.scanner.inside = some t) (hcomment : t.isComment = true)
    (hnext : upcoming ⟨ps, rows, r, none, later⟩ = piece :: others) :
    ∃ r' rest' later', Leads ⟨ps, rows, r, none, later⟩ ⟨ps, rows, r', some rest', later'⟩ ∧
      rest' ≠ [] ∧ (r'.scanner.next rest').2.1 = some piece := by
  induction later generalizing r t with
  | nil => simp [upcoming, Lexer.lexLines] at hnext
  | cons line more ih =>
    have henter : Goes ⟨ps, rows, r, none, line :: more⟩ ⟨ps, rows, r, some line, more⟩ := .enter
    rw [← henter.upcoming_eq rfl] at hnext
    rcases r.lexer.lexLine_inside hinside line with
      ⟨before, -, rest, -, hne, hpiece, hline⟩ | ⟨hcut, -⟩
    · -- the closer stands in the line
      simp only [upcoming, Option.getD_some, hline, List.cons_append] at hnext
      obtain rfl := (List.cons.inj hnext).1
      exact ⟨r, line, more, .of_goes henter, hne, hpiece⟩
    · by_cases hne : line = []
      · subst hne
        have hcarry : Goes ⟨ps, rows, r, some [], more⟩ ⟨ps, rows, r, none, more⟩ :=
          .carry hinside hcomment
        rw [← hcarry.upcoming_eq rfl] at hnext
        obtain ⟨r', rest', later', hleads, hclose⟩ := ih hinside hcomment hnext
        exact ⟨r', rest', later', .head henter (.head hcarry hleads), hclose⟩
      · obtain ⟨hextend, hinside'⟩ := goes_extend hinside hcut hne ps rows more
        have hcomment' := OpenTag.isComment_extend hcomment line
        have hcarry : Goes ⟨ps, rows, r.scanned line, some [], more⟩
            ⟨ps, rows, r.scanned line, none, more⟩ := .carry hinside' hcomment'
        rw [← hextend.upcoming_eq rfl, ← hcarry.upcoming_eq rfl] at hnext
        obtain ⟨r', rest', later', hleads, hclose⟩ := ih hinside' hcomment' hnext
        exact ⟨r', rest', later', .head henter (.head hextend (.head hcarry hleads)), hclose⟩

/-- The tags that were taken in can be read. -/
lemma IsReached.exists_ofBody (h : m.IsReached cs) {start : Nat} {triple : Bool}
    {opener body closer : List Char} (hmem : .tag start triple opener body closer ∈ m.pieces) :
    ∃ t, Tag.ofBody triple body = .ok t := by
  induction h with
  | refl => cases hmem
  | tail _ hgoes ih =>
    cases hgoes with
    | scan hne haccept =>
      rcases List.mem_append.1 hmem with hmem | hmem
      · exact ih hmem
      · rw [Option.mem_toList.1 hmem] at haccept
        cases hbody : Tag.ofBody triple body with
        | error fault => simp [Reader.accept?, Reader.accept, hbody] at haccept
        | ok t => exact ⟨t, rfl⟩
    | enter => exact ih hmem
    | carry => exact ih hmem
    | finish => exact ih hmem

/-! ## Where reading stops -/

/-- Reading stops at what is at fault in a line. -/
lemma IsReached.ending_of_readLine {e : MarkupError}
    (h : IsReached ⟨ps, rows, r, some rest, later⟩ cs) (hread : r.readLine rest = .error e) :
    (Reading.ofText cs).ending = .error e := by
  obtain ⟨r₀, lns, hcontinues, hreading⟩ := h.ofText_eq
  obtain - | ⟨hline⟩ := hcontinues
  rw [hreading, afterRows, Reader.readLines]
  simp only [hline, hread]

/-- Reading stops at a tag that is open at the end of a line and is no comment. -/
lemma IsReached.ending_of_not_isComment (h : IsReached ⟨ps, rows, r, some [], later⟩ cs)
    (hinside : r.scanner.inside = some t) (hcomment : ¬t.isComment = true) :
    ∃ stop, (Reading.ofText cs).ending = .error ⟨.unterminated, ⟨t.start, stop⟩⟩ := by
  obtain ⟨r₀, lns, hcontinues, hreading⟩ := h.ofText_eq
  obtain - | ⟨hline⟩ := hcontinues
  rw [readLine_nil] at hline
  rw [hreading, afterRows, Reader.readLines]
  simp only [hline, hinside, if_neg hcomment]
  exact ⟨_, rfl⟩

/-- There is no way on from the end of a line where a tag is open that is no comment. -/
lemma not_goes_of_not_isComment (hinside : r.scanner.inside = some t)
    (hcomment : ¬t.isComment = true) : ¬Goes ⟨ps, rows, r, some [], later⟩ m' := by
  intro h
  cases h with
  | scan hne => exact hne rfl
  | carry hinside' hcomment' =>
    obtain rfl := Option.some.inj (hinside.symm.trans hinside')
    exact hcomment hcomment'
  | finish houtside => exact absurd (houtside.symm.trans hinside) (by simp)

/-! ## Tags over several lines -/

/-- Reading goes on from a stage and takes in the piece that comes next. -/
def GetsPast (m : Stage) (piece : Piece) : Prop :=
  ∃ m', m.Leads m' ∧ m'.pieces = m.pieces ++ [piece]

section several

variable {start : Nat} {triple : Bool} {opener body closer : List Char}

/-- **The end of the first line of a tag** whose closer stands in another line. The tag starts like
a comment there exactly if its body starts so in its first line. -/
lemma exists_end_of_first_line (hm : m.IsReached cs)
    (hinside : m.reader.scanner.inside = some (.ofOpener start triple))
    (hnext : m.upcoming = .tag start triple opener body closer :: others)
    (hlines : ¬Unbroken body) :
    ∃ r later t, Goes m ⟨m.pieces, m.rows, r, some [], later⟩ ∧ r.scanner.inside = some t ∧
      t.start = start ∧
      (t.isComment = true ↔ startsComment (beforeBreak body) = true) := by
  have haligned := hm.aligned
  obtain ⟨ps, rows, r, _ | rest, later⟩ := m
  · -- the tag was opened in the line
    exact absurd (haligned.between rfl _ hinside) (by simp [OpenTag.isComment, OpenTag.ofOpener])
  · by_cases hne : rest = []
    · subst hne
      obtain rfl := haligned.used rfl _ hinside rfl
      simp [upcoming, Lexer.lexLines] at hnext
    · obtain ⟨front, ending, rfl, hfront, hending, hlast⟩ := haligned.rest rest rfl hne
      rcases r.lexer.lexLine_inside hinside (front ++ ending) with
        ⟨before, after, tail, hcut, -, -, hline⟩ | ⟨hcut, -, -⟩
      · -- what stands in front of a closer in the line holds no line break
        refine absurd ?_ hlines
        simp only [upcoming, Option.getD_some, hline, List.cons_append] at hnext
        obtain ⟨-, -, -, rfl, -⟩ := Piece.tag.inj (List.cons.inj hnext).1
        obtain ⟨after', -, hsplit⟩ := (haligned.pair.closing triple).split_line
          (Delimiters.closing_ne_nil r.proper triple) hending (cutAt_append hcut)
        rw [hsplit, Unbroken.append_iff, Unbroken.append_iff] at hfront
        exact hfront.1.1
      · obtain ⟨hgoes, hextend⟩ := goes_extend hinside hcut hne ps rows later
        refine ⟨_, later, _, hgoes, hextend, rfl, ?_⟩
        -- the closer stands in a line that follows
        rw [← hgoes.upcoming_eq rfl] at hnext
        simp only [upcoming, Option.getD_some, Lexer.lexLine_nil, List.nil_append] at hnext
        obtain ⟨_, part, _, hpiece⟩ :=
          Lexer.lexLines_inside (l := (r.scanned _).lexer) hextend hnext
        obtain ⟨-, -, -, rfl, -⟩ := Piece.tag.inj hpiece
        have hbody : (OpenTag.extend (.ofOpener start triple) (front ++ ending)).body =
            front ++ ending := by
          rw [OpenTag.body_extend, OpenTag.body_ofOpener, List.nil_append]
        have hends : ending ≠ [] := by
          intro hnil
          obtain rfl := hlast hnil
          cases hnext
        rw [OpenTag.isComment_eq, hbody, startsComment_append_breaks hending,
          beforeBreak_append_breaks hfront hending hends]

/-- **What the check at the end of the first line amounts to.** Reading gets past a tag whose closer
stands in another line if the body starts like a comment in its first line and can be read. -/
theorem gets_past_iff_startsComment (hm : m.IsReached cs)
    (hinside : m.reader.scanner.inside = some (.ofOpener start triple))
    (hnext : m.upcoming = .tag start triple opener body closer :: others)
    (hlines : ¬Unbroken body) :
    m.GetsPast (.tag start triple opener body closer) ↔
      startsComment (beforeBreak body) = true ∧ ∃ t, Tag.ofBody triple body = .ok t := by
  obtain ⟨r, later, t, hgoes, ht, -, hcomment⟩ := exists_end_of_first_line hm hinside hnext hlines
  rw [← hcomment]
  constructor
  · rintro ⟨m', hleads, hpieces⟩
    have hmem : .tag start triple opener body closer ∈ m'.pieces := by simp [hpieces]
    have hm' : m'.IsReached cs := hm.trans hleads
    refine ⟨?_, hm'.exists_ofBody hmem⟩
    by_contra hnot
    have hne : m' ≠ m := by
      rintro rfl
      simp at hpieces
    obtain rfl := (hleads.of_goes_of_ne hgoes hne).eq_of_stuck
      fun m'' => not_goes_of_not_isComment ht hnot
    simp at hpieces
  · rintro ⟨hopen, u, hu⟩
    have hcarry : Goes ⟨m.pieces, m.rows, r, some [], later⟩ ⟨m.pieces, m.rows, r, none, later⟩ :=
      .carry ht hopen
    rw [← hgoes.upcoming_eq rfl, ← hcarry.upcoming_eq rfl] at hnext
    obtain ⟨r', rest', later', hleads, hne, hpiece⟩ := exists_leads_close ht hopen hnext
    have hstart := startsComment_of_beforeBreak (hcomment.1 hopen)
    obtain rfl := Tag.eq_comment_of_startsComment hstart hu
    have haccept : ∃ r'', (r'.scanned rest').accept? (r'.scanner.next rest').2.1 = .ok r'' := by
      rw [hpiece]
      simp only [Reader.accept?, Reader.accept, hu]
      exact ⟨_, rfl⟩
    obtain ⟨r'', haccept⟩ := haccept
    refine ⟨_, .head hgoes (.head hcarry (hleads.trans (.of_goes (.scan hne haccept)))), ?_⟩
    rw [hpiece]
    rfl

/-- Where reading does not get past such a tag, it stops at this tag. -/
lemma ending_of_not_getsPast (hm : m.IsReached cs)
    (hinside : m.reader.scanner.inside = some (.ofOpener start triple))
    (hnext : m.upcoming = .tag start triple opener body closer :: others)
    (hlines : ¬Unbroken body) (hnot : ¬m.GetsPast (.tag start triple opener body closer)) :
    ∃ e, (Reading.ofText cs).ending = .error e ∧ e.span.start = start := by
  obtain ⟨r, later, t, hgoes, ht, rfl, hcomment⟩ := exists_end_of_first_line hm hinside hnext hlines
  rw [gets_past_iff_startsComment hm hinside hnext hlines, ← hcomment, not_and] at hnot
  have hend : IsReached ⟨m.pieces, m.rows, r, some [], later⟩ cs := hm.tail hgoes
  by_cases hopen : t.isComment = true
  · -- the tag is carried to its closer, and cannot be read
    have hcarry : Goes ⟨m.pieces, m.rows, r, some [], later⟩ ⟨m.pieces, m.rows, r, none, later⟩ :=
      .carry ht hopen
    rw [← hgoes.upcoming_eq rfl, ← hcarry.upcoming_eq rfl] at hnext
    obtain ⟨r', rest', later', hleads, hne, hpiece⟩ := exists_leads_close ht hopen hnext
    have hclose : IsReached ⟨m.pieces, m.rows, r', some rest', later'⟩ cs :=
      (hend.tail hcarry).trans hleads
    cases hbody : Tag.ofBody triple body with
    | ok u => exact absurd ⟨u, hbody⟩ (hnot hopen)
    | error fault =>
      refine ⟨⟨.tag fault, (Piece.tag t.start triple opener body closer).span⟩,
        hclose.ending_of_readLine ?_, rfl⟩
      rw [Reader.readLine, dif_neg hne]
      simp only [hpiece, Reader.accept?, Reader.accept, hbody]
  · obtain ⟨stop, hstop⟩ := hend.ending_of_not_isComment ht hopen
    exact ⟨_, hstop, rfl⟩

/-- **The tags over several lines that reading gets past.** These are the comments of which the
first line holds more than white space behind the opener, so neither other tags nor all comments:
one that is blank up to the end of its first line is refused, although it reads as a comment.
Reading stops at a tag that it does not get past.

**Proof sketch.** At the end of its first line the body of the tag is this line, and a tag that does
not start like a comment is not carried on. One that does is carried to its closer, and if it can be
read at all it is a comment. -/
theorem gets_past_iff (hm : m.IsReached cs)
    (hinside : m.reader.scanner.inside = some (.ofOpener start triple))
    (hnext : m.upcoming = .tag start triple opener body closer :: others)
    (hlines : ¬Unbroken body) :
    (m.GetsPast (.tag start triple opener body closer) ↔
        Tag.ofBody triple body = .ok .comment ∧ trimStart (beforeBreak body) ≠ []) ∧
      (¬m.GetsPast (.tag start triple opener body closer) →
        ∃ e, (Reading.ofText cs).ending = .error e ∧ e.span.start = start) := by
  refine ⟨?_, ending_of_not_getsPast hm hinside hnext hlines⟩
  rw [gets_past_iff_startsComment hm hinside hnext hlines]
  constructor
  · rintro ⟨hstart, t, ht⟩
    obtain rfl := Tag.eq_comment_of_startsComment (startsComment_of_beforeBreak hstart) ht
    exact ⟨ht, (startsComment_beforeBreak_iff (startsComment_of_beforeBreak hstart)).1 hstart⟩
  · rintro ⟨hcomment, hblank⟩
    have hstart := Tag.startsComment_of_comment hcomment
    exact ⟨(startsComment_beforeBreak_iff hstart).2 hblank, _, hcomment⟩

end several

/-- A stage inside of a tag at the front of a template. -/
lemma isReached_of_lines {line : List Char} (hlines : lines cs = line :: later) (hne : line ≠ [])
    (hnext : (Scanner.initial.next line).2.1 = none) :
    IsReached ⟨[], [], Reader.initial.scanned line, some (Scanner.initial.next line).2.2, later⟩
      cs := by
  have haccept : (Reader.initial.scanned line).accept? (Scanner.initial.next line).2.1 =
      .ok (Reader.initial.scanned line) := by
    rw [hnext]
    rfl
  have hscan : Goes ⟨[], [], .initial, some line, later⟩
      ⟨(Scanner.initial.next line).2.1.toList, [], Reader.initial.scanned line,
        some (Scanner.initial.next line).2.2, later⟩ := .scan hne haccept
  rw [hnext, Option.toList_none] at hscan
  have hstart : start cs = ⟨[], [], .initial, none, line :: later⟩ := by
    rw [start, hlines]
  rw [IsReached, hstart]
  exact .head .enter (.of_goes hscan)

/-- A comment that holds an opener in its second line. Reading gets past it. -/
theorem gets_past_iff_on_comment :
    ∃ (cs : List Char) (m : Stage) (body : List Char) (others : List Piece),
      m.IsReached cs ∧ m.reader.scanner.inside = some (.ofOpener 0 false) ∧
        m.upcoming = .tag 0 false ['{', '{'] body ['}', '}'] :: others ∧ ¬Unbroken body ∧
          Tag.ofBody false body = .ok .comment ∧ trimStart (beforeBreak body) ≠ [] ∧
            m.GetsPast (.tag 0 false ['{', '{'] body ['}', '}']) := by
  let cs := "\x7b\x7b ! x\r\n\x7b\x7b#y \x7d\x7db".toList
  let line := "\x7b\x7b ! x\r\n".toList
  let later := ["\x7b\x7b#y \x7d\x7db".toList]
  let body := " ! x\r\n\x7b\x7b#y ".toList
  let m : Stage :=
    ⟨[], [], Reader.initial.scanned line, some (Scanner.initial.next line).2.2, later⟩
  have hm : m.IsReached cs :=
    isReached_of_lines (by decide +kernel) (by decide +kernel) (by decide +kernel)
  have hinside : m.reader.scanner.inside = some (.ofOpener 0 false) := by decide +kernel
  have hnext : m.upcoming = .tag 0 false ['{', '{'] body ['}', '}'] :: [.text 15 ['b']] := by
    decide +kernel
  have hlines : ¬Unbroken body := fun h => absurd (h '\n' (by decide)) (by decide)
  have hcomment : Tag.ofBody false body = .ok .comment := by decide +kernel
  have hblank : trimStart (beforeBreak body) ≠ [] := by decide +kernel
  exact ⟨cs, m, body, _, hm, hinside, hnext, hlines, hcomment, hblank,
    (gets_past_iff hm hinside hnext hlines).1.2 ⟨hcomment, hblank⟩⟩

/-- A comment that is blank up to the end of its first line. Reading does not get past it. -/
theorem comment_refused_on_blank_line :
    ∃ (m : Stage) (others : List Piece),
      m.IsReached ['{', '{', '\n', '!', ' ', 'x', ' ', '}', '}'] ∧
        m.reader.scanner.inside = some (.ofOpener 0 false) ∧
        m.upcoming =
          .tag 0 false ['{', '{'] ['\n', '!', ' ', 'x', ' '] ['}', '}'] :: others ∧
        ¬Unbroken ['\n', '!', ' ', 'x', ' '] ∧
        Tag.ofBody false ['\n', '!', ' ', 'x', ' '] = .ok .comment ∧
        ¬m.GetsPast (.tag 0 false ['{', '{'] ['\n', '!', ' ', 'x', ' '] ['}', '}']) := by
  let line := ['{', '{', '\n']
  let later := [['!', ' ', 'x', ' ', '}', '}']]
  let m : Stage :=
    ⟨[], [], Reader.initial.scanned line, some (Scanner.initial.next line).2.2, later⟩
  have hm : m.IsReached ['{', '{', '\n', '!', ' ', 'x', ' ', '}', '}'] :=
    isReached_of_lines (by decide +kernel) (by decide +kernel) (by decide +kernel)
  have hinside : m.reader.scanner.inside = some (.ofOpener 0 false) := by decide +kernel
  have hnext : m.upcoming =
      .tag 0 false ['{', '{'] ['\n', '!', ' ', 'x', ' '] ['}', '}'] :: [] := by decide +kernel
  have hlines : ¬Unbroken ['\n', '!', ' ', 'x', ' '] := fun h =>
    absurd (h '\n' (by decide)) (by decide)
  refine ⟨m, [], hm, hinside, hnext, hlines, by decide +kernel, fun hpast => ?_⟩
  have hstart := ((gets_past_iff_startsComment hm hinside hnext hlines).1 hpast).1
  exact absurd hstart (by decide)

end Stage

end Stencil.Markup
