import Mathlib.Data.List.TakeWhile
import Mathlib.Tactic.Lemma
import Stencil.Proofs.Markup.Checks

/-!
# Tags that join lines

A tag may only run over the end of a line if it has started like a comment before. This is checked
at the end of each line, for the tag that is open there. The same can be said of the tags of the
whole template: the body of each lies in one line, or starts like a comment in its first line.

## Main definitions

* `beforeBreak` — the part of a text in front of its first line break.
* `IsJoinable` — the body of a tag that may run over the end of a line.
* `Scan.tags` — the tags of a scan, each with its form and its body.

## Main results

* `Lexer.lexLine_joinable` — the tags that a line completes or leaves open.
* `Lexer.carries_iff` — what is carried from line to line, told from the scan.
-/

namespace Stencil.Markup

open Stencil.Text

/-! ## Tags that run over the end of a line -/

/-- The part of a text in front of its first line break. -/
def beforeBreak (cs : List Char) : List Char := cs.takeWhile fun c => !isBreak c

/-- A body that lies in one line, or that starts like a comment in its first line. -/
def IsJoinable (body : List Char) : Prop :=
  Unbroken body ∨ startsComment (beforeBreak body) = true

section beforeBreak

variable {xs ys body ending : List Char}

/-- A text that starts like a comment still does when it goes on. -/
lemma startsComment_append_of_left (h : startsComment xs = true) (ys : List Char) :
    startsComment (xs ++ ys) = true := by
  rw [startsComment, decide_eq_true_eq] at h ⊢
  rw [head?_trimStart_append, h]
  rfl

/-- Line breaks behind a text do not make a comment of it. -/
lemma startsComment_append_breaks (h : ∀ c ∈ ending, isBreak c = true) :
    startsComment (xs ++ ending) = startsComment xs := by
  have hnil : trimStart ending = [] := by
    rw [trimStart, List.dropWhile_eq_nil_iff]
    exact fun c hc => isSpace_of_isBreak (h c hc)
  rw [startsComment, startsComment, head?_trimStart_append, hnil]
  simp

/-- A text without line breaks is its own first line. -/
lemma beforeBreak_of_unbroken (h : Unbroken xs) : beforeBreak xs = xs := by
  rw [beforeBreak, List.takeWhile_eq_self_iff]
  intro c hc
  simp [h c hc]

/-- The first line ends with the first line break. -/
lemma beforeBreak_append_breaks (h : Unbroken xs) (hending : ∀ c ∈ ending, isBreak c = true)
    (hne : ending ≠ []) (ys : List Char) : beforeBreak (xs ++ ending ++ ys) = xs := by
  obtain ⟨c, rest, rfl⟩ := List.exists_cons_of_ne_nil hne
  have hc : isBreak c = true := hending c List.mem_cons_self
  have hxs := beforeBreak_of_unbroken h
  rw [beforeBreak] at hxs
  rw [beforeBreak, List.append_assoc, List.takeWhile_append, hxs]
  simp [hc]

/-- The first line only grows when a text goes on. -/
lemma startsComment_beforeBreak_append (h : startsComment (beforeBreak xs) = true)
    (ys : List Char) : startsComment (beforeBreak (xs ++ ys)) = true := by
  rw [beforeBreak, List.takeWhile_append]
  split
  · rename_i hall
    have hxs : beforeBreak xs = xs := (List.takeWhile_prefix _).eq_of_length hall
    rw [hxs] at h
    exact startsComment_append_of_left h _
  · exact h

/-- What starts like a comment in its first line starts like a comment. -/
lemma startsComment_of_beforeBreak (h : startsComment (beforeBreak xs) = true) :
    startsComment xs = true := by
  rw [← List.takeWhile_append_dropWhile (p := fun c => !isBreak c) (l := xs)]
  exact startsComment_append_of_left h _

/-- A comment that is open at the end of a line has started like one in its own first line. -/
lemma startsComment_beforeBreak_of_isComment {t : OpenTag}
    (hopen : (∃ xs, Unbroken xs ∧ t.body = xs ++ ending) ∨
      startsComment (beforeBreak t.body) = true)
    (hending : ∀ c ∈ ending, isBreak c = true) (hcomment : t.isComment = true) :
    startsComment (beforeBreak t.body) = true := by
  rcases hopen with ⟨xs, hxs, hbody⟩ | hstart
  · rw [OpenTag.isComment_eq, hbody, startsComment_append_breaks hending] at hcomment
    rw [hbody]
    refine startsComment_beforeBreak_append ?_ ending
    rwa [beforeBreak_of_unbroken hxs]
  · exact hstart

end beforeBreak

namespace Scanner

variable {s : Scanner} {body ending : List Char}

/-- What a step in a line leaves of the line, and of which form the tags are that it completes or
leaves open. -/
lemma next_joinable (hproper : s.delimiters.IsProper) (hd : s.delimiters.IsUnbroken)
    (hinside : ∀ t, s.inside = some t → IsJoinable t.body) (hbody : Unbroken body)
    (hending : ∀ c ∈ ending, isBreak c = true) :
    (∀ start triple opener content closer,
      (s.next (body ++ ending)).2.1 = some (.tag start triple opener content closer) →
        IsJoinable content) ∧
    ((s.next (body ++ ending)).2.2 = [] ∧
        (∀ t, (s.next (body ++ ending)).1.inside = some t →
          (∃ xs, Unbroken xs ∧ t.body = xs ++ ending) ∨
            startsComment (beforeBreak t.body) = true) ∨
      ∃ body', (s.next (body ++ ending)).2.2 = body' ++ ending ∧ Unbroken body' ∧
        ∀ t, (s.next (body ++ ending)).1.inside = some t → IsJoinable t.body) := by
  cases hopen : s.inside with
  | none =>
    cases hcut : s.delimiters.cutAtOpener (body ++ ending) with
    | none => simp [next, hopen, hcut]
    | some found =>
      obtain ⟨front, triple, found⟩ := found
      obtain ⟨hall, after, rfl⟩ := Delimiters.cutAtOpener_append hcut
      rw [← List.append_assoc] at hall
      obtain ⟨body', rfl, rfl⟩ := (hd.opening triple).split_line
        (Delimiters.opening_ne_nil hproper triple) hending hall
      have hbody' := (Unbroken.append_iff.1 hbody).2
      cases front with
      | nil =>
        simp only [next, hopen, hcut, List.drop_left]
        refine ⟨by simp, .inr ⟨body', rfl, hbody', ?_⟩⟩
        intro t ht
        obtain rfl := Option.some.inj ht
        exact .inl Unbroken.nil
      | cons c front =>
        simp only [next, hopen, hcut]
        refine ⟨by simp, .inr ⟨s.delimiters.opening triple ++ body', by simp, ?_, by simp⟩⟩
        exact Unbroken.append_iff.2 ⟨hd.opening triple, hbody'⟩
  | some t =>
    cases hcut : cutAt (s.delimiters.closing t.triple) (body ++ ending) with
    | none =>
      simp only [next, hopen, hcut]
      refine ⟨by simp, .inl ⟨trivial, fun u hu => ?_⟩⟩
      obtain rfl := Option.some.inj hu
      rw [OpenTag.body_extend]
      rcases hinside t hopen with ht | ht
      · exact .inl ⟨t.body ++ body, Unbroken.append_iff.2 ⟨ht, hbody⟩, by simp⟩
      · exact .inr (startsComment_beforeBreak_append ht _)
    | some parts =>
      obtain ⟨before, after⟩ := parts
      obtain ⟨body', rfl, rfl⟩ := (hd.closing t.triple).split_line
        (Delimiters.closing_ne_nil hproper t.triple) hending (cutAt_append hcut)
      obtain ⟨hfront, hbody'⟩ := Unbroken.append_iff.1 hbody
      simp only [next, hopen, hcut]
      refine ⟨?_, .inr ⟨body', rfl, hbody', by simp⟩⟩
      rintro start triple opener content closer hpiece
      obtain ⟨-, -, -, rfl, -⟩ := Piece.tag.inj (Option.some.inj hpiece)
      rcases hinside t hopen with ht | ht
      · exact .inl (Unbroken.append_iff.2 ⟨ht, (Unbroken.append_iff.1 hfront).1⟩)
      · exact .inr (startsComment_beforeBreak_append ht before)

end Scanner

namespace Lexer

variable {l : Lexer} {body ending : List Char}

/-- A change of the delimiters does not touch the tag that is open. -/
lemma inside_behind (l : Lexer) (piece : Option Piece) :
    (l.behind piece).scanner.inside = l.scanner.inside := by
  cases piece <;> rfl

/-- **The tags that a line completes or leaves open.** One that is complete could run over the
end of a line. Of one that is open, either the whole line behind the opener is the body so far, or
it has started like a comment in its own first line. -/
theorem lexLine_joinable (hd : l.pair.val.IsUnbroken)
    (hinside : ∀ t, l.scanner.inside = some t → IsJoinable t.body) (hbody : Unbroken body)
    (hending : ∀ c ∈ ending, isBreak c = true) :
    (∀ start triple opener content closer,
      .tag start triple opener content closer ∈ (l.lexLine (body ++ ending)).1 →
        IsJoinable content) ∧
    ∀ t, (l.lexLine (body ++ ending)).2.scanner.inside = some t →
      (∃ xs, Unbroken xs ∧ t.body = xs ++ ending) ∨ startsComment (beforeBreak t.body) = true := by
  generalize hrest : body ++ ending = rest
  fun_induction lexLine l rest generalizing body with
  | case1 l =>
    obtain ⟨-, rfl⟩ := List.append_eq_nil_iff.1 hrest
    refine ⟨by simp, fun t ht => ?_⟩
    exact (hinside t ht).imp (fun h => ⟨t.body, h, by simp⟩) id
  | case2 =>
    rename_i l rest hne step pieces l' hlex ih
    subst hrest
    obtain ⟨htag, hleft⟩ := Scanner.next_joinable l.proper hd hinside hbody hending
    have hd' : ((l.scanned (body ++ ending)).behind step.2.1).pair.val.IsUnbroken :=
      pair_behind_isUnbroken (l.pair_scanned (body ++ ending) ▸ hd) step.2.1
    have hmem : ∀ start triple opener content closer,
        .tag start triple opener content closer ∈ step.2.1.toList → IsJoinable content := by
      intro start triple opener content closer h
      exact htag _ _ _ _ _ (Option.mem_toList.1 h)
    rcases hleft with ⟨hnil, hopen⟩ | ⟨body', hbody', hunbroken, hopen⟩
    · -- the line is used up
      rw [show step.2.2 = [] from hnil, lexLine_nil] at hlex
      obtain ⟨rfl, rfl⟩ := Prod.mk.inj hlex
      refine ⟨by simpa using hmem, fun t ht => ?_⟩
      rw [inside_behind] at ht
      exact hopen t ht
    · have hinside' : ∀ t, ((l.scanned (body ++ ending)).behind step.2.1).scanner.inside = some t →
          IsJoinable t.body := by
        rw [inside_behind]
        exact hopen
      have hih := ih hd' hinside' hunbroken hbody'.symm
      rw [hlex] at hih
      refine ⟨?_, hih.2⟩
      intro start triple opener content closer h
      exact (List.mem_append.1 h).elim (hmem _ _ _ _ _) (hih.1 _ _ _ _ _)

end Lexer

/-! ## The tags of a scan -/

/-- The form and the body of a tag. -/
def Piece.tag? : Piece → Option (Bool × List Char)
  | .text _ _ => none
  | .tag _ triple _ body _ => some (triple, body)

/-- The tags of a scan in order, each with its form and its body. -/
def Scan.tags (s : Scan) : List (Bool × List Char) := s.pieces.filterMap Piece.tag?

/-- What the pieces of a scan with further pieces in front have, if text has nothing. -/
lemma Scan.filterMap_afterPieces {β : Type} {f : Piece → Option β}
    (hf : ∀ start content, f (.text start content) = none) (s : Scan) (pieces : List Piece) :
    (s.afterPieces pieces).pieces.filterMap f = pieces.filterMap f ++ s.pieces.filterMap f := by
  have hfront : ∀ (piece : Piece) (rest : List Piece),
      (Piece.putFront piece rest).filterMap f = (f piece).toList ++ rest.filterMap f := by
    intro piece rest
    rcases piece with ⟨start, content⟩ | ⟨start, triple, opener, body, closer⟩
    · rcases rest with _ | ⟨⟨_, _⟩ | _, _⟩ <;> simp [Piece.putFront, hf]
    · rw [Piece.putFront, List.filterMap_cons]
      · cases f _ <;> rfl
      · simp
  induction pieces with
  | nil => rfl
  | cons piece pieces ih =>
    show (Piece.putFront piece (s.afterPieces pieces).pieces).filterMap f = _
    rw [hfront, ih, List.filterMap_cons]
    cases f piece <;> rfl

/-- The tags behind some pieces. -/
lemma Scan.tags_afterPieces (s : Scan) (pieces : List Piece) :
    (s.afterPieces pieces).tags = pieces.filterMap Piece.tag? ++ s.tags :=
  filterMap_afterPieces (fun _ _ => rfl) s pieces

/-- The pieces of tags are those of which the tags are known. -/
lemma mem_filterMap_tag? {pieces : List Piece} {triple : Bool} {body : List Char}
    (h : (triple, body) ∈ pieces.filterMap Piece.tag?) :
    ∃ start opener closer, .tag start triple opener body closer ∈ pieces := by
  obtain ⟨piece, hmem, hpiece⟩ := List.mem_filterMap.1 h
  cases piece with
  | text start content => cases hpiece
  | tag start form opener content closer =>
    obtain ⟨rfl, rfl⟩ := Prod.mk.inj (Option.some.inj hpiece)
    exact ⟨start, opener, closer, hmem⟩

namespace Lexer

variable {l : Lexer} {t : OpenTag} {cs : List Char}

/-- A tag that was not a comment at the end of its line is not closed in a good way: its body
runs over the end of the line. -/
lemma not_joinable_of_not_isComment {xs ending : List Char} (hinside : l.scanner.inside = some t)
    (hbody : t.body = xs ++ ending) (hxs : Unbroken xs)
    (hending : ∀ c ∈ ending, isBreak c = true) (hcs : ending = [] → cs = [])
    (hcomment : ¬t.isComment = true) :
    ¬((l.upcoming cs).unclosed = none ∧ ∀ m ∈ (l.upcoming cs).tags, IsJoinable m.2) := by
  rw [upcoming_of_inside hinside]
  cases hcut : cutAt (l.pair.val.closing t.triple) cs with
  | none =>
    rw [scanInside_of_none _ hcut]
    rintro ⟨h, -⟩
    cases h
  | some parts =>
    obtain ⟨before, after⟩ := parts
    rw [scanInside_of_some _ hcut, Scan.tags_afterPieces]
    rintro ⟨-, h⟩
    have hne : ending ≠ [] := by
      intro hnil
      rw [hcs hnil, cutAt_nil (Delimiters.closing_ne_nil l.pair.property t.triple)] at hcut
      cases hcut
    rcases h (t.triple, t.body ++ before) (by simp [Piece.tag?]) with hunbroken | hstart
    · obtain ⟨c, rest, rfl⟩ := List.exists_cons_of_ne_nil hne
      have hc := hunbroken c (by simp [hbody])
      rw [hending c List.mem_cons_self] at hc
      cases hc
    · rw [hbody, beforeBreak_append_breaks hxs hending hne] at hstart
      rw [OpenTag.isComment_eq, hbody, startsComment_append_breaks hending] at hcomment
      exact hcomment hstart

/-- **What is carried from line to line, told from the scan.** Every tag is closed, and the body
of each lies in one line or starts like a comment in its first line.

**Proof sketch.** Induction on the lines. A tag that is open at the end of a line has only line
breaks in its body behind its first line. So if it is a comment there, it has started like one in
its first line, and if not, it never will. -/
theorem carries_iff {lns : List (List Char)} (hlines : IsLines lns)
    (hd : l.pair.val.IsUnbroken)
    (hinside : ∀ t, l.scanner.inside = some t → startsComment (beforeBreak t.body) = true) :
    l.Carries lns ↔
      (l.upcoming lns.flatten).unclosed = none ∧
        ∀ m ∈ (l.upcoming lns.flatten).tags, IsJoinable m.2 := by
  induction hlines generalizing l with
  | nil =>
    rw [Carries, List.flatten_nil, upcoming_nil]
    simp [Scan.tags]
  | @cons body ending more hbody hends hmore ih =>
    obtain ⟨hscan, hd'⟩ := upcoming_lexLine hd hends.sealed
    obtain ⟨htags, hopen⟩ := lexLine_joinable hd (fun t ht => .inr (hinside t ht)) hbody
      hends.isBreak
    rw [List.flatten_cons, hscan, Scan.tags_afterPieces, Carries, List.forall_mem_append]
    have hline : ∀ m ∈ (l.lexLine (body ++ ending)).1.filterMap Piece.tag?, IsJoinable m.2 := by
      rintro ⟨triple, content⟩ hm
      obtain ⟨start, opener, closer, hmem⟩ := mem_filterMap_tag? hm
      exact htags _ _ _ _ _ hmem
    rw [and_iff_right hline]
    show _ ↔ ((l.lexLine (body ++ ending)).2.upcoming more.flatten).unclosed = none ∧ _
    by_cases hcomment : ∀ t, (l.lexLine (body ++ ending)).2.scanner.inside = some t →
        t.isComment = true
    · rw [and_iff_right hcomment]
      exact ih hd' fun t ht =>
        startsComment_beforeBreak_of_isComment (hopen t ht) hends.isBreak (hcomment t ht)
    · rw [not_forall₂] at hcomment
      obtain ⟨t, ht, hcomment⟩ := hcomment
      refine iff_of_false (fun h => hcomment (h.1 t ht)) ?_
      rcases hopen t ht with ⟨xs, hxs, hbody'⟩ | hstart
      · refine not_joinable_of_not_isComment ht hbody' hxs hends.isBreak ?_ hcomment
        rintro rfl
        exact hends.of_nil.2
      · rw [OpenTag.isComment_eq] at hcomment
        exact absurd (startsComment_of_beforeBreak hstart) hcomment

end Lexer

end Stencil.Markup
