import Mathlib.Tactic.Lemma
import Stencil.Proofs.Markup.Tilings
import Stencil.Proofs.Markup.Writing

/-!
# Directives

A directive announces a pair of delimiters: behind its first equals sign stand two words, with white
space between them and maybe around them, and a last equals sign. So whatever a template announces,
the pair that is active at any moment consists of two words, and it can be announced again.

## Main definitions

* `IsWhite`, `IsWord` — texts of white space, and texts without any.
* `Delimiters.AreWordsOf` — the two delimiters are the words of a text.
* `Delimiters.IsAnnounceable` — a pair that some directive announces.

## Main results

* `words_eq_nil_iff`, `words_eq_cons_iff` — the words of a text, one by one.
* `Delimiters.ofDirective_iff_areWordsOf` — the directives that announce a pair.
* `Tag.ofBody_directive` — a pair that can be announced is announced by its two words.
* `Stage.IsReached.isAnnounceable` — the active pair can be announced.
* `Delimiters.announced_and_active` — what is announced, and what is active.
-/

namespace Stencil.Text

/-! ## Words and white space -/

/-- The text consists of white space. -/
def IsWhite (cs : List Char) : Prop := ∀ c ∈ cs, isSpace c = true

/-- The text is not empty, and no character of it is white space. -/
structure IsWord (cs : List Char) : Prop where
  ne_nil : cs ≠ []
  not_isSpace : ∀ c ∈ cs, isSpace c = false

/-- A trimmed text lies between white space. -/
lemma exists_trim_append (cs : List Char) :
    ∃ front back, cs = front ++ trim cs ++ back ∧ IsWhite front ∧ IsWhite back := by
  have hwhite : ∀ ds : List Char, IsWhite (ds.takeWhile isSpace) := by
    intro ds c hc
    exact List.all_eq_true.1 List.all_takeWhile c hc
  have hend : trimStart cs = trim cs ++ ((trimStart cs).reverse.takeWhile isSpace).reverse := by
    rw [trim, trimEnd, ← List.reverse_append, List.takeWhile_append_dropWhile, List.reverse_reverse]
  refine ⟨cs.takeWhile isSpace, _, ?_, hwhite cs, fun c hc =>
    hwhite (trimStart cs).reverse c (List.mem_reverse.1 hc)⟩
  rw [List.append_assoc, ← hend]
  exact List.takeWhile_append_dropWhile.symm

end Stencil.Text

namespace Stencil.Markup

open Stencil.Text

section words

variable {cs front w rest : List Char} {ws : List (List Char)}

/-- White space in front of a text belongs to no word. -/
lemma words_append_of_isWhite (hfront : IsWhite front) (cs : List Char) :
    words (front ++ cs) = words cs := by
  induction front with
  | nil => rfl
  | cons c front ih =>
    obtain ⟨hc, hrest⟩ := List.forall_mem_cons.1 hfront
    rw [List.cons_append, words_cons_of_isSpace hc, ih hrest]

/-- A word at the front of a text. -/
lemma words_append_of_isWord (hw : IsWord w) (hrest : ∀ c ∈ rest.head?, isSpace c = true) :
    words (w ++ rest) = w :: words rest := by
  cases rest with
  | nil =>
    rw [List.append_nil, words_eq_singleton hw.ne_nil hw.not_isSpace]
    rfl
  | cons c rest =>
    have hc : isSpace c = true := hrest c rfl
    rw [words_append_cons hw.ne_nil hw.not_isSpace hc, words_cons_of_isSpace hc]

/-- A text that holds more than white space has a first word. -/
lemma exists_isWord (h : ¬IsWhite cs) :
    ∃ front w rest, cs = front ++ w ++ rest ∧ IsWhite front ∧ IsWord w ∧
      ∀ c ∈ rest.head?, isSpace c = true := by
  induction cs with
  | nil => exact absurd (by simp [IsWhite]) h
  | cons c cs ih =>
    by_cases hc : isSpace c = true
    · have hrest : ¬IsWhite cs := fun hcs => h (List.forall_mem_cons.2 ⟨hc, hcs⟩)
      obtain ⟨front, w, rest, rfl, hfront, hw, hhead⟩ := ih hrest
      exact ⟨c :: front, w, rest, by simp, List.forall_mem_cons.2 ⟨hc, hfront⟩, hw, hhead⟩
    · -- the word goes on up to the next white space
      have hlead : ∀ d ∈ cs.takeWhile (!isSpace ·), isSpace d = false := by
        intro d hd
        simpa using List.all_eq_true.1 List.all_takeWhile d hd
      have hhead := List.head?_dropWhile_not (!isSpace ·) cs
      refine ⟨[], c :: cs.takeWhile (!isSpace ·), cs.dropWhile (!isSpace ·), ?_, by simp [IsWhite],
        ⟨List.cons_ne_nil _ _, List.forall_mem_cons.2 ⟨by simpa using hc, hlead⟩⟩, fun d hd => ?_⟩
      · rw [List.nil_append, List.cons_append, List.takeWhile_append_dropWhile]
      · rw [Option.mem_def.1 hd] at hhead
        simpa using hhead

/-- The texts without words. -/
lemma words_eq_nil_iff : words cs = [] ↔ IsWhite cs := by
  constructor
  · intro h
    by_contra hmore
    obtain ⟨front, w, rest, rfl, hfront, hw, hrest⟩ := exists_isWord hmore
    rw [List.append_assoc, words_append_of_isWhite hfront, words_append_of_isWord hw hrest] at h
    cases h
  · intro h
    have hwords := words_append_of_isWhite h []
    rw [List.append_nil] at hwords
    exact hwords

/-- **The first word of a text**: it stands behind white space, and in front of white space or at
the end. -/
theorem words_eq_cons_iff : words cs = w :: ws ↔
    ∃ front rest, cs = front ++ w ++ rest ∧ IsWhite front ∧ IsWord w ∧
      (∀ c ∈ rest.head?, isSpace c = true) ∧ words rest = ws := by
  constructor
  · intro h
    have hmore : ¬IsWhite cs := fun hwhite => by simp [words_eq_nil_iff.2 hwhite] at h
    obtain ⟨front, w', rest, rfl, hfront, hw, hrest⟩ := exists_isWord hmore
    rw [List.append_assoc, words_append_of_isWhite hfront, words_append_of_isWord hw hrest] at h
    obtain ⟨rfl, rfl⟩ := List.cons.inj h
    exact ⟨front, rest, rfl, hfront, hw, hrest, rfl⟩
  · rintro ⟨front, rest, rfl, hfront, hw, hrest, rfl⟩
    rw [List.append_assoc, words_append_of_isWhite hfront, words_append_of_isWord hw hrest]

end words

/-! ## What directives announce -/

namespace Delimiters

variable {d : Delimiters} {cs content : List Char} {pair : ProperDelimiters}

/-- The two delimiters are the words of a text: there is white space between them and maybe around
them, and nothing else. -/
def AreWordsOf (d : Delimiters) (cs : List Char) : Prop :=
  ∃ front middle back, cs = front ++ d.opener ++ middle ++ d.closer ++ back ∧
    IsWhite front ∧ IsWhite middle ∧ middle ≠ [] ∧ IsWhite back

/-- A pair that can be announced: two words without equals signs, neither of them that of the triple
pair. -/
structure IsAnnounceable (d : Delimiters) : Prop where
  opener_isWord : IsWord d.opener
  closer_isWord : IsWord d.closer
  equals_not_mem_opener : '=' ∉ d.opener
  equals_not_mem_closer : '=' ∉ d.closer
  opener_ne : d.opener ≠ tripleOpener
  closer_ne : d.closer ≠ tripleCloser

/-- **The texts of two words.** -/
theorem words_eq_pair_iff : words cs = [d.opener, d.closer] ↔
    IsWord d.opener ∧ IsWord d.closer ∧ d.AreWordsOf cs := by
  constructor
  · intro h
    obtain ⟨front, rest, rfl, hfront, hopener, hhead, hrest⟩ := words_eq_cons_iff.1 h
    obtain ⟨middle, back, rfl, hmiddle, hcloser, -, hback⟩ := words_eq_cons_iff.1 hrest
    refine ⟨hopener, hcloser, front, middle, back, by simp, hfront, hmiddle, ?_,
      words_eq_nil_iff.1 hback⟩
    -- the first word ends where the second one begins only if there is white space
    rintro rfl
    obtain ⟨c, closer, hc⟩ := List.exists_cons_of_ne_nil hcloser.ne_nil
    have hspace : isSpace c = true := hhead c (by simp [hc])
    rw [hcloser.not_isSpace c (by simp [hc])] at hspace
    cases hspace
  · rintro ⟨hopener, hcloser, front, middle, back, rfl, hfront, hmiddle, hne, hback⟩
    have hlast : words (d.closer ++ back) = [d.closer] := by
      refine words_eq_cons_iff.2 ⟨[], back, rfl, by simp [IsWhite], hcloser, ?_,
        words_eq_nil_iff.2 hback⟩
      exact fun c hc => hback c (List.mem_of_mem_head? hc)
    refine words_eq_cons_iff.2 ⟨front, middle ++ (d.closer ++ back), by simp, hfront, hopener, ?_,
      (words_append_of_isWhite hmiddle _).trans hlast⟩
    obtain ⟨c, middle, rfl⟩ := List.exists_cons_of_ne_nil hne
    rintro b ⟨⟩
    exact hmiddle c List.mem_cons_self

/-- **The directives that announce a pair.** -/
theorem ofDirective_iff_areWordsOf : ofDirective content = .ok pair ↔
    pair.val.IsAnnounceable ∧ ∃ inner, content = inner ++ ['='] ∧ pair.val.AreWordsOf inner := by
  rw [ofDirective_eq_ok_iff]
  constructor
  · rintro ⟨⟨inner, rfl, hwords⟩, hopener, hcloser, hne, hne'⟩
    obtain ⟨hword, hword', hinner⟩ := words_eq_pair_iff.1 hwords
    exact ⟨⟨hword, hword', hopener, hcloser, hne, hne'⟩, inner, rfl, hinner⟩
  · rintro ⟨hpair, inner, rfl, hinner⟩
    exact ⟨⟨inner, rfl, words_eq_pair_iff.2 ⟨hpair.opener_isWord, hpair.closer_isWord, hinner⟩⟩,
      hpair.equals_not_mem_opener, hpair.equals_not_mem_closer, hpair.opener_ne, hpair.closer_ne⟩

/-- The standard pair can be announced. -/
lemma standard_isAnnounceable : standard.IsAnnounceable where
  opener_isWord := ⟨standard_isProper.1, standard_isPlain.opener⟩
  closer_isWord := ⟨standard_isProper.2, standard_isPlain.closer⟩
  equals_not_mem_opener := by decide
  equals_not_mem_closer := by decide
  opener_ne := by decide
  closer_ne := by decide

/-- A pair that can be announced holds no line break. -/
lemma IsAnnounceable.isUnbroken (h : d.IsAnnounceable) : d.IsUnbroken :=
  ⟨unbroken_of_not_isSpace h.opener_isWord.not_isSpace,
    unbroken_of_not_isSpace h.closer_isWord.not_isSpace⟩

end Delimiters

/-- **The bodies of directives**: the words of the pair between two equals signs, with white space
around all of it. -/
theorem Tag.ofBody_directive {triple : Bool} {body : List Char} {pair : ProperDelimiters} :
    ofBody triple body = .ok (.delimiters pair) ↔
      triple = false ∧ pair.val.IsAnnounceable ∧ ∃ front inner back,
        body = front ++ ('=' :: inner ++ ['=']) ++ back ∧ IsWhite front ∧ IsWhite back ∧
          pair.val.AreWordsOf inner := by
  rw [ofBody_eq_delimiters_iff]
  simp only [Delimiters.ofDirective_iff_areWordsOf]
  constructor
  · rintro ⟨rfl, content, hcontent, hpair, inner, rfl, hinner⟩
    obtain ⟨front, back, hbody, hfront, hback⟩ := exists_trim_append body
    rw [hcontent] at hbody
    exact ⟨rfl, hpair, front, inner, back, hbody, hfront, hback, hinner⟩
  · rintro ⟨rfl, hpair, front, inner, back, rfl, hfront, hback, hinner⟩
    refine ⟨rfl, inner ++ ['='], ?_, hpair, inner, rfl, hinner⟩
    refine trim_append hfront hback (by simp) ?_ ?_
    · rintro c ⟨⟩
      decide
    · intro c hc
      rw [Option.mem_def, List.getLast?_concat] at hc
      obtain rfl := Option.some.inj hc
      decide

/-! ## Active delimiters -/

/-- What holds of the standard pair and of all pairs that are announced holds of the pair that is
active behind some pieces. -/
lemma activeBehind_preserves {P : ProperDelimiters → Prop}
    (hstandard : P ⟨.standard, Delimiters.standard_isProper⟩)
    (hannounced : ∀ content pair, Delimiters.ofDirective content = .ok pair → P pair)
    (ps : List Piece) : P (activeBehind ps) := by
  rw [activeBehind]
  induction ps using List.reverseRecOn with
  | nil => exact hstandard
  | append_singleton ps p ih =>
    rw [List.foldl_append]
    exact p.activeAfter_preserves hannounced ih

/-- **The active pair can be announced**, at every stage of reading a template. -/
theorem Stage.IsReached.isAnnounceable {m : Stage} {cs : List Char} (h : m.IsReached cs) :
    m.reader.pair.val.IsAnnounceable := by
  obtain ⟨past, used, hm⟩ := h.settled
  rw [hm.pair_eq]
  apply activeBehind_preserves (P := fun pair => pair.val.IsAnnounceable)
  · exact Delimiters.standard_isAnnounceable
  · exact fun content pair hpair => (Delimiters.ofDirective_iff_areWordsOf.1 hpair).1

/-- **What is announced, and what is active.** A directive announces a pair exactly if what stands
behind its first equals sign ends with another one, and what lies between consists of the two
delimiters as words, neither of which holds an equals sign or belongs to the triple pair. So the
pair that is active at any stage of reading any template consists of two words, without line breaks
and equals signs, and the body that has these words between two equals signs, with any white space
around them, is read as announcing this very pair. -/
theorem Delimiters.announced_and_active :
    (∀ content pair, ofDirective content = .ok pair ↔
      pair.val.IsAnnounceable ∧ ∃ inner, content = inner ++ ['='] ∧ pair.val.AreWordsOf inner) ∧
      ∀ (cs : List Char) (m : Stage), m.IsReached cs →
        m.reader.scanner.delimiters.IsAnnounceable ∧ m.reader.scanner.delimiters.IsUnbroken ∧
          ∀ front inner back, IsWhite front → IsWhite back →
            m.reader.scanner.delimiters.AreWordsOf inner →
              Tag.ofBody false (front ++ ('=' :: inner ++ ['=']) ++ back) =
                .ok (.delimiters ⟨m.reader.scanner.delimiters, m.reader.proper⟩) := by
  refine ⟨fun content pair => ofDirective_iff_areWordsOf, fun cs m hm => ?_⟩
  have hpair := hm.isAnnounceable
  refine ⟨hpair, hpair.isUnbroken, fun front inner back hfront hback hinner => ?_⟩
  exact Tag.ofBody_directive.2 ⟨rfl, hpair, front, inner, back, rfl, hfront, hback, hinner⟩

/-- A template that announces a pair of bars, and the same pair announced once more, with an em
space between its words. -/
theorem Delimiters.announced_and_active_on_bars :
    ∃ m : Stage, m.IsReached "\x7b\x7b=| ||=\x7d\x7dx".toList ∧
      m.reader.scanner.delimiters = ⟨['|'], ['|', '|']⟩ ∧
      m.reader.scanner.delimiters.IsAnnounceable ∧
      Tag.ofBody false "\t=|\u2003|| =\n".toList =
        .ok (.delimiters ⟨m.reader.scanner.delimiters, m.reader.proper⟩) := by
  let line := "\x7b\x7b=| ||=\x7d\x7dx".toList
  let pair : ProperDelimiters := ⟨⟨['|'], ['|', '|']⟩, by decide⟩
  let r : Reader :=
    ⟨⟨pair.val, 11, none⟩, pair.property, [], [.text ['x'], .tag (.delimiters pair) ⟨0, 10⟩]⟩
  have hread : Reader.initial.readLine line = .ok r := by decide +kernel
  obtain ⟨ps, hline⟩ := Stage.exists_leads_of_readLine hread [] [] []
  let m : Stage := ⟨ps, [], r, some [], []⟩
  have hm : m.IsReached line := hline.head .enter
  obtain ⟨hpair, -, hbodies⟩ := Delimiters.announced_and_active.2 line m hm
  have hwords : pair.val.AreWordsOf "|\u2003|| ".toList := by
    refine ⟨[], ['\u2003'], [' '], by decide, ?_⟩
    simp [IsWhite, show isSpace '\u2003' = true by decide, show isSpace ' ' = true by decide]
  have hbody := hbodies ['\t'] _ ['\n'] (by simp [IsWhite]; decide) (by simp [IsWhite]; decide)
    hwords
  exact ⟨m, hm, rfl, hpair, hbody⟩

end Stencil.Markup
