import Mathlib.Data.List.Basic
import Mathlib.Tactic.Lemma
import Stencil.Text.Blank
import Stencil.Text.Lines
import Stencil.Text.Search

/-!
# Patterns and line breaks

A pattern that holds no line break never runs over a line end, so what is found in a line alone
is found in the whole text, and what is not found in a line is found behind it.

## Main definitions

* `Unbroken` — a text without line breaks.
* `StartsInLine` — a text that does not begin with a line break.
* `IsEnding` — the three ways in which a line ends.
* `Sealed` — a text that is followed by another one only behind a line break.
* `EndsBefore` — how a line goes over to the rest of a text.
* `IsLines` — a text that is cut into lines.

## Main results

* `Unbroken.split_line` — an unbroken pattern stands in the body of a line.
* `cutAt_append_of_some`, `cutAt_append_of_none` — searching line by line.
* `lines_isLines` — cutting a text into lines gives lines.
* `lines_append_cons` — lines that are cut off behind a text.
-/

namespace Stencil.Text

/-! ## Texts without line breaks -/

/-- No character of the text ends a line. -/
def Unbroken (cs : List Char) : Prop := ∀ c ∈ cs, isBreak c = false

/-- The three ways in which a line ends. -/
def IsEnding (cs : List Char) : Prop := cs = ['\n'] ∨ cs = ['\r'] ∨ cs = ['\r', '\n']

/-- A text ends a line exactly if its last, non-empty part does. -/
lemma endsLine_append (front : List Char) {last : List Char} (hne : last ≠ []) :
    endsLine (front ++ last) = endsLine last := by
  rw [endsLine, endsLine, List.getLast?_append_of_ne_nil front hne]

/-- The text begins with a character that does not end a line. -/
def StartsInLine (cs : List Char) : Prop := ∃ c rest, cs = c :: rest ∧ isBreak c = false

/-- Such a text is not empty. -/
lemma StartsInLine.ne_nil {cs : List Char} (h : StartsInLine cs) : cs ≠ [] := by
  obtain ⟨c, rest, rfl, -⟩ := h
  exact List.cons_ne_nil c rest

/-- A line break is white space. -/
lemma isSpace_of_isBreak {c : Char} (h : isBreak c = true) : isSpace c = true := by
  have hc : c = '\n' ∨ c = '\r' := by simpa [isBreak] using h
  rcases hc with rfl | rfl <;> decide

namespace Unbroken

variable {xs ys : List Char}

/-- The empty text is unbroken. -/
lemma nil : Unbroken [] := by
  intro c hc
  cases hc

/-- A text is unbroken if its parts are. -/
lemma append_iff : Unbroken (xs ++ ys) ↔ Unbroken xs ∧ Unbroken ys :=
  List.forall_mem_append

/-- A text that begins with an unbroken one does not begin with a line break. -/
lemma startsInLine (h : Unbroken xs) (hne : xs ≠ []) (ys : List Char) :
    StartsInLine (xs ++ ys) := by
  obtain ⟨c, rest, rfl⟩ := List.exists_cons_of_ne_nil hne
  exact ⟨c, rest ++ ys, rfl, h c List.mem_cons_self⟩

/-- **An unbroken pattern in a line stands in the body of the line.**

**Proof sketch.** If the pattern reached into the ending of the line, its last character would
be a line break. -/
theorem split_line {before pattern after body ending : List Char} (hp : Unbroken pattern)
    (hne : pattern ≠ []) (hending : ∀ c ∈ ending, isBreak c = true)
    (h : before ++ pattern ++ after = body ++ ending) :
    ∃ rest, after = rest ++ ending ∧ body = before ++ pattern ++ rest := by
  rcases List.append_eq_append_iff.1 h with ⟨rest, hbody, hafter⟩ | ⟨part, hpart, hrest⟩
  · exact ⟨rest, hafter, hbody⟩
  · rcases List.eq_nil_or_concat part with rfl | ⟨init, c, rfl⟩
    · exact ⟨[], by simpa using hrest.symm, by simpa using hpart.symm⟩
    · -- the last character would belong both to the pattern and to the ending
      exfalso
      obtain ⟨start, d, rfl⟩ := (List.eq_nil_or_concat pattern).resolve_left hne
      have hcd : d = c := by
        have hlast := congrArg List.getLast? hpart
        simpa using hlast
      have hc : isBreak c = true := hending c (by simp [hrest])
      have hd : isBreak d = false := hp d (by simp)
      rw [hcd, hc] at hd
      cases hd

end Unbroken

/-! ## Searching line by line -/

/-- Nothing follows the text, or the text ends with a line break, or it is empty. -/
def Sealed (cs ds : List Char) : Prop := cs = [] ∨ ds = [] ∨ endsLine cs = true

namespace Sealed

variable {cs ds : List Char}

/-- What is left of a sealed text is sealed. -/
lemma of_suffix {es : List Char} (h : Sealed cs ds) (hsuffix : es <:+ cs) : Sealed es ds := by
  obtain ⟨front, rfl⟩ := hsuffix
  rcases List.eq_nil_or_concat es with rfl | ⟨init, c, rfl⟩
  · exact .inl rfl
  · rcases h with h | h | h
    · simp at h
    · exact .inr (.inl h)
    · refine .inr (.inr ?_)
      rw [endsLine] at h ⊢
      simpa using h

/-- An unbroken pattern at the front of a text stands in its first, sealed part. -/
lemma isPrefixOf_append {pattern : List Char} (h : Sealed cs ds) (hp : Unbroken pattern)
    (hne : cs ≠ []) : pattern.isPrefixOf (cs ++ ds) = pattern.isPrefixOf cs := by
  rw [Bool.eq_iff_iff, List.isPrefixOf_iff_prefix, List.isPrefixOf_iff_prefix]
  refine ⟨fun hpre => ?_, fun hpre => hpre.trans (List.prefix_append cs ds)⟩
  rcases List.prefix_or_prefix_of_prefix hpre (List.prefix_append cs ds) with hin | hover
  · exact hin
  · obtain ⟨init, c, rfl⟩ := (List.eq_nil_or_concat cs).resolve_left hne
    rcases h with h | rfl | h
    · simp at h
    · simpa using hpre
    · exfalso
      have hc : isBreak c = true := by simpa [endsLine] using h
      have hmem : c ∈ pattern := hover.subset (by simp)
      rw [hp c hmem] at hc
      cases hc

end Sealed

/-- What is found in a text is found in a longer one. -/
lemma cutAt_append_of_some {pattern cs before after : List Char}
    (h : cutAt pattern cs = some (before, after)) (ds : List Char) :
    cutAt pattern (cs ++ ds) = some (before, after ++ ds) := by
  induction cs generalizing before with
  | nil =>
    cases pattern with
    | cons p ps => simp [cutAt] at h
    | nil =>
      obtain ⟨rfl, rfl⟩ : before = [] ∧ after = [] := by simpa [cutAt] using h
      cases ds <;> simp [cutAt]
  | cons c cs ih =>
    rw [cutAt] at h
    split at h
    · rename_i hpre
      have hfront := List.isPrefixOf_iff_prefix.1 hpre
      obtain ⟨rfl, rfl⟩ := Prod.mk.inj (Option.some.inj h)
      have hlong : pattern.isPrefixOf (c :: (cs ++ ds)) = true :=
        List.isPrefixOf_iff_prefix.2 (hfront.trans (List.prefix_append (c :: cs) ds))
      rw [List.cons_append, cutAt, if_pos hlong, ← List.cons_append,
        List.drop_append_of_le_length hfront.length_le]
    · rename_i hpre
      obtain ⟨⟨b, a⟩, hcut, heq⟩ := Option.map_eq_some_iff.1 h
      obtain ⟨rfl, rfl⟩ := Prod.mk.inj heq
      have hshort : ¬pattern.isPrefixOf (c :: (cs ++ ds)) = true := by
        intro hlong
        -- the pattern is found further down, so the text is long enough to hold it here
        have hlen : pattern.length ≤ cs.length := by
          have hparts := congrArg List.length (cutAt_append hcut)
          simp only [List.length_append] at hparts
          omega
        refine hpre (List.isPrefixOf_iff_prefix.2 ?_)
        refine List.prefix_of_prefix_length_le (List.isPrefixOf_iff_prefix.1 hlong)
          (List.prefix_append (c :: cs) ds) ?_
        simp only [List.length_cons]
        omega
      rw [List.cons_append, cutAt, if_neg hshort, ih hcut]
      rfl

/-- A pattern that occurs is found. -/
lemma exists_cutAt (pattern before after : List Char) :
    ∃ front back, cutAt pattern (before ++ pattern ++ after) = some (front, back) := by
  induction before with
  | nil =>
    have hpre : pattern.isPrefixOf (pattern ++ after) = true :=
      List.isPrefixOf_iff_prefix.2 (List.prefix_append pattern after)
    rw [List.nil_append]
    cases hall : pattern ++ after with
    | nil =>
      obtain ⟨rfl, -⟩ := List.append_eq_nil_iff.1 hall
      exact ⟨[], [], rfl⟩
    | cons c cs => exact ⟨_, _, by rw [cutAt, if_pos (hall ▸ hpre)]⟩
  | cons c before ih =>
    obtain ⟨front, back, hcut⟩ := ih
    rw [List.cons_append, List.cons_append, cutAt]
    split
    · exact ⟨_, _, rfl⟩
    · exact ⟨c :: front, back, by rw [hcut]; rfl⟩

/-- A pattern at the end of a text is found there exactly if it occurs nowhere else. -/
lemma cutAt_append_self_iff {pattern before : List Char} :
    cutAt pattern (before ++ pattern) = some (before, []) ↔
      ∀ front back, before ++ pattern = front ++ pattern ++ back → back = [] := by
  constructor
  · intro h front back hall
    obtain ⟨first, rest, hcut⟩ := exists_cutAt pattern front []
    rw [List.append_nil] at hcut
    rw [hall, cutAt_append_of_some hcut back] at h
    exact (List.append_eq_nil_iff.1 (Prod.mk.inj (Option.some.inj h)).2).2
  · intro h
    obtain ⟨front, back, hcut⟩ := exists_cutAt pattern before []
    rw [List.append_nil] at hcut
    have hall := cutAt_append hcut
    obtain rfl := h front back hall.symm
    rw [List.append_nil] at hall
    obtain rfl := List.append_cancel_right hall
    exact hcut

/-- What is not found in a sealed text is found behind it. -/
lemma cutAt_append_of_none {pattern cs ds : List Char} (hp : Unbroken pattern)
    (hs : Sealed cs ds) (h : cutAt pattern cs = none) :
    cutAt pattern (cs ++ ds) = (cutAt pattern ds).map fun (b, a) => (cs ++ b, a) := by
  induction cs with
  | nil => simp
  | cons c cs ih =>
    rw [cutAt] at h
    split at h
    · cases h
    · rename_i hpre
      have hnone : cutAt pattern cs = none := Option.map_eq_none_iff.1 h
      have hlong : ¬pattern.isPrefixOf (c :: (cs ++ ds)) = true := by
        rw [← List.cons_append, hs.isPrefixOf_append hp (List.cons_ne_nil c cs)]
        exact hpre
      rw [List.cons_append, cutAt, if_neg hlong, ih (hs.of_suffix (List.suffix_cons c cs)) hnone]
      cases cutAt pattern ds <;> rfl

/-! ## Lines -/

/-- How a line goes over to the rest of a text: it has an ending, of which the rest is no
part, or there is nothing left and the line is not empty. -/
def EndsBefore (body ending rest : List Char) : Prop :=
  IsEnding ending ∧ (ending = ['\r'] → rest.head? ≠ some '\n') ∨
    ending = [] ∧ body ≠ [] ∧ rest = []

namespace EndsBefore

variable {body ending rest : List Char}

/-- All characters of a line ending end lines. -/
lemma isBreak (h : EndsBefore body ending rest) : ∀ c ∈ ending, isBreak c = true := by
  rcases h with ⟨hending, -⟩ | ⟨rfl, -, -⟩
  · rcases hending with rfl | rfl | rfl <;> simp [Text.isBreak]
  · intro c hc
    cases hc

/-- The pieces of a line in front of the rest of a text make a sealed text. -/
lemma sealed (h : EndsBefore body ending rest) : Sealed (body ++ ending) rest := by
  rcases h with ⟨hending, -⟩ | ⟨-, -, rfl⟩
  · refine .inr (.inr ?_)
    rcases hending with rfl | rfl | rfl <;> simp [endsLine, Text.isBreak]
  · exact .inr (.inl rfl)

/-- A line without an ending is not empty, and nothing follows it. -/
lemma of_nil (h : EndsBefore body [] rest) : body ≠ [] ∧ rest = [] := by
  rcases h with ⟨hending | hending | hending, -⟩ | ⟨-, hbody, hrest⟩
  · cases hending
  · cases hending
  · cases hending
  · exact ⟨hbody, hrest⟩

/-- A line holds a character. -/
lemma ne_nil (h : EndsBefore body ending rest) : body ++ ending ≠ [] := by
  intro hnil
  obtain ⟨rfl, rfl⟩ := List.append_eq_nil_iff.1 hnil
  exact h.of_nil.1 rfl

/-- A longer body changes nothing. -/
lemma cons (h : EndsBefore body ending rest) (c : Char) : EndsBefore (c :: body) ending rest :=
  h.imp id fun h => ⟨h.1, List.cons_ne_nil c body, h.2.2⟩

end EndsBefore

/-- A text that is cut into lines, each of them a body with an ending. -/
inductive IsLines : List (List Char) → Prop where
  | nil : IsLines []
  | cons {body ending : List Char} {more : List (List Char)} : Unbroken body →
      EndsBefore body ending more.flatten → IsLines more → IsLines ((body ++ ending) :: more)

/-- Lines without a character are none. -/
lemma IsLines.eq_nil_of_flatten {lns : List (List Char)} (h : IsLines lns)
    (hflatten : lns.flatten = []) : lns = [] := by
  cases h with
  | nil => rfl
  | cons _ hends _ =>
    rw [List.flatten_cons, List.append_eq_nil_iff] at hflatten
    exact absurd hflatten.1 hends.ne_nil

/-- **Cutting a text into lines gives lines.** -/
theorem lines_isLines (cs : List Char) : IsLines (lines cs) := by
  fun_induction lines cs with
  | case1 => exact .nil
  | case2 rest ih =>
    refine .cons Unbroken.nil (.inl ⟨.inr (.inr rfl), ?_⟩) ih
    intro h
    cases h
  | case3 c rest hpair hbreak ih =>
    have hc : IsEnding [c] := by
      have hcases : c = '\n' ∨ c = '\r' := by simpa [isBreak] using hbreak
      rcases hcases with rfl | rfl
      · exact .inl rfl
      · exact .inr (.inl rfl)
    refine .cons Unbroken.nil (.inl ⟨hc, ?_⟩) ih
    intro hcr hhead
    rw [lines_flatten] at hhead
    obtain ⟨more, rfl⟩ := List.head?_eq_some_iff.1 hhead
    exact hpair more (List.cons.inj hcr).1 rfl
  | case4 c rest hpair hbreak hnil ih =>
    have hbody : Unbroken [c] := by
      intro d hd
      obtain rfl : d = c := by simpa using hd
      simpa using hbreak
    exact .cons hbody (.inr ⟨rfl, List.cons_ne_nil c [], rfl⟩) .nil
  | case5 c rest hpair hbreak line more hlines ih =>
    rw [hlines] at ih
    have hc : isBreak c = false := by simpa using hbreak
    cases ih with
    | cons hbody hending hmore =>
      exact .cons (List.forall_mem_cons.2 ⟨hc, hbody⟩) (hending.cons c) hmore

/-- Only the empty text has no lines. -/
lemma lines_eq_nil_iff {cs : List Char} : lines cs = [] ↔ cs = [] := by
  refine ⟨fun h => ?_, fun h => by rw [h]; rfl⟩
  rw [← lines_flatten cs, h]
  rfl

/-- A character that does not end a line belongs to the first line of what follows. -/
lemma lines_cons_of_not_isBreak {c : Char} {cs line : List Char} {more : List (List Char)}
    (hc : isBreak c = false) (h : lines cs = line :: more) :
    lines (c :: cs) = (c :: line) :: more := by
  have hcr : c ≠ '\r' := by
    rintro rfl
    cases hc
  rw [lines]
  · rw [if_neg (by simp [hc]), h]
  · rintro rest rfl
    exact absurd rfl hcr

/-- A character that ends a line is a line, unless it is the first half of an ending. -/
lemma lines_cons_of_isBreak {c : Char} {cs : List Char} (hc : isBreak c = true)
    (hpair : c = '\r' → cs.head? ≠ some '\n') : lines (c :: cs) = [c] :: lines cs := by
  rw [lines]
  · rw [if_pos hc]
  · rintro rest rfl rfl
    exact hpair rfl rfl

/-- **Lines that are cut off behind a text.** If the lines of a text and of what follows it are
those of both together, this also holds with one more character in front. -/
theorem lines_append_cons {c : Char} {xs ys : List Char} {more : List (List Char)}
    (hne : xs ≠ []) (h : lines xs ++ more = lines (xs ++ ys)) :
    lines (c :: xs) ++ more = lines (c :: xs ++ ys) := by
  obtain ⟨d, rest, rfl⟩ := List.exists_cons_of_ne_nil hne
  by_cases hc : isBreak c = true
  · by_cases hpair : c = '\r' ∧ d = '\n'
    · obtain ⟨rfl, rfl⟩ := hpair
      -- both characters make one ending, so the line feed is no line of its own any more
      have hlf : ∀ zs, lines ('\n' :: zs) = ['\n'] :: lines zs := fun zs =>
        lines_cons_of_isBreak rfl (by simp)
      have hcrlf : ∀ zs, lines ('\r' :: '\n' :: zs) = ['\r', '\n'] :: lines zs := fun zs => by
        rw [lines]
      rw [List.cons_append, hlf, hlf, List.cons_append] at h
      rw [List.cons_append, List.cons_append, hcrlf, hcrlf, List.cons_append,
        (List.cons.inj h).2]
    · have hhead : ∀ zs, c = '\r' → (d :: zs).head? ≠ some '\n' := by
        rintro zs rfl hd
        exact hpair ⟨rfl, Option.some.inj hd⟩
      rw [List.cons_append, List.cons_append, lines_cons_of_isBreak hc (hhead _),
        lines_cons_of_isBreak hc (hhead _), List.cons_append, h, List.cons_append]
  · have hc' : isBreak c = false := by simpa using hc
    obtain ⟨line, others, hline⟩ := List.exists_cons_of_ne_nil
      (fun h => List.cons_ne_nil d rest (lines_eq_nil_iff.1 h))
    rw [hline] at h
    have hlong : lines (c :: (d :: rest ++ ys)) = (c :: line) :: (others ++ more) :=
      lines_cons_of_not_isBreak hc' h.symm
    rw [lines_cons_of_not_isBreak hc' hline]
    exact hlong.symm

/-- Lines that are cut off behind a text, with a further text in front. -/
lemma lines_append_append (front : List Char) {xs ys : List Char} {more : List (List Char)}
    (hne : xs ≠ []) (h : lines xs ++ more = lines (xs ++ ys)) :
    lines (front ++ xs) ++ more = lines (front ++ xs ++ ys) := by
  induction front with
  | nil => exact h
  | cons c front ih => exact lines_append_cons (by simp [hne]) ih

end Stencil.Text
