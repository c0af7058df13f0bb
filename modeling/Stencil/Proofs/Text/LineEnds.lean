import Mathlib.Tactic.Lemma
import Stencil.Proofs.Loops
import Stencil.Proofs.Text.Cuts

/-!
# Where lines end

Where the lines of a text end can be told without cutting it: a line feed ends a line, a carriage
return does so unless a line feed follows, and then both end it as a pair. A reader that is called
for one line after the other goes behind the first line break each time. So it stops behind each of
these places and at the end of the text, and never inside of a pair.

## Main definitions

* `KeepsPairs` — two texts between which no pair is cut in two.
* `EndsLineBetween`, `Span.IsLineEnd` — the places where the lines of a text end.
* `Span.Meets` — ranges that share a byte.
* `IsLineOf` — how a line lies between the lines in front of it and those behind.
* `LineReader`, `LineReader.step` — a reader at an offset, and a call for the next line.

## Main results

* `Span.isLineEnd_and_meets_iff` — the line ends that share a byte with a line.
* `IsLines.isLineOf` — each line of a text lies between the others as it should.
* `LineReader.endsIn_of_linesAt` — calls for lines come to an end.
* `LineReader.reads_lines` — what a reader finds in a text.
-/

namespace Stencil.Text

/-! ## Line ends of a text -/

/-- No pair is cut in two where the one text goes over to the other. -/
def KeepsPairs (front back : List Char) : Prop :=
  front.getLast? = some '\r' → back.head? ≠ some '\n'

/-- A text that ends a line between two others: a line feed that no carriage return precedes, a
carriage return that no line feed follows, or both as a pair. -/
inductive EndsLineBetween (front back : List Char) : List Char → Prop where
  | lf : front.getLast? ≠ some '\r' → EndsLineBetween front back ['\n']
  | cr : back.head? ≠ some '\n' → EndsLineBetween front back ['\r']
  | crlf : EndsLineBetween front back ['\r', '\n']

namespace Span

/-- The range is that of a place where a line of the text ends. -/
def IsLineEnd (t : Span) (cs : List Char) : Prop :=
  ∃ front ending back, cs = front ++ ending ++ back ∧ EndsLineBetween front back ending ∧
    t = ⟨size front, size (front ++ ending)⟩

/-- Two ranges share a byte. -/
def Meets (s t : Span) : Prop := s.start < t.stop ∧ t.start < s.stop

end Span

section LineEnds

variable {front before back found body ending rest : List Char}

/-- Where one part of a text stops in front of another one, the rest of the latter follows. -/
lemma exists_of_size_lt {xs ys zs ws : List Char} (h : xs ++ ys = zs ++ ws)
    (hlt : size xs < size zs) : ∃ part, part ≠ [] ∧ zs = xs ++ part ∧ ys = part ++ ws := by
  rcases List.append_eq_append_iff.1 h with ⟨part, hzs, hys⟩ | ⟨part, hxs, -⟩
  · refine ⟨part, ?_, hzs, hys⟩
    rintro rfl
    simp [hzs] at hlt
  · rw [hxs, size_append] at hlt
    omega

/-- Only a pair can be cut in two. -/
lemma IsEnding.eq_of_append {xs ys : List Char} (h : IsEnding (xs ++ ys)) (hxs : xs ≠ [])
    (hys : ys ≠ []) : xs = ['\r'] ∧ ys = ['\n'] := by
  obtain ⟨c, xs, rfl⟩ := List.exists_cons_of_ne_nil hxs
  rcases h with h | h | h
  · simp [hys] at h
  · simp [hys] at h
  · obtain ⟨rfl, htail⟩ := List.cons.inj h
    rcases List.append_eq_singleton_iff.1 htail with ⟨rfl, rfl⟩ | ⟨-, hnil⟩
    · exact ⟨rfl, rfl⟩
    · exact absurd hnil hys

namespace EndsLineBetween

/-- Lines end in three ways. -/
lemma isEnding (h : EndsLineBetween front back found) : IsEnding found := by
  cases h with
  | lf => exact .inl rfl
  | cr => exact .inr (.inl rfl)
  | crlf => exact .inr (.inr rfl)

/-- Where a line ends, the first character is a line break. -/
lemma exists_cons (h : EndsLineBetween front back found) :
    ∃ c more, found = c :: more ∧ isBreak c = true := by
  cases h with
  | lf => exact ⟨'\n', [], rfl, rfl⟩
  | cr => exact ⟨'\r', [], rfl, rfl⟩
  | crlf => exact ⟨'\r', ['\n'], rfl, rfl⟩

/-- **A line end does not reach into a text from the front** if no pair is cut in two there. -/
lemma exists_of_reaches (h : EndsLineBetween before back found) (hkeeps : KeepsPairs front rest)
    (heq : before ++ (found ++ back) = front ++ rest) (hlt : size front < size (before ++ found)) :
    ∃ past, before = front ++ past ∧ past ++ (found ++ back) = rest := by
  rcases List.append_eq_append_iff.1 heq with ⟨cut, rfl, hcut⟩ | ⟨past, hbefore, hrest⟩
  · by_cases hnil : cut = []
    · subst hnil
      exact ⟨[], by simp, hcut⟩
    · -- the part of the line end that stands in front would be the first half of a pair
      exfalso
      have hshort : size cut < size found := by
        simp only [size_append] at hlt
        omega
      obtain ⟨tail, htail, rfl, rfl⟩ := exists_of_size_lt hcut.symm hshort
      obtain ⟨rfl, rfl⟩ := h.isEnding.eq_of_append hnil htail
      exact hkeeps (by simp) rfl
  · exact ⟨past, hbefore, hrest.symm⟩

/-- A line end and the ending of a line that both stand at the front of a text are the same. -/
lemma eq_ending (h : EndsLineBetween before back found) (hending : IsEnding ending)
    (hcr : ending = ['\r'] → rest.head? ≠ some '\n') (heq : found ++ back = ending ++ rest) :
    found = ending := by
  cases h with
  | lf =>
    rcases hending with rfl | rfl | rfl
    · rfl
    · simp at heq
    · simp at heq
  | cr hback =>
    rcases hending with rfl | rfl | rfl
    · simp at heq
    · rfl
    · obtain rfl : back = '\n' :: rest := by simpa using heq
      exact absurd rfl hback
  | crlf =>
    rcases hending with rfl | rfl | rfl
    · simp at heq
    · obtain rfl : '\n' :: back = rest := by simpa using heq
      exact absurd rfl (hcr rfl)
    · rfl

/-- No line end starts inside of the ending of a line, since a line feed behind a carriage return
is the second half of a pair. -/
lemma eq_nil_of_starts_in_ending (h : EndsLineBetween (front ++ before) back found)
    (hending : IsEnding ending) (heq : before ++ (found ++ back) = ending ++ rest)
    (hlt : size before < size ending) : before = [] := by
  by_contra hne
  obtain ⟨tail, htail, rfl, hfound⟩ := exists_of_size_lt heq hlt
  obtain ⟨rfl, rfl⟩ := hending.eq_of_append hne htail
  cases h with
  | lf hfront => exact hfront (by simp)
  | cr => simp at hfound
  | crlf => simp at hfound

/-- A line end does not start in a text without line breaks. -/
lemma exists_behind_of_unbroken (h : EndsLineBetween front back found) (hbody : Unbroken body)
    (heq : before ++ (found ++ back) = body ++ rest) :
    ∃ inside, before = body ++ inside ∧ inside ++ (found ++ back) = rest := by
  rcases List.append_eq_append_iff.1 heq with ⟨part, hbefore, hpart⟩ | ⟨inside, hbefore, hrest⟩
  · cases part with
    | nil => exact ⟨[], by simpa using hbefore.symm, by simpa using hpart⟩
    | cons d part =>
      obtain ⟨c, more, rfl, hc⟩ := h.exists_cons
      obtain ⟨rfl, -⟩ := List.cons.inj hpart
      have hd : isBreak c = false := hbody c (by simp [hbefore])
      rw [hc] at hd
      cases hd
  · exact ⟨inside, hbefore, hrest.symm⟩

/-- **A line end that starts in a line is the ending of the line.** -/
theorem eq_of_starts_in_line (h : EndsLineBetween (front ++ before) back found)
    (hbody : Unbroken body) (hends : EndsBefore body ending rest)
    (heq : before ++ (found ++ back) = body ++ (ending ++ rest))
    (hlt : size before < size (body ++ ending)) :
    ending ≠ [] ∧ before = body ∧ found = ending := by
  obtain ⟨inside, rfl, hinside⟩ := h.exists_behind_of_unbroken hbody heq
  have hshort : size inside < size ending := by
    simp only [size_append] at hlt
    omega
  rcases hends with ⟨hending, hcr⟩ | ⟨rfl, -, -⟩
  · rw [← List.append_assoc] at h
    obtain rfl := h.eq_nil_of_starts_in_ending hending hinside hshort
    refine ⟨?_, List.append_nil body, h.eq_ending hending hcr hinside⟩
    rintro rfl
    simp [size] at hshort
  · simp [size] at hshort

end EndsLineBetween

/-- A line goes over to the rest of a text without cutting a pair in two. -/
lemma EndsBefore.keepsPairs (h : EndsBefore body ending rest) :
    KeepsPairs (body ++ ending) rest := by
  intro hlast
  rcases h with ⟨hending, hcr⟩ | ⟨rfl, -, rfl⟩
  · rcases hending with rfl | rfl | rfl
    · simp at hlast
    · exact hcr rfl
    · simp at hlast
  · simp

/-- The ending of a line is where the line ends. -/
lemma EndsBefore.endsLineBetween (h : EndsBefore body ending rest) (hbody : Unbroken body)
    (hkeeps : KeepsPairs front (body ++ (ending ++ rest))) (hne : ending ≠ []) :
    EndsLineBetween (front ++ body) rest ending := by
  rcases h with ⟨hending, hcr⟩ | ⟨rfl, -, -⟩
  · rcases hending with rfl | rfl | rfl
    · refine .lf fun hlast => ?_
      rcases List.eq_nil_or_concat body with rfl | ⟨init, c, rfl⟩
      · exact hkeeps (by simpa using hlast) rfl
      · have hc : Text.isBreak c = false := hbody c (by simp)
        obtain rfl : c = '\r' := by simpa using hlast
        cases hc
    · exact .cr (hcr rfl)
    · exact .crlf
  · exact absurd rfl hne

/-- **The line end that shares a byte with a line is the ending of the line.** A line without an
ending shares no byte with any.

**Proof sketch.** A line end that shares a byte with the line does not start in front of it, since
no pair is cut in two there, and it does not start in the body, which has no line breaks. So it
starts where the ending does. -/
theorem Span.isLineEnd_and_meets_iff {t : Span} (hbody : Unbroken body)
    (hends : EndsBefore body ending rest) (hkeeps : KeepsPairs front (body ++ (ending ++ rest))) :
    t.IsLineEnd (front ++ (body ++ (ending ++ rest))) ∧
        t.Meets ⟨size front, size front + size (body ++ ending)⟩ ↔
      ending ≠ [] ∧ t = ⟨size front + size body, size front + size (body ++ ending)⟩ := by
  constructor
  · rintro ⟨⟨before, found, back, heq, hend, rfl⟩, hstart, hstop⟩
    rw [List.append_assoc] at heq
    obtain ⟨past, rfl, hpast⟩ := hend.exists_of_reaches hkeeps heq.symm hstop
    have hlt : size past < size (body ++ ending) := by
      simp only [size_append] at hstart ⊢
      omega
    obtain ⟨hne, rfl, rfl⟩ := hend.eq_of_starts_in_line hbody hends hpast hlt
    exact ⟨hne, by simp⟩
  · rintro ⟨hne, rfl⟩
    have hpos := size_pos hne
    refine ⟨⟨front ++ body, ending, rest, by simp, hends.endsLineBetween hbody hkeeps hne,
      by simp⟩, ?_, ?_⟩
    · simp only [size_append]
      omega
    · simp only [size_append]
      omega

end LineEnds

/-! ## Lines in a row -/

section Lines

variable {past later lns : List (List Char)} {line : List Char}

/-- The lines behind some lines. -/
lemma IsLines.of_append (h : IsLines (past ++ later)) : IsLines later := by
  induction past with
  | nil => exact h
  | cons line past ih =>
    cases h with
    | cons _ _ hmore => exact ih hmore

/-- Between two lines no pair is cut in two. -/
lemma IsLines.keepsPairs (h : IsLines (past ++ later)) : KeepsPairs past.flatten later.flatten := by
  induction past with
  | nil =>
    intro hlast
    cases hlast
  | cons line past ih =>
    cases h with
    | @cons body ending _ _ hends hmore =>
      rw [List.flatten_cons]
      by_cases hnil : past.flatten = []
      · have hkeeps : KeepsPairs (body ++ ending) (past ++ later).flatten := hends.keepsPairs
        rw [List.flatten_append, hnil, List.nil_append] at hkeeps
        rwa [hnil, List.append_nil]
      · rw [KeepsPairs, List.getLast?_append_of_ne_nil _ hnil]
        exact ih hmore

/-- Between neighbouring lines no pair is cut in two. -/
lemma IsLines.isChain (h : IsLines lns) : lns.IsChain KeepsPairs := by
  induction h with
  | nil => exact .nil
  | @cons body ending more _ hends hmore ih =>
    cases hmore with
    | nil => exact .singleton _
    | cons _ hnext _ =>
      refine List.isChain_cons_cons.2 ⟨fun hlast hhead => ?_, ih⟩
      refine hends.keepsPairs hlast ?_
      rw [List.flatten_cons, List.head?_append_of_ne_nil _ hnext.ne_nil, hhead]

end Lines

/-! ## Lines with their offsets -/

/-- How a line lies in a text between the lines in front of it and those behind, each with its
offset: it starts where the lines in front stop, it has a character, and of the places where the
lines of the text end only one shares a byte with it, which is its ending. The last line may have
none. -/
structure IsLineOf (source : List Char) (past later : List (Nat × List Char)) (offset : Nat)
    (line : List Char) : Prop where
  offset_eq : offset = size (past.map Prod.snd).flatten
  ne_nil : line ≠ []
  ends : ∃ body ending, line = body ++ ending ∧ Unbroken body ∧
    (IsEnding ending ∨ ending = [] ∧ later = []) ∧
    ∀ t : Span, t.IsLineEnd source ∧ t.Meets ⟨offset, offset + size line⟩ ↔
      ending ≠ [] ∧ t = ⟨offset + size body, offset + size line⟩

section placed

variable {past later : List (Nat × List Char)} {lns : List (List Char)} {line : List Char}
  {n offset : Nat}

/-- Without their offsets, the lines are what they were. -/
@[simp]
lemma map_snd_placed (n : Nat) (lns : List (List Char)) : (placed n lns).map Prod.snd = lns := by
  induction lns generalizing n with
  | nil => rfl
  | cons line lns ih => rw [placed, List.map_cons, ih]

/-- The offset of a line is what the lines in front of it take up. -/
lemma offset_of_placed_eq (h : placed n lns = past ++ (offset, line) :: later) :
    offset = n + size (past.map Prod.snd).flatten := by
  induction past generalizing n lns with
  | nil =>
    cases lns with
    | nil => cases h
    | cons first lns =>
      obtain ⟨hfirst, -⟩ := List.cons.inj h
      exact (Prod.mk.inj hfirst).1.symm
  | cons item past ih =>
    cases lns with
    | nil => cases h
    | cons first lns =>
      obtain ⟨rfl, hrest⟩ := List.cons.inj h
      rw [ih hrest, List.map_cons, List.flatten_cons, size_append, Nat.add_assoc]

/-- **Each line of a text lies between the others as it should.** -/
theorem IsLines.isLineOf (hlines : IsLines lns)
    (h : placed 0 lns = past ++ (offset, line) :: later) :
    IsLineOf lns.flatten past later offset line := by
  have hoffset := offset_of_placed_eq h
  rw [Nat.zero_add] at hoffset
  obtain rfl : past.map Prod.snd ++ line :: later.map Prod.snd = lns := by
    rw [← map_snd_placed 0 lns, h, List.map_append, List.map_cons]
  have hkeeps := hlines.keepsPairs
  have hline := hlines.of_append
  cases hline with
  | @cons body ending _ hbody hends hmore =>
    refine ⟨hoffset, hends.ne_nil, body, ending, rfl, hbody, ?_, fun t => ?_⟩
    · rcases hends with ⟨hending, -⟩ | ⟨rfl, -, hrest⟩
      · exact .inl hending
      · exact .inr ⟨rfl, List.map_eq_nil_iff.1 (hmore.eq_nil_of_flatten hrest)⟩
    · rw [List.flatten_cons, List.append_assoc] at hkeeps
      have hiff := Span.isLineEnd_and_meets_iff (t := t) hbody hends hkeeps
      rwa [hoffset, List.flatten_append, List.flatten_cons, List.append_assoc]

end placed

/-! ## Reading line by line -/

/-- A reader of lines: the offset at which it stands, and the lines that it found, each with the
offset at which it starts. -/
structure LineReader where
  cursor : Nat
  found : List (Nat × List Char)

namespace LineReader

/-- The reader at the start of a text. -/
def start : LineReader := ⟨0, []⟩

/-- A call for the next line. Where there is none, the answer is what was found; otherwise the
reader goes behind the line. -/
def step (source : List Char) (r : LineReader) :
    Checked (List (Nat × List Char)) ⊕ LineReader :=
  match nextLine source r.cursor with
  | .error d => .inl (.error d)
  | .ok none => .inl (.ok r.found)
  | .ok (some line) => .inr ⟨r.cursor + size line, r.found ++ [(r.cursor, line)]⟩

/-- **Calls for lines come to an end** where finding the lines by offsets does, with one call for
each line and one that finds no more. -/
theorem endsIn_of_linesAt {source : List Char} {cursor : Nat} {items : List (Nat × List Char)}
    (h : linesAt source cursor = .ok items) (found : List (Nat × List Char)) :
    EndsIn (step source) ⟨cursor, found⟩ (items.length + 1) (.ok (found ++ items)) := by
  induction cursor using linesAt.induct source generalizing items found with
  | case1 cursor d hnext =>
    rw [linesAt, hnext] at h
    cases h
  | case2 cursor hnext =>
    rw [linesAt, hnext] at h
    obtain rfl := Except.ok.inj h
    refine .last ?_
    rw [step, hnext, List.append_nil]
  | case3 cursor line hnext hguard ih =>
    rw [linesAt, hnext] at h
    simp only [dif_pos hguard] at h
    cases hrest : linesAt source (cursor + size line) with
    | error d =>
      rw [hrest] at h
      cases h
    | ok rest =>
      rw [hrest] at h
      cases h
      have hstep : step source ⟨cursor, found⟩ =
          .inr ⟨cursor + size line, found ++ [(cursor, line)]⟩ := by
        rw [step, hnext]
      refine .more hstep ?_
      simpa using ih hrest (found ++ [(cursor, line)])
  | case4 cursor line hnext hguard =>
    rw [linesAt, hnext] at h
    simp only [dif_neg hguard] at h
    cases h

/-- **A text is read line by line.** Calls for lines come to an end, and no call cuts inside of a
character. The lines that were found, put together, are the text. Each one has a character, starts
at the offset that the lines in front of it take up, and holds one line end, which is its ending;
only the last line may hold none. No pair is cut in two between two lines.

**Proof sketch.** The calls find what cutting the text into lines gives. There each line is a body
without line breaks and an ending, of which what follows is no part, so a line end that shares a
byte with the line is this ending. -/
theorem reads_lines (source : List Char) :
    ∃ items, EndsIn (step source) start (items.length + 1) (.ok items) ∧
      items.map Prod.snd = lines source ∧ (items.map Prod.snd).flatten = source ∧
      (∀ past offset line later, items = past ++ (offset, line) :: later →
        IsLineOf source past later offset line) ∧
      (items.map Prod.snd).IsChain fun line next =>
        line.getLast? = some '\r' → next.head? ≠ some '\n' := by
  have hlines := lines_isLines source
  refine ⟨placed 0 (lines source), endsIn_of_linesAt (linesAt_eq source) [], map_snd_placed 0 _,
    ?_, fun past offset line later h => ?_, ?_⟩
  · rw [map_snd_placed, lines_flatten]
  · have hline := hlines.isLineOf h
    rwa [lines_flatten] at hline
  · rw [map_snd_placed]
    exact hlines.isChain

end LineReader

/-- A lone carriage return in front of a pair ends a line of its own. -/
example : placed 0 (lines "a\n\r\r\nb\r".toList) =
    [(0, ['a', '\n']), (2, ['\r']), (3, ['\r', '\n']), (5, ['b', '\r'])] := by
  decide

end Stencil.Text
