import Mathlib.Tactic.Lemma
import Stencil.Proofs.Markup.Tags

/-!
# The tokens of a template

A template from left to right, without regard to its lines: each character that belongs to no
tag, and each tag with its source. Where a character that belongs to no tag ends a line, a
logical line ends. A tag may hold line breaks, and the lines that it joins are one logical line.

## Main definitions

* `Token` — a character or a tag.
* `tokens` — the tokens of a template.
* `logicalLines` — tokens cut behind each line break that belongs to no tag.

## Main results

* `tokens_source` — nothing is lost, doubled or moved.
* `lines_logicalLines` — each logical line is made of whole lines of the template.
* `logicalLines_append` — a logical line is cut off from what follows.
-/

namespace Stencil.Markup

open Stencil.Text

/-- A character that belongs to no tag, or a tag with its source. -/
inductive Token where
  | char (c : Char)
  | tag (source : List Char) (tag : Tag)
  deriving DecidableEq

namespace Token

/-- The characters that a token covers. -/
def source : Token → List Char
  | char c => [c]
  | tag source _ => source

/-- What a token says, the source of a tag left aside. -/
def mark : Token → Char ⊕ Tag
  | char c => .inl c
  | tag _ t => .inr t

/-- Whether a logical line may end with the token. -/
def endsLine : Token → Bool
  | char c => isBreak c
  | tag _ _ => false

end Token

/-! ## Reading from left to right -/

/-- The tag of which the opener and a part of the body were read: its source, what it says, and
what follows it. -/
def readTag (d : Delimiters) (triple : Bool) (body cs : List Char) :
    Option (List Char × Tag × List Char) :=
  match cutAt (d.closing triple) cs with
  | none => none
  | some (before, after) =>
    match Tag.ofBody triple (body ++ before) with
    | .error _ => none
    | .ok tag => some (d.opening triple ++ (body ++ before) ++ d.closing triple, tag, after)

section readTag

variable {d : Delimiters} {triple : Bool} {body cs source after : List Char} {tag : Tag}

/-- What is known of a tag that was read. -/
lemma readTag_eq_some (h : readTag d triple body cs = some (source, tag, after)) :
    ∃ before, cutAt (d.closing triple) cs = some (before, after) ∧
      Tag.ofBody triple (body ++ before) = .ok tag ∧
        source = d.opening triple ++ (body ++ before) ++ d.closing triple := by
  unfold readTag at h
  split at h
  · cases h
  · rename_i before rest hcut
    split at h
    · cases h
    · rename_i t ht
      cases h
      exact ⟨before, hcut, ht, rfl⟩

/-- The source of a tag and what follows it are what was read. -/
lemma readTag_source (h : readTag d triple body cs = some (source, tag, after)) :
    source ++ after = d.opening triple ++ body ++ cs := by
  obtain ⟨before, hcut, -, rfl⟩ := readTag_eq_some h
  rw [← cutAt_append hcut]
  simp

/-- Between proper delimiters, what follows a tag is shorter. -/
lemma readTag_length_lt (hd : d.IsProper)
    (h : readTag d triple body cs = some (source, tag, after)) : after.length < cs.length := by
  obtain ⟨before, hcut, -, -⟩ := readTag_eq_some h
  exact cutAt_length_lt (Delimiters.closing_ne_nil hd triple) hcut

end readTag

/-- The tokens of a template, if all of its tags are well formed and closed. A tag that changes
the delimiters does so for all that follows. -/
def tokens (d : ProperDelimiters) : List Char → Option (List Token)
  | [] => some []
  | c :: cs =>
    match d.val.openerAt (c :: cs) with
    | none => (tokens d cs).map (.char c :: ·)
    | some triple =>
      match _h : readTag d.val triple [] ((c :: cs).drop (d.val.opening triple).length) with
      | none => none
      | some (source, tag, after) => (tokens (tag.activeAfter d) after).map (.tag source tag :: ·)
termination_by cs => cs.length
decreasing_by
  · exact Nat.lt_succ_self _
  · have hlt := readTag_length_lt d.property _h
    rw [List.length_drop] at hlt
    omega

/-- The tokens of a template in which a tag is open, of which a part of the body was read. -/
def tokensInside (d : ProperDelimiters) (triple : Bool) (body cs : List Char) :
    Option (List Token) :=
  match readTag d.val triple body cs with
  | none => none
  | some (source, tag, after) => (tokens (tag.activeAfter d) after).map (.tag source tag :: ·)

section tokens

variable {d : ProperDelimiters} {c : Char} {cs : List Char} {ts : List Token}

/-- No tag starts at the front. -/
lemma tokens_cons_of_none (h : d.val.openerAt (c :: cs) = none) :
    tokens d (c :: cs) = (tokens d cs).map (.char c :: ·) := by
  rw [tokens]
  split
  · rfl
  · rename_i triple hopen
    rw [h] at hopen
    cases hopen

/-- A tag starts at the front. -/
lemma tokens_cons_of_some {triple : Bool} (h : d.val.openerAt (c :: cs) = some triple) :
    tokens d (c :: cs) =
      tokensInside d triple [] ((c :: cs).drop (d.val.opening triple).length) := by
  rw [tokens, tokensInside]
  split
  · rename_i hopen
    rw [h] at hopen
    cases hopen
  · rename_i found hopen
    obtain rfl : triple = found := Option.some.inj (h.symm.trans hopen)
    split <;> rename_i hread <;> rw [hread]

/-- **Nothing is lost, doubled or moved**: the sources of the tokens are the template. -/
theorem tokens_source (h : tokens d cs = some ts) : ts.flatMap Token.source = cs := by
  fun_induction tokens d cs generalizing ts with
  | case1 d =>
    cases h
    rfl
  | case2 d c cs hopen ih =>
    obtain ⟨us, hus, rfl⟩ := Option.map_eq_some_iff.1 h
    rw [List.flatMap_cons, ih hus]
    rfl
  | case3 d c cs triple hopen hread => cases h
  | case4 d c cs triple hopen source tag after hread ih =>
    obtain ⟨us, hus, rfl⟩ := Option.map_eq_some_iff.1 h
    obtain ⟨rest, hrest⟩ := Delimiters.opening_prefix_of_openerAt hopen
    rw [← hrest, List.drop_left] at hread
    rw [List.flatMap_cons, ih hus, ← hrest]
    show source ++ after = _
    rw [readTag_source hread, List.append_nil]

/-- The source of every token starts with a character, and that of a tag with no line break. -/
lemma tokens_head (hd : d.val.IsUnbroken) (h : tokens d cs = some ts) :
    ∀ t ∈ ts, ∃ first rest, t.source = first :: rest ∧ (t.endsLine = false → isBreak first = false)
    := by
  fun_induction tokens d cs generalizing ts with
  | case1 d =>
    cases h
    intro t ht
    cases ht
  | case2 d c cs hopen ih =>
    obtain ⟨us, hus, rfl⟩ := Option.map_eq_some_iff.1 h
    rintro t (_ | ⟨_, ht⟩)
    · exact ⟨c, [], rfl, id⟩
    · exact ih hd hus t ht
  | case3 d c cs triple hopen hread => cases h
  | case4 d c cs triple hopen source tag after hread ih =>
    obtain ⟨us, hus, rfl⟩ := Option.map_eq_some_iff.1 h
    obtain ⟨before, -, hbody, rfl⟩ := readTag_eq_some hread
    rintro t (_ | ⟨_, ht⟩)
    · obtain ⟨first, rest, hfirst⟩ :=
        List.exists_cons_of_ne_nil (Delimiters.opening_ne_nil d.property triple)
      refine ⟨first, rest ++ before ++ d.val.closing triple, ?_, fun _ => ?_⟩
      · simp [Token.source, hfirst]
      · exact hd.opening triple first (hfirst ▸ List.mem_cons_self)
    · exact ih (Tag.activeAfter_isUnbroken hd hbody) hus t ht

end tokens

/-! ## Logical lines -/

/-- The logical lines of tokens, cut behind each line break that belongs to no tag. -/
def logicalLines : List Token → List (List Token)
  | [] => []
  | .char '\r' :: .char '\n' :: rest => [.char '\r', .char '\n'] :: logicalLines rest
  | t :: rest =>
    if t.endsLine then [t] :: logicalLines rest
    else
      match logicalLines rest with
      | [] => [[t]]
      | line :: more => (t :: line) :: more

section logicalLines

variable {t : Token} {ts : List Token}

/-- Cutting tokens into logical lines loses nothing. -/
lemma logicalLines_flatten (ts : List Token) : (logicalLines ts).flatten = ts := by
  fun_induction logicalLines ts with
  | case1 => rfl
  | case2 rest ih => simp [ih]
  | case3 t rest hpair hends ih => simp [ih]
  | case4 t rest hpair hends hnil ih => simp_all
  | case5 t rest hpair hends line more hlines ih => simp_all

/-- A logical line holds a token. -/
lemma ne_nil_of_mem_logicalLines {line : List Token} (h : line ∈ logicalLines ts) :
    line ≠ [] := by
  fun_induction logicalLines ts with
  | case1 => cases h
  | case2 rest ih =>
    rcases List.mem_cons.1 h with rfl | h
    · exact List.cons_ne_nil _ _
    · exact ih h
  | case3 t rest hpair hends ih =>
    rcases List.mem_cons.1 h with rfl | h
    · exact List.cons_ne_nil _ _
    · exact ih h
  | case4 t rest hpair hends hnil ih =>
    obtain rfl : line = [t] := by simpa using h
    exact List.cons_ne_nil _ _
  | case5 t rest hpair hends first more hlines ih =>
    rcases List.mem_cons.1 h with rfl | h
    · exact List.cons_ne_nil _ _
    · exact ih (hlines ▸ List.mem_cons_of_mem _ h)

/-- A token that ends no line belongs to the first logical line of what follows. -/
lemma logicalLines_cons_of_not_endsLine (h : t.endsLine = false) :
    logicalLines (t :: ts) =
      match logicalLines ts with
      | [] => [[t]]
      | line :: more => (t :: line) :: more := by
  rw [logicalLines]
  · rw [if_neg (by simp [h])]
  · rintro rest rfl
    cases h

/-- A line break is the end of a line, unless it is the first half of an ending. -/
lemma logicalLines_cons_of_endsLine (h : t.endsLine = true)
    (hpair : t = .char '\r' → ts.head? ≠ some (.char '\n')) :
    logicalLines (t :: ts) = [t] :: logicalLines ts := by
  rw [logicalLines]
  · rw [if_pos h]
  · rintro rest rfl rfl
    exact hpair rfl rfl

/-- **A logical line is cut off from what follows**, if it ends with a line break and holds no
other one. -/
theorem logicalLines_append {init rest : List Token} {ending : List Char}
    (hinit : ∀ t ∈ init, t.endsLine = false) (hending : IsEnding ending)
    (hrest : ending = ['\r'] → rest.head? ≠ some (.char '\n')) :
    logicalLines (init ++ ending.map .char ++ rest) =
      (init ++ ending.map .char) :: logicalLines rest := by
  induction init with
  | nil =>
    rcases hending with rfl | rfl | rfl
    · exact logicalLines_cons_of_endsLine rfl (by simp)
    · exact logicalLines_cons_of_endsLine rfl fun _ => hrest rfl
    · show logicalLines (.char '\r' :: .char '\n' :: rest) = _
      rw [logicalLines]
      rfl
  | cons t init ih =>
    rw [List.cons_append, List.cons_append,
      logicalLines_cons_of_not_endsLine (hinit t List.mem_cons_self),
      ih fun u hu => hinit u (List.mem_cons_of_mem t hu)]

/-- Tokens without a line break are one logical line. -/
lemma logicalLines_of_forall_not (hne : ts ≠ []) (h : ∀ t ∈ ts, t.endsLine = false) :
    logicalLines ts = [ts] := by
  induction ts with
  | nil => exact absurd rfl hne
  | cons t ts ih =>
    rw [logicalLines_cons_of_not_endsLine (h t List.mem_cons_self)]
    by_cases hts : ts = []
    · rw [hts, logicalLines]
    · rw [ih hts fun u hu => h u (List.mem_cons_of_mem t hu)]

/-- **Each logical line is made of whole lines of the template.** The lines of the logical
lines, in order, are the lines of the template.

**Proof sketch.** A logical line ends where a line ends, since a tag never starts with the
second half of a line ending. -/
theorem lines_logicalLines
    (hhead : ∀ t ∈ ts, ∃ first rest, t.source = first :: rest ∧
      (t.endsLine = false → isBreak first = false)) :
    (logicalLines ts).flatMap (fun line => lines (line.flatMap Token.source)) =
      lines (ts.flatMap Token.source) := by
  fun_induction logicalLines ts with
  | case1 => rfl
  | case2 rest ih =>
    have hcrlf : ∀ zs, lines ('\r' :: '\n' :: zs) = ['\r', '\n'] :: lines zs := fun zs => by
      rw [lines]
    rw [List.flatMap_cons, ih fun t ht => hhead t (by simp [ht])]
    show lines ['\r', '\n'] ++ _ = lines ('\r' :: '\n' :: rest.flatMap Token.source)
    rw [hcrlf, hcrlf]
    rfl
  | case3 t rest hpair hends ih =>
    have hrest := ih fun u hu => hhead u (List.mem_cons_of_mem t hu)
    cases t with
    | tag source tag => cases hends
    | char c =>
      have hnext : c = '\r' → (rest.flatMap Token.source).head? ≠ some '\n' := by
        rintro rfl hlf
        cases rest with
        | nil => cases hlf
        | cons u rest =>
          obtain ⟨first, more, hsource, hfirst⟩ := hhead u (by simp)
          obtain rfl : first = '\n' := by simpa [hsource] using hlf
          cases u with
          | char d =>
            obtain ⟨rfl, -⟩ := List.cons.inj hsource
            exact hpair rest rfl rfl
          | tag source tag => exact absurd (hfirst rfl) (by decide)
      rw [List.flatMap_cons, hrest]
      show lines [c] ++ _ = lines (c :: rest.flatMap Token.source)
      rw [lines_cons_of_isBreak hends hnext, lines_cons_of_isBreak hends (by simp)]
      rfl
  | case4 t rest hpair hends hnil ih =>
    have hrest : rest = [] := by
      rw [← logicalLines_flatten rest, hnil]
      rfl
    subst hrest
    simp
  | case5 t rest hpair hends line more hlines ih =>
    have hrest := ih fun u hu => hhead u (List.mem_cons_of_mem t hu)
    have hflat := logicalLines_flatten rest
    rw [hlines] at hrest hflat
    rw [List.flatten_cons] at hflat
    rw [← hflat, List.flatMap_cons, List.flatMap_append] at hrest
    rw [← hflat, List.flatMap_cons, List.flatMap_cons, List.flatMap_cons, List.flatMap_append,
      ← List.append_assoc]
    refine lines_append_append t.source ?_ hrest
    -- the first token of the logical line covers a character
    obtain ⟨u, others, rfl⟩ := List.exists_cons_of_ne_nil
      (ne_nil_of_mem_logicalLines (hlines ▸ List.mem_cons_self))
    obtain ⟨first, chars, hsource, -⟩ := hhead u (by simp [← hflat])
    simp [hsource]

end logicalLines

end Stencil.Markup
