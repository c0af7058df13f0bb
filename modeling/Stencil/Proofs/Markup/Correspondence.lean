import Mathlib.Tactic.Lemma
import Stencil.Proofs.Markup.Sections

/-!
# Tokens, scans and lines

A template can be told in three ways: token by token, tag by tag as a scan finds them, and line by
line. If it has tokens, then a scan finds the same tags, all of them closed and readable. If no
tag holds a line break, the logical lines of the tokens are the lines of the template.

## Main definitions

* `Token.tag?` — the tag that a token is.
* `Scan.Tells` — a scan finds the tags among some tokens.

## Main results

* `tells_scan` — a scan finds the tags among the tokens.
* `map_source_logicalLines` — logical lines are lines.
-/

namespace Stencil.Markup

open Stencil.Text

/-! ## Scans -/

/-- The tag that a token is. -/
def Token.tag? : Token → Option Tag
  | .char _ => none
  | .tag _ t => some t

/-- Characters are no tags. -/
lemma filterMap_tag?_map_char (cs : List Char) : (cs.map Token.char).filterMap Token.tag? = [] := by
  simp [Token.tag?]

/-- A piece of text is no tag. -/
lemma filterMap_tag?_textPiece (offset : Nat) (cs : List Char) :
    (textPiece offset cs).filterMap Piece.tag? = [] := by
  rw [textPiece]
  split <;> rfl

/-- **A scan finds the tags among some tokens**: all of them are closed, each is read as the token
says and stands in its source, and none is missed. -/
structure Scan.Tells (s : Scan) (ts : List Token) : Prop where
  closed : s.unclosed = none
  read : ∀ m ∈ s.tags, ∃ source t, Token.tag source t ∈ ts ∧ Tag.ofBody m.1 m.2 = .ok t ∧
    m.2 <:+: source
  readings_eq : readings s.tags = ts.filterMap Token.tag?

/-- A scan with text in front. -/
lemma Scan.Tells.afterText {s : Scan} {ts : List Token} (h : s.Tells ts) (offset : Nat)
    (front : List Char) :
    (s.afterPieces (textPiece offset front)).Tells (front.map Token.char ++ ts) := by
  have htags : (s.afterPieces (textPiece offset front)).tags = s.tags := by
    rw [Scan.tags_afterPieces, filterMap_tag?_textPiece, List.nil_append]
  refine ⟨h.closed, fun m hm => ?_, ?_⟩
  · obtain ⟨source, t, hmem, hrest⟩ := h.read m (htags ▸ hm)
    exact ⟨source, t, List.mem_append_right _ hmem, hrest⟩
  · rw [htags, h.readings_eq, List.filterMap_append, filterMap_tag?_map_char, List.nil_append]

/-- A scan with a tag in front. -/
lemma Scan.Tells.afterTag {s : Scan} {ts : List Token} (h : s.Tells ts) {start : Nat}
    {triple : Bool} {opener body closer : List Char} {t : Tag}
    (ht : Tag.ofBody triple body = .ok t) :
    (s.afterPieces [.tag start triple opener body closer]).Tells
      (.tag (opener ++ body ++ closer) t :: ts) := by
  have htags : (s.afterPieces [.tag start triple opener body closer]).tags =
      (triple, body) :: s.tags := Scan.tags_afterPieces s _
  refine ⟨h.closed, fun m hm => ?_, ?_⟩
  · rcases List.mem_cons.1 (htags ▸ hm) with rfl | hm
    · exact ⟨_, t, List.mem_cons_self, ht, opener, closer, rfl⟩
    · obtain ⟨source, u, hmem, hrest⟩ := h.read m hm
      exact ⟨source, u, List.mem_cons_of_mem _ hmem, hrest⟩
  · rw [htags, readings_cons ht, h.readings_eq]
    rfl

/-- **A scan finds the tags among the tokens.**

**Proof sketch.** Induction on the length of the text. The tokens up to the first opener are
characters, and what is read there as a tag is what a scan finds up to the first closer. -/
theorem tells_scan {d : ProperDelimiters} {cs : List Char} {ts : List Token}
    (hd : d.val.IsUnbroken) (h : tokens d cs = some ts) (offset : Nat) :
    (scan d offset cs).Tells ts := by
  induction hn : cs.length using Nat.strong_induction_on generalizing d cs ts offset with
  | _ n ih =>
    have hs : Sealed cs [] := .inr (.inl rfl)
    cases hcut : d.val.cutAtOpener cs with
    | none =>
      have htokens := tokens_append_of_none hd hs hcut
      rw [List.append_nil, h, tokens] at htokens
      obtain rfl := Option.some.inj htokens
      rw [scan_of_cutAtOpener_none offset hcut]
      exact Scan.Tells.afterText ⟨rfl, by simp [Scan.tags], rfl⟩ offset cs
    | some found =>
      obtain ⟨front, triple, found⟩ := found
      have htokens := tokens_append_of_cutAtOpener hd hs hcut
      rw [List.append_nil, List.append_nil, h] at htokens
      obtain ⟨us, hus, rfl⟩ := Option.map_eq_some_iff.1 htokens.symm
      rw [tokensInside] at hus
      split at hus
      · cases hus
      · rename_i source t after hread
        obtain ⟨vs, hvs, rfl⟩ := Option.map_eq_some_iff.1 hus
        have hlt := readTag_length_lt d.property hread
        obtain ⟨body, hbody, ht, rfl⟩ := readTag_eq_some hread
        have hshort : after.length < n := by
          rw [← hn, ← (Delimiters.cutAtOpener_append hcut).1, List.length_append]
          rw [List.length_drop] at hlt
          omega
        rw [scan_of_cutAtOpener_some offset hcut, scanInside_of_some _ hbody]
        have hrest := ih after.length hshort (Tag.activeAfter_isUnbroken hd ht) hvs
          (offset + size front + size (d.val.opening triple) +
            size (body ++ d.val.closing triple)) rfl
        rw [← Piece.activeAfter_tag ht d (offset + size front) (d.val.opening triple)
          (d.val.closing triple)] at hrest
        exact (hrest.afterTag ht).afterText offset front

/-! ## Lines -/

/-- An unbroken text is one line. -/
lemma lines_of_unbroken {xs : List Char} (hne : xs ≠ []) (h : Unbroken xs) : lines xs = [xs] := by
  induction xs with
  | nil => exact absurd rfl hne
  | cons c xs ih =>
    have hc := h c List.mem_cons_self
    by_cases hxs : xs = []
    · subst hxs
      rw [lines, if_neg (by simp [hc]), lines]
      rintro rest - hrest
      cases hrest
    · exact lines_cons_of_not_isBreak hc
        (ih hxs fun b hb => h b (List.mem_cons_of_mem c hb))

/-- An unbroken text belongs to the first line of what follows. -/
lemma lines_append_of_unbroken {xs zs line : List Char} {more : List (List Char)}
    (h : Unbroken xs) (hlines : lines zs = line :: more) :
    lines (xs ++ zs) = (xs ++ line) :: more := by
  induction xs with
  | nil => exact hlines
  | cons c xs ih =>
    exact lines_cons_of_not_isBreak (h c List.mem_cons_self)
      (ih fun b hb => h b (List.mem_cons_of_mem c hb))

/-- The source of a token that ends no line is not empty and holds no line break. -/
lemma Token.source_unbroken {t : Token} (hends : ¬t.endsLine = true)
    (h : ∀ source u, t = .tag source u → source ≠ [] ∧ Unbroken source) :
    t.source ≠ [] ∧ Unbroken t.source := by
  cases t with
  | tag source u => exact h source u rfl
  | char c =>
    refine ⟨List.cons_ne_nil c [], fun b hb => ?_⟩
    obtain rfl := List.mem_singleton.1 hb
    exact Bool.eq_false_iff.2 hends

/-- **Logical lines are lines**, if no tag holds a line break. -/
theorem map_source_logicalLines {ts : List Token}
    (h : ∀ source t, Token.tag source t ∈ ts → source ≠ [] ∧ Unbroken source) :
    (logicalLines ts).map (fun line => line.flatMap Token.source) =
      lines (ts.flatMap Token.source) := by
  fun_induction logicalLines ts with
  | case1 => rfl
  | case2 rest ih =>
    have hcrlf : ∀ zs, lines ('\r' :: '\n' :: zs) = ['\r', '\n'] :: lines zs := fun zs => by
      rw [lines]
    rw [List.map_cons, ih fun source t ht => h source t (by simp [ht])]
    exact (hcrlf _).symm
  | case3 t rest hpair hends ih =>
    have hrest := ih fun source u hu => h source u (List.mem_cons_of_mem t hu)
    cases t with
    | tag source tag => cases hends
    | char c =>
      have hnext : c = '\r' → (rest.flatMap Token.source).head? ≠ some '\n' := by
        rintro rfl hlf
        cases rest with
        | nil => cases hlf
        | cons u rest =>
          cases u with
          | char d =>
            obtain rfl : d = '\n' := Option.some.inj hlf
            exact hpair rest rfl rfl
          | tag source tag =>
            obtain ⟨hne, hunbroken⟩ := h source tag (by simp)
            obtain ⟨first, more, rfl⟩ := List.exists_cons_of_ne_nil hne
            obtain rfl : first = '\n' := Option.some.inj hlf
            exact absurd (hunbroken _ List.mem_cons_self) (by decide)
      rw [List.map_cons, hrest]
      exact (lines_cons_of_isBreak hends hnext).symm
  | case4 t rest hpair hends hnil ih =>
    have hrest : rest = [] := by
      rw [← logicalLines_flatten rest, hnil]
      rfl
    obtain ⟨hne, hunbroken⟩ := Token.source_unbroken hends
      fun source u hu => h source u (by simp [hu])
    rw [hrest, List.flatMap_cons, List.flatMap_nil, List.append_nil,
      lines_of_unbroken hne hunbroken]
    simp
  | case5 t rest hpair hends line more hlines ih =>
    have hrest := ih fun source u hu => h source u (List.mem_cons_of_mem t hu)
    rw [hlines, List.map_cons] at hrest
    obtain ⟨-, hunbroken⟩ := Token.source_unbroken hends
      fun source u hu => h source u (by simp [hu])
    rw [List.flatMap_cons, lines_append_of_unbroken hunbroken hrest.symm, List.map_cons,
      List.flatMap_cons]

end Stencil.Markup
