import Mathlib.Tactic.Lemma
import Stencil.Path

/-!
# The written form of a path

Identifiers hold no dots, so the identifiers of a path can be read off its written form. A text
that is no written form is not read.

## Main definitions

* `IsIdentifier` — a letter or an underscore, then letters, digits and underscores.
* `NamesData` — a lone dot, or identifiers joined by single dots.

## Main results

* `Path.ofText?_text` — reading the written form of a path gives the path.
* `Path.mem_text` — the characters of a written form.
* `Path.ofText?_eq_some_iff` — a text is read as the path of which it is the written form.
* `Path.ofText?_decided` — which texts are paths, and which path a text is.
-/

namespace Stencil

/-- The parts between the dots are those that the library finds. -/
lemma splitDots_eq_splitOn (cs : List Char) : splitDots cs = cs.splitOn '.' := by
  induction cs with
  | nil => rfl
  | cons c cs ih =>
    rw [splitDots, List.splitOn_cons_eq_if_modifyHead, ih]
    by_cases hc : c = '.'
    · simp [hc]
    · obtain ⟨part, parts, hparts⟩ := List.exists_cons_of_ne_nil (List.splitOn_ne_nil '.' cs)
      simp [hc, hparts]

/-- An identifier holds no dot. -/
lemma dot_not_mem_of_isIdent {cs : List Char} (h : isIdent cs = true) : '.' ∉ cs := by
  intro hdot
  cases cs with
  | nil => simp at hdot
  | cons c cs =>
    simp only [isIdent, Bool.and_eq_true, List.all_eq_true] at h
    rcases List.mem_cons.1 hdot with hc | hrest
    · subst hc
      exact absurd h.1 (by decide)
    · exact absurd (h.2 '.' hrest) (by decide)

/-- An identifier is made of the characters with which identifiers go on. -/
lemma isIdentRest_of_mem {cs : List Char} {c : Char} (h : isIdent cs = true) (hc : c ∈ cs) :
    isIdentRest c = true := by
  cases cs with
  | nil => cases hc
  | cons d cs =>
    rw [isIdent, Bool.and_eq_true] at h
    rcases List.mem_cons.1 hc with rfl | hc
    · rw [isIdentRest, h.1, Bool.or_true]
    · exact List.all_eq_true.1 h.2 c hc

/-- A character of a text is a dot, or it stands in one of the parts between the dots. -/
lemma eq_dot_or_mem_splitDots {cs : List Char} {c : Char} (h : c ∈ cs) :
    c = '.' ∨ ∃ part ∈ splitDots cs, c ∈ part := by
  induction cs with
  | nil => cases h
  | cons d cs ih =>
    rw [splitDots]
    split
    · rename_i hd
      rcases List.mem_cons.1 h with rfl | h
      · exact .inl hd
      · exact (ih h).imp_right fun ⟨part, hpart, hc⟩ => ⟨part, List.mem_cons_of_mem _ hpart, hc⟩
    · split
      · rename_i hnil
        rcases List.mem_cons.1 h with rfl | h
        · exact .inr ⟨[c], List.mem_singleton_self _, List.mem_singleton_self c⟩
        · exact .inl (by simpa [hnil] using ih h)
      · rename_i first parts hparts
        rcases List.mem_cons.1 h with rfl | h
        · exact .inr ⟨c :: first, List.mem_cons_self, List.mem_cons_self⟩
        · refine (ih h).imp_right ?_
          rintro ⟨part, hpart, hc⟩
          rw [hparts] at hpart
          rcases List.mem_cons.1 hpart with rfl | hpart
          · exact ⟨d :: part, List.mem_cons_self, List.mem_cons_of_mem d hc⟩
          · exact ⟨part, List.mem_cons_of_mem _ hpart, hc⟩

namespace Path

/-- Two paths with the same identifiers are equal. -/
lemma ext_segments {p q : Path} (h : p.segments = q.segments) : p = q := by
  cases p
  cases q
  congr

/-- The written form of a path that names members. -/
lemma text_of_segments_ne_nil {p : Path} (hne : p.segments ≠ []) :
    p.text = ".".intercalate p.segments := by
  simp [text, isSelf, hne]

/-- The identifiers of a path stand between the dots of its written form. -/
lemma splitDots_intercalate (p : Path) (hne : p.segments ≠ []) :
    (splitDots (".".intercalate p.segments).toList).map String.ofList = p.segments := by
  have hdots : ∀ cs ∈ p.segments.map String.toList, '.' ∉ cs := by
    intro cs hcs
    obtain ⟨s, hs, rfl⟩ := List.mem_map.1 hcs
    exact dot_not_mem_of_isIdent (p.segments_isIdent s hs)
  rw [splitDots_eq_splitOn, String.toList_intercalate]
  rw [show ".".toList = ['.'] from rfl, List.splitOn_intercalate '.' hdots (by simpa using hne)]
  simp [List.map_map, Function.comp_def]

/-- **Reading the written form of a path gives the path.**

**Proof sketch.** A path without identifiers is written as a lone dot. Otherwise the parts
between the dots are its identifiers, and since none of them is empty the written form is no
lone dot. -/
theorem ofText?_text (p : Path) : ofText? p.text = some p := by
  by_cases hself : p.segments = []
  · rw [text, isSelf, hself, List.isEmpty_nil, if_pos rfl, ofText?, if_pos rfl]
    exact congrArg some (ext_segments hself.symm)
  · have hparts := splitDots_intercalate p hself
    have hlone : ".".intercalate p.segments ≠ "." := by
      intro hdot
      rw [hdot] at hparts
      have hempty : "" ∈ p.segments := by
        rw [← hparts]
        decide
      exact absurd (p.segments_isIdent "" hempty) (by decide)
    rw [text_of_segments_ne_nil hself, ofText?, if_neg hlone]
    simp only [hparts]
    rw [dif_pos p.segments_isIdent]

/-- **The characters of a written form** are dots and those of identifiers. -/
theorem mem_text {p : Path} {c : Char} (h : c ∈ p.text.toList) :
    c = '.' ∨ isIdentRest c = true := by
  have hread := ofText?_text p
  unfold ofText? at hread
  split at hread
  · rename_i hlone
    rw [hlone] at h
    exact .inl (List.mem_singleton.1 h)
  · simp only at hread
    split at hread
    · rename_i hidents
      refine (eq_dot_or_mem_splitDots h).imp_right ?_
      rintro ⟨part, hpart, hc⟩
      have hident := hidents _ (List.mem_map_of_mem hpart)
      rw [String.toList_ofList] at hident
      exact isIdentRest_of_mem hident hc
    · cases hread

/-- A written form is never empty. -/
lemma toList_text_ne_nil (p : Path) : p.text.toList ≠ [] := by
  intro hnil
  have hread := ofText?_text p
  rw [String.toList_eq_nil_iff.1 hnil] at hread
  have hnone : ofText? "" = none := by decide
  rw [hnone] at hread
  cases hread

end Path

/-! ## The texts of paths -/

/-- An identifier, `[A-Za-z_][A-Za-z0-9_]*`. -/
def IsIdentifier (s : String) : Prop :=
  ∃ c cs, s.toList = c :: cs ∧ (c.isAlpha = true ∨ c = '_') ∧
    ∀ d ∈ cs, d.isAlphanum = true ∨ d = '_'

/-- The texts that name data: a lone dot, or identifiers joined by single dots. -/
inductive NamesData : String → Prop where
  | self : NamesData "."
  | joined {ids : List String} (hne : ids ≠ []) (hids : ∀ t ∈ ids, IsIdentifier t) :
    NamesData (".".intercalate ids)

/-- The characters with which an identifier starts. -/
lemma isIdentStart_iff {c : Char} : isIdentStart c = true ↔ c.isAlpha = true ∨ c = '_' := by
  have hupper : c.isUpper = ('A' ≤ c && c ≤ 'Z') := Bool.decide_and _ _
  have hlower : c.isLower = ('a' ≤ c && c ≤ 'z') := rfl
  have halpha : c.isAlpha = (c.isUpper || c.isLower) := rfl
  rw [isIdentStart, ← hupper, ← hlower, ← halpha, Bool.or_eq_true, decide_eq_true_eq]

/-- The characters with which an identifier goes on. -/
lemma isIdentRest_iff {c : Char} : isIdentRest c = true ↔ c.isAlphanum = true ∨ c = '_' := by
  have hdigit : ('0' ≤ c && c ≤ '9') = c.isDigit := rfl
  rw [isIdentRest, hdigit, Bool.or_eq_true, isIdentStart_iff, Char.isAlphanum, Bool.or_eq_true,
    ← or_assoc, or_comm (a := c.isDigit = true)]

/-- The test for identifiers accepts them and nothing else. -/
lemma isIdent_iff {s : String} : isIdent s.toList = true ↔ IsIdentifier s := by
  rw [IsIdentifier]
  cases s.toList with
  | nil => simp [isIdent]
  | cons c cs =>
    rw [isIdent, Bool.and_eq_true, List.all_eq_true, isIdentStart_iff]
    constructor
    · rintro ⟨hc, hcs⟩
      exact ⟨c, cs, rfl, hc, fun d hd => isIdentRest_iff.1 (hcs d hd)⟩
    · rintro ⟨c', cs', heq, hc, hcs⟩
      obtain ⟨rfl, rfl⟩ := List.cons.inj heq
      exact ⟨hc, fun d hd => isIdentRest_iff.2 (hcs d hd)⟩

namespace Path

variable {p q : Path} {s : String}

/-- A lone dot is written for the data at hand and for nothing else. -/
lemma text_eq_dot_iff : p.text = "." ↔ p.segments = [] := by
  constructor
  · intro hdot
    have hread := ofText?_text p
    rw [hdot] at hread
    obtain rfl : self = p := Option.some.inj hread
    rfl
  · intro hnil
    simp [text, isSelf, hnil]

/-- The parts of a text between its dots, joined again. -/
lemma intercalate_splitDots (s : String) :
    ".".intercalate ((splitDots s.toList).map String.ofList) = s := by
  have hjoin : ['.'].intercalate (splitDots s.toList) = s.toList := by
    rw [splitDots_eq_splitOn]
    exact List.intercalate_splitOn '.'
  apply String.toList_inj.1
  rw [String.toList_intercalate, List.map_map]
  simpa [Function.comp_def] using hjoin

/-- **A text is read as the path of which it is the written form**, and otherwise not at all. -/
theorem ofText?_eq_some_iff : ofText? s = some p ↔ p.text = s := by
  constructor
  · intro h
    unfold ofText? at h
    split at h
    · rename_i hdot
      obtain rfl := Option.some.inj h
      exact hdot.symm
    · dsimp only at h
      split at h
      · obtain rfl := Option.some.inj h
        rw [text_of_segments_ne_nil]
        · exact intercalate_splitDots s
        · -- there is a part in front of the first dot
          intro hnil
          have hsplit : splitDots s.toList = [] := List.map_eq_nil_iff.1 hnil
          rw [splitDots_eq_splitOn] at hsplit
          exact List.splitOn_ne_nil '.' s.toList hsplit
      · cases h
  · rintro rfl
    exact ofText?_text p

/-- The texts that can be read. -/
lemma exists_ofText?_iff : (∃ p, ofText? s = some p) ↔ NamesData s := by
  constructor
  · rintro ⟨p, h⟩
    obtain rfl := ofText?_eq_some_iff.1 h
    by_cases hself : p.segments = []
    · rw [text_eq_dot_iff.2 hself]
      exact .self
    · rw [text_of_segments_ne_nil hself]
      exact .joined hself fun t ht => isIdent_iff.1 (p.segments_isIdent t ht)
  · rintro (_ | ⟨hne, hids⟩)
    · exact ⟨self, rfl⟩
    · let p : Path := ⟨_, fun t ht => isIdent_iff.2 (hids t ht)⟩
      exact ⟨p, ofText?_eq_some_iff.2 (text_of_segments_ne_nil (p := p) hne)⟩

/-- The identifiers of a text are the segments of the path that it is read as. -/
lemma segments_eq_of_joined {ids : List String} (h : ofText? (".".intercalate ids) = some p)
    (hne : ids ≠ []) (hids : ∀ t ∈ ids, IsIdentifier t) : p.segments = ids := by
  let q : Path := ⟨ids, fun t ht => isIdent_iff.2 (hids t ht)⟩
  have hq : ofText? (".".intercalate ids) = some q :=
    ofText?_eq_some_iff.2 (text_of_segments_ne_nil (p := q) hne)
  obtain rfl : p = q := Option.some.inj (h.symm.trans hq)
  rfl

/-- **Which texts are paths, and which path a text is.** A lone dot is a path, and so are one or
more identifiers joined by single dots, and no other texts are. The segments joined with dots are
the text again, and there are none of them exactly for the lone dot; if the text is made of
identifiers, these are the segments, and the base is the first of them. Writing a path that was
read gives the text that it was read from, so reading it once more gives the same path, and two
paths that were read are equal exactly if their texts are. -/
theorem ofText?_decided (s : String) :
    ((∃ p, ofText? s = some p) ↔ NamesData s) ∧
      ∀ p, ofText? s = some p →
        (p.segments = [] ↔ s = ".") ∧ (p.isSelf = true ↔ s = ".") ∧
          (s ≠ "." → ".".intercalate p.segments = s) ∧
          (∀ first rest, (∀ t ∈ first :: rest, IsIdentifier t) →
            s = ".".intercalate (first :: rest) →
              p.segments = first :: rest ∧ p.base? = some first) ∧
          p.text = s ∧ ofText? p.text = some p ∧
          ∀ t q, ofText? t = some q → (p = q ↔ s = t) := by
  refine ⟨exists_ofText?_iff, fun p h => ?_⟩
  obtain rfl := ofText?_eq_some_iff.1 h
  refine ⟨text_eq_dot_iff.symm, ?_, ?_, ?_, rfl, h, ?_⟩
  · rw [text_eq_dot_iff, isSelf, List.isEmpty_iff]
  · intro hne
    exact (text_of_segments_ne_nil fun hself => hne (text_eq_dot_iff.2 hself)).symm
  · intro first rest hids heq
    have hsegments : p.segments = first :: rest :=
      segments_eq_of_joined (heq ▸ h) (List.cons_ne_nil first rest) hids
    exact ⟨hsegments, by rw [base?, hsegments]; rfl⟩
  · intro t q hq
    obtain rfl := ofText?_eq_some_iff.1 hq
    constructor
    · rintro rfl
      rfl
    · intro htext
      rw [htext] at h
      exact Option.some.inj (h.symm.trans hq)

/-- A path of three identifiers. -/
theorem ofText?_decided_on_members :
    ∃ p, ofText? "dog.body.tail_2" = some p ∧ p.segments = ["dog", "body", "tail_2"] ∧
      p.base? = some "dog" ∧ p.isSelf = false ∧ p.text = "dog.body.tail_2" ∧ p ≠ self := by
  have hids : ∀ t ∈ ["dog", "body", "tail_2"], IsIdentifier t := by
    have hall : ["dog", "body", "tail_2"].all (fun t => isIdent t.toList) = true := by decide
    exact fun t ht => isIdent_iff.1 (List.all_eq_true.1 hall t ht)
  have hjoined : "dog.body.tail_2" = ".".intercalate ["dog", "body", "tail_2"] := by decide
  obtain ⟨p, hp⟩ := (ofText?_decided "dog.body.tail_2").1.2 (hjoined ▸ .joined (by decide) hids)
  obtain ⟨-, hself, -, hbase, htext, -, hequal⟩ := (ofText?_decided "dog.body.tail_2").2 p hp
  obtain ⟨hsegments, hfirst⟩ := hbase "dog" ["body", "tail_2"] hids hjoined
  have hne : "dog.body.tail_2" ≠ "." := by decide
  refine ⟨p, hp, hsegments, hfirst, ?_, htext, fun h => hne ((hequal "." self rfl).1 h)⟩
  rw [← Bool.not_eq_true, hself]
  exact hne

end Path

end Stencil
