import Mathlib.Data.List.Forall2
import Mathlib.Tactic.Lemma
import Stencil.Proofs.Code.Changes
import Stencil.Proofs.Code.Translation
import Stencil.Proofs.Markup.Endings

/-!
# The code of templates with other line endings

The code of a template with the endings `\r\n` is that of the template with `\n`, with the texts
that it writes changed in the same way. All else is the same: the sections and their jumps, what is
shown and what is included, and the indentations, since no indentation holds a line break. If one of
the templates is malformed, then so is the other one, and in the same way.

## Main definitions

* `Instr.crlf`, `Sequence.crlf`, `Program.crlf` — code whose texts have other endings.
* `Instr.UsesLf`, `Sequence.UsesLf`, `Program.UsesLf` — code whose texts have line feeds alone, and
  whose indentations have no line breaks.
* `DraftError.SameKind` — faults of the same kind.

## Main results

* `Builder.push_mapLiteral` — building does not depend on the texts.
* `Draft.usesLf` — the code of a template without carriage returns.
* `Draft.ofText_crlf` — the code of a template with other endings.
-/

namespace Stencil

open Stencil.Text Stencil.Markup

/-! ## Code with other texts -/

namespace Instr

/-- The instruction with the text that it writes, or that it indents with, changed. -/
def mapLiteral (f : String → String) : Instr → Instr
  | text content => text (f content)
  | enter name indent => enter name (f indent)
  | i => i

/-- The instruction with other line endings in the text that it writes. -/
def crlf : Instr → Instr
  | text content => text (crlfText content)
  | i => i

/-- The text of the instruction holds no carriage return, and the indentation no line break. -/
def UsesLf : Instr → Prop
  | text content => '\r' ∉ content.toList
  | enter _ indent => Unbroken indent.toList
  | _ => True

variable {i : Instr} {f : String → String}

@[simp]
lemma included?_mapLiteral (i : Instr) : (i.mapLiteral f).included? = i.included? := by
  cases i <;> rfl

@[simp]
lemma included?_crlf (i : Instr) : i.crlf.included? = i.included? := by
  cases i <;> rfl

/-- The ends of sections hold no text. -/
lemma keepsSections_mapLiteral (f : String → String) : KeepsSections (mapLiteral f) where
  ends := by
    intro i path h
    cases i <;> first | rfl | cases h
  others := by
    intro i h
    cases i <;> first | rfl | cases h

/-- An indentation without line breaks stays. -/
lemma UsesLf.mapLiteral_eq (h : i.UsesLf) : i.mapLiteral crlfText = i.crlf := by
  cases i with
  | enter name indent =>
    have hindent : Unbroken indent.toList := h
    have hsame : crlfText indent = indent := by
      rw [crlfText, hindent.crlf_eq, String.ofList_toList]
    exact congrArg (enter name) hsame
  | text content => rfl
  | interpolate escaped path => rfl
  | openSection inverted path target => rfl
  | closeSection path target => rfl

/-- The targets do not matter for the texts. -/
lemma usesLf_stored_iff : i.stored.UsesLf ↔ i.UsesLf := by
  cases i <;> rfl

end Instr

namespace Sequence

/-- The sequence with other texts. -/
def mapLiteral (f : String → String) (s : Sequence) : Sequence :=
  ⟨s.instrs.map (Instr.mapLiteral f), by simpa using s.size_pos⟩

/-- The sequence with other line endings in the texts that it writes. -/
def crlf (s : Sequence) : Sequence :=
  ⟨s.instrs.map Instr.crlf, by simpa using s.size_pos⟩

/-- No text of the sequence holds a carriage return, and no indentation a line break. -/
def UsesLf (s : Sequence) : Prop := ∀ i ∈ s.instrs, i.UsesLf

/-- The sequence with other line endings includes the same templates. -/
@[simp]
lemma included_crlf (s : Sequence) : s.crlf.included = s.included := by
  simp [included, crlf, List.filterMap_map]

/-- Indentations without line breaks stay. -/
lemma UsesLf.mapLiteral_eq {s : Sequence} (h : s.UsesLf) : s.mapLiteral crlfText = s.crlf := by
  have hinstrs : s.instrs.map (Instr.mapLiteral crlfText) = s.instrs.map Instr.crlf :=
    Array.map_congr_left fun i hi => (h i hi).mapLiteral_eq
  simp only [mapLiteral, crlf, hinstrs]

end Sequence

/-- The program of the template with other line endings. -/
def Program.crlf (p : Program) : Program :=
  ⟨crlfText p.source, p.main.crlf, p.partials.map Sequence.crlf⟩

/-- No text of the program holds a carriage return, and no indentation a line break. -/
def Program.UsesLf (p : Program) : Prop := ∀ s ∈ p.sequences, s.UsesLf

/-! ## Building -/

namespace Builder

variable {f : String → String} {b : Builder}

/-- The builder with other texts. -/
def mapLiteral (f : String → String) (b : Builder) : Builder :=
  { b with instrs := b.instrs.map (Instr.mapLiteral f) }

/-- **Building does not depend on the texts.** -/
theorem push_mapLiteral (b : Builder) (i : Instr) :
    (b.mapLiteral f).push (i.mapLiteral f) = (b.push i).map (mapLiteral f) :=
  (Instr.keepsSections_mapLiteral f).push b i

/-- Completing a sequence does not depend on the texts, if the empty text stays. -/
lemma complete_mapLiteral (hf : f "" = "") (b : Builder) :
    (b.mapLiteral f).complete = b.complete.map (Sequence.mapLiteral f) := by
  have hfinish : ∀ c : Builder,
      (c.mapLiteral f).finish = c.finish.map (Sequence.mapLiteral f) :=
    Instr.KeepsSections.finish
  have hempty : (b.mapLiteral f).isEmpty = b.isEmpty := by
    simp [isEmpty, mapLiteral, Array.isEmpty]
  rw [complete, complete, hempty]
  split
  · have hpush := push_mapLiteral (f := f) b (.text "")
    rw [Instr.mapLiteral, hf] at hpush
    rw [hpush]
    cases b.push (.text "") with
    | error fault => rfl
    | ok c => exact hfinish c
  · exact hfinish b

end Builder

/-! ## Steps -/

/-- A step and its form with other endings, which may stem from another range. -/
structure Step.Crlf (s s' : Step) : Prop where
  instr : s'.instr = s.instr.mapLiteral crlfText

/-- A reference and one to the same template, which may stem from another range. -/
def Reference.SameName (r r' : Reference) : Prop := r'.name = r.name

/-- Faults in templates of the same kind. -/
def DraftError.SameKind (e e' : DraftError) : Prop := e'.fault.cause.kind = e.fault.cause.kind

/-- A draft and the one of the template with other endings. -/
structure Draft.Crlf (d d' : Draft) : Prop where
  references : List.Forall₂ Reference.SameName d.references d'.references
  outcome : SameOutcome DraftError.SameKind (fun s s' => s' = s.mapLiteral crlfText)
    d.outcome d'.outcome

/-- A text is written with either ending, if it is written at all. -/
lemma textStep_crlf (content : List Char) :
    List.Forall₂ Step.Crlf (textStep content) (textStep (crlf content)) := by
  rw [textStep, textStep, isEmpty_crlf]
  split
  · exact .nil
  · refine .cons ⟨?_⟩ .nil
    simp only [Instr.mapLiteral, crlfText, String.toList_ofList]

/-- The instruction of a tag whose indentation has other endings. -/
lemma instrOfTag?_crlf (indent : List Char) (t : Tag) :
    instrOfTag? (crlf indent) t = (instrOfTag? indent t).map (Instr.mapLiteral crlfText) := by
  cases t with
  | inclusion name => simp [instrOfTag?, Instr.mapLiteral, crlfText]
  | interpolation escaped path => rfl
  | opening inverted path => rfl
  | closing path => rfl
  | delimiters pair => rfl
  | comment => rfl

/-- **The steps for parts that correspond** correspond. -/
theorem codeOf_crlf (pending : List Char) {parts parts' : List Part}
    (h : List.Forall₂ Part.Crlf parts parts') :
    List.Forall₂ Step.Crlf (codeOf pending parts) (codeOf (crlf pending) parts') := by
  induction h generalizing pending with
  | nil => exact textStep_crlf pending
  | cons hpart _ ih =>
    cases hpart with
    | text content =>
      rw [codeOf, codeOf, ← crlf_append]
      exact ih (pending ++ content)
    | tag t span span' indent =>
      rw [codeOf, codeOf, instrOfTag?_crlf]
      cases instrOfTag? indent t with
      | none => exact ih pending
      | some instr => exact List.rel_append (textStep_crlf pending) (.cons ⟨rfl⟩ (ih []))

/-- A step that corresponds refers to the same template. -/
lemma Step.Crlf.reference? {s s' : Step} (h : s.Crlf s') :
    Option.Rel Reference.SameName s.reference? s'.reference? := by
  rw [Step.reference?, Step.reference?, h.instr, Instr.included?_mapLiteral]
  cases s.instr.included? with
  | none => exact .none
  | some name => exact .some rfl

/-- **Steps that correspond are added alike.** -/
theorem Builder.addSteps_crlf (b : Builder) {steps steps' : List Step}
    (h : List.Forall₂ Step.Crlf steps steps') :
    List.Forall₂ Step.Crlf (b.addSteps steps).1 ((b.mapLiteral crlfText).addSteps steps').1 ∧
      SameOutcome DraftError.SameKind (fun c c' => c' = c.mapLiteral crlfText) (b.addSteps steps).2
        ((b.mapLiteral crlfText).addSteps steps').2 := by
  induction h generalizing b with
  | nil => exact ⟨.nil, .ok rfl⟩
  | @cons s s' steps steps' hs _ ih =>
    have hpush := b.push_mapLiteral (f := crlfText) s.instr
    rw [← hs.instr] at hpush
    rw [addSteps, addSteps, hpush]
    cases b.push s.instr with
    | error fault => exact ⟨.nil, .error rfl⟩
    | ok c => exact ⟨.cons hs (ih c).1, (ih c).2⟩

/-! ## Drafts -/

/-- A draft of a template with other endings has the same inclusions, and a sequence with other
texts, or a fault of the same kind. -/
lemma Draft.crlf_ofText {cs : List Char} (h : '\r' ∉ cs) :
    (Draft.ofText cs).Crlf (Draft.ofText (crlf cs)) := by
  obtain ⟨hrows, hending⟩ := Reading.ofText_crlf h
  have hparts : List.Forall₂ Part.Crlf ((Reading.ofText cs).rows.flatMap partsOfRow)
      ((Reading.ofText (crlf cs)).rows.flatMap partsOfRow) :=
    List.rel_flatMap hrows fun _ _ hrow => partsOfRow_crlf hrow
  have hempty : Builder.empty.mapLiteral crlfText = Builder.empty := by
    simp [Builder.mapLiteral, Builder.empty]
  obtain ⟨hadded, hresult⟩ := Builder.empty.addSteps_crlf (codeOf_crlf [] hparts)
  rw [hempty, crlf_nil] at hadded hresult
  simp only [Draft.ofText]
  refine ⟨List.rel_filterMap (fun _ _ hs => Step.Crlf.reference? hs) hadded, ?_⟩
  generalize (Builder.empty.addSteps _).2 = x at hresult ⊢
  generalize (Builder.empty.addSteps _).2 = y at hresult ⊢
  generalize (Reading.ofText cs).ending = ending at hending ⊢
  generalize (Reading.ofText (crlf cs)).ending = ending' at hending ⊢
  cases hresult with
  | error hkind => exact .error hkind
  | @ok b b' hb =>
    subst hb
    cases hending with
    | error _ => exact .error rfl
    | @ok spans spans' hdepth =>
      cases spans with
      | nil =>
        obtain rfl : spans' = [] := List.length_eq_zero_iff.1 hdepth
        have hcomplete := b.complete_mapLiteral (f := crlfText) rfl
        simp only [hcomplete]
        cases b.complete with
        | error fault => exact .error rfl
        | ok s => exact .ok rfl
      | cons span spans =>
        obtain ⟨span', others, rfl⟩ := List.exists_cons_of_length_eq_add_one hdepth
        exact .error rfl

/-! ## Code without carriage returns -/

section UsesLf

variable {ts line : List Token}

/-- Only the last characters of a logical line can be line breaks. -/
lemma endsLine_eq_false_of_mem_logicalLines (hline : line ∈ logicalLines ts)
    {front rest : List Token} {t : Token} (h : line = front ++ t :: rest)
    (ht : t.endsLine = false) : ∀ u ∈ front, u.endsLine = false := by
  fun_induction logicalLines ts generalizing line front with
  | case1 => cases hline
  | case2 more ih =>
    rcases List.mem_cons.1 hline with rfl | hline
    · have hmem : t ∈ [Token.char '\r', .char '\n'] := h ▸ by simp
      exfalso
      rcases List.mem_pair.1 hmem with rfl | rfl <;> cases ht
    · exact ih hline h
  | case3 first more hpair hends ih =>
    rcases List.mem_cons.1 hline with rfl | hline
    · cases front with
      | nil => simp
      | cons u front => simp at h
    · exact ih hline h
  | case4 first more hpair hends hnil ih =>
    obtain rfl := List.mem_singleton.1 hline
    cases front with
    | nil => simp
    | cons u front => simp at h
  | case5 first more hpair hends next others hlines ih =>
    rcases List.mem_cons.1 hline with rfl | hline
    · cases front with
      | nil => simp
      | cons u front =>
        obtain ⟨rfl, hnext⟩ := List.cons.inj h
        have hfront := ih (hlines ▸ List.mem_cons_self) hnext
        exact List.forall_mem_cons.2 ⟨by simpa using hends, hfront⟩
    · exact ih (hlines ▸ List.mem_cons_of_mem _ hline) h

/-- The indentation of a tag that stands alone holds no line break. -/
lemma unbroken_leading (hline : line ∈ logicalLines ts) {tag : Tag}
    (hsole : soleTag? (line.map Token.mark) = some tag) :
    Unbroken (leading (line.map Token.mark)) := by
  have hmark : .inr tag ∈ line.map Token.mark := by
    unfold soleTag? at hsole
    split at hsole
    · rename_i found htags
      split at hsole
      · obtain rfl : found = tag := Option.some.inj hsole
        have hmem : found ∈ (line.map Token.mark).filterMap Sum.getRight? :=
          htags ▸ List.mem_cons_self
        obtain ⟨mark, hmark, hright⟩ := List.mem_filterMap.1 hmem
        rwa [Sum.getRight?_eq_some_iff.1 hright] at hmark
      · cases hsole
    · cases hsole
  -- the characters in front of the first tag are tokens of the line in front of a tag
  obtain ⟨mark, others, hdrop⟩ : ∃ mark others,
      (line.map Token.mark).dropWhile Sum.isLeft = mark :: others := by
    refine List.exists_cons_of_ne_nil fun hnil => ?_
    exact absurd (List.dropWhile_eq_nil_iff.1 hnil _ hmark) (by simp)
  have hnot : mark.isLeft = false := by
    have hhead := List.head?_dropWhile_not Sum.isLeft (line.map Token.mark)
    rw [hdrop] at hhead
    simpa using hhead
  have hsplit := List.takeWhile_append_dropWhile (p := Sum.isLeft) (l := line.map Token.mark)
  rw [hdrop] at hsplit
  obtain ⟨front, back, hlineEq, hfront, hback⟩ := List.map_eq_append_iff.1 hsplit.symm
  obtain ⟨t, rest, rfl, rfl, -⟩ := List.map_eq_cons_iff.1 hback
  have ht : t.endsLine = false := by
    cases t with
    | char c => cases hnot
    | tag source u => rfl
  intro c hc
  rw [leading, ← hfront] at hc
  obtain ⟨m, hm, hmc⟩ := List.mem_filterMap.1 hc
  obtain ⟨u, hu, rfl⟩ := List.mem_map.1 hm
  cases u with
  | char d =>
    obtain rfl : d = c := Option.some.inj hmc
    exact endsLine_eq_false_of_mem_logicalLines hline hlineEq ht _ hu
  | tag source v => cases hmc

/-- The instruction of a tag has the given indentation, if it has any. -/
lemma usesLf_of_instrOfTag? {indent : List Char} (hindent : Unbroken indent) {tag : Tag}
    {i : Instr} (h : instrOfTag? indent tag = some i) : i.UsesLf := by
  cases tag with
  | inclusion name =>
    obtain rfl := Option.some.inj h
    rwa [Instr.UsesLf, String.toList_ofList]
  | interpolation escaped path => exact Option.some.inj h ▸ trivial
  | opening inverted path => exact Option.some.inj h ▸ trivial
  | closing path => exact Option.some.inj h ▸ trivial
  | delimiters pair => cases h
  | comment => cases h

/-- What a logical line without carriage returns contributes holds none either. -/
lemma usesLf_of_mem_contribution (hline : line ∈ logicalLines ts)
    (hts : ∀ c, .char c ∈ ts → c ≠ '\r') :
    ∀ x ∈ contribution (line.map Token.mark), x.elim (· ≠ '\r') Instr.UsesLf := by
  intro x hx
  cases x with
  | inr i =>
    obtain ⟨indent, tag, htag, rfl | ⟨hsole, rfl⟩⟩ := exists_tag_of_mem_contribution hx
    · exact usesLf_of_instrOfTag? Unbroken.nil htag
    · exact usesLf_of_instrOfTag? (unbroken_leading hline hsole) htag
  | inl c =>
    unfold contribution at hx
    split at hx
    · simp [tagCode] at hx
    · obtain ⟨mark, hmark, hx⟩ := List.mem_flatMap.1 hx
      obtain ⟨t, ht, rfl⟩ := List.mem_map.1 hmark
      cases t with
      | tag source t => simp [Token.mark, markCode, tagCode] at hx
      | char d =>
        obtain rfl : c = d := by simpa [Token.mark, markCode] using hx
        refine hts c ?_
        rw [← logicalLines_flatten ts]
        exact List.mem_flatten.2 ⟨line, hline, ht⟩

/-- Adjacent characters without carriage returns make texts without any. -/
lemma usesLf_of_mem_merge {pending : List Char} {code : List (Char ⊕ Instr)}
    (hpending : '\r' ∉ pending) (hcode : ∀ x ∈ code, x.elim (· ≠ '\r') Instr.UsesLf) :
    ∀ i ∈ merge pending code, i.UsesLf := by
  have htext : ∀ content : List Char, '\r' ∉ content → ∀ i ∈ textCode content, i.UsesLf := by
    intro content hcontent i hi
    unfold textCode at hi
    split at hi
    · cases hi
    · obtain rfl := List.mem_singleton.1 hi
      rwa [Instr.UsesLf, String.toList_ofList]
  induction code generalizing pending with
  | nil => exact htext pending hpending
  | cons x code ih =>
    obtain ⟨hx, hrest⟩ := List.forall_mem_cons.1 hcode
    cases x with
    | inl c =>
      refine ih ?_ hrest
      have hc : c ≠ '\r' := hx
      simpa [hpending] using hc.symm
    | inr j =>
      rw [merge, List.forall_mem_append, List.forall_mem_cons]
      exact ⟨htext pending hpending, hx, ih (by simp) hrest⟩

/-- **The translation of tokens without carriage returns** has none, and its indentations have no
line breaks. -/
theorem usesLf_of_mem_translation (hts : ∀ c, .char c ∈ ts → c ≠ '\r') :
    ∀ i ∈ translation ts, i.UsesLf := by
  intro i hi
  unfold translation at hi
  split at hi
  · obtain rfl := List.mem_singleton.1 hi
    exact List.not_mem_nil
  · refine usesLf_of_mem_merge List.not_mem_nil ?_ i hi
    intro x hx
    obtain ⟨line, hline, hx⟩ := List.mem_flatMap.1 hx
    exact usesLf_of_mem_contribution hline hts x hx

end UsesLf

namespace Draft

variable {cs : List Char} {s : Sequence}

/-- **The code of a template without carriage returns** has none in its texts, and no line break in
its indentations. -/
theorem usesLf (h : '\r' ∉ cs) (hs : (Draft.ofText cs).outcome = .ok s) : s.UsesLf := by
  obtain ⟨ts, hts, -, hstored⟩ := outcome_eq_translation hs
  have hchars : ∀ c, .char c ∈ ts → c ≠ '\r' := by
    rintro _ hc rfl
    refine h ?_
    rw [← tokens_source hts]
    exact List.mem_flatMap.2 ⟨_, hc, List.mem_cons_self⟩
  intro i hi
  rw [← Instr.usesLf_stored_iff]
  refine usesLf_of_mem_translation hchars _ ?_
  rw [← hstored]
  exact List.mem_map_of_mem (Array.mem_toList_iff.2 hi)

/-- **The code of a template with other endings.** It includes the same templates, and its sequence
is the same up to the endings in its texts. A template that is malformed is so with either ending,
and the fault is of the same kind. -/
theorem ofText_crlf (h : '\r' ∉ cs) :
    List.Forall₂ Reference.SameName (Draft.ofText cs).references
        (Draft.ofText (crlf cs)).references ∧
      SameOutcome DraftError.SameKind (fun s s' => s' = s.crlf) (Draft.ofText cs).outcome
        (Draft.ofText (crlf cs)).outcome := by
  obtain ⟨hreferences, houtcome⟩ := crlf_ofText h
  refine ⟨hreferences, ?_⟩
  have hlf := fun s => usesLf (s := s) h
  generalize (Draft.ofText cs).outcome = x at houtcome hlf ⊢
  generalize (Draft.ofText (crlf cs)).outcome = y at houtcome ⊢
  cases houtcome with
  | error hkind => exact .error hkind
  | ok hs => exact .ok (hs.trans (hlf _ rfl).mapLiteral_eq)

end Draft

end Stencil
