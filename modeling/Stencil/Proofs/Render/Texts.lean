import Mathlib.Data.List.Chain
import Mathlib.Tactic.Lemma
import Stencil.Proofs.Render.Advances
import Stencil.Proofs.Render.Termination
import Stencil.Proofs.Text.Margins

/-!
# Texts in a row

The lines of a template are indented in two places. The breaks within a text are seen to when the
text is yielded, and the start of the text when it is written, which depends on what was written
before. A template may be made of texts in any way: however it is cut into them, both places
together put the indentation in front of every line once, as long as no line ending is cut in two.

## Main definitions

* `Cursor.Yields` — a walk yields texts of templates with one indentation, one after the other.

## Main results

* `Cursor.Yields.exists_of_instrs` — texts that stand in a row are yielded in a row.
* `Cursor.Yields.passes` — what is written for texts that are yielded in a row.
-/

namespace Stencil

open Stencil.Text

namespace Cursor

/-- **A walk yields texts, one after the other**, of templates that are indented in the same way. It
goes from one cursor to the other by calls for the next instruction alone. A text is given as it
stands in its template. -/
inductive Yields (p : Program) (indent : String) : Cursor → List String → Cursor → Prop where
  /-- No text is yielded. -/
  | nil (c : Cursor) : Yields p indent c [] c
  /-- A text is yielded, and the walk goes on. -/
  | cons {c d e : Cursor} {i : Instr} {content : String} {texts : List String}
      (hnext : c.next p = (d, .ok i)) (hreached : d.top.reached? = some (.text content))
      (hindent : d.indent = indent) (hmore : Yields p indent d texts e) :
      Yields p indent c (content :: texts) e

variable {p : Program} {c d : Cursor} {texts : List String}

/-- **Texts that stand in a row are yielded in a row**, and the walk stays in their template. -/
theorem Yields.exists_of_instrs
    (h : texts.map Instr.text <+: c.top.sequence.instrs.toList.drop c.nextIndex) :
    ∃ d, c.Yields p c.indent texts d ∧ d.top.sequence = c.top.sequence ∧ d.outer = c.outer ∧
      d.nextIndex = c.nextIndex + texts.length := by
  induction texts generalizing c with
  | nil => exact ⟨c, .nil c, rfl, rfl, rfl⟩
  | cons content texts ih =>
    obtain ⟨rest, hrest⟩ := h
    rw [List.map_cons, List.cons_append] at hrest
    have hinstr : c.station.instr? = some (.text content) := by
      have hhead := congrArg List.head? hrest
      rw [List.head?_cons, List.head?_drop, Array.getElem?_toList] at hhead
      exact hhead.symm
    have hnext := next_of_turn_some (turn_of_not_included (p := p) hinstr rfl)
    have hbehind : texts.map Instr.text <+:
        c.behind.top.sequence.instrs.toList.drop c.behind.nextIndex := by
      have htail := congrArg List.tail hrest
      rw [List.tail_cons, List.tail_drop] at htail
      exact ⟨rest, htail⟩
    obtain ⟨d, hyields, hsequence, houter, hindex⟩ := ih hbehind
    refine ⟨d, .cons hnext hinstr rfl hyields, hsequence, houter, ?_⟩
    rw [hindex, List.length_cons, Nat.add_comm texts.length, ← Nat.add_assoc]
    rfl

/-! ## What is written -/

/-- One iteration of the rendering loop that comes to a text. -/
lemma iterate_text {i : Instr} {content : String} (hnext : c.next p = (d, .ok i))
    (hreached : d.top.reached? = some (.text content)) (hcontent : content ≠ "") (scopes : Scopes)
    (formatter : Formatter) (lineStart : Bool) (before : String) :
    Rendering.iterate p formatter Outlet.text ⟨⟨c, scopes⟩, lineStart, before⟩ =
      .inr ⟨⟨d, scopes⟩, endsLine content.toList,
        before ++ ((if lineStart then d.indent else "") ++
          String.ofList (indentLines d.indent.toList content.toList))⟩ := by
  obtain ⟨x, hx, rfl, -⟩ := reached_of_next hnext
  obtain rfl : x = .text content := Option.some.inj (hx.symm.trans hreached)
  have hstep : Machine.step p ⟨c, scopes⟩ =
      .ok (.text d.indent (indented d.indent content), ⟨d, scopes⟩) := by
    simp only [Machine.step, hnext]
    rfl
  have hshown : indented d.indent content ≠ "" := by
    rw [indented_eq, Ne, ← String.toList_eq_nil_iff, String.toList_ofList, indentLines_eq_nil_iff,
      String.toList_eq_nil_iff]
    exact hcontent
  have hstarts : startsLine lineStart (indented d.indent content) = endsLine content.toList := by
    rw [startsLine, if_neg (by simpa using hshown), indented_eq, String.toList_ofList,
      endsLine_indentLines]
  rw [← indented_eq]
  simp only [Rendering.iterate, hasNext_of_next hnext, if_true, hstep, Event.content,
    Outlet.putAll_text, join_writes, hshown, hstarts, ne_eq, not_false_eq_true, and_true]

/-- The first one of some texts in a row is indented for itself, and so are the others together.
Together they end a line if the others do. -/
lemma indentLines_join {content next : String} (indent : String) (more : List String)
    (hcontent : content ≠ "") (hnext : next ≠ "")
    (hpair : content.toList.getLast? = some '\r' → next.toList.head? ≠ some '\n') :
    String.ofList (indentLines indent.toList (String.join (content :: next :: more)).toList) =
        String.ofList (indentLines indent.toList content.toList) ++
          ((if endsLine content.toList then indent else "") ++
            String.ofList (indentLines indent.toList (String.join (next :: more)).toList)) ∧
      endsLine (String.join (content :: next :: more)).toList =
        endsLine (String.join (next :: more)).toList := by
  have hcontent' : content.toList ≠ [] := by simpa using hcontent
  have hnext' : next.toList ≠ [] := by simpa using hnext
  have hjoin : (String.join (next :: more)).toList ≠ [] := by
    rw [String.join_cons, String.toList_append]
    exact List.append_ne_nil_of_left_ne_nil hnext' _
  have hapart : content.toList.getLast? = some '\r' →
      (String.join (next :: more)).toList.head? ≠ some '\n' := by
    rw [String.join_cons, String.toList_append, List.head?_append_of_ne_nil _ hnext']
    exact hpair
  rw [String.join_cons, String.toList_append, indentLines_append hcontent' hjoin hapart,
    endsLine_append _ hjoin]
  refine ⟨?_, rfl⟩
  cases endsLine content.toList <;> simp

/-- **Texts that are yielded in a row are indented as if they were one text.** Walk and output
together write them with the indentation in front of every line but the first, and in front of the
first one exactly if a line starts there. How they are cut plays no part, as long as no text is
empty and no line ending is cut in two. To take a text as it stands if no line break is followed by
more text changes nothing: copying any text from line break to line break, by byte offsets, comes to
an end and writes the same, and the offsets tell rightly whether more text follows.

**Proof sketch.** Induction on the texts. Behind a text that ends with a line break, a line starts,
so the next one is written with the indentation in front that this break would have got within a
longer text. A line break is one of both texts exactly if it is one of either. -/
theorem Yields.passes {indent : String} (h : c.Yields p indent texts d) (hne : texts ≠ [])
    (hfull : "" ∉ texts)
    (hpairs : texts.IsChain fun s t =>
      s.toList.getLast? = some '\r' → t.toList.head? ≠ some '\n') :
    (∀ (scopes : Scopes) (formatter : Formatter) (lineStart : Bool) (before : String),
      Passes (Rendering.iterate p formatter Outlet.text) ⟨⟨c, scopes⟩, lineStart, before⟩
        ⟨⟨d, scopes⟩, endsLine (String.join texts).toList,
          before ++ ((if lineStart then indent else "") ++
            String.ofList (indent.toList.intercalate (lines (String.join texts).toList)))⟩) ∧
    (∀ more content : String,
      indented more content = String.ofList (more.toList.intercalate (lines content.toList))) ∧
    ∀ more content : String,
      EndsIn (Indenter.step more.toList) (.start content.toList)
        ((lines content.toList).countP endsLine + 1) (.ok (indented more content).toList) ∧
      hasInnerBreakAt content.toList = .ok (hasInnerBreak content.toList) := by
  refine ⟨fun scopes formatter lineStart before => ?_, indented_eq,
    fun more content => ⟨indented_endsIn more content, hasInnerBreakAt_eq content.toList⟩⟩
  rw [← indentLines]
  induction h generalizing lineStart before with
  | nil c => exact absurd rfl hne
  | @cons c d e i content texts hnext hreached hindent hmore ih =>
    obtain ⟨hcontent, hfull'⟩ := List.ne_and_not_mem_of_not_mem_cons hfull
    subst hindent
    have hstep := Passes.of_step
      (iterate_text hnext hreached hcontent.symm scopes formatter lineStart before)
    cases hmore with
    | nil => rwa [String.join_cons, String.join_nil, String.append_empty]
    | @cons _ _ _ _ next more hnext' hreached' hindent' hmore' =>
      obtain ⟨hpair, hpairs'⟩ := List.isChain_cons_cons.1 hpairs
      have hfilled : next ≠ "" := (List.ne_and_not_mem_of_not_mem_cons hfull').1.symm
      obtain ⟨hjoin, hends⟩ := indentLines_join d.indent more hcontent.symm hfilled hpair
      -- the indentation behind the first text is written by the iteration for the second one
      have hrest := ih (List.cons_ne_nil next more) hfull' hpairs' (endsLine content.toList)
        (before ++ ((if lineStart then d.indent else "") ++
          String.ofList (indentLines d.indent.toList content.toList)))
      rw [hjoin, hends]
      rw [String.append_assoc, String.append_assoc] at hrest
      exact hstep.trans hrest

/-- An indented template that is cut behind two line breaks and in front of one, which is a lone
carriage return. -/
theorem passes_on_cut :
    ∃ (p : Program) (c d : Cursor), p.IsSequenced ∧
      c.Yields p "\t" ["a\r\n\n", "b", "\rc\r", "d\n"] d ∧ c.depth = 1 ∧
      Passes (Rendering.iterate p Formatter.escaped Outlet.text) ⟨⟨c, .ofRoot .none⟩, true, ""⟩
        ⟨⟨d, .ofRoot .none⟩, true, "\ta\r\n\t\n\tb\r\tc\r\td\n"⟩ := by
  let texts := ["a\r\n\n", "b", "\rc\r", "d\n"]
  let main : Sequence := ⟨#[.enter "p" "\t"], by decide⟩
  let item : Sequence := ⟨(texts.map Instr.text).toArray, by decide⟩
  let p : Program := ⟨"", main, ⟨[("p", item)], List.pairwise_singleton _ _⟩⟩
  have hp : p.IsSequenced := Program.isSequenced_of_ofList
    (List.forall_mem_cons.2 ⟨rfl, List.forall_mem_singleton.2 rfl⟩)
  let c := ((Cursor.start p 1).turn p).1
  have hrow : texts.map Instr.text <+: c.top.sequence.instrs.toList.drop c.nextIndex := ⟨[], rfl⟩
  obtain ⟨d, hyields, -⟩ := Yields.exists_of_instrs (p := p) hrow
  obtain ⟨hwrites, -⟩ := hyields.passes (by decide) (by decide) (by decide)
  have hrun := hwrites (.ofRoot .none) Formatter.escaped true ""
  have hends : endsLine (String.join texts).toList = true := by decide +kernel
  have htext : "" ++ ((if true then c.indent else "") ++ String.ofList
      (c.indent.toList.intercalate (lines (String.join texts).toList))) =
      "\ta\r\n\t\n\tb\r\tc\r\td\n" := by decide +kernel
  rw [hends, htext] at hrun
  exact ⟨p, c, d, hp, hyields, rfl, hrun⟩

end Cursor

end Stencil
