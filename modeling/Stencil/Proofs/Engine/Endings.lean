import Mathlib.Tactic.Lemma
import Stencil.Engine.Session
import Stencil.Proofs.Engine.Links
import Stencil.Proofs.Render.Endings

/-!
# Compiling with other line endings

The endings of lines do not change what a template means. If all templates are written with `\r\n`
in place of `\n`, then the same of them can be compiled, those that cannot be compiled are malformed
in the same way, and the programs are the same up to the endings in their texts. So is what they
write.

## Main definitions

* `Loader.crlf`, `Engine.crlf` — the templates with other endings.
* `Engine.UsesLf` — no template holds a carriage return.
* `Descent.Crlf` — two ways of compiling included templates that correspond.

## Main results

* `compileAt_crlf` — compiling templates with other endings.
* `Engine.compile_crlf` — what a template is compiled to, and what the program writes.
* `Engine.add_crlf` — adding templates with other endings.
-/

namespace Stencil

open Stencil.Text Stencil.Markup

/-! ## Engines -/

/-- The loader that gives the sources with other line endings. -/
def Loader.crlf (l : Loader) : Loader := ⟨l.answers.map fun answer => answer.map crlfText⟩

namespace Engine

/-- The engine with other line endings in all templates. -/
def crlf (e : Engine) : Engine :=
  { e with templates := e.templates.map Program.crlf, loader := e.loader.map Loader.crlf }

/-- No source of a template that could be included holds a carriage return. -/
def UsesLf (e : Engine) : Prop :=
  ∀ name source, e.sourceOf name = .ok source → '\r' ∉ source.toList

/-- An engine that has nothing but a loader whose sources hold no carriage return. -/
lemma usesLf_of_answers {l : Loader}
    (h : ∀ a ∈ l.answers.entries, ∀ source ∈ a.2.toOption, '\r' ∉ source.toList) :
    ({ loader := some l } : Engine).UsesLf := by
  intro name text htext
  have hload : l.load name = .ok text := by
    simp only [sourceOf, Table.find?_empty] at htext
    split at htext
    · rename_i answer hanswer
      rw [hanswer, Except.ok.inj htext]
    · split at htext <;> cases htext
  rw [Loader.load] at hload
  cases hfind : l.answers.find? name with
  | none => simp [hfind] at hload
  | some answer =>
    rw [hfind, Option.getD_some] at hload
    exact h _ (Entries.mem_of_find? hfind) text (by simp [hload, Except.toOption])

/-- The names of the templates stay. -/
@[simp]
lemma known_crlf (e : Engine) : e.crlf.known = e.known := by
  obtain ⟨templates, loader, formatter, limit⟩ := e
  cases loader <;> simp [crlf, known, Loader.crlf]

/-- The loader is asked for the same templates. -/
@[simp]
lemma asksFor_crlf (e : Engine) (name : String) : e.crlf.asksFor name = e.asksFor name := by
  simp [crlf, asksFor]

/-- **The source of a template with other endings.** -/
theorem sourceOf_crlf (e : Engine) (name : String) :
    e.crlf.sourceOf name = (e.sourceOf name).map crlfText := by
  obtain ⟨templates, loader, formatter, limit⟩ := e
  simp only [crlf, sourceOf, Table.find?_map]
  cases templates.find? name with
  | some p => rfl
  | none =>
    cases loader with
    | none => rfl
    | some l =>
      have hload : l.crlf.load name = (l.load name).map crlfText := by
        rw [Loader.load, Loader.load, Loader.crlf, Table.find?_map]
        cases l.answers.find? name <;> rfl
      simp only [Option.map_none, Option.map_some, hload]
      cases l.load name with
      | ok source => rfl
      | error fault =>
        simp only [Except.map]
        split <;> rfl

end Engine

/-! ## Compiling -/

/-- Faults of the same kind. -/
def Fault.SameKind (f f' : Fault) : Prop := f'.kind = f.kind

/-- What compiling has brought about, with other endings. -/
def Linkage.crlf (st : Linkage) : Linkage := { st with compiled := st.compiled.map Sequence.crlf }

/-- Looking for a source with other endings. -/
lemma Linkage.noting_crlf (st : Linkage) (e : Engine) (name : String) :
    st.crlf.noting e.crlf name = (st.noting e name).crlf := by
  rw [noting, noting, Engine.asksFor_crlf]
  split <;> rfl

/-- Two ways of compiling included templates give corresponding results for a source and the one
with other endings. -/
def Descent.Crlf (descend descend' : Descent) : Prop :=
  ∀ chain source st, '\r' ∉ source.toList →
    (descend' chain (crlfText source) st.crlf).1 = (descend chain source st).1.crlf ∧
      SameOutcome Fault.SameKind (fun s s' => s' = s.crlf) (descend chain source st).2
        (descend' chain (crlfText source) st.crlf).2

section Compiling

variable {e : Engine} {descend descend' : Descent}

/-- **References are linked alike with either ending.** -/
theorem linkAll_crlf (he : e.UsesLf) (h : Descent.Crlf descend descend') (chain : List String)
    (source : String) {references references' : List Reference}
    (hreferences : List.Forall₂ Reference.SameName references references') (st : Linkage) :
    (linkAll e.crlf descend' chain (crlfText source) references' st.crlf).1 =
        (linkAll e descend chain source references st).1.crlf ∧
      SameOutcome Fault.SameKind (fun _ _ => True)
        (linkAll e descend chain source references st).2
        (linkAll e.crlf descend' chain (crlfText source) references' st.crlf).2 := by
  induction hreferences generalizing st with
  | nil => exact ⟨rfl, .ok trivial⟩
  | @cons r r' rest rest' hr _ ih =>
    have hname : r'.name = r.name := hr
    have hcontains : st.crlf.compiled.contains r.name = st.compiled.contains r.name :=
      Table.contains_map Sequence.crlf st.compiled r.name
    rw [linkAll, linkAll, hname, hcontains, Engine.sourceOf_crlf, Linkage.noting_crlf]
    split
    · exact ih st
    · cases hsource : e.sourceOf r.name with
      | error cause => exact ⟨rfl, .error rfl⟩
      | ok text =>
        obtain ⟨hst, hinner⟩ := h (r.name :: chain) text (st.noting e r.name) (he _ _ hsource)
        simp only [Except.map]
        generalize descend (r.name :: chain) text (st.noting e r.name) = result at hst hinner ⊢
        generalize descend' (r.name :: chain) (crlfText text) (st.noting e r.name).crlf = result'
          at hst hinner ⊢
        obtain ⟨st₁, x⟩ := result
        obtain ⟨st₁', x'⟩ := result'
        obtain rfl : st₁' = st₁.crlf := hst
        cases hinner with
        | error hkind => exact ⟨rfl, .error hkind⟩
        | @ok s s' hs =>
          obtain rfl : s' = s.crlf := hs
          have hset : ({ st₁.crlf with
              compiled := st₁.crlf.compiled.insert r.name s.crlf } : Linkage) =
              ({ st₁ with compiled := st₁.compiled.insert r.name s } : Linkage).crlf := by
            simp only [Linkage.crlf, Table.map_insert]
          have hrest := ih { st₁ with compiled := st₁.compiled.insert r.name s }
          rw [← hset] at hrest
          exact hrest

/-- A template is compiled alike with either ending, if what it includes is. -/
lemma compileWith_crlf (he : e.UsesLf) (h : Descent.Crlf descend descend') :
    Descent.Crlf (compileWith e descend) (compileWith e.crlf descend') := by
  intro chain source st hsource
  obtain ⟨hreferences, houtcome⟩ := Draft.ofText_crlf hsource
  obtain ⟨hst, hlinked⟩ := linkAll_crlf he h chain source hreferences st
  simp only [compileWith, toList_crlfText]
  generalize linkAll e descend chain source _ st = result at hst hlinked ⊢
  generalize linkAll e.crlf descend' chain (crlfText source) _ st.crlf = result' at hst hlinked ⊢
  obtain ⟨st₁, x⟩ := result
  obtain ⟨st₁', x'⟩ := result'
  obtain rfl : st₁' = st₁.crlf := hst
  cases hlinked with
  | error hkind => exact ⟨rfl, .error hkind⟩
  | ok _ =>
    generalize (Draft.ofText source.toList).outcome = y at houtcome ⊢
    generalize (Draft.ofText (crlf source.toList)).outcome = y' at houtcome ⊢
    cases houtcome with
    | error hkind => exact ⟨rfl, .error hkind⟩
    | ok hs => exact ⟨rfl, .ok hs⟩

/-- **Templates are compiled alike with either ending**, with any number of levels. -/
theorem compileAt_crlf (he : e.UsesLf) (levels : Nat) :
    Descent.Crlf (compileAt e levels) (compileAt e.crlf levels) := by
  induction levels with
  | zero =>
    refine compileWith_crlf he ?_
    intro chain source st _
    exact ⟨rfl, .error rfl⟩
  | succ levels ih => exact compileWith_crlf he ih

end Compiling

/-! ## Programs -/

/-- A program is settled under its name with either ending. -/
lemma Program.closing_crlf (own : Option String) (p : Program) :
    p.crlf.closing own = (p.closing own).crlf := by
  cases own with
  | none => rfl
  | some name =>
    have hsequences : p.crlf.sequences = p.sequences.map Sequence.crlf := by
      simp [sequences, crlf, Table.map]
    have hany : (p.crlf.sequences.any fun s => s.included.contains name) =
        p.sequences.any fun s => s.included.contains name := by
      rw [hsequences, List.any_map]
      simp only [Function.comp_def, Sequence.included_crlf]
    simp only [closing, hany]
    split
    · simp only [crlf, Table.map_insert]
    · rfl

namespace Engine

variable {e : Engine} {own : Option String} {source : String} {p : Program}

/-- Compiling a template with other endings: the loader is asked for the same templates, and
either there is a program with other endings or a fault of the same kind. -/
lemma compilation_crlf (he : e.UsesLf) (hsource : '\r' ∉ source.toList) (own : Option String) :
    (e.crlf.compile own (crlfText source)).asked = (e.compile own source).asked ∧
      SameOutcome Fault.SameKind (fun p p' => p' = p.crlf) (e.compile own source).outcome
        (e.crlf.compile own (crlfText source)).outcome := by
  obtain ⟨hst, hmain⟩ := compileAt_crlf he e.known.length own.toList source {} hsource
  have hempty : ({} : Linkage).crlf = {} := rfl
  rw [hempty] at hst hmain
  simp only [compile, known_crlf]
  generalize compileAt e e.known.length own.toList source {} = result at hst hmain ⊢
  generalize compileAt e.crlf e.known.length own.toList (crlfText source) {} = result'
    at hst hmain ⊢
  obtain ⟨st, x⟩ := result
  obtain ⟨st', x'⟩ := result'
  obtain rfl : st' = st.crlf := hst
  cases hmain with
  | error hkind => exact ⟨rfl, .error hkind⟩
  | @ok s s' hs =>
    obtain rfl : s' = s.crlf := hs
    refine ⟨rfl, .ok ?_⟩
    exact Program.closing_crlf own ⟨source, s, st.compiled⟩

/-- A program that is compiled from templates without carriage returns has none in its texts, and
no line break in its indentations. -/
lemma compile_usesLf (he : e.UsesLf) (hsource : '\r' ∉ source.toList)
    (h : (e.compile own source).outcome = .ok p) : p.UsesLf := by
  intro s hs
  obtain ⟨text, rfl | ⟨name, htext⟩, hdraft⟩ := exists_draft h hs
  · exact Draft.usesLf hsource hdraft
  · exact Draft.usesLf (he name text htext) hdraft

/-- A program that is compiled from a source has this source. -/
lemma source_of_compile (h : (e.compile own source).outcome = .ok p) : p.source = source := by
  obtain ⟨main, compiled, -, -, rfl⟩ := compile_eq_ok h
  cases own with
  | none => rfl
  | some name =>
    simp only [Program.closing]
    split <;> rfl

/-- **Adding templates with other endings** gives the engine with other endings in all of its
templates, so an engine to which all templates are added with other endings is of this form. No
carriage return comes in. -/
theorem add_crlf {name : String} {e' : Engine} (he : e.UsesLf) (hsource : '\r' ∉ source.toList)
    (h : (e.add name source).2 = .ok e') :
    (e.crlf.add name (crlfText source)).2 = .ok e'.crlf ∧ e'.UsesLf := by
  obtain ⟨-, hsame⟩ := compilation_crlf he hsource (some name)
  cases hp : (e.compile (some name) source).outcome with
  | error fault =>
    simp only [add, hp] at h
    cases h
  | ok p =>
    simp only [add, hp] at h
    obtain rfl := Except.ok.inj h
    constructor
    · rw [hp] at hsame
      simp only [add]
      generalize (e.crlf.compile (some name) (crlfText source)).outcome = y at hsame ⊢
      cases hsame with
      | ok hs =>
        rw [hs]
        simp only [Except.map, crlf, Table.map_insert]
    · intro other text htext
      by_cases hother : name = other
      · simp only [sourceOf, Table.find?_insert, if_pos hother] at htext
        obtain rfl : p.source = text := Except.ok.inj htext
        rwa [source_of_compile hp]
      · refine he other text ?_
        simpa only [sourceOf, Table.find?_insert, if_neg hother] using htext

/-- **Line endings do not change what a template means.** Let neither a template nor any that it
could include hold a carriage return, and let all of them be written with `\r\n` in place of `\n`.
The loader is asked for the same templates. A template that cannot be compiled fails in the same
way, and one that can be compiled gives the same sequences up to the endings in the texts. If no
line feed is written for a value, then every rendering of the two programs writes the same up to the
endings, at any greatest depth of inclusion, and ends in the same way.

**Proof sketch.** Reading takes both endings as one: lines are cut at the same places, the same tags
stand alone, and only comments run over the end of a line. No indentation holds a line break, so
nothing but texts is changed. The programs are run alike, since line breaks that are followed by
more text, and texts that end a line, are told by either ending. -/
theorem compile_crlf (he : e.UsesLf) (hsource : '\r' ∉ source.toList) (own : Option String) :
    (e.crlf.compile own (crlfText source)).asked = (e.compile own source).asked ∧
      (∀ fault, (e.compile own source).outcome = .error fault →
        ∃ fault', (e.crlf.compile own (crlfText source)).outcome = .error fault' ∧
          fault'.kind = fault.kind) ∧
      ∀ p, (e.compile own source).outcome = .ok p →
        (e.crlf.compile own (crlfText source)).outcome = .ok p.crlf ∧
          ∀ (renderer : Engine) (limit : Option Nat) (root : Value),
            (∀ event ∈ (p.run (limit.getD renderer.limit) root).formatted renderer.formatter,
              event.formatsInLine renderer.formatter = true) →
            (renderer.render p.crlf limit root).pieces =
                (renderer.render p limit root).pieces.map crlfText ∧
              (renderer.render p.crlf limit root).fault = (renderer.render p limit root).fault ∧
              renderer.renderText p.crlf limit (.ok root) =
                (renderer.renderText p limit (.ok root)).map crlfText := by
  obtain ⟨hasked, hsame⟩ := compilation_crlf he hsource own
  refine ⟨hasked, ?_, ?_⟩
  · intro fault hfault
    rw [hfault] at hsame
    generalize (e.crlf.compile own (crlfText source)).outcome = y at hsame
    cases hsame with
    | error hkind => exact ⟨_, rfl, hkind⟩
  · intro p hp
    have hcrlf : (e.crlf.compile own (crlfText source)).outcome = .ok p.crlf := by
      rw [hp] at hsame
      generalize (e.crlf.compile own (crlfText source)).outcome = y at hsame
      cases hsame with
      | ok hs => rw [hs]
    refine ⟨hcrlf, fun renderer limit root hvalues => ?_⟩
    exact renderer.render_crlf (compile_usesLf he hsource hp) (compile_isSequenced hp)
      (compile_isSequenced hcrlf) limit root hvalues

end Engine

/-- An included template that joins two lines by a comment and includes another one, with further
indentation, in which a text of two lines and a section stand. -/
theorem compile_crlf_on_nested :
    ∃ (e : Engine) (source : String) (p : Program) (root : Value),
      source = "1\n\t\x7b\x7b>outer\x7d\x7d\n2" ∧
      (e.compile none source).outcome = .ok p ∧
      crlfText source = "1\r\n\t\x7b\x7b>outer\x7d\x7d\r\n2" ∧
      (e.crlf.compile none (crlfText source)).outcome = .ok p.crlf ∧
      Engine.empty.renderText p none (.ok root) = .ok "1\n\ta\n\t  x\n\t  z\n\t  y&lt;\n2" ∧
      Engine.empty.renderText p.crlf none (.ok root) =
        .ok "1\r\n\ta\r\n\t  x\r\n\t  z\r\n\t  y&lt;\r\n2" := by
  let l : Loader :=
    ⟨.ofList [("inner", .ok "x\nz\n\x7b\x7b#s\x7d\x7d\ny\x7b\x7bv\x7d\x7d\n\x7b\x7b/s\x7d\x7d\n"),
      ("outer", .ok "a\x7b\x7b! b\nc\x7d\x7d\n  \x7b\x7b>inner\x7d\x7d\n")]⟩
  let e : Engine := { loader := some l }
  let source := "1\n\t\x7b\x7b>outer\x7d\x7d\n2"
  let root : Value := .map [("s", .bool true), ("v", .string "<")]
  let inner : Sequence :=
    ⟨#[.text "x\nz\n", .openSection false ⟨["s"], by decide⟩ 5, .text "y",
      .interpolate true ⟨["v"], by decide⟩, .text "\n", .closeSection ⟨["s"], by decide⟩ 1],
      by decide⟩
  let outer : Sequence := ⟨#[.text "a\n", .enter "inner" "  "], by decide⟩
  let main : Sequence := ⟨#[.text "1\n", .enter "outer" "\t", .text "2"], by decide⟩
  let p : Program := ⟨source, main, .ofList [("inner", inner), ("outer", outer)]⟩
  have he : e.UsesLf := Engine.usesLf_of_answers (by decide +kernel)
  have hp : (e.compile none source).outcome = .ok p := by decide +kernel
  obtain ⟨hcrlf, hrender⟩ := (e.compile_crlf he (by decide +kernel) none).2.2 p hp
  have hvalues : ∀ event ∈ (p.run 64 root).formatted Formatter.escaped,
      event.formatsInLine Formatter.escaped = true := by
    rw [← List.all_eq_true]
    decide +kernel
  obtain ⟨-, -, htext⟩ := hrender Engine.empty none root hvalues
  have hlf : Engine.empty.renderText p none (.ok root) =
      .ok "1\n\ta\n\t  x\n\t  z\n\t  y&lt;\n2" := by decide +kernel
  have hcrlfText : crlfText "1\n\ta\n\t  x\n\t  z\n\t  y&lt;\n2" =
      "1\r\n\ta\r\n\t  x\r\n\t  z\r\n\t  y&lt;\r\n2" := by decide +kernel
  rw [hlf] at htext
  exact ⟨e, source, p, root, rfl, hp, by decide +kernel, hcrlf, hlf,
    htext.trans (congrArg Except.ok hcrlfText)⟩

end Stencil
