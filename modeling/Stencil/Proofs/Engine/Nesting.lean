import Mathlib.Data.Prod.Lex
import Mathlib.Tactic.Lemma
import Stencil.Proofs.Engine.Moments

/-!
# Compiling ends

The templates that are being compiled inside one another have distinct names, and each one is
included by the one around it. So they are never more than the names that are known, and one
more. Compiling ends because a name that was put on the stack once is either on the stack or
compiled from then on, and between two such moments references are passed over or templates
become complete.

## Main definitions

* `Moment.Nested` — templates that are being compiled inside one another.
* `Moment.unseen`, `Moment.pending` — what is left to do at a moment.

## Main results

* `Moment.Nested.of_passes` — at each moment, templates are nested.
* `Moment.Goes.decreases` — each step leaves less to do.
* `Shelf.compiling_ends` — compiling ends, and nesting is bounded by the number of known names.
-/

namespace Stencil

namespace Moment

/-! ## Nested templates -/

/-- Templates that are being compiled inside one another, from the given source on. Each one but
the outermost is what a reference of the template around it refers to, has a source, and has a
name that is not being compiled further out. -/
inductive Nested (shelf : Shelf) (own : Option String) (source : String) :
    Task → List Waiting → Prop
  /-- The outermost template. -/
  | outermost {left : List Reference} (hleft : left ⊆ (Task.start source).left) :
      Nested shelf own source ⟨source, left⟩ []
  /-- A template that is included. -/
  | included {task : Task} {outer : List Waiting} {r : Reference} {text : String}
      {left : List Reference} (hnested : Nested shelf own source task outer)
      (href : r ∈ (Task.start task.source).left) (hchain : r.name ∉ chainOf own outer)
      (htext : shelf.sourceOf r.name = .ok text) (hleft : left ⊆ (Task.start text).left) :
      Nested shelf own source ⟨text, left⟩ (⟨r.name, task⟩ :: outer)

namespace Nested

variable {shelf : Shelf} {own : Option String} {source : String} {task : Task}
  {outer : List Waiting} {m m' : Moment}

/-- The references that are left are some of the references of the template. -/
lemma left_subset (h : Nested shelf own source task outer) :
    task.left ⊆ (Task.start task.source).left := by
  cases h with
  | outermost hleft => exact hleft
  | included _ _ _ _ hleft => exact hleft

/-- A reference that is left was come to. -/
lemma tail {r : Reference} {rest : List Reference} {text : String}
    (h : Nested shelf own source ⟨text, r :: rest⟩ outer) :
    Nested shelf own source ⟨text, rest⟩ outer := by
  cases h with
  | outermost hleft => exact .outermost fun _ hx => hleft (List.mem_cons_of_mem r hx)
  | included hnested href hchain htext hleft =>
    exact .included hnested href hchain htext fun _ hx => hleft (List.mem_cons_of_mem r hx)

/-- The names that are being compiled are distinct. -/
lemma nodup (h : Nested shelf own source task outer) : (chainOf own outer).Nodup := by
  induction h with
  | outermost => cases own <;> simp [chainOf]
  | included _ _ hchain _ _ ih => exact List.nodup_cons.2 ⟨hchain, ih⟩

/-- Each template that is waited for has a source. -/
lemma exists_source (h : Nested shelf own source task outer) :
    ∀ w ∈ outer, ∃ text, shelf.sourceOf w.name = .ok text := by
  induction h with
  | outermost => simp
  | included _ _ _ htext _ ih => exact List.forall_mem_cons.2 ⟨⟨_, htext⟩, ih⟩

/-- A step leaves templates nested. -/
lemma goes (h : Nested shelf own source m.task m.outer) (hgoes : Goes shelf own m m') :
    Nested shelf own source m'.task m'.outer := by
  cases hgoes with
  | skip => exact h.tail
  | enter hnew htext =>
    exact .included h.tail (h.left_subset List.mem_cons_self) (fun hchain => hnew (.inr hchain))
      htext (List.Subset.refl _)
  | leave =>
    cases h with
    | included hnested => exact hnested

/-- **At each moment, templates are nested.** -/
theorem of_passes (h : Passes (step shelf own) (start source) m) :
    Nested shelf own source m.task m.outer := by
  refine h.invariant (P := fun m => Nested shelf own source m.task m.outer) ?_ ?_
  · intro m m' hstep hnested
    exact hnested.goes (step_eq_inr.1 hstep)
  · exact .outermost (List.Subset.refl _)

/-- Nested templates are not more than the known names, and one more. -/
lemma length_outer_le {names : List String}
    (hknown : ∀ n text, shelf.sourceOf n = .ok text → n ∈ names)
    (h : Nested shelf own source task outer) : outer.length ≤ names.dedup.length := by
  have hnodup : (outer.map Waiting.name).Nodup := (List.nodup_append.1 h.nodup).1
  have hsubset : outer.map Waiting.name ⊆ names.dedup := by
    intro n hn
    obtain ⟨w, hw, rfl⟩ := List.mem_map.1 hn
    obtain ⟨text, htext⟩ := h.exists_source w hw
    exact List.mem_dedup.2 (hknown _ _ htext)
  simpa using (hnodup.subperm hsubset).length_le

end Nested

/-! ## What is left to do -/

section Ending

variable {shelf : Shelf} {own : Option String} {names : List String} {m m' : Moment}

/-- The names that are neither compiled nor being compiled. -/
def unseen (names : List String) (own : Option String) (m : Moment) : Finset String :=
  names.toFinset.filter fun n =>
    ¬(m.linkage.compiled.contains n = true ∨ n ∈ chainOf own m.outer)

/-- The references that are left, and the templates that are not complete. -/
def pending (m : Moment) : Nat :=
  (m.task.left ++ m.outer.flatMap fun w => w.task.left).length + m.depth

/-- **Each step leaves less to do**: fewer names that were not come to, or as many of these and
fewer references and templates. -/
theorem Goes.decreases (hknown : ∀ n text, shelf.sourceOf n = .ok text → n ∈ names)
    (h : Goes shelf own m m') :
    Prod.Lex (· < ·) (· < ·) ((m'.unseen names own).card, m'.pending)
      ((m.unseen names own).card, m.pending) := by
  cases h with
  | skip =>
    refine .right _ ?_
    simp only [pending, depth, List.cons_append, List.length_cons]
    omega
  | @enter source text r rest outer st hnew htext =>
    refine .left _ _ (Finset.card_lt_card (Finset.ssubset_iff_of_subset ?_ |>.2 ⟨r.name, ?_, ?_⟩))
    · refine Finset.monotone_filter_right _ fun n _ hn => mt ?_ hn
      rintro (hcompiled | hchain)
      · exact .inl (by simpa using hcompiled)
      · exact .inr (List.mem_cons_of_mem _ hchain)
    · exact Finset.mem_filter.2 ⟨List.mem_toFinset.2 (hknown _ _ htext), hnew⟩
    · simp [unseen, chainOf]
  | @leave source w outer st s hdraft =>
    have hunseen : unseen names own
        ⟨w.task, outer, { st with compiled := st.compiled.insert w.name s }⟩ =
          unseen names own ⟨⟨source, []⟩, w :: outer, st⟩ :=
      Finset.filter_congr fun n _ => not_congr contains_insert_or_mem
    rw [hunseen]
    refine .right _ ?_
    simp only [pending, depth, List.flatMap_cons, List.nil_append, List.length_cons]
    omega

/-- Compiling ends from any moment on. -/
lemma exists_endsIn (hknown : ∀ n text, shelf.sourceOf n = .ok text → n ∈ names)
    (own : Option String) (m : Moment) :
    ∃ k answer, EndsIn (step shelf own) m k answer :=
  match hstep : m.step shelf own with
  | .inl answer => ⟨1, answer, .last hstep⟩
  | .inr m' =>
    let ⟨k, answer, hends⟩ := exists_endsIn hknown own m'
    ⟨k + 1, answer, .more hstep hends⟩
  termination_by ((m.unseen names own).card, m.pending)
  decreasing_by exact (step_eq_inr.1 hstep).decreases hknown

end Ending

end Moment

/-- **Compiling ends**, in whatever way templates include themselves and each other, if finitely
many names are known. It ends with a sequence or with a fault, which is what every engine with
these sources compiles, and at no moment are more templates being compiled inside one another
than there are known names, and one more.

**Proof sketch.** Each step leaves less to do, so the loop ends, and it ends in one way. The names
of the templates on the stack, but for the outermost one, are distinct and known. -/
theorem Shelf.compiling_ends {shelf : Shelf} {names : List String}
    (hknown : ∀ n text, shelf.sourceOf n = .ok text → n ∈ names) (own : Option String)
    (source : String) :
    ∃ k st outcome, EndsIn (Moment.step shelf own) (.start source) k (st, outcome) ∧
      (∀ m, Passes (Moment.step shelf own) (.start source) m →
        m.depth ≤ names.dedup.length + 1) ∧
      ∀ e : Engine, e.shelf = shelf → e.compile own source =
        ⟨st.asked, outcome.map fun main => Program.closing own ⟨source, main, st.compiled⟩⟩ := by
  obtain ⟨k, ⟨st, outcome⟩, hends⟩ := Moment.exists_endsIn hknown own (.start source)
  refine ⟨k, st, outcome, hends, fun m hm => ?_, fun e he => ?_⟩
  · exact Nat.succ_le_succ ((Moment.Nested.of_passes hm).length_outer_le hknown)
  · subst he
    obtain ⟨k', st', outcome', hends', hcompile⟩ := e.compile_endsIn own source
    obtain ⟨-, hanswer⟩ := hends.unique hends'
    cases hanswer
    exact hcompile

/-- Two templates that include each other, and one of them itself. The bound is attained: while
the inner one is compiled, both of them and the template itself are on the stack. -/
theorem compiling_ends_on_cycle :
    ∃ (e : Engine) (source : String), e.known = ["a", "b"] ∧
      e.sourceOf "a" = .ok "\x7b\x7b>b\x7d\x7d" ∧
      e.sourceOf "b" = .ok "\x7b\x7b>a\x7d\x7d\x7b\x7b>b\x7d\x7d" ∧
      (∃ k st outcome, EndsIn (Moment.step e.shelf none) (.start source) k (st, outcome) ∧
        e.compile none source = ⟨st.asked, outcome.map fun main => ⟨source, main, st.compiled⟩⟩) ∧
      (∀ m, Passes (Moment.step e.shelf none) (.start source) m → m.depth ≤ 3) ∧
      ∃ m, Passes (Moment.step e.shelf none) (.start source) m ∧ m.depth = 3 := by
  let e : Engine := { loader := some ⟨.ofList [("a", .ok "\x7b\x7b>b\x7d\x7d"),
    ("b", .ok "\x7b\x7b>a\x7d\x7d\x7b\x7b>b\x7d\x7d")]⟩ }
  have hnames : e.known = ["a", "b"] := by decide +kernel
  have ha : e.sourceOf "a" = .ok "\x7b\x7b>b\x7d\x7d" := by decide +kernel
  have hb : e.sourceOf "b" = .ok "\x7b\x7b>a\x7d\x7d\x7b\x7b>b\x7d\x7d" := by decide +kernel
  have hknown : ∀ n text, e.shelf.sourceOf n = .ok text → n ∈ ["a", "b"] := by
    intro n text htext
    rw [← hnames]
    exact Engine.mem_known_of_sourceOf htext
  obtain ⟨k, st, outcome, hends, hdepth, hcompile⟩ :=
    Shelf.compiling_ends hknown none "\x7b\x7b>a\x7d\x7d"
  refine ⟨e, _, hnames, ha, hb, ⟨k, st, outcome, hends, hcompile e rfl⟩, hdepth, ?_⟩
  -- the template refers to the first of the two, and this one to the second
  have hfirst : Task.start "\x7b\x7b>a\x7d\x7d" =
      ⟨"\x7b\x7b>a\x7d\x7d", [⟨"a", some ⟨0, 6⟩⟩]⟩ := by decide +kernel
  have hsecond : Task.start "\x7b\x7b>b\x7d\x7d" =
      ⟨"\x7b\x7b>b\x7d\x7d", [⟨"b", some ⟨0, 6⟩⟩]⟩ := by decide +kernel
  have henter : Moment.Goes e.shelf none (.start "\x7b\x7b>a\x7d\x7d")
      ⟨.start "\x7b\x7b>b\x7d\x7d", [⟨"a", "\x7b\x7b>a\x7d\x7d", []⟩], e.shelf.note {} "a"⟩ := by
    rw [Moment.start, hfirst]
    exact .enter (by simp [Moment.chainOf, Table.contains]) ha
  have henter' : Moment.Goes e.shelf none
      ⟨.start "\x7b\x7b>b\x7d\x7d", [⟨"a", "\x7b\x7b>a\x7d\x7d", []⟩], e.shelf.note {} "a"⟩
      ⟨.start "\x7b\x7b>a\x7d\x7d\x7b\x7b>b\x7d\x7d", [⟨"b", "\x7b\x7b>b\x7d\x7d", []⟩,
        ⟨"a", "\x7b\x7b>a\x7d\x7d", []⟩], e.shelf.note (e.shelf.note {} "a") "b"⟩ := by
    rw [hsecond]
    exact .enter (by simp [Moment.chainOf, Table.contains]) hb
  exact ⟨_, .tail (.single (Moment.step_eq_inr.2 henter)) (Moment.step_eq_inr.2 henter'), rfl⟩

end Stencil
