import Mathlib.Data.List.Basic
import Mathlib.Tactic.Lemma
import Stencil.Proofs.Engine.Closure
import Stencil.Proofs.Render.Frames
import Stencil.Proofs.Render.Lockstep

/-!
# How deep inclusions lie

What is compared with the greatest depth of inclusion is the number of frames around the template
at hand. A frame is put there at an inclusion and is gone before the next instruction behind this
inclusion is met. So the frames are the links of a chain of inclusions that starts at the main
sequence, however many templates were included before, and a greatest depth that no chain exceeds
is never exceeded by a walk.

## Main definitions

* `Program.LeadsTo` — the chains of inclusions from the main sequence on.
* `Program.Encloses` — frames around a sequence each of which stands at the inclusion of the next.

## Main results

* `Program.LeadsTo.length_add_rank_le` — ranks that inclusions lower bound the chains.
* `Cursor.Visits.encloses` — the frames of a walk each stand at the inclusion of the next.
* `Cursor.Visits.next_ne_tooDeep` — a walk exceeds no depth that no chain exceeds.
* `Engine.compile_depth_suffices` — no rendering fails at a depth that no chain exceeds.
-/

namespace Stencil

open Cursor

/-! ## Chains of inclusions -/

/-- A chain of inclusions leads from the main sequence to the sequence of a template, over the
templates with the given names, the last one first. -/
inductive Program.LeadsTo (p : Program) : List String → Sequence → Prop where
  /-- The main sequence itself. -/
  | main : p.LeadsTo [] p.main
  /-- A template that is included by the last one. -/
  | onward {names : List String} {s t : Sequence} {name : String} (h : p.LeadsTo names s)
      (hincluded : name ∈ s.included) (ht : p.partials.find? name = some t) :
      p.LeadsTo (name :: names) t

/-- Frames around a sequence, innermost first. Each one stands at the inclusion of the template
inside, and the outermost one is in the main sequence. -/
inductive Program.Encloses (p : Program) : List Frame → Sequence → Prop where
  /-- Nothing is around the main sequence. -/
  | main : p.Encloses [] p.main
  /-- The frame of an inclusion is around the template that is included. -/
  | included {outer : List Frame} {f : Frame} {i : Nat} {name indent : String} {t : Sequence}
      (h : p.Encloses outer f.sequence) (hindex : f.index = some i)
      (hinstr : f.sequence.instrs[i]? = some (.enter name indent))
      (ht : p.partials.find? name = some t) : p.Encloses (f :: outer) t

namespace Program

variable {p : Program} {names : List String} {s : Sequence} {outer : List Frame}

/-- A chain stays in the sequences of the program. -/
lemma LeadsTo.mem_sequences (h : p.LeadsTo names s) : s ∈ p.sequences := by
  cases h with
  | main => exact List.mem_cons_self
  | onward _ _ ht => exact Program.mem_sequences.2 (.inr ⟨_, ht⟩)

/-- **Ranks that inclusions lower bound the chains**: no chain has more links than the rank of the
main sequence. -/
theorem LeadsTo.length_add_rank_le {rank : Sequence → Nat}
    (hrank : ∀ s ∈ p.sequences, ∀ name ∈ s.included, ∀ t, p.partials.find? name = some t →
      rank t < rank s) (h : p.LeadsTo names s) : names.length + rank s ≤ rank p.main := by
  induction h with
  | main => exact Nat.le_of_eq (Nat.zero_add _)
  | onward hs hincluded ht ih =>
    have hlower := hrank _ hs.mem_sequences _ hincluded _ ht
    rw [List.length_cons]
    omega

/-- Frames around a sequence are the links of a chain that leads there. -/
lemma Encloses.exists_leadsTo (h : p.Encloses outer s) :
    ∃ names, p.LeadsTo names s ∧ names.length = outer.length := by
  induction h with
  | main => exact ⟨[], .main, rfl⟩
  | included _ _ hinstr ht ih =>
    obtain ⟨names, hnames, hlength⟩ := ih
    have hincluded := Sequence.mem_included (Array.mem_of_getElem? hinstr)
    exact ⟨_, hnames.onward hincluded ht, congrArg (· + 1) hlength⟩

/-- In a closed program, frames on top of each other stand at the inclusions of each other. -/
lemma Stacks.encloses (hclosed : p.isClosed = true) {limit : Nat} {top : Frame}
    (h : p.Stacks limit (top :: outer)) : p.Encloses outer top.sequence := by
  generalize hframes : top :: outer = frames at h
  induction h generalizing top outer with
  | main hsequence =>
    obtain ⟨rfl, rfl⟩ := List.cons.inj hframes
    rw [hsequence]
    exact .main
  | included _ hreached hsequence _ _ ih =>
    obtain ⟨rfl, rfl⟩ := List.cons.inj hframes
    have houter := ih rfl
    obtain ⟨i, hindex, hinstr⟩ := Option.bind_eq_some_iff.1 hreached
    -- the name stands for the template that the program has
    obtain ⟨names, hnames, -⟩ := houter.exists_leadsTo
    obtain ⟨t, ht⟩ := exists_find?_of_isClosed hclosed hnames.mem_sequences
      (Array.mem_of_getElem? hinstr)
    rw [hsequence, ht]
    exact .included houter hindex hinstr ht

end Program

/-! ## Walks -/

namespace Cursor.Visits

variable {p : Program} {limit : Nat} {c : Cursor}

/-- **The frames of a walk each stand at the inclusion of the next.** No frame stays around when
its inclusion is finished and another one is met. -/
theorem encloses (hclosed : p.isClosed = true) (hc : Visits p limit c) :
    p.Encloses c.outer c.top.sequence :=
  hc.stacks.encloses hclosed

/-- The depth of a walk is the number of links of a chain to the template at hand. -/
lemma exists_leadsTo (hclosed : p.isClosed = true) (hc : Visits p limit c) :
    ∃ names, p.LeadsTo names c.top.sequence ∧ names.length = c.depth := by
  obtain ⟨names, hnames, hlength⟩ := (hc.encloses hclosed).exists_leadsTo
  exact ⟨names, hnames, hlength.trans c.depth_eq.symm⟩

/-- **A walk exceeds no depth that no chain exceeds.**

**Proof sketch.** A turn that finds an inclusion at the greatest depth stands behind as many links,
and the inclusion is one more. -/
theorem next_ne_tooDeep (hclosed : p.isClosed = true)
    (hchains : ∀ names s, p.LeadsTo names s → names.length ≤ limit) (hc : Visits p limit c)
    (name : String) : (c.next p).2 ≠ .error (.tooDeep limit name) := by
  intro hnext
  obtain ⟨d, d', r, hd, hyield, heq⟩ := hc.exists_turn
  obtain rfl : r = .error (.tooDeep limit name) := by rw [← hnext, heq]
  obtain ⟨links, hlinks, hdepth⟩ := hd.exists_leadsTo hclosed
  cases hinstr : d.station.instr? with
  | none =>
    cases houter : d.outer with
    | nil =>
      rw [turn_exhausted hinstr houter] at hyield
      cases hyield
    | cons f outer =>
      obtain ⟨_, hturn, -⟩ := turn_leave (p := p) hinstr houter
      rw [hturn] at hyield
      cases hyield
  | some i =>
    rw [turn_instr hinstr] at hyield
    cases i with
    | enter other indent =>
      rw [meet] at hyield
      split at hyield
      · rename_i hlimit
        have hincluded := Sequence.mem_included (Array.mem_of_getElem? hinstr)
        have hlonger := hchains _ _ (hlinks.onward hincluded (hd.find?_eq_target hclosed hinstr))
        rw [hd.limit_eq] at hlimit
        rw [List.length_cons] at hlonger
        omega
      · cases hyield
    | text content => cases hyield
    | interpolate escaped path => cases hyield
    | openSection inverted path target => cases hyield
    | closeSection path target => cases hyield

end Cursor.Visits

/-! ## Renderings -/

namespace Program

variable {p : Program} {limit : Nat}

/-- A run does not fail at a depth that no chain exceeds. -/
lemma IsSequenced.fault_run_eq_none (hp : p.IsSequenced) (hclosed : p.isClosed = true)
    (hchains : ∀ names s, p.LeadsTo names s → names.length ≤ limit) (root : Value) :
    (p.run limit root).fault = none := by
  cases hfault : (p.run limit root).fault with
  | none => rfl
  | some fault =>
    obtain ⟨name, rfl⟩ := hp.fault_run hfault
    obtain ⟨m, hm, hmore, hstep⟩ := Machine.exists_step_of_fault .start hfault
    unfold Machine.step at hstep
    split at hstep
    · rename_i c found hnext
      cases hstep
      exact absurd (congrArg Prod.snd hnext) (hm.visits.next_ne_tooDeep hclosed hchains name)
    · rename_i c i hnext
      obtain ⟨-, e, m', hperform, -⟩ := ((hm.inStep hp).next hp hmore).2 c i hnext
      rw [hperform] at hstep
      cases hstep

/-- At a depth that no chain exceeds, a rendering only fails with a fault of the formatter. -/
lemma IsSequenced.formatter_of_renderText (hp : p.IsSequenced) (hclosed : p.isClosed = true)
    (hchains : ∀ names s, p.LeadsTo names s → names.length ≤ limit) {renderer : Engine}
    {root : Value} {fault : Fault}
    (h : renderer.renderText p (some limit) (.ok root) = .error fault) :
    ∃ v, renderer.formatter v = .error fault := by
  rw [Engine.renderText_eq] at h
  split at h
  · cases h
  · rename_i found hfound
    cases h
    rcases Trace.fault_outputFrom hfound with ⟨g, hg, -⟩ | ⟨v, g, hv, rfl⟩
    · have hg : (p.run limit root).fault = some g := hg
      rw [hp.fault_run_eq_none hclosed hchains root] at hg
      cases hg
    · exact ⟨v, hv⟩

end Program

/-- **No rendering of what compiles fails at a depth that no chain of inclusions exceeds.** On
every walk, the frames that are counted are those of inclusions that are not finished: each one
stands at the inclusion of the next, so their number is the number of links of a chain from the
main sequence to the template at hand. If all chains have at most `k` links, no inclusion lies too
deep for a greatest depth of `k` or more, whatever the data is, and however many templates are
included one behind the other or over and over again. A rendering then fails with such a fault only
if the formatter itself failed with it, on a template of its own. There are no longer chains than
`k` links only if no template includes itself, directly or through others.

**Proof sketch.** A turn puts a frame around a template at an inclusion of this template, and going
on behind this inclusion takes it away first. What is compiled has a sequence for each name, so an
inclusion that lies too deep is one more link of a chain. -/
theorem Engine.compile_depth_suffices {e : Engine} {own : Option String} {source : String}
    {p : Program} (h : (e.compile own source).outcome = .ok p) {k limit : Nat}
    (hchains : ∀ names s, p.LeadsTo names s → names.length ≤ k) (hk : k ≤ limit) :
    (∀ c, Cursor.Visits p limit c →
      p.Encloses c.outer c.top.sequence ∧
      (∃ names, p.LeadsTo names c.top.sequence ∧ names.length = c.depth) ∧
      ∀ name, (c.next p).2 ≠ .error (.tooDeep limit name)) ∧
    (∀ root, (p.run limit root).fault = none) ∧
    ∀ (renderer : Engine) (data : Except DatumFault Value) (fault : Fault),
      (renderer.renderText p (some limit) data = .error fault →
        fault.kind = .recursionLimit → ∃ v, renderer.formatter v = .error fault) ∧
      ∀ sink : Sink, (renderer.renderTo p (some limit) data sink).2 = .error fault →
        fault.kind = .recursionLimit → ∃ v, renderer.formatter v = .error fault := by
  have hp := compile_isSequenced h
  have hclosed := compile_isClosed h
  have hlimit : ∀ names s, p.LeadsTo names s → names.length ≤ limit := fun names s hs =>
    Nat.le_trans (hchains names s hs) hk
  refine ⟨fun c hc => ⟨hc.encloses hclosed, hc.exists_leadsTo hclosed,
    hc.next_ne_tooDeep hclosed hlimit⟩, hp.fault_run_eq_none hclosed hlimit,
    fun renderer data fault => ⟨fun htext hkind => ?_, fun sink hsink hkind => ?_⟩⟩
  · cases data with
    | error found =>
      cases htext
      cases hkind
    | ok root => exact hp.formatter_of_renderText hclosed hlimit htext
  · cases data with
    | error found =>
      cases hsink
      cases hkind
    | ok root =>
      rcases fault_renderTo hsink with htext | ⟨g, -, rfl⟩
      · exact hp.formatter_of_renderText hclosed hlimit htext
      · cases hkind

/-- Templates that are included one behind the other, at the end of another one, and over and over
again. The chains have two links, and a greatest depth of two suffices, but one of one does not. -/
theorem compile_depth_suffices_on_repeated :
    ∃ (e : Engine) (source : String) (p : Program) (root : Value),
      (e.compile none source).outcome = .ok p ∧
      (∀ names s, p.LeadsTo names s → names.length ≤ 2) ∧
      e.renderText p (some 1) (.ok root) = .error (.ofCause (.run (.cursor (.tooDeep 1 "b")))) ∧
      e.renderText p (some 2) (.ok root) = .ok "bab|bab|bab|bb" ∧
      (p.run 2 root).fault = none ∧
      (∀ c, Cursor.Visits p 2 c → ∀ name, (c.next p).2 ≠ .error (.tooDeep 2 name)) ∧
      ∀ data fault, e.renderText p (some 2) data = .error fault →
        fault.kind ≠ .recursionLimit := by
  let e : Engine := { loader := some ⟨.ofList [("b", .ok "b"),
    ("a", .ok "\x7b\x7b>b\x7d\x7da\x7b\x7b>b\x7d\x7d")]⟩ }
  let source := "\x7b\x7b>a\x7d\x7d|\x7b\x7b#s\x7d\x7d\x7b\x7b>a\x7d\x7d|\x7b\x7b/s\x7d\x7d" ++
    "\x7b\x7b>b\x7d\x7d\x7b\x7b>b\x7d\x7d"
  let root : Value := .map [("s", .list [.bool true, .bool true])]
  let rank : Sequence → Nat := fun s => s.included.eraseDups.length
  have hrun : (e.compile none source).outcome.toOption.map (fun p =>
      (e.renderText p (some 1) (.ok root), e.renderText p (some 2) (.ok root),
        rank p.main, p.sequences.all fun s => s.included.all fun n =>
          (p.partials.find? n).all fun t => rank t < rank s)) =
      some (.error (.ofCause (.run (.cursor (.tooDeep 1 "b")))), .ok "bab|bab|bab|bb", 2,
        true) := by
    decide +kernel
  obtain ⟨p, hp, hparts⟩ := exists_of_toOption_map_eq_some hrun
  simp only [Prod.mk.injEq] at hparts
  obtain ⟨hfails, htext, hmain, hranks⟩ := hparts
  have hchains : ∀ names s, p.LeadsTo names s → names.length ≤ 2 := by
    intro names s hs
    have hrank : ∀ s ∈ p.sequences, ∀ name ∈ s.included, ∀ t,
        p.partials.find? name = some t → rank t < rank s := by
      intro s hs name hname t ht
      simpa [ht] using List.all_eq_true.1 (List.all_eq_true.1 hranks s hs) name hname
    rw [← hmain]
    exact Nat.le_trans (Nat.le_add_right _ _) (hs.length_add_rank_le hrank)
  obtain ⟨hwalk, hfault, hrender⟩ := Engine.compile_depth_suffices hp hchains (Nat.le_refl 2)
  refine ⟨e, source, p, root, hp, hchains, hfails, htext, hfault root,
    fun c hc => (hwalk c hc).2.2, fun data fault hrendered hkind => ?_⟩
  obtain ⟨v, hv⟩ := (hrender e data fault).1 hrendered hkind
  exact Formatter.escaped_ne_error v fault hv

end Stencil
