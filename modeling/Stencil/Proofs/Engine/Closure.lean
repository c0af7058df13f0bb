import Mathlib.Tactic.Lemma
import Stencil.Proofs.Engine.Links
import Stencil.Proofs.Render.Walks

/-!
# Compiled programs are closed and minimal

A program that was compiled has a sequence for every template that its sequences include, and
no other: whatever the shape of the inclusions, each template of the program is reached from
the main sequence. So no walk through it meets the name of a template that is not there.

## Main results

* `Program.closing_closed`, `Program.closing_reached` — a program stays closed and minimal when
  its own name is settled.
* `Cursor.Visits.find?_eq_target` — a walk through a closed program meets no unknown name.
* `Engine.compile_closed_and_minimal` — what compiles is closed and minimal.
-/

namespace Stencil

/-! ## The program under its own name -/

namespace Program

variable {p : Program} {name : Option String} {n : String}

/-- A closed program has what its sequences include. -/
lemma isClosed_iff :
    p.isClosed = true ↔ ∀ s ∈ p.sequences, ∀ n ∈ s.included, p.partials.contains n = true := by
  simp [isClosed]

/-- A closed program has a sequence for each inclusion. -/
lemma exists_find?_of_isClosed (hclosed : p.isClosed = true) {s : Sequence} (hs : s ∈ p.sequences)
    {n indent : String} (h : .enter n indent ∈ s.instrs) : ∃ t, p.partials.find? n = some t :=
  Table.contains_iff.1 (isClosed_iff.1 hclosed s hs n (Sequence.mem_included h))

/-- A program that lacks only its own name is closed when this name is settled. -/
lemma closing_closed
    (h : ∀ s ∈ p.sequences, ∀ n ∈ s.included, p.partials.contains n = true ∨ n ∈ name.toList) :
    (p.closing name).isClosed = true := by
  rw [isClosed_iff]
  cases name with
  | none =>
    intro s hs n hn
    exact (h s hs n hn).resolve_right (by simp)
  | some own =>
    simp only [closing]
    split
    · rename_i hused
      intro s hs n hn
      have hsettled : s ∈ (p.closing (some own)).sequences := by
        rw [closing, if_pos hused]
        exact hs
      have hold : s ∈ p.sequences := sequences_closing hsettled
      show (p.partials.insert own p.main).contains n = true
      rw [Table.contains, Table.find?_insert]
      split
      · rfl
      · rename_i hne
        refine (h s hold n hn).resolve_right ?_
        simpa using Ne.symm hne
    · rename_i hunused
      intro s hs n hn
      refine (h s hs n hn).resolve_right ?_
      intro hown
      obtain rfl : n = own := by simpa using hown
      exact hunused (List.any_eq_true.2 ⟨s, hs, by simpa using hn⟩)

/-- A program without its own name among its partials stays minimal when this name is
settled. -/
lemma closing_reached (hnew : ∀ own ∈ name, ¬p.partials.contains own = true)
    (h : ∀ n, p.partials.contains n = true → Reached p.partials p.main.included n)
    (hn : (p.closing name).partials.contains n = true) :
    Reached (p.closing name).partials (p.closing name).main.included n := by
  cases name with
  | none => exact h n hn
  | some own =>
    simp only [closing] at hn ⊢
    split at hn
    · rename_i hused
      rw [if_pos hused]
      have hkeep : ∀ m s, p.partials.find? m = some s →
          (p.partials.insert own p.main).find? m = some s := by
        intro m s hm
        rw [Table.find?_insert, if_neg]
        · exact hm
        · rintro rfl
          exact hnew own rfl (Table.contains_iff.2 ⟨s, hm⟩)
      have hreached : ∀ m, p.partials.contains m = true →
          Reached (p.partials.insert own p.main) p.main.included m := fun m hm =>
        (h m hm).trans (fun _ hk => .root hk) hkeep
      show Reached (p.partials.insert own p.main) p.main.included n
      rw [Table.contains, Table.find?_insert] at hn
      split at hn
      · -- the own name is included by the main sequence or by a partial that is reached
        rename_i hown
        subst hown
        obtain ⟨s, hs, hincluded⟩ := List.any_eq_true.1 hused
        have hincluded : own ∈ s.included := by simpa using hincluded
        rcases mem_sequences.1 hs with rfl | ⟨m, hm⟩
        · exact .root hincluded
        · exact .step (hreached m (Table.contains_iff.2 ⟨s, hm⟩)) (hkeep m s hm) hincluded
      · exact hreached n hn
    · rename_i hunused
      rw [if_neg hunused]
      exact h n hn

end Program

/-! ## Walks -/

namespace Cursor.Visits

variable {p : Program} {limit : Nat} {c : Cursor}

/-- In a closed program, a walk only meets names of templates that are there. -/
lemma find?_eq_target (hclosed : p.isClosed = true) (h : Visits p limit c) {name indent : String}
    (hinstr : c.station.instr? = some (.enter name indent)) :
    p.partials.find? name = some (c.target p name) := by
  obtain ⟨s, hs⟩ := Program.exists_find?_of_isClosed hclosed h.isWithin.1
    (Array.mem_of_getElem? hinstr)
  rw [Cursor.target, hs]
  rfl

end Cursor.Visits

/-! ## Compiled programs -/

/-- What compiles is closed. -/
lemma Engine.compile_isClosed {e : Engine} {name : Option String} {source : String} {p : Program}
    (h : (e.compile name source).outcome = .ok p) : p.isClosed = true := by
  obtain ⟨main, compiled, -, hlinked, rfl⟩ := compile_eq_ok h
  refine Program.closing_closed ?_
  intro s hs n hn
  rcases Program.mem_sequences.1 hs with rfl | ⟨m, hm⟩
  · exact hlinked.covers n hn
  · exact (hlinked.closed m s hm).resolve_left (by simp) n hn

/-- **Compiled programs are closed and minimal.** Every template that some sequence of the
program includes is a part of it, every part is reached from the main sequence by inclusions,
and whenever a walk meets an inclusion, it enters the sequence that the program has under this
very name.

**Proof sketch.** While a template is compiled, each template that is complete includes only
templates that are complete too or are being compiled further out. In the end only the
template itself can be one of the latter, and it is added under its name exactly if something
includes it. A walk stays in the sequences of the program, and these are closed. -/
theorem Engine.compile_closed_and_minimal {e : Engine} {name : Option String} {source : String}
    {p : Program} (h : (e.compile name source).outcome = .ok p) :
    p.isClosed = true ∧
      (∀ n, p.partials.contains n = true → Reached p.partials p.main.included n) ∧
      ∀ limit c, Cursor.Visits p limit c → ∀ n indent,
        c.station.instr? = some (.enter n indent) →
          p.partials.find? n = some (c.target p n) := by
  have hclosed := compile_isClosed h
  obtain ⟨main, compiled, -, hlinked, rfl⟩ := compile_eq_ok h
  refine ⟨hclosed, ?_, fun limit c hc n indent => hc.find?_eq_target hclosed⟩
  intro n hn
  refine Program.closing_reached ?_ ?_ hn
  · rintro own rfl hown
    obtain ⟨s, hs⟩ := Table.contains_iff.1 hown
    exact hlinked.ne_of_find? hs rfl
  · intro m hm
    obtain ⟨s, hs⟩ := Table.contains_iff.1 hm
    exact (hlinked.reached m s hs).resolve_left (by simp)

/-- Templates that include each other, themselves, and the one that is being added. The loader
also knows one that nothing includes. -/
theorem compile_closed_and_minimal_on_cycle :
    ∃ e : Engine, ∃ p : Program,
      (e.compile (some "t") "1\x7b\x7b>a\x7d\x7d").outcome = .ok p ∧
        p.partials.names = ["a", "b", "t"] ∧ p.isClosed = true ∧
          Reached p.partials p.main.included "t" ∧
            ∀ limit c, Cursor.Visits p limit c → ∀ n indent,
              c.station.instr? = some (.enter n indent) →
                p.partials.find? n = some (c.target p n) := by
  let loader : Loader :=
    ⟨.ofList [("a", .ok "\x7b\x7b>b\x7d\x7d2"), ("c", .ok "3"),
      ("b", .ok "\x7b\x7b>b\x7d\x7d\x7b\x7b>a\x7d\x7d\x7b\x7b>t\x7d\x7d")]⟩
  have hrun : (({ loader := some loader } : Engine).compile (some "t")
      "1\x7b\x7b>a\x7d\x7d").outcome.toOption.map
        (fun p => (p.partials.names, p.partials.contains "t")) = some (["a", "b", "t"], true) := by
    decide +kernel
  obtain ⟨p, hp, hparts⟩ := exists_of_toOption_map_eq_some hrun
  obtain ⟨hnames, hown⟩ := Prod.mk.inj hparts
  obtain ⟨hclosed, hreached, hwalk⟩ := Engine.compile_closed_and_minimal hp
  exact ⟨_, p, hp, hnames, hclosed, hreached "t" hown, hwalk⟩

end Stencil
