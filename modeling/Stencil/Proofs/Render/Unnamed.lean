import Mathlib.Tactic.Lemma
import Stencil.Proofs.Render.Pairs

/-!
# Data that a program does not name

A path is looked up in the data of the sections that run, innermost first, and at last in the
data of the whole rendering. An entry of the latter under a name with which no path of the
program starts is never met on the way, and no data at hand is changed by it. Only the data at
hand as a whole shows it, so a program that never writes this is rendered as without the entry.

## Main results

* `lookup_insert_root` — an entry under another name than that of a path.
* `Program.rendering_insert_unnamed` — an entry that a program does not name.
-/

namespace Stencil

variable {path : Path} {name : String}

/-- An entry under another name than the first one of a path changes neither whether the path is
known nor what it leads to. -/
lemma owns_insert_and_resolve_insert (hself : path.isSelf = false) (hbase : path.base? ≠ some name)
    (v : Value) (entries : List (String × Value)) :
    owns path (.map (Entries.insert name v entries)) = owns path (.map entries) ∧
      (Value.map (Entries.insert name v entries)).resolve path.segments =
        (Value.map entries).resolve path.segments := by
  obtain ⟨segments, hident⟩ := path
  cases segments with
  | nil => cases hself
  | cons first others =>
    have hne : name ≠ first := fun h => hbase (congrArg some h.symm)
    have hmember : (Value.map (Entries.insert name v entries)).member first =
        (Value.map entries).member first := by
      show Entries.find? first (Entries.insert name v entries) = Entries.find? first entries
      rw [Entries.find?_insert, if_neg hne]
    constructor
    · exact congrArg Option.isSome hmember
    · simp only [Value.resolve, List.foldlM_cons, hmember]

/-- **An entry under another name than that of a path**, in the data of the whole rendering, does
not change where the path leads, whatever other data is at hand. -/
theorem lookup_insert_root (hself : path.isSelf = false) (hbase : path.base? ≠ some name)
    (v : Value) (entries : List (String × Value)) (inner : List Value) :
    lookup (inner ++ [.map (Entries.insert name v entries)]) path =
      lookup (inner ++ [.map entries]) path := by
  obtain ⟨howns, hresolve⟩ := owns_insert_and_resolve_insert hself hbase v entries
  unfold lookup
  rw [List.find?_append, List.find?_append]
  cases inner.find? (owns path) with
  | some w => rfl
  | none =>
    simp only [Option.none_or, List.find?_singleton, howns]
    split
    · exact hresolve
    · rfl

namespace Program

variable {p : Program}

/-- The data with an entry that a program does not name corresponds to the data without it: all
values of paths are equal. -/
lemma correspondence_insert
    (hpaths : ∀ path ∈ p.paths, path.isSelf = false ∧ path.base? ≠ some name) (v : Value)
    (entries : List (String × Value)) :
    Correspondence Eq p (.map (Entries.insert name v entries)) (.map entries) := by
  constructor
  · rintro _ _ path ⟨inner, inner', rfl, rfl, hinner⟩ hpath
    obtain rfl : inner = inner' := List.forall₂_eq_eq_eq ▸ hinner
    obtain ⟨hself, hbase⟩ := hpaths path hpath
    exact rel_eq_iff.2 (lookup_insert_root hself hbase v entries inner)
  · intro v? w? h
    obtain rfl : v? = w? := rel_eq_iff.1 h
    exact List.forall₂_refl _

/-- **Data that a program does not name does not influence it.** If no path of the program is that
of the data at hand, or starts with the given name, then an entry under this name in the data of
the whole rendering changes nothing: every run does the same, every engine writes the same texts
and ends in the same way, at any greatest depth, and so does rendering to a text or to a sink.

**Proof sketch.** Whatever sections run, all paths of the program lead to the same values, so the
two runs take the same steps and push the same data. -/
theorem rendering_insert_unnamed (p : Program) (name : String)
    (hpaths : ∀ path ∈ p.paths, path.isSelf = false ∧ path.base? ≠ some name)
    (entries : List (String × Value)) (v : Value) :
    (∀ limit, p.run limit (.map (Entries.insert name v entries)) = p.run limit (.map entries)) ∧
      ∀ (e : Engine) (limit : Option Nat),
        e.render p limit (.map (Entries.insert name v entries)) =
            e.render p limit (.map entries) ∧
          e.renderText p limit (.ok (.map (Entries.insert name v entries))) =
            e.renderText p limit (.ok (.map entries)) ∧
          ∀ sink, e.renderTo p limit (.ok (.map (Entries.insert name v entries))) sink =
            e.renderTo p limit (.ok (.map entries)) sink := by
  have hrun : ∀ limit,
      p.run limit (.map (Entries.insert name v entries)) = p.run limit (.map entries) :=
    fun limit => ((correspondence_insert hpaths v entries).run limit).eq
  refine ⟨hrun, fun e limit => ?_⟩
  have hrender : e.render p limit (.map (Entries.insert name v entries)) =
      e.render p limit (.map entries) := by
    rw [Engine.render, Engine.render, hrun]
  refine ⟨hrender, ?_, fun sink => ?_⟩
  · simp only [Engine.renderText, hrender]
  · simp only [Engine.renderTo, hrender]

end Program

/-- An entry under the name of a member that a path names behind the first one, in front of a
section whose items have that member and an included template that asks for it. -/
theorem rendering_insert_unnamed_on_member :
    ∃ (p : Program) (entries : List (String × Value)) (v : Value),
      (∀ path ∈ p.paths, path.isSelf = false ∧ path.base? ≠ some "b") ∧
      Entries.find? "b" entries = none ∧
      Engine.empty.renderText p none (.ok (.map (Entries.insert "b" v entries))) =
        .ok "  1\n  \n" := by
  let main : Sequence :=
    ⟨#[.openSection false ⟨["s"], by decide⟩ 2, .enter "p" "  ",
      .closeSection ⟨["s"], by decide⟩ 0], by decide⟩
  let item : Sequence := ⟨#[.interpolate true ⟨["a", "b"], by decide⟩, .text "\n"], by decide⟩
  let p : Program := ⟨"", main, ⟨[("p", item)], List.pairwise_singleton _ _⟩⟩
  let entries : List (String × Value) :=
    [("a", .string "2"), ("s", .list [.map [("a", .map [("b", .string "1")])], .none])]
  have hpaths : ∀ path ∈ p.paths, path.isSelf = false ∧ path.base? ≠ some "b" := by
    decide +kernel
  refine ⟨p, entries, .string "0", hpaths, by decide, ?_⟩
  rw [((p.rendering_insert_unnamed "b" hpaths entries (.string "0")).2 Engine.empty none).2.1,
    Engine.renderText_eq]
  have hfault : (Engine.empty.render p none (.map entries)).fault = none := by decide +kernel
  have hpieces : String.join (Engine.empty.render p none (.map entries)).pieces = "  1\n  \n" := by
    decide +kernel
  rw [hfault]
  exact congrArg Except.ok hpieces

end Stencil
