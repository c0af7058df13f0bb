import Mathlib.Tactic.Lemma
import Stencil.Render.Output

/-!
# What a rendering writes

The output of a rendering is made of the texts and values of its trace, each with the
indentation in front that it needs. It ends with the fault of the trace, unless a value before
that cannot be formatted.

## Main results

* `join_writes` — what is written for one text.
* `Written.text_eq` — a rendering that ends well gives its texts put together.
* `Trace.exists_content_of_mem_pieces` — every text that is written stems from an event.
* `Trace.fault_outputFrom` — every fault stems from the trace or from the formatter.
-/

namespace Stencil

open Stencil.Text

namespace Written

/-- What is written behind some texts comes after them. -/
@[simp]
lemma pieces_behind (texts : List String) (rest : Unit → Written) :
    (behind texts rest).pieces = texts ++ (rest ()).pieces := by
  induction texts with
  | nil => rfl
  | cons content more ih => rw [behind, pieces, ih, List.cons_append]

/-- Some texts in front do not change how a rendering ends. -/
@[simp]
lemma fault_behind (texts : List String) (rest : Unit → Written) :
    (behind texts rest).fault = (rest ()).fault := by
  induction texts with
  | nil => rfl
  | cons content more ih => rw [behind, fault, ih]

/-- What a rendering gives behind a text that is there already. -/
lemma textAfter_eq (w : Written) (start : String) :
    w.textAfter start =
      match w.fault with
      | none => .ok (start ++ String.join w.pieces)
      | some fault => .error fault := by
  induction w generalizing start with
  | ended fault =>
    cases fault with
    | none => simp [textAfter, fault, pieces]
    | some fault => rfl
  | piece content rest ih =>
    rw [textAfter, ih, fault, pieces, String.join_cons, String.append_assoc]

/-- **A rendering that ends well gives its texts put together**, and one that fails gives its
fault. -/
theorem text_eq (w : Written) :
    w.text =
      match w.fault with
      | none => .ok (String.join w.pieces)
      | some fault => .error fault := by
  rw [text, textAfter_eq, String.empty_append]

end Written

/-- A text is written as it is, perhaps with its indentation in front. -/
lemma mem_writes {lineStart : Bool} {indent content s : String}
    (h : s ∈ writes lineStart indent content) : s = indent ∨ s = content := by
  unfold writes at h
  split at h
  · cases h
  · split at h
    · simpa using h
    · exact .inr (by simpa using h)

/-- What is written for a text is the text, with the indentation in front if there is something to
write and it starts a line. -/
lemma join_writes (lineStart : Bool) (indent content : String) :
    String.join (writes lineStart indent content) =
      (if lineStart = true ∧ content ≠ "" then indent else "") ++ content := by
  unfold writes
  split
  · rename_i hempty
    obtain rfl := String.isEmpty_iff.1 hempty
    simp
  · rename_i hempty
    have hne : content ≠ "" := fun h => hempty (String.isEmpty_iff.2 h)
    cases lineStart with
    | false => simp
    | true =>
      cases hindent : indent.isEmpty with
      | false => simp [hne]
      | true =>
        obtain rfl := String.isEmpty_iff.1 hindent
        simp

/-- The formatter that is in force if none is set never fails. -/
lemma Formatter.escaped_ne_error (v : Value) (fault : Fault) : escaped v ≠ .error fault := by
  intro h
  cases v <;> cases h

/-- Only the formatter fails to format a value, since every value has a written form. -/
lemma Event.exists_of_content_error {formatter : Formatter} {e : Event} {g : Fault}
    (h : e.content formatter = .error g) : ∃ v, formatter v = .error g := by
  cases e with
  | text indent content => cases h
  | opened inverted path runs => cases h
  | closed path again => cases h
  | value indent escaped v? =>
    simp only [content] at h
    split at h
    · cases h
    · rename_i fault hfault
      cases h
      cases escaped with
      | true => exact ⟨_, hfault⟩
      | false => cases hfault

namespace Trace

variable {formatter : Formatter} {t : Trace} {lineStart : Bool}

/-- **Every text that is written stems from an event**: it is what the event writes, or its
indentation. -/
theorem exists_content_of_mem_pieces {s : String}
    (h : s ∈ (t.outputFrom formatter lineStart).pieces) :
    ∃ e ∈ t.events, ∃ indent content,
      e.content formatter = .ok (some (indent, content)) ∧ (s = indent ∨ s = content) := by
  induction t generalizing lineStart with
  | ended fault => cases h
  | event e rest ih =>
    have hlater : ∀ lineStart, s ∈ ((rest ()).outputFrom formatter lineStart).pieces →
        ∃ e' ∈ (event e rest).events, ∃ indent content,
          e'.content formatter = .ok (some (indent, content)) ∧ (s = indent ∨ s = content) := by
      intro lineStart hs
      obtain ⟨e', he', hcontent⟩ := ih () hs
      exact ⟨e', List.mem_cons_of_mem e he', hcontent⟩
    rw [outputFrom] at h
    split at h
    · cases h
    · exact hlater _ h
    · rename_i indent content hcontent
      rw [Written.pieces_behind] at h
      rcases List.mem_append.1 h with h | h
      · exact ⟨e, List.mem_cons_self, indent, content, hcontent, mem_writes h⟩
      · exact hlater _ h

/-- **Every fault of a rendering stems from the trace or from the formatter.** -/
theorem fault_outputFrom {f : RenderFault}
    (h : (t.outputFrom formatter lineStart).fault = some f) :
    (∃ g, t.fault = some g ∧ f = .run g) ∨ ∃ v g, formatter v = .error g ∧ f = .format g := by
  induction t generalizing lineStart with
  | ended fault =>
    obtain ⟨g, rfl, rfl⟩ := Option.map_eq_some_iff.1 h
    exact .inl ⟨g, rfl, rfl⟩
  | event e rest ih =>
    rw [outputFrom] at h
    split at h
    · rename_i g hcontent
      obtain rfl : RenderFault.format g = f := Option.some.inj h
      obtain ⟨v, hv⟩ := Event.exists_of_content_error hcontent
      exact .inr ⟨v, g, hv, rfl⟩
    · exact ih () h
    · rw [Written.fault_behind] at h
      exact ih () h

end Trace

end Stencil
