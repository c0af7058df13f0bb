import Mathlib.Tactic.Lemma
import Stencil.Engine.Session
import Stencil.Proofs.Render.Outputs

/-!
# Delivering the output

A sink accepts the bytes of the output in any portions and may fail at any call. What it has
accepted is always a first part of the output, and all of it exactly if it never failed. The
failure of a sink is what is reported, whatever else would have gone wrong behind it.

## Main definitions

* `Sink.IsOffered`, `Written.IsOffered` — the calls that are made to a sink.
* `Sink.IsSteady` — a sink that never fails.
* `Written.bytes` — the bytes of a whole output.

## Main results

* `Sink.deliver_bytes_prefix`, `Sink.deliver_fault_eq_none_iff` — what a sink accepts of a text.
* `Written.deliverFrom_bytes_prefix`, `Written.deliverFrom_fault_eq_none_iff` — and of an output.
* `Written.IsOffered.fault_eq` — the failure of a call is that of the delivery.
* `Engine.renderTo_delivers` — rendering to a sink, compared with rendering to a text.
-/

namespace Stencil

/-! ## Bytes of texts -/

/-- The bytes of two texts in a row. -/
@[simp]
lemma utf8Bytes_append (s t : String) : utf8Bytes (s ++ t) = utf8Bytes s ++ utf8Bytes t := by
  simp [utf8Bytes, String.toUTF8]

/-- The bytes of texts put together. -/
lemma utf8Bytes_join (texts : List String) :
    utf8Bytes (String.join texts) = texts.flatMap utf8Bytes := by
  induction texts with
  | nil => simp [utf8Bytes, String.toUTF8]
  | cons s texts ih => rw [String.join_cons, utf8Bytes_append, ih, List.flatMap_cons]

/-! ## One text -/

/-- The answer ends a delivery with the given failure. -/
def Answer.Ends (fault : TransferFault) : Answer → Prop
  | .fail found => found = fault
  | .accept count => count = 0 ∧ fault = .nothingAccepted

namespace Sink

variable {sink : Sink} {calls n : Nat} {bytes offered : List UInt8}

/-- While some bytes are handed over after `calls` calls, the sink is called for the `n`-th time
with the bytes `offered`: first with all of them, then with those that are left. -/
inductive IsOffered (sink : Sink) : Nat → List UInt8 → Nat → List UInt8 → Prop where
  | first {calls : Nat} {bytes : List UInt8} : bytes ≠ [] → IsOffered sink calls bytes calls bytes
  | later {calls count n : Nat} {bytes offered : List UInt8} : bytes ≠ [] →
      sink calls bytes = .accept (count + 1) →
        IsOffered sink (calls + 1) (bytes.drop (count + 1)) n offered →
          IsOffered sink calls bytes n offered

/-- A sink that accepts some of what it is offered, at every call. -/
def IsSteady (sink : Sink) : Prop :=
  ∀ calls bytes, bytes ≠ [] → ∃ count, sink calls bytes = .accept (count + 1)

/-- What a sink accepts of some bytes is a first part of them. -/
theorem deliver_bytes_prefix (sink : Sink) (calls : Nat) (bytes : List UInt8) :
    (sink.deliver calls bytes).bytes <+: bytes := by
  fun_induction deliver sink calls bytes with
  | case1 calls => exact List.nil_prefix
  | case2 calls bytes _ fault _ => exact List.nil_prefix
  | case3 calls bytes _ _ => exact List.nil_prefix
  | case4 calls bytes _ count _ rest ih =>
    conv => rhs; rw [← List.take_append_drop (count + 1) bytes]
    exact (List.prefix_append_right_inj _).2 ih

/-- A sink accepts all of some bytes exactly if it does not fail. -/
theorem deliver_fault_eq_none_iff (sink : Sink) (calls : Nat) (bytes : List UInt8) :
    (sink.deliver calls bytes).fault = none ↔ (sink.deliver calls bytes).bytes = bytes := by
  fun_induction deliver sink calls bytes with
  | case1 calls => simp
  | case2 calls bytes hne fault _ => simpa using Ne.symm hne
  | case3 calls bytes hne _ => simpa using Ne.symm hne
  | case4 calls bytes _ count _ rest ih =>
    conv => rhs; rhs; rw [← List.take_append_drop (count + 1) bytes]
    rw [List.append_cancel_left_eq]
    exact ih

/-- An answer that ends a delivery is its failure. -/
lemma IsOffered.fault_eq (h : sink.IsOffered calls bytes n offered) {fault : TransferFault}
    (hends : Answer.Ends fault (sink n offered)) :
    (sink.deliver calls bytes).fault = some fault := by
  induction h with
  | first hne =>
    unfold deliver
    rw [dif_neg hne]
    split
    · rename_i found hfail
      rw [hfail] at hends
      exact congrArg some hends
    · rename_i hzero
      rw [hzero] at hends
      exact congrArg some hends.2.symm
    · rename_i count hsome
      rw [hsome] at hends
      exact absurd hends.1 (Nat.succ_ne_zero count)
  | later hne haccept _ ih =>
    unfold deliver
    rw [dif_neg hne, haccept]
    exact ih hends

/-- The failure of a delivery is an answer of the sink. -/
lemma exists_isOffered {fault : TransferFault} (h : (sink.deliver calls bytes).fault = some fault) :
    ∃ n offered, sink.IsOffered calls bytes n offered ∧ Answer.Ends fault (sink n offered) := by
  fun_induction deliver sink calls bytes with
  | case1 calls => cases h
  | case2 calls bytes hne found hfail =>
    refine ⟨calls, bytes, .first hne, ?_⟩
    rw [hfail]
    exact Option.some.inj h
  | case3 calls bytes hne hzero =>
    refine ⟨calls, bytes, .first hne, ?_⟩
    rw [hzero]
    exact ⟨rfl, (Option.some.inj h).symm⟩
  | case4 calls bytes hne count haccept rest ih =>
    obtain ⟨n, offered, hoffered, hends⟩ := ih h
    exact ⟨n, offered, .later hne haccept hoffered, hends⟩

/-- Nothing is offered when nothing is left. -/
lemma IsOffered.ne_nil (h : sink.IsOffered calls bytes n offered) : offered ≠ [] := by
  induction h with
  | first hne => exact hne
  | later _ _ _ ih => exact ih

/-- A steady sink gives no answer that ends a delivery. -/
lemma IsSteady.not_ends (h : sink.IsSteady) (hne : offered ≠ []) (fault : TransferFault) :
    ¬Answer.Ends fault (sink n offered) := by
  obtain ⟨count, hcount⟩ := h n offered hne
  rw [hcount]
  exact fun hends => Nat.succ_ne_zero count hends.1

end Sink

/-! ## A whole output -/

namespace Written

variable {sink : Sink} {calls n : Nat} {w : Written} {offered : List UInt8}

/-- The bytes of all texts that are written. -/
def bytes (w : Written) : List UInt8 := w.pieces.flatMap utf8Bytes

/-- While an output is handed over after `calls` calls, the sink is called for the `n`-th time
with the bytes `offered`: text by text, for as long as it does not fail. -/
inductive IsOffered (sink : Sink) : Nat → Written → Nat → List UInt8 → Prop where
  | here {calls n : Nat} {content : String} {rest : Unit → Written} {offered : List UInt8} :
      sink.IsOffered calls (utf8Bytes content) n offered →
        IsOffered sink calls (.piece content rest) n offered
  | later {calls n : Nat} {content : String} {rest : Unit → Written} {offered : List UInt8} :
      (sink.deliver calls (utf8Bytes content)).fault = none →
        IsOffered sink (sink.deliver calls (utf8Bytes content)).calls (rest ()) n offered →
          IsOffered sink calls (.piece content rest) n offered

/-- A text at which the sink fails ends the delivery. -/
lemma deliverFrom_piece_of_some {content : String} {rest : Unit → Written}
    {fault : TransferFault} (h : (sink.deliver calls (utf8Bytes content)).fault = some fault) :
    (piece content rest).deliverFrom sink calls =
      (sink.deliver calls (utf8Bytes content), some (.format (.ofCause .unformattable))) := by
  simp only [deliverFrom, h]

/-- A text that is accepted as a whole goes in front of what is accepted behind it. -/
lemma deliverFrom_piece_of_none {content : String} {rest : Unit → Written}
    (h : (sink.deliver calls (utf8Bytes content)).fault = none) :
    (piece content rest).deliverFrom sink calls =
      let (later, outcome) :=
        (rest ()).deliverFrom sink (sink.deliver calls (utf8Bytes content)).calls
      (⟨utf8Bytes content ++ later.bytes, later.calls, later.fault⟩, outcome) := by
  have hall := (Sink.deliver_fault_eq_none_iff sink calls (utf8Bytes content)).1 h
  simp only [deliverFrom, h, hall]

/-- What a sink accepts of an output is a first part of it. -/
theorem deliverFrom_bytes_prefix (sink : Sink) (calls : Nat) (w : Written) :
    (w.deliverFrom sink calls).1.bytes <+: w.bytes := by
  induction w generalizing calls with
  | ended fault => exact List.nil_prefix
  | piece content rest ih =>
    rw [bytes, pieces, List.flatMap_cons]
    cases hfault : (sink.deliver calls (utf8Bytes content)).fault with
    | some fault =>
      rw [deliverFrom_piece_of_some hfault]
      exact (Sink.deliver_bytes_prefix sink calls _).trans (List.prefix_append _ _)
    | none =>
      rw [deliverFrom_piece_of_none hfault]
      exact (List.prefix_append_right_inj _).2 (ih () _)

/-- A sink accepts all of an output exactly if it does not fail. -/
theorem deliverFrom_fault_eq_none_iff (sink : Sink) (calls : Nat) (w : Written) :
    (w.deliverFrom sink calls).1.fault = none ↔ (w.deliverFrom sink calls).1.bytes = w.bytes := by
  induction w generalizing calls with
  | ended fault => exact ⟨fun _ => rfl, fun _ => rfl⟩
  | piece content rest ih =>
    rw [bytes, pieces, List.flatMap_cons]
    cases hfault : (sink.deliver calls (utf8Bytes content)).fault with
    | some fault =>
      rw [deliverFrom_piece_of_some hfault]
      refine ⟨fun h => absurd (hfault.symm.trans h) (Option.some_ne_none fault), fun h => ?_⟩
      -- a first part of one text cannot be that text with others behind it
      have hstart := Sink.deliver_bytes_prefix sink calls (utf8Bytes content)
      have hle := hstart.length_le
      have hlength : (sink.deliver calls (utf8Bytes content)).bytes.length = _ :=
        congrArg List.length h
      rw [List.length_append] at hlength
      have hall := hstart.eq_of_length (by omega)
      exact (Sink.deliver_fault_eq_none_iff sink calls _).2 hall
    | none =>
      rw [deliverFrom_piece_of_none hfault]
      show _ ↔ utf8Bytes content ++ _ = utf8Bytes content ++ _
      rw [List.append_cancel_left_eq]
      exact ih () _

/-- Nothing is offered when nothing is left. -/
lemma IsOffered.ne_nil (h : w.IsOffered sink calls n offered) : offered ≠ [] := by
  induction h with
  | here hoffered => exact hoffered.ne_nil
  | later _ _ ih => exact ih

/-- If the sink fails, the rendering ends as if a text could not be written; otherwise it ends
as it does without a sink. -/
lemma deliverFrom_outcome (sink : Sink) (calls : Nat) (w : Written) :
    (w.deliverFrom sink calls).2 =
      match (w.deliverFrom sink calls).1.fault with
      | some _ => some (.format (.ofCause .unformattable))
      | none => w.fault := by
  induction w generalizing calls with
  | ended fault => rfl
  | piece content rest ih =>
    cases hfault : (sink.deliver calls (utf8Bytes content)).fault with
    | some fault =>
      rw [deliverFrom_piece_of_some hfault]
      simp only [hfault]
    | none =>
      rw [deliverFrom_piece_of_none hfault]
      exact ih () _

/-- **The failure of a call is that of the delivery.** -/
theorem IsOffered.fault_eq (h : w.IsOffered sink calls n offered) {fault : TransferFault}
    (hends : Answer.Ends fault (sink n offered)) :
    (w.deliverFrom sink calls).1.fault = some fault := by
  induction h with
  | here hoffered =>
    have hfault := hoffered.fault_eq hends
    rw [deliverFrom_piece_of_some hfault]
    exact hfault
  | later hnone _ ih =>
    rw [deliverFrom_piece_of_none hnone]
    exact ih hends

/-- The failure of a delivery is an answer of the sink. -/
theorem exists_isOffered {fault : TransferFault}
    (h : (w.deliverFrom sink calls).1.fault = some fault) :
    ∃ n offered, w.IsOffered sink calls n offered ∧ Answer.Ends fault (sink n offered) := by
  induction w generalizing calls with
  | ended fault => cases h
  | piece content rest ih =>
    cases hfault : (sink.deliver calls (utf8Bytes content)).fault with
    | some found =>
      rw [deliverFrom_piece_of_some hfault] at h
      obtain ⟨n, offered, hoffered, hends⟩ := Sink.exists_isOffered h
      exact ⟨n, offered, .here hoffered, hends⟩
    | none =>
      rw [deliverFrom_piece_of_none hfault] at h
      obtain ⟨n, offered, hoffered, hends⟩ := ih () h
      exact ⟨n, offered, .later hfault hoffered, hends⟩

/-- How handing over an output ends: with the failure of the sink, if it failed, and otherwise
as the output itself does. -/
theorem deliverTo_outcome (w : Written) (sink : Sink) :
    (w.deliverTo sink).2 =
      match (w.deliverTo sink).1.fault with
      | some fault => some (.sink fault)
      | none => w.fault.map .render := by
  have houtcome := deliverFrom_outcome sink 0 w
  rw [deliverTo]
  cases hfault : (w.deliverFrom sink 0).1.fault with
  | some fault =>
    rw [hfault] at houtcome
    simp only [houtcome, hfault, Option.map_some]
  | none =>
    rw [hfault] at houtcome
    simp only [houtcome, hfault]

/-- A steady sink accepts the whole output and does not fail. -/
lemma deliverTo_of_isSteady (h : sink.IsSteady) (w : Written) :
    (w.deliverTo sink).1.bytes = w.bytes ∧ (w.deliverTo sink).1.fault = none := by
  have hnone : (w.deliverTo sink).1.fault = none := by
    cases hfault : (w.deliverTo sink).1.fault with
    | none => rfl
    | some fault =>
      obtain ⟨n, offered, hoffered, hends⟩ := exists_isOffered hfault
      exact absurd hends (h.not_ends hoffered.ne_nil fault)
  exact ⟨(deliverFrom_fault_eq_none_iff sink 0 w).1 hnone, hnone⟩

end Written

/-! ## Rendering to a sink -/

namespace Engine

variable {e : Engine} {p : Program} {limit : Option Nat} {root : Value} {sink : Sink}

/-- Rendering to a text gives the texts of the output put together, or its fault. -/
lemma renderText_eq (e : Engine) (p : Program) (limit : Option Nat) (root : Value) :
    e.renderText p limit (.ok root) =
      match (e.render p limit root).fault with
      | none => .ok (String.join (e.render p limit root).pieces)
      | some fault => .error fault.toFault := by
  rw [renderText, Written.text_eq]
  cases (e.render p limit root).fault <;> rfl

/-- What a sink accepts of a rendering. -/
lemma renderTo_delivery (e : Engine) (p : Program) (limit : Option Nat) (root : Value)
    (sink : Sink) :
    (e.renderTo p limit (.ok root) sink).1 = ((e.render p limit root).deliverTo sink).1 := by
  rw [renderTo]
  rcases (e.render p limit root).deliverTo sink with ⟨delivery, _ | fault⟩ <;> rfl

/-- How rendering to a sink ends: with the failure of the sink, if it failed, and otherwise as
the output does. -/
lemma renderTo_result (e : Engine) (p : Program) (limit : Option Nat) (root : Value)
    (sink : Sink) :
    (e.renderTo p limit (.ok root) sink).2 =
      match ((e.render p limit root).deliverTo sink).1.fault, (e.render p limit root).fault with
      | some fault, _ => .error (.ofCause (.transfer fault))
      | none, some fault => .error fault.toFault
      | none, none => .ok () := by
  have houtcome := Written.deliverTo_outcome (e.render p limit root) sink
  rw [renderTo]
  generalize (e.render p limit root).deliverTo sink = delivered at houtcome ⊢
  obtain ⟨delivery, outcome⟩ := delivered
  cases hfault : delivery.fault with
  | some fault =>
    obtain rfl : outcome = some (.sink fault) := by simpa only [hfault] using houtcome
    rfl
  | none =>
    obtain rfl : outcome = (e.render p limit root).fault.map .render := by
      simpa only [hfault] using houtcome
    cases (e.render p limit root).fault <;> rfl

/-- The bytes of an output are those of the text that it is rendered to. -/
lemma bytes_render_eq {text : String} (h : e.renderText p limit (.ok root) = .ok text) :
    (e.render p limit root).bytes = utf8Bytes text := by
  rw [renderText_eq] at h
  split at h
  · cases h
    exact (utf8Bytes_join _).symm
  · cases h

/-- Rendering to a sink succeeds exactly if rendering to a text does and the sink accepts every
byte of it. -/
lemma renderTo_eq_ok_iff (e : Engine) (p : Program) (limit : Option Nat) (root : Value)
    (sink : Sink) :
    (e.renderTo p limit (.ok root) sink).2 = .ok () ↔
      ∃ text, e.renderText p limit (.ok root) = .ok text ∧
        (e.renderTo p limit (.ok root) sink).1.bytes = utf8Bytes text := by
  have haccepted := Written.deliverFrom_fault_eq_none_iff sink 0 (e.render p limit root)
  rw [renderTo_result, renderTo_delivery]
  constructor
  · intro hok
    split at hok
    · cases hok
    · cases hok
    · rename_i hnone hend
      have htext := renderText_eq e p limit root
      rw [hend] at htext
      refine ⟨_, htext, ?_⟩
      rw [← bytes_render_eq htext]
      exact haccepted.1 hnone
  · rintro ⟨text, htext, hall⟩
    have hnone : ((e.render p limit root).deliverTo sink).1.fault = none :=
      haccepted.2 (hall.trans (bytes_render_eq htext).symm)
    rw [renderText_eq] at htext
    rw [hnone]
    split at htext
    · rename_i hend
      rw [hend]
    · cases htext

/-- Rendering to a sink fails as rendering to a text does, or by the failure of the sink. -/
lemma fault_renderTo {fault : Fault} (h : (e.renderTo p limit (.ok root) sink).2 = .error fault) :
    e.renderText p limit (.ok root) = .error fault ∨
      ∃ g, (e.renderTo p limit (.ok root) sink).1.fault = some g ∧
        fault = .ofCause (.transfer g) := by
  rw [renderTo_result] at h
  split at h
  · rename_i g hg
    cases h
    rw [renderTo_delivery]
    exact .inr ⟨g, hg, rfl⟩
  · rename_i found _ hfound
    cases h
    refine .inl ?_
    rw [renderText_eq, hfound]
  · cases h

/-- **Rendering to a sink delivers the text, as far as the sink accepts it.** What any sink has
accepted is a first part of what a steady one is given. Rendering to a sink succeeds exactly if
rendering to a text does and every byte of the text was accepted. A call at which the sink fails
or accepts nothing decides how the rendering ends, whatever else would have gone wrong. With a
steady sink, rendering ends as it does without one, and delivers the text.

**Proof sketch.** What was accepted is a first part of the output, and all of it exactly if the
sink did not fail; in that case the rendering ends as the output does. -/
theorem renderTo_delivers (e : Engine) (p : Program) (limit : Option Nat) (root : Value)
    (sink : Sink) :
    (∀ steady : Sink, steady.IsSteady →
      (e.renderTo p limit (.ok root) sink).1.bytes <+:
        (e.renderTo p limit (.ok root) steady).1.bytes) ∧
      ((e.renderTo p limit (.ok root) sink).2 = .ok () ↔
        ∃ text, e.renderText p limit (.ok root) = .ok text ∧
          (e.renderTo p limit (.ok root) sink).1.bytes = utf8Bytes text) ∧
      (∀ n offered fault, (e.render p limit root).IsOffered sink 0 n offered →
        Answer.Ends fault (sink n offered) →
          (e.renderTo p limit (.ok root) sink).2 = .error (.ofCause (.transfer fault))) ∧
      (sink.IsSteady →
        (e.renderTo p limit (.ok root) sink).2 =
          (e.renderText p limit (.ok root)).map (fun _ => ()) ∧
            ∀ text, e.renderText p limit (.ok root) = .ok text →
              (e.renderTo p limit (.ok root) sink).1.bytes = utf8Bytes text) := by
  refine ⟨fun steady hsteady => ?_, renderTo_eq_ok_iff e p limit root sink,
    fun n offered fault hoffered hends => ?_, fun hsteady => ⟨?_, fun text htext => ?_⟩⟩
  · rw [renderTo_delivery, renderTo_delivery, (Written.deliverTo_of_isSteady hsteady _).1]
    exact Written.deliverFrom_bytes_prefix sink 0 _
  · have hfault : ((e.render p limit root).deliverTo sink).1.fault = some fault :=
      hoffered.fault_eq hends
    rw [renderTo_result, hfault]
  · rw [renderTo_result, renderText_eq, (Written.deliverTo_of_isSteady hsteady _).2]
    cases (e.render p limit root).fault <;> rfl
  · rw [renderTo_delivery, (Written.deliverTo_of_isSteady hsteady _).1, bytes_render_eq htext]

end Engine

/-- A sink that accepts three bytes at a time and fails at the third call, in front of an
inclusion that would be too deep. -/
theorem renderTo_delivers_on_failure :
    ∃ (p : Program) (sink steady : Sink) (fault : TransferFault), steady.IsSteady ∧
      Engine.empty.renderText p (some 0) (.ok .none) =
        .error (.ofCause (.run (.cursor (.tooDeep 0 "p")))) ∧
      (Engine.empty.renderTo p (some 0) (.ok .none) sink).1.bytes = utf8Bytes "abcdef" ∧
      (Engine.empty.renderTo p (some 0) (.ok .none) sink).1.bytes <+:
        (Engine.empty.renderTo p (some 0) (.ok .none) steady).1.bytes ∧
      (Engine.empty.renderTo p (some 0) (.ok .none) sink).2 =
        .error (.ofCause (.transfer fault)) ∧
      (Engine.empty.renderTo p (some 0) (.ok .none) steady).2 =
        .error (.ofCause (.run (.cursor (.tooDeep 0 "p")))) := by
  let p : Program := ⟨"", ⟨#[.text "abcdefg", .enter "p" ""], by decide⟩, .empty⟩
  let fault : TransferFault := .reported .other "broken pipe"
  let sink : Sink := .limited (some 3) (some 2) (.fail fault)
  let steady : Sink := .limited none none (.fail fault)
  have hsteady : steady.IsSteady := by
    intro calls bytes hne
    exact ⟨bytes.length - 1, by
      rw [Nat.sub_add_cancel (List.length_pos_iff.2 hne)]
      rfl⟩
  have htext : Engine.empty.renderText p (some 0) (.ok .none) =
      .error (.ofCause (.run (.cursor (.tooDeep 0 "p")))) := by rfl
  have hoffered : (Engine.empty.render p (some 0) .none).IsOffered sink 0 2 (utf8Bytes "g") :=
    .here (.later nofun rfl (.later nofun rfl (.first nofun)))
  obtain ⟨hpart, -, hfails, -⟩ := Engine.empty.renderTo_delivers p (some 0) .none sink
  obtain ⟨-, -, -, hends⟩ := Engine.empty.renderTo_delivers p (some 0) .none steady
  refine ⟨p, sink, steady, fault, hsteady, htext, ?_, hpart steady hsteady,
    hfails 2 _ fault hoffered rfl, ?_⟩
  · decide +kernel
  · rw [(hends hsteady).1, htext]
    rfl

end Stencil
