import Stencil.Render.Output
import Stencil.Transfer

/-!
# Sinks

A sink takes the bytes of the output. A call offers it some bytes, of which it accepts a
part or all; the rest is offered again. A sink that accepts nothing, or fails, ends the
rendering: no more of the output is made.

## Main definitions

* `Sink` — the answers of a sink, call by call.
* `Sink.deliver` — hands over the bytes of one text.
* `Delivery` — what the sink has accepted, and how it ended.
* `Sink.limited` — a sink that accepts a limited number of bytes and of calls.
* `Written.deliverTo` — hands over the output of a rendering.
-/

namespace Stencil

/-- The answer of a sink to a call. -/
inductive Answer where
  /-- At most that many bytes are accepted, never more than were offered. -/
  | accept (count : Nat)
  | fail (fault : TransferFault)

/-- The answers of a sink, given the number of calls that were successful so far and the
bytes that are offered. A call that was merely interrupted is made again and not answered. -/
abbrev Sink := Nat → List UInt8 → Answer

/-- What a sink has accepted, in how many calls, and the failure that ended it. -/
structure Delivery where
  bytes : List UInt8
  calls : Nat
  fault : Option TransferFault

namespace Sink

/-- Hands over bytes until all are accepted or the sink fails, and returns those that were
accepted, the number of successful calls, and the failure. A call that accepts nothing is
successful and yet the last. -/
def deliver (sink : Sink) (calls : Nat) (bytes : List UInt8) : Delivery :=
  if _h : bytes = [] then ⟨[], calls, none⟩
  else
    match sink calls bytes with
    | .fail fault => ⟨[], calls, some fault⟩
    | .accept 0 => ⟨[], calls + 1, some .nothingAccepted⟩
    | .accept (count + 1) =>
      let rest := deliver sink (calls + 1) (bytes.drop (count + 1))
      ⟨bytes.take (count + 1) ++ rest.bytes, rest.calls, rest.fault⟩
termination_by bytes.length
decreasing_by
  have := List.length_pos_iff.2 ‹bytes ≠ []›
  simp only [List.length_drop]
  omega

/-- A sink that accepts at most `chunk` bytes in a call, if that is set, and answers every
call after the first `calls` in a way of its own, if that is set. -/
def limited (chunk calls : Option Nat) (after : Answer) : Sink := fun done offered =>
  match calls with
  | some n => if n ≤ done then after else .accept (chunk.getD offered.length)
  | none => .accept (chunk.getD offered.length)

end Sink

/-- The bytes of a text in UTF-8. -/
def utf8Bytes (s : String) : List UInt8 :=
  s.toUTF8.data.toList

/-- The ways in which writing to a sink fails. -/
inductive SinkFault where
  | sink (fault : TransferFault)
  | render (fault : RenderFault)
  deriving DecidableEq

/-- The fault with which writing to a sink failed. -/
def SinkFault.toFault : SinkFault → Fault
  | sink fault => .ofCause (.transfer fault)
  | render fault => fault.toFault

namespace Written

/-- Hands the output over to a sink that has answered `calls` calls, as far as it accepts it.
To the rendering a sink that fails is a text that cannot be written, and it makes no more of
the output then; the failure itself stays with the delivery. -/
def deliverFrom (sink : Sink) (calls : Nat) : Written → Delivery × Option RenderFault
  | ended fault => (⟨[], calls, none⟩, fault)
  | piece content rest =>
    let first := sink.deliver calls (utf8Bytes content)
    match first.fault with
    | some _ => (first, some (.format (.ofCause .unformattable)))
    | none =>
      let (later, outcome) := (rest ()).deliverFrom sink first.calls
      (⟨first.bytes ++ later.bytes, later.calls, later.fault⟩, outcome)

/-- Hands the output over to a sink. The failure that stayed with the delivery is reported in
place of the one with which the rendering ended. -/
def deliverTo (w : Written) (sink : Sink) : Delivery × Option SinkFault :=
  let (delivery, outcome) := w.deliverFrom sink 0
  (delivery,
    outcome.map fun fault =>
      match delivery.fault with
      | some failure => .sink failure
      | none => .render fault)

end Written

end Stencil
