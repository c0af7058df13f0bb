import Stencil.Render.Cursor
import Stencil.Render.Scopes

/-!
# Traces

What a rendering does, before anything is formatted or written: the texts and values to be
written, and which sections ran. It ends either because the program does or by a fault. A
trace is made on demand, event by event, so whoever stops reading it stops the rendering.

## Main definitions

* `Event` — one thing that a rendering does.
* `Trace` — the events in order, and the fault at the end if there is one.
* `Trace.events`, `Trace.fault` — all of the events, and the fault.
-/

namespace Stencil

/-- One thing that a rendering does. Texts and values come with the indentation of the
template they stand in. -/
inductive Event where
  | text (indent content : String)
  | value (indent : String) (escaped : Bool) (value : Option Value)
  /-- A section was met; says whether it runs. -/
  | opened (inverted : Bool) (path : Path) (runs : Bool)
  /-- A run of a section ended; says whether another follows. -/
  | closed (path : Path) (again : Bool)

/-- The ways in which a rendering fails before anything is formatted. -/
inductive RunFault where
  | cursor (fault : CursorFault)
  | scope (fault : ScopeFault)
  /-- The walk yielded the inclusion of a template. -/
  | yieldedInclusion (name : String)
  deriving DecidableEq

/-- The events of a rendering, each with what comes after it, and the fault that ended the
rendering if there is one. -/
inductive Trace where
  | ended (fault : Option RunFault)
  | event (e : Event) (rest : Unit → Trace)

namespace Trace

instance : Inhabited Trace := ⟨.ended none⟩

/-- All events of a trace, in order. -/
def events : Trace → List Event
  | ended _ => []
  | event e rest => e :: (rest ()).events

/-- The fault at the end of a trace, if there is one. -/
def fault : Trace → Option RunFault
  | ended fault => fault
  | event _ rest => (rest ()).fault

end Trace

end Stencil
