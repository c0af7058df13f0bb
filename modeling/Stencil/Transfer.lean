/-!
# Failures of reading and writing

Templates may be read from, and output written to, places outside of the program, where
things can fail in ways that the program only passes on.

## Main definitions

* `TransferKind`, `TransferFault` — such a failure.
* `TransferFault.reason` — its text.
-/

namespace Stencil

/-- The kind of a failure of which someone else tells. -/
inductive TransferKind where
  | notFound
  | permissionDenied
  | invalidData
  | other
  deriving DecidableEq

/-- A failure of reading or writing. -/
inductive TransferFault where
  /-- The other side failed. -/
  | reported (kind : TransferKind) (reason : String)
  /-- The bytes that were read are no text. -/
  | invalidText
  /-- The other side accepted nothing of what was written. -/
  | nothingAccepted
  deriving DecidableEq

namespace TransferFault

/-- The text of a failure. -/
def reason : TransferFault → String
  | reported _ reason => reason
  | invalidText => "stream did not contain valid UTF-8"
  | nothingAccepted => "failed to write whole buffer"

/-- Whether something was looked for and does not exist. -/
def isNotFound : TransferFault → Bool
  | reported .notFound _ => true
  | _ => false

end TransferFault

end Stencil
