/-
What can be wrong with a request, and its wording.

A request may name a kind of block that there is not, or hold an edit that is
none.  Each of these has a text of its own.  Where they come together, as a
`Fault`, an edit is announced as one, and the name of a kind is complained of as
it stands.

A conversation refuses an event for one of the reasons that are a `Rejection`.
-/

namespace Parley

namespace Block

/-- A text that names no kind. -/
structure UnknownKind where
  text : String
deriving DecidableEq

def UnknownKind.message (e : UnknownKind) : String := "Unknown block type: " ++ e.text

/-- Why a value is no patch. -/
inductive PatchError where
  | notAnObject (found : String)
  | malformed
deriving DecidableEq

def PatchError.message : PatchError → String
  | .notAnObject found => "Block data patch must be a JSON object, got " ++ found
  | .malformed => "Invalid block data patch"

end Block

inductive Fault where
  | edit (e : Block.PatchError)
  | kind (e : Block.UnknownKind)
deriving DecidableEq

def Fault.message : Fault → String
  | .edit e => "Invalid block edit: " ++ e.message
  | .kind e => e.message

namespace Conversation

/-- Why a conversation does not take an event. -/
inductive Rejection where
  | alreadyStarted
  | sessionEnded
  | notAwaitingText
  | notAwaitingButton
  | unknownOption (id : String)
  | staleAdvance (ticket : UInt64)
deriving DecidableEq

def Rejection.message : Rejection → String
  | .alreadyStarted => "Session already started"
  | .sessionEnded => "Session has ended"
  | .notAwaitingText => "Not waiting for a text reply"
  | .notAwaitingButton => "Not waiting for a button choice"
  | .unknownOption id => "Unknown option: " ++ id
  | .staleAdvance ticket => "Stale advance ticket " ++ toString ticket.toNat

end Conversation

end Parley
