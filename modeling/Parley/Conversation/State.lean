/-
Conversations, seen from outside and inside.

`State` is where a conversation stands: its mode, the block it is at, the
transcript, the variables, and the advance that is scheduled, if one is.
Advances are numbered by tickets of sixty-four bits; a ticket says which advance
a timer was set for.

`Event` is what can happen to a conversation, `Effect` what a conversation does
about it, and `Notice` what its observers are told.
-/
import Parley.Config
import Parley.Flow

namespace Parley.Conversation

inductive Mode where
  | idle
  | running
  | awaitingText
  | awaitingButton
  | ended
deriving DecidableEq

namespace Mode

def all : List Mode := [.idle, .running, .awaitingText, .awaitingButton, .ended]

def name : Mode → String
  | .idle => "idle"
  | .running => "running"
  | .awaitingText => "awaiting_text"
  | .awaitingButton => "awaiting_button"
  | .ended => "ended"

def ofName? (s : String) : Option Mode := all.find? (·.name == s)

/-- The conversation waits for the user. -/
def isAwaiting : Mode → Bool
  | .awaitingText | .awaitingButton => true
  | _ => false

end Mode

/-- One line of a transcript. -/
inductive Entry where
  | bot (text : String)
  | user (text : String)
  /-- A question of the bot whose options are still open. -/
  | prompt (text : String) (choices : List Choice)
deriving DecidableEq

namespace Entry

def text : Entry → String
  | .bot t | .user t | .prompt t _ => t

def isUser : Entry → Bool
  | .user _ => true
  | _ => false

def isPrompt : Entry → Bool
  | .prompt .. => true
  | _ => false

end Entry

/-- An advance that is scheduled: to a block, or to the end, carrying the reply
that led there. -/
structure Pending where
  ticket : UInt64
  target : Option String
  carry : Option String
deriving DecidableEq

structure State where
  mode : Mode
  /-- The block the conversation is at. -/
  current : Option String
  transcript : List Entry
  bindings : Table String
  pending : Option Pending
  nextTicket : UInt64
deriving DecidableEq

namespace State

/-- Before the start. -/
def initial : State := ⟨.idle, none, [], .empty, none, 0⟩

def isEnded (s : State) : Bool := s.mode == .ended

def userEntries (s : State) : Nat := s.transcript.countP Entry.isUser

end State

inductive Event where
  | start
  | submit (text : String)
  | select (option : String)
  /-- The advance with this ticket is due. -/
  | advance (ticket : UInt64)
deriving DecidableEq

/-- What a conversation waits for. -/
inductive Input where
  | text
  | button (choices : List Choice)
deriving DecidableEq

inductive Notice where
  | message (entry : Entry)
  /-- The open prompt was answered and is plain text from now on. -/
  | resolved (prompt reply : String)
  | awaiting (input : Input)
  | ended
deriving DecidableEq

inductive Effect where
  | notify (n : Notice)
  /-- After the delay the advance with this ticket is due. -/
  | schedule (delay : Nat) (ticket : UInt64)
deriving DecidableEq

/-- What a conversation goes by. -/
structure Script where
  flow : Flow
  pace : Pace

end Parley.Conversation
