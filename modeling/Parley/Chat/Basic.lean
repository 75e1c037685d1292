/-
Chatting on a terminal.

A chat prints what a session tells and turns typed lines into replies.  It
remembers the options last put on offer.  While there are any, a line picks one
of them by its number or by its label; otherwise a line is a reply as it stands.
Blanks around a line do not matter, and a blank line is no reply.

A line that is a number picks by number only, so an option whose label is a
number is reached under that label only if it stands in that place.
-/
import Parley.Conversation.State

namespace Parley

open Conversation

/-- The trimmed reply, unless the line is blank. -/
def replyText? (line : String) : Option String :=
  let text := Text.trim line
  if text = "" then none else some text

/-- The id of the option with this number, counted from one. -/
def numbered? (choices : List Choice) (n : Nat) : Option String :=
  if n = 0 then none else (choices[n - 1]?).map (·.id)

/-- The id of the first option with this label, up to the case of ASCII letters. -/
def labelled? (choices : List Choice) (text : String) : Option String :=
  (choices.find? fun c => Text.sameFolded c.label text).map (·.id)

/-- The id of the option that a reply names. -/
def pickChoice? (choices : List Choice) (text : String) : Option String :=
  match Text.unsigned? text with
  | some n => numbered? choices n
  | none => labelled? choices text

structure Chat where
  /-- The options last put on offer. -/
  choices : List Choice
  printed : String
  /-- The end of the conversation was printed. -/
  done : Bool

namespace Chat

def start : Chat := ⟨[], "", false⟩

def print (c : Chat) (text : String) : Chat := { c with printed := c.printed ++ text }

/-- One numbered line for each option. -/
def choiceLines (choices : List Choice) : String :=
  String.join (choices.mapIdx fun i c => "     [" ++ toString (i + 1) ++ "] " ++ c.label ++ "\n")

/-- What is printed of a line of the transcript; what the user said is not. -/
def entryLines : Entry → String
  | .bot text => "bot> " ++ text ++ "\n"
  | .user _ => ""
  | .prompt text choices => "bot> " ++ text ++ "\n" ++ choiceLines choices

/-- The options that an input offers. -/
def offered : Input → List Choice
  | .text => []
  | .button choices => choices

/-- The session tells something. -/
def hear (c : Chat) : Notice → Chat
  | .message entry => c.print (entryLines entry)
  | .resolved .. => c
  | .awaiting input => { c with choices := offered input }.print "you> "
  | .ended => { c with done := true }.print "-- conversation ended --\n"

/-- The event that a reply is; `none` when it names no option on offer. -/
def request (c : Chat) (text : String) : Option Event :=
  if c.choices.isEmpty then some (.submit text) else (pickChoice? c.choices text).map .select

/-- The reply was taken or not. -/
def answered (c : Chat) (taken : Bool) : Chat :=
  if taken then { c with choices := [] } else c.print "(not expecting that right now)\n"

end Chat

end Parley
