/-
A chat with lines typed one after the other.

Each line is typed when the session waits for the user, or right after the line
before it when that was blank or not expected.  The chat is over when the
conversation has ended or no lines are left.
-/
import Parley.Chat.Basic
import Parley.Session.Clock

namespace Parley.Chat

open Conversation

/-- A chat and the session it belongs to.  `heard` is how many notices of the
session the chat has printed. -/
structure Room where
  session : Session
  chat : Chat
  heard : Nat

namespace Room

def start (script : Script) : Room := ⟨.start script, .start, 0⟩

/-- The chat prints what the session has told since it last did. -/
def listen (r : Room) : Room :=
  { r with
    chat := (r.session.notices.drop r.heard).foldl hear r.chat
    heard := r.session.notices.length }

/-- Lets the session go from timer to timer until none is set, passing at most
`stops` of them. -/
def rest : Nat → Session → Session
  | 0, s => s
  | stops + 1, s =>
    match s.timers.nextDue? with
    | some due => rest stops (s.moveTo due).settle
    | none => s

/-- Lets the session go on until it waits for the user or has ended. -/
def goOn (r : Room) : Room :=
  { r with session := rest (r.session.script.flow.size + 1) r.session.settle }.listen

/-- A line is typed and answered; nothing that follows from it is printed yet. -/
def reply (r : Room) (line : String) : Room :=
  match replyText? line with
  | none => r
  | some text =>
    match r.chat.request text with
    | none => { r with chat := r.chat.answered false }
    | some e =>
      let (session, taken) := r.session.ask e
      { r with session, chat := r.chat.answered taken }

/-- A line is typed, and the session goes on. -/
def type (r : Room) (line : String) : Room := (r.reply line).goOn

/-- Time passes, and what is told meanwhile is printed. -/
def elapse (r : Room) (ms : Nat) : Room := { r with session := r.session.sleep ms }.listen

/-- Lines are typed until the conversation has ended. -/
def typeAll (r : Room) (lines : List String) : Room :=
  lines.foldl (fun r line => if r.chat.done then r else r.type line) r

end Room

/-- All that is printed while lines are typed into a new session. -/
def transcript (script : Script) (lines : List String) : String :=
  ((Room.start script).goOn.typeAll lines).chat.printed

end Parley.Chat
