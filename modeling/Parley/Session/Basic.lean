/-
Sessions: a conversation with timers and callers around it.

A session takes one thing at a time.  Replies of the user are calls, which wait
in a queue until the session takes them and are answered with whether the
conversation took the reply.  An advance that the conversation schedules sets a
timer, and a timer whose time has come puts its ticket into a second queue.  A
session holds one timer at most: setting another cancels it, and so does an
event after which no advance is scheduled.

`turn` is one round of the session.  The first round starts the conversation.
After that a session that was stopped closes; otherwise the tickets go before the
calls.  When the conversation has ended or the session is stopped the session is
closed: the calls still in the queue are answered with no.

Nothing here depends on when a timer runs: `deliver` is a timer that does, at
whatever time.
-/
import Parley.Conversation.React
import Parley.Timers

namespace Parley

open Conversation

/-- A reply of the user on its way, under its number. -/
structure Call where
  number : Nat
  event : Event
deriving DecidableEq

namespace Session

inductive Phase where
  /-- The conversation was not started yet. -/
  | fresh
  | running
  | closed
deriving DecidableEq

end Session

structure Session where
  script : Script
  state : State
  phase : Session.Phase
  timers : Timers UInt64
  /-- The timer the session holds. -/
  held : Option Nat
  /-- The tickets of timers that ran, oldest first. -/
  due : List UInt64
  /-- The calls not taken yet, oldest first. -/
  calls : List Call
  /-- The number of the next call. -/
  nextCall : Nat
  /-- The answers given, newest first. -/
  answers : List (Nat × Bool)
  /-- The session was told to stop. -/
  stopped : Bool
  /-- What observers were told, oldest first. -/
  notices : List Notice

namespace Session

def start (script : Script) : Session where
  script
  state := .initial
  phase := .fresh
  timers := .start
  held := none
  due := []
  calls := []
  nextCall := 0
  answers := []
  stopped := false
  notices := []

/-- Cancels the timer that is held. -/
def letGo (s : Session) : Session :=
  match s.held with
  | some handle => { s with timers := s.timers.cancel handle, held := none }
  | none => s

/-- Holds a new timer instead of the old one. -/
def arm (s : Session) (delay : Nat) (ticket : UInt64) : Session :=
  let s := s.letGo
  { s with timers := s.timers.set delay ticket, held := some s.timers.nextHandle }

def execute (s : Session) : Effect → Session
  | .notify n => { s with notices := s.notices ++ [n] }
  | .schedule delay ticket => s.arm delay ticket

/-- The outcome of an event that the conversation took. -/
def adopt (s : Session) (o : Outcome) : Session :=
  let s := o.effects.foldl execute { s with state := o.state }
  if s.state.pending.isNone then s.letGo else s

/-- Gives the conversation an event; says whether it took it. -/
def process (s : Session) (e : Event) : Session × Bool :=
  match react s.script s.state e with
  | .ok o => (s.adopt o, true)
  | .error _ => (s, false)

/-- Closes; calls not taken are answered with no. -/
def close (s : Session) : Session :=
  let s := s.letGo
  { s with
    phase := .closed
    calls := []
    answers := (s.calls.map fun c => (c.number, false)).reverse ++ s.answers }

/-- Closes if the conversation has ended. -/
def closeIfEnded (s : Session) : Session := if s.state.isEnded then s.close else s

/-- Takes a call. -/
def take (s : Session) (c : Call) : Session :=
  let (s, taken) := s.process c.event
  { s with answers := (c.number, taken) :: s.answers }

/-- What a running session does in one round. -/
def serve (s : Session) : Session :=
  if s.stopped then s.close
  else match s.due, s.calls with
    | ticket :: due, _ => ({ s with due }.process (.advance ticket)).1.closeIfEnded
    | [], c :: calls => ({ s with calls }.take c).closeIfEnded
    | [], [] => s

/-- One round. -/
def turn (s : Session) : Session :=
  match s.phase with
  | .fresh => ({ s with phase := .running }.process .start).1.closeIfEnded
  | .running => s.serve
  | .closed => s

/-- Whether a round would do anything. -/
def hasWork (s : Session) : Bool :=
  match s.phase with
  | .fresh => true
  | .running => s.stopped || !s.due.isEmpty || !s.calls.isEmpty
  | .closed => false

/-- A waiting timer runs. -/
def deliver (s : Session) (handle : Nat) : Session :=
  match s.timers.load? handle with
  | some ticket => { s with timers := s.timers.remove handle, due := s.due ++ [ticket] }
  | none => s

/-- A reply of the user.  A closed session answers at once, with no. -/
def call (s : Session) (e : Event) : Session :=
  let s := { s with nextCall := s.nextCall + 1 }
  let number := s.nextCall - 1
  match s.phase with
  | .closed => { s with answers := (number, false) :: s.answers }
  | _ => { s with calls := s.calls ++ [⟨number, e⟩] }

/-- Tells the session to stop; no timer will run any more. -/
def stop (s : Session) : Session := { s with stopped := true, timers := s.timers.cancelAll }

/-- The answer to a call. -/
def answer? (s : Session) (number : Nat) : Option Bool :=
  (s.answers.find? (·.1 == number)).map (·.2)

end Session

end Parley
