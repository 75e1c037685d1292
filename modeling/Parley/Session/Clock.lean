/-
Sessions by the clock.

A session is settled when it has nothing left to do at the present time: no
round to make and no timer due.  Time passes from one timer to the next, the
session settling at each.  A sleep is as long as a timer's delay can be at most;
a wait may be longer, since it ends by itself when what it waits for comes.

A settled session meets at most one stop of its conversation for each step of
the flow unless the conversation goes in a circle without a pause, so the rounds
that `settle` allows are enough for every other.
-/
import Parley.Session.Basic

namespace Parley.Session

open Conversation

/-- All timers run that are due. -/
def deliverRipe (s : Session) : Session :=
  s.timers.ripe.foldl (fun s t => s.deliver t.handle) s

/-- Does what is to be done at the present time, in at most `rounds` rounds. -/
def settleWithin : Nat → Session → Session
  | 0, s => s
  | rounds + 1, s =>
    if s.hasWork then settleWithin rounds s.turn
    else if s.timers.ripe.isEmpty then s
    else settleWithin rounds s.deliverRipe

/-- Rounds enough for a conversation that does not go in a circle. -/
def rounds (s : Session) : Nat := 2 * s.script.flow.size + s.calls.length + s.due.length + 8

/-- Does what is to be done at the present time. -/
def settle (s : Session) : Session := settleWithin s.rounds s

/-- The clock moves, with nothing happening. -/
def moveTo (s : Session) (now : Nat) : Session := { s with timers := s.timers.moveTo now }

/-- The clock moves to `goal`, or stops before it where `enough` holds. -/
def passTime (enough : Session → Bool) (goal : Nat) : Nat → Session → Session
  | 0, s => s
  | steps + 1, s =>
    if enough s then s
    else match s.timers.nextDue?.filter (· < goal) with
      | some due => passTime enough goal steps (s.moveTo due).settle
      | none => s.moveTo goal

/-- The clock moves on, and everything that is due by then is done. -/
def sleep (s : Session) (ms : Nat) : Session :=
  let s := s.settle
  (passTime (fun _ => false) (s.timers.after ms) (ms + 1) s).settle

/-- Makes a call and settles; says how it was answered. -/
def ask (s : Session) (e : Event) : Session × Bool :=
  let number := s.nextCall
  let s := (s.call e).settle
  (s, (s.answer? number).getD false)

/-- What waiting for a mode comes to. -/
inductive Waited where
  | reached (mode : Mode)
  /-- The session closed in another mode. -/
  | missed
  | timedOut
deriving DecidableEq

/-- Whether waiting for a mode is over before time. -/
def waitOver (mode : Mode) (s : Session) : Bool := s.state.mode == mode || s.phase == .closed

/-- How a wait ended. -/
def waited (mode : Mode) (s : Session) : Waited :=
  if s.state.mode = mode then .reached mode
  else if s.phase = .closed then .missed
  else .timedOut

/-- Waits for a mode, but not longer than `timeout`, whatever its length.  Only
settled states are looked at, after the one that the session is in. -/
def awaitMode (s : Session) (mode : Mode) (timeout : Nat) : Session × Waited :=
  if waitOver mode s || timeout == 0 then (s.settle, waited mode s)
  else
    let s := s.settle
    let s := passTime (waitOver mode) (s.timers.now + timeout) (timeout + 1) s
    (s.settle, waited mode s)

end Parley.Session
