/-
Timers.

A timer is set for a time, may be cancelled before it, and otherwise hands over
what it carries when the time has come.  Whoever sets it gets a handle to cancel
it by.  All timers can be cancelled at once, and then no timer set later will
run either.

Time is a clock of whole milliseconds that moves only by `moveTo`; timers that
are due stay waiting until they are taken.  No delay is longer than thirty years: a
longer one counts as that.
-/

namespace Parley

structure Timer (α : Type) where
  handle : Nat
  due : Nat
  load : α

structure Timers (α : Type) where
  now : Nat
  /-- The handle of the next timer. -/
  nextHandle : Nat
  /-- The timers that were neither taken nor cancelled, in the order they were set. -/
  waiting : List (Timer α)
  /-- The handles that were cancelled one by one. -/
  cancelled : List Nat
  /-- All were cancelled at once. -/
  closed : Bool

namespace Timers

variable {α : Type}

def start : Timers α := ⟨0, 0, [], [], false⟩

/-- Thirty years of 365 days, in milliseconds. -/
def longest : Nat := 946080000000

/-- The time after a delay. -/
def after (t : Timers α) (delay : Nat) : Nat := t.now + min delay longest

/-- Sets a timer. -/
def set (t : Timers α) (delay : Nat) (load : α) : Timers α :=
  { t with
    nextHandle := t.nextHandle + 1
    waiting := if t.closed then t.waiting else t.waiting ++ [⟨t.nextHandle, t.after delay, load⟩] }

def cancel (t : Timers α) (handle : Nat) : Timers α :=
  { t with
    waiting := t.waiting.filter (·.handle != handle)
    cancelled := handle :: t.cancelled }

def cancelAll (t : Timers α) : Timers α := { t with waiting := [], closed := true }

/-- Whether a timer was cancelled, be it after it ran. -/
def isCancelled (t : Timers α) (handle : Nat) : Bool := t.closed || t.cancelled.contains handle

/-- What a waiting timer carries. -/
def load? (t : Timers α) (handle : Nat) : Option α :=
  (t.waiting.find? (·.handle == handle)).map (·.load)

/-- A timer that ran. -/
def remove (t : Timers α) (handle : Nat) : Timers α :=
  { t with waiting := t.waiting.filter (·.handle != handle) }

/-- The waiting timers whose time has come. -/
def ripe (t : Timers α) : List (Timer α) := t.waiting.filter (·.due ≤ t.now)

/-- When the next waiting timer is due. -/
def nextDue? (t : Timers α) : Option Nat := (t.waiting.map (·.due)).min?

def moveTo (t : Timers α) (now : Nat) : Timers α := { t with now }

end Timers

end Parley
