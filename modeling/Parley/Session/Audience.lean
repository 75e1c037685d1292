/-
Who listens to a session.

Every listener has a mailbox for the newest notices.  The first is there from
the start, so whoever takes it misses nothing; those who join later hear what is
said from then on.

A mailbox holds what arrived and was not collected yet, oldest first, but never
more than its capacity: a further arrival pushes the oldest out, and the mailbox
counts what it lost that way.
-/
import Parley.Conversation.State

namespace Parley

/-! ## Mailboxes -/

structure Mailbox (α : Type) where
  capacity : Nat
  lost : Nat
  letters : List α

namespace Mailbox

variable {α : Type}

def empty (capacity : Nat) : Mailbox α := ⟨capacity, 0, []⟩

/-- One arrival. -/
def push (m : Mailbox α) (a : α) : Mailbox α :=
  let letters := m.letters ++ [a]
  if letters.length ≤ m.capacity then { m with letters }
  else { m with letters := letters.drop 1, lost := m.lost + 1 }

def pushAll (m : Mailbox α) (as : List α) : Mailbox α := as.foldl push m

/-- Takes everything out. -/
def collect (m : Mailbox α) : Mailbox α := { m with lost := 0, letters := [] }

/-- Every arrival is in the mailbox or counted as lost. -/
theorem lost_add_length_push (m : Mailbox α) (a : α) :
    (m.push a).lost + (m.push a).letters.length = m.lost + m.letters.length + 1 := by
  unfold push
  dsimp only
  split <;> simp <;> omega

theorem length_push_le {m : Mailbox α} (h : m.letters.length ≤ m.capacity) (a : α) :
    (m.push a).letters.length ≤ (m.push a).capacity := by
  unfold push
  dsimp only
  split
  · assumption
  · simpa using h

end Mailbox

/-! ## Listeners -/

namespace Session

open Conversation

structure Audience where
  /-- The mailbox from the start, until it is taken. -/
  first : Option (Mailbox Notice)
  listeners : List (Mailbox Notice)

namespace Audience

/-- How many notices a listener may leave uncollected. -/
def capacity : Nat := 256

def start : Audience := ⟨some (.empty capacity), []⟩

/-- A listener from now on. -/
def join (a : Audience) : Audience := { a with listeners := a.listeners ++ [.empty capacity] }

/-- A listener from the start; once that mailbox is taken, from now on. -/
def replay (a : Audience) : Audience :=
  match a.first with
  | some m => ⟨none, a.listeners ++ [m]⟩
  | none => a.join

/-- Everybody hears some notices. -/
def hear (a : Audience) (ns : List Notice) : Audience :=
  ⟨a.first.map (·.pushAll ns), a.listeners.map (·.pushAll ns)⟩

/-- All listeners have collected what they had. -/
def collect (a : Audience) : Audience := { a with listeners := a.listeners.map (·.collect) }

end Audience

end Session

end Parley
