/-
# Rounds of a session

In a round a session gives its conversation one item, if there is one: the start, the
ticket that has waited longest, or the call that has (`item?`).  So a round comes to
one of four things, and `turned_turn` says that there is nothing else:

    idle       there is no item                    nothing happens
    closes     the session runs and was stopped    it is closed
    takes      the conversation takes the item     the outcome is adopted, a call answered with yes
    refuses    it does not                         a call is answered with no

after the last two of which the session is closed if the conversation has ended.

Whatever is done about timers leaves all else alone (`adopt_eq`, `close_eq`).  What an
outcome does to the timers matters only where none is waiting: then the timers that
wait after it are those of the tickets that it schedules (`waiting_adopt`).
-/
import Parley.Proofs.Conversation.Tickets
import Parley.Session.Basic

namespace Parley.Session

open Conversation

/-- What a round gives to the conversation. -/
inductive Item where
  | start
  | ticket (ticket : UInt64)
  | call (call : Call)
deriving DecidableEq

namespace Item

def event : Item → Event
  | .start => .start
  | .ticket t => .advance t
  | .call c => c.event

def call? : Item → Option Call
  | .call c => some c
  | .start | .ticket _ => none

end Item

/-- The item of the next round. -/
def item? (s : Session) : Option Item :=
  match s.phase with
  | .fresh => some .start
  | .running =>
    if s.stopped then none
    else match s.due, s.calls with
      | t :: _, _ => some (.ticket t)
      | [], c :: _ => some (.call c)
      | [], [] => none
  | .closed => none

/-- The item leaves the queue that it waited in. -/
def withdraw (s : Session) : Item → Session
  | .start => { s with phase := .running }
  | .ticket _ => { s with due := s.due.tail }
  | .call _ => { s with calls := s.calls.tail }

/-- The answer to the caller, if the item came from one. -/
def respond (s : Session) (item : Item) (taken : Bool) : Session :=
  match item with
  | .call c => { s with answers := (c.number, taken) :: s.answers }
  | .start | .ticket _ => s

section Fields

variable (s : Session) (item : Item) (taken : Bool)

@[simp]
theorem script_withdraw : (s.withdraw item).script = s.script := by cases item <;> rfl

@[simp]
theorem state_withdraw : (s.withdraw item).state = s.state := by cases item <;> rfl

@[simp]
theorem timers_withdraw : (s.withdraw item).timers = s.timers := by cases item <;> rfl

@[simp]
theorem stopped_withdraw : (s.withdraw item).stopped = s.stopped := by cases item <;> rfl

@[simp]
theorem script_respond : (s.respond item taken).script = s.script := by cases item <;> rfl

@[simp]
theorem state_respond : (s.respond item taken).state = s.state := by cases item <;> rfl

@[simp]
theorem phase_respond : (s.respond item taken).phase = s.phase := by cases item <;> rfl

@[simp]
theorem timers_respond : (s.respond item taken).timers = s.timers := by cases item <;> rfl

@[simp]
theorem due_respond : (s.respond item taken).due = s.due := by cases item <;> rfl

@[simp]
theorem calls_respond : (s.respond item taken).calls = s.calls := by cases item <;> rfl

@[simp]
theorem stopped_respond : (s.respond item taken).stopped = s.stopped := by cases item <;> rfl

end Fields

/-- The item of the next round, if the conversation takes it. -/
def taken? (s : Session) : Option Item :=
  s.item?.filter fun item => (react s.script s.state item.event).isOk

/-- When an item is the next one. -/
inductive Offers (s : Session) : Item → Prop
  | start : s.phase = .fresh → Offers s .start
  | ticket {t : UInt64} {due : List UInt64} : s.phase = .running → s.stopped = false →
      s.due = t :: due → Offers s (.ticket t)
  | call {c : Call} {calls : List Call} : s.phase = .running → s.stopped = false →
      s.due = [] → s.calls = c :: calls → Offers s (.call c)

/-- What a round of `s` can come to, and the item that is taken in it. -/
inductive Turned (s : Session) : Option Item → Session → Prop
  | idle : s.item? = none → Turned s none s
  | closes : s.phase = .running → s.stopped → Turned s none s.close
  | takes {item : Item} {o : Outcome} : Offers s item → Taken s.script s.state item.event o →
      Turned s (some item) (((s.withdraw item).adopt o).respond item true).closeIfEnded
  | refuses {item : Item} : Offers s item → (∀ o, ¬ Taken s.script s.state item.event o) →
      Turned s none ((s.withdraw item).respond item false).closeIfEnded

variable {s : Session}

/-! ## What a round comes to

A session takes its items from three places, and what it does with one does not depend on the
place it is from, but for the answer that a call is owed.  So the cases are those of the
item, not of the place. -/

theorem item?_eq_some_iff {item : Item} : s.item? = some item ↔ Offers s item := by
  constructor
  · intro h
    unfold item? at h
    split at h
    · rename_i hphase
      cases h
      exact .start hphase
    · rename_i hphase
      split at h
      · cases h
      · rename_i hgoing
        have hstopped : s.stopped = false := Bool.eq_false_iff.mpr hgoing
        split at h
        · rename_i hdue
          cases h
          exact .ticket hphase hstopped hdue
        · rename_i hdue hcalls
          cases h
          exact .call hphase hstopped hdue hcalls
        · cases h
    · cases h
  · intro h
    cases h with
    | start hphase => simp [item?, hphase]
    | ticket hphase hstopped hdue => simp [item?, hphase, hstopped, hdue]
    | call hphase hstopped hdue hcalls => simp [item?, hphase, hstopped, hdue, hcalls]

theorem taken?_eq_some_iff {item : Item} :
    s.taken? = some item ↔ Offers s item ∧ ∃ o, Taken s.script s.state item.event o := by
  have hok : (react s.script s.state item.event).isOk ↔
      ∃ o, Taken s.script s.state item.event o := by
    simp only [← react_eq_ok_iff]
    cases react s.script s.state item.event with
    | ok o => exact ⟨fun _ => ⟨o, rfl⟩, fun _ => rfl⟩
    | error r => exact ⟨nofun, nofun⟩
  rw [taken?, Option.filter_eq_some_iff, item?_eq_some_iff, hok]

/-- Whether an item is taken does not depend on the queue that it waited in. -/
theorem turned_of_item (item : Item) (hitem : s.item? = some item) {s' : Session}
    (hs' : s' = (((s.withdraw item).process item.event).1.respond item
      ((s.withdraw item).process item.event).2).closeIfEnded) : Turned s s.taken? s' := by
  have hoffers := item?_eq_some_iff.mp hitem
  subst hs'
  unfold process
  rw [script_withdraw, state_withdraw]
  cases h : react s.script s.state item.event with
  | ok o =>
      have htaken := react_eq_ok_iff.mp h
      rw [taken?_eq_some_iff.mpr ⟨hoffers, o, htaken⟩]
      exact .takes hoffers htaken
  | error r =>
      rw [taken?, hitem, Option.filter_some_neg (by rw [h]; rfl)]
      refine .refuses hoffers fun o htaken => ?_
      rw [react_eq_ok_iff.mpr htaken] at h
      cases h

/-- **What a round comes to.** -/
theorem turned_turn (s : Session) : Turned s s.taken? s.turn := by
  obtain ⟨script, state, phase, timers, held, due, calls, nextCall, answers, stopped, notices⟩ := s
  cases phase with
  | fresh => exact turned_of_item .start rfl rfl
  | closed => exact .idle rfl
  | running =>
      cases stopped with
      | true => exact .closes rfl rfl
      | false =>
          cases due with
          | cons t due => exact turned_of_item (.ticket t) rfl rfl
          | nil =>
              cases calls with
              | cons c calls => exact turned_of_item (.call c) rfl rfl
              | nil => exact .idle rfl

/-! ## What is left alone -/

theorem letGo_eq (s : Session) : ∃ timers held, s.letGo = { s with timers, held } := by
  unfold letGo
  cases s.held with
  | none => exact ⟨s.timers, s.held, rfl⟩
  | some handle => exact ⟨_, _, rfl⟩

theorem execute_eq (s : Session) (effects : List Effect) :
    ∃ timers held, effects.foldl execute s = { s with
      timers, held, notices := s.notices ++ effects.filterMap Effect.notice? } := by
  induction effects generalizing s with
  | nil => exact ⟨s.timers, s.held, by simp⟩
  | cons effect effects ih =>
      obtain ⟨timers, held, heq⟩ := ih (s.execute effect)
      refine ⟨timers, held, ?_⟩
      rw [List.foldl_cons, heq]
      cases effect with
      | notify n =>
          have hnotice : Effect.notice? (.notify n) = some n := rfl
          rw [List.filterMap_cons_some hnotice]
          simp [execute]
      | schedule delay ticket =>
          obtain ⟨timers', held', hletGo⟩ := s.letGo_eq
          rw [List.filterMap_cons_none rfl]
          simp [execute, arm, hletGo]

theorem adopt_eq (s : Session) (o : Outcome) : ∃ timers held, s.adopt o = { s with
    state := o.state, timers, held, notices := s.notices ++ o.notices } := by
  obtain ⟨timers, held, hexecute⟩ := execute_eq { s with state := o.state } o.effects
  unfold adopt
  rw [hexecute]
  dsimp only
  split
  · obtain ⟨timers', held', hletGo⟩ := letGo_eq { s with
      state := o.state, timers, held, notices := s.notices ++ o.notices }
    exact ⟨timers', held', hletGo⟩
  · exact ⟨timers, held, rfl⟩

theorem close_eq (s : Session) : ∃ timers held, s.close = { s with
    timers, held, phase := .closed, calls := []
    answers := (s.calls.map fun c => (c.number, false)).reverse ++ s.answers } := by
  obtain ⟨timers, held, hletGo⟩ := s.letGo_eq
  exact ⟨timers, held, by simp [close, hletGo]⟩

@[simp]
theorem state_close (s : Session) : s.close.state = s.state := by
  obtain ⟨timers, held, hclose⟩ := s.close_eq
  rw [hclose]

@[simp]
theorem phase_close (s : Session) : s.close.phase = .closed := rfl

@[simp]
theorem due_close (s : Session) : s.close.due = s.due := by
  obtain ⟨timers, held, hclose⟩ := s.close_eq
  rw [hclose]

@[simp]
theorem stopped_close (s : Session) : s.close.stopped = s.stopped := by
  obtain ⟨timers, held, hclose⟩ := s.close_eq
  rw [hclose]

@[simp]
theorem state_closeIfEnded (s : Session) : s.closeIfEnded.state = s.state := by
  unfold closeIfEnded
  split
  · exact s.state_close
  · rfl

@[simp]
theorem stopped_closeIfEnded (s : Session) : s.closeIfEnded.stopped = s.stopped := by
  unfold closeIfEnded
  split
  · exact s.stopped_close
  · rfl

theorem closeIfEnded_of_ne_ended (h : s.state.mode ≠ .ended) : s.closeIfEnded = s := by
  unfold closeIfEnded
  split
  · rename_i hended
    exact absurd (beq_iff_eq.mp hended) h
  · rfl

theorem phase_withdraw {item : Item} (h : Offers s item) : (s.withdraw item).phase = .running := by
  cases h with
  | start hphase => rfl
  | ticket hphase hstopped hdue => exact hphase
  | call hphase hstopped hdue hcalls => exact hphase

theorem phase_closeIfEnded (h : s.phase ≠ .fresh) : s.closeIfEnded.phase ≠ .fresh := by
  unfold closeIfEnded
  split
  · rw [phase_close]
    exact nofun
  · exact h

theorem Turned.phase_ne_fresh {taken : Option Item} {s' : Session} (h : Turned s taken s') :
    s'.phase ≠ .fresh := by
  cases h with
  | idle hitem =>
      intro hphase
      simp [item?, hphase] at hitem
  | closes hphase hstopped =>
      rw [phase_close]
      exact nofun
  | @takes item o hoffers htaken =>
      obtain ⟨timers, held, hadopt⟩ := adopt_eq (s.withdraw item) o
      refine phase_closeIfEnded ?_
      rw [phase_respond, hadopt]
      exact phase_withdraw hoffers ▸ nofun
  | refuses hoffers hrefused =>
      refine phase_closeIfEnded ?_
      rw [phase_respond, phase_withdraw hoffers]
      exact nofun

/-- A round in which an item is taken leads to the state that this comes to. -/
theorem Turned.state_of_some {item : Item} {s' : Session} (h : Turned s (some item) s') :
    ∃ o, Taken s.script s.state item.event o ∧ s'.state = o.state := by
  cases h with
  | @takes item o hoffers htaken =>
      obtain ⟨timers, held, hadopt⟩ := adopt_eq (s.withdraw item) o
      refine ⟨o, htaken, ?_⟩
      rw [state_closeIfEnded, state_respond, hadopt]

/-- A round in which nothing is taken leaves the state. -/
theorem Turned.state_of_none {s' : Session} (h : Turned s none s') : s'.state = s.state := by
  cases h with
  | idle => rfl
  | closes => exact s.state_close
  | refuses => simp

theorem Turned.stopped {taken : Option Item} {s' : Session} (h : Turned s taken s') :
    s'.stopped = s.stopped := by
  cases h with
  | idle => rfl
  | closes => exact s.stopped_close
  | @takes item o =>
      obtain ⟨timers, held, hadopt⟩ := adopt_eq (s.withdraw item) o
      rw [stopped_closeIfEnded, stopped_respond, hadopt]
      exact stopped_withdraw s item
  | refuses => simp

/-! ## Timers

An outcome is adopted effect by effect, and each schedule lets go of the timer that is held
before it sets its own.  Where no timer waits and one advance is scheduled at most there is
nothing to let go of, and what waits afterwards is what was scheduled. -/

theorem waiting_letGo (h : s.timers.waiting = []) : s.letGo.timers.waiting = [] := by
  unfold letGo
  cases s.held with
  | none => exact h
  | some handle => simp [Timers.cancel, h]

theorem closed_letGo (s : Session) : s.letGo.timers.closed = s.timers.closed := by
  unfold letGo
  cases s.held <;> rfl

theorem timers_execute_of_none {effects : List Effect}
    (h : effects.filterMap Effect.ticket? = []) :
    (effects.foldl execute s).timers = s.timers := by
  induction effects generalizing s with
  | nil => rfl
  | cons effect effects ih =>
      cases effect with
      | notify n => exact ih (s := s.execute (.notify n)) h
      | schedule delay ticket => cases h

/-- Where no timer waits and one ticket is scheduled at most, the timers that wait
afterwards are those of the tickets. -/
theorem waiting_execute (effects : List Effect) (hwaiting : s.timers.waiting = [])
    (hopen : s.timers.closed = false) (hone : (effects.filterMap Effect.ticket?).length ≤ 1) :
    (effects.foldl execute s).timers.waiting.map (·.load) = effects.filterMap Effect.ticket? ∧
      (effects.foldl execute s).timers.closed = false := by
  induction effects generalizing s with
  | nil => exact ⟨by rw [List.foldl_nil, hwaiting]; rfl, hopen⟩
  | cons effect effects ih =>
      cases effect with
      | notify n => exact ih (s := s.execute (.notify n)) hwaiting hopen hone
      | schedule delay ticket =>
          have hticket : Effect.ticket? (.schedule delay ticket) = some ticket := rfl
          rw [List.filterMap_cons_some hticket] at hone ⊢
          have hnone : effects.filterMap Effect.ticket? = [] :=
            List.eq_nil_of_length_eq_zero (Nat.le_zero.mp (Nat.le_of_succ_le_succ hone))
          rw [List.foldl_cons, timers_execute_of_none hnone, hnone]
          simp [execute, arm, Timers.set, closed_letGo, hopen, waiting_letGo hwaiting]

/-- Adopting an outcome where no timer waits sets a timer for the pending advance, and
for nothing else. -/
theorem waiting_adopt {o : Outcome} (hwaiting : s.timers.waiting = [])
    (hopen : s.timers.closed = false) (htickets : o.tickets = o.state.pendingTickets) :
    (s.adopt o).timers.waiting.map (·.load) = o.state.pendingTickets ∧
      (s.adopt o).timers.closed = false := by
  have hone : o.tickets.length ≤ 1 := by
    rw [htickets, State.pendingTickets]
    cases o.state.pending <;> simp
  obtain ⟨hload, hclosed⟩ := waiting_execute o.effects (s := { s with state := o.state })
    hwaiting hopen hone
  have hpending : (o.effects.foldl execute { s with state := o.state }).state = o.state := by
    obtain ⟨timers, held, hexecute⟩ := execute_eq { s with state := o.state } o.effects
    rw [hexecute]
  rw [← htickets]
  unfold adopt
  dsimp only
  split
  · rename_i hnone
    rw [hpending, Option.isNone_iff_eq_none] at hnone
    -- nothing was scheduled, so there is nothing to cancel
    have hnothing : o.tickets = [] := by rw [htickets, pendingTickets_of_pending hnone]
    rw [closed_letGo, waiting_letGo (List.map_eq_nil_iff.mp (hload.trans hnothing)), hnothing]
    exact ⟨rfl, hclosed⟩
  · exact ⟨hload, hclosed⟩

end Parley.Session
