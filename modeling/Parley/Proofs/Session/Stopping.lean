/-
# Stopping

A session goes through its phases in one direction, and a session that was stopped goes on
to be closed by its own rounds:

    fresh      the next round starts the conversation, stopped or not
    running    the next round closes the session, if it was stopped
    closed     no round does anything

So all that a stopped session still takes is the start, if it was stopped before its first
round (`log_of_stopped`), and a closed session takes nothing at all (`closed_performAll`).
A session whose conversation has ended is closed already (`Sound.ended`).

With the session its timers are stopped: no timer waits any more, and none that the start
still sets (`Silenced`).
-/
import Parley.Proofs.Session.Acts

namespace Parley.Session

open Conversation

variable {script : Script} {s : Session}

/-! ## Closed sessions -/

theorem taken?_of_item?_eq_none (h : s.item? = none) : s.taken? = none := by
  rw [taken?, h]
  rfl

theorem took?_of_item?_eq_none (h : s.item? = none) (a : Act) : s.took? a = none := by
  by_cases ha : a = .round
  · subst ha
    exact taken?_of_item?_eq_none h
  · exact s.took?_of_ne_round ha

theorem closed_perform (h : s.phase = .closed) (a : Act) :
    (s.perform a).phase = .closed ∧ (s.perform a).state = s.state := by
  by_cases ha : a = .round
  · subst ha
    have hturn : s.perform .round = s := by simp [perform, turn, h]
    rw [hturn]
    exact ⟨h, rfl⟩
  · exact ⟨(s.phase_perform ha).trans h, s.state_perform ha⟩

/-- A closed session stays closed and stays where it is. -/
theorem closed_performAll (h : s.phase = .closed) (acts : List Act) :
    (s.performAll acts).phase = .closed ∧ (s.performAll acts).state = s.state ∧
      s.log acts = [] := by
  induction acts generalizing s with
  | nil => exact ⟨h, rfl, rfl⟩
  | cons a acts ih =>
      obtain ⟨hphase, hstate⟩ := closed_perform h a
      obtain ⟨hclosed, hstays, hlog⟩ := ih hphase
      have hitem : s.item? = none := by simp [item?, h]
      refine ⟨hclosed, hstays.trans hstate, ?_⟩
      rw [log, took?_of_item?_eq_none hitem, hlog]
      rfl

/-- A call on a closed session is answered with no, at once. -/
theorem answer?_of_closed (h : s.phase = .closed) (e : Event) :
    (s.call e).answer? s.nextCall = some false := by
  rw [call_of_closed h]
  simp [answer?]

/-! ## Stopped sessions

Nothing lowers the flag that a stop raises.  The next round of a session that runs sees it
and closes the session, and the next round of one that has not begun begins it; so two rounds
are enough, whatever happens in between. -/

theorem closed_turn_of_stopped (hstopped : s.stopped) (hphase : s.phase ≠ .fresh) :
    s.item? = none ∧ s.turn.phase = .closed := by
  cases h : s.phase with
  | fresh => exact absurd h hphase
  | running => exact ⟨by simp [item?, h, hstopped], by simp [turn, serve, h, hstopped]⟩
  | closed => exact ⟨by simp [item?, h], by simp [turn, h]⟩

theorem stopped_of_stopped (hstopped : s.stopped) (a : Act) : (s.perform a).stopped := by
  by_cases ha : a = .stop
  · subst ha
    rfl
  · rw [s.stopped_perform ha]
    exact hstopped

theorem log_of_begun (hstopped : s.stopped) (hphase : s.phase ≠ .fresh) (acts : List Act) :
    s.log acts = [] := by
  induction acts generalizing s with
  | nil => rfl
  | cons a acts ih =>
      obtain ⟨hitem, hturn⟩ := closed_turn_of_stopped hstopped hphase
      have hbegun : (s.perform a).phase ≠ .fresh := by
        by_cases ha : a = .round
        · subst ha
          exact s.turned_turn.phase_ne_fresh
        · rw [s.phase_perform ha]
          exact hphase
      rw [log, took?_of_item?_eq_none hitem, ih (stopped_of_stopped hstopped a) hbegun]
      rfl

/-- **All that a stopped session still takes is the start.** -/
theorem log_of_stopped (hstopped : s.stopped) (acts : List Act) :
    s.log acts = [] ∨ (s.phase = .fresh ∧ s.log acts = [.start]) := by
  by_cases hphase : s.phase = .fresh
  · induction acts generalizing s with
    | nil => exact .inl rfl
    | cons a acts ih =>
        have hstopped' := stopped_of_stopped hstopped a
        by_cases ha : a = .round
        · subst ha
          rw [log, log_of_begun hstopped' s.turned_turn.phase_ne_fresh, List.append_nil]
          have hitem : s.item? = some .start := by simp [item?, hphase]
          rw [took?, taken?, hitem, Option.filter_some]
          split
          · exact .inr ⟨hphase, rfl⟩
          · exact .inl rfl
        · rw [log, s.took?_of_ne_round ha]
          exact (ih hstopped' ((s.phase_perform ha).trans hphase)).imp_right
            fun h => ⟨hphase, h.2⟩
  · exact .inl (log_of_begun hstopped hphase acts)

theorem closed_of_begun (hstopped : s.stopped) (hphase : s.phase ≠ .fresh) (acts : List Act)
    (hround : .round ∈ acts) : (s.performAll acts).phase = .closed := by
  induction acts generalizing s with
  | nil => cases hround
  | cons a acts ih =>
      by_cases ha : a = .round
      · subst ha
        exact (closed_performAll (closed_turn_of_stopped hstopped hphase).2 acts).1
      · have hrest : .round ∈ acts := (List.mem_cons.mp hround).resolve_left (Ne.symm ha)
        exact ih (stopped_of_stopped hstopped a) (by rwa [s.phase_perform ha]) hrest

/-- Two rounds close a stopped session, whatever else is done. -/
theorem closed_of_stopped (hstopped : s.stopped) (acts : List Act)
    (hrounds : 2 ≤ acts.count .round) : (s.performAll acts).phase = .closed := by
  induction acts generalizing s with
  | nil => cases hrounds
  | cons a acts ih =>
      have hstopped' := stopped_of_stopped hstopped a
      by_cases ha : a = .round
      · subst ha
        rw [List.count_cons_self] at hrounds
        have hround : .round ∈ acts := List.count_pos_iff.mp (Nat.lt_of_succ_lt_succ hrounds)
        exact closed_of_begun hstopped' s.turned_turn.phase_ne_fresh acts hround
      · rw [List.count_cons_of_ne ha] at hrounds
        exact ih hstopped' hrounds

/-! ## The timers of a stopped session

Stopping cancels what waits, and closes the timers: what is set from then on does not wait.
So it makes no difference that the session goes on to let go of timers and to hold new ones.
-/

/-- No timer waits, and none will. -/
structure Silenced (s : Session) : Prop where
  closed : s.timers.closed
  waiting : s.timers.waiting = []

theorem silenced_stop (s : Session) : Silenced s.stop := ⟨rfl, rfl⟩

theorem Silenced.letGo (h : Silenced s) : Silenced s.letGo :=
  ⟨s.closed_letGo.trans h.closed, waiting_letGo h.waiting⟩

theorem Silenced.arm (h : Silenced s) (delay : Nat) (ticket : UInt64) :
    Silenced (s.arm delay ticket) := by
  obtain ⟨hclosed, hwaiting⟩ := h.letGo
  refine ⟨hclosed, ?_⟩
  simp [Session.arm, Timers.set, hclosed, hwaiting]

theorem Silenced.execute (h : Silenced s) (effects : List Effect) :
    Silenced (effects.foldl Session.execute s) := by
  induction effects generalizing s with
  | nil => exact h
  | cons effect effects ih =>
      cases effect with
      | notify n => exact ih ⟨h.closed, h.waiting⟩
      | schedule delay ticket => exact ih (h.arm delay ticket)

theorem Silenced.adopt (h : Silenced s) (o : Outcome) : Silenced (s.adopt o) := by
  have hstate : Silenced { s with state := o.state } := ⟨h.closed, h.waiting⟩
  have hexecute := hstate.execute o.effects
  unfold Session.adopt
  dsimp only
  split
  · exact hexecute.letGo
  · exact hexecute

theorem Silenced.closeIfEnded (h : Silenced s) : Silenced s.closeIfEnded := by
  unfold Session.closeIfEnded
  split
  · exact ⟨h.letGo.closed, h.letGo.waiting⟩
  · exact h

theorem Turned.silenced {taken : Option Item} {s' : Session} (hturned : Turned s taken s')
    (h : Silenced s) : Silenced s' := by
  have hwithdraw : ∀ item, Silenced (s.withdraw item) := fun item =>
    ⟨s.timers_withdraw item ▸ h.closed, s.timers_withdraw item ▸ h.waiting⟩
  have hrespond : ∀ {s : Session} item yes, Silenced s → Silenced (s.respond item yes) :=
    fun {s} item yes h =>
      ⟨s.timers_respond item yes ▸ h.closed, s.timers_respond item yes ▸ h.waiting⟩
  cases hturned with
  | idle => exact h
  | closes => exact ⟨h.letGo.closed, h.letGo.waiting⟩
  | @takes item o => exact (hrespond item true ((hwithdraw item).adopt o)).closeIfEnded
  | @refuses item => exact (hrespond item false (hwithdraw item)).closeIfEnded

theorem Silenced.perform (h : Silenced s) (a : Act) : Silenced (s.perform a) := by
  have hcall : ∀ e, Silenced (s.call e) := by
    intro e
    obtain ⟨calls, nextCall, answers, hcall⟩ := s.call_eq e
    rw [hcall]
    exact ⟨h.closed, h.waiting⟩
  cases a with
  | round => exact s.turned_turn.silenced h
  | fire handle =>
      have hnone : s.timers.load? handle = none := by rw [Timers.load?, h.waiting]; rfl
      have hdeliver : s.perform (.fire handle) = s := by simp [Session.perform, deliver, hnone]
      rw [hdeliver]
      exact h
  | submit text => exact hcall _
  | select option => exact hcall _
  | stop => exact s.silenced_stop
  | clock now => exact ⟨h.closed, h.waiting⟩

theorem Silenced.performAll (h : Silenced s) (acts : List Act) : Silenced (s.performAll acts) := by
  induction acts generalizing s with
  | nil => exact h
  | cons a acts ih => exact ih (h.perform a)

end Parley.Session
