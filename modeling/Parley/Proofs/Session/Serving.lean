/-
# Serving one caller

A caller that waits for the answer before it calls again has one call in the queue at most.
Then a round leaves it there or answers it (`Served`), and the session does not look at it
otherwise.  How many rounds that takes is bounded by what is before it:

    backlog  =  the start, if it is to come  +  tickets that are due  +  calls that wait

Each round with something to do takes one off that, or closes the session, and timers run
only when a session has nothing to do.  So a session that settles has answered all calls
(`calls_settle`), also where it cannot settle because the conversation goes in a circle
without a pause.

The numbers of the calls are what tells the answers apart: one that was not given yet is not
among them (`call_alone`).
-/
import Parley.Proofs.Session.Answers

namespace Parley.Session

open Conversation

/-- What becomes in a round of the call that waits, if one does. -/
inductive Served (s : Session) (taken : Option Item) (s' : Session) : Prop
  | waits : s'.calls = s.calls → s'.answers = s.answers → (∀ c, taken ≠ some (.call c)) →
      Served s taken s'
  | yes {c : Call} : s.calls = [c] → s'.calls = [] → s'.answers = (c.number, true) :: s.answers →
      taken = some (.call c) → Served s taken s'
  | no {c : Call} : s.calls = [c] → s'.calls = [] → s'.answers = (c.number, false) :: s.answers →
      (∀ c, taken ≠ some (.call c)) → Served s taken s'

variable {script : Script} {s s' s'' : Session} {taken : Option Item} {item : Item} {o : Outcome}

/-! ## What a round tells -/

@[simp]
theorem notices_close (s : Session) : s.close.notices = s.notices := by
  obtain ⟨timers, held, hclose⟩ := s.close_eq
  rw [hclose]

@[simp]
theorem notices_closeIfEnded (s : Session) : s.closeIfEnded.notices = s.notices := by
  unfold closeIfEnded
  split
  · exact s.notices_close
  · rfl

@[simp]
theorem notices_withdraw (s : Session) (item : Item) : (s.withdraw item).notices = s.notices := by
  cases item <;> rfl

@[simp]
theorem notices_respond (s : Session) (item : Item) (yes : Bool) :
    (s.respond item yes).notices = s.notices := by
  cases item <;> rfl

theorem Turned.notices_of_none (h : Turned s none s') : s'.notices = s.notices := by
  cases h with
  | idle => rfl
  | closes => exact s.notices_close
  | refuses => simp

theorem Turned.outcome_of_some (h : Turned s (some item) s') :
    ∃ o, Taken s.script s.state item.event o ∧ s'.state = o.state ∧
      s'.notices = s.notices ++ o.notices := by
  cases h with
  | @takes item o hoffers htaken =>
      obtain ⟨timers, held, hadopt⟩ := adopt_eq (s.withdraw item) o
      refine ⟨o, htaken, ?_, ?_⟩ <;> simp [hadopt]

/-! ## What a round answers

An answer goes to the call at the head of the queue, or to all calls when the session is
closed.  With one call at most the two are the same, up to what the answer is. -/

theorem Served.congr (h : Served s taken s') (hcalls : s''.calls = s'.calls)
    (hanswers : s''.answers = s'.answers) : Served s taken s'' := by
  cases h with
  | waits hcalls' hanswers' htaken => exact .waits (hcalls ▸ hcalls') (hanswers ▸ hanswers') htaken
  | yes hqueue hcalls' hanswers' htaken =>
      exact .yes hqueue (hcalls ▸ hcalls') (hanswers ▸ hanswers') htaken
  | no hqueue hcalls' hanswers' htaken =>
      exact .no hqueue (hcalls ▸ hcalls') (hanswers ▸ hanswers') htaken

theorem Served.close (h : Served s taken s') (hone : s.calls.length ≤ 1) :
    Served s taken s'.close := by
  obtain ⟨timers, held, hclose⟩ := s'.close_eq
  cases h with
  | waits hcalls hanswers htaken =>
      match hqueue : s.calls with
      | [] =>
          refine .waits ?_ ?_ htaken <;> simp [hclose, hcalls, hanswers, hqueue]
      | [c] =>
          refine .no hqueue ?_ ?_ htaken <;> simp [hclose, hcalls, hanswers, hqueue]
      | _ :: _ :: _ =>
          rw [hqueue] at hone
          simp at hone
  | yes hqueue hcalls hanswers htaken =>
      refine .yes hqueue ?_ ?_ htaken <;> simp [hclose, hcalls, hanswers]
  | no hqueue hcalls hanswers htaken =>
      refine .no hqueue ?_ ?_ htaken <;> simp [hclose, hcalls, hanswers]

theorem Served.closeIfEnded (h : Served s taken s') (hone : s.calls.length ≤ 1) :
    Served s taken s'.closeIfEnded := by
  unfold Session.closeIfEnded
  split
  · exact h.close hone
  · exact h

theorem served_respond (hoffers : Offers s item) (hone : s.calls.length ≤ 1) :
    Served s (some item) ((s.withdraw item).respond item true) ∧
      Served s none ((s.withdraw item).respond item false) := by
  cases hoffers with
  | start hphase => exact ⟨.waits rfl rfl (by simp), .waits rfl rfl (by simp)⟩
  | ticket hphase hstopped hdue => exact ⟨.waits rfl rfl (by simp), .waits rfl rfl (by simp)⟩
  | @call c rest hphase hstopped hdue hcalls =>
      obtain rfl : rest = [] := by
        rw [hcalls] at hone
        exact List.eq_nil_of_length_eq_zero (Nat.le_zero.mp (Nat.le_of_succ_le_succ hone))
      refine ⟨.yes hcalls ?_ rfl rfl, .no hcalls ?_ rfl (by simp)⟩ <;> simp [withdraw, hcalls]

/-- **A round leaves the one call in the queue or answers it**, with yes just if it is taken. -/
theorem Turned.served (h : Turned s taken s') (hone : s.calls.length ≤ 1) :
    Served s taken s' := by
  cases h with
  | idle => exact .waits rfl rfl (by simp)
  | closes =>
      have hidle : Served s none s := .waits rfl rfl (by simp)
      exact hidle.close hone
  | @takes item o hoffers htaken =>
      obtain ⟨timers, held, hadopt⟩ := adopt_eq (s.withdraw item) o
      have hserved := (served_respond hoffers hone).1
      refine Served.closeIfEnded ?_ hone
      rw [hadopt]
      cases item <;> exact hserved.congr rfl rfl
  | @refuses item hoffers hrefused => exact (served_respond hoffers hone).2.closeIfEnded hone

/-! ## Any time after the start -/

/-- The numbers of the calls that were answered are behind the next. -/
theorem number_lt_of_mem_answers (h : Leads (start script) s) {a : Nat × Bool}
    (ha : a ∈ s.answers) : a.1 < s.nextCall := by
  obtain ⟨acts, rfl⟩ := h
  obtain ⟨book, hbook⟩ := booked_performAll script acts
  rw [← List.mem_reverse, hbook.answers] at ha
  obtain ⟨r, hr, rfl⟩ := List.mem_map.mp ha
  have hcall : r.1 ∈ numbered (made acts) := by
    rw [← hbook.calls]
    exact List.mem_append_left _ (List.mem_map_of_mem hr)
  obtain ⟨i, hi, hnumber⟩ := List.mem_mapIdx.mp hcall
  rw [hbook.nextCall, numbered, List.length_mapIdx, ← hnumber]
  exact hi

theorem calls_eq_nil_of_closed (h : Leads (start script) s) (hphase : s.phase = .closed) :
    s.calls = [] := by
  obtain ⟨acts, rfl⟩ := h
  obtain ⟨book, hbook⟩ := booked_performAll script acts
  exact hbook.closed hphase

theorem Leads.sound (h : Leads (start script) s) (hclosed : script.flow.Closed) :
    Sound script s := by
  obtain ⟨acts, rfl⟩ := h
  exact sound_performAll hclosed acts

theorem state_call (s : Session) (e : Event) : (s.call e).state = s.state := by
  obtain ⟨calls, nextCall, answers, hcall⟩ := s.call_eq e
  rw [hcall]

theorem notices_call (s : Session) (e : Event) : (s.call e).notices = s.notices := by
  obtain ⟨calls, nextCall, answers, hcall⟩ := s.call_eq e
  rw [hcall]

theorem call_alone (h : Leads (start script) s) (hnone : s.calls = []) (e : Event) :
    ((s.call e).calls = [⟨s.nextCall, e⟩] ∧ (s.call e).answer? s.nextCall = none) ∨
      ((s.call e).calls = [] ∧ (s.call e).answer? s.nextCall = some false) := by
  by_cases hphase : s.phase = .closed
  · rw [call_of_closed hphase]
    exact .inr ⟨hnone, by simp [answer?]⟩
  · rw [call_of_not_closed hphase, hnone]
    refine .inl ⟨rfl, ?_⟩
    rw [answer?, Option.map_eq_none_iff, List.find?_eq_none]
    intro a ha hnumber
    exact Nat.ne_of_lt (number_lt_of_mem_answers h ha) (beq_iff_eq.mp hnumber)

/-! ## Settling

A session that settles makes rounds while there is something to do, but no more than a number
fixed at the start (`rounds`). The backlog is below that number, and each round takes one off
it, so the call is answered even if the session is not done by then. -/

theorem perform_eq_of_quiet (s : Session) {a : Act} (ha : a.reply? = none) (hround : a ≠ .round) :
    ∃ timers due stopped, s.perform a = { s with timers, due, stopped } := by
  cases a with
  | round => exact absurd rfl hround
  | fire handle =>
      obtain ⟨timers, due, hdeliver⟩ := s.deliver_eq handle
      exact ⟨timers, due, s.stopped, hdeliver⟩
  | submit | select => cases ha
  | stop => exact ⟨_, _, _, rfl⟩
  | clock now => exact ⟨_, _, _, rfl⟩

theorem Drifts.calls_eq_nil (h : Drifts s s') (hnone : s.calls = []) : s'.calls = [] := by
  refine h.induction (P := fun s => s.calls = []) ?_ hnone
  intro s a ha hnone
  by_cases hround : a = .round
  · subst hround
    have hone : s.calls.length ≤ 1 := by
      rw [hnone]
      exact Nat.zero_le 1
    cases s.turned_turn.served hone with
    | waits hcalls => exact hcalls.trans hnone
    | yes hqueue hcalls | no hqueue hcalls => exact hcalls
  · obtain ⟨timers, due, stopped, hperform⟩ := s.perform_eq_of_quiet ha hround
    rw [hperform]
    exact hnone

/-- What a session has before it. -/
def backlog (s : Session) : Nat :=
  (if s.phase = .fresh then 1 else 0) + s.due.length + s.calls.length

theorem process_eq (s : Session) (e : Event) :
    ∃ state timers held notices, (s.process e).1 = { s with state, timers, held, notices } := by
  unfold process
  split
  · rename_i o ho
    obtain ⟨timers, held, hadopt⟩ := s.adopt_eq o
    exact ⟨_, timers, held, _, hadopt⟩
  · exact ⟨_, _, _, _, rfl⟩

theorem closeIfEnded_eq_or (s : Session) : s.closeIfEnded.calls = [] ∨ s.closeIfEnded = s := by
  unfold closeIfEnded
  split
  · obtain ⟨timers, held, hclose⟩ := s.close_eq
    exact .inl (by rw [hclose])
  · exact .inr rfl

theorem backlog_closeIfEnded_lt {bound : Nat} (hphase : s.phase = .running)
    (h : s.due.length + s.calls.length < bound) : s.closeIfEnded.calls = [] ∨
      (s.closeIfEnded.backlog < bound ∧ s.closeIfEnded.phase ≠ .closed) := by
  refine s.closeIfEnded_eq_or.imp_right fun hopen => ?_
  rw [hopen, backlog, hphase, if_neg (by decide), Nat.zero_add]
  exact ⟨h, by decide⟩

/-- A round takes one off the backlog, unless it answers all calls. -/
theorem backlog_turn_lt (hwork : s.hasWork) :
    s.turn.calls = [] ∨ (s.turn.backlog < s.backlog ∧ s.turn.phase ≠ .closed) := by
  cases hphase : s.phase with
  | fresh =>
      have hturn : s.turn = ({ s with phase := .running }.process .start).1.closeIfEnded := by
        rw [turn, hphase]
      obtain ⟨_, _, _, _, hprocess⟩ := process_eq { s with phase := .running } .start
      rw [hturn, hprocess]
      refine backlog_closeIfEnded_lt rfl ?_
      show s.due.length + s.calls.length < s.backlog
      rw [backlog, if_pos hphase]
      omega
  | running =>
      have hturn : s.turn = s.serve := by rw [turn, hphase]
      have hbacklog : s.backlog = s.due.length + s.calls.length := by
        rw [backlog, hphase, if_neg (by decide), Nat.zero_add]
      rw [hturn, hbacklog]
      unfold serve
      split
      · obtain ⟨timers, held, hclose⟩ := s.close_eq
        exact .inl (by rw [hclose])
      · split
        · rename_i ticket due hdue
          obtain ⟨_, _, _, _, hprocess⟩ := process_eq { s with due } (.advance ticket)
          rw [hprocess, hdue]
          refine backlog_closeIfEnded_lt hphase ?_
          show due.length + s.calls.length < (ticket :: due).length + s.calls.length
          rw [List.length_cons]
          omega
        · rename_i c calls hdue hcalls
          obtain ⟨_, _, _, _, hprocess⟩ := process_eq { s with calls } c.event
          unfold take
          dsimp only
          rw [hprocess, hcalls]
          refine backlog_closeIfEnded_lt hphase ?_
          show s.due.length + calls.length < s.due.length + (c :: calls).length
          rw [List.length_cons]
          omega
        · rename_i hdue hcalls
          exact .inl hcalls
  | closed => simp [hasWork, hphase] at hwork

/-- **A session that may make as many rounds as it has before it answers all calls.** -/
theorem calls_settleWithin {rounds : Nat} (h : s.backlog ≤ rounds)
    (hclosed : s.phase = .closed → s.calls = []) : (settleWithin rounds s).calls = [] := by
  induction rounds generalizing s with
  | zero =>
      have hnone : s.calls.length = 0 := by
        unfold backlog at h
        omega
      exact List.eq_nil_of_length_eq_zero hnone
  | succ rounds ih =>
      by_cases hwork : s.hasWork
      · rw [settleWithin, if_pos hwork]
        rcases backlog_turn_lt hwork with hnone | ⟨hless, hopen⟩
        · exact (drifts_settleWithin rounds s.turn).calls_eq_nil hnone
        · exact ih (by omega) (absurd · hopen)
      · have hnone : s.calls = [] := by
          unfold hasWork at hwork
          split at hwork
          · exact absurd rfl hwork
          · simp only [Bool.or_eq_true, not_or, Bool.not_eq_true', Bool.not_eq_false,
              List.isEmpty_iff] at hwork
            exact hwork.2
          · rename_i hphase
            exact hclosed hphase
        exact (drifts_settleWithin (rounds + 1) s).calls_eq_nil hnone

theorem calls_settle (hclosed : s.phase = .closed → s.calls = []) : s.settle.calls = [] := by
  refine calls_settleWithin ?_ hclosed
  unfold backlog rounds
  split <;> omega

end Parley.Session
