/-
# One live timer

While a session is not stopped, the tickets that are under way are those of the timers
that wait and of the timers that ran (`underway`).  They are the ticket of the pending
advance and nothing else:

    s.underway = s.state.pendingTickets

Three parties could upset that: the session, which sets and cancels timers; the timers,
which run when they like; and the user, who replies when he likes.  The equation holds
because an item is taken only when nothing is under way but the item itself
(`quiet_withdraw`).  So the session sets a timer only where there is none and never has
one to cancel, a timer that runs only moves its ticket, and a reply that comes while one
is under way finds the conversation running and is refused.

Then no ticket is refused, no reply touches a timer, and an advance is pending until its
own ticket is taken.
-/
import Parley.Proofs.Conversation.Acceptance
import Parley.Proofs.Session.Acts

namespace Parley.Session

open Conversation

/-- The tickets of the timers that wait, and of those that ran. -/
def underway (s : Session) : List UInt64 := s.timers.waiting.map (·.load) ++ s.due

/-- What is under way in a session that is not stopped. -/
structure Ticking (s : Session) : Prop where
  settable : s.timers.closed = false
  underway : s.underway = s.state.pendingTickets

variable {script : Script} {s s' : Session} {item : Item} {o : Outcome}

theorem length_pendingTickets_le (st : State) : st.pendingTickets.length ≤ 1 := by
  unfold State.pendingTickets
  cases st.pending with
  | none => exact Nat.zero_le 1
  | some p => exact Nat.le_refl 1

theorem Ticking.length_le (h : Ticking s) : s.timers.waiting.length + s.due.length ≤ 1 := by
  have hlength : s.underway.length ≤ 1 := h.underway ▸ length_pendingTickets_le s.state
  simpa [Session.underway] using hlength

theorem Ticking.due_of_waiting {t : Timer UInt64} {rest : List (Timer UInt64)} (h : Ticking s)
    (hwaiting : s.timers.waiting = t :: rest) : rest = [] ∧ s.due = [] := by
  have hlength := h.length_le
  rw [hwaiting, List.length_cons] at hlength
  exact ⟨List.eq_nil_of_length_eq_zero (by omega), List.eq_nil_of_length_eq_zero (by omega)⟩

theorem Ticking.waiting_of_due {t : UInt64} {due : List UInt64} (h : Ticking s)
    (hdue : s.due = t :: due) : s.timers.waiting = [] ∧ due = [] := by
  have hlength := h.length_le
  rw [hdue, List.length_cons] at hlength
  exact ⟨List.eq_nil_of_length_eq_zero (by omega), List.eq_nil_of_length_eq_zero (by omega)⟩

/-! ## Rounds

The conversation takes the start or a call only while nothing is under way, and a ticket only
if it is that of the pending advance, which is all that is under way then.  So no timer waits
when an outcome is adopted, and none is let go of. -/

theorem ticket?_of_isReply {e : Event} (h : e.isReply) : e.ticket? = none := by
  cases e with
  | start | advance => cases h
  | submit | select => rfl

/-- When the conversation takes an item, the item was all that was under way. -/
theorem quiet_withdraw (h : Ticking s) (hsound : Sound script s) (hoffers : Offers s item)
    (htaken : Taken s.script s.state item.event o) :
    (s.withdraw item).timers.waiting = [] ∧ (s.withdraw item).due = [] := by
  have hunderway : s.underway = item.event.ticket?.toList :=
    h.underway.trans (pendingTickets_of_taken (hsound.goesBy ▸ hsound.coherent) htaken)
  cases hoffers with
  | start hphase =>
      obtain ⟨hwaiting, hdue⟩ := List.append_eq_nil_iff.mp hunderway
      exact ⟨List.map_eq_nil_iff.mp hwaiting, hdue⟩
  | @ticket t due hphase hstopped hdue =>
      obtain ⟨hwaiting, rfl⟩ := h.waiting_of_due hdue
      refine ⟨hwaiting, ?_⟩
      show s.due.tail = []
      rw [hdue]
      rfl
  | @call c calls hphase hstopped hdue hcalls =>
      have hreply := hsound.replies c (hcalls ▸ List.mem_cons_self)
      rw [Item.event, ticket?_of_isReply hreply] at hunderway
      obtain ⟨hwaiting, -⟩ := List.append_eq_nil_iff.mp hunderway
      exact ⟨List.map_eq_nil_iff.mp hwaiting, hdue⟩

theorem exists_taken_of_ticket {t : UInt64} (h : Ticking s) (hsound : Sound script s)
    (hoffers : Offers s (.ticket t)) : ∃ o, Taken s.script s.state (.advance t) o := by
  cases hoffers with
  | @ticket t due hphase hstopped hdue =>
      obtain ⟨hwaiting, rfl⟩ := h.waiting_of_due hdue
      have hticket : s.state.pendingTickets = [t] := by
        rw [← h.underway, underway, hwaiting, hdue]
        rfl
      have hlive : s.state.mode ≠ .ended := by
        intro hended
        cases hphase.symm.trans (hsound.ended hended)
      cases hpending : s.state.pending with
      | none =>
          rw [pendingTickets_of_pending hpending] at hticket
          cases hticket
      | some p =>
          rw [State.pendingTickets, hpending] at hticket
          obtain rfl : p.ticket = t := List.head_eq_of_cons_eq hticket
          exact ⟨_, .advance hlive hpending⟩

theorem exists_call_of_refused (h : Ticking s) (hsound : Sound script s) (hoffers : Offers s item)
    (hrefused : ∀ o, ¬ Taken s.script s.state item.event o) : ∃ c, item = .call c := by
  cases item with
  | start =>
      cases hoffers with
      | start hphase =>
          obtain ⟨o, htaken⟩ := hsound.exists_taken_start hphase
          exact absurd htaken (hrefused o)
  | ticket t =>
      obtain ⟨o, htaken⟩ := exists_taken_of_ticket h hsound hoffers
      exact absurd htaken (hrefused o)
  | call c => exact ⟨c, rfl⟩

theorem Ticking.close (h : Ticking s) (hpending : s.state.pending = none) : Ticking s.close := by
  have hnothing : s.underway = [] := by rw [h.underway, pendingTickets_of_pending hpending]
  obtain ⟨hwaiting, hdue⟩ := List.append_eq_nil_iff.mp hnothing
  have htimers : s.close.timers = s.letGo.timers := rfl
  refine ⟨by rw [htimers, closed_letGo]; exact h.settable, ?_⟩
  rw [state_close, pendingTickets_of_pending hpending, Session.underway, htimers,
    waiting_letGo (List.map_eq_nil_iff.mp hwaiting), due_close, hdue]
  rfl

theorem Ticking.closeIfEnded (h : Ticking s) (hcoherent : Coherent script s.state) :
    Ticking s.closeIfEnded := by
  unfold Session.closeIfEnded
  split
  · rename_i hended
    exact h.close (hcoherent.ended (beq_iff_eq.mp hended)).1
  · exact h

/-- A round keeps the tickets that are under way and the pending one the same. -/
theorem Turned.ticking {taken : Option Item} (hturned : Turned s taken s')
    (hclosed : script.flow.Closed) (hsound : Sound script s) (hgoing : s.stopped = false)
    (h : Ticking s) : Ticking s' := by
  cases hturned with
  | idle => exact h
  | closes hphase hstopped =>
      rw [hgoing] at hstopped
      cases hstopped
  | @takes item o hoffers htaken =>
      obtain ⟨hwaiting, hdue⟩ := quiet_withdraw h hsound hoffers htaken
      have htaken' : Taken script s.state item.event o := hsound.goesBy ▸ htaken
      have hmove := move_of_taken hsound.coherent htaken'
      obtain ⟨hload, hsettable⟩ := waiting_adopt hwaiting
        (by rw [timers_withdraw]; exact h.settable) (tickets_of_move hmove)
      obtain ⟨timers, held, hadopt⟩ := adopt_eq (s.withdraw item) o
      have hstate : ((s.withdraw item).adopt o).state = o.state := by rw [hadopt]
      have hdue' : ((s.withdraw item).adopt o).due = [] := by rw [hadopt]; exact hdue
      refine Ticking.closeIfEnded ⟨?_, ?_⟩ (?_ : Coherent script _)
      · rw [timers_respond]
        exact hsettable
      · rw [underway, timers_respond, due_respond, state_respond, hload, hdue', hstate,
          List.append_nil]
      · rw [state_respond, hstate]
        exact coherent_of_taken hclosed hsound.coherent htaken'
  | refuses hoffers hrefused =>
      obtain ⟨c, rfl⟩ := exists_call_of_refused h hsound hoffers hrefused
      exact Ticking.closeIfEnded ⟨h.settable, h.underway⟩ hsound.coherent

/-! ## Every act -/

theorem underway_deliver (h : Ticking s) (handle : Nat) :
    (s.deliver handle).underway = s.underway := by
  unfold deliver
  split
  · rename_i ticket hload
    cases hwaiting : s.timers.waiting with
    | nil => simp [Timers.load?, hwaiting] at hload
    | cons t rest =>
        obtain ⟨rfl, hdue⟩ := h.due_of_waiting hwaiting
        rw [Timers.load?, hwaiting, List.find?_singleton] at hload
        split at hload
        · rename_i hhandle
          cases hload
          simp [underway, Timers.remove, hwaiting, hdue, beq_iff_eq.mp hhandle]
        · cases hload
  · rfl

theorem Ticking.deliver (h : Ticking s) (handle : Nat) : Ticking (s.deliver handle) := by
  refine ⟨?_, (underway_deliver h handle).trans ?_⟩
  · unfold Session.deliver
    split
    · exact h.settable
    · exact h.settable
  · obtain ⟨timers, due, hdeliver⟩ := s.deliver_eq handle
    rw [hdeliver]
    exact h.underway

theorem timers_call (s : Session) (e : Event) : (s.call e).timers = s.timers := by
  obtain ⟨calls, nextCall, answers, hcall⟩ := s.call_eq e
  rw [hcall]

theorem Ticking.call (h : Ticking s) (e : Event) : Ticking (s.call e) := by
  obtain ⟨calls, nextCall, answers, hcall⟩ := s.call_eq e
  rw [hcall]
  exact ⟨h.settable, h.underway⟩

theorem Ticking.perform (hclosed : script.flow.Closed) (hsound : Sound script s)
    (hgoing : s.stopped = false) (h : Ticking s) {a : Act} (ha : a ≠ .stop) :
    Ticking (s.perform a) := by
  cases a with
  | round => exact s.turned_turn.ticking hclosed hsound hgoing h
  | fire handle => exact h.deliver handle
  | submit text => exact h.call _
  | select option => exact h.call _
  | stop => exact absurd rfl ha
  | clock now => exact ⟨h.settable, h.underway⟩

theorem ticking_performAll (hclosed : script.flow.Closed) (acts : List Act)
    (hgoing : ((start script).performAll acts).stopped = false) :
    Ticking ((start script).performAll acts) := by
  refine And.right (acts_induction
    (P := fun _ _ s => Sound script s ∧ (s.stopped = false → Ticking s)) ?_ acts
    ⟨sound_start script, fun _ => ⟨rfl, rfl⟩⟩) hgoing
  rintro replies log s a ⟨hsound, h⟩
  refine ⟨hsound.perform hclosed a, fun hgoing => ?_⟩
  have ha : a ≠ .stop := by
    rintro rfl
    cases hgoing
  rw [stopped_perform s ha] at hgoing
  exact (h hgoing).perform hclosed hsound hgoing ha

/-! ## What follows

That there is one ticket under way, the pending one, leaves little to happen.  A timer that
runs has the ticket that is waited for; a reply that comes meanwhile finds the conversation
running; and an advance stays pending until the round that takes its ticket. -/

/-- A session has one live timer just while an advance is pending. -/
structure OneTimer (s : Session) : Prop where
  atMostOne : s.timers.waiting.length + s.due.length ≤ 1
  one_iff : s.timers.waiting.length + s.due.length = 1 ↔ s.state.pending.isSome
  ticket : ∀ p ∈ s.state.pending, s.underway = [p.ticket]
  /-- No ticket of a timer that ran is refused. -/
  accepted : ∀ t, s.item? = some (.ticket t) → s.taken? = some (.ticket t)
  /-- While a timer waits, neither making a reply nor taking one touches the timers. -/
  untouched : s.timers.waiting ≠ [] → ∀ a : Act,
    a.reply?.isSome ∨ (a = .round ∧ ∃ c, s.item? = some (.call c)) →
      (s.perform a).timers = s.timers
  /-- An advance is pending until its ticket is taken. -/
  kept : ∀ p ∈ s.state.pending, ∀ a : Act, (s.perform a).state.pending = some p ∨
    (a = .round ∧ s.taken? = some (.ticket p.ticket))

theorem timers_turn_of_call {c : Call} (h : Ticking s) (hsound : Sound script s)
    (hwaiting : s.timers.waiting ≠ []) (hoffers : Offers s (.call c)) :
    s.turn.timers = s.timers := by
  cases hoffers with
  | call hphase hstopped hdue hcalls =>
      have hnone : s.taken? = none := by
        refine Option.eq_none_iff_forall_ne_some.mpr fun item htaken => ?_
        obtain ⟨hoffers, o, htaken⟩ := taken?_eq_some_iff.mp htaken
        obtain ⟨hquiet, -⟩ := quiet_withdraw h hsound hoffers htaken
        rw [timers_withdraw] at hquiet
        exact hwaiting hquiet
      have hlive : s.state.mode ≠ .ended := by
        intro hended
        cases hphase.symm.trans (hsound.ended hended)
      have hturned := s.turned_turn
      rw [hnone] at hturned
      generalize s.turn = s' at hturned
      cases hturned with
      | idle => rfl
      | closes hphase hstopped' => cases hstopped.symm.trans hstopped'
      | refuses hoffers hrefused =>
          rw [closeIfEnded_of_ne_ended (by simpa using hlive), timers_respond, timers_withdraw]

/-- A round takes the ticket of the pending advance, or leaves the advance pending. -/
theorem pending_turn (hsound : Sound script s) {p : Pending} (hpending : s.state.pending = some p) :
    s.turn.state.pending = some p ∨ s.taken? = some (.ticket p.ticket) := by
  cases htaken : s.taken? with
  | none =>
      have hturned := s.turned_turn
      rw [htaken] at hturned
      rw [hturned.state_of_none]
      exact .inl hpending
  | some item =>
      obtain ⟨hoffers, o, htaken⟩ := taken?_eq_some_iff.mp htaken
      have htickets := pendingTickets_of_taken (hsound.goesBy ▸ hsound.coherent) htaken
      rw [State.pendingTickets, hpending] at htickets
      cases item with
      | start => cases htickets
      | ticket t =>
          obtain rfl : p.ticket = t := List.head_eq_of_cons_eq htickets
          exact .inr rfl
      | call c =>
          cases hoffers with
          | call hphase hstopped hdue hcalls =>
              have hreply := hsound.replies c (hcalls ▸ List.mem_cons_self)
              rw [Item.event, ticket?_of_isReply hreply] at htickets
              cases htickets

theorem pending_perform (hsound : Sound script s) {p : Pending}
    (hpending : s.state.pending = some p) (a : Act) :
    (s.perform a).state.pending = some p ∨
      (a = .round ∧ s.taken? = some (.ticket p.ticket)) := by
  by_cases ha : a = .round
  · subst ha
    exact (pending_turn hsound hpending).imp_right fun htaken => ⟨rfl, htaken⟩
  · rw [s.state_perform ha]
    exact .inl hpending

theorem Ticking.oneTimer (h : Ticking s) (hsound : Sound script s) : OneTimer s where
  atMostOne := h.length_le
  one_iff := by
    have hlength : s.timers.waiting.length + s.due.length = s.state.pendingTickets.length := by
      rw [← h.underway, Session.underway, List.length_append, List.length_map]
    rw [hlength, State.pendingTickets]
    cases s.state.pending <;> simp
  ticket p hp := by
    have hpending : s.state.pending = some p := hp
    rw [h.underway, State.pendingTickets, hpending]
    rfl
  accepted t hitem := by
    have hoffers := item?_eq_some_iff.mp hitem
    exact taken?_eq_some_iff.mpr ⟨hoffers, exists_taken_of_ticket h hsound hoffers⟩
  untouched hwaiting a ha := by
    cases a with
    | round =>
        rcases ha with hreply | ⟨-, c, hitem⟩
        · cases hreply
        · exact timers_turn_of_call h hsound hwaiting (item?_eq_some_iff.mp hitem)
    | submit text => exact s.timers_call _
    | select option => exact s.timers_call _
    | fire | stop | clock => rcases ha with hreply | ⟨hround, -⟩ <;> contradiction
  kept p hp a := pending_perform hsound hp a

/-- **One live timer.**  After any acts on a session over the flow of any graph, as long as
it was not stopped: of timers that wait and timers that ran there is one at most, there is
one just if an advance is pending, and it has the ticket of that advance.  So each ticket is
taken in its round, no reply touches a live timer, and no pending advance is lost. -/
theorem oneTimer_performAll (g : Graph) (pace : Pace) (acts : List Act)
    (hgoing : ((start ⟨.ofGraph g, pace⟩).performAll acts).stopped = false) :
    OneTimer ((start ⟨.ofGraph g, pace⟩).performAll acts) :=
  (ticking_performAll (Flow.closed_ofGraph g) acts hgoing).oneTimer
    (sound_performAll (Flow.closed_ofGraph g) acts)

theorem oneTimer_performAll_tangled :
    let s := (start ⟨.ofGraph tangled, .usual⟩).performAll
      [.round, .submit "Round", .fire 0, .fire 0, .round, .round, .select "x", .round]
    s.stopped = false ∧ s.underway = [1] ∧ s.answers = [(1, true), (0, false)] ∧ OneTimer s := by
  intro s
  have hgoing : s.stopped = false := by decide +kernel
  exact ⟨hgoing, by decide +kernel, by decide +kernel, oneTimer_performAll tangled .usual _ hgoing⟩

end Parley.Session
