/-
# Tickets and replies of a history

A ticket is scheduled when an outcome schedules its advance, and redeemed when the
event that brings it is taken.  At most one is outstanding at any time, for an
advance is scheduled only by a move of a state in which none is pending, or in
which the pending one is just redeemed (`pendingTickets_of_taken`).  Hence

    scheduled = redeemed ++ the pending one       in this order
    scheduled = 0, 1, 2, ...                      as numbers of sixty-four bits

after every run (`numbered_run`), and while the numbers do not come round again no
ticket is redeemed twice, whatever advances were brought.

Replies are counted in the same way: each that is taken leaves one line of the user
in the transcript, and nothing else does (`userEntries_run`).
-/
import Parley.Proofs.Conversation.Moves

namespace Parley.Conversation

/-- The ticket that an event brings. -/
def Event.ticket? : Event → Option UInt64
  | .advance ticket => some ticket
  | .start | .submit _ | .select _ => none

/-- The tickets that advances were scheduled for, in order. -/
def scheduled (history : List (Event × Outcome)) : List UInt64 := history.flatMap (·.2.tickets)

/-- The tickets of the advances that were taken, in order. -/
def redeemed (history : List (Event × Outcome)) : List UInt64 :=
  history.filterMap (·.1.ticket?)

/-- How many replies were taken. -/
def replies (history : List (Event × Outcome)) : Nat := history.countP (·.1.isReply)

variable {script : Script} {s : State} {e : Event} {o : Outcome}

theorem scheduled_concat (history : List (Event × Outcome)) (e : Event) (o : Outcome) :
    scheduled (history ++ [(e, o)]) = scheduled history ++ o.tickets := by
  simp [scheduled]

theorem redeemed_concat (history : List (Event × Outcome)) (e : Event) (o : Outcome) :
    redeemed (history ++ [(e, o)]) = redeemed history ++ e.ticket?.toList := by
  cases h : e.ticket? <;> simp [redeemed, h]

theorem replies_concat (history : List (Event × Outcome)) (e : Event) (o : Outcome) :
    replies (history ++ [(e, o)]) = replies history + if e.isReply then 1 else 0 := by
  simp [replies, List.countP_append, List.countP_cons]

/-! ## One event

A move schedules one advance or rests, and then nothing is pending.  What was pending before
it was taken out by the event itself, if that was the advance; no other event is taken while
an advance is pending. -/

theorem pendingTickets_of_pending (h : s.pending = none) : s.pendingTickets = [] := by
  rw [State.pendingTickets, h]
  rfl

theorem schedules_or_rests (h : Move s e o) : Schedules s o ∨ Rests s o := by
  cases h with
  | speaks he hmode htranscript hnotices hs | answers he hmode htranscript hnotices hs
  | picks he hmode hlast htranscript hnotices hs => exact .inl hs
  | asks he hmode htranscript hnotices hs | offers he hmode htranscript hnotices hs
  | ends he hmode htranscript hnotices hs => exact .inr hs

theorem tickets_of_move (h : Move s e o) : o.tickets = o.state.pendingTickets := by
  rcases schedules_or_rests h with hs | hs
  · rw [hs.tickets, hs.pending]
  · rw [hs.tickets, pendingTickets_of_pending hs.pending]

/-- An event is taken only when nothing is pending but the advance that it brings. -/
theorem pendingTickets_of_taken (h : Coherent script s) (htaken : Taken script s e o) :
    s.pendingTickets = e.ticket?.toList := by
  cases htaken with
  | start hmode => rw [h.idle hmode]; rfl
  | submit text hmode => exact pendingTickets_of_pending (h.awaitingText hmode).1
  | select option hmode hstop hfind => exact pendingTickets_of_pending (h.awaitingButton hmode).1
  | advance hlive hpending => rw [State.pendingTickets, hpending]; rfl

theorem userEntries_of_move (h : Move s e o) :
    o.state.userEntries = s.userEntries + if e.isReply then 1 else 0 := by
  unfold State.userEntries
  cases h with
  | speaks he hmode htranscript hnotices hs => simp [htranscript, he, Entry.isUser]
  | asks he hmode htranscript hnotices hs => simp [htranscript, he, Entry.isUser]
  | offers he hmode htranscript hnotices hs => simp [htranscript, he, Entry.isUser]
  | ends he hmode htranscript hnotices hs => simp [htranscript, he]
  | answers he hmode htranscript hnotices hs =>
      simp [htranscript, he, Event.isReply, Entry.isUser]
  | picks he hmode hlast htranscript hnotices hs =>
      -- the line that is taken away is the prompt, and that is none of the user's
      obtain ⟨front, hfront⟩ := List.getLast?_eq_some_iff.mp hlast
      simp [htranscript, hfront, he, Event.isReply, Entry.isUser]

/-! ## Every run -/

/-- The tickets of a history in the state that it led to. -/
structure Numbered (history : List (Event × Outcome)) (s : State) : Prop where
  next : s.nextTicket = UInt64.ofNat (scheduled history).length
  consecutive : scheduled history = (List.range (scheduled history).length).map UInt64.ofNat
  /-- Each ticket is redeemed in its turn, but for the pending one. -/
  inTurn : scheduled history = redeemed history ++ s.pendingTickets

theorem Numbered.move {history : List (Event × Outcome)} (h : Numbered history s)
    (hcoherent : Coherent script s) (htaken : Taken script s e o) (hmove : Move s e o) :
    Numbered (history ++ [(e, o)]) o.state where
  next := by
    rw [scheduled_concat, List.length_append]
    rcases schedules_or_rests hmove with hs | hs
    · rw [hs.nextTicket, hs.tickets, h.next, List.length_singleton, UInt64.ofNat_add]
      rfl
    · rw [hs.nextTicket, hs.tickets, h.next, List.length_nil, Nat.add_zero]
  consecutive := by
    rw [scheduled_concat, List.length_append]
    rcases schedules_or_rests hmove with hs | hs
    · rw [hs.tickets, List.length_singleton, List.range_succ, List.map_append, ← h.consecutive,
        h.next]
      rfl
    · rw [hs.tickets, List.length_nil, Nat.add_zero, List.append_nil]
      exact h.consecutive
  inTurn := by
    rw [scheduled_concat, redeemed_concat, h.inTurn, pendingTickets_of_taken hcoherent htaken,
      tickets_of_move hmove]

theorem numbered_run (hclosed : script.flow.Closed) (es : List Event) :
    Numbered (trace script .initial es) (run script .initial es) := by
  refine move_induction (P := Numbered) hclosed ⟨rfl, rfl, rfl⟩ ?_ es
  intro t s e o ht hcoherent hlive htaken hmove
  exact ht.move hcoherent htaken hmove

theorem userEntries_run (hclosed : script.flow.Closed) (es : List Event) :
    (run script .initial es).userEntries = replies (trace script .initial es) := by
  refine move_induction (P := fun t s => s.userEntries = replies t) hclosed rfl ?_ es
  intro t s e o ht hcoherent hlive htaken hmove
  rw [userEntries_of_move hmove, replies_concat, ht]

/-! ## Tickets as numbers

Tickets have sixty-four bits and come round again after that.  Up to there the number of a
ticket is its place in the list of those scheduled. -/

theorem Numbered.toNat_scheduled {history : List (Event × Outcome)} (h : Numbered history s)
    (hfew : (scheduled history).length ≤ UInt64.size) :
    (scheduled history).map UInt64.toNat = List.range (scheduled history).length := by
  rw [h.consecutive, List.map_map, List.length_map, List.length_range]
  conv_rhs => rw [← List.map_id (List.range _)]
  refine List.map_congr_left fun i hi => ?_
  exact UInt64.toNat_ofNat_of_lt' (Nat.lt_of_lt_of_le (List.mem_range.mp hi) hfew)

/-- No ticket is redeemed twice. -/
theorem Numbered.nodup_redeemed {history : List (Event × Outcome)} (h : Numbered history s)
    (hfew : (scheduled history).length ≤ UInt64.size) : (redeemed history).Nodup := by
  have hscheduled : (scheduled history).Nodup := by
    apply List.Nodup.of_map UInt64.toNat
    rw [h.toNat_scheduled hfew]
    exact List.nodup_range
  rw [h.inTurn] at hscheduled
  exact hscheduled.of_append_left

end Parley.Conversation
