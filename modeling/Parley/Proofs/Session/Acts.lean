/-
# Acts on a session

A session is acted on from three sides: it makes rounds itself, timers run, and the user
replies or has it stopped; and between the acts the clock moves.  Nothing is assumed
about their order.  A timer may run late or never, a reply may come at any moment, and a
session that is dropped is one that is stopped and not asked any more.

The *log* of a list of acts is the items that the conversation took in it, in order.
What holds at first and is kept by every act, of the replies made, the log and the
session together, holds after every list of acts (`acts_induction`).

`Sound` is what holds at any time of script, state, phase and queue.  The session by the
clock does nothing that acts do not: whatever it does is a list of acts (`Leads`), and unless
a reply is made in it these are acts other than replies (`Drifts`).
-/
import Parley.Proofs.Session.Round
import Parley.Session.Clock

namespace Parley.Session

open Conversation

inductive Act where
  /-- The session makes a round. -/
  | round
  /-- A timer runs, if it waits. -/
  | fire (handle : Nat)
  /-- The user replies with a text. -/
  | submit (text : String)
  /-- The user replies with an option. -/
  | select (option : String)
  | stop
  /-- The clock moves. -/
  | clock (now : Nat)
deriving DecidableEq

/-- The event that the user makes. -/
def Act.reply? : Act → Option Event
  | .submit text => some (.submit text)
  | .select option => some (.select option)
  | .round | .fire _ | .stop | .clock _ => none

def perform (s : Session) : Act → Session
  | .round => s.turn
  | .fire handle => s.deliver handle
  | .submit text => s.call (.submit text)
  | .select option => s.call (.select option)
  | .stop => s.stop
  | .clock now => s.moveTo now

def performAll (s : Session) (acts : List Act) : Session := acts.foldl perform s

/-- The item that the conversation takes in an act. -/
def took? (s : Session) : Act → Option Item
  | .round => s.taken?
  | .fire _ | .submit _ | .select _ | .stop | .clock _ => none

/-- The items that the conversation takes in a list of acts. -/
def log : Session → List Act → List Item
  | _, [] => []
  | s, a :: acts => (s.took? a).toList ++ (s.perform a).log acts

/-- The replies that are made in a list of acts. -/
def made (acts : List Act) : List Event := acts.filterMap Act.reply?

@[simp]
theorem performAll_cons (s : Session) (a : Act) (acts : List Act) :
    s.performAll (a :: acts) = (s.perform a).performAll acts := rfl

theorem performAll_append (s : Session) (acts more : List Act) :
    s.performAll (acts ++ more) = (s.performAll acts).performAll more := List.foldl_append

theorem log_append (s : Session) (acts more : List Act) :
    s.log (acts ++ more) = s.log acts ++ (s.performAll acts).log more := by
  induction acts generalizing s with
  | nil => rfl
  | cons a acts ih => rw [List.cons_append, log, log, ih, List.append_assoc, performAll_cons]

/-- What is kept of the replies made, the log and the session by every act is kept by
every list of acts. -/
theorem acts_induction {P : List Event → List Item → Session → Prop}
    (keeps : ∀ {replies log s} a, P replies log s →
      P (replies ++ (Act.reply? a).toList) (log ++ (s.took? a).toList) (s.perform a))
    (acts : List Act) {s : Session} (base : P [] [] s) :
    P (made acts) (s.log acts) (s.performAll acts) := by
  -- the induction is on the acts to come, after any others
  suffices h : ∀ replies log, P replies log s →
      P (replies ++ made acts) (log ++ s.log acts) (s.performAll acts) from h [] [] base
  clear base
  induction acts generalizing s with
  | nil =>
      intro replies log h
      rw [made, Session.log, List.filterMap_nil, List.append_nil, List.append_nil]
      exact h
  | cons a acts ih =>
      intro replies log h
      have hmade : made (a :: acts) = a.reply?.toList ++ made acts := by
        cases hreply : a.reply? <;> simp [made, hreply]
      rw [hmade, Session.log, ← List.append_assoc, ← List.append_assoc]
      exact ih _ _ (keeps a h)

/-! ## What the acts of others do

Timers and the user touch the queues, the answers and the timers, and never the conversation.
So the state, the phase and what was taken are left to the rounds, and `perform_eq` says in
one line what else there is. -/

theorem deliver_eq (s : Session) (handle : Nat) :
    ∃ timers due, s.deliver handle = { s with timers, due } := by
  unfold deliver
  split
  · exact ⟨_, _, rfl⟩
  · exact ⟨s.timers, s.due, rfl⟩

theorem call_of_closed {s : Session} (h : s.phase = .closed) (e : Event) : s.call e = { s with
    nextCall := s.nextCall + 1, answers := (s.nextCall, false) :: s.answers } := by
  simp [call, h]

theorem call_of_not_closed {s : Session} (h : s.phase ≠ .closed) (e : Event) :
    s.call e = { s with
      nextCall := s.nextCall + 1, calls := s.calls ++ [⟨s.nextCall, e⟩] } := by
  cases hphase : s.phase with
  | closed => exact absurd hphase h
  | fresh | running => simp [call, hphase]

theorem call_eq (s : Session) (e : Event) :
    ∃ calls nextCall answers, s.call e = { s with calls, nextCall, answers } := by
  by_cases hphase : s.phase = .closed
  · exact ⟨_, _, _, call_of_closed hphase e⟩
  · exact ⟨_, _, _, call_of_not_closed hphase e⟩

/-- Others than the session itself act on its timers, its queues and its answers. -/
theorem perform_eq (s : Session) {a : Act} (ha : a ≠ .round) :
    ∃ timers due calls nextCall answers stopped,
      s.perform a = { s with timers, due, calls, nextCall, answers, stopped } := by
  cases a with
  | round => exact absurd rfl ha
  | fire handle =>
      obtain ⟨timers, due, hdeliver⟩ := s.deliver_eq handle
      exact ⟨_, _, _, _, _, _, hdeliver⟩
  | submit text =>
      obtain ⟨calls, nextCall, answers, hcall⟩ := s.call_eq (.submit text)
      exact ⟨_, _, _, _, _, _, hcall⟩
  | select option =>
      obtain ⟨calls, nextCall, answers, hcall⟩ := s.call_eq (.select option)
      exact ⟨_, _, _, _, _, _, hcall⟩
  | stop => exact ⟨_, _, _, _, _, _, rfl⟩
  | clock now => exact ⟨_, _, _, _, _, _, rfl⟩

theorem state_perform (s : Session) {a : Act} (ha : a ≠ .round) :
    (s.perform a).state = s.state := by
  obtain ⟨_, _, _, _, _, _, hperform⟩ := s.perform_eq ha
  rw [hperform]

theorem phase_perform (s : Session) {a : Act} (ha : a ≠ .round) :
    (s.perform a).phase = s.phase := by
  obtain ⟨_, _, _, _, _, _, hperform⟩ := s.perform_eq ha
  rw [hperform]

theorem took?_of_ne_round (s : Session) {a : Act} (ha : a ≠ .round) : s.took? a = none := by
  cases a with
  | round => exact absurd rfl ha
  | fire | submit | select | stop | clock => rfl

/-- A session is stopped by nothing but the act of stopping it. -/
theorem stopped_perform (s : Session) {a : Act} (ha : a ≠ .stop) :
    (s.perform a).stopped = s.stopped := by
  have hcall : ∀ e, (s.call e).stopped = s.stopped := by
    intro e
    obtain ⟨calls, nextCall, answers, hcall⟩ := s.call_eq e
    rw [hcall]
  cases a with
  | round => exact s.turned_turn.stopped
  | fire handle =>
      obtain ⟨timers, due, hdeliver⟩ := s.deliver_eq handle
      show (s.deliver handle).stopped = s.stopped
      rw [hdeliver]
  | submit text => exact hcall _
  | select option => exact hcall _
  | stop => exact absurd rfl ha
  | clock now => rfl

/-! ## What holds at any time

The phase, the state and the queue go together: a session that is fresh has a conversation
that has not begun, one that runs has one that has not ended, and in the queue there are
replies.  Acts of others do not touch phase and state, so this is a matter of rounds. -/

/-- Script, state, phase and queue belong together. -/
structure Orderly (script : Script) (s : Session) : Prop where
  goesBy : s.script = script
  coherent : Coherent script s.state
  fresh : s.phase = .fresh → s.state = .initial
  begun : s.phase ≠ .fresh → s.state.mode ≠ .idle
  replies : ∀ c ∈ s.calls, c.event.isReply

/-- They do, and a session whose conversation has ended is closed. -/
structure Sound (script : Script) (s : Session) : Prop extends Orderly script s where
  ended : s.state.mode = .ended → s.phase = .closed

variable {script : Script} {s s' : Session} {item : Item} {o : Outcome}

theorem calls_withdraw_subset (s : Session) (item : Item) :
    ∀ c ∈ (s.withdraw item).calls, c ∈ s.calls := by
  intro c hc
  cases item with
  | start | ticket => exact hc
  | call => exact List.mem_of_mem_tail hc

theorem Orderly.close (h : Orderly script s) (hphase : s.phase = .running) :
    Sound script s.close := by
  have hbegun : s.state.mode ≠ .idle := h.begun (by rw [hphase]; exact nofun)
  obtain ⟨timers, held, hclose⟩ := s.close_eq
  rw [hclose]
  exact ⟨⟨h.goesBy, h.coherent, nofun, fun _ => hbegun, nofun⟩, fun _ => rfl⟩

theorem Orderly.closeIfEnded (h : Orderly script s) (hphase : s.phase = .running) :
    Sound script s.closeIfEnded := by
  unfold Session.closeIfEnded
  split
  · exact h.close hphase
  · rename_i hgoing
    exact ⟨h, fun hended => absurd (beq_iff_eq.mpr hended) hgoing⟩

theorem Sound.exists_taken_start (h : Sound script s) (hphase : s.phase = .fresh) :
    ∃ o, Taken s.script s.state .start o := by
  have hidle : s.state.mode = .idle := by rw [h.fresh hphase]; rfl
  exact ⟨_, .start hidle⟩

theorem Sound.mode_ne_idle_of_refused (h : Sound script s) (hoffers : Offers s item)
    (hrefused : ∀ o, ¬ Taken s.script s.state item.event o) : s.state.mode ≠ .idle := by
  cases hoffers with
  | start hphase =>
      obtain ⟨o, htaken⟩ := h.exists_taken_start hphase
      exact absurd htaken (hrefused o)
  | ticket hphase hstopped hdue => exact h.begun (by rw [hphase]; exact nofun)
  | call hphase hstopped hdue hcalls => exact h.begun (by rw [hphase]; exact nofun)

/-- A round keeps a session sound. -/
theorem Turned.sound {taken : Option Item} (h : Turned s taken s')
    (hclosed : script.flow.Closed) (hsound : Sound script s) : Sound script s' := by
  cases h with
  | idle => exact hsound
  | closes hphase hstopped => exact hsound.close hphase
  | @takes item o hoffers htaken =>
      obtain ⟨timers, held, hadopt⟩ := adopt_eq (s.withdraw item) o
      have hphase := phase_withdraw hoffers
      have hcoherent := coherent_of_taken hclosed hsound.coherent (hsound.goesBy ▸ htaken)
      have hmode := mode_ne_idle_of_taken htaken
      rw [hadopt]
      refine Orderly.closeIfEnded ⟨?_, ?_, ?_, ?_, ?_⟩ ?_
      · simpa using hsound.goesBy
      · simpa using hcoherent
      · simp [hphase]
      · simpa using fun _ => hmode
      · simpa using fun c hc => hsound.replies c (calls_withdraw_subset s item c hc)
      · simpa using hphase
  | @refuses item hoffers hrefused =>
      have hphase := phase_withdraw hoffers
      have hmode := hsound.mode_ne_idle_of_refused hoffers hrefused
      refine Orderly.closeIfEnded ⟨?_, ?_, ?_, ?_, ?_⟩ ?_
      · simpa using hsound.goesBy
      · simpa using hsound.coherent
      · simp [hphase]
      · simpa using fun _ => hmode
      · simpa using fun c hc => hsound.replies c (calls_withdraw_subset s item c hc)
      · simpa using hphase

theorem Sound.call {e : Event} (h : Sound script s) (he : e.isReply) :
    Sound script (s.call e) := by
  by_cases hphase : s.phase = .closed
  · rw [call_of_closed hphase]
    exact ⟨⟨h.goesBy, h.coherent, h.fresh, h.begun, h.replies⟩, h.ended⟩
  · rw [call_of_not_closed hphase]
    refine ⟨⟨h.goesBy, h.coherent, h.fresh, h.begun, ?_⟩, h.ended⟩
    intro c hc
    rcases List.mem_append.mp hc with hold | hnew
    · exact h.replies c hold
    · rw [List.mem_singleton.mp hnew]
      exact he

theorem Sound.perform (hclosed : script.flow.Closed) (h : Sound script s) (a : Act) :
    Sound script (s.perform a) := by
  cases a with
  | round => exact s.turned_turn.sound hclosed h
  | fire handle =>
      obtain ⟨timers, due, hdeliver⟩ := s.deliver_eq handle
      show Sound script (s.deliver handle)
      rw [hdeliver]
      exact ⟨⟨h.goesBy, h.coherent, h.fresh, h.begun, h.replies⟩, h.ended⟩
  | submit text => exact h.call rfl
  | select option => exact h.call rfl
  | stop => exact ⟨⟨h.goesBy, h.coherent, h.fresh, h.begun, h.replies⟩, h.ended⟩
  | clock now => exact ⟨⟨h.goesBy, h.coherent, h.fresh, h.begun, h.replies⟩, h.ended⟩

theorem sound_start (script : Script) : Sound script (.start script) :=
  ⟨⟨rfl, coherent_initial script, fun _ => rfl, fun h => absurd rfl h, nofun⟩, nofun⟩

theorem sound_performAll (hclosed : script.flow.Closed) (acts : List Act) :
    Sound script ((start script).performAll acts) :=
  acts_induction (P := fun _ _ s => Sound script s) (fun a h => h.perform hclosed a) acts
    (sound_start script)

/-! ## By the clock

The session by the clock decides for itself when to make a round and which timer is to run.
What it does is a list of acts all the same, so whatever is kept by every act is kept by it,
and nothing has to be proved of it again. -/

/-- The second session is the first after some acts. -/
def Leads (s s' : Session) : Prop := ∃ acts, s' = s.performAll acts

theorem Leads.refl (s : Session) : Leads s s := ⟨[], rfl⟩

theorem Leads.trans {s'' : Session} (h : Leads s s') (h' : Leads s' s'') : Leads s s'' := by
  obtain ⟨acts, rfl⟩ := h
  obtain ⟨more, rfl⟩ := h'
  exact ⟨acts ++ more, (performAll_append s acts more).symm⟩

theorem leads_perform (s : Session) (a : Act) : Leads s (s.perform a) := ⟨[a], rfl⟩

/-- The second session is the first after some acts, none of them a reply. -/
def Drifts (s s' : Session) : Prop :=
  ∃ acts : List Act, (∀ a ∈ acts, a.reply? = none) ∧ s' = s.performAll acts

theorem Drifts.refl (s : Session) : Drifts s s := ⟨[], nofun, rfl⟩

theorem Drifts.trans {s'' : Session} (h : Drifts s s') (h' : Drifts s' s'') : Drifts s s'' := by
  obtain ⟨acts, hacts, rfl⟩ := h
  obtain ⟨more, hmore, rfl⟩ := h'
  refine ⟨acts ++ more, fun a ha => ?_, (performAll_append s acts more).symm⟩
  rcases List.mem_append.mp ha with ha | ha
  · exact hacts a ha
  · exact hmore a ha

theorem Drifts.leads (h : Drifts s s') : Leads s s' := by
  obtain ⟨acts, -, hacts⟩ := h
  exact ⟨acts, hacts⟩

theorem drifts_perform (s : Session) {a : Act} (ha : a.reply? = none) : Drifts s (s.perform a) :=
  ⟨[a], fun _ ha' => List.mem_singleton.mp ha' ▸ ha, rfl⟩

/-- What acts other than replies keep is kept. -/
theorem Drifts.induction {P : Session → Prop} (h : Drifts s s')
    (keeps : ∀ {s : Session} {a : Act}, a.reply? = none → P s → P (s.perform a)) (base : P s) :
    P s' := by
  obtain ⟨acts, hacts, rfl⟩ := h
  induction acts generalizing s with
  | nil => exact base
  | cons a acts ih =>
      exact ih (keeps (hacts a List.mem_cons_self) base)
        fun b hb => hacts b (List.mem_cons_of_mem a hb)

theorem drifts_deliverRipe (s : Session) : Drifts s s.deliverRipe := by
  refine ⟨s.timers.ripe.map fun t => .fire t.handle, ?_, ?_⟩
  · rintro a ha
    obtain ⟨t, -, rfl⟩ := List.mem_map.mp ha
    rfl
  · rw [performAll, List.foldl_map]
    rfl

theorem drifts_settleWithin (rounds : Nat) (s : Session) : Drifts s (settleWithin rounds s) := by
  induction rounds generalizing s with
  | zero => exact .refl s
  | succ rounds ih =>
      unfold settleWithin
      split
      · exact (drifts_perform s (a := .round) rfl).trans (ih s.turn)
      · split
        · exact .refl s
        · exact s.drifts_deliverRipe.trans (ih s.deliverRipe)

theorem drifts_settle (s : Session) : Drifts s s.settle := drifts_settleWithin s.rounds s

theorem drifts_passTime (enough : Session → Bool) (goal steps : Nat) (s : Session) :
    Drifts s (passTime enough goal steps s) := by
  induction steps generalizing s with
  | zero => exact .refl s
  | succ steps ih =>
      unfold passTime
      split
      · exact .refl s
      · split
        · rename_i due hdue
          exact ((drifts_perform s (a := .clock due) rfl).trans (drifts_settle _)).trans (ih _)
        · exact drifts_perform s (a := .clock goal) rfl

theorem drifts_sleep (s : Session) (ms : Nat) : Drifts s (s.sleep ms) :=
  (s.drifts_settle.trans (drifts_passTime _ _ _ _)).trans (drifts_settle _)

theorem drifts_awaitMode (s : Session) (mode : Mode) (timeout : Nat) :
    Drifts s (s.awaitMode mode timeout).1 := by
  unfold awaitMode
  split
  · exact s.drifts_settle
  · exact (s.drifts_settle.trans (drifts_passTime _ _ _ _)).trans (drifts_settle _)

theorem leads_ask (s : Session) {a : Act} {e : Event} (h : a.reply? = some e) :
    Leads s (s.ask e).1 := by
  have hcall : s.perform a = s.call e := by
    cases a <;> cases h <;> rfl
  exact (hcall ▸ leads_perform s a).trans (drifts_settle _).leads

end Parley.Session
