/-
# Answers

A session keeps book of its calls.  The calls that were answered, each with its answer, and
behind them the calls that wait are all that were made, in the order in which they were:

    calls made  =  calls answered ++ calls that wait
    calls taken =  calls answered with yes

for an answer goes to the call at the head of the queue and is what the conversation said
to it, closing answers the whole queue with no, and a closed session has no queue
(`booked_performAll`).  Numbers are given out once, so the book can be looked up by them.

The other half is the conversation's.  The items that were taken, brought to it again from
the beginning, are all taken again, and lead to the state of the session
(`replayed_performAll`).

A stop is `Final`: whatever is done after it, only the start may be taken still, no timer waits
any more, and after two rounds the session is closed, with a no for every call that had no yes
before the stop.
-/
import Parley.Proofs.Conversation.Acceptance
import Parley.Proofs.Session.Stopping
import Parley.Proofs.Table

namespace Parley.Session

open Conversation

/-- The calls that replies make, each under its number. -/
def numbered (replies : List Event) : List Call := replies.mapIdx Call.mk

/-- The calls among the items of a log. -/
def accepted (log : List Item) : List Call := log.filterMap Item.call?

variable {script : Script} {s s' : Session} {log : List Item}

theorem numbered_concat (replies : List Event) (e : Event) :
    numbered (replies ++ [e]) = numbered replies ++ [⟨(numbered replies).length, e⟩] := by
  simp [numbered]

theorem nodup_numbered (replies : List Event) :
    ((numbered replies).map (·.number)).Nodup := by
  have hrange : (numbered replies).map (·.number) = List.range replies.length :=
    List.ext_getElem (by simp [numbered]) (by simp [numbered])
  rw [hrange]
  exact List.nodup_range

theorem accepted_concat (log : List Item) (item : Item) :
    accepted (log ++ [item]) = accepted log ++ item.call?.toList := by
  cases item <;> simp [accepted, Item.call?]

theorem mem_accepted {c : Call} : c ∈ accepted log ↔ .call c ∈ log := by
  rw [accepted, List.mem_filterMap]
  constructor
  · rintro ⟨item, hitem, hcall⟩
    cases item with
    | start | ticket => cases hcall
    | call => cases hcall; exact hitem
  · intro h
    exact ⟨_, h, rfl⟩

/-! ## The book

A call is entered when it is made and has its answer when its item is answered, or when the
session is closed.  As items are taken from the head of the queue, the calls answered and
those that wait are at all times two parts of one list. -/

/-- `book` is the calls that were answered with their answers, in order. -/
structure Booked (calls : List Call) (log : List Item) (s : Session)
    (book : List (Call × Bool)) : Prop where
  nextCall : s.nextCall = calls.length
  calls : book.map (·.1) ++ s.calls = calls
  answers : s.answers.reverse = book.map fun r => (r.1.number, r.2)
  taken : accepted log = (book.filter (·.2)).map (·.1)
  closed : s.phase = .closed → s.calls = []

variable {calls : List Call} {book : List (Call × Bool)} {item : Item}

theorem Booked.close (h : Booked calls log s book) :
    Booked calls log s.close (book ++ s.calls.map (·, false)) := by
  obtain ⟨timers, held, hclose⟩ := s.close_eq
  rw [hclose]
  refine ⟨h.nextCall, ?_, ?_, ?_, fun _ => rfl⟩
  · simp [← h.calls, Function.comp_def]
  · simp [h.answers, Function.comp_def]
  · simp [h.taken, List.filter_map, Function.comp_def]

theorem Booked.closeIfEnded (h : Booked calls log s book) :
    ∃ book, Booked calls log s.closeIfEnded book := by
  unfold Session.closeIfEnded
  split
  · exact ⟨_, h.close⟩
  · exact ⟨_, h⟩

theorem Booked.congr (h : Booked calls log s book) (hnextCall : s'.nextCall = s.nextCall)
    (hcalls : s'.calls = s.calls) (hanswers : s'.answers = s.answers)
    (hphase : s'.phase = s.phase) : Booked calls log s' book :=
  ⟨hnextCall ▸ h.nextCall, hcalls ▸ h.calls, hanswers ▸ h.answers, h.taken,
    by rw [hphase, hcalls]; exact h.closed⟩

theorem Booked.respond (h : Booked calls log s book) (hoffers : Offers s item) (yes : Bool) :
    ∃ book, Booked calls (log ++ if yes then [item] else [])
      ((s.withdraw item).respond item yes) book := by
  have hlog : item.call? = none →
      accepted (log ++ if yes then [item] else []) = accepted log := by
    intro hnone
    cases yes with
    | false => exact congrArg _ (List.append_nil log)
    | true => simp [accepted_concat, hnone]
  cases hoffers with
  | start hphase => exact ⟨book, h.nextCall, h.calls, h.answers, (hlog rfl).trans h.taken, nofun⟩
  | ticket hphase hstopped hdue =>
      exact ⟨book, h.nextCall, h.calls, h.answers, (hlog rfl).trans h.taken, h.closed⟩
  | @call c rest hphase hstopped hdue hcalls =>
      refine ⟨book ++ [(c, yes)], h.nextCall, ?_, ?_, ?_, ?_⟩
      · simp [← h.calls, withdraw, hcalls, Session.respond]
      · simp [withdraw, Session.respond, h.answers]
      · cases yes with
        | false => simp [h.taken]
        | true => simp [accepted_concat, h.taken, Item.call?]
      · intro hclosed
        cases hphase.symm.trans hclosed

theorem Turned.booked {taken : Option Item} (hturned : Turned s taken s')
    (h : Booked calls log s book) : ∃ book, Booked calls (log ++ taken.toList) s' book := by
  cases hturned with
  | idle => exact ⟨book, (List.append_nil log).symm ▸ h⟩
  | closes => exact ⟨_, (List.append_nil log).symm ▸ h.close⟩
  | @takes item o hoffers htaken =>
      obtain ⟨timers, held, hadopt⟩ := adopt_eq (s.withdraw item) o
      obtain ⟨book, hbook⟩ := h.respond hoffers true
      have hsame : Booked calls (log ++ [item])
          (((s.withdraw item).adopt o).respond item true) book := by
        rw [hadopt]
        cases item <;> exact hbook.congr rfl rfl rfl rfl
      exact hsame.closeIfEnded
  | @refuses item hoffers hrefused =>
      obtain ⟨book, hbook⟩ := h.respond hoffers false
      exact hbook.closeIfEnded

theorem Booked.call (h : Booked calls log s book) (e : Event) :
    ∃ book, Booked (calls ++ [⟨calls.length, e⟩]) log (s.call e) book := by
  by_cases hphase : s.phase = .closed
  · have hcalls := h.closed hphase
    rw [call_of_closed hphase, h.nextCall]
    refine ⟨book ++ [(⟨calls.length, e⟩, false)], by simp, ?_, ?_, ?_, fun _ => hcalls⟩
    · simp [← h.calls, hcalls]
    · simp [h.answers]
    · simp [h.taken]
  · rw [call_of_not_closed hphase, h.nextCall]
    refine ⟨book, by simp, ?_, h.answers, h.taken, fun hclosed => absurd hclosed hphase⟩
    simp [← h.calls]

theorem booked_perform {replies : List Event} (h : Booked (numbered replies) log s book) (a : Act) :
    ∃ book, Booked (numbered (replies ++ a.reply?.toList)) (log ++ (s.took? a).toList)
      (s.perform a) book := by
  have hcall : ∀ e, ∃ book, Booked (numbered (replies ++ [e])) (log ++ []) (s.call e) book := by
    intro e
    rw [numbered_concat, List.append_nil]
    exact h.call e
  have hquiet : Booked (numbered (replies ++ [])) (log ++ []) s book := by
    rwa [List.append_nil, List.append_nil]
  cases a with
  | round =>
      rw [Act.reply?, Option.toList_none, List.append_nil]
      exact s.turned_turn.booked h
  | fire handle =>
      obtain ⟨timers, due, hdeliver⟩ := s.deliver_eq handle
      have hfire : s.perform (.fire handle) = { s with timers, due } := hdeliver
      rw [hfire]
      exact ⟨book, hquiet.congr rfl rfl rfl rfl⟩
  | submit text => exact hcall _
  | select option => exact hcall _
  | stop => exact ⟨book, hquiet.congr rfl rfl rfl rfl⟩
  | clock now => exact ⟨book, hquiet.congr rfl rfl rfl rfl⟩

theorem booked_performAll (script : Script) (acts : List Act) :
    ∃ book, Booked (numbered (made acts)) ((start script).log acts)
      ((start script).performAll acts) book := by
  refine acts_induction
    (P := fun replies log s => ∃ book, Booked (numbered replies) log s book) ?_ acts
    ⟨[], rfl, rfl, rfl, rfl, fun _ => rfl⟩
  rintro replies log s a ⟨book, h⟩
  exact booked_perform h a

/-! ## Looking up answers -/

theorem answer?_eq_some_iff (hnodup : (s.answers.map (·.1)).Nodup) {n : Nat} {yes : Bool} :
    s.answer? n = some yes ↔ (n, yes) ∈ s.answers := by
  constructor
  · intro h
    obtain ⟨⟨m, b⟩, hfind, rfl⟩ := Option.map_eq_some_iff.mp h
    obtain rfl : m = n := by simpa using List.find?_some hfind
    exact List.mem_of_find?_eq_some hfind
  · intro hmem
    have hfind : s.answers.find? (·.1 == n) = some (n, yes) := find?_key_of_mem hnodup hmem
    rw [answer?, hfind]
    rfl

theorem Booked.answer?_iff (h : Booked calls log s book)
    (hnodup : (calls.map (·.number)).Nodup) {c : Call} (hc : c ∈ calls) {yes : Bool} :
    s.answer? c.number = some yes ↔ (c, yes) ∈ book := by
  have hanswers : s.answers.map (·.1) = (book.map (·.1.number)).reverse := by
    rw [← List.reverse_reverse s.answers, h.answers, List.map_reverse, List.map_map]
    rfl
  have honce : (s.answers.map (·.1)).Nodup := by
    rw [hanswers, List.nodup_reverse]
    rw [← h.calls, List.map_append, List.map_map] at hnodup
    exact hnodup.of_append_left
  rw [answer?_eq_some_iff honce, ← List.mem_reverse, h.answers, List.mem_map]
  constructor
  · rintro ⟨⟨d, b⟩, hr, heq⟩
    obtain ⟨hnumber, rfl⟩ := Prod.mk.inj heq
    have hd : d ∈ calls := h.calls ▸ List.mem_append_left _ (List.mem_map_of_mem hr)
    rwa [← List.inj_on_of_nodup_map hnodup hd hc hnumber]
  · intro hr
    exact ⟨_, hr, rfl⟩

/-- A call is answered with yes just if it was taken. -/
theorem Booked.yes_iff (h : Booked calls log s book) (hnodup : (calls.map (·.number)).Nodup)
    {c : Call} (hc : c ∈ calls) : s.answer? c.number = some true ↔ .call c ∈ log := by
  rw [h.answer?_iff hnodup hc, ← mem_accepted, h.taken]
  simp

theorem Booked.waits_iff (h : Booked calls log s book) (hnodup : (calls.map (·.number)).Nodup)
    {c : Call} (hc : c ∈ calls) : s.answer? c.number = none ↔ c ∈ s.calls := by
  have hdisjoint : (book.map (·.1)).Disjoint s.calls :=
    List.disjoint_of_nodup_append (h.calls ▸ hnodup.of_map)
  constructor
  · intro hnone
    refine (List.mem_append.mp (h.calls ▸ hc)).resolve_left fun hbook => ?_
    obtain ⟨⟨d, yes⟩, hr, rfl⟩ := List.mem_map.mp hbook
    cases hnone.symm.trans ((h.answer?_iff hnodup hc).mpr hr)
  · intro hwaits
    refine Option.eq_none_iff_forall_ne_some.mpr fun yes hyes => ?_
    exact hdisjoint (List.mem_map_of_mem ((h.answer?_iff hnodup hc).mp hyes)) hwaits

theorem Booked.accepted_eq (h : Booked calls log s book)
    (hnodup : (calls.map (·.number)).Nodup) :
    accepted log = calls.filter fun c => s.answer? c.number == some true := by
  have hwaiting : s.calls.filter (fun c => s.answer? c.number == some true) = [] := by
    refine List.filter_eq_nil_iff.mpr fun c hc hyes => ?_
    have hnone := (h.waits_iff hnodup (h.calls ▸ List.mem_append_right _ hc)).mpr hc
    rw [hnone] at hyes
    cases hyes
  conv_rhs => rw [← h.calls, List.filter_append, hwaiting, List.append_nil, List.filter_map]
  rw [h.taken]
  refine congrArg _ (List.filter_congr fun r hr => ?_)
  have hc : r.1 ∈ calls := h.calls ▸ List.mem_append_left _ (List.mem_map_of_mem hr)
  have hanswer : s.answer? r.1.number = some r.2 := (h.answer?_iff hnodup hc).mpr hr
  simp [hanswer]

/-! ## The log brought again

Only what was taken is in the log, and it was taken in this order, each item in the state
that those before it had led to.  Brought to a conversation that is at its beginning, the log
is a list of events none of which is refused. -/

/-- The items of the log are taken one after the other, and lead to this state. -/
structure Replayed (script : Script) (log : List Item) (st : State) : Prop where
  inTurn : (trace script .initial (log.map Item.event)).map (·.1) = log.map Item.event
  state : st = run script .initial (log.map Item.event)

theorem Replayed.concat {st : State} {o : Outcome} (h : Replayed script log st)
    (htaken : Taken script st item.event o) : Replayed script (log ++ [item]) o.state := by
  have htrace : trace script st [item.event] = [(item.event, o)] := by
    simp [trace, react_eq_ok_iff.mpr htaken]
  refine ⟨?_, ?_⟩
  · rw [List.map_append, List.map_singleton, trace_append, ← h.state, htrace, List.map_append,
      h.inTurn]
    rfl
  · rw [List.map_append, List.map_singleton, run_append, ← h.state]
    exact (next_of_taken htaken).symm

theorem Replayed.perform (h : Replayed script log s.state) (hscript : s.script = script)
    (a : Act) : Replayed script (log ++ (s.took? a).toList) (s.perform a).state := by
  by_cases ha : a = .round
  · subst ha
    have hturned := s.turned_turn
    rw [took?, Session.perform]
    cases hitem : s.taken? with
    | none =>
        rw [hitem] at hturned
        rw [hturned.state_of_none, Option.toList_none, List.append_nil]
        exact h
    | some item =>
        rw [hitem] at hturned
        obtain ⟨o, htaken, hstate⟩ := hturned.state_of_some
        rw [hstate]
        exact h.concat (hscript ▸ htaken)
  · rw [s.took?_of_ne_round ha, s.state_perform ha, Option.toList_none, List.append_nil]
    exact h

theorem replayed_performAll (hclosed : script.flow.Closed) (acts : List Act) :
    Replayed script ((start script).log acts) ((start script).performAll acts).state := by
  refine And.right (acts_induction
    (P := fun _ log s => Sound script s ∧ Replayed script log s.state) ?_ acts
    ⟨sound_start script, rfl, rfl⟩)
  rintro replies log s a ⟨hsound, h⟩
  exact ⟨hsound.perform hclosed a, h.perform hsound.goesBy a⟩

theorem Replayed.userEntries {st : State} (h : Replayed script log st)
    (hclosed : script.flow.Closed) (hreplies : ∀ c ∈ accepted log, c.event.isReply) :
    st.userEntries = (accepted log).length := by
  have hcount : ∀ item ∈ log, item.event.isReply ↔ item.call?.isSome := by
    intro item hitem
    cases item with
    | start | ticket => exact Iff.rfl
    | call c => exact iff_of_true (hreplies c (mem_accepted.mpr hitem)) rfl
  calc st.userEntries
      = (trace script .initial (log.map Item.event)).countP (·.1.isReply) := by
        rw [h.state]
        exact userEntries_run hclosed _
    _ = ((trace script .initial (log.map Item.event)).map (·.1)).countP Event.isReply := by
        rw [List.countP_map]
        rfl
    _ = (log.map Item.event).countP Event.isReply := by rw [h.inTurn]
    _ = log.countP fun item => item.call?.isSome := by
        rw [List.countP_map]
        exact List.countP_congr hcount
    _ = (accepted log).length := List.length_filterMap_eq_countP.symm

/-! ## Every list of acts

The book and the log speak of the same items.  A call is in the log if it was taken and in
the book with yes if it was answered so, and both are said of one round; so the calls in the
log are those answered with yes. -/

/-- What was answered, what was taken and what it came to agree. -/
structure Truthful (script : Script) (calls : List Call) (log : List Item) (s : Session) :
    Prop where
  /-- A call is answered with yes just if it was taken. -/
  yes_iff : ∀ c ∈ calls, s.answer? c.number = some true ↔ .call c ∈ log
  /-- These are taken in the order in which they were made, each once, and no others are. -/
  inOrder : accepted log = calls.filter fun c => s.answer? c.number == some true
  /-- A call has no answer as long as it waits. -/
  waits_iff : ∀ c ∈ calls, s.answer? c.number = none ↔ c ∈ s.calls
  /-- None waits when the session is closed: what was not taken by then is answered with no. -/
  closed : s.phase = .closed → ∀ c ∈ calls, .call c ∉ log → s.answer? c.number = some false
  /-- The state is what the items that were taken come to. -/
  replayed : Replayed script log s.state
  startsOnce : StartsOnce (log.map Item.event)
  userEntries : s.state.userEntries =
    (calls.filter fun c => s.answer? c.number == some true).length

theorem isReply_of_mem_made {acts : List Act} {e : Event} (he : e ∈ made acts) : e.isReply := by
  obtain ⟨a, -, hreply⟩ := List.mem_filterMap.mp he
  cases a with
  | submit | select => cases hreply; rfl
  | round | fire | stop | clock => cases hreply

theorem event_mem_of_mem_numbered {replies : List Event} {c : Call} (hc : c ∈ numbered replies) :
    c.event ∈ replies := by
  obtain ⟨i, hi, rfl⟩ := List.mem_mapIdx.mp hc
  exact List.getElem_mem hi

theorem Booked.truthful {replies : List Event} (h : Booked (numbered replies) log s book)
    (hclosed : script.flow.Closed) (hreplayed : Replayed script log s.state)
    (hreplies : ∀ e ∈ replies, e.isReply) : Truthful script (numbered replies) log s := by
  have hnodup := nodup_numbered replies
  have hinOrder := h.accepted_eq hnodup
  refine ⟨fun c => h.yes_iff hnodup, hinOrder, fun c => h.waits_iff hnodup, ?_, hreplayed, ?_, ?_⟩
  · intro hphase c hc hlog
    cases hanswer : s.answer? c.number with
    | none =>
        have hwaits := (h.waits_iff hnodup hc).mp hanswer
        rw [h.closed hphase] at hwaits
        cases hwaits
    | some yes =>
        cases yes with
        | false => rfl
        | true => exact absurd ((h.yes_iff hnodup hc).mp hanswer) hlog
  · rw [← hreplayed.inTurn]
    exact startsOnce_run hclosed _
  · rw [← hinOrder]
    refine hreplayed.userEntries hclosed fun c hc => ?_
    rw [hinOrder] at hc
    exact hreplies _ (event_mem_of_mem_numbered (List.mem_of_mem_filter hc))

theorem truthful_of_closed (hclosed : script.flow.Closed) (acts : List Act) :
    Truthful script (numbered (made acts)) ((start script).log acts)
      ((start script).performAll acts) := by
  obtain ⟨book, hbook⟩ := booked_performAll script acts
  exact hbook.truthful hclosed (replayed_performAll hclosed acts) fun e => isReply_of_mem_made

/-! ## The stop

The book of a session that was stopped is the book of any session, so what it says of the
calls after the stop follows from what it says of all of them: a call that the session took
by then was taken before the stop, since nothing but the start is taken after it, and was
answered with yes already. -/

/-- What comes of stopping a session, and of its end. -/
structure Final (s : Session) : Prop where
  /-- After the stop nothing is taken but the start. -/
  takes : ∀ acts, (s.perform .stop).log acts = [] ∨
    (s.phase = .fresh ∧ (s.perform .stop).log acts = [.start])
  /-- So a session that has begun stays where it is. -/
  stands : s.phase ≠ .fresh → ∀ acts, ((s.perform .stop).performAll acts).state = s.state
  /-- No timer waits any more. -/
  silent : ∀ acts, ((s.perform .stop).performAll acts).timers.waiting = []
  /-- The session is closed within two rounds. -/
  closes : ∀ acts, 2 ≤ acts.count .round → ((s.perform .stop).performAll acts).phase = .closed
  /-- A call that was not answered with yes before the stop, whether it waited or was made
  later, is answered with no by then. -/
  drops : ∀ acts, 2 ≤ acts.count .round → ∀ n < ((s.perform .stop).performAll acts).nextCall,
    s.answer? n ≠ some true → ((s.perform .stop).performAll acts).answer? n = some false
  /-- When its conversation has ended a session is closed. -/
  ended : s.state.mode = .ended → s.phase = .closed
  /-- What is closed stays so, and stays where it is. -/
  stays : s.phase = .closed → ∀ acts, (s.performAll acts).phase = .closed ∧
    (s.performAll acts).state = s.state
  /-- Whoever calls then hears no. -/
  answers : s.phase = .closed → ∀ e, (s.call e).answer? s.nextCall = some false

theorem exists_mem_numbered {replies : List Event} {n : Nat} (hn : n < (numbered replies).length) :
    ∃ c ∈ numbered replies, c.number = n :=
  ⟨(numbered replies)[n], List.getElem_mem hn, by simp [numbered]⟩

theorem nextCall_performAll (script : Script) (acts : List Act) :
    ((start script).performAll acts).nextCall = (numbered (made acts)).length := by
  obtain ⟨book, hbook⟩ := booked_performAll script acts
  exact hbook.nextCall

theorem Truthful.yes_of_mem (h : Truthful script calls log s) {c : Call} (hc : .call c ∈ log) :
    s.answer? c.number = some true := by
  have hmem : c ∈ accepted log := mem_accepted.mpr hc
  rw [h.inOrder] at hmem
  exact beq_iff_eq.mp (List.mem_filter.mp hmem).2

/-- The log of acts, a stop and further acts. -/
theorem log_stop (script : Script) (acts more : List Act) :
    (start script).log (acts ++ .stop :: more) = (start script).log acts ++
      (((start script).performAll acts).perform .stop).log more :=
  (log_append _ _ _).trans rfl

theorem performAll_stop (script : Script) (acts more : List Act) :
    (start script).performAll (acts ++ .stop :: more) =
      (((start script).performAll acts).perform .stop).performAll more :=
  performAll_append _ _ _

/-- A call that was taken by some time after a stop was taken before it. -/
theorem mem_log_of_mem_log_stop {acts more : List Act} {c : Call}
    (h : .call c ∈ (start script).log (acts ++ .stop :: more)) :
    .call c ∈ (start script).log acts := by
  have hstopped : (((start script).performAll acts).perform .stop).stopped := rfl
  rw [log_stop] at h
  rcases List.mem_append.mp h with hbefore | hafter
  · exact hbefore
  · rcases log_of_stopped hstopped more with hnone | ⟨-, hstart⟩
    · rw [hnone] at hafter
      cases hafter
    · rw [hstart] at hafter
      cases List.mem_singleton.mp hafter

theorem answer?_of_stop (hclosed : script.flow.Closed) {acts more : List Act} {n : Nat}
    (hphase : ((start script).performAll (acts ++ .stop :: more)).phase = .closed)
    (hn : n < ((start script).performAll (acts ++ .stop :: more)).nextCall)
    (hno : ((start script).performAll acts).answer? n ≠ some true) :
    ((start script).performAll (acts ++ .stop :: more)).answer? n = some false := by
  rw [nextCall_performAll] at hn
  obtain ⟨c, hc, rfl⟩ := exists_mem_numbered hn
  refine (truthful_of_closed hclosed _).closed hphase c hc fun hlog => hno ?_
  exact (truthful_of_closed hclosed acts).yes_of_mem (mem_log_of_mem_log_stop hlog)

theorem final_of_closed (hclosed : script.flow.Closed) (acts : List Act) :
    Final ((start script).performAll acts) := by
  have hstopped : (((start script).performAll acts).perform .stop).stopped := rfl
  have hsound := sound_performAll hclosed acts
  have hreplayed := replayed_performAll hclosed
  refine ⟨log_of_stopped hstopped, ?_, ?_, closed_of_stopped hstopped, ?_, hsound.ended, ?_,
    answer?_of_closed⟩
  · intro hbegun more
    have hstate := (hreplayed (acts ++ .stop :: more)).state
    rw [log_stop, log_of_begun hstopped hbegun more, List.append_nil, performAll_stop] at hstate
    exact hstate.trans (hreplayed acts).state.symm
  · intro more
    exact ((silenced_stop _).performAll more).waiting
  · intro more hrounds n hn hno
    have hcloses := closed_of_stopped hstopped more hrounds
    rw [← performAll_stop] at hcloses hn ⊢
    exact answer?_of_stop hclosed hcloses hn hno
  · intro hphase more
    obtain ⟨hcloses, hstays, -⟩ := closed_performAll hphase more
    exact ⟨hcloses, hstays⟩

/-- **Answers are truthful and the stop is final.**  After any acts on a session over the flow
of any graph: the calls that were answered with yes are those that the conversation took, once
each and in order; the state is what the start and they and the advances come to, with a line
of the user for each; and what waited when the session was closed was answered with no.  If
the session is then stopped nothing is taken any more but the start, no timer runs, two rounds
close it, and every call that was not answered with yes before is answered with no. -/
theorem truthful_performAll (g : Graph) (pace : Pace) (acts : List Act) :
    let script : Script := ⟨.ofGraph g, pace⟩
    let s := (start script).performAll acts
    Truthful script (numbered (made acts)) ((start script).log acts) s ∧ Final s := by
  intro script s
  have hclosed : script.flow.Closed := Flow.closed_ofGraph g
  exact ⟨truthful_of_closed hclosed acts, final_of_closed hclosed acts⟩

/-- A stop while a timer waits and a call is queued.  The timer does not run, and neither the
call that was queued nor one that is made after the stop is taken. -/
theorem truthful_performAll_stop :
    let s := (start ⟨.ofGraph tangled, .usual⟩).performAll
      [.round, .fire 0, .round, .select "x", .round, .submit "queued"]
    let t := (s.perform .stop).performAll [.fire 1, .submit "late", .round, .clock 9000, .round]
    s.phase = .running ∧ s.timers.waiting.map (·.load) = [1] ∧
      s.calls = [⟨1, .submit "queued"⟩] ∧ s.answers = [(0, true)] ∧ t.nextCall = 3 ∧
      t.phase = .closed ∧ t.state = s.state ∧ t.timers.waiting = [] ∧
      t.answer? 0 = some true ∧ t.answer? 1 = some false ∧ t.answer? 2 = some false := by
  intro s t
  obtain ⟨-, hfinal⟩ := truthful_performAll tangled .usual
    [.round, .fire 0, .round, .select "x", .round, .submit "queued"]
  have hrunning : s.phase = .running := by decide +kernel
  have hrounds : 2 ≤ List.count .round
      [.fire 1, .submit "late", .round, .clock 9000, (.round : Act)] := by decide
  have hcalls : t.nextCall = 3 := by decide +kernel
  have hdrops := hfinal.drops _ hrounds
  refine ⟨hrunning, by decide +kernel, by decide +kernel, by decide +kernel, hcalls,
    hfinal.closes _ hrounds, hfinal.stands (hrunning ▸ nofun) _, hfinal.silent _,
    by decide +kernel, ?_, ?_⟩
  · exact hdrops 1 (hcalls ▸ by decide) (by decide +kernel)
  · exact hdrops 2 (hcalls ▸ by decide) (by decide +kernel)

end Parley.Session
