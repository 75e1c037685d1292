/-
# Runs of a conversation

`react` decides by mode and event.  `Taken` lists what it can come to, one rule
for each kind of event that can be taken, and `react_eq_ok_iff` says that these
are all:

    start            idle                       the entry of the flow is entered
    submit           awaiting a text            the text is the answer
    select           awaiting a choice          the branch with that id is taken
    advance          not ended, this ticket     the scheduled block is entered

A run is a list of events, and an event that is not taken leaves the state.  So
the history of a run is the list of the events that were taken with what they
came to, its `trace`, and a property of states holds after every run that holds
at the beginning and is kept by every outcome (`run_induction`).
-/
import Parley.Conversation.React

namespace Parley.Conversation

variable {script : Script}

/-! ## One event

Of the pairs of a mode and an event most are refused at once.  The others lead to an outcome,
or to one of two look-ups which may refuse the event still: for the option that is picked,
and for the advance that is due. -/

/-- In state `s` the event is taken and this is the outcome. -/
inductive Taken (script : Script) (s : State) : Event → Outcome → Prop
  | start : s.mode = .idle → Taken script s .start (enter script s script.flow.entry none)
  | submit (text : String) : s.mode = .awaitingText →
      Taken script s (.submit text) (answerText script s text)
  | select {message : String} {binds : Option String} {branches : List Flow.Branch}
      {branch : Flow.Branch} (option : String) : s.mode = .awaitingButton →
      currentStop? script s = some (.choose message binds branches) →
      branches.find? (·.choice.id == option) = some branch →
      Taken script s (.select option) (answerChoice script s message binds branch)
  | advance {p : Pending} : s.mode ≠ .ended → s.pending = some p →
      Taken script s (.advance p.ticket)
        (enter script { s with pending := none } p.target p.carry)

theorem pick_eq_ok {s : State} {option : String} {o : Outcome}
    (h : pick script s option = .ok o) :
    ∃ message binds branches branch,
      currentStop? script s = some (.choose message binds branches) ∧
      branches.find? (·.choice.id == option) = some branch ∧
      o = answerChoice script s message binds branch := by
  unfold pick at h
  split at h
  · rename_i message binds branches hstop
    split at h
    · rename_i branch hfind
      exact ⟨message, binds, branches, branch, hstop, hfind, (Except.ok.inj h).symm⟩
    · cases h
  · cases h

theorem advance_eq_ok {s : State} {ticket : UInt64} {o : Outcome}
    (h : advance script s ticket = .ok o) :
    ∃ p, s.pending = some p ∧ p.ticket = ticket ∧
      o = enter script { s with pending := none } p.target p.carry := by
  unfold advance at h
  split at h
  · rename_i p hp
    obtain ⟨hpending, hticket⟩ := Option.filter_eq_some_iff.mp hp
    exact ⟨p, hpending, by simpa using hticket, (Except.ok.inj h).symm⟩
  · cases h

/-- The rules of `Taken` are all that `react` can come to. -/
theorem react_eq_ok_iff {s : State} {e : Event} {o : Outcome} :
    react script s e = .ok o ↔ Taken script s e o := by
  constructor
  · intro h
    unfold react at h
    split at h
    · cases h
    · rename_i hmode
      cases h
      exact .start hmode
    · cases h
    · rename_i text hmode
      cases h
      exact .submit text hmode
    · cases h
    · rename_i option hmode
      obtain ⟨_, _, _, _, hstop, hfind, rfl⟩ := pick_eq_ok h
      exact .select option hmode hstop hfind
    · cases h
    · rename_i ticket hlive
      obtain ⟨p, hpending, rfl, rfl⟩ := advance_eq_ok h
      exact .advance (fun hended => hlive hended) hpending
  · intro h
    cases h with
    | start hmode => simp [react, hmode]
    | submit text hmode => simp [react, hmode]
    | select option hmode hstop hfind => simp [react, hmode, pick, hstop, hfind]
    | @advance p hlive hpending =>
        have hdue : s.pending.filter (·.ticket == p.ticket) = some p :=
          Option.filter_eq_some_iff.mpr ⟨hpending, beq_self_eq_true _⟩
        cases hmode : s.mode with
        | ended => exact absurd hmode hlive
        | idle | running | awaitingText | awaitingButton =>
            simp only [react, hmode, advance, hdue]

theorem mode_ne_ended_of_taken {s : State} {e : Event} {o : Outcome} (h : Taken script s e o) :
    s.mode ≠ .ended := by
  intro hended
  cases h with
  | start hmode => cases hended.symm.trans hmode
  | submit text hmode => cases hended.symm.trans hmode
  | select option hmode hstop hfind => cases hended.symm.trans hmode
  | advance hlive hpending => exact hlive hended

/-! ## Lists of events

A run forgets the events that were refused, and its trace is made of the others.  Both
inductions go from the front of the list and say what every outcome keeps; the second lets
the invariant speak of the trace as well. -/

/-- The events of a list that are taken, in order, with their outcomes. -/
def trace (script : Script) : State → List Event → List (Event × Outcome)
  | _, [] => []
  | s, e :: es =>
    match react script s e with
    | .ok o => (e, o) :: trace script o.state es
    | .error _ => trace script s es

@[simp]
theorem run_cons (s : State) (e : Event) (es : List Event) :
    run script s (e :: es) = run script (next script s e) es := rfl

theorem run_append (s : State) (es more : List Event) :
    run script s (es ++ more) = run script (run script s es) more := List.foldl_append

theorem trace_append (s : State) (es more : List Event) :
    trace script s (es ++ more) = trace script s es ++ trace script (run script s es) more := by
  induction es generalizing s with
  | nil => rfl
  | cons e es ih =>
      rw [List.cons_append, run_cons, next]
      cases h : react script s e with
      | ok o =>
          simp only [trace, h]
          rw [ih, List.cons_append]
      | error r =>
          simp only [trace, h]
          exact ih s

theorem next_of_taken {s : State} {e : Event} {o : Outcome} (h : Taken script s e o) :
    next script s e = o.state := by
  simp [next, react_eq_ok_iff.mpr h]

/-- What holds at first and is kept by every outcome holds after every run. -/
theorem run_induction {P : State → Prop}
    (keeps : ∀ {s e o}, P s → Taken script s e o → P o.state) :
    ∀ (es : List Event) {s : State}, P s → P (run script s es)
  | [], _, h => h
  | e :: es, s, h => by
      rw [run_cons]
      apply run_induction keeps es
      cases hreact : react script s e with
      | ok o =>
          have htaken := react_eq_ok_iff.mp hreact
          exact next_of_taken htaken ▸ keeps h htaken
      | error r => simpa [next, hreact] using h

/-- What holds of the history and the state at first, and goes on to hold with every
outcome that is added to the history, holds after every run. -/
theorem history_induction {P : List (Event × Outcome) → State → Prop}
    (keeps : ∀ {t s e o}, P t s → Taken script s e o → P (t ++ [(e, o)]) o.state)
    (es : List Event) {s : State} (base : P [] s) : P (trace script s es) (run script s es) := by
  -- the induction is on the events to come, after any history
  suffices h : ∀ t, P t s → P (t ++ trace script s es) (run script s es) from h [] base
  clear base
  induction es generalizing s with
  | nil =>
      intro t ht
      rw [trace, List.append_nil]
      exact ht
  | cons e es ih =>
      intro t ht
      rw [run_cons]
      unfold trace
      split
      · rename_i o hreact
        have htaken := react_eq_ok_iff.mp hreact
        rw [next_of_taken htaken, List.append_cons]
        exact ih _ (keeps ht htaken)
      · rename_i r hreact
        have hnext : next script s e = s := by simp [next, hreact]
        rw [hnext]
        exact ih t ht

theorem run_eq_of_trace_eq_nil :
    ∀ (es : List Event) {s : State}, trace script s es = [] → run script s es = s
  | [], _, _ => rfl
  | e :: es, s, h => by
      unfold trace at h
      split at h
      · cases h
      · rename_i r hreact
        have hnext : next script s e = s := by simp [next, hreact]
        rw [run_cons, hnext]
        exact run_eq_of_trace_eq_nil es h

end Parley.Conversation
