/-
# Two conversations side by side

Some laws speak of two conversations that hear the same events, or events that are
much the same, over two flows or in two states.  They say that the one keeps
*abreast* of the other:

    both take the event        with effects that go together, into states that go together
    both refuse the event      for the same reason, and stay where they are

What it is for effects and states to go together is up to the law: `E` and `R` below.
If one event keeps two conversations abreast then so does any list of them
(`abreast_course`).  For one event there are four things to look at, one for each
kind of event: entering the flow, the answer to a question, the pick of an option and
the advance that is due (`agree_react`).  In all other cases the mode alone decides
against the event, and the two modes are the same.
-/
import Mathlib.Data.List.Forall2
import Parley.Proofs.Conversation.OnGraph

namespace Parley.Conversation

/-- The same event, up to the text of a reply. -/
inductive Event.Alike : Event → Event → Prop
  | start : Alike .start .start
  | submit (text text' : String) : Alike (.submit text) (.submit text')
  | select (option : String) : Alike (.select option) (.select option)
  | advance (ticket : UInt64) : Alike (.advance ticket) (.advance ticket)

theorem Event.Alike.refl : ∀ e : Event, e.Alike e
  | .start => .start
  | .submit text => .submit text text
  | .select option => .select option
  | .advance ticket => .advance ticket

/-- Outcomes that go together. -/
structure Outcome.Abreast (E : List Effect → List Effect → Prop) (R : State → State → Prop)
    (o o' : Outcome) : Prop where
  effects : E o.effects o'.effects
  state : R o.state o'.state

/-- Answers to an event that go together. -/
inductive Agree (E : List Effect → List Effect → Prop) (R : State → State → Prop) :
    Except Rejection Outcome → Except Rejection Outcome → Prop
  | taken {o o' : Outcome} : o.Abreast E R o' → Agree E R (.ok o) (.ok o')
  | refused (r : Rejection) : Agree E R (.error r) (.error r)

/-- What came of an event, with the state after it, in two conversations abreast. -/
inductive Abreast (E : List Effect → List Effect → Prop) (R : State → State → Prop) :
    Except Rejection (List Effect) × State → Except Rejection (List Effect) × State → Prop
  | taken {fs fs' : List Effect} {s s' : State} : E fs fs' → R s s' →
      Abreast E R (.ok fs, s) (.ok fs', s')
  | refused {s s' : State} (r : Rejection) : R s s' → Abreast E R (.error r, s) (.error r, s')

variable {E : List Effect → List Effect → Prop} {R : State → State → Prop}

/-- **Conversations that one event keeps abreast are kept so by all lists of events.** -/
theorem abreast_course {V : Event → Event → Prop}
    {step step' : State → Event → Except Rejection Outcome}
    (keeps : ∀ {s s' e e'}, R s s' → V e e' → Agree E R (step s e) (step' s' e'))
    {es es' : List Event} (hes : List.Forall₂ V es es') :
    ∀ {s s' : State}, R s s' →
      List.Forall₂ (Abreast E R) (course step s es) (course step' s' es') := by
  induction hes with
  | nil =>
      intro s s' _
      exact .nil
  | @cons e e' es es' he _ ih =>
      intro s s' hs
      have hagree := keeps hs he
      rw [course, course]
      generalize step s e = a, step' s' e' = a' at hagree
      cases hagree with
      | taken ho => exact .cons (.taken ho.effects ho.state) (ih ho.state)
      | refused r => exact .cons (.refused r hs) (ih hs)

theorem course_eq_of_invariant {step step' : State → Event → Except Rejection Outcome}
    {I : State → Prop} (hsame : ∀ {s e}, I s → step s e = step' s e)
    (hkeeps : ∀ {s e o}, I s → step s e = .ok o → I o.state) :
    ∀ (es : List Event) {s : State}, I s → course step s es = course step' s es := by
  intro es
  induction es with
  | nil =>
      intro s _
      rfl
  | cons e es ih =>
      intro s hs
      rw [course, course, ← hsame hs]
      cases hstep : step s e with
      | ok o => exact congrArg _ (ih (hkeeps hs hstep))
      | error r => exact congrArg _ (ih hs)

theorem eq_of_agree {a a' : Except Rejection Outcome} (h : Agree Eq Eq a a') : a = a' := by
  cases h with
  | @taken o o' ho =>
      obtain ⟨state, effects⟩ := o
      obtain ⟨heffects, hstate⟩ := ho
      cases heffects
      cases hstate
      rfl
  | refused r => rfl

theorem agree_advance {script script' : Script} {s s' : State}
    (h : Option.Rel (fun p p' => p'.ticket = p.ticket ∧
      (enter script { s with pending := none } p.target p.carry).Abreast E R
        (enter script' { s' with pending := none } p'.target p'.carry)) s.pending s'.pending)
    (ticket : UInt64) : Agree E R (advance script s ticket) (advance script' s' ticket) := by
  unfold advance
  generalize s.pending = pending, s'.pending = pending' at h
  cases h with
  | none => exact .refused _
  | @some p p' h =>
      obtain ⟨hticket, henter⟩ := h
      rw [Option.filter_some, Option.filter_some, hticket]
      by_cases hdue : (p.ticket == ticket) = true
      · rw [if_pos hdue, if_pos hdue]
        exact .taken henter
      · rw [if_neg hdue, if_neg hdue]
        exact .refused _

/-- Answers to alike events in states of one mode go together if they do so for each of
the four events that the mode lets through. -/
theorem agree_react {script script' : Script} {s s' : State} {e e' : Event}
    (hmode : s'.mode = s.mode) (he : e.Alike e')
    (hstart : s.mode = .idle →
      (enter script s script.flow.entry none).Abreast E R
        (enter script' s' script'.flow.entry none))
    (hsubmit : ∀ text text', s.mode = .awaitingText → e = .submit text → e' = .submit text' →
      (answerText script s text).Abreast E R (answerText script' s' text'))
    (hselect : ∀ option, s.mode = .awaitingButton →
      Agree E R (pick script s option) (pick script' s' option))
    (hadvance : Option.Rel (fun p p' => p'.ticket = p.ticket ∧
      (enter script { s with pending := none } p.target p.carry).Abreast E R
        (enter script' { s' with pending := none } p'.target p'.carry)) s.pending s'.pending) :
    Agree E R (react script s e) (react script' s' e') := by
  unfold react
  rw [hmode]
  cases he with
  | start =>
      cases h : s.mode with
      | idle => exact .taken (hstart h)
      | running | awaitingText | awaitingButton | ended => exact .refused _
  | submit text text' =>
      cases h : s.mode with
      | awaitingText => exact .taken (hsubmit text text' h rfl rfl)
      | idle | running | awaitingButton | ended => exact .refused _
  | select option =>
      cases h : s.mode with
      | awaitingButton => exact hselect option h
      | idle | running | awaitingText | ended => exact .refused _
  | advance ticket =>
      cases h : s.mode with
      | ended => exact .refused _
      | idle | running | awaitingText | awaitingButton =>
          exact agree_advance hadvance ticket

end Parley.Conversation
