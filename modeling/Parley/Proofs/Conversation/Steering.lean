/-
# What the user types does not steer

A text that the user submits goes into the transcript, into a variable if the question
has one, and with the pending advance to the Field blocks behind it.  It goes nowhere
else.  Two conversations over one flow that hear the same events, but for the texts of
the replies, stay abreast:

| of the state      | in both                                                 |
| :---------------- | :------------------------------------------------------ |
| mode, block       | the same                                                |
| transcript        | the same, but for what the lines of the user say        |
| variables         | the same names are bound                                |
| pending advance   | the same ticket and target; a reply is carried, or none |
| next ticket       | the same                                                |

and what is told and scheduled is the same, but for what the lines of the user say.

An event is taken or refused by the mode, the ticket and the options, and an option is
known by its id, so the text has no say in it.  That a reply is carried must be the same
in both, or a Field block would bind its variable in one of them only.
-/
import Parley.Proofs.Conversation.Abreast

namespace Parley.Conversation

/-- A line without what the user said. -/
def Entry.hush : Entry → Entry
  | .bot text => .bot text
  | .user _ => .user ""
  | .prompt text choices => .prompt text choices

/-- An effect without what the user said. -/
def Effect.hush : Effect → Effect
  | .notify (.message entry) => .notify (.message entry.hush)
  | .notify n => .notify n
  | .schedule delay ticket => .schedule delay ticket

/-- The same effects, but for what the user said. -/
def SameButSaid (fs fs' : List Effect) : Prop := fs'.map Effect.hush = fs.map Effect.hush

/-- The same advance, with the same reply or another. -/
structure Pending.Alike (p p' : Pending) : Prop where
  ticket : p'.ticket = p.ticket
  target : p'.target = p.target
  carry : p'.carry.isSome = p.carry.isSome

/-- The same state, but for what the user said. -/
structure State.Alike (s s' : State) : Prop where
  mode : s'.mode = s.mode
  current : s'.current = s.current
  transcript : s'.transcript.map Entry.hush = s.transcript.map Entry.hush
  names : s'.bindings.keys = s.bindings.keys
  pending : Option.Rel Pending.Alike s.pending s'.pending
  nextTicket : s'.nextTicket = s.nextTicket

variable {script : Script} {s s' : State}

/-! ## Changes of a state

Likeness is kept field by field: the lines that a change adds are alike in both states, the
names that it binds are the same, and the rest of what it sets does not depend on what was
said. -/

namespace State.Alike

theorem say (h : s.Alike s') {entry entry' : Entry} (he : entry'.hush = entry.hush) :
    (s.say entry).Alike (s'.say entry') :=
  { h with
    transcript := by
      simp only [State.say, List.map_append, h.transcript, List.map_cons, he] }

theorem bind (h : s.Alike s') (name value value' : String) :
    (s.bind name value).Alike (s'.bind name value') :=
  { h with
    names := by
      simp only [State.bind, Table.keys_insert, h.names] }

theorem bindTo (h : s.Alike s') (name : Option String) (value value' : String) :
    (s.bindTo name value).Alike (s'.bindTo name value') := by
  cases name with
  | none => exact h
  | some name => exact h.bind name value value'

theorem schedule (h : s.Alike s') (target : Option String) {carry carry' : Option String}
    (hcarry : carry'.isSome = carry.isSome) :
    (s.schedule target carry).Alike (s'.schedule target carry') :=
  { h with
    pending := .some ⟨h.nextTicket, rfl, hcarry⟩
    nextTicket := congrArg (· + 1) h.nextTicket }

theorem moveTo (h : s.Alike s') (id : String) : (s.moveTo id).Alike (s'.moveTo id) :=
  { h with mode := rfl, current := rfl }

theorem resume (h : s.Alike s') :
    State.Alike { s with mode := .running } { s' with mode := .running } :=
  { h with mode := rfl }

theorem rewrite (h : s.Alike s') {t t' : List Entry}
    (ht : t'.map Entry.hush = t.map Entry.hush) :
    State.Alike { s with transcript := t } { s' with transcript := t' } :=
  { h with transcript := ht }

theorem capture (h : s.Alike s') (binds : String) {carry carry' : Option String}
    (hcarry : carry'.isSome = carry.isSome) :
    (capture s binds carry).Alike (capture s' binds carry') := by
  cases carry with
  | none =>
      cases carry' with
      | none => exact h
      | some value' => cases hcarry
  | some value =>
      cases carry' with
      | none => cases hcarry
      | some value' => exact h.bind binds value value'

theorem finish (h : s.Alike s') : s.finish.Abreast SameButSaid State.Alike s'.finish where
  effects := rfl
  state := { h with mode := rfl, current := rfl, pending := .none }

/-! ## Stops and walks

At the same block the two make the same stop, with lines that the bot says and the user does
not.  A walk goes by the flow and by whether there is something to carry, and not by what
that is. -/

theorem pass (h : s.Alike s') (message : String) (target : Option String) :
    (pass script s message target).Abreast SameButSaid State.Alike
      (pass script s' message target) where
  effects := by rw [SameButSaid, Conversation.pass, Conversation.pass, h.nextTicket]
  state := (h.say rfl).schedule target rfl

theorem await (h : s.Alike s') (entry : Entry) (mode : Mode) (input : Input) :
    (await s entry mode input).Abreast SameButSaid State.Alike (await s' entry mode input) where
  effects := rfl
  state := { h.say rfl with mode := rfl }

theorem halt (h : s.Alike s') (stop : Flow.Stop) :
    (halt script s stop).Abreast SameButSaid State.Alike (halt script s' stop) := by
  cases stop with
  | say message next => exact h.pass message next
  | farewell message => exact h.pass message none
  | ask message binds next => exact h.await (.bot message) .awaitingText .text
  | choose message binds branches => exact h.await (.prompt message _) .awaitingButton (.button _)

/-- A walk goes the same way whatever it carries. -/
theorem walk {carry carry' : Option String} (hcarry : carry'.isSome = carry.isSome) :
    ∀ (hops : Nat) {s s' : State} (target : Option String), s.Alike s' →
      (walk script carry hops s target).Abreast SameButSaid State.Alike
        (walk script carry' hops s' target) := by
  intro hops s s' target h
  fun_induction Conversation.walk script carry hops s target generalizing s' with
  | case1 hops s =>
      rw [Conversation.walk]
      exact h.finish
  | case2 hops s id hstep =>
      rw [walk_of_missing hstep]
      exact h.finish
  | case3 hops s id stop hstep =>
      rw [walk_of_halt hstep]
      exact (h.moveTo id).halt stop
  | case4 s id binds next hstep =>
      rw [walk_zero_of_capture hstep]
      exact h.finish
  | case5 s id binds next hstep hops ih =>
      rw [walk_succ_of_capture hstep]
      exact ih ((h.moveTo id).capture binds hcarry)

/-! ## Replies -/

theorem currentStop? (h : s.Alike s') : currentStop? script s' = currentStop? script s := by
  rw [Conversation.currentStop?, Conversation.currentStop?, h.current]

theorem answerText (h : s.Alike s') (text text' : String) :
    (answerText script s text).Abreast SameButSaid State.Alike (answerText script s' text') := by
  have hasked : askedFor script s' = askedFor script s := by
    rw [askedFor, askedFor, h.currentStop?]
  rw [Conversation.answerText, Conversation.answerText, hasked]
  obtain ⟨binds, next⟩ := askedFor script s
  have hsaid : Entry.hush (.user text') = Entry.hush (.user text) := rfl
  have hcarry : (some text').isSome = (some text).isSome := rfl
  refine ⟨?_, ((h.bindTo binds text text').say hsaid).resume.schedule next hcarry⟩
  rw [h.nextTicket]
  rfl

theorem withoutPrompt {t t' : List Entry} (h : t'.map Entry.hush = t.map Entry.hush) :
    (withoutPrompt t').map Entry.hush = (withoutPrompt t).map Entry.hush := by
  have hprompt : ∀ t : List Entry,
      (t.map Entry.hush).getLast?.any Entry.isPrompt = t.getLast?.any Entry.isPrompt := by
    intro t
    rw [List.getLast?_map, Option.any_map]
    congr 1
    funext e
    cases e <;> rfl
  rw [Conversation.withoutPrompt, Conversation.withoutPrompt, ← hprompt t', h, hprompt t]
  split
  · rw [List.map_dropLast, List.map_dropLast, h]
  · exact h

theorem answerChoice (h : s.Alike s') (message : String) (binds : Option String)
    (branch : Flow.Branch) :
    (answerChoice script s message binds branch).Abreast SameButSaid State.Alike
      (answerChoice script s' message binds branch) where
  effects := by
    rw [SameButSaid, Conversation.answerChoice, Conversation.answerChoice, h.nextTicket]
  state := by
    have hlines : ∀ more : List Entry,
        (Conversation.withoutPrompt s'.transcript ++ more).map Entry.hush =
          (Conversation.withoutPrompt s.transcript ++ more).map Entry.hush := by
      intro more
      rw [List.map_append, List.map_append, withoutPrompt h.transcript]
    have hbound := h.bindTo binds branch.choice.label branch.choice.label
    exact (hbound.rewrite (hlines _)).resume.schedule branch.next rfl

theorem pick (h : s.Alike s') (option : String) :
    Agree SameButSaid State.Alike (pick script s option) (pick script s' option) := by
  rw [Conversation.pick, Conversation.pick, h.currentStop?]
  split
  · rename_i message binds branches _
    split
    · rename_i branch _
      exact .taken (h.answerChoice message binds branch)
    · exact .refused _
  · exact .refused _

/-- **One event keeps two conversations abreast whose states are alike.** -/
theorem react (h : s.Alike s') {e e' : Event} (he : e.Alike e') :
    Agree SameButSaid State.Alike (react script s e) (react script s' e') := by
  refine agree_react h.mode he ?_ ?_ ?_ ?_
  · intro _
    exact walk rfl _ _ h
  · intro text text' _ _ _
    exact h.answerText text text'
  · intro option _
    exact h.pick option
  · have hcleared : State.Alike { s with pending := none } { s' with pending := none } :=
      { h with pending := .none }
    have hpending := h.pending
    generalize s.pending = pending, s'.pending = pending' at hpending
    cases hpending with
    | none => exact .none
    | @some p p' hp =>
        refine .some ⟨hp.ticket, ?_⟩
        rw [hp.target]
        exact walk hp.carry _ _ hcleared

end State.Alike

/-! ## Every course -/

theorem State.Alike.refl (s : State) : s.Alike s where
  mode := rfl
  current := rfl
  transcript := rfl
  names := rfl
  pending := by
    cases s.pending with
    | none => exact .none
    | some p => exact .some ⟨rfl, rfl, rfl⟩
  nextTicket := rfl

/-- **What the user types does not steer the conversation.**  Over the flow of any graph and
at any pace, lists of events that differ in the texts of replies only have courses that
differ in what the user said only: the same events are refused, for the same reasons, the
same advances are scheduled, and the states are alike at every step. -/
theorem alike_course_ofGraph (g : Graph) (pace : Pace) {es es' : List Event}
    (hes : List.Forall₂ Event.Alike es es') :
    List.Forall₂ (Abreast SameButSaid State.Alike)
      (course (react ⟨.ofGraph g, pace⟩) .initial es)
      (course (react ⟨.ofGraph g, pace⟩) .initial es') :=
  abreast_course (fun hs he => hs.react he) hes (.refl .initial)

/-- A question with a variable, a Field block behind it, and options that lead back. -/
def asking : Graph where
  blocks :=
    [⟨"w", ⟨0, 0⟩, .welcome "Hi"⟩, ⟨"q", ⟨200, 0⟩, .question "Name?" (some "name")⟩,
      ⟨"f", ⟨400, 0⟩, .field "copy"⟩, ⟨"b", ⟨600, 0⟩, .buttons "Again?" none [⟨"y", "Yes"⟩]⟩]
  connections :=
    [⟨"c1", ⟨"w", "output"⟩, ⟨"q", "input"⟩⟩, ⟨"c2", ⟨"q", "output"⟩, ⟨"f", "input"⟩⟩,
      ⟨"c3", ⟨"f", "output"⟩, ⟨"b", "input"⟩⟩, ⟨"c4", ⟨"b", "y"⟩, ⟨"q", "input"⟩⟩]

/-- A text that comes too early, one that is asked for, and one that is the id of the option
on offer. -/
theorem alike_course_asking :
    let es : List Event :=
      [.start, .submit "", .advance 0, .submit "Ann", .advance 1, .submit "y", .select "y"]
    let es' : List Event :=
      [.start, .submit "Ann", .advance 0, .submit "", .advance 1, .submit "n", .select "y"]
    List.Forall₂ Event.Alike es es' ∧
      (run ⟨.ofGraph asking, .usual⟩ .initial es).bindings.entries =
        [("name", "Ann"), ("copy", "Ann")] ∧
      (run ⟨.ofGraph asking, .usual⟩ .initial es').bindings.entries =
        [("name", ""), ("copy", "")] ∧
      List.Forall₂ (Abreast SameButSaid State.Alike)
        (course (react ⟨.ofGraph asking, .usual⟩) .initial es)
        (course (react ⟨.ofGraph asking, .usual⟩) .initial es') := by
  intro es es'
  have hes : List.Forall₂ Event.Alike es es' :=
    .cons .start <| .cons (.submit ..) <| .cons (.advance 0) <| .cons (.submit ..) <|
      .cons (.advance 1) <| .cons (.submit ..) <| .cons (.select "y") .nil
  exact ⟨hes, by decide +kernel, by decide +kernel, alike_course_ofGraph asking .usual hes⟩

end Parley.Conversation
