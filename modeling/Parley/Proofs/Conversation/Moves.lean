/-
# Moves of a conversation

An event that is taken makes one *move*, and these are all there are:

| move        | after       | transcript                  | told                     | scheduled |
| :---------- | :---------- | :-------------------------- | :----------------------- | :-------- |
| `speaks`    | no reply    | a line of the bot           | the line                 | one       |
| `asks`      | no reply    | a line of the bot           | the line, awaiting text  |           |
| `offers`    | no reply    | an open prompt              | the line, awaiting these |           |
| `ends`      | no reply    | as it was                   | ended                    |           |
| `answers`   | a text      | a line of the user          | the line                 | one       |
| `picks`     | an option   | the prompt closed, the pick | the prompt and the pick  | one       |

`move_of_taken` says so for every coherent state.  It is all that is needed of a
reaction by whoever looks at the transcript, the notices and the advances and not
at the block the conversation has come to, so the interpreter is not looked at
again.  What is scheduled goes with the pending advance: a move leaves one just if
it schedules one, under the next ticket.
-/
import Parley.Proofs.Conversation.Coherent

namespace Parley.Conversation

/-! ## What is told and what is scheduled

Of the effects of an outcome each is a notice or schedules an advance.  The two kinds are
looked at apart, in the order in which they come among the others of their kind. -/

/-- The notice that an effect is. -/
def Effect.notice? : Effect → Option Notice
  | .notify n => some n
  | .schedule .. => none

/-- The ticket that an effect schedules an advance for. -/
def Effect.ticket? : Effect → Option UInt64
  | .notify _ => none
  | .schedule _ ticket => some ticket

/-- What an outcome tells observers. -/
def Outcome.notices (o : Outcome) : List Notice := o.effects.filterMap Effect.notice?

/-- The tickets that an outcome schedules advances for. -/
def Outcome.tickets (o : Outcome) : List UInt64 := o.effects.filterMap Effect.ticket?

/-- The ticket of the pending advance, if one is pending. -/
def State.pendingTickets (s : State) : List UInt64 := (s.pending.map (·.ticket)).toList

/-- The user said something. -/
def Event.isReply : Event → Bool
  | .submit _ | .select _ => true
  | .start | .advance _ => false

/-! ## Moves -/

/-- From `s` an advance is scheduled under the next ticket, and it is pending then. -/
structure Schedules (s : State) (o : Outcome) : Prop where
  tickets : o.tickets = [s.nextTicket]
  pending : o.state.pendingTickets = [s.nextTicket]
  nextTicket : o.state.nextTicket = s.nextTicket + 1

/-- From `s` no advance is scheduled, and none is pending any more. -/
structure Rests (s : State) (o : Outcome) : Prop where
  tickets : o.tickets = []
  pending : o.state.pending = none
  nextTicket : o.state.nextTicket = s.nextTicket

/-- What an event that is taken in state `s` can come to, as others can tell. -/
inductive Move (s : State) (e : Event) (o : Outcome) : Prop
  | speaks {message : String} : e.isReply = false → o.state.mode = .running →
      o.state.transcript = s.transcript ++ [.bot message] →
      o.notices = [.message (.bot message)] → Schedules s o → Move s e o
  | asks {message : String} : e.isReply = false → o.state.mode = .awaitingText →
      o.state.transcript = s.transcript ++ [.bot message] →
      o.notices = [.message (.bot message), .awaiting .text] → Rests s o → Move s e o
  | offers {message : String} {choices : List Choice} : e.isReply = false →
      o.state.mode = .awaitingButton →
      o.state.transcript = s.transcript ++ [.prompt message choices] →
      o.notices = [.message (.prompt message choices), .awaiting (.button choices)] →
      Rests s o → Move s e o
  | ends : e.isReply = false → o.state.mode = .ended → o.state.transcript = s.transcript →
      o.notices = [.ended] → Rests s o → Move s e o
  | answers {text : String} : e = .submit text → o.state.mode = .running →
      o.state.transcript = s.transcript ++ [.user text] →
      o.notices = [.message (.user text)] → Schedules s o → Move s e o
  | picks {option message reply : String} {choices : List Choice} : e = .select option →
      o.state.mode = .running → s.transcript.getLast? = some (.prompt message choices) →
      o.state.transcript = s.transcript.dropLast ++ [.bot message, .user reply] →
      o.notices = [.resolved message reply] → Schedules s o → Move s e o

variable {script : Script} {s : State} {e : Event} {o : Outcome}

theorem move_of_arrival (he : e.isReply = false)
    (h : Arrival script { s with pending := none } o) : Move s e o := by
  cases h with
  | ended bindings => exact .ends he rfl rfl rfl ⟨rfl, rfl, rfl⟩
  | @stopped bindings id stop hstep =>
      cases stop with
      | say message next => exact .speaks he rfl rfl rfl ⟨rfl, rfl, rfl⟩
      | farewell message => exact .speaks he rfl rfl rfl ⟨rfl, rfl, rfl⟩
      | ask message binds next => exact .asks he rfl rfl rfl ⟨rfl, rfl, rfl⟩
      | choose message binds branches => exact .offers he rfl rfl rfl ⟨rfl, rfl, rfl⟩

theorem move_answerText (script : Script) (s : State) (text : String) :
    Move s (.submit text) (answerText script s text) := by
  unfold answerText
  obtain ⟨binds, next⟩ := askedFor script s
  cases binds with
  | none => exact .answers rfl rfl rfl rfl ⟨rfl, rfl, rfl⟩
  | some name => exact .answers rfl rfl rfl rfl ⟨rfl, rfl, rfl⟩

theorem withoutPrompt_of_last {t : List Entry} {message : String} {choices : List Choice}
    (h : t.getLast? = some (.prompt message choices)) : withoutPrompt t = t.dropLast := by
  rw [withoutPrompt, h]
  rfl

theorem move_answerChoice (script : Script) {message : String} {choices : List Choice}
    (hlast : s.transcript.getLast? = some (.prompt message choices)) (option : String)
    (binds : Option String) (branch : Flow.Branch) :
    Move s (.select option) (answerChoice script s message binds branch) := by
  rw [answerChoice, withoutPrompt_of_last hlast]
  cases binds with
  | none => exact .picks rfl rfl hlast rfl rfl ⟨rfl, rfl, rfl⟩
  | some name => exact .picks rfl rfl hlast rfl rfl ⟨rfl, rfl, rfl⟩

/-- **An event that is taken in a coherent state makes a move.** -/
theorem move_of_taken (h : Coherent script s) (htaken : Taken script s e o) : Move s e o := by
  cases htaken with
  | start hmode =>
      obtain rfl : s = .initial := h.idle hmode
      exact move_of_arrival rfl (enter_arrival script .initial _ _)
  | submit text hmode => exact move_answerText script s text
  | @select message binds branches branch option hmode hstop hfind =>
      obtain ⟨-, message', binds', branches', hstop', hlast⟩ := h.awaitingButton hmode
      rw [hstop] at hstop'
      cases hstop'
      exact move_answerChoice script hlast option binds branch
  | advance hlive hpending => exact move_of_arrival rfl (enter_arrival ..)

/-- **What every move keeps holds after every run.**  It is kept of the history and the
state together, and only moves of coherent states that have not ended count. -/
theorem move_induction {P : List (Event × Outcome) → State → Prop} (hclosed : script.flow.Closed)
    (base : P [] .initial)
    (keeps : ∀ {t s e o}, P t s → Coherent script s → s.mode ≠ .ended → Taken script s e o →
      Move s e o → P (t ++ [(e, o)]) o.state) (es : List Event) :
    P (trace script .initial es) (run script .initial es) := by
  refine And.right (history_induction (P := fun t s => Coherent script s ∧ P t s) ?_ es
    ⟨coherent_initial script, base⟩)
  rintro t s e o ⟨hcoherent, ht⟩ htaken
  exact ⟨coherent_of_taken hclosed hcoherent htaken,
    keeps ht hcoherent (mode_ne_ended_of_taken htaken) htaken (move_of_taken hcoherent htaken)⟩

end Parley.Conversation
