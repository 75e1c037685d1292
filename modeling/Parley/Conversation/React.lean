/-
How a conversation reacts to what happens.

`react` takes a state and an event to the next state and the effects, or says
why the event is not taken, and then the state stays.  A conversation takes its
start once, a reply of the kind it waits for, and an advance only with the
ticket of the advance that is scheduled; so late and repeated events do nothing.

Entering a block runs through Field blocks at once, binding the reply that is
carried, and makes its next stop at the first block of another kind.  The run
ends the conversation where there is no way on, and also once it has been at
more Field blocks than the flow has steps, for then they lead in a circle.
-/
import Parley.Conversation.State
import Parley.Fault

namespace Parley.Conversation

/-- The state after an event, and what is to be done. -/
structure Outcome where
  state : State
  effects : List Effect
deriving DecidableEq

namespace State

def say (s : State) (entry : Entry) : State := { s with transcript := s.transcript ++ [entry] }

def bind (s : State) (name value : String) : State :=
  { s with bindings := s.bindings.insert name value }

/-- Binds the variable of a step, if it has one. -/
def bindTo (s : State) (name : Option String) (value : String) : State :=
  match name with
  | some name => s.bind name value
  | none => s

/-- Schedules an advance under the next ticket. -/
def schedule (s : State) (target carry : Option String) : State :=
  { s with
    nextTicket := s.nextTicket + 1
    pending := some ⟨s.nextTicket, target, carry⟩ }

/-- The end. -/
def finish (s : State) : Outcome :=
  ⟨{ s with mode := .ended, current := none, pending := none }, [.notify .ended]⟩

/-- At a block, between stops. -/
def moveTo (s : State) (id : String) : State := { s with current := some id, mode := .running }

end State

/-- Says something and goes on to `target` after a pause. -/
def pass (script : Script) (s : State) (message : String) (target : Option String) : Outcome :=
  ⟨(s.say (.bot message)).schedule target none,
    [.notify (.message (.bot message)), .schedule script.pace.message s.nextTicket]⟩

/-- Says something and waits for the user. -/
def await (s : State) (entry : Entry) (mode : Mode) (input : Input) : Outcome :=
  ⟨{ s.say entry with mode }, [.notify (.message entry), .notify (.awaiting input)]⟩

/-- Makes a stop. -/
def halt (script : Script) (s : State) : Flow.Stop → Outcome
  | .say message next => pass script s message next
  | .farewell message => pass script s message none
  | .ask message _ _ => await s (.bot message) .awaitingText .text
  | .choose message _ branches =>
    let choices := Flow.choicesOf branches
    await s (.prompt message choices) .awaitingButton (.button choices)

/-- Passes a Field block. -/
def capture (s : State) (binds : String) (carry : Option String) : State :=
  match carry with
  | some value => s.bind binds value
  | none => s

/-- Runs through at most `hops` Field blocks to the next stop. -/
def walk (script : Script) (carry : Option String) (hops : Nat) (s : State) (target : Option String) :
    Outcome :=
  match target with
  | none => s.finish
  | some id =>
    match script.flow.step? id with
    | none => s.finish
    | some (.halt stop) => halt script (s.moveTo id) stop
    | some (.capture binds next) =>
      match hops with
      | 0 => (s.moveTo id).finish
      | hops + 1 => walk script carry hops (capture (s.moveTo id) binds carry) next

/-- Enters a block, or the end. -/
def enter (script : Script) (s : State) (target carry : Option String) : Outcome :=
  walk script carry script.flow.size s target

/-- The stop that a conversation is at. -/
def currentStop? (script : Script) (s : State) : Option Flow.Stop :=
  match s.current.bind script.flow.step? with
  | some (.halt stop) => some stop
  | _ => none

/-- The variable of a text question and the way on from it. -/
def askedFor (script : Script) (s : State) : Option String × Option String :=
  match currentStop? script s with
  | some (.ask _ binds next) => (binds, next)
  | _ => (none, none)

/-- A text was given. -/
def answerText (script : Script) (s : State) (text : String) : Outcome :=
  let (binds, next) := askedFor script s
  let entry := Entry.user text
  ⟨{ (s.bindTo binds text).say entry with mode := .running }.schedule next (some text),
    [.notify (.message entry), .schedule script.pace.reply s.nextTicket]⟩

/-- A transcript without the open prompt at its end. -/
def withoutPrompt (transcript : List Entry) : List Entry :=
  if transcript.getLast?.any Entry.isPrompt then transcript.dropLast else transcript

/-- An option was picked. -/
def answerChoice (script : Script) (s : State) (message : String) (binds : Option String)
    (branch : Flow.Branch) : Outcome :=
  let reply := branch.choice.label
  let transcript := withoutPrompt s.transcript ++ [.bot message, .user reply]
  ⟨{ s.bindTo binds reply with transcript, mode := .running }.schedule branch.next (some reply),
    [.notify (.resolved message reply), .schedule script.pace.reply s.nextTicket]⟩

/-- The option of this id was picked, if it is on offer. -/
def pick (script : Script) (s : State) (option : String) : Except Rejection Outcome :=
  match currentStop? script s with
  | some (.choose message binds branches) =>
    match branches.find? (·.choice.id == option) with
    | some branch => .ok (answerChoice script s message binds branch)
    | none => .error (.unknownOption option)
  | _ => .error .notAwaitingButton

/-- The advance with this ticket is due. -/
def advance (script : Script) (s : State) (ticket : UInt64) : Except Rejection Outcome :=
  match s.pending.filter (·.ticket == ticket) with
  | some p => .ok (enter script { s with pending := none } p.target p.carry)
  | none => .error (.staleAdvance ticket)

def react (script : Script) (s : State) (e : Event) : Except Rejection Outcome :=
  match s.mode, e with
  | .ended, _ => .error .sessionEnded
  | .idle, .start => .ok (enter script s script.flow.entry none)
  | _, .start => .error .alreadyStarted
  | .awaitingText, .submit text => .ok (answerText script s text)
  | _, .submit _ => .error .notAwaitingText
  | .awaitingButton, .select option => pick script s option
  | _, .select _ => .error .notAwaitingButton
  | _, .advance ticket => advance script s ticket

/-- The state after an event; one that is not taken leaves it. -/
def next (script : Script) (s : State) (e : Event) : State :=
  match react script s e with
  | .ok o => o.state
  | .error _ => s

/-- The state after a list of events. -/
def run (script : Script) (s : State) (es : List Event) : State := es.foldl (next script) s

end Parley.Conversation
