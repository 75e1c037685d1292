/-
# Conversations read off the graph

A conversation goes by a flow, in which every step knows where it leads.  `reactOn`
is the same conversation read off the graph itself, with no flow in between: it
looks the present block up by its id and follows the connections each time.

| where it goes on      | to                                                        |
| :-------------------- | :-------------------------------------------------------- |
| at the start          | the Welcome block                                         |
| from a handle         | the target of the first connection that leaves the handle |
|                       | or nowhere, if nothing does or that target does not exist |
| from a Goodbye block  | nowhere, whatever leaves it                               |
| from a Field block    | at once, and to the end from one that it came to before   |

There is no budget for Field blocks here, for `roam` shows that a flow needs none.

Where the ids of the blocks differ, making the flow first and going by it makes no
difference to any event (`react_ofGraph`), and so none to the course of any
conversation (`course_ofGraph`).
-/
import Parley.Proofs.Conversation.Roaming
import Parley.Proofs.Flow.Closed

namespace Parley

/-! ## Ways through a graph

Nothing is prepared here: a block is looked up by its id when the conversation is at it, and
the connection that leaves it when it goes on.  Field blocks that were passed are noted, so
that a circle of them is come round to once. -/

/-- Where the first connection from a handle leads, if that block exists. -/
def Graph.lead? (g : Graph) (source : Endpoint) : Option String :=
  match g.outgoing source with
  | [] => none
  | c :: _ => if g.hasBlock c.target.block then some c.target.block else none

namespace Conversation

/-- Says something and goes on after the pause for a message. -/
def speakOn (pace : Pace) (s : State) (message : String) (target : Option String) : Outcome :=
  ⟨(s.say (.bot message)).schedule target none,
    [.notify (.message (.bot message)), .schedule pace.message s.nextTicket]⟩

/-- What is remaining of a graph whose blocks `passed` were passed. -/
def unpassed (g : Graph) (passed : List String) : Nat := remaining (g.blocks.map (·.id)) passed

theorem unpassed_cons_lt {g : Graph} {passed : List String} {id : String} {b : Block}
    (hb : g.block? id = some b) (hnew : id ∉ passed) :
    unpassed g (id :: passed) < unpassed g passed := by
  have hid := Graph.id_of_block? hb
  exact remaining_cons_lt (hid ▸ List.mem_map_of_mem (Graph.mem_of_block? hb)) hnew

/-- Enters a block of the graph, or the end. -/
def enterOn (g : Graph) (pace : Pace) (carry : Option String) (passed : List String) (s : State)
    (target : Option String) : Outcome :=
  match target with
  | none => s.finish
  | some id =>
    let next := g.lead? ⟨id, Block.outputName⟩
    let here := s.moveTo id
    match _hb : g.block? id with
    | none => s.finish
    | some ⟨_, _, .welcome message⟩ | some ⟨_, _, .message message⟩ =>
      speakOn pace here message next
    | some ⟨_, _, .goodbye message⟩ => speakOn pace here message none
    | some ⟨_, _, .question message _⟩ => await here (.bot message) .awaitingText .text
    | some ⟨_, _, .buttons message _ choices⟩ =>
      await here (.prompt message choices) .awaitingButton (.button choices)
    | some ⟨_, _, .field binds⟩ =>
      if _hnew : id ∈ passed then s.finish
      else enterOn g pace carry (id :: passed) (capture here binds carry) next
termination_by unpassed g passed
decreasing_by exact unpassed_cons_lt _hb _hnew

/-- A text was given: it is the answer to the Question block that the conversation is at. -/
def answerTextOn (g : Graph) (pace : Pace) (s : State) (text : String) : Outcome :=
  let (binds, next) := match s.current.bind g.block? with
    | some ⟨id, _, .question _ binds⟩ => (binds, g.lead? ⟨id, Block.outputName⟩)
    | _ => (none, none)
  let entry := Entry.user text
  ⟨{ (s.bindTo binds text).say entry with mode := .running }.schedule next (some text),
    [.notify (.message entry), .schedule pace.reply s.nextTicket]⟩

/-- An option was picked: the first of this id at the Buttons block that the conversation
is at.  It is left at the handle of that id. -/
def pickOn (g : Graph) (pace : Pace) (s : State) (option : String) : Except Rejection Outcome :=
  match s.current.bind g.block? with
  | some ⟨id, _, .buttons message binds choices⟩ =>
    match choices.find? (·.id == option) with
    | none => .error (.unknownOption option)
    | some ⟨_, label⟩ =>
      let transcript := withoutPrompt s.transcript ++ [.bot message, .user label]
      .ok ⟨{ s.bindTo binds label with transcript, mode := .running }.schedule
            (g.lead? ⟨id, option⟩) (some label),
        [.notify (.resolved message label), .schedule pace.reply s.nextTicket]⟩
  | _ => .error .notAwaitingButton

/-- The advance with this ticket is due. -/
def advanceOn (g : Graph) (pace : Pace) (s : State) (ticket : UInt64) : Except Rejection Outcome :=
  match s.pending with
  | some p =>
    if p.ticket = ticket then .ok (enterOn g pace p.carry [] { s with pending := none } p.target)
    else .error (.staleAdvance ticket)
  | none => .error (.staleAdvance ticket)

/-- What a conversation over a graph makes of an event. -/
def reactOn (g : Graph) (pace : Pace) (s : State) (e : Event) : Except Rejection Outcome :=
  match s.mode, e with
  | .ended, _ => .error .sessionEnded
  | .idle, .start => .ok (enterOn g pace none [] s (g.welcome?.map (·.id)))
  | _, .start => .error .alreadyStarted
  | .awaitingText, .submit text => .ok (answerTextOn g pace s text)
  | _, .submit _ => .error .notAwaitingText
  | .awaitingButton, .select option => pickOn g pace s option
  | _, .select _ => .error .notAwaitingButton
  | _, .advance ticket => advanceOn g pace s ticket

/-- What comes of each event of a list: the effects or why it was not taken, and the state
after it.  An event that is not taken leaves the state. -/
def course (step : State → Event → Except Rejection Outcome) :
    State → List Event → List (Except Rejection (List Effect) × State)
  | _, [] => []
  | s, e :: es =>
    match step s e with
    | .ok o => (.ok o.effects, o.state) :: course step o.state es
    | .error r => (.error r, s) :: course step s es

end Conversation

/-! ## Steps and blocks

Where two blocks share an id, the flow has the step of the last of them, as a step put into a
table takes the place of an earlier one, and the graph looks up the first.  Where ids differ
there is one step for each block, and looking up the step of an id is looking up the block
and making its step. -/

namespace Flow

variable {g : Graph}

theorem wayOn_eq_lead? (g : Graph) (source : Endpoint) : wayOn g source = g.lead? source := by
  rw [wayOn, Graph.successor?_eq_head?_outgoing, Graph.lead?]
  cases g.outgoing source with
  | nil => rfl
  | cons c cs => exact Option.filter_some ..

/-- Where ids differ, the step of an id is that of the block of the id. -/
theorem step?_ofGraph_of_nodup (hids : (g.blocks.map (·.id)).Nodup) (id : String) :
    (ofGraph g).step? id = (g.block? id).map (stepAt g) := by
  rw [step?_ofGraph, find?_key_reverse hids]
  rfl

end Flow

namespace Conversation

variable {g : Graph} {pace : Pace}

theorem step?_of_block? (hids : (g.blocks.map (·.id)).Nodup) {id bid : String} {place : Position}
    {content : Block.Content} (hb : g.block? id = some ⟨bid, place, content⟩) :
    (Flow.ofGraph g).step? id = some (Flow.stepAt g ⟨id, place, content⟩) := by
  have hid : bid = id := Graph.id_of_block? hb
  rw [Flow.step?_ofGraph_of_nodup hids, hb, hid, Option.map_some]

/-! ## Entering

Both walks note the Field blocks that they have passed and end at the first that comes again.
So they are compared block by block: what the graph says of a block is the step that the flow
has for it, and the ways on are the same. -/

theorem roam_ofGraph (hids : (g.blocks.map (·.id)).Nodup) (carry : Option String)
    (passed : List String) (s : State) (target : Option String) :
    roam ⟨.ofGraph g, pace⟩ carry passed s target = enterOn g pace carry passed s target := by
  -- one case for each kind of block, and two for Field blocks
  fun_induction enterOn g pace carry passed s target with
  | case1 => rw [roam]
  | case2 passed s id hb =>
      apply roam_of_missing
      rw [Flow.step?_ofGraph_of_nodup hids, hb, Option.map_none]
  | case3 passed s id _ _ _ _ message hb =>
      rw [roam_of_halt (step?_of_block? hids hb), Flow.wayOn_eq_lead?]
      rfl
  | case4 passed s id _ _ _ _ message hb =>
      rw [roam_of_halt (step?_of_block? hids hb), Flow.wayOn_eq_lead?]
      rfl
  | case5 passed s id _ _ _ message hb =>
      rw [roam_of_halt (step?_of_block? hids hb)]
      rfl
  | case6 passed s id _ _ _ message binds hb =>
      rw [roam_of_halt (step?_of_block? hids hb)]
      rfl
  | case7 passed s id _ _ _ message binds choices hb =>
      have hchoices :
          Flow.choicesOf (choices.map fun c => ⟨c, Flow.wayOn g ⟨id, c.id⟩⟩) = choices := by
        simp [Flow.choicesOf, Function.comp_def]
      rw [roam_of_halt (step?_of_block? hids hb)]
      show await _ (.prompt message (Flow.choicesOf _)) _ (.button (Flow.choicesOf _)) = _
      rw [hchoices]
  | case8 passed s id _ _ binds hb hagain => exact roam_of_passed (step?_of_block? hids hb) hagain
  | case9 passed s id _ _ _ _ binds hb hnew ih =>
      rw [roam_of_new (step?_of_block? hids hb) hnew, Flow.wayOn_eq_lead?]
      exact ih

theorem enter_ofGraph (hids : (g.blocks.map (·.id)).Nodup) (s : State)
    (target carry : Option String) :
    enter ⟨.ofGraph g, pace⟩ s target carry = enterOn g pace carry [] s target := by
  rw [enter_eq_roam, roam_ofGraph hids]

/-! ## Answers -/

theorem currentStop?_ofGraph (hids : (g.blocks.map (·.id)).Nodup) (s : State) :
    currentStop? ⟨.ofGraph g, pace⟩ s =
      match (s.current.bind g.block?).map (Flow.stepAt g) with
      | some (.halt stop) => some stop
      | _ => none := by
  have hstep : (Flow.ofGraph g).step? = fun id => (g.block? id).map (Flow.stepAt g) :=
    funext (Flow.step?_ofGraph_of_nodup hids)
  rw [currentStop?, hstep, Option.map_bind]
  rfl

theorem askedFor_ofGraph (hids : (g.blocks.map (·.id)).Nodup) (s : State) :
    askedFor ⟨.ofGraph g, pace⟩ s = match s.current.bind g.block? with
      | some ⟨id, _, .question _ binds⟩ => (binds, g.lead? ⟨id, Block.outputName⟩)
      | _ => (none, none) := by
  rw [askedFor, currentStop?_ofGraph hids]
  cases s.current.bind g.block? with
  | none => rfl
  | some b =>
      obtain ⟨id, place, content⟩ := b
      cases content with
      | question message binds => simp only [Option.map_some, Flow.stepAt, Flow.wayOn_eq_lead?]
      | welcome | message | buttons | field | goodbye => rfl

theorem answerText_ofGraph (hids : (g.blocks.map (·.id)).Nodup) (s : State) (text : String) :
    answerText ⟨.ofGraph g, pace⟩ s text = answerTextOn g pace s text := by
  rw [answerText, answerTextOn, askedFor_ofGraph hids]

theorem pick_ofGraph (hids : (g.blocks.map (·.id)).Nodup) (s : State) (option : String) :
    pick ⟨.ofGraph g, pace⟩ s option = pickOn g pace s option := by
  rw [pick, pickOn, currentStop?_ofGraph hids]
  cases s.current.bind g.block? with
  | none => rfl
  | some b =>
      obtain ⟨id, place, content⟩ := b
      cases content with
      | buttons message binds choices =>
          simp only [Option.map_some, Flow.stepAt, List.find?_map, Function.comp_def]
          cases hfind : choices.find? (·.id == option) with
          | none => rfl
          | some c =>
              have hid : c.id = option := by simpa using List.find?_some hfind
              simp only [Option.map_some, Flow.wayOn_eq_lead?, ← hid]
              rfl
      | welcome | message | question | field | goodbye => rfl

/-! ## Events -/

theorem advance_ofGraph (hids : (g.blocks.map (·.id)).Nodup) (s : State) (ticket : UInt64) :
    advance ⟨.ofGraph g, pace⟩ s ticket = advanceOn g pace s ticket := by
  rw [advance, advanceOn]
  cases s.pending with
  | none => rfl
  | some p =>
      by_cases hticket : p.ticket = ticket
      · simp only [Option.filter, hticket, beq_self_eq_true, if_true, enter_ofGraph hids]
      · have hother : (p.ticket == ticket) = false := by simpa using hticket
        simp [Option.filter, hticket]

/-- An event does the same over the flow as over the graph, in any state. -/
theorem react_ofGraph (hids : (g.blocks.map (·.id)).Nodup) (s : State) (e : Event) :
    react ⟨.ofGraph g, pace⟩ s e = reactOn g pace s e := by
  unfold react reactOn
  cases s.mode with
  | ended => rfl
  | idle =>
      cases e with
      | start =>
          show Except.ok (enter _ s _ none) = _
          rw [enter_ofGraph hids]
          rfl
      | submit text => rfl
      | select option => rfl
      | advance ticket => exact advance_ofGraph hids s ticket
  | running =>
      cases e with
      | start => rfl
      | submit text => rfl
      | select option => rfl
      | advance ticket => exact advance_ofGraph hids s ticket
  | awaitingText =>
      cases e with
      | start => rfl
      | submit text => exact congrArg Except.ok (answerText_ofGraph hids s text)
      | select option => rfl
      | advance ticket => exact advance_ofGraph hids s ticket
  | awaitingButton =>
      cases e with
      | start => rfl
      | submit text => rfl
      | select option => exact pick_ofGraph hids s option
      | advance ticket => exact advance_ofGraph hids s ticket

/-- **A conversation may be read off the graph.**  Where the ids of the blocks differ,
each event of any list has the same answer, the same effects and leads to the same state
over the flow of the graph as over the graph itself. -/
theorem course_ofGraph (g : Graph) (hids : (g.blocks.map (·.id)).Nodup) (pace : Pace) (s : State)
    (es : List Event) :
    course (react ⟨.ofGraph g, pace⟩) s es = course (reactOn g pace) s es := by
  have hstep : react ⟨.ofGraph g, pace⟩ = reactOn g pace := by
    funext s e
    exact react_ofGraph hids s e
  rw [hstep]

/-- Options of which one leads round a circle of Field blocks and one first to a block
that does not exist; and a Goodbye block that something leaves. -/
def tangled : Graph where
  blocks :=
    [⟨"w", ⟨0, 0⟩, .welcome "Hi"⟩,
      ⟨"b", ⟨200, 0⟩, .buttons "Which?" (some "pick") [⟨"x", "Round"⟩, ⟨"y", "Out"⟩, ⟨"z", "Bye"⟩]⟩,
      ⟨"f", ⟨400, 0⟩, .field "first"⟩, ⟨"h", ⟨600, 0⟩, .field "second"⟩,
      ⟨"e", ⟨400, 200⟩, .goodbye "Bye"⟩]
  connections :=
    [⟨"c1", ⟨"w", "output"⟩, ⟨"b", "input"⟩⟩, ⟨"c2", ⟨"b", "x"⟩, ⟨"f", "input"⟩⟩,
      ⟨"c3", ⟨"f", "output"⟩, ⟨"h", "input"⟩⟩, ⟨"c4", ⟨"h", "output"⟩, ⟨"f", "input"⟩⟩,
      ⟨"c5", ⟨"b", "y"⟩, ⟨"gone", "input"⟩⟩, ⟨"c6", ⟨"b", "y"⟩, ⟨"e", "input"⟩⟩,
      ⟨"c7", ⟨"b", "z"⟩, ⟨"e", "input"⟩⟩, ⟨"c8", ⟨"e", "output"⟩, ⟨"w", "input"⟩⟩]

/-- The answer that leads into the circle ends the conversation, with both variables bound. -/
theorem course_tangled :
    (tangled.blocks.map (·.id)).Nodup ∧
      (course (reactOn tangled .usual) .initial
          [.start, .advance 0, .submit "Round", .select "x", .advance 1, .advance 1]).map
        (fun r => (r.2.mode, r.2.bindings.entries)) =
        [(.running, []), (.awaitingButton, []), (.awaitingButton, []),
          (.running, [("pick", "Round")]),
          (.ended, [("pick", "Round"), ("first", "Round"), ("second", "Round")]),
          (.ended, [("pick", "Round"), ("first", "Round"), ("second", "Round")])] := by
  have hids : (tangled.blocks.map (·.id)).Nodup := by decide
  refine ⟨hids, ?_⟩
  rw [← course_ofGraph tangled hids]
  decide +kernel

end Conversation

end Parley
