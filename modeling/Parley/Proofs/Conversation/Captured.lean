/-
# What a Field block captures

A Field block binds what is carried through it, and a walk carries what the advance did that
it began with.

| the advance was scheduled by | it carries                  |
| :--------------------------- | :-------------------------- |
| a reply                      | what the user said by it    |
| a block that says something  | nothing                     |

So a reply comes through all Field blocks right behind the block that asked for it, also round
a circle of them (`get?_enter_of_captures`).  The first block that says something lets it go,
and Field blocks behind that one leave the variables as they are (`bindings_enter_none`).
There is no third case: from a block that waits a conversation goes on by a new reply, and from
a Goodbye block to the end, so all that lies between a reply and a later Field block says
something (`Handed`).
-/
import Parley.Proofs.Conversation.Roaming
import Parley.Proofs.Conversation.Tickets

namespace Parley

/-- On the way from a target to the next stop there is a Field block with this variable. -/
inductive Flow.Captures (f : Flow) : Option String → String → Prop
  | here {id binds : String} {next : Option String} :
      f.step? id = some (.capture binds next) → Captures f (some id) binds
  | later {id other binds : String} {next : Option String} :
      f.step? id = some (.capture other next) → Captures f next binds →
      Captures f (some id) binds

/-- The block says something and the conversation goes on from it. -/
def Flow.Speaks (f : Flow) (id : String) : Prop :=
  ∃ message next, f.step? id = some (.halt (.say message next))

namespace Conversation

variable {script : Script} {carry : Option String} {passed : List String} {s : State}
  {target : Option String} {id binds : String}

/-! ## Walks

A walk visits each Field block that lies on its way, and once it has gone round a circle it
stops looking.  So the induction is on the walk, with one invariant for the blocks that were
visited (`Holds`) and one for those that a circle comes back to (`Circle`). -/

theorem bindings_halt (script : Script) (s : State) (stop : Flow.Stop) :
    (halt script s stop).state.bindings = s.bindings := by
  cases stop <;> rfl

theorem Holds.roam (h : Holds carry s binds) :
    Holds carry (roam script carry passed s target).state binds := by
  fun_induction Conversation.roam script carry passed s target with
  | case1 | case2 | case4 => exact h
  | case3 passed s id stop hstep =>
      rw [Holds, bindings_halt]
      exact h
  | case5 passed s id other next hstep hnew ih =>
      have hmoved : Holds carry (s.moveTo id) binds := h
      exact ih (hmoved.capture other)

theorem Circle.holds {ids : List String} (h : Circle script carry s ids)
    (hcaptures : script.flow.Captures target binds) (htarget : ∀ id ∈ target, id ∈ ids) :
    Holds carry s binds := by
  induction hcaptures with
  | here hstep =>
      obtain ⟨binds', next', hstep', -, hholds⟩ := h _ (htarget _ rfl)
      rw [hstep] at hstep'
      cases hstep'
      exact hholds
  | later hstep _ ih =>
      obtain ⟨binds', next', hstep', hnext, -⟩ := h _ (htarget _ rfl)
      rw [hstep] at hstep'
      cases hstep'
      refine ih ?_
      rintro t ⟨⟩
      exact hnext

theorem holds_roam_of_captures (htrail : Trail script carry s passed target)
    (h : script.flow.Captures target binds) :
    Holds carry (roam script carry passed s target).state binds := by
  fun_induction roam script carry passed s target with
  | case1 => cases h
  | case2 passed s id hstep =>
      cases h with
      | here hcapture | later hcapture => cases hstep.symm.trans hcapture
  | case3 passed s id stop hstep =>
      cases h with
      | here hcapture | later hcapture => cases hstep.symm.trans hcapture
  | case4 passed s id other next hstep hagain =>
      refine (htrail.circle hagain).holds h ?_
      rintro t ⟨⟩
      exact hagain
  | case5 passed s id other next hstep hnew ih =>
      cases h with
      | here hcapture =>
          cases hstep.symm.trans hcapture
          exact (holds_capture _ binds carry).roam
      | later hcapture hrest =>
          cases hstep.symm.trans hcapture
          exact ih (htrail.cons hstep) hrest

/-- **A reply comes through all Field blocks on the way to the next stop.** -/
theorem get?_enter_of_captures (h : script.flow.Captures target binds) (value : String) :
    (enter script s target (some value)).state.bindings.get? binds = some value := by
  have htrail : Trail script (some value) s [] target := fun id hid => nomatch hid
  rw [enter_eq_roam]
  exact holds_roam_of_captures htrail h value rfl

theorem bindings_walk_none (script : Script) (hops : Nat) (s : State) (target : Option String) :
    (walk script none hops s target).state.bindings = s.bindings := by
  fun_induction walk script none hops s target with
  | case1 | case2 | case4 => rfl
  | case3 hops s id stop hstep => exact bindings_halt ..
  | case5 s id other next hstep hops ih => exact ih

/-- **Where nothing is carried, nothing is captured.** -/
theorem bindings_enter_none (script : Script) (s : State) (target : Option String) :
    (enter script s target none).state.bindings = s.bindings :=
  bindings_walk_none ..

/-! ## Replies -/

/-- What the user says by a reply: the text, or the label that the option has in the open
prompt. -/
def State.said? (s : State) : Event → Option String
  | .submit text => some text
  | .select option =>
    match s.transcript.getLast? with
    | some (.prompt _ choices) => (choices.find? (·.id == option)).map (·.label)
    | _ => none
  | .start | .advance _ => none

/-- Where an event takes a conversation, if it takes it to a block. -/
def State.heading (script : Script) (s : State) : Event → Option String
  | .start => script.flow.entry
  | .advance _ => s.pending.bind (·.target)
  | .submit _ | .select _ => none

/-- The blocks that a conversation was at after each event of a history. -/
def stops (history : List (Event × Outcome)) : List String :=
  history.filterMap (·.2.state.current)

theorem stops_concat (history : List (Event × Outcome)) (e : Event) (o : Outcome) :
    stops (history ++ [(e, o)]) = stops history ++ o.state.current.toList := by
  cases h : o.state.current <;> simp [stops, h]

variable {e : Event} {o : Outcome}

theorem exists_said?_of_taken (h : Coherent script s) (htaken : Taken script s e o)
    (hreply : e.isReply) :
    ∃ value, s.said? e = some value ∧ ∀ p ∈ o.state.pending, p.carry = some value := by
  cases htaken with
  | start hmode => cases hreply
  | advance hlive hpending => cases hreply
  | submit text hmode =>
      refine ⟨text, rfl, ?_⟩
      rintro p ⟨⟩
      rfl
  | @select message binds branches branch option hmode hstop hfind =>
      obtain ⟨-, message', binds', branches', hstop', hlast⟩ := h.awaitingButton hmode
      rw [hstop] at hstop'
      cases hstop'
      have hfound : (Flow.choicesOf branches).find? (·.id == option) = some branch.choice := by
        rw [Flow.choicesOf, List.find?_map]
        exact congrArg (Option.map _) hfind
      refine ⟨branch.choice.label, ?_, ?_⟩
      · simp only [State.said?, hlast, hfound, Option.map_some]
      · rintro p ⟨⟩
        rfl

/-! ## Since a reply

Between a reply and the event in question the conversation takes advances only, since all
other events it would take are replies.  An advance that leads to a block that speaks
schedules the next with nothing to carry. -/

/-- What an advance carries on when the conversation has come to these blocks since a reply by
which the user said `value`. -/
structure Handed (script : Script) (value : String) (between : List String) (p : Pending) :
    Prop where
  fresh : between = [] → p.carry = some value
  spent : between ≠ [] → p.carry = none
  speak : ∀ id ∈ between, script.flow.Speaks id

variable {value : String} {between : List String}

theorem Handed.enter {p p' : Pending} (h : p.target.isSome → Handed script value between p)
    (hp' : (enter script { s with pending := none } p.target p.carry).state.pending = some p')
    (hblock : p'.target.isSome) :
    Handed script value
      (between ++
        (enter script { s with pending := none } p.target p.carry).state.current.toList) p' := by
  have hsome : p.target.isSome := by
    by_contra hnone
    rw [Option.not_isSome_iff_eq_none] at hnone
    rw [hnone, Conversation.enter, walk] at hp'
    cases hp'
  have harrival := enter_arrival script { s with pending := none } p.target p.carry
  generalize Conversation.enter script { s with pending := none } p.target p.carry = o
    at hp' harrival
  cases harrival with
  | ended bindings => cases hp'
  | @stopped bindings id stop hstep =>
      cases stop with
      | farewell message =>
          cases hp'
          cases hblock
      | ask message binds next => cases hp'
      | choose message binds branches => cases hp'
      | say message next =>
          cases hp'
          refine ⟨?_, fun _ => rfl, ?_⟩
          · intro hnil
            cases (List.append_eq_nil_iff.mp hnil).2
          · intro t ht
            rcases List.mem_append.mp ht with hold | hnew
            · exact (h hsome).speak t hold
            · cases List.mem_singleton.mp hnew
              exact ⟨message, next, hstep⟩

theorem handed_run (since : List Event) (hstarted : s.mode ≠ .idle)
    (hcarry : ∀ p ∈ s.pending, p.carry = some value)
    (hlast : replies (trace script s since) = 0) :
    ∀ p ∈ (run script s since).pending, p.target.isSome →
      Handed script value (stops (trace script s since)) p := by
  refine (history_induction (P := fun t s => s.mode ≠ .idle ∧ (replies t = 0 →
    ∀ p ∈ s.pending, p.target.isSome → Handed script value (stops t) p)) ?_ since
    ⟨hstarted, ?_⟩).2 hlast
  · rintro t s e o ⟨hmode, ht⟩ htaken
    refine ⟨mode_ne_idle_of_taken htaken, ?_⟩
    intro hnone p' hp' hblock
    rw [replies_concat] at hnone
    cases htaken with
    | start hidle => exact absurd hidle hmode
    | submit text _ => cases (Nat.add_eq_zero_iff.mp hnone).2
    | select option _ _ _ => cases (Nat.add_eq_zero_iff.mp hnone).2
    | @advance p hlive hpending =>
        rw [stops_concat]
        exact Handed.enter (ht (Nat.add_eq_zero_iff.mp hnone).1 p hpending) hp' hblock
  · intro _ p hp _
    exact ⟨fun _ => hcarry p hp, fun h => absurd rfl h, fun id hid => nomatch hid⟩

theorem captured_of_taken (hstarted : s.mode ≠ .idle) (htaken : Taken script s e o)
    (hcaptures : script.flow.Captures (s.heading script e) binds)
    (h : ∀ p ∈ s.pending, p.target.isSome → Handed script value between p) :
    (∀ id ∈ between, script.flow.Speaks id) ∧
      (between = [] → o.state.bindings.get? binds = some value) ∧
      (between ≠ [] → o.state.bindings = s.bindings) := by
  cases htaken with
  | start hidle => exact absurd hidle hstarted
  | submit text _ => cases hcaptures
  | select option _ _ _ => cases hcaptures
  | @advance p hlive hpending =>
      rw [State.heading, hpending, Option.bind_some] at hcaptures
      have hblock : p.target.isSome := by
        generalize p.target = target at hcaptures
        cases hcaptures <;> rfl
      have hhanded := h p hpending hblock
      refine ⟨hhanded.speak, ?_, ?_⟩
      · intro hnone
        rw [hhanded.fresh hnone]
        exact get?_enter_of_captures hcaptures value
      · intro hsome
        rw [hhanded.spent hsome]
        exact bindings_enter_none ..

/-! ## Every run -/

/-- **A Field block captures the last reply if nothing was said since.**  Over the flow of any
graph: let a reply be taken after some events, and none after it; and then an event that leads
through Field blocks.  The conversation has come since to blocks only that say something.  If to
none, each variable on the way is bound to what the user said by the reply; and if to some, the
variables stay as they are. -/
theorem captured_run_ofGraph (g : Graph) (pace : Pace) (before since : List Event)
    (reply e : Event) :
    let script : Script := ⟨.ofGraph g, pace⟩
    let asked := run script .initial before
    let answered := next script asked reply
    let s := run script answered since
    let between := stops (trace script answered since)
    reply.isReply → (∃ o, react script asked reply = .ok o) →
      replies (trace script answered since) = 0 → ∀ o, react script s e = .ok o →
      ∃ value, asked.said? reply = some value ∧
        ∀ binds, script.flow.Captures (s.heading script e) binds →
          (∀ id ∈ between, script.flow.Speaks id) ∧
            (between = [] → o.state.bindings.get? binds = some value) ∧
            (between ≠ [] → o.state.bindings = s.bindings) := by
  rintro script asked answered s between hreply ⟨a, ha⟩ hlast o ho
  have htaken := react_eq_ok_iff.mp ha
  have hanswered : answered = a.state := next_of_taken htaken
  have hcoherent : Coherent script asked := coherent_run (Flow.closed_ofGraph g) before
  have hstarted : answered.mode ≠ .idle := hanswered ▸ mode_ne_idle_of_taken htaken
  obtain ⟨value, hsaid, hcarry⟩ := exists_said?_of_taken hcoherent htaken hreply
  rw [← hanswered] at hcarry
  refine ⟨value, hsaid, ?_⟩
  intro binds hcaptures
  exact captured_of_taken (mode_run_ne_idle since hstarted) (react_eq_ok_iff.mp ho) hcaptures
    (handed_run since hstarted hcarry hlast)

/-- A question with a Field block right behind it, and another behind a message. -/
def interrupted : Graph where
  blocks :=
    [⟨"w", ⟨0, 0⟩, .welcome "Hi"⟩, ⟨"q", ⟨200, 0⟩, .question "Name?" none⟩,
      ⟨"f", ⟨400, 0⟩, .field "near"⟩, ⟨"m", ⟨600, 0⟩, .message "Thanks"⟩,
      ⟨"h", ⟨800, 0⟩, .field "far"⟩, ⟨"e", ⟨1000, 0⟩, .goodbye "Bye"⟩]
  connections :=
    [⟨"c1", ⟨"w", "output"⟩, ⟨"q", "input"⟩⟩, ⟨"c2", ⟨"q", "output"⟩, ⟨"f", "input"⟩⟩,
      ⟨"c3", ⟨"f", "output"⟩, ⟨"m", "input"⟩⟩, ⟨"c4", ⟨"m", "output"⟩, ⟨"h", "input"⟩⟩,
      ⟨"c5", ⟨"h", "output"⟩, ⟨"e", "input"⟩⟩]

theorem captured_run_interrupted :
    let script : Script := ⟨.ofGraph interrupted, .usual⟩
    let asked := run script .initial [.start, .advance 0]
    let answered := next script asked (.submit "Ann")
    (Event.submit "Ann").isReply ∧ (∃ o, react script asked (.submit "Ann") = .ok o) ∧
      replies (trace script answered []) = 0 ∧
      script.flow.Captures (answered.heading script (.advance 1)) "near" ∧
      ∃ o, react script answered (.advance 1) = .ok o ∧
        o.state.bindings.get? "near" = some "Ann" := by
  intro script asked answered
  have hcaptures : script.flow.Captures (answered.heading script (.advance 1)) "near" := .here rfl
  obtain ⟨value, hsaid, h⟩ := captured_run_ofGraph interrupted .usual [.start, .advance 0] []
    (.submit "Ann") (.advance 1) rfl ⟨_, rfl⟩ rfl _ rfl
  cases hsaid
  exact ⟨rfl, ⟨_, rfl⟩, rfl, hcaptures, _, rfl, (h "near" hcaptures).2.1 rfl⟩

/-- It does not come to the second: the message in between lets it go. -/
theorem interrupted_not_captured :
    let script : Script := ⟨.ofGraph interrupted, .usual⟩
    let asked := run script .initial [.start, .advance 0]
    let answered := next script asked (.submit "Ann")
    let s := run script answered [.advance 1]
    asked.said? (.submit "Ann") = some "Ann" ∧
      (∃ o, react script asked (.submit "Ann") = .ok o) ∧
      replies (trace script answered [.advance 1]) = 0 ∧
      script.flow.Captures (s.heading script (.advance 2)) "far" ∧
      ∃ o, react script s (.advance 2) = .ok o ∧ o.state.bindings.get? "far" = none := by
  intro script asked answered s
  have hcaptures : script.flow.Captures (s.heading script (.advance 2)) "far" := .here rfl
  exact ⟨rfl, ⟨_, rfl⟩, rfl, hcaptures, _, rfl, rfl⟩

end Conversation

end Parley
