/-
# A Field block put in is not noticed

A conversation over a flow with a detour (`Flow.Detoured`) runs through one Field block more
here and there.  Nobody can tell: it takes the same events, tells and schedules the same,
and comes to the same blocks with the same transcript.  The states differ in two places.

| of the state      | without the detour | with the detour                         |
| :---------------- | :----------------- | :-------------------------------------- |
| the variable      | as it was          | the reply that was carried through it   |
| pending target    | `onward`           | maybe the new block, which leads onward |

The walk with the detour may need more hops, so the two are not compared hop by hop: for
each number of hops without there is one with, and no smaller, that comes to the same
(`walk_detoured`).  If the first is enough for both flows then so is the second, and from
there on the number of hops makes no difference (`walk_eq_enter`).  That is also why it does
not matter whether the detour lies on a circle of Field blocks.
-/
import Parley.Proofs.Conversation.Abreast
import Parley.Proofs.Conversation.Coherent
import Parley.Proofs.Flow.Detour

namespace Parley.Conversation

section States

variable (id binds : String) (onward : Option String)

/-- The same advance, up to a detour. -/
structure Pending.Detoured (p p' : Pending) : Prop where
  ticket : p'.ticket = p.ticket
  carry : p'.carry = p.carry
  target : Flow.Detour id onward p.target p'.target

/-- What two walks have in common of which one made a detour: all but the block, the mode and
the variable. -/
structure State.Underway (s s' : State) : Prop where
  transcript : s'.transcript = s.transcript
  bindings : ∀ name, name ≠ binds → s'.bindings.get? name = s.bindings.get? name
  pending : Option.Rel (Pending.Detoured id onward) s.pending s'.pending
  nextTicket : s'.nextTicket = s.nextTicket

/-- The same state, up to a detour and the variable of the block there. -/
structure State.Detoured (s s' : State) : Prop extends State.Underway id binds onward s s' where
  mode : s'.mode = s.mode
  current : s'.current = s.current

end States

variable {f f' : Flow} {pace : Pace} {id binds : String} {onward : Option String} {s s' : State}

/-! ## Changes of a state

A walk changes a state by a few small steps.  Each of them, made on both sides, keeps two
states apart by no more than they were; and the one that binds may be made on the side of the
detour alone. -/

namespace State.Underway

theorem say (h : s.Underway id binds onward s') (entry : Entry) :
    (s.say entry).Underway id binds onward (s'.say entry) :=
  { h with transcript := congrArg (· ++ [entry]) h.transcript }

theorem bind (h : s.Underway id binds onward s') (name value : String) :
    (s.bind name value).Underway id binds onward (s'.bind name value) :=
  { h with
    bindings := by
      intro other hother
      simp only [State.bind, Table.get?_insert, h.bindings other hother] }

theorem capture (h : s.Underway id binds onward s') (name : String) (carry : Option String) :
    (capture s name carry).Underway id binds onward (capture s' name carry) := by
  cases carry with
  | none => exact h
  | some value => exact h.bind name value

theorem capture_right (h : s.Underway id binds onward s') (carry : Option String) :
    s.Underway id binds onward (Conversation.capture s' binds carry) := by
  cases carry with
  | none => exact h
  | some value =>
      refine { h with bindings := ?_ }
      intro name hname
      rw [Conversation.capture, State.bind, Table.get?_insert, if_neg hname]
      exact h.bindings name hname

theorem moveTo (h : s.Underway id binds onward s') (t : String) :
    (s.moveTo t).Detoured id binds onward (s'.moveTo t) :=
  { h with mode := rfl, current := rfl }

theorem moveTo_right (h : s.Underway id binds onward s') (t : String) :
    s.Underway id binds onward (s'.moveTo t) := { h with }

theorem finish (h : s.Underway id binds onward s') :
    s.finish.Abreast Eq (State.Detoured id binds onward) s'.finish where
  effects := rfl
  state := { h with mode := rfl, current := rfl, pending := .none }

end State.Underway

namespace State.Detoured

theorem bindTo (h : s.Detoured id binds onward s') (name : Option String) (value : String) :
    (s.bindTo name value).Detoured id binds onward (s'.bindTo name value) := by
  cases name with
  | none => exact h
  | some name => exact { h with toUnderway := h.bind name value }

theorem reply (h : s.Detoured id binds onward s') {t t' : List Entry} (ht : t' = t) :
    State.Detoured id binds onward { s with transcript := t, mode := .running }
      { s' with transcript := t', mode := .running } :=
  { h with transcript := ht, mode := rfl }

theorem schedule (h : s.Detoured id binds onward s') {target target' : Option String}
    (htarget : Flow.Detour id onward target target') (carry : Option String) :
    (s.schedule target carry).Detoured id binds onward (s'.schedule target' carry) :=
  { h with
    pending := .some ⟨h.nextTicket, rfl, htarget⟩
    nextTicket := congrArg (· + 1) h.nextTicket }

end State.Detoured

/-! ## Stops -/

theorem detour_none : Flow.Detour id onward none none := .same (Option.some_ne_none id).symm

theorem pass_detoured (h : s.Detoured id binds onward s') (message : String)
    {target target' : Option String} (htarget : Flow.Detour id onward target target') :
    (pass ⟨f, pace⟩ s message target).Abreast Eq (State.Detoured id binds onward)
      (pass ⟨f', pace⟩ s' message target') where
  effects := by rw [pass, pass, h.nextTicket]
  state := State.Detoured.schedule { h with toUnderway := h.say _ } htarget none

theorem await_detoured (h : s.Detoured id binds onward s') (entry : Entry) (mode : Mode)
    (input : Input) :
    (await s entry mode input).Abreast Eq (State.Detoured id binds onward)
      (await s' entry mode input) where
  effects := rfl
  state := { h.say entry with mode := rfl, current := h.current }

theorem halt_detoured (h : s.Detoured id binds onward s') {stop stop' : Flow.Stop}
    (hstop : stop.Matches (Flow.Detour id onward) stop') :
    (halt ⟨f, pace⟩ s stop).Abreast Eq (State.Detoured id binds onward)
      (halt ⟨f', pace⟩ s' stop') := by
  cases hstop with
  | say message hnext => exact pass_detoured h message hnext
  | farewell message => exact pass_detoured h message detour_none
  | ask message name hnext => exact await_detoured h (.bot message) .awaitingText .text
  | choose message name hbranches =>
      rw [halt, halt, Flow.choicesOf_of_matches hbranches]
      exact await_detoured h (.prompt message _) .awaitingButton (.button _)

/-! ## Walks

The number of hops is what keeps this from being an induction on the walk: the detour uses
one up where the walk without does not.  So the statement gives the number of hops for the
one from that for the other. -/

/-- What a walk comes to with so many hops, the other comes to with some that are no fewer. -/
def CatchesUp (R : State → State → Prop) (script script' : Script) (carry : Option String)
    (hops : Nat) (s s' : State) (t t' : Option String) : Prop :=
  ∃ hops', hops ≤ hops' ∧
    (walk script carry hops s t).Abreast Eq R (walk script' carry hops' s' t')

theorem catchesUp_same (h : f.Detoured id binds onward f') {carry : Option String} {hops : Nat}
    (ih : ∀ n, n < hops → ∀ {s s' : State} {t t' : Option String}, Flow.Detour id onward t t' →
      s.Underway id binds onward s' →
      CatchesUp (State.Detoured id binds onward) ⟨f, pace⟩ ⟨f', pace⟩ carry n s s' t t')
    {t : Option String} (ht : t ≠ some id) (hs : s.Underway id binds onward s') :
    CatchesUp (State.Detoured id binds onward) ⟨f, pace⟩ ⟨f', pace⟩ carry hops s s' t t := by
  cases t with
  | none =>
      refine ⟨hops, Nat.le_refl _, ?_⟩
      rw [walk, walk]
      exact hs.finish
  | some q =>
      have hmatch := h.steps q fun hq => ht (congrArg some hq)
      generalize hstep : f.step? q = step, hstep' : f'.step? q = step' at hmatch
      cases hmatch with
      | none =>
          refine ⟨hops, Nat.le_refl _, ?_⟩
          rw [walk_of_missing hstep, walk_of_missing hstep']
          exact hs.finish
      | some hmatch =>
          cases hmatch with
          | halt hstop =>
              refine ⟨hops, Nat.le_refl _, ?_⟩
              rw [walk_of_halt hstep, walk_of_halt hstep']
              exact halt_detoured (hs.moveTo q) hstop
          | capture name hnext =>
              cases hops with
              | zero =>
                  refine ⟨0, Nat.le_refl _, ?_⟩
                  rw [walk_zero_of_capture hstep, walk_zero_of_capture hstep']
                  exact hs.finish
              | succ hops =>
                  have hcaptured := (hs.moveTo q).toUnderway.capture name carry
                  obtain ⟨hops', hle, ho⟩ := ih hops (Nat.lt_succ_self _) hnext hcaptured
                  refine ⟨hops' + 1, Nat.succ_le_succ hle, ?_⟩
                  rw [walk_succ_of_capture hstep, walk_succ_of_capture hstep']
                  exact ho

/-- **A walk with a detour catches up with the walk without.**  It needs one hop more each time
that it comes to the new block. -/
theorem walk_detoured (h : f.Detoured id binds onward f') {carry : Option String} (hops : Nat) :
    ∀ {s s' : State} {t t' : Option String}, Flow.Detour id onward t t' →
      s.Underway id binds onward s' →
      CatchesUp (State.Detoured id binds onward) ⟨f, pace⟩ ⟨f', pace⟩ carry hops s s' t t' := by
  induction hops using Nat.strongRecOn with
  | ind hops ih =>
      intro s s' t t' ht hs
      cases ht with
      | same ht => exact catchesUp_same h ih ht hs
      | via =>
          have hcaptured := (hs.moveTo_right id).capture_right carry
          obtain ⟨hops', hle, ho⟩ := catchesUp_same h ih h.onward_ne hcaptured
          refine ⟨hops' + 1, Nat.le_succ_of_le hle, ?_⟩
          rw [walk_succ_of_capture h.field]
          exact ho

theorem enter_detoured (h : f.Detoured id binds onward f') (hs : s.Underway id binds onward s')
    {t t' : Option String} (ht : Flow.Detour id onward t t') (carry : Option String) :
    (enter ⟨f, pace⟩ s t carry).Abreast Eq (State.Detoured id binds onward)
      (enter ⟨f', pace⟩ s' t' carry) := by
  -- hops enough for either flow
  obtain ⟨hops', hle, ho⟩ := walk_detoured h (max f.size f'.size) ht hs
  have henough : f.size ≤ max f.size f'.size := Nat.le_max_left ..
  have henough' : f'.size ≤ hops' := Nat.le_trans (Nat.le_max_right ..) hle
  rwa [walk_eq_enter ⟨f, pace⟩ henough, walk_eq_enter ⟨f', pace⟩ henough'] at ho

/-! ## Replies -/

theorem currentStop?_detoured (h : f.Detoured id binds onward f') (pace : Pace)
    (hcurrent : s'.current = s.current) :
    Option.Rel (Flow.Stop.Matches (Flow.Detour id onward)) (currentStop? ⟨f, pace⟩ s)
      (currentStop? ⟨f', pace⟩ s') := by
  rw [currentStop?, currentStop?, hcurrent]
  cases s.current with
  | none => exact .none
  | some q =>
      rw [Option.bind_some, Option.bind_some]
      by_cases hq : q = id
      · cases hq
        rw [h.absent, h.field]
        exact .none
      · have hmatch := h.steps q hq
        generalize f.step? q = step, f'.step? q = step' at hmatch
        cases hmatch with
        | none => exact .none
        | some hmatch =>
            cases hmatch with
            | halt hstop => exact .some hstop
            | capture name hnext => exact .none

theorem askedFor_detoured (h : f.Detoured id binds onward f') (pace : Pace)
    (hcurrent : s'.current = s.current) :
    (askedFor ⟨f', pace⟩ s').1 = (askedFor ⟨f, pace⟩ s).1 ∧
      Flow.Detour id onward (askedFor ⟨f, pace⟩ s).2 (askedFor ⟨f', pace⟩ s').2 := by
  have hstops := currentStop?_detoured h pace hcurrent
  rw [askedFor, askedFor]
  generalize currentStop? ⟨f, pace⟩ s = stop, currentStop? ⟨f', pace⟩ s' = stop' at hstops
  cases hstops with
  | none => exact ⟨rfl, detour_none⟩
  | some hstop =>
      cases hstop with
      | ask message binds hnext => exact ⟨rfl, hnext⟩
      | say | farewell | choose => exact ⟨rfl, detour_none⟩

theorem answerText_detoured (h : f.Detoured id binds onward f') (hs : s.Detoured id binds onward s')
    (text : String) :
    (answerText ⟨f, pace⟩ s text).Abreast Eq (State.Detoured id binds onward)
      (answerText ⟨f', pace⟩ s' text) := by
  obtain ⟨hname, hnext⟩ := askedFor_detoured h pace hs.current
  rw [answerText, answerText]
  generalize askedFor ⟨f, pace⟩ s = asked, askedFor ⟨f', pace⟩ s' = asked' at hname hnext
  obtain ⟨name, next⟩ := asked
  obtain ⟨name', next'⟩ := asked'
  cases hname
  refine ⟨?_, ((hs.bindTo name text).reply ?_).schedule hnext _⟩
  · show _ = _
    rw [hs.nextTicket]
  · exact congrArg (· ++ [_]) (hs.bindTo name text).transcript

theorem answerChoice_detoured (hs : s.Detoured id binds onward s') (message : String)
    (name : Option String) {branch branch' : Flow.Branch}
    (hbranch : branch.Matches (Flow.Detour id onward) branch') :
    (answerChoice ⟨f, pace⟩ s message name branch).Abreast Eq (State.Detoured id binds onward)
      (answerChoice ⟨f', pace⟩ s' message name branch') := by
  rw [answerChoice, answerChoice, hbranch.choice, hs.transcript, hs.nextTicket]
  exact ⟨rfl, ((hs.bindTo name branch.choice.label).reply rfl).schedule hbranch.next _⟩

theorem pick_detoured (h : f.Detoured id binds onward f') (hs : s.Detoured id binds onward s')
    (option : String) :
    Agree Eq (State.Detoured id binds onward) (pick ⟨f, pace⟩ s option)
      (pick ⟨f', pace⟩ s' option) := by
  have hstops := currentStop?_detoured h pace hs.current
  rw [pick, pick]
  generalize currentStop? ⟨f, pace⟩ s = stop, currentStop? ⟨f', pace⟩ s' = stop' at hstops
  cases hstops with
  | none => exact .refused _
  | some hstop =>
      cases hstop with
      | say | farewell | ask => exact .refused _
      | @choose message name branches branches' hbranches =>
          have hfound := Flow.find?_of_matches hbranches option
          dsimp only
          generalize branches.find? (·.choice.id == option) = found,
            branches'.find? (·.choice.id == option) = found' at hfound
          cases hfound with
          | none => exact .refused _
          | some hbranch => exact .taken (answerChoice_detoured hs message name hbranch)

/-! ## Every course -/

/-- **An event does the same with a detour as without.** -/
theorem react_detoured (h : f.Detoured id binds onward f') (hs : s.Detoured id binds onward s')
    (e : Event) :
    Agree Eq (State.Detoured id binds onward) (react ⟨f, pace⟩ s e) (react ⟨f', pace⟩ s' e) := by
  refine agree_react hs.mode (.refl e) ?_ ?_ ?_ ?_
  · intro _
    exact enter_detoured h hs.toUnderway h.entry none
  · rintro text text' _ rfl heq
    cases heq
    exact answerText_detoured h hs text
  · intro option _
    exact pick_detoured h hs option
  · have hcleared : State.Underway id binds onward { s with pending := none }
        { s' with pending := none } := { hs with pending := .none }
    have hpending := hs.pending
    generalize s.pending = pending, s'.pending = pending' at hpending
    cases hpending with
    | none => exact .none
    | @some p p' hp =>
        refine .some ⟨hp.ticket, ?_⟩
        rw [hp.carry]
        exact enter_detoured h hcleared hp.target p.carry

theorem detoured_initial : State.initial.Detoured id binds onward .initial where
  transcript := rfl
  bindings _ _ := rfl
  pending := .none
  nextTicket := rfl
  mode := rfl
  current := rfl

/-- **A conversation takes the same course with a detour as without.** -/
theorem course_detoured (h : f.Detoured id binds onward f') (pace : Pace) (es : List Event) :
    List.Forall₂ (Abreast Eq (State.Detoured id binds onward))
      (course (react ⟨f, pace⟩) .initial es) (course (react ⟨f', pace⟩) .initial es) := by
  refine abreast_course ?_ (List.forall₂_same.mpr fun _ _ => rfl) detoured_initial
  rintro s s' e _ hs rfl
  exact react_detoured h hs e

/-- **A Field block put into a connection is not noticed.**  Into a connection that is the only
one at its handle a Field block can always be put, and if its id is new then every list of
events has the same course as before: each is taken or refused as before, with the same
effects, and the states differ in the variable of the block and in where the pending advance
leads only, which is along a detour at most. -/
theorem detoured_course_insertBetween? (g : Graph) (supply : IdSupply) (c : Connection)
    (place : Position) (hids : (g.connections.map (·.id)).Nodup)
    (honly : g.outgoing c.source = [c])
    (hnew : (supply.draw Block.Kind.field.label).1 ∉ g.names) (pace : Pace) (es : List Event) :
    ∃ r, g.insertBetween? supply c.id .field place = some r ∧
      List.Forall₂
        (Abreast Eq (State.Detoured r.made "my_variable" (Flow.wayOn g c.source)))
        (course (react ⟨.ofGraph g, pace⟩) .initial es)
        (course (react ⟨.ofGraph r.graph, pace⟩) .initial es) := by
  have hold : g.connection? c.id = some c :=
    Graph.connection?_of_mem hids (Graph.mem_of_outgoing honly)
  refine ⟨_, Graph.insertBetween?_eq_some rfl hold, ?_⟩
  exact course_detoured (Graph.detoured_splice hids honly hnew) pace es

/-- The connection that closes the circle.  The options lead into it, out to a block that does
not exist, and to the end. -/
theorem detoured_course_insertBetween?_tangled :
    let c : Connection := ⟨"c4", ⟨"h", "output"⟩, ⟨"f", "input"⟩⟩
    let es : List Event := [.start, .advance 0, .select "x", .advance 1]
    (tangled.connections.map (·.id)).Nodup ∧ tangled.outgoing c.source = [c] ∧
      (IdSupply.draw ⟨toString, 0⟩ Block.Kind.field.label).1 ∉ tangled.names ∧
      ∃ r, tangled.insertBetween? ⟨toString, 0⟩ c.id .field ⟨600, 200⟩ = some r ∧
        List.Forall₂
          (Abreast Eq (State.Detoured r.made "my_variable" (Flow.wayOn tangled c.source)))
          (course (react ⟨.ofGraph tangled, .usual⟩) .initial es)
          (course (react ⟨.ofGraph r.graph, .usual⟩) .initial es) := by
  intro c es
  have hids : (tangled.connections.map (·.id)).Nodup := by decide
  have honly : tangled.outgoing c.source = [c] := by decide
  have hnew : (IdSupply.draw ⟨toString, 0⟩ Block.Kind.field.label).1 ∉ tangled.names := by
    decide +kernel
  exact ⟨hids, honly, hnew, detoured_course_insertBetween? tangled ⟨toString, 0⟩ c ⟨600, 200⟩
    hids honly hnew .usual es⟩

end Parley.Conversation
