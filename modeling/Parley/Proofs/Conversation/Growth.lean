/-
# Conversations over flows that grow

A conversation comes only to blocks that its flow leads to, and in a closed flow all of
these have steps.  So a flow that extends a closed one gives it the same course, whatever
else it has: at every block that is come to the step is the same
(`course_of_extends`).

One thing does change that a walk looks at: the budget of hops, which is the number of
steps.  But a walk never feels its budget (`walk_eq_enter`), so with the larger of the two
the walks over both flows can be compared hop by hop (`walk_of_extends`).

With `outgrows_perform?` this becomes a law on edits: whatever adds only what no
conversation can come to changes none.
-/
import Parley.Proofs.Conversation.Abreast
import Parley.Proofs.Conversation.Coherent
import Parley.Proofs.Flow.Growth

namespace Parley.Conversation

variable {f f' : Flow} {pace : Pace} {s : State}

/-- From a block with a step a walk takes the same way over both flows. -/
theorem walk_of_extends (hclosed : f.Closed) (h : f.Extends f') {carry : Option String} :
    ∀ (hops : Nat) {s : State} {target : Option String}, (∀ t ∈ target, (f.step? t).isSome) →
      walk ⟨f', pace⟩ carry hops s target = walk ⟨f, pace⟩ carry hops s target := by
  intro hops s target hknown
  fun_induction walk ⟨f, pace⟩ carry hops s target with
  | case1 => rw [walk]
  | case2 hops s id hstep =>
      have hsome := hknown id rfl
      rw [hstep] at hsome
      cases hsome
  | case3 hops s id stop hstep =>
      rw [walk_of_halt (h.steps id _ hstep)]
      cases stop <;> rfl
  | case4 s id binds next hstep =>
      rw [walk_zero_of_capture (h.steps id _ hstep)]
      rfl
  | case5 s id binds next hstep hops ih =>
      rw [walk_succ_of_capture (h.steps id _ hstep)]
      refine ih ?_
      intro t ht
      exact hclosed id _ hstep t (Option.mem_toList.mpr ht)

theorem enter_of_extends (hclosed : f.Closed) (h : f.Extends f') (s : State)
    {target : Option String} (carry : Option String)
    (hknown : ∀ t ∈ target, (f.step? t).isSome) :
    enter ⟨f', pace⟩ s target carry = enter ⟨f, pace⟩ s target carry := by
  have hless : f.size ≤ max f.size f'.size := Nat.le_max_left ..
  have hless' : f'.size ≤ max f.size f'.size := Nat.le_max_right ..
  rw [← walk_eq_enter ⟨f, pace⟩ hless, ← walk_eq_enter ⟨f', pace⟩ hless']
  exact walk_of_extends hclosed h _ hknown

theorem currentStop?_of_extends (h : f.Extends f') {stop : Flow.Stop}
    (hstop : currentStop? ⟨f, pace⟩ s = some stop) : currentStop? ⟨f', pace⟩ s = some stop := by
  obtain ⟨id, hcurrent, hstep⟩ := exists_step_of_currentStop? hstop
  exact currentStop?_of_step hcurrent (h.steps id _ hstep)

theorem Outcome.Abreast.of_eq {o o' : Outcome} (h : o' = o) : o.Abreast Eq Eq o' := by
  cases h
  exact ⟨rfl, rfl⟩

theorem react_of_extends (hclosed : f.Closed) (hentry : ∀ t ∈ f.entry, (f.step? t).isSome)
    (h : f.Extends f') (hs : Coherent ⟨f, pace⟩ s) (e : Event) :
    react ⟨f, pace⟩ s e = react ⟨f', pace⟩ s e := by
  refine eq_of_agree (agree_react rfl (.refl e) ?_ ?_ ?_ ?_)
  · intro _
    apply Outcome.Abreast.of_eq
    show enter _ s f'.entry none = _
    rw [h.entry]
    exact enter_of_extends hclosed h s none hentry
  · rintro text text' hmode rfl heq
    cases heq
    obtain ⟨-, message, binds, next, hstop⟩ := hs.awaitingText hmode
    apply Outcome.Abreast.of_eq
    simp only [answerText, askedFor, hstop, currentStop?_of_extends h hstop]
  · intro option hmode
    obtain ⟨-, message, binds, branches, hstop, -⟩ := hs.awaitingButton hmode
    simp only [pick, hstop, currentStop?_of_extends h hstop]
    cases branches.find? (·.choice.id == option) with
    | none => exact .refused _
    | some branch => exact .taken ⟨rfl, rfl⟩
  · cases hp : s.pending with
    | none => exact .none
    | some p =>
        refine .some ⟨rfl, .of_eq ?_⟩
        exact enter_of_extends hclosed h _ p.carry (hs.live_of_pending hp).target

/-- **A conversation takes the same course over a flow that extends its own.** -/
theorem course_of_extends (hclosed : f.Closed) (hentry : ∀ t ∈ f.entry, (f.step? t).isSome)
    (h : f.Extends f') (es : List Event) :
    course (react ⟨f', pace⟩) .initial es = course (react ⟨f, pace⟩) .initial es := by
  refine (course_eq_of_invariant (I := Coherent ⟨f, pace⟩) ?_ ?_ es (coherent_initial _)).symm
  · intro s e hs
    exact react_of_extends hclosed hentry h hs e
  · intro s e o hs ho
    exact coherent_of_taken hclosed hs (react_eq_ok_iff.mp ho)

/-- **Edits off the course change no conversation.**  Adding a block that is no Welcome block,
copying or moving any blocks, and adding a connection, also with a new block, at a handle that
one leaves already: if these draw ids that the graph does not name, not even at the end of a
connection, then every list of events has the same course before and after. -/
theorem course_perform?_of_offCourse (g : Graph) (supply : IdSupply) (c : Change)
    (r : Created Made) (hr : g.perform? supply c = some r) (hoff : c.OffCourse g)
    (hnew : ∀ id ∈ g.drawn supply c, id ∉ g.names) (pace : Pace) (es : List Event) :
    course (react ⟨.ofGraph r.graph, pace⟩) .initial es =
      course (react ⟨.ofGraph g, pace⟩) .initial es := by
  have hgrown := Graph.outgrows_perform? hr hoff hnew
  exact course_of_extends (Flow.closed_ofGraph g) (fun _ => Flow.isSome_step?_of_entry)
    hgrown.extends es

/-- A new block at a handle from which the first connection leads nowhere: it is not come to,
though the block behind the first connection does not exist. -/
theorem course_perform?_of_offCourse_tangled :
    let c : Change := .extend ⟨"b", "y"⟩ .message ⟨400, 300⟩
    let es : List Event := [.start, .advance 0, .select "y", .advance 1]
    ∃ r, tangled.perform? ⟨toString, 0⟩ c = some r ∧ c.OffCourse tangled ∧
      (∀ id ∈ tangled.drawn ⟨toString, 0⟩ c, id ∉ tangled.names) ∧
      (run ⟨.ofGraph tangled, .usual⟩ .initial es).mode = .ended ∧
      course (react ⟨.ofGraph r.graph, .usual⟩) .initial es =
        course (react ⟨.ofGraph tangled, .usual⟩) .initial es := by
  intro c es
  have hoff : c.OffCourse tangled := by
    show tangled.outgoing ⟨"b", "y"⟩ ≠ []
    decide
  have hnew : ∀ id ∈ tangled.drawn ⟨toString, 0⟩ c, id ∉ tangled.names := by decide +kernel
  exact ⟨_, rfl, hoff, hnew, by decide +kernel,
    course_perform?_of_offCourse tangled ⟨toString, 0⟩ c _ rfl hoff hnew .usual es⟩

end Parley.Conversation
