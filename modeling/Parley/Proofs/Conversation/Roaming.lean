/-
# Walks without a budget

Entering a block runs through Field blocks, and the run is given as many hops as
the flow has steps.  `roam` is the same run without a budget.  It remembers the
Field blocks it has passed and ends at the first that it comes to again, for from
there on it would go round for ever.  The two agree (`enter_eq_roam`), so the
budget is enough for every walk that comes to a stop, however long, and is used up
only by those that never would.

Two facts carry the proof.

  * The steps not passed yet are never more than the hops left, so a walk meets a
    Field block again before its budget is used up.
  * From then on it stays among blocks that it has passed (`Trail`), whose
    variables hold the reply it carries.  Going round them changes nothing more
    (`walk_circle`), however many hops are left.
-/
import Parley.Conversation.React
import Parley.Proofs.Table

namespace Parley.Conversation

/-! ## What is left to pass -/

/-- How many members of a list were not passed. -/
def remaining (all passed : List String) : Nat := (all.filter fun id => id ∉ passed).length

theorem remaining_nil (all : List String) : remaining all [] = all.length := by
  simp [remaining]

theorem remaining_cons_lt {all passed : List String} {id : String} (hid : id ∈ all)
    (hnew : id ∉ passed) : remaining all (id :: passed) < remaining all passed := by
  have hfilter : (all.filter fun x => x ∉ id :: passed) =
      (all.filter fun x => x ∉ passed).filter fun x => x ≠ id := by
    rw [List.filter_filter]
    apply List.filter_congr
    intro x _
    simp [not_or]
  rw [remaining, remaining, hfilter, List.length_filter_lt_length_iff_exists]
  exact ⟨id, List.mem_filter.mpr ⟨hid, by simpa using hnew⟩, by simp⟩

theorem mem_keys_of_step? {f : Flow} {id : String} {step : Flow.Step} (h : f.step? id = some step) :
    id ∈ f.steps.keys :=
  Table.mem_keys_of_get? h

/-! ## The walk

One equation for each case, for the walk with its hops and for the one without.  The two
differ at Field blocks alone: there the one asks whether hops are left, and the other whether
the block was passed. -/

/-- Runs through Field blocks to the next stop, and ends at a Field block that was
passed already. -/
def roam (script : Script) (carry : Option String) (passed : List String) (s : State)
    (target : Option String) : Outcome :=
  match target with
  | none => s.finish
  | some id =>
    match _hstep : script.flow.step? id with
    | none => s.finish
    | some (.halt stop) => halt script (s.moveTo id) stop
    | some (.capture binds next) =>
      if _hnew : id ∈ passed then s.finish
      else roam script carry (id :: passed) (capture (s.moveTo id) binds carry) next
termination_by remaining script.flow.steps.keys passed
decreasing_by exact remaining_cons_lt (mem_keys_of_step? _hstep) _hnew

section Equations

variable {script : Script} {carry : Option String} {passed : List String} {s : State}
  {id binds : String} {next : Option String} {hops : Nat}

theorem roam_of_missing (hstep : script.flow.step? id = none) :
    roam script carry passed s (some id) = s.finish := by
  rw [roam]
  split <;> simp_all

theorem roam_of_halt {stop : Flow.Stop} (hstep : script.flow.step? id = some (.halt stop)) :
    roam script carry passed s (some id) = halt script (s.moveTo id) stop := by
  rw [roam]
  split <;> simp_all

theorem roam_of_passed (hstep : script.flow.step? id = some (.capture binds next))
    (hagain : id ∈ passed) : roam script carry passed s (some id) = s.finish := by
  rw [roam]
  split <;> simp_all

theorem roam_of_new (hstep : script.flow.step? id = some (.capture binds next))
    (hnew : id ∉ passed) :
    roam script carry passed s (some id) =
      roam script carry (id :: passed) (capture (s.moveTo id) binds carry) next := by
  rw [roam]
  split <;> simp_all

theorem walk_of_missing (hstep : script.flow.step? id = none) :
    walk script carry hops s (some id) = s.finish := by
  rw [walk]
  simp only [hstep]

theorem walk_of_halt {stop : Flow.Stop} (hstep : script.flow.step? id = some (.halt stop)) :
    walk script carry hops s (some id) = halt script (s.moveTo id) stop := by
  rw [walk]
  simp only [hstep]

theorem walk_zero_of_capture (hstep : script.flow.step? id = some (.capture binds next)) :
    walk script carry 0 s (some id) = s.finish := by
  rw [walk]
  simp only [hstep]
  rfl

theorem walk_succ_of_capture (hstep : script.flow.step? id = some (.capture binds next)) :
    walk script carry (hops + 1) s (some id) =
      walk script carry hops (capture (s.moveTo id) binds carry) next := by
  rw [walk]
  simp only [hstep]

end Equations

variable {script : Script} {carry : Option String}

/-- A variable holds the reply that is carried, if one is. -/
def Holds (carry : Option String) (s : State) (binds : String) : Prop :=
  ∀ value ∈ carry, s.bindings.get? binds = some value

theorem capture_of_holds {s : State} {binds : String} (h : Holds carry s binds) :
    capture s binds carry = s := by
  cases carry with
  | none => rfl
  | some value =>
      have hsame : s.bindings.insert binds value = s.bindings := Table.insert_of_get? (h value rfl)
      rw [capture, State.bind, hsame]

theorem holds_capture (s : State) (binds : String) (carry : Option String) :
    Holds carry (capture s binds carry) binds := by
  rintro value ⟨⟩
  simp [capture, State.bind]

theorem Holds.capture {s : State} {binds : String} (h : Holds carry s binds) (other : String) :
    Holds carry (capture s other carry) binds := by
  rintro value ⟨⟩
  have hbound := h value rfl
  by_cases hsame : binds = other
  · simp [Conversation.capture, State.bind, hsame]
  · simp [Conversation.capture, State.bind, hsame, hbound]

/-! ## Circles

A walk that has come back to a block it passed sees no other blocks from then on.  All of
them were passed by it, so their variables hold the reply and binding them again changes
nothing: it may as well end at once. -/

/-- Field blocks that lead to one another and hold the reply. -/
def Circle (script : Script) (carry : Option String) (s : State) (ids : List String) : Prop :=
  ∀ id ∈ ids, ∃ binds next, script.flow.step? id = some (.capture binds (some next)) ∧
    next ∈ ids ∧ Holds carry s binds

/-- A walk that is in a circle ends with what it has. -/
theorem walk_circle {ids : List String} :
    ∀ (hops : Nat) {s : State} {id : String}, Circle script carry s ids → id ∈ ids →
      walk script carry hops s (some id) = s.finish := by
  intro hops
  induction hops with
  | zero =>
      intro s id hcircle hid
      obtain ⟨binds, next, hstep, -, -⟩ := hcircle id hid
      exact walk_zero_of_capture hstep
  | succ hops ih =>
      intro s id hcircle hid
      obtain ⟨binds, next, hstep, hnext, hholds⟩ := hcircle id hid
      have hmoved : Holds carry (s.moveTo id) binds := hholds
      rw [walk_succ_of_capture hstep, capture_of_holds hmoved]
      exact ih (s := s.moveTo id) hcircle hnext

/-- The Field blocks passed lead to one another and to the target, and hold the reply. -/
def Trail (script : Script) (carry : Option String) (s : State) (passed : List String)
    (target : Option String) : Prop :=
  ∀ id ∈ passed, ∃ binds next, script.flow.step? id = some (.capture binds next) ∧
    (next = target ∨ ∃ t ∈ passed, next = some t) ∧ Holds carry s binds

theorem Trail.circle {s : State} {passed : List String} {id : String}
    (h : Trail script carry s passed (some id)) (hagain : id ∈ passed) :
    Circle script carry s passed := by
  intro p hp
  obtain ⟨binds, next, hstep, hnext, hholds⟩ := h p hp
  rcases hnext with rfl | ⟨t, ht, rfl⟩
  · exact ⟨binds, id, hstep, hagain, hholds⟩
  · exact ⟨binds, t, hstep, ht, hholds⟩

theorem Trail.cons {s : State} {passed : List String} {id binds : String} {next : Option String}
    (h : Trail script carry s passed (some id))
    (hstep : script.flow.step? id = some (.capture binds next)) :
    Trail script carry (capture (s.moveTo id) binds carry) (id :: passed) next := by
  intro p hp
  rcases List.mem_cons.mp hp with rfl | hold
  · exact ⟨binds, next, hstep, .inl rfl, holds_capture _ binds carry⟩
  · obtain ⟨binds', next', hstep', hnext', hholds⟩ := h p hold
    have hmoved : Holds carry (s.moveTo id) binds' := hholds
    refine ⟨binds', next', hstep', .inr ?_, hmoved.capture binds⟩
    rcases hnext' with rfl | ⟨t, ht, rfl⟩
    · exact ⟨id, List.mem_cons_self, rfl⟩
    · exact ⟨t, List.mem_cons_of_mem id ht, rfl⟩

/-! ## The budget is enough -/

/-- With as many hops as there are steps left to pass, a walk and its unbounded form
come to the same. -/
theorem walk_eq_roam :
    ∀ (hops : Nat) {passed : List String} {s : State} {target : Option String},
      remaining script.flow.steps.keys passed ≤ hops → Trail script carry s passed target →
      walk script carry hops s target = roam script carry passed s target
  | hops, passed, s, none, _, _ => by rw [walk, roam]
  | hops, passed, s, some id, hleft, htrail => by
      match hstep : script.flow.step? id with
      | none => rw [walk_of_missing hstep, roam_of_missing hstep]
      | some (.halt stop) => rw [walk_of_halt hstep, roam_of_halt hstep]
      | some (.capture binds next) =>
          by_cases hagain : id ∈ passed
          · rw [walk_circle hops (htrail.circle hagain) hagain, roam_of_passed hstep hagain]
          · have hlt := remaining_cons_lt (mem_keys_of_step? hstep) hagain
            match hops with
            | 0 => omega
            | hops + 1 =>
                rw [walk_succ_of_capture hstep, roam_of_new hstep hagain]
                exact walk_eq_roam hops (by omega) (htrail.cons hstep)

theorem walk_eq_roam_of_size_le {hops : Nat} (h : script.flow.size ≤ hops) (s : State)
    (target : Option String) : walk script carry hops s target = roam script carry [] s target := by
  refine walk_eq_roam hops ?_ ?_
  · rw [remaining_nil, Table.keys, List.length_map]
    exact h
  · intro id hid
    cases hid

/-- **A walk never feels its budget.** -/
theorem enter_eq_roam (script : Script) (s : State) (target carry : Option String) :
    enter script s target carry = roam script carry [] s target :=
  walk_eq_roam_of_size_le (Nat.le_refl _) s target

/-- A larger budget makes no difference. -/
theorem walk_eq_enter (script : Script) {hops : Nat} (h : script.flow.size ≤ hops) (s : State)
    (target : Option String) : walk script carry hops s target = enter script s target carry := by
  rw [walk_eq_roam_of_size_le h, enter_eq_roam]

end Parley.Conversation
