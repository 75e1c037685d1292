/-
# Where a walk arrives

Entering a block runs through Field blocks, which bind variables and leave
everything else of a conversation as it was.  So a walk from `s` comes to one of
two things, with some bindings `b` in place of those of `s`:

    ({ s with bindings := b }).finish                           the end
    halt script ({ s with bindings := b }.moveTo id) stop       the stop of block `id`

`walk_arrival` is the induction on the hops that says so; whoever reasons about
what a conversation says, waits for or schedules need not look at `walk` again.
-/
import Parley.Conversation.React

namespace Parley.Conversation

/-- What entering a block from `s` can come to. -/
inductive Arrival (script : Script) (s : State) : Outcome → Prop
  | ended (bindings : Table String) : Arrival script s { s with bindings }.finish
  | stopped (bindings : Table String) {id : String} {stop : Flow.Stop} :
      script.flow.step? id = some (.halt stop) →
      Arrival script s (halt script ({ s with bindings }.moveTo id) stop)

variable {script : Script} {s : State}

/-- An arrival does not depend on the block, the mode and the bindings from which
the walk set out: they are replaced on the way. -/
theorem Arrival.of_capture {id binds : String} {carry : Option String} {o : Outcome}
    (h : Arrival script (capture (s.moveTo id) binds carry) o) : Arrival script s o := by
  cases carry with
  | none =>
      cases h with
      | ended b => exact .ended b
      | stopped b hstep => exact .stopped b hstep
  | some value =>
      cases h with
      | ended b => exact .ended b
      | stopped b hstep => exact .stopped b hstep

theorem walk_arrival (carry : Option String) :
    ∀ (hops : Nat) (s : State) (target : Option String),
      Arrival script s (walk script carry hops s target) := by
  intro hops
  induction hops with
  | zero =>
      intro s target
      unfold walk
      split
      · exact .ended s.bindings
      · split
        · exact .ended s.bindings
        · rename_i stop hstep
          exact .stopped s.bindings hstep
        · exact .ended s.bindings
  | succ hops ih =>
      intro s target
      unfold walk
      split
      · exact .ended s.bindings
      · split
        · exact .ended s.bindings
        · rename_i stop hstep
          exact .stopped s.bindings hstep
        · exact (ih _ _).of_capture

theorem enter_arrival (script : Script) (s : State) (target carry : Option String) :
    Arrival script s (enter script s target carry) :=
  walk_arrival carry _ s target

end Parley.Conversation
