/-
# What a conversation accepts

`react` decides on an event by looks into the mode, the pending advance and the flow.
In a coherent state the decision can be made on the state alone, and on what an
observer sees of it:

| event            | is accepted just if                                              |
| :--------------- | :--------------------------------------------------------------- |
| the start        | nothing was accepted yet                                         |
| an advance       | the mode is running and its ticket is the pending one            |
| a text           | a text is awaited                                                |
| a pick           | a choice is awaited, and the prompt at the end of the transcript |
|                  | offers it                                                        |

So `State.Expects` does not speak of the flow.  It is right only of coherent states:
a state that awaits a choice at a block of another kind expects what it would refuse.

Since nothing but the start is expected while the conversation is idle, and it is idle only
till then, the start is accepted before all else and not again (`startsOnce_run`).
-/
import Parley.Proofs.Conversation.OnGraph
import Parley.Proofs.Conversation.Tickets

namespace Parley.Conversation

/-- An event that fits the mode, and what the mode waits for. -/
def State.Expects (s : State) : Event → Prop
  | .start => s.mode = .idle
  | .advance ticket => s.mode = .running ∧ ∃ p, s.pending = some p ∧ p.ticket = ticket
  | .submit _ => s.mode = .awaitingText
  | .select option => s.mode = .awaitingButton ∧ ∃ message choices,
      s.transcript.getLast? = some (.prompt message choices) ∧ ∃ c ∈ choices, c.id = option

variable {script : Script} {s : State} {e : Event} {o : Outcome}

theorem expects_of_taken (h : Coherent script s) (htaken : Taken script s e o) : s.Expects e := by
  cases htaken with
  | start hmode => exact hmode
  | submit text hmode => exact hmode
  | @select message binds branches branch option hmode hstop hfind =>
      obtain ⟨-, message', binds', branches', hstop', hlast⟩ := h.awaitingButton hmode
      rw [hstop] at hstop'
      cases hstop'
      refine ⟨hmode, message, _, hlast, branch.choice, ?_, ?_⟩
      · exact List.mem_map_of_mem (List.mem_of_find?_eq_some hfind)
      · simpa using List.find?_some hfind
  | @advance p hlive hpending => exact ⟨h.running_of_pending hpending, p, hpending, rfl⟩

theorem exists_taken_of_expects (h : Coherent script s) (hexpects : s.Expects e) :
    ∃ o, Taken script s e o := by
  cases e with
  | start => exact ⟨_, .start hexpects⟩
  | submit text => exact ⟨_, .submit text hexpects⟩
  | advance ticket =>
      obtain ⟨hmode, p, hpending, rfl⟩ := hexpects
      exact ⟨_, .advance (by rw [hmode]; exact nofun) hpending⟩
  | select option =>
      obtain ⟨hmode, message, choices, hlast, c, hc, hid⟩ := hexpects
      obtain ⟨-, message', binds, branches, hstop, hlast'⟩ := h.awaitingButton hmode
      rw [hlast] at hlast'
      cases hlast'
      obtain ⟨branch, hbranch, rfl⟩ := List.mem_map.mp hc
      -- some branch has the id, so there is a first one
      have hsome : (branches.find? (·.choice.id == option)).isSome :=
        List.find?_isSome.mpr ⟨branch, hbranch, beq_iff_eq.mpr hid⟩
      obtain ⟨first, hfind⟩ := Option.isSome_iff_exists.mp hsome
      exact ⟨_, .select option hmode hstop hfind⟩

/-- **A coherent state accepts what it expects.** -/
theorem accepts_iff_expects (h : Coherent script s) (e : Event) :
    (∃ o, react script s e = .ok o) ↔ s.Expects e := by
  constructor
  · rintro ⟨o, ho⟩
    exact expects_of_taken h (react_eq_ok_iff.mp ho)
  · intro hexpects
    obtain ⟨o, ho⟩ := exists_taken_of_expects h hexpects
    exact ⟨o, react_eq_ok_iff.mpr ho⟩

theorem idle_iff_of_taken (h : Coherent script s) (htaken : Taken script s e o) :
    s.mode = .idle ↔ e = .start := by
  have hexpects := expects_of_taken h htaken
  cases e with
  | start => exact iff_of_true hexpects rfl
  | advance ticket => exact iff_of_false (by rw [hexpects.1]; exact nofun) nofun
  | submit text =>
      have hmode : s.mode = .awaitingText := hexpects
      exact iff_of_false (by rw [hmode]; exact nofun) nofun
  | select option => exact iff_of_false (by rw [hexpects.1]; exact nofun) nofun

/-- The start comes before all else, and does not come again. -/
def StartsOnce (es : List Event) : Prop := es = [] ∨ ∃ rest, es = .start :: rest ∧ .start ∉ rest

theorem StartsOnce.concat {es : List Event} (h : StartsOnce es) (he : es = [] ↔ e = .start) :
    StartsOnce (es ++ [e]) := by
  rcases h with rfl | ⟨rest, rfl, hrest⟩
  · exact .inr ⟨[], by rw [he.mp rfl]; rfl, List.not_mem_nil⟩
  · refine .inr ⟨rest ++ [e], rfl, ?_⟩
    rw [List.mem_append, List.mem_singleton]
    rintro (hmem | hstart)
    · exact hrest hmem
    · cases he.mpr hstart.symm

theorem startsOnce_run (hclosed : script.flow.Closed) (es : List Event) :
    StartsOnce ((trace script .initial es).map (·.1)) := by
  refine And.right (move_induction
    (P := fun t s => (t = [] ↔ s.mode = .idle) ∧ StartsOnce (t.map (·.1))) hclosed
    ⟨iff_of_true rfl rfl, .inl rfl⟩ ?_ es)
  rintro t s e o ⟨hidle, ht⟩ hcoherent hlive htaken hmove
  refine ⟨iff_of_false (by simp) (mode_ne_idle_of_taken htaken), ?_⟩
  rw [List.map_append]
  exact ht.concat (List.map_eq_nil_iff.trans (hidle.trans (idle_iff_of_taken hcoherent htaken)))

theorem trace_eq_nil_of_ended (hended : s.mode = .ended) (es : List Event) :
    trace script s es = [] := by
  induction es with
  | nil => rfl
  | cons e es ih =>
      have hrefused : react script s e = .error .sessionEnded := by simp [react, hended]
      rw [trace, hrefused]
      exact ih

/-- **Exactly the right events are accepted.**  After any events over the flow of any graph:
an event is accepted just if it is expected, and so none after the end; each reply that was
accepted left a line of the user; and while there are numbers for them, the tickets that
were scheduled are numbered from zero on, and none was redeemed twice. -/
theorem expects_run_ofGraph (g : Graph) (pace : Pace) (es : List Event) :
    let script : Script := ⟨.ofGraph g, pace⟩
    let history := trace script .initial es
    let s := run script .initial es
    (∀ e, (∃ o, react script s e = .ok o) ↔ s.Expects e) ∧
      (s.mode = .ended → ∀ more, trace script s more = []) ∧
      s.userEntries = replies history ∧
      ((scheduled history).length < UInt64.size →
        (scheduled history).map UInt64.toNat = List.range (scheduled history).length ∧
          (redeemed history).Nodup) := by
  intro script history s
  have hclosed : script.flow.Closed := Flow.closed_ofGraph g
  have hnumbered : Numbered history s := numbered_run hclosed es
  refine ⟨accepts_iff_expects (coherent_run hclosed es), trace_eq_nil_of_ended,
    userEntries_run hclosed es, ?_⟩
  intro hfew
  have hle := Nat.le_of_lt hfew
  exact ⟨hnumbered.toNat_scheduled hle, hnumbered.nodup_redeemed hle⟩

/-- Advances that come twice, picks that come twice and a ticket that nobody scheduled. -/
theorem expects_run_tangled :
    let history := trace ⟨.ofGraph tangled, .usual⟩ .initial
      [.start, .advance 0, .advance 0, .select "x", .select "x", .advance 7, .advance 0,
        .advance 1, .advance 1]
    (scheduled history).length < UInt64.size ∧ redeemed history = [0, 1] ∧
      replies history = 1 ∧ (redeemed history).Nodup := by
  intro history
  have hfew : (scheduled history).length < UInt64.size := by decide +kernel
  exact ⟨hfew, by decide +kernel, by decide +kernel,
    ((expects_run_ofGraph tangled .usual _).2.2.2 hfew).2⟩

end Parley.Conversation
