/-
# Coherence of every run

A state has a mode, a block, a pending advance and a transcript, and nothing in
its type ties them together.  `Coherent` does, relative to a script:

| mode             | pending advance                   | block, transcript              |
| :--------------- | :-------------------------------- | :----------------------------- |
| idle             | none: the state is the first one  |                                |
| running          | the last ticket, to a known block | a block with a step            |
| awaiting a text  | none                              | at a question                  |
| awaiting a choice| none                              | at options; the open prompt is |
|                  |                                   | the last line                  |
| ended            | none                              | no block                       |

and an open prompt stands nowhere but at the end of the transcript, and only
while a choice is awaited.

The invariant is kept by every outcome (`coherent_of_taken`) of a script whose
flow is closed.  It is carried by two facts: off the mode that awaits a choice
the transcript is plain (`Coherent.plain`), so what is said next finds no open
prompt before it; and an outcome always arrives somewhere (`Arrival`), so a mode
is set together with the block and the advance that belong to it.
-/
import Parley.Proofs.Conversation.Arrival
import Parley.Proofs.Conversation.Run
import Parley.Proofs.Flow.Closed

namespace Parley.Conversation

/-- The advance is the one scheduled last, and leads to the end or to a block
that has a step. -/
structure Pending.Live (script : Script) (s : State) (p : Pending) : Prop where
  ticket : p.ticket = s.nextTicket - 1
  target : ∀ id ∈ p.target, (script.flow.step? id).isSome

/-- Mode, block, pending advance and transcript of a state belong together. -/
structure Coherent (script : Script) (s : State) : Prop where
  idle : s.mode = .idle → s = .initial
  running : s.mode = .running →
    (∃ p, s.pending = some p ∧ p.Live script s) ∧
      ∃ id, s.current = some id ∧ (script.flow.step? id).isSome
  awaitingText : s.mode = .awaitingText →
    s.pending = none ∧ ∃ message binds next,
      currentStop? script s = some (.ask message binds next)
  awaitingButton : s.mode = .awaitingButton →
    s.pending = none ∧ ∃ message binds branches,
      currentStop? script s = some (.choose message binds branches) ∧
        s.transcript.getLast? = some (.prompt message (Flow.choicesOf branches))
  ended : s.mode = .ended → s.pending = none ∧ s.current = none
  /-- No prompt stands before the last line. -/
  earlier : ∀ e ∈ s.transcript.dropLast, e.isPrompt = false
  last : ∀ e ∈ s.transcript.getLast?, e.isPrompt → s.mode = .awaitingButton

/-- No prompt is open. -/
def Plain (transcript : List Entry) : Prop := ∀ e ∈ transcript, e.isPrompt = false

/-! ## Plain transcripts

A transcript is plain while no line of it is an open prompt.  Off the mode that awaits a
choice it is, and in that mode it is but for its last line; either way it is once the prompt
is taken back, and that is what is extended by whatever is said next. -/

theorem Plain.concat {t : List Entry} {e : Entry} (ht : Plain t) (he : e.isPrompt = false) :
    Plain (t ++ [e]) := by
  intro x hx
  rcases List.mem_append.mp hx with h | h
  · exact ht x h
  · exact List.mem_singleton.mp h ▸ he

theorem Plain.earlier {t : List Entry} (h : Plain t) :
    ∀ e ∈ t.dropLast, e.isPrompt = false :=
  fun e he => h e (List.dropLast_subset t he)

theorem Plain.last {t : List Entry} (h : Plain t) {P : Prop} :
    ∀ e ∈ t.getLast?, e.isPrompt → P := by
  intro e he hprompt
  rw [h e (List.mem_of_getLast? he)] at hprompt
  cases hprompt

variable {script : Script} {s : State}

/-- While no choice is awaited, no prompt is open. -/
theorem Coherent.plain (h : Coherent script s) (hmode : s.mode ≠ .awaitingButton) :
    Plain s.transcript := by
  intro e he
  cases hend : s.transcript.getLast? with
  | none =>
      rw [List.getLast?_eq_none_iff.mp hend] at he
      cases he
  | some x =>
      obtain ⟨front, hconcat⟩ := List.getLast?_eq_some_iff.mp hend
      have hearlier := h.earlier
      rw [hconcat, List.dropLast_concat] at hearlier
      rw [hconcat] at he
      rcases List.mem_append.mp he with hfront | hx
      · exact hearlier e hfront
      · rw [List.mem_singleton.mp hx]
        exact Bool.eq_false_iff.mpr fun hprompt => hmode (h.last x hend hprompt)

theorem Coherent.plain_withoutPrompt (h : Coherent script s) :
    Plain (withoutPrompt s.transcript) := by
  unfold withoutPrompt
  split
  · exact h.earlier
  · rename_i hlast
    intro e he
    by_cases hmode : s.mode = .awaitingButton
    · obtain ⟨-, message, _, branches, -, hprompt⟩ := h.awaitingButton hmode
      rw [hprompt] at hlast
      exact absurd rfl hlast
    · exact h.plain hmode e he

/-- An advance is pending only while a conversation runs. -/
theorem Coherent.running_of_pending (h : Coherent script s) {p : Pending}
    (hpending : s.pending = some p) : s.mode = .running := by
  have hsome : s.pending ≠ none := by rw [hpending]; exact Option.some_ne_none p
  cases hmode : s.mode with
  | running => rfl
  | idle => exact absurd (by rw [h.idle hmode]; rfl) hsome
  | awaitingText => exact absurd (h.awaitingText hmode).1 hsome
  | awaitingButton => exact absurd (h.awaitingButton hmode).1 hsome
  | ended => exact absurd (h.ended hmode).1 hsome

theorem Coherent.live_of_pending (h : Coherent script s) {p : Pending}
    (hpending : s.pending = some p) : p.Live script s := by
  obtain ⟨⟨p', hpending', hlive⟩, -⟩ := h.running (h.running_of_pending hpending)
  cases hpending.symm.trans hpending'
  exact hlive

/-! ## What an outcome leaves

Most clauses of coherence are about one mode, so for an outcome all but one of them hold for
want of that mode.  What is left to see is that the block the conversation has come to goes
with the mode that is set. -/

theorem coherent_finish (h : Plain s.transcript) : Coherent script s.finish.state where
  idle hmode := nomatch hmode
  running hmode := nomatch hmode
  awaitingText hmode := nomatch hmode
  awaitingButton hmode := nomatch hmode
  ended _ := ⟨rfl, rfl⟩
  earlier := h.earlier
  last := h.last

theorem coherent_schedule {target carry : Option String} (hmode : s.mode = .running)
    (hat : ∃ id, s.current = some id ∧ (script.flow.step? id).isSome)
    (htarget : ∀ t ∈ target, (script.flow.step? t).isSome) (hplain : Plain s.transcript) :
    Coherent script (s.schedule target carry) where
  idle h := nomatch hmode.symm.trans h
  running _ := ⟨⟨_, rfl, ⟨(UInt64.add_sub_cancel _ _).symm, htarget⟩⟩, hat⟩
  awaitingText h := nomatch hmode.symm.trans h
  awaitingButton h := nomatch hmode.symm.trans h
  ended h := nomatch hmode.symm.trans h
  earlier := hplain.earlier
  last := hplain.last

theorem currentStop?_of_step {id : String} {stop : Flow.Stop} (hcurrent : s.current = some id)
    (hstep : script.flow.step? id = some (.halt stop)) : currentStop? script s = some stop := by
  simp [currentStop?, hcurrent, hstep]

theorem exists_step_of_currentStop? {stop : Flow.Stop}
    (h : currentStop? script s = some stop) :
    ∃ id, s.current = some id ∧ script.flow.step? id = some (.halt stop) := by
  unfold currentStop? at h
  split at h
  · rename_i stop' hbind
    cases h
    exact Option.bind_eq_some_iff.mp hbind
  · cases h

theorem coherent_halt {id : String} {stop : Flow.Stop} (hclosed : script.flow.Closed)
    (hplain : Plain s.transcript) (hpending : s.pending = none)
    (hstep : script.flow.step? id = some (.halt stop)) :
    Coherent script (halt script (s.moveTo id) stop).state := by
  have hat : (script.flow.step? id).isSome := by rw [hstep]; rfl
  cases stop with
  | say message next =>
      refine coherent_schedule rfl ⟨id, rfl, hat⟩ ?_ (hplain.concat rfl)
      intro t ht
      exact hclosed id _ hstep t (Option.mem_toList.mpr ht)
  | farewell message =>
      exact coherent_schedule rfl ⟨id, rfl, hat⟩ (fun t ht => nomatch ht) (hplain.concat rfl)
  | ask message binds next =>
      have hplain' := hplain.concat (e := .bot message) rfl
      refine ⟨?_, ?_, ?_, ?_, ?_, hplain'.earlier, hplain'.last⟩
      · intro h; cases h
      · intro h; cases h
      · intro _; exact ⟨hpending, message, binds, next, currentStop?_of_step rfl hstep⟩
      · intro h; cases h
      · intro h; cases h
  | choose message binds branches =>
      refine ⟨?_, ?_, ?_, ?_, ?_, ?_, ?_⟩
      · intro h; cases h
      · intro h; cases h
      · intro h; cases h
      · intro _
        exact ⟨hpending, message, binds, branches, currentStop?_of_step rfl hstep,
          List.getLast?_concat⟩
      · intro h; cases h
      · intro e he
        have hfront : (s.transcript ++ [Entry.prompt message (Flow.choicesOf branches)]).dropLast
            = s.transcript := List.dropLast_concat
        exact hplain e (hfront ▸ he)
      · intro _ _ _; rfl

theorem coherent_of_arrival {o : Outcome} (hclosed : script.flow.Closed)
    (hplain : Plain s.transcript) (hpending : s.pending = none) (h : Arrival script s o) :
    Coherent script o.state := by
  cases h with
  | ended bindings => exact coherent_finish hplain
  | stopped bindings hstep => exact coherent_halt hclosed hplain hpending hstep

/-! ## One event

For a start or an advance the outcome is an arrival.  For a reply it schedules an advance
along the way on from the stop that the conversation is at, and since the flow is closed that
way leads to a block with a step. -/

theorem isSome_step?_of_exit {stop : Flow.Stop} {t : String} (hclosed : script.flow.Closed)
    (hstop : currentStop? script s = some stop) (ht : t ∈ stop.exits) :
    (script.flow.step? t).isSome := by
  obtain ⟨id, -, hstep⟩ := exists_step_of_currentStop? hstop
  exact hclosed id _ hstep t ht

theorem coherent_answerText (hclosed : script.flow.Closed) (h : Coherent script s)
    (hmode : s.mode = .awaitingText) (text : String) :
    Coherent script (answerText script s text).state := by
  obtain ⟨-, message, binds, next, hstop⟩ := h.awaitingText hmode
  obtain ⟨id, hcurrent, hstep⟩ := exists_step_of_currentStop? hstop
  have hplain : Plain s.transcript := h.plain (by rw [hmode]; exact nofun)
  have hasked : askedFor script s = (binds, next) := by simp [askedFor, hstop]
  simp only [answerText, hasked]
  refine coherent_schedule rfl ⟨id, ?_, ?_⟩ ?_ ?_
  · cases binds <;> exact hcurrent
  · rw [hstep]; rfl
  · intro t ht
    exact isSome_step?_of_exit hclosed hstop (Option.mem_toList.mpr ht)
  · cases binds <;> exact hplain.concat rfl

theorem coherent_answerChoice {message : String} {binds : Option String}
    {branches : List Flow.Branch} {branch : Flow.Branch} (hclosed : script.flow.Closed)
    (h : Coherent script s) (hstop : currentStop? script s = some (.choose message binds branches))
    (hbranch : branch ∈ branches) :
    Coherent script (answerChoice script s message binds branch).state := by
  obtain ⟨id, hcurrent, hstep⟩ := exists_step_of_currentStop? hstop
  refine coherent_schedule rfl ⟨id, ?_, ?_⟩ ?_ ?_
  · cases binds <;> exact hcurrent
  · rw [hstep]; rfl
  · intro t ht
    exact isSome_step?_of_exit hclosed hstop (List.mem_filterMap.mpr ⟨branch, hbranch, ht⟩)
  · have hplain := (h.plain_withoutPrompt.concat (e := .bot message) rfl).concat
      (e := .user branch.choice.label) rfl
    rw [List.append_assoc] at hplain
    exact hplain

/-- **An outcome of a coherent state is coherent.** -/
theorem coherent_of_taken {e : Event} {o : Outcome} (hclosed : script.flow.Closed)
    (h : Coherent script s) (htaken : Taken script s e o) : Coherent script o.state := by
  cases htaken with
  | start hmode =>
      have hplain : Plain s.transcript := h.plain (by rw [hmode]; exact nofun)
      have hpending : s.pending = none := by rw [h.idle hmode]; rfl
      exact coherent_of_arrival hclosed hplain hpending (enter_arrival ..)
  | submit text hmode => exact coherent_answerText hclosed h hmode text
  | select option hmode hstop hfind =>
      exact coherent_answerChoice hclosed h hstop (List.mem_of_find?_eq_some hfind)
  | advance hlive hpending =>
      have hplain : Plain s.transcript :=
        h.plain (by rw [h.running_of_pending hpending]; exact nofun)
      exact coherent_of_arrival (s := { s with pending := none }) hclosed hplain rfl
        (enter_arrival ..)

/-! ## Every run -/

theorem coherent_initial (script : Script) : Coherent script .initial where
  idle _ := rfl
  running hmode := nomatch hmode
  awaitingText hmode := nomatch hmode
  awaitingButton hmode := nomatch hmode
  ended hmode := nomatch hmode
  earlier _ he := nomatch he
  last _ he := nomatch he

theorem coherent_run (hclosed : script.flow.Closed) (es : List Event) :
    Coherent script (run script .initial es) :=
  run_induction (coherent_of_taken hclosed) es (coherent_initial script)

theorem mode_ne_idle_of_taken {e : Event} {o : Outcome} (h : Taken script s e o) :
    o.state.mode ≠ .idle := by
  have harrival : ∀ {s o}, Arrival script s o → o.state.mode ≠ .idle := by
    intro s o h
    cases h with
    | ended bindings => exact nofun
    | @stopped bindings id stop hstep => cases stop <;> exact nofun
  cases h with
  | start hmode => exact harrival (enter_arrival ..)
  | submit text hmode => exact nofun
  | select option hmode hstop hfind => exact nofun
  | advance hlive hpending => exact harrival (enter_arrival ..)

theorem mode_run_ne_idle (es : List Event) (h : s.mode ≠ .idle) :
    (run script s es).mode ≠ .idle :=
  run_induction (P := fun s => s.mode ≠ .idle) (fun _ => mode_ne_idle_of_taken) es h

/-- A run is still idle only if none of its events was taken. -/
theorem trace_eq_nil_of_idle :
    ∀ (es : List Event) {s : State}, (run script s es).mode = .idle → trace script s es = []
  | [], _, _ => rfl
  | e :: es, s, h => by
      rw [run_cons] at h
      unfold trace
      cases hreact : react script s e with
      | ok o =>
          have htaken := react_eq_ok_iff.mp hreact
          rw [next_of_taken htaken] at h
          exact absurd h (mode_run_ne_idle es (mode_ne_idle_of_taken htaken))
      | error r =>
          have hnext : next script s e = s := by simp [next, hreact]
          rw [hnext] at h
          exact trace_eq_nil_of_idle es h

/-- **Every run over the flow of a graph is coherent**, whatever the graph, the
pace and the events; and it is idle just as long as no event was taken. -/
theorem coherent_run_ofGraph (g : Graph) (pace : Pace) (es : List Event) :
    let script : Script := ⟨.ofGraph g, pace⟩
    Coherent script (run script .initial es) ∧
      ((run script .initial es).mode = .idle ↔ trace script .initial es = []) := by
  intro script
  refine ⟨coherent_run (Flow.closed_ofGraph g) es, trace_eq_nil_of_idle es, ?_⟩
  intro htrace
  rw [run_eq_of_trace_eq_nil es htrace]
  rfl

end Parley.Conversation
