/-
# What an observer knows

An observer is told notices and never sees the state.  Two things can be read off
them all the same.

The transcript: `retell` writes a notice into a transcript, and retelling every
notice from the beginning gives the transcript of the state.  Only one notice does
more than append: when a prompt is answered it leaves its place at the end, which is
right because an open prompt is always the last line.

What is awaited: the last notice announces it.

    awaiting a text              the mode awaits a text
    awaiting a pick of these     the mode awaits a choice, and these are the options of
                                 the prompt at the end of the transcript
    ended                        the conversation has ended

Every event that is taken tells something, so after each of them the last notice is
one of its own.
-/
import Parley.Proofs.Conversation.Moves

namespace Parley.Conversation

/-- What was told in the course of a history. -/
def told (history : List (Event × Outcome)) : List Notice := history.flatMap (·.2.notices)

/-- What an observer writes down on a notice. -/
def retell (transcript : List Entry) : Notice → List Entry
  | .message entry => transcript ++ [entry]
  | .resolved prompt reply => transcript.dropLast ++ [.bot prompt, .user reply]
  | .awaiting _ | .ended => transcript

/-- The last of the notices tells what the state waits for. -/
structure Announced (notices : List Notice) (s : State) : Prop where
  text : notices.getLast? = some (.awaiting .text) ↔ s.mode = .awaitingText
  button : (∃ choices, notices.getLast? = some (.awaiting (.button choices))) ↔
    s.mode = .awaitingButton
  /-- The options that are announced are those of the open prompt. -/
  choices : ∀ choices, notices.getLast? = some (.awaiting (.button choices)) →
    ∃ message, s.transcript.getLast? = some (.prompt message choices)
  ended : notices.getLast? = some .ended ↔ s.mode = .ended

theorem told_concat (history : List (Event × Outcome)) (e : Event) (o : Outcome) :
    told (history ++ [(e, o)]) = told history ++ o.notices := by
  simp [told]

/-! ## One event

For each move there is little to see: it tells what it adds to the transcript, and what it
announces last is the mode that it leads to.  Only a pick changes a line that is there
already, the open prompt, and that is the last line by coherence. -/

variable {script : Script} {s : State} {e : Event} {o : Outcome}

/-- Retelling what an event told makes the same change as the event. -/
theorem retell_notices (h : Move s e o) :
    o.notices.foldl retell s.transcript = o.state.transcript := by
  cases h with
  | speaks he hmode htranscript hnotices hs => rw [htranscript, hnotices]; rfl
  | asks he hmode htranscript hnotices hs => rw [htranscript, hnotices]; rfl
  | offers he hmode htranscript hnotices hs => rw [htranscript, hnotices]; rfl
  | ends he hmode htranscript hnotices hs => rw [htranscript, hnotices]; rfl
  | answers he hmode htranscript hnotices hs => rw [htranscript, hnotices]; rfl
  | picks he hmode hlast htranscript hnotices hs => rw [htranscript, hnotices]; rfl

theorem notices_ne_nil (h : Move s e o) : o.notices ≠ [] := by
  intro hnil
  cases h with
  | speaks he hmode htranscript hnotices hs | asks he hmode htranscript hnotices hs
  | offers he hmode htranscript hnotices hs | ends he hmode htranscript hnotices hs
  | answers he hmode htranscript hnotices hs | picks he hmode hlast htranscript hnotices hs =>
      cases hnotices.symm.trans hnil

/-- What an event announces at last is what is awaited after it. -/
theorem announced_notices (h : Move s e o) : Announced o.notices o.state := by
  cases h with
  | speaks he hmode htranscript hnotices hs | answers he hmode htranscript hnotices hs
  | picks he hmode hlast htranscript hnotices hs | asks he hmode htranscript hnotices hs
  | ends he hmode htranscript hnotices hs =>
      rw [hnotices]
      constructor <;> simp [hmode]
  | offers he hmode htranscript hnotices hs =>
      rw [hnotices]
      constructor <;> simp [hmode, htranscript]

theorem notices_of_ended_mem (h : Move s e o) (hended : .ended ∈ o.notices) :
    o.notices = [.ended] := by
  cases h with
  | ends he hmode htranscript hnotices hs => exact hnotices
  | speaks he hmode htranscript hnotices hs | answers he hmode htranscript hnotices hs
  | picks he hmode hlast htranscript hnotices hs | asks he hmode htranscript hnotices hs
  | offers he hmode htranscript hnotices hs => simp [hnotices] at hended

/-! ## Every run

Nothing is taken after the end, so nothing is told after it either.  The rest is the law for
one event, along the history: the notices of an event are retold on the transcript that those
before it have led to. -/

/-- What ties what was told to the state it was told of. -/
structure Followed (notices : List Notice) (s : State) : Prop where
  retold : notices.foldl retell [] = s.transcript
  announced : Announced notices s
  /-- Nothing is told after the end. -/
  endedLast : .ended ∉ notices.dropLast

theorem followed_initial : Followed [] .initial where
  retold := rfl
  announced := by constructor <;> simp [State.initial]
  endedLast := nofun

theorem Announced.after {notices : List Notice} (h : Announced notices s) (hne : notices ≠ [])
    (earlier : List Notice) : Announced (earlier ++ notices) s := by
  have hlast : (earlier ++ notices).getLast? = notices.getLast? :=
    List.getLast?_append_of_ne_nil earlier hne
  exact ⟨hlast ▸ h.text, hlast ▸ h.button, hlast ▸ h.choices, hlast ▸ h.ended⟩

theorem Followed.ended_not_mem {notices : List Notice} (h : Followed notices s)
    (hlive : s.mode ≠ .ended) : .ended ∉ notices := by
  intro hmem
  cases hlast : notices.getLast? with
  | none => rw [List.getLast?_eq_none_iff.mp hlast] at hmem; cases hmem
  | some n =>
      rw [← List.dropLast_append_getLast? n hlast] at hmem
      rcases List.mem_append.mp hmem with hearlier | hn
      · exact h.endedLast hearlier
      · rw [← List.mem_singleton.mp hn] at hlast
        exact hlive (h.announced.ended.mp hlast)

theorem Followed.move {notices : List Notice} (h : Followed notices s) (hlive : s.mode ≠ .ended)
    (hmove : Move s e o) : Followed (notices ++ o.notices) o.state where
  retold := by rw [List.foldl_append, h.retold, retell_notices hmove]
  announced := (announced_notices hmove).after (notices_ne_nil hmove) notices
  endedLast := by
    rw [List.dropLast_append_of_ne_nil (notices_ne_nil hmove)]
    intro hmem
    rcases List.mem_append.mp hmem with hold | hnew
    · exact h.ended_not_mem hlive hold
    · rw [notices_of_ended_mem hmove (List.dropLast_subset _ hnew)] at hnew
      cases hnew

theorem followed_run (hclosed : script.flow.Closed) (es : List Event) :
    Followed (told (trace script .initial es)) (run script .initial es) := by
  refine move_induction (P := fun t s => Followed (told t) s) hclosed followed_initial ?_ es
  intro t s e o hfollowed hcoherent hlive htaken hmove
  rw [told_concat]
  exact hfollowed.move hlive hmove

theorem forall_notices_ne_nil (hclosed : script.flow.Closed) (es : List Event) :
    ∀ x ∈ trace script .initial es, x.2.notices ≠ [] := by
  refine move_induction (P := fun t _ => ∀ x ∈ t, x.2.notices ≠ []) hclosed
    (fun x hx => nomatch hx) ?_ es
  intro t s e o ht hcoherent hlive htaken hmove x hx
  rcases List.mem_append.mp hx with hold | hnew
  · exact ht x hold
  · rw [List.mem_singleton.mp hnew]
    exact notices_ne_nil hmove

/-- **An observer can rebuild the chat.**  Over the flow of any graph, at any pace and after
any events: retelling all that was told gives the transcript; every event that was taken
told something, and the last notice announces what is awaited; and the end is told at most
once, with nothing after it. -/
theorem followed_run_ofGraph (g : Graph) (pace : Pace) (es : List Event) :
    let script : Script := ⟨.ofGraph g, pace⟩
    let notices := told (trace script .initial es)
    let s := run script .initial es
    notices.foldl retell [] = s.transcript ∧
      (∀ x ∈ trace script .initial es, x.2.notices ≠ []) ∧ Announced notices s ∧
      .ended ∉ notices.dropLast := by
  intro script notices s
  have hclosed : script.flow.Closed := Flow.closed_ofGraph g
  have hfollowed : Followed notices s := followed_run hclosed es
  exact ⟨hfollowed.retold, forall_notices_ne_nil hclosed es, hfollowed.announced,
    hfollowed.endedLast⟩

end Parley.Conversation
