/-
# Options on offer

A chat is behind its session.  It has the options that it was told of last, and what the
session told since is still on its way to it, so there are three things that have to agree:

    the options that the chat goes by      if there are any, they are those of the open prompt
    those announced in what is unheard     they are those of the open prompt, and then the
                                           chat goes by none
    the open prompt                        it was announced once at most in what is unheard

`Agrees` says so.  What the chat hears keeps it (`Agrees.hear`), and so does what is missed
(`Agrees.suffix`).  An event that the conversation takes keeps it too (`Agrees.taken`): a
prompt is left by a pick only, which is made by a chat that goes by its options, and the chat
goes by none afterwards.

What a chat requests for a line suits the options that it goes by (`suits_of_request`).
-/
import Parley.Proofs.Chat.Picks
import Parley.Proofs.Conversation.Moves

namespace Parley.Chat

open Conversation

/-- A choice among these is awaited, and they are what the prompt at the end offers. -/
def OnOffer (st : State) (choices : List Choice) : Prop :=
  st.mode = .awaitingButton ∧ ∃ message, st.transcript.getLast? = some (.prompt message choices)

/-- The options that a notice announces. -/
def announced? : Notice → Option (List Choice)
  | .awaiting (.button choices) => some choices
  | .awaiting .text | .message _ | .resolved .. | .ended => none

/-- The options that notices announce, in order. -/
def announced (ns : List Notice) : List (List Choice) := ns.filterMap announced?

/-- The options that a chat goes by, what it has not heard yet and the state agree. -/
structure Agrees (st : State) (unheard : List Notice) (standing : List Choice) : Prop where
  shown : standing ≠ [] → OnOffer st standing
  coming : ∀ choices ∈ announced unheard, standing = [] ∧ OnOffer st choices
  once : (announced unheard).length ≤ 1

/-- What a reply that is typed as this text asks the session to do with it. -/
inductive Suits (choices : List Choice) (text : String) : Event → Prop
  | text : choices = [] → Suits choices text (.submit text)
  | pick {c : Choice} : c ∈ choices → Suits choices text (.select c.id)

variable {script : Script} {st : State} {e : Event} {o : Outcome} {n : Notice}
  {unheard later : List Notice} {standing : List Choice} {chat : Chat} {text : String}

/-! ## Lines -/

theorem exists_of_pickChoice? {choices : List Choice} {id : String}
    (h : pickChoice? choices text = some id) : ∃ c ∈ choices, c.id = id := by
  obtain ⟨c, hnamed, hid⟩ := exists_named h
  exact ⟨c, hnamed.mem, hid⟩

theorem suits_of_request (h : chat.request text = some e) : Suits chat.choices text e := by
  unfold request at h
  split at h
  · rename_i hnone
    cases h
    exact .text (List.isEmpty_iff.mp hnone)
  · obtain ⟨id, hid, rfl⟩ := Option.map_eq_some_iff.mp h
    obtain ⟨c, hc, rfl⟩ := exists_of_pickChoice? hid
    exact .pick hc

theorem Suits.ne_nil {choices : List Choice} {option : String}
    (h : Suits choices text (.select option)) : choices ≠ [] := by
  cases h with
  | pick hc => exact List.ne_nil_of_mem hc

/-! ## Notices -/

theorem announced_append (ns ms : List Notice) :
    announced (ns ++ ms) = announced ns ++ announced ms := List.filterMap_append

theorem agrees_initial : Agrees .initial [] [] :=
  ⟨fun h => absurd rfl h, nofun, Nat.zero_le 1⟩

theorem Agrees.drop (h : Agrees st unheard standing) : Agrees st unheard [] :=
  ⟨fun hsome => absurd rfl hsome, fun cs hcs => ⟨rfl, (h.coming cs hcs).2⟩, h.once⟩

/-- What comes first may be missed. -/
theorem Agrees.suffix (h : Agrees st unheard standing) (hlater : later <:+ unheard) :
    Agrees st later standing := by
  have hannounced : announced later <:+ announced unheard := hlater.filterMap announced?
  exact ⟨h.shown, fun cs hcs => h.coming cs (hannounced.subset hcs),
    Nat.le_trans hannounced.length_le h.once⟩

theorem Agrees.hear (h : Agrees st (n :: later) chat.choices) :
    Agrees st later (chat.hear n).choices := by
  have hlater := h.suffix (List.suffix_cons n later)
  cases n with
  | message | resolved | ended => exact hlater
  | awaiting input =>
      cases input with
      | text => exact hlater.drop
      | button choices =>
          have hoffer := (h.coming choices List.mem_cons_self).2
          -- the prompt was announced once, so no other is on its way
          have hlast : announced later = [] :=
            List.eq_nil_of_length_eq_zero (Nat.le_zero.mp (Nat.le_of_succ_le_succ h.once))
          refine ⟨fun _ => hoffer, ?_, ?_⟩
          · rw [hlast]
            exact nofun
          · rw [hlast]
            exact Nat.zero_le 1

/-! ## Events

A conversation leaves its prompt by a pick only, and while it has one it takes nothing else.
So an event that is taken is a pick, or there was no prompt before it. -/

theorem Agrees.none_of_mode (h : Agrees st unheard standing) (hmode : st.mode ≠ .awaitingButton) :
    standing = [] ∧ announced unheard = [] := by
  constructor
  · by_contra hsome
    exact hmode (h.shown hsome).1
  · refine List.eq_nil_iff_forall_not_mem.mpr fun cs hcs => hmode (h.coming cs hcs).2.1

theorem mode_ne_awaitingButton (hcoherent : Coherent script st) (h : Taken script st e o)
    (he : ∀ option, e ≠ .select option) : st.mode ≠ .awaitingButton := by
  cases h with
  | start hmode | submit text hmode =>
      rw [hmode]
      exact nofun
  | select option => exact absurd rfl (he option)
  | advance hlive hpending =>
      rw [hcoherent.running_of_pending hpending]
      exact nofun

theorem announced_of_move (h : Move st e o) :
    announced o.notices = [] ∨ ∃ cs, announced o.notices = [cs] ∧ OnOffer o.state cs := by
  cases h with
  | speaks he hmode htranscript hnotices hs | asks he hmode htranscript hnotices hs
  | ends he hmode htranscript hnotices hs | answers he hmode htranscript hnotices hs
  | picks he hmode hlast htranscript hnotices hs =>
      rw [hnotices]
      exact .inl rfl
  | @offers message choices he hmode htranscript hnotices hs =>
      rw [hnotices]
      refine .inr ⟨choices, rfl, hmode, message, ?_⟩
      rw [htranscript]
      exact List.getLast?_concat

theorem agrees_of_move (h : Move st e o) (hnone : announced unheard = []) :
    Agrees o.state (unheard ++ o.notices) [] := by
  have hnew : announced (unheard ++ o.notices) = announced o.notices := by
    rw [announced_append, hnone, List.nil_append]
  refine ⟨fun hsome => absurd rfl hsome, ?_, ?_⟩
  · rw [hnew]
    intro cs hcs
    obtain hquiet | ⟨cs', hone, hoffer⟩ := announced_of_move h
    · rw [hquiet] at hcs
      cases hcs
    · rw [hone] at hcs
      exact ⟨rfl, List.mem_singleton.mp hcs ▸ hoffer⟩
  · rw [hnew]
    obtain hquiet | ⟨cs', hone, hoffer⟩ := announced_of_move h
    · rw [hquiet]
      exact Nat.zero_le 1
    · rw [hone]
      exact Nat.le_refl 1

/-- **An event that is taken leaves a chat without options in agreement**, if a pick is made
only by a chat that has some.  Any other event finds the chat without options. -/
theorem Agrees.taken (h : Agrees st unheard standing) (hcoherent : Coherent script st)
    (htaken : Taken script st e o) (hpick : ∀ option, e = .select option → standing ≠ []) :
    Agrees o.state (unheard ++ o.notices) [] ∧
      ((∀ option, e ≠ .select option) → standing = []) := by
  have hmove := move_of_taken hcoherent htaken
  by_cases he : ∀ option, e ≠ .select option
  · obtain ⟨hstanding, hannounced⟩ := h.none_of_mode (mode_ne_awaitingButton hcoherent htaken he)
    exact ⟨agrees_of_move hmove hannounced, fun _ => hstanding⟩
  · obtain ⟨option, he'⟩ := not_forall_not.mp he
    have hannounced : announced unheard = [] :=
      List.eq_nil_iff_forall_not_mem.mpr fun cs hcs => hpick option he' (h.coming cs hcs).1
    exact ⟨agrees_of_move hmove hannounced, fun hno => absurd he' (hno option)⟩

end Parley.Chat
