/-
# A chat and its session, side by side

The session goes on by itself while a chat prints what it was told and waits for a line, or for
the answer to one.  Nothing is assumed about their order, nor about how long anything is on its
way (`Act`):

    the session makes a round, a timer runs, the clock moves
    what the session told is published to the inbox of the chat, which may lose the oldest
    the chat takes the first notice in its inbox, or the word that some were lost
    a line is typed, which makes a call, is refused or is blank
    the answer to the call is there, and the chat goes on

While the chat waits for an answer it takes nothing else.

The options that *stand* are those the chat goes by, or none if it has been answered with yes
and does not know yet.  They agree at any time with what is unheard and with the state
(`kept_performAll`): a pick that waits in the queue is for the prompt that is open, and when it
is taken the options stand no longer.
-/
import Parley.Proofs.Chat.Offers
import Parley.Proofs.Session.Serving
import Parley.Session.Audience

namespace Parley.Chat

open Conversation

structure Exchange where
  session : Session
  /-- How many notices of the session were published. -/
  published : Nat
  /-- What was published and the chat has not taken. -/
  inbox : Mailbox Notice
  chat : Chat
  /-- What the chat has taken. -/
  heard : List Notice
  /-- The call whose answer the chat waits for. -/
  awaited : Option Nat

namespace Exchange

inductive Act where
  /-- The session, its timers or the clock go on. -/
  | goOn (a : Session.Act) (h : a.reply? = none)
  /-- The next notice is published. -/
  | publish
  /-- The chat looks into its inbox. -/
  | hear
  | type (line : String)
  /-- The chat takes the answer, if it is there. -/
  | resume

def start (script : Script) (capacity : Nat) : Exchange where
  session := .start script
  published := 0
  inbox := .empty capacity
  chat := .start
  heard := []
  awaited := none

/-- The next notice is published, if there is one. -/
def publish (x : Exchange) : Exchange :=
  match x.session.notices[x.published]? with
  | some n => { x with published := x.published + 1, inbox := x.inbox.push n }
  | none => x

/-- The word that notices were lost comes before those that are left. -/
def hear (x : Exchange) : Exchange :=
  if x.inbox.lost ≠ 0 then { x with inbox := { x.inbox with lost := 0 } }
  else match x.inbox.letters with
    | [] => x
    | n :: later =>
      { x with
        inbox := { x.inbox with letters := later }
        chat := x.chat.hear n
        heard := x.heard ++ [n] }

/-- A reply is typed. -/
def ask (x : Exchange) (text : String) : Exchange :=
  match x.chat.request text with
  | none => { x with chat := x.chat.answered false }
  | some e => { x with session := x.session.call e, awaited := some x.session.nextCall }

def perform (x : Exchange) : Act → Exchange
  | .goOn a _ => { x with session := x.session.perform a }
  | .publish => x.publish
  | .hear => if x.awaited.isSome then x else x.hear
  | .type line => if x.awaited.isSome then x else ((replyText? line).map x.ask).getD x
  | .resume =>
    match x.awaited.bind x.session.answer? with
    | some yes => { x with chat := x.chat.answered yes, awaited := none }
    | none => x

def performAll (x : Exchange) (acts : List Act) : Exchange := acts.foldl perform x

/-- What the chat has not heard, unless it is lost. -/
def unheard (x : Exchange) : List Notice :=
  x.inbox.letters ++ x.session.notices.drop x.published

end Exchange

/-- The options that the last input among these notices offers. -/
def offeredLast (ns : List Notice) : List Choice :=
  ns.foldl (fun choices n => match n with
    | .awaiting input => offered input
    | _ => choices) []

/-- The options that a chat goes by, unless the answer that it waits for is a yes. -/
def standing (s : Session) (c : Chat) (awaited : Option Nat) : List Choice :=
  if awaited.bind s.answer? = some true then [] else c.choices

/-- The calls and the answers of a session, for a chat that waits for this answer. -/
inductive Waits (s : Session) (c : Chat) : Option Nat → Prop
  | free : s.calls = [] → Waits s c none
  | sent {n : Nat} {e : Event} {text : String} : s.calls = [⟨n, e⟩] → s.answer? n = none →
      Suits c.choices text e → Waits s c (some n)
  | answered {n : Nat} {yes : Bool} : s.calls = [] → s.answer? n = some yes → Waits s c (some n)

namespace Exchange

/-- What holds at any time of a chat, its session and what is on the way. -/
structure Kept (script : Script) (x : Exchange) : Prop where
  session : Session.Leads (.start script) x.session
  published : x.published ≤ x.session.notices.length
  agrees : Agrees x.session.state x.unheard (standing x.session x.chat x.awaited)
  waits : Waits x.session x.chat x.awaited
  recalls : x.chat.choices = [] ∨ x.chat.choices = offeredLast x.heard

end Exchange

/-- What a reply that is typed as this text is good for: it is free text if the chat has no
options, and else a pick of one of them, which were received last and are those of the prompt
that is open. -/
inductive Exchange.Apt (x : Exchange) (text : String) : Event → Prop
  | text : x.chat.choices = [] → Apt x text (.submit text)
  | pick {c : Choice} : c ∈ x.chat.choices → x.chat.choices = offeredLast x.heard →
      OnOffer x.session.state x.chat.choices → Apt x text (.select c.id)

/-- The chat does not answer a prompt that is not open. -/
structure Exchange.Fits (x : Exchange) : Prop where
  /-- Where the chat takes a notice or a line next, the options it has are on offer. -/
  shown : x.awaited = none → x.chat.choices ≠ [] → OnOffer x.session.state x.chat.choices
  /-- What it makes of a line then is apt. -/
  sends : x.awaited = none → ∀ text e, x.chat.request text = some e → x.Apt text e
  /-- What it has sent is apt as long as it waits to be taken. -/
  queued : ∀ call ∈ x.session.calls, ∃ text, x.Apt text call.event

variable {script : Script} {s s' : Session} {c : Chat} {awaited : Option Nat}
  {taken : Option Session.Item}

/-! ## The session goes on

A round takes one item at most from the queue, so what a round does to the agreement depends
on that item alone.  Where it is the pick of a chat that waits, the prompt is left and the
options stand no longer; where it is anything else, the prompt that is open stays open and
the options that stand with it. -/

theorem answer?_of_answers {n : Nat} {yes : Bool} {answers : List (Nat × Bool)}
    (h : s.answers = (n, yes) :: answers) : s.answer? n = some yes := by
  simp [Session.answer?, h]

theorem Waits.length_calls_le (h : Waits s c awaited) : s.calls.length ≤ 1 := by
  cases h with
  | free hcalls | answered hcalls =>
      rw [hcalls]
      exact Nat.zero_le 1
  | sent hcalls =>
      rw [hcalls]
      exact Nat.le_refl 1

theorem Waits.congr (h : Waits s c awaited) (hcalls : s'.calls = s.calls)
    (hanswers : s'.answers = s.answers) : Waits s' c awaited := by
  have hanswer : ∀ n, s'.answer? n = s.answer? n := by
    intro n
    rw [Session.answer?, hanswers]
    rfl
  cases h with
  | free hnone => exact .free (hcalls.trans hnone)
  | sent hcall hwaits hsuits => exact .sent (hcalls.trans hcall) ((hanswer _).trans hwaits) hsuits
  | answered hnone hyes => exact .answered (hcalls.trans hnone) ((hanswer _).trans hyes)

theorem standing_congr (hanswers : s'.answers = s.answers) :
    standing s' c awaited = standing s c awaited := by
  have hanswer : s'.answer? = s.answer? := by
    funext n
    rw [Session.answer?, hanswers]
    rfl
  rw [standing, hanswer]
  rfl

theorem standing_of_free (hfree : awaited = none) : standing s c awaited = c.choices := by
  rw [hfree]
  rfl

theorem standing_eq_choices {n : Nat} (h : s.answer? n ≠ some true) :
    standing s c (some n) = c.choices := if_neg h

/-- **A round makes options fall that a pick was taken for**, and no others. -/
theorem Waits.served (h : Waits s c awaited) (hserved : Session.Served s taken s') :
    Waits s' c awaited ∧
      ((∃ call, taken = some (.call call)) → standing s' c awaited = []) ∧
      ((∀ call, taken ≠ some (.call call)) → standing s' c awaited = standing s c awaited) := by
  cases hserved with
  | waits hcalls hanswers htaken =>
      exact ⟨h.congr hcalls hanswers, fun ⟨call, hcall⟩ => absurd hcall (htaken call),
        fun _ => standing_congr hanswers⟩
  | @yes call hqueue hcalls hanswers htaken =>
      cases h with
      | free hnone | answered hnone => cases hqueue.symm.trans hnone
      | @sent n e text hcall hwaits hsuits =>
          obtain rfl : call = ⟨n, e⟩ := List.head_eq_of_cons_eq (hqueue.symm.trans hcall)
          have hyes := answer?_of_answers hanswers
          refine ⟨.answered hcalls hyes, fun _ => ?_, fun hno => absurd htaken (hno _)⟩
          exact if_pos hyes
  | @no call hqueue hcalls hanswers htaken =>
      cases h with
      | free hnone | answered hnone => cases hqueue.symm.trans hnone
      | @sent n e text hcall hwaits hsuits =>
          obtain rfl : call = ⟨n, e⟩ := List.head_eq_of_cons_eq (hqueue.symm.trans hcall)
          have hno := answer?_of_answers hanswers
          have hafter : s'.answer? n ≠ some true := by
            rw [hno]
            decide
          have hbefore : s.answer? n ≠ some true := by
            rw [hwaits]
            decide
          refine ⟨.answered hcalls hno, fun ⟨call, hcall⟩ => absurd hcall (htaken call),
            fun _ => ?_⟩
          exact (standing_eq_choices hafter).trans (standing_eq_choices hbefore).symm

theorem Waits.suits (h : Waits s c awaited) {call : Call} (hcall : call ∈ s.calls) :
    standing s c awaited = c.choices ∧ ∃ text, Suits c.choices text call.event := by
  cases h with
  | free hnone | answered hnone =>
      rw [hnone] at hcall
      cases hcall
  | @sent n e text hone hwaits hsuits =>
      rw [hone] at hcall
      rw [List.mem_singleton.mp hcall]
      refine ⟨standing_eq_choices ?_, text, hsuits⟩
      rw [hwaits]
      decide

namespace Exchange

variable {x : Exchange}

theorem Kept.round (h : Kept script x) (hclosed : script.flow.Closed) :
    Kept script { x with session := x.session.turn } := by
  have hturned := x.session.turned_turn
  obtain ⟨hwaits, hfallen, hstanding⟩ := h.waits.served (hturned.served h.waits.length_calls_le)
  have hsession : Session.Leads (.start script) x.session.turn :=
    h.session.trans (x.session.leads_perform .round)
  cases hitem : x.session.taken? with
  | none =>
      rw [hitem] at hturned hstanding
      have hnotices := hturned.notices_of_none
      refine ⟨hsession, hnotices ▸ h.published, ?_, hwaits, h.recalls⟩
      show Agrees x.session.turn.state (x.inbox.letters ++ x.session.turn.notices.drop x.published)
        (standing x.session.turn x.chat x.awaited)
      rw [hturned.state_of_none, hnotices, hstanding (by simp)]
      exact h.agrees
  | some item =>
      rw [hitem] at hturned hstanding hfallen
      obtain ⟨o, htaken, hstate, hnotices⟩ := hturned.outcome_of_some
      have hsound := h.session.sound hclosed
      have hpick : ∀ option, item.event = .select option →
          standing x.session x.chat x.awaited ≠ [] := by
        intro option hoption
        cases (Session.taken?_eq_some_iff.mp hitem).1 with
        | start | ticket => cases hoption
        | @call call rest hphase hstopped hdue hcalls =>
            have hevent : call.event = .select option := hoption
            obtain ⟨hchoices, text, hsuits⟩ := h.waits.suits (hcalls ▸ List.mem_cons_self)
            rw [hevent] at hsuits
            rw [hchoices]
            exact hsuits.ne_nil
      obtain ⟨hagrees, hnone⟩ :=
        h.agrees.taken hsound.coherent (hsound.goesBy ▸ htaken) hpick
      have hlength : x.published ≤ x.session.turn.notices.length := by
        rw [hnotices, List.length_append]
        exact Nat.le_add_right_of_le h.published
      refine ⟨hsession, hlength, ?_, hwaits, h.recalls⟩
      show Agrees x.session.turn.state (x.inbox.letters ++ x.session.turn.notices.drop x.published)
        (standing x.session.turn x.chat x.awaited)
      have hempty : standing x.session.turn x.chat x.awaited = [] := by
        cases item with
        | call call => exact hfallen ⟨call, rfl⟩
        | start | ticket => exact (hstanding (by simp)).trans (hnone nofun)
      rw [hstate, hempty, hnotices, List.drop_append_of_le_length h.published, ← List.append_assoc]
      exact hagrees

theorem Kept.goOn (h : Kept script x) (hclosed : script.flow.Closed) {a : Session.Act}
    (ha : a.reply? = none) : Kept script { x with session := x.session.perform a } := by
  by_cases hround : a = .round
  · subst hround
    exact h.round hclosed
  · obtain ⟨timers, due, stopped, hperform⟩ := x.session.perform_eq_of_quiet ha hround
    have hsession := h.session.trans (x.session.leads_perform a)
    rw [hperform] at hsession ⊢
    exact ⟨hsession, h.published, h.agrees, h.waits.congr rfl rfl, h.recalls⟩

/-! ## The chat goes on

What the session told since is heard or lost, from the oldest on; both shorten what is
unheard at its front, so they keep the agreement for the same reason.  A chat hears only
while it waits for no answer, and then it has no call in the queue. -/

theorem Kept.calls_eq_nil (h : Kept script x) (hfree : x.awaited = none) :
    x.session.calls = [] := by
  have hwaits := h.waits
  rw [hfree] at hwaits
  cases hwaits with
  | free hnone => exact hnone

theorem Kept.waits_of_free (h : Kept script x) (hfree : x.awaited = none) (c : Chat) :
    Waits x.session c x.awaited := by
  rw [hfree]
  exact .free (h.calls_eq_nil hfree)

theorem letters_push_suffix (m : Mailbox Notice) (n : Notice) :
    (m.push n).letters <:+ m.letters ++ [n] := by
  unfold Mailbox.push
  dsimp only
  split
  · exact List.suffix_refl _
  · exact List.drop_suffix 1 _

theorem Kept.publish (h : Kept script x) : Kept script x.publish := by
  unfold Exchange.publish
  split
  · rename_i n hn
    obtain ⟨hlt, rfl⟩ := List.getElem?_eq_some_iff.mp hn
    refine ⟨h.session, hlt, ?_, h.waits, h.recalls⟩
    refine h.agrees.suffix ?_
    show (x.inbox.push _).letters ++ x.session.notices.drop (x.published + 1) <:+ x.unheard
    rw [unheard, List.drop_eq_getElem_cons hlt, List.append_cons]
    exact (List.suffix_append_self_iff).mpr (letters_push_suffix _ _)
  · exact h

theorem offeredLast_concat (ns : List Notice) (n : Notice) :
    offeredLast (ns ++ [n]) = match n with
      | .awaiting input => offered input
      | _ => offeredLast ns := by
  rw [offeredLast, List.foldl_append]
  rfl

theorem Kept.hear (h : Kept script x) (hfree : x.awaited = none) : Kept script x.hear := by
  unfold Exchange.hear
  split
  · exact ⟨h.session, h.published, h.agrees, h.waits, h.recalls⟩
  · split
    · exact h
    · rename_i n later hletters
      have hagrees := h.agrees
      rw [standing_of_free hfree, unheard, hletters] at hagrees
      refine ⟨h.session, h.published, ?_, h.waits_of_free hfree _, ?_⟩
      · show Agrees _ (later ++ _) (standing x.session (x.chat.hear n) x.awaited)
        rw [standing_of_free hfree]
        exact hagrees.hear
      · show (x.chat.hear n).choices = [] ∨ (x.chat.hear n).choices = offeredLast (x.heard ++ [n])
        rw [offeredLast_concat]
        cases n with
        | message | resolved | ended => exact h.recalls
        | awaiting input => exact .inr rfl

theorem choices_answered (c : Chat) (yes : Bool) :
    (c.answered yes).choices = if yes then [] else c.choices := by
  cases yes <;> rfl

theorem Kept.call (h : Kept script x) (hfree : x.awaited = none) {text : String} {e : Event}
    (hsuits : Suits x.chat.choices text e) : Kept script
      { x with session := x.session.call e, awaited := some x.session.nextCall } := by
  have hleads : Session.Leads x.session (x.session.call e) := by
    cases hsuits with
    | text => exact x.session.leads_perform (.submit text)
    | @pick c => exact x.session.leads_perform (.select c.id)
  have hsession := h.session.trans hleads
  have hagrees : Agrees x.session.state x.unheard x.chat.choices := by
    have hagrees := h.agrees
    rwa [standing_of_free hfree] at hagrees
  have hpublished : x.published ≤ (x.session.call e).notices.length := by
    rw [Session.notices_call]
    exact h.published
  have hstanding : (x.session.call e).answer? x.session.nextCall ≠ some true →
      Agrees (x.session.call e).state
        (x.inbox.letters ++ (x.session.call e).notices.drop x.published)
        (standing (x.session.call e) x.chat (some x.session.nextCall)) := by
    intro hno
    rw [standing_eq_choices hno, Session.state_call, Session.notices_call]
    exact hagrees
  rcases Session.call_alone h.session (h.calls_eq_nil hfree) e with ⟨hcalls, hanswer⟩ | ⟨hcalls, hanswer⟩
  · refine ⟨hsession, hpublished, hstanding ?_, .sent hcalls hanswer hsuits, h.recalls⟩
    rw [hanswer]
    decide
  · refine ⟨hsession, hpublished, hstanding ?_, .answered hcalls hanswer, h.recalls⟩
    rw [hanswer]
    decide

theorem Kept.ask (h : Kept script x) (hfree : x.awaited = none) (text : String) :
    Kept script (x.ask text) := by
  unfold Exchange.ask
  split
  · exact ⟨h.session, h.published, h.agrees, h.waits_of_free hfree _, h.recalls⟩
  · rename_i e he
    exact h.call hfree (suits_of_request he)

theorem Kept.resume (h : Kept script x) {yes : Bool}
    (hyes : x.awaited.bind x.session.answer? = some yes) :
    Kept script { x with chat := x.chat.answered yes, awaited := none } := by
  have hnone : x.session.calls = [] := by
    cases hawaited : x.awaited with
    | none =>
        rw [hawaited] at hyes
        cases hyes
    | some n =>
        have hwaits := h.waits
        rw [hawaited] at hwaits hyes
        cases hwaits with
        | sent hone hwaits => cases hwaits.symm.trans hyes
        | answered hnone => exact hnone
  have hstanding : (x.chat.answered yes).choices = standing x.session x.chat x.awaited := by
    rw [choices_answered, standing, hyes]
    cases yes <;> rfl
  refine ⟨h.session, h.published, ?_, .free hnone, ?_⟩
  · show Agrees x.session.state x.unheard (x.chat.answered yes).choices
    rw [hstanding]
    exact h.agrees
  · show (x.chat.answered yes).choices = [] ∨ (x.chat.answered yes).choices = offeredLast x.heard
    rw [choices_answered]
    cases yes with
    | true => exact .inl rfl
    | false => exact h.recalls

/-! ## All acts

Each act is one of those above, or is passed over because the chat waits.  So the agreement
is kept by any list of them, and what it says of a chat that is free, or has just sent
something, is read off at the end. -/

theorem Kept.perform (h : Kept script x) (hclosed : script.flow.Closed) (a : Act) :
    Kept script (x.perform a) := by
  cases a with
  | goOn a ha => exact h.goOn hclosed ha
  | publish => exact h.publish
  | hear =>
      show Kept script (if x.awaited.isSome then x else x.hear)
      split
      · exact h
      · rename_i hfree
        exact h.hear (Option.not_isSome_iff_eq_none.mp hfree)
  | type line =>
      show Kept script (if x.awaited.isSome then x else ((replyText? line).map x.ask).getD x)
      split
      · exact h
      · rename_i hfree
        cases replyText? line with
        | none => exact h
        | some text => exact h.ask (Option.not_isSome_iff_eq_none.mp hfree) text
  | resume =>
      cases hanswer : x.awaited.bind x.session.answer? with
      | some yes =>
          simp only [Exchange.perform, hanswer]
          exact h.resume hanswer
      | none =>
          simp only [Exchange.perform, hanswer]
          exact h

theorem kept_start (script : Script) (capacity : Nat) : Kept script (start script capacity) :=
  ⟨.refl _, Nat.le_refl 0, agrees_initial, .free rfl, .inl rfl⟩

theorem Kept.performAll (hclosed : script.flow.Closed) (acts : List Act) (h : Kept script x) :
    Kept script (x.performAll acts) := by
  induction acts generalizing x with
  | nil => exact h
  | cons a acts ih => exact ih (h.perform hclosed a)

/-- **The agreement is kept by all acts in any order.** -/
theorem kept_performAll (hclosed : script.flow.Closed) (capacity : Nat) (acts : List Act) :
    Kept script ((start script capacity).performAll acts) :=
  (kept_start script capacity).performAll hclosed acts

theorem Kept.apt (h : Kept script x) {text : String} {e : Event}
    (hstanding : standing x.session x.chat x.awaited = x.chat.choices)
    (hsuits : Suits x.chat.choices text e) : x.Apt text e := by
  cases hsuits with
  | text hnone => exact .text hnone
  | pick hc =>
      have hsome : x.chat.choices ≠ [] := List.ne_nil_of_mem hc
      refine .pick hc (h.recalls.resolve_left hsome) ?_
      have hshown := h.agrees.shown
      rw [hstanding] at hshown
      exact hshown hsome

theorem Kept.fits (h : Kept script x) : x.Fits := by
  refine ⟨?_, ?_, ?_⟩
  · intro hfree
    have hshown := h.agrees.shown
    rwa [standing_of_free hfree] at hshown
  · intro hfree text e he
    exact h.apt (standing_of_free hfree) (suits_of_request he)
  · intro call hcall
    obtain ⟨hchoices, text, hsuits⟩ := h.waits.suits hcall
    exact ⟨text, h.apt hchoices hsuits⟩

end Exchange

end Parley.Chat
