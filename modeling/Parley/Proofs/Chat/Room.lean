/-
# The chat that runs is one of the exchanges

The chat that runs prints all that the session told since it last did, and after a line it has
the session settle and looks at the answer.  So it is an exchange in which acts come in a
certain order (`Mirrors`):

    listen     publish, hear, publish, hear, … until nothing is left
    elapse     the session goes on; listen
    reply      type; the session goes on until it has settled; resume

For the last the answer has to be there once the session has settled, and it is
(`Session.calls_settle`).  Hence what holds of all exchanges holds of the chat that runs
(`fits_performAll`).
-/
import Parley.Chat.Typed
import Parley.Proofs.Chat.Exchange
import Parley.Session.Audience

namespace Parley.Chat

open Conversation

/-- What can come of a chat that runs: time passes, lines are typed, and what was printed may
be taken away. -/
inductive Room.Reached (script : Script) : Room → Prop
  | start : Reached script (.start script)
  | goOn {r : Room} : Reached script r → Reached script r.goOn
  | elapse {r : Room} (ms : Nat) : Reached script r → Reached script (r.elapse ms)
  | reply {r : Room} (line : String) : Reached script r → Reached script (r.reply line)
  | flush {r : Room} : Reached script r →
      Reached script { r with chat := { r.chat with printed := "" } }

/-- An exchange is where the chat that runs is: nothing is on the way that was published. -/
structure Mirrors (r : Room) (x : Exchange) : Prop where
  session : x.session = r.session
  choices : x.chat.choices = r.chat.choices
  published : x.published = r.heard
  letters : x.inbox.letters = []
  lost : x.inbox.lost = 0
  room : 0 < x.inbox.capacity
  free : x.awaited = none

variable {script : Script} {r : Room} {x : Exchange}

/-! ## What depends on the options only -/

theorem choices_hear_congr {c c' : Chat} (h : c.choices = c'.choices) (n : Notice) :
    (c.hear n).choices = (c'.hear n).choices := by
  cases n with
  | message | resolved | ended => exact h
  | awaiting input => rfl

theorem request_congr {c c' : Chat} (h : c.choices = c'.choices) (text : String) :
    c.request text = c'.request text := by
  rw [request, h]
  rfl

theorem choices_answered_congr {c c' : Chat} (h : c.choices = c'.choices) (yes : Bool) :
    (c.answered yes).choices = (c'.answered yes).choices := by
  rw [Exchange.choices_answered, Exchange.choices_answered, h]

/-! ## Acts in order

The exchange has finer acts than the chat that runs, so each thing that this chat does is a
list of acts, found from the way in which it goes: one round or timer at a time, one notice
at a time. -/

namespace Exchange

theorem performAll_append (x : Exchange) (acts more : List Act) :
    x.performAll (acts ++ more) = (x.performAll acts).performAll more := List.foldl_append

theorem exists_acts_of_drifts {s : Session} (h : Session.Drifts x.session s) :
    ∃ acts, x.performAll acts = { x with session := s } := by
  obtain ⟨acts, hacts, rfl⟩ := h
  induction acts generalizing x with
  | nil => exact ⟨[], rfl⟩
  | cons a acts ih =>
      have ha := hacts a List.mem_cons_self
      obtain ⟨more, hmore⟩ := ih (x := x.perform (.goOn a ha))
        fun b hb => hacts b (List.mem_cons_of_mem a hb)
      exact ⟨.goOn a ha :: more, hmore⟩

theorem perform_publish_hear {n : Notice} (hletters : x.inbox.letters = [])
    (hlost : x.inbox.lost = 0) (hroom : 0 < x.inbox.capacity) (hfree : x.awaited = none)
    (hn : x.session.notices[x.published]? = some n) :
    (x.perform .publish).perform .hear = { x with
      published := x.published + 1, chat := x.chat.hear n, heard := x.heard ++ [n] } := by
  obtain ⟨session, published, ⟨capacity, lost, letters⟩, chat, heard, awaited⟩ := x
  cases hletters
  cases hlost
  cases hfree
  have hone : ([n] : List Notice).length ≤ capacity := hroom
  simp only at hn
  simp only [perform, publish, hn, hear, Mailbox.push, List.nil_append, if_pos hone]
  rfl

/-- What was told and not published yet may be heard at once. -/
theorem exists_acts_of_told (hletters : x.inbox.letters = []) (hlost : x.inbox.lost = 0)
    (hroom : 0 < x.inbox.capacity) (hfree : x.awaited = none) (told : List Notice)
    (htold : x.session.notices.drop x.published = told) :
    ∃ acts heard, x.performAll acts = { x with
      published := x.published + told.length, chat := told.foldl Chat.hear x.chat, heard } := by
  induction told generalizing x with
  | nil => exact ⟨[], x.heard, rfl⟩
  | cons n told ih =>
      have hn : x.session.notices[x.published]? = some n := by
        rw [← List.head?_drop, htold]
        rfl
      have hrest : x.session.notices.drop (x.published + 1) = told := by
        rw [← List.tail_drop, htold]
        rfl
      have hheard := perform_publish_hear hletters hlost hroom hfree hn
      obtain ⟨acts, heard, hacts⟩ := ih (x := (x.perform .publish).perform .hear)
        (by rw [hheard]; exact hletters) (by rw [hheard]; exact hlost)
        (by rw [hheard]; exact hroom) (by rw [hheard]; exact hfree) (by rw [hheard]; exact hrest)
      refine ⟨.publish :: .hear :: acts, heard, hacts.trans ?_⟩
      rw [hheard, List.length_cons, Nat.add_right_comm, List.foldl_cons]
      rfl

end Exchange

/-! ## The chat that runs

To reply is the one thing for which the exchange has to wait: the call is queued, and its
answer is there only after a round has come to it.  Settling makes these rounds, and no call
is left in the queue afterwards (`calls_settle`). -/

theorem drifts_rest (stops : Nat) (s : Session) : Session.Drifts s (Room.rest stops s) := by
  induction stops generalizing s with
  | zero => exact .refl s
  | succ stops ih =>
      unfold Room.rest
      split
      · rename_i due hdue
        exact ((Session.drifts_perform s (a := .clock due) rfl).trans
          (Session.drifts_settle _)).trans (ih _)
      · exact .refl s

theorem Mirrors.listen (h : Mirrors r x) (hkept : x.Kept script) :
    ∃ acts, Mirrors r.listen (x.performAll acts) := by
  obtain ⟨acts, heard, hacts⟩ :=
    Exchange.exists_acts_of_told h.letters h.lost h.room h.free _ rfl
  refine ⟨acts, ?_⟩
  rw [hacts]
  refine ⟨h.session, ?_, ?_, h.letters, h.lost, h.room, h.free⟩
  · have hall : ∀ (ns : List Notice) {c c' : Chat}, c.choices = c'.choices →
        (ns.foldl Chat.hear c).choices = (ns.foldl Chat.hear c').choices := by
      intro ns
      induction ns with
      | nil => exact fun hc => hc
      | cons n ns ih => exact fun hc => ih (choices_hear_congr hc n)
    show ((x.session.notices.drop x.published).foldl Chat.hear x.chat).choices = _
    rw [h.session, h.published]
    exact hall _ h.choices
  · show x.published + (x.session.notices.drop x.published).length = r.session.notices.length
    rw [List.length_drop, ← h.session]
    exact Nat.add_sub_of_le hkept.published

theorem Mirrors.goOn (h : Mirrors r x) (hkept : x.Kept script) (hclosed : script.flow.Closed)
    {s : Session} (hs : Session.Drifts r.session s) :
    ∃ acts, Mirrors (Room.listen { r with session := s }) (x.performAll acts) := by
  obtain ⟨acts, hacts⟩ := Exchange.exists_acts_of_drifts (h.session ▸ hs)
  have hmirrors : Mirrors { r with session := s } (x.performAll acts) := by
    rw [hacts]
    exact ⟨rfl, h.choices, h.published, h.letters, h.lost, h.room, h.free⟩
  obtain ⟨more, hmore⟩ := hmirrors.listen (hkept.performAll hclosed acts)
  exact ⟨acts ++ more, x.performAll_append acts more ▸ hmore⟩

/-- **A call is answered by the time the session has settled**, and the chat may go on. -/
theorem Exchange.Kept.exists_acts_of_call {e : Event} {number : Nat}
    (hkept : Kept script { x with session := x.session.call e, awaited := some number })
    (hclosed : script.flow.Closed) :
    ∃ acts yes, (x.session.call e).settle.answer? number = some yes ∧
      Exchange.performAll { x with session := x.session.call e, awaited := some number } acts =
        { x with
          session := (x.session.call e).settle, chat := x.chat.answered yes, awaited := none } := by
  obtain ⟨acts, hacts⟩ := exists_acts_of_drifts (Session.drifts_settle (x.session.call e))
    (x := { x with session := x.session.call e, awaited := some number })
  have hsettled := hkept.performAll hclosed acts
  rw [hacts] at hsettled
  have hcalls : (x.session.call e).settle.calls = [] :=
    Session.calls_settle (Session.calls_eq_nil_of_closed hkept.session)
  cases hsettled.waits with
  | sent hone => cases hcalls.symm.trans hone
  | @answered _ yes hnone hyes =>
      refine ⟨acts ++ [.resume], yes, hyes, ?_⟩
      rw [performAll_append, hacts]
      show Exchange.perform _ .resume = _
      simp only [Exchange.perform, Option.bind_some]
      rw [show Session.answer? _ _ = some yes from hyes]

theorem Mirrors.reply (h : Mirrors r x) (hkept : x.Kept script) (hclosed : script.flow.Closed)
    (line : String) : ∃ acts, Mirrors (r.reply line) (x.performAll acts) := by
  cases hline : replyText? line with
  | none =>
      have hreply : r.reply line = r := by simp only [Room.reply, hline]
      rw [hreply]
      exact ⟨[], h⟩
  | some text =>
      have htype : x.perform (.type line) = x.ask text := by
        simp only [Exchange.perform, h.free, hline]
        rfl
      have hrequest := request_congr h.choices text
      cases he : r.chat.request text with
      | none =>
          have hreply : r.reply line = { r with chat := r.chat.answered false } := by
            simp only [Room.reply, hline, he]
          have hask : x.perform (.type line) = { x with chat := x.chat.answered false } := by
            rw [htype]
            simp only [Exchange.ask, hrequest, he]
          refine ⟨[.type line], ?_⟩
          show Mirrors _ (x.perform (.type line))
          rw [hreply, hask]
          exact ⟨h.session, h.choices, h.published, h.letters, h.lost, h.room, h.free⟩
      | some e =>
          have hask : x.perform (.type line) = { x with
              session := x.session.call e, awaited := some x.session.nextCall } := by
            rw [htype]
            simp only [Exchange.ask, hrequest, he]
          obtain ⟨acts, yes, hyes, hacts⟩ :=
            Exchange.Kept.exists_acts_of_call (hask ▸ hkept.perform hclosed (.type line)) hclosed
          have hreply : r.reply line = { r with
              session := (x.session.call e).settle, chat := r.chat.answered yes } := by
            simp only [Room.reply, hline, he, Session.ask]
            rw [← h.session, hyes]
            rfl
          refine ⟨.type line :: acts, ?_⟩
          show Mirrors _ (Exchange.performAll (x.perform (.type line)) acts)
          rw [hask, hacts, hreply]
          exact ⟨rfl, choices_answered_congr h.choices yes, h.published, h.letters, h.lost, h.room,
            rfl⟩

/-- Wherever the chat that runs is, an exchange is. -/
theorem exists_mirrors (hclosed : script.flow.Closed) (h : r.Reached script) :
    ∃ acts, Mirrors r ((Exchange.start script Session.Audience.capacity).performAll acts) := by
  -- what leads on from one exchange leads on from the start
  have hon : ∀ {acts : List Exchange.Act} {r' : Room},
      (∃ more, Mirrors r' (((Exchange.start script Session.Audience.capacity).performAll
        acts).performAll more)) →
      ∃ acts, Mirrors r' ((Exchange.start script Session.Audience.capacity).performAll acts) := by
    rintro acts r' ⟨more, hmore⟩
    exact ⟨acts ++ more, by rwa [Exchange.performAll_append]⟩
  have hkept := Exchange.kept_performAll hclosed Session.Audience.capacity
  induction h with
  | start =>
      have hroom : 0 < Session.Audience.capacity := by decide
      exact ⟨[], rfl, rfl, rfl, rfl, rfl, hroom, rfl⟩
  | @goOn r _ ih =>
      obtain ⟨acts, h⟩ := ih
      exact hon (h.goOn (hkept acts) hclosed
        ((Session.drifts_settle r.session).trans (drifts_rest _ _)))
  | @elapse r ms _ ih =>
      obtain ⟨acts, h⟩ := ih
      exact hon (h.goOn (hkept acts) hclosed (Session.drifts_sleep r.session ms))
  | reply line _ ih =>
      obtain ⟨acts, h⟩ := ih
      exact hon (h.reply (hkept acts) hclosed line)
  | flush _ ih =>
      obtain ⟨acts, h⟩ := ih
      exact ⟨acts, h.session, h.choices, h.published, h.letters, h.lost, h.room, h.free⟩

/-- **A chat never answers the wrong prompt.**  However a session over the flow of any graph,
its notices on their way, some of them lost, and the lines typed follow on each other: where
the chat goes by options they are those of the prompt that is open, and what it sends is a pick
of one of them, or free text while it goes by none.  So it is for the chat that runs. -/
theorem fits_performAll (g : Graph) (pace : Pace) :
    let script : Script := ⟨.ofGraph g, pace⟩
    (∀ capacity acts, ((Exchange.start script capacity).performAll acts).Fits) ∧
      ∀ r : Room, r.Reached script → r.chat.choices ≠ [] →
        OnOffer r.session.state r.chat.choices := by
  intro script
  have hclosed : script.flow.Closed := Flow.closed_ofGraph g
  have hfits : ∀ capacity acts, ((Exchange.start script capacity).performAll acts).Fits :=
    fun capacity acts => (Exchange.kept_performAll hclosed capacity acts).fits
  refine ⟨hfits, fun r hr hsome => ?_⟩
  obtain ⟨acts, hmirrors⟩ := exists_mirrors hclosed hr
  rw [← hmirrors.choices] at hsome ⊢
  rw [← hmirrors.session]
  exact (hfits _ acts).shown hmirrors.free hsome

/-- The first option leads from one prompt to the next. -/
def twice : Graph where
  blocks := [⟨"w", ⟨0, 0⟩, .welcome "Hi"⟩,
    ⟨"a", ⟨200, 0⟩, .buttons "Now?" none [⟨"x", "Yes"⟩, ⟨"y", "No"⟩]⟩,
    ⟨"b", ⟨400, 0⟩, .buttons "Sure?" none [⟨"x", "No"⟩]⟩]
  connections := [⟨"c1", ⟨"w", "output"⟩, ⟨"a", "input"⟩⟩, ⟨"c2", ⟨"a", "x"⟩, ⟨"b", "input"⟩⟩]

/-- One notice is lost, a line is typed before the prompt is heard, and a pick after it; when the
pick is answered the next prompt waits in the inbox already. -/
def hasty : List Exchange.Act :=
  [.goOn .round rfl, .goOn (.fire 0) rfl, .goOn .round rfl, .publish, .publish, .publish,
    .type "1", .goOn .round rfl, .resume, .hear, .hear, .hear, .type " yes ", .goOn .round rfl,
    .goOn (.fire 1) rfl, .goOn .round rfl, .publish, .publish, .publish, .resume, .hear, .hear]

theorem fits_performAll_hasty :
    let script : Script := ⟨.ofGraph twice, ⟨1000, 500⟩⟩
    let x := (Exchange.start script 2).performAll (hasty.take 12)
    let y := (Exchange.start script 2).performAll hasty
    let r := (Room.start script).goOn
    (x.awaited = none ∧ x.chat.choices = [⟨"x", "Yes"⟩, ⟨"y", "No"⟩] ∧
        OnOffer x.session.state x.chat.choices) ∧
      (y.awaited = none ∧ y.chat.choices = [] ∧
        y.inbox.letters = [.awaiting (.button [⟨"x", "No"⟩])] ∧ y.Fits) ∧
      r.Reached script ∧ r.chat.choices = [⟨"x", "Yes"⟩, ⟨"y", "No"⟩] ∧
        OnOffer r.session.state r.chat.choices := by
  intro script x y r
  obtain ⟨hfits, hroom⟩ := fits_performAll twice ⟨1000, 500⟩
  have hx : x.awaited = none ∧ x.chat.choices = [⟨"x", "Yes"⟩, ⟨"y", "No"⟩] := by decide +kernel
  have hy : y.awaited = none ∧ y.chat.choices = [] ∧
      y.inbox.letters = [.awaiting (.button [⟨"x", "No"⟩])] := by decide +kernel
  have hr : r.chat.choices = [⟨"x", "Yes"⟩, ⟨"y", "No"⟩] := by decide +kernel
  have hreached : r.Reached script := .goOn .start
  have hfitsx : x.Fits := hfits 2 (hasty.take 12)
  have hfitsy : y.Fits := hfits 2 hasty
  have hshownx : OnOffer x.session.state x.chat.choices :=
    hfitsx.shown hx.1 (hx.2.symm ▸ List.cons_ne_nil _ _)
  have hsome : r.chat.choices ≠ [] := hr.symm ▸ List.cons_ne_nil _ _
  exact ⟨⟨hx.1, hx.2, hshownx⟩, ⟨hy.1, hy.2.1, hy.2.2, hfitsy⟩, hreached, hr,
    hroom r hreached hsome⟩

end Parley.Chat
