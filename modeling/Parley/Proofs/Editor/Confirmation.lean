/-
# The confirmation of a removal

The removal of the selection is a matter of two commands: it is asked for, and then it is
confirmed or cancelled.  Of the selection and the flag that is raised in between, `Turns`
lists what a command can make:

| command                       | the selection          | the flag              |
| :---------------------------- | :--------------------- | :-------------------- |
| a removal is asked for        | as before              | up, if any is selected |
| it is confirmed               | none                   | down                  |
| it is cancelled               | as before              | down                  |
| a block is toggled            | with it or without it  | as before             |
| all are deselected            | none                   | as before             |
| blocks are removed            | those that are left    | as before             |
| the selection is duplicated   | the copies             | as before             |
| undo, redo                    | none                   | as before             |
| any other                     | as before              | as before             |

So the flag is up exactly while a removal that was asked for waits (`confirming_iff_asked`).
But that is all there is to it: the confirmation does not look at the flag, and what else
deselects blocks does not lower it.  Hence two things hold only of sessions that keep away
from this (`removals_confirmed_iff`):

* no removal goes unasked, exactly if none is confirmed while the flag is down and blocks
  are selected;
* something is selected whenever the flag is up, exactly if no command deselects the last
  block while the flag is up.
-/
import Parley.Proofs.Editor.Commits
import Parley.Proofs.Editor.Removal

namespace Parley.Editor

/-- Among the commands a removal was asked for, with success, and it was neither confirmed
nor cancelled since. -/
def Asked (e : Editor) (cs : List Command) : Prop :=
  ∃ earlier later, cs = earlier ++ .requestRemoval :: later ∧
    (e.performAll earlier).requestRemoval.2 ∧ ∀ c ∈ later, c.settlesRequest = false

/-- A confirmation would remove blocks. -/
def RemovesSelected (e : Editor) : Prop :=
  e.confirmRemoval.1.graph.blocks.length < e.graph.blocks.length

instance (e : Editor) : Decidable (RemovesSelected e) := inferInstanceAs (Decidable (_ < _))

/-- No blocks are removed by a confirmation unless their removal was asked for. -/
def Confirmed (e : Editor) (cs : List Command) : Prop :=
  ∀ before after, cs = before ++ .confirmRemoval :: after →
    RemovesSelected (e.performAll before) → Asked e before

/-- A removal is confirmed that nobody asked for. -/
inductive Unasked (e : Editor) : Command → Prop
  | confirm : e.confirming = false → e.selection.ids ≠ [] → Unasked e .confirmRemoval

/-- The last of the selected blocks is deselected while a request for their removal waits. -/
inductive Strands (e : Editor) : Command → Prop
  | deselect : e.confirming → Strands e .deselect
  | toggle {id : String} {b : Block} : e.confirming → e.graph.block? id = some b →
      b.isSelectable → e.selection.ids = [id] → Strands e (.toggle id)
  | erase {ids : List String} : e.confirming → (∀ id ∈ e.selection.ids, id ∈ ids) →
      Strands e (.change (.erase ids))
  | travel {c : Command} {h : History} : e.confirming → e.travel? c = some h → Strands e c

/-- What a command can make of the selection and the flag. -/
inductive Turns (e : Editor) : Command → Selection → Bool → Prop
  | request : e.selection.ids ≠ [] → Turns e .requestRemoval e.selection true
  | confirm : Turns e .confirmRemoval .none false
  | cancel : Turns e .cancelRemoval e.selection false
  | toggle {id : String} {b : Block} : e.graph.block? id = some b → b.isSelectable →
      Turns e (.toggle id) (e.selection.toggle id) e.confirming
  | deselect : Turns e .deselect .none e.confirming
  | erase {ids : List String} : Turns e (.change (.erase ids))
      (e.selection.existing (e.graph.erased ids)) e.confirming
  | duplicate {ids : List String} : ids ≠ [] → Turns e .duplicateSelected ⟨ids⟩ e.confirming
  | travel {c : Command} {h : History} : e.travel? c = some h → Turns e c .none e.confirming
  | rest {c : Command} : c.settlesRequest = false →
      (c = .requestRemoval → e.selection.ids = []) → Turns e c e.selection e.confirming

variable {e e' : Editor} {c : Command} {reply : Reply}

/-! ## The selection and the flag

Both are left alone by all that has to do with graphs, but for the blocks that go: of the
selection is left what the graph has left.  So of each thing that a command does one line of
the table is to be found. -/

/-- The selection and the flag. -/
def request (e : Editor) : Selection × Bool := (e.selection, e.confirming)

theorem request_reselect (e : Editor) (s : Selection) :
    (e.reselect s).request = (s, e.confirming) := by
  unfold reselect
  split <;> rfl

theorem request_forgetGone_deselect (e : Editor) :
    e.forgetGone.deselect.request = (.none, e.confirming) := by
  have hup : e.forgetGone.confirming = e.confirming :=
    congrArg Prod.snd (request_reselect e (e.selection.existing e.graph))
  rw [deselect, request_reselect, hup]

theorem request_erase {ids : List String} {g : Graph} (hg : e.graph.erase? ids = some g) :
    (e.carriedOut (.erase ids) ⟨g, e.supply, .nothing⟩).request =
      (e.selection.existing (e.graph.erased ids), e.confirming) := by
  rw [erased_of_erase? hg]
  exact request_reselect _ _

theorem turns_of_request {s : Selection} {up : Bool} (h : Turns e c s up)
    (he' : e'.request = (s, up)) : Turns e c e'.selection e'.confirming := by
  obtain ⟨hselection, hconfirming⟩ := Prod.mk.inj he'
  rwa [hselection, hconfirming]

/-- **What is listed is all that a command can make of the selection and the flag.** -/
theorem Performed.turns (h : Performed e c e' reply) : Turns e c e'.selection e'.confirming := by
  cases h with
  | rest hrests => exact .rest hrests.keepsRequest hrests.unasked
  | @edit c drawing menu ch r hc hedit hr =>
      cases edits_of_edit? hedit with
      | change =>
          cases ch with
          | erase ids =>
              obtain ⟨g, hg, rfl⟩ := Option.map_eq_some_iff.mp hr
              exact turns_of_request .erase (request_erase (e := { e with drawing, menu }) hg)
          | addBlock | revise | move | duplicate | connect | disconnect | extend
            | insertBetween => exact .rest rfl nofun
      | addChoice | removeChoice | connect => exact .rest rfl nofun
      | @choose kind m | @chooseNamed name kind m => cases m <;> exact .rest rfl nofun
      | duplicate | remove => cases hc
  | copy hr => exact .duplicate (Graph.exists_made_of_duplicate? hr).1
  | ask hsome => exact .request hsome
  | withdraw hc hnone =>
      cases c with
      | confirmRemoval =>
          have hselection : e.selection = .none := congrArg Selection.mk (hnone rfl)
          exact turns_of_request .confirm (Prod.ext hselection rfl)
      | cancelRemoval => exact .cancel
      | _ => cases hc
  | remove | removeNone => exact turns_of_request .confirm (request_forgetGone_deselect _)
  | toggle hb hselectable => exact .toggle hb hselectable
  | deselect => exact turns_of_request .deselect (request_reselect _ _)
  | focus | startDrag | drag | endDrag | letGo => exact .rest rfl nofun
  | travel htravel => exact turns_of_request (.travel htravel) (request_reselect _ _)

/-! ## The flag -/

theorem requestRemoval_iff (e : Editor) : e.requestRemoval.2 ↔ e.selection.ids ≠ [] := by
  unfold requestRemoval Selection.isEmpty
  cases e.selection.ids <;> simp

/-- The flag goes up on a request, and stays up until one is settled. -/
theorem Turns.up_iff {s : Selection} {up : Bool} (h : Turns e c s up) :
    up ↔ (c = .requestRemoval ∧ e.requestRemoval.2) ∨ (c.settlesRequest = false ∧ e.confirming) := by
  rw [requestRemoval_iff]
  cases h with
  | request hsome => exact iff_of_true rfl (.inl ⟨rfl, hsome⟩)
  | confirm | cancel => exact iff_of_false nofun (by simp [Command.settlesRequest])
  | toggle | deselect | erase | duplicate => simp [Command.settlesRequest]
  | @travel c h hback =>
      have hother : c ≠ .requestRemoval ∧ c.settlesRequest = false := by
        cases c with
        | undo | redo => exact ⟨nofun, rfl⟩
        | _ => cases hback
      simp [hother]
  | rest hrest hnone =>
      constructor
      · exact fun hup => .inr ⟨hrest, hup⟩
      · rintro (⟨hc, hsome⟩ | ⟨-, hup⟩)
        · exact absurd (hnone hc) hsome
        · exact hup

theorem asked_append_one {e : Editor} {cs : List Command} {c : Command} :
    Asked e (cs ++ [c]) ↔ (c = .requestRemoval ∧ (e.performAll cs).requestRemoval.2) ∨
      (c.settlesRequest = false ∧ Asked e cs) := by
  constructor
  · rintro ⟨earlier, later, hcs, hsome, hlater⟩
    rcases List.eq_nil_or_concat later with rfl | ⟨later, last, rfl⟩
    · obtain ⟨rfl, hc⟩ := List.append_inj' hcs rfl
      exact .inl ⟨(List.cons.inj hc).1, hsome⟩
    · rw [List.concat_eq_append] at hcs hlater
      rw [← List.cons_append, ← List.append_assoc] at hcs
      obtain ⟨rfl, hc⟩ := List.append_inj' hcs rfl
      obtain ⟨rfl, -⟩ := List.cons.inj hc
      refine .inr ⟨hlater c (by simp), earlier, later, rfl, hsome, fun d hd => ?_⟩
      exact hlater d (List.mem_append_left _ hd)
  · rintro (⟨rfl, hsome⟩ | ⟨hc, earlier, later, rfl, hsome, hlater⟩)
    · exact ⟨cs, [], rfl, hsome, nofun⟩
    · refine ⟨earlier, later ++ [c], by simp, hsome, fun d hd => ?_⟩
      rcases List.mem_append.mp hd with hd | hd
      · exact hlater d hd
      · rwa [List.mem_singleton.mp hd]

/-- **The flag is up exactly while a removal that was asked for waits.** -/
theorem confirming_iff_asked (hdown : e.confirming = false) (cs : List Command) :
    (e.performAll cs).confirming ↔ Asked e cs := by
  induction cs using List.reverseRecOn with
  | nil =>
      rw [show e.performAll [] = e from rfl, hdown]
      exact iff_of_false nofun fun ⟨earlier, later, hcs, _⟩ => by cases earlier <;> cases hcs
  | append_singleton cs c ih =>
      rw [performAll_append, asked_append_one, ← ih]
      exact (performed_perform _ c).turns.up_iff

/-! ## Removals that were not asked for

A removal is looked at from two sides: from the session, by whether it was asked for in the
commands before it, and from the state it is made in, by whether the flag is up.  They come
to the same because the flag tells what was asked for. -/

theorem removesSelected_iff (h : Living e) : RemovesSelected e ↔ e.selection.ids ≠ [] := by
  unfold RemovesSelected
  rw [graph_confirmRemoval]
  constructor
  · intro hfewer hnone
    rw [hnone, Graph.erased_eq_without, List.filter_nil, Graph.without_nil] at hfewer
    exact Nat.lt_irrefl _ hfewer
  · intro hsome
    obtain ⟨id, hid⟩ := List.exists_mem_of_ne_nil _ hsome
    obtain ⟨b, hb, hname⟩ := List.any_eq_true.mp (h id hid)
    rw [(Graph.induced_erased _ _).blocks, List.length_filter_lt_length_iff_exists]
    refine ⟨b, hb, ?_⟩
    simpa [beq_iff_eq.mp hname] using hid

theorem mem_steps_iff {cs : List Command} {x : Editor × Command} :
    x ∈ e.steps cs ↔
      ∃ before after, cs = before ++ x.2 :: after ∧ x.1 = e.performAll before := by
  induction cs generalizing e with
  | nil => exact iff_of_false nofun fun ⟨before, _, hcs, _⟩ => by cases before <;> cases hcs
  | cons c cs ih =>
      rw [steps, List.mem_cons, ih]
      constructor
      · rintro (rfl | ⟨before, after, rfl, hx⟩)
        · exact ⟨[], cs, rfl, rfl⟩
        · exact ⟨c :: before, after, rfl, hx⟩
      · rintro ⟨before, after, hcs, hx⟩
        cases before with
        | nil =>
            obtain ⟨rfl, -⟩ := List.cons.inj hcs
            exact .inl (Prod.ext hx rfl)
        | cons d before =>
            obtain ⟨rfl, rfl⟩ := List.cons.inj hcs
            exact .inr ⟨before, after, rfl, hx⟩

theorem confirmed_iff (hliving : Living e) (hdown : e.confirming = false) (cs : List Command) :
    Confirmed e cs ↔ ∀ x ∈ e.steps cs, ¬ Unasked x.1 x.2 := by
  have hremoves : ∀ before, RemovesSelected (e.performAll before) ↔
      (e.performAll before).selection.ids ≠ [] :=
    fun before => removesSelected_iff (living_performAll before hliving)
  constructor
  · rintro h ⟨e', c⟩ hx hunasked
    obtain ⟨before, after, hcs, rfl⟩ := mem_steps_iff.mp hx
    cases hunasked with
    | confirm hlow hsome =>
        have hasked := h before after hcs ((hremoves before).mpr hsome)
        rw [← confirming_iff_asked hdown, hlow] at hasked
        cases hasked
  · intro h before after hcs hfewer
    have hstep : (e.performAll before, .confirmRemoval) ∈ e.steps cs :=
      mem_steps_iff.mpr ⟨before, after, hcs, rfl⟩
    rw [← confirming_iff_asked hdown]
    by_contra hlow
    exact h _ hstep (.confirm (Bool.eq_false_iff.mpr hlow) ((hremoves before).mp hfewer))

/-! ## Requests without a selection

With the flag up the selection may become empty in four ways: the last block of it is
toggled, all are deselected, all of its blocks are removed, and a step through the history.
None of these looks at the flag, and nothing else makes the selection empty and leaves the
flag up. -/

/-- Blocks are selected if the flag is up. -/
def Backed (e : Editor) : Prop := e.confirming → e.selection.ids ≠ []

instance (e : Editor) : Decidable (Backed e) := inferInstanceAs (Decidable (_ → _))

theorem ids_toggle_eq_nil {s : Selection} {id : String} :
    (s.toggle id).ids = [] ↔ s.ids = [id] := by
  unfold Selection.toggle Selection.contains
  split
  · rename_i hin
    rw [List.contains_iff_mem] at hin
    rw [List.erase_eq_nil_iff]
    exact or_iff_right (List.ne_nil_of_mem hin)
  · rename_i hin
    refine iff_of_false (by simp) fun hone => hin ?_
    simp [hone]

theorem existing_erased_eq_nil (h : Living e) {ids : List String} :
    (e.selection.existing (e.graph.erased ids)).ids = [] ↔ ∀ id ∈ e.selection.ids, id ∈ ids := by
  simp only [Selection.existing, List.filter_eq_nil_iff, Graph.hasBlock_erased, not_and, not_not]
  exact ⟨fun hgone id hid => hgone id hid (h id hid), fun hgone id hid _ => hgone id hid⟩

theorem backed_perform (hliving : Living e) (h : Backed e) (hkept : ¬ Strands e c) :
    Backed (e.perform c).1 := by
  intro hup hnil
  generalize hs : (e.perform c).1.selection = s at hnil
  generalize hb : (e.perform c).1.confirming = up at hup
  have hturns := (performed_perform e c).turns
  rw [hs, hb] at hturns
  cases hturns with
  | request hsome => exact hsome hnil
  | confirm | cancel => cases hup
  | toggle hblock hselectable =>
      exact hkept (.toggle hup hblock hselectable (ids_toggle_eq_nil.mp hnil))
  | deselect => exact hkept (.deselect hup)
  | erase => exact hkept (.erase hup ((existing_erased_eq_nil hliving).mp hnil))
  | duplicate hmade => exact hmade hnil
  | travel hback => exact hkept (.travel hup hback)
  | rest => exact h hup hnil

theorem not_backed_of_request {s : Selection} (hup : e.confirming) (hnil : s.ids = [])
    (h : e'.request = (s, e.confirming)) : ¬ Backed e' := by
  obtain ⟨hselection, hconfirming⟩ := Prod.mk.inj h
  intro hbacked
  exact hbacked (hconfirming.trans hup) (hselection ▸ hnil)

theorem not_backed_of_strands (hliving : Living e) (h : Backed e) (hstrands : Strands e c) :
    ¬ Backed (e.perform c).1 := by
  cases hstrands with
  | deselect hup => exact not_backed_of_request hup rfl (request_reselect e _)
  | @toggle id b hup hblock hselectable hone =>
      show ¬ Backed (e.toggle id)
      rw [toggle_eq hblock hselectable]
      exact not_backed_of_request hup (ids_toggle_eq_nil.mpr hone) rfl
  | @erase ids hup hall =>
      -- what is selected exists, so the removal is not refused
      obtain ⟨id, hid⟩ := List.exists_mem_of_ne_nil _ (h hup)
      obtain ⟨g, hg⟩ := Graph.exists_erase? (hall id hid) (hliving id hid)
      show ¬ Backed (e.change (.erase ids)).1
      rw [change_eq_of_perform? (Graph.perform?_erase hg)]
      exact not_backed_of_request hup ((existing_erased_eq_nil hliving).mpr hall)
        (request_erase hg)
  | travel hup hback =>
      rw [perform_of_travel? hback]
      exact not_backed_of_request hup rfl (request_reselect _ _)

/-- **When removals are confirmed, and requests are for something.**  The flag tells whether a
removal was asked for and waits.  All removals of a session were asked for exactly if none is
confirmed with the flag down and blocks selected; and with the flag up blocks are selected
throughout exactly if the last of them is never deselected then. -/
theorem removals_confirmed_iff (s : IdSupply) (g : Graph) (cs : List Command) :
    (((start s g).performAll cs).confirming ↔ Asked (start s g) cs) ∧
      (Confirmed (start s g) cs ↔ ∀ x ∈ (start s g).steps cs, ¬ Unasked x.1 x.2) ∧
      ((∀ e ∈ (start s g).states cs, Backed e) ↔
        ∀ x ∈ (start s g).steps cs, ¬ Strands x.1 x.2) := by
  have hliving : Living (start s g) := nofun
  refine ⟨confirming_iff_asked rfl cs, confirmed_iff hliving rfl cs, ?_⟩
  refine forall_states_iff (fun e => Living e ∧ Backed e) Backed (fun _ _ => True) Strands
    (fun h => h.2) ?_ ?_ cs ⟨hliving, nofun⟩ fun _ _ => trivial
  · intro e c h _ hkept
    exact ⟨living_perform h.1 c, backed_perform h.1 h.2 hkept⟩
  · intro e c h _ hstrands
    exact not_backed_of_strands h.1 h.2 hstrands

/-- The request waits while the block is deselected; it is withdrawn before the block is
selected again. -/
def rash : List Command :=
  [.change (.addBlock .message ⟨400, 150⟩), .toggle "message-0", .requestRemoval, .deselect,
    .cancelRemoval, .toggle "message-0", .confirmRemoval]

/-- **A removal may go unasked, and a request may be for nothing.** -/
theorem rash_not_confirmed :
    ¬ Confirmed (start ⟨toString, 0⟩ .seed) rash ∧
      ¬ ∀ e ∈ (start ⟨toString, 0⟩ .seed).states rash, Backed e := by
  constructor
  · intro h
    have hasked := h (rash.take 6) [] rfl (by decide +kernel)
    rw [← confirming_iff_asked rfl] at hasked
    revert hasked
    decide +kernel
  · decide +kernel

end Parley.Editor
