/-
# Steps of an editor

Of what an editor holds only four parts say anything about graphs: the graph
itself, the supply of ids, the history and the drags.  They are its *core*.  Most
commands leave the core alone.  `Step` lists what the others do to it, and
`step_perform` says that there is nothing else:

    edit        the command is an edit that is not refused    it is carried out and committed
    travel      undo or redo                                  an entry becomes the graph, the drags are dropped
    startDrag   the block exists                              its place is noted
    drag        the block is being dragged                    the blocks that go with it are displaced
    endDrag     the drag has something to commit              the graph is committed
    letGo       the drag has nothing to commit                the drag is dropped

A list of commands goes through `states` in `steps`.  A property of states that
some steps break and all others keep holds in all states exactly if no step
breaks it; that is `forall_states_iff`, and the results about whole sessions of
editing are cases of it.
-/
import Parley.Proofs.Editor.Performed
import Parley.Proofs.History

namespace Parley.Editor

/-- The parts of an editor that graphs are in, or come from. -/
structure Core where
  graph : Graph
  supply : IdSupply
  history : History
  drags : Table Position

def core (e : Editor) : Core := ⟨e.graph, e.supply, e.history, e.drags⟩

/-- What a command can do to the core of an editor. -/
inductive Step (e : Editor) : Command → Core → Prop
  | edit {c : Command} {ch : Change} {r : Created Made} : e.edit? c = some ch →
      e.graph.perform? e.supply ch = some r →
      Step e c ⟨r.graph, r.supply, e.history.commit r.graph, e.drags⟩
  | travel {c : Command} {h : History} : e.travel? c = some h →
      Step e c ⟨h.current, e.supply, h, .empty⟩
  | startDrag {id : String} {b : Block} : e.graph.block? id = some b →
      Step e (.startDrag id) { e.core with drags := e.drags.insert id b.position }
  | drag {id : String} {delta : Position} : e.isDragging id →
      Step e (.drag id delta) { e.core with graph := e.graph.displace (e.dragGroup id) delta }
  | endDrag {id : String} {origin : Position} : e.drags.get? id = some origin →
      e.dragMoved id origin → Step e (.endDrag id)
        { e.core with history := e.history.commit e.graph, drags := e.drags.erase id }
  | letGo {id : String} {origin : Position} : e.drags.get? id = some origin →
      e.dragMoved id origin = false →
      Step e (.endDrag id) { e.core with drags := e.drags.erase id }
  | rest {c : Command} : Step e c e.core

variable {e e' : Editor} {c : Command} {reply : Reply}

/-! ## The core after a command

What is told, selected or in focus is no part of the core.  So for each thing that a command
does it is enough to look at the graph, the supply, the history and the drags it leaves. -/

@[simp]
theorem core_tell (e : Editor) (n : Notice) : (e.tell n).core = e.core := rfl

@[simp]
theorem core_reselect (e : Editor) (s : Selection) : (e.reselect s).core = e.core := by
  unfold reselect
  split <;> rfl

@[simp]
theorem core_deselect (e : Editor) : e.deselect.core = e.core := core_reselect e .none

@[simp]
theorem core_forgetGone (e : Editor) : e.forgetGone.core = e.core := core_reselect e _

theorem core_carriedOut (e : Editor) (ch : Change) (r : Created Made) :
    (e.carriedOut ch r).core = ⟨r.graph, r.supply, e.history.commit r.graph, e.drags⟩ := by
  cases ch with
  | erase ids => exact core_forgetGone _
  | addBlock | revise | move | duplicate | connect | disconnect | extend | insertBetween => rfl

theorem core_endDrag {id : String} {origin : Position} (h : e.drags.get? id = some origin) :
    (e.endDrag id).1.core =
      if e.dragMoved id origin then
        { e.core with history := e.history.commit e.graph, drags := e.drags.erase id }
      else { e.core with drags := e.drags.erase id } := by
  rw [endDrag_eq h]
  split <;> rfl

theorem core_restore (e : Editor) (h : History) :
    (e.restore (some h)).1.core = ⟨h.current, e.supply, h, .empty⟩ := by
  show ((deselect _).tell _).core = _
  rw [core_tell, core_deselect]
  rfl

/-- The steps listed are all there are. -/
theorem Performed.step (h : Performed e c e' reply) : Step e c e'.core := by
  cases h with
  | rest | ask | withdraw | toggle | focus => exact .rest
  | deselect =>
      rw [core_deselect]
      exact .rest
  | edit hc hedit hr =>
      rw [core_carriedOut]
      exact .edit hedit hr
  | copy hr => exact .edit rfl (Graph.perform?_duplicate hr)
  | remove hsome hg =>
      have hedit : e.edit? .confirmRemoval = some (.erase e.selection.ids) :=
        if_neg fun hnone => hsome (List.isEmpty_iff.mp hnone)
      rw [core_deselect, core_forgetGone]
      exact .edit hedit (Graph.perform?_erase hg)
  | removeNone =>
      rw [core_deselect, core_forgetGone]
      exact .rest
  | startDrag hb => exact .startDrag hb
  | drag hdragging => exact .drag hdragging
  | endDrag horigin hmoved => exact .endDrag horigin hmoved
  | letGo horigin hplace => exact .letGo horigin hplace
  | travel htravel =>
      rw [core_tell, core_deselect]
      exact .travel htravel

theorem step_perform (e : Editor) (c : Command) : Step e c (e.perform c).1.core :=
  (performed_perform e c).step

/-- An edit that is not refused is carried out and committed. -/
theorem Performed.core_of_perform? (h : Performed e c e' reply) {ch : Change} {r : Created Made}
    (hedit : e.edit? c = some ch) (hr : e.graph.perform? e.supply ch = some r) :
    e'.core = ⟨r.graph, r.supply, e.history.commit r.graph, e.drags⟩ := by
  cases h with
  | rest hrests =>
      rw [hrests.refused ch hedit] at hr
      cases hr
  | edit hc hedit' hr' =>
      obtain rfl := Option.some.inj (hedit.symm.trans hedit')
      obtain rfl := Option.some.inj (hr.symm.trans hr')
      exact core_carriedOut _ _ _
  | copy hr' =>
      cases hedit
      cases hr.symm.trans (Graph.perform?_duplicate hr')
      rfl
  | withdraw hc hnone =>
      cases edits_of_edit? hedit with
      | remove hsome => exact absurd (hnone rfl) hsome
      | _ => cases hc
  | remove hsome hg =>
      cases edits_of_edit? hedit
      cases hr.symm.trans (Graph.perform?_erase hg)
      rw [core_deselect, core_forgetGone]
      rfl
  | removeNone hsome hg =>
      cases edits_of_edit? hedit
      cases hr.symm.trans (Graph.perform?_erase_of_refused hg)
  | travel htravel =>
      cases c with
      | undo | redo => cases hedit
      | _ => cases htravel
  | ask | toggle | deselect | focus | startDrag | drag | endDrag | letGo => cases hedit

theorem core_perform_of_perform? {ch : Change} {r : Created Made} (hedit : e.edit? c = some ch)
    (hr : e.graph.perform? e.supply ch = some r) :
    (e.perform c).1.core = ⟨r.graph, r.supply, e.history.commit r.graph, e.drags⟩ :=
  (performed_perform e c).core_of_perform? hedit hr

/-- Behind a commit an undo is possible, and it takes back the commit alone. -/
theorem undo_of_commit {h : History} {g : Graph} (hcommit : e.history = h.commit g) :
    e.undo.2 ∧ e.undo.1.graph = h.current := by
  obtain ⟨h', hback⟩ := History.exists_undo? (h := h.commit g) (Nat.succ_pos _)
  rw [undo, hcommit, hback]
  exact ⟨rfl, (congrArg Core.graph (core_restore e h')).trans
    (History.current_of_undo?_commit hback)⟩

theorem entries_of_travel? {h : History} (hc : e.travel? c = some h) :
    h.entries = e.history.entries := by
  cases c with
  | undo => exact (History.undo?_eq_some hc).1
  | redo => exact (History.redo?_eq_some hc).1
  | _ => cases hc

theorem core_perform_of_travel? {h : History} (hc : e.travel? c = some h) :
    (e.perform c).1.core = ⟨h.current, e.supply, h, .empty⟩ := by
  rw [perform_of_travel? hc, core_restore]

/-- No step puts ids back. -/
theorem later_of_step {c : Command} {k : Core} (h : Step e c k) : e.supply.Later k.supply := by
  cases h with
  | edit _ hr => exact Graph.later_perform? hr
  | travel | startDrag | drag | endDrag | letGo | rest => exact .refl _

/-! ## Lists of commands -/

/-- The editors that a list of commands goes through, the first included. -/
def states : Editor → List Command → List Editor
  | e, [] => [e]
  | e, c :: cs => e :: states (e.perform c).1 cs

/-- The commands of a list, each with the editor that performs it. -/
def steps : Editor → List Command → List (Editor × Command)
  | _, [] => []
  | e, c :: cs => (e, c) :: steps (e.perform c).1 cs

@[simp]
theorem performAll_cons (e : Editor) (c : Command) (cs : List Command) :
    e.performAll (c :: cs) = (e.perform c).1.performAll cs := rfl

theorem performAll_append (e : Editor) (cs cs' : List Command) :
    e.performAll (cs ++ cs') = (e.performAll cs).performAll cs' :=
  List.foldl_append

theorem used_le_performAll : ∀ (cs : List Command) (e : Editor),
    e.supply.used ≤ (e.performAll cs).supply.used
  | [], _ => Nat.le_refl _
  | c :: cs, e =>
      Nat.le_trans (later_of_step (step_perform e c)).used (used_le_performAll cs (e.perform c).1)

theorem used_le_of_mem_steps {x : Editor × Command} : ∀ {cs : List Command} {e : Editor},
    x ∈ e.steps cs → (x.1.perform x.2).1.supply.used ≤ (e.performAll cs).supply.used
  | [], _, h => nomatch h
  | c :: cs, e, h => by
      rcases List.mem_cons.mp h with rfl | htail
      · exact used_le_performAll cs _
      · exact used_le_of_mem_steps (e := (e.perform c).1) htail

/-- Where `Inv` is kept by every step but the bad ones, and a bad step leads to a
state that is not good, all states are good exactly if no step is bad. -/
theorem forall_states_iff (Inv Good : Editor → Prop) (Allowed Bad : Editor → Command → Prop)
    (good : ∀ {e}, Inv e → Good e)
    (keeps : ∀ {e c}, Inv e → Allowed e c → ¬ Bad e c → Inv (e.perform c).1)
    (breaks : ∀ {e c}, Inv e → Allowed e c → Bad e c → ¬ Good (e.perform c).1)
    (cs : List Command) (hinv : Inv e) (hallowed : ∀ x ∈ e.steps cs, Allowed x.1 x.2) :
    (∀ e' ∈ e.states cs, Good e') ↔ ∀ x ∈ e.steps cs, ¬ Bad x.1 x.2 := by
  induction cs generalizing e with
  | nil =>
      constructor
      · intro _ x hx
        cases hx
      · intro _ e' he'
        rw [List.mem_singleton.mp he']
        exact good hinv
  | cons c cs ih =>
      have hhead : Allowed e c := hallowed (e, c) List.mem_cons_self
      have htail : ∀ x ∈ (e.perform c).1.steps cs, Allowed x.1 x.2 :=
        fun x hx => hallowed x (List.mem_cons_of_mem _ hx)
      constructor
      · intro hgood
        have hbad : ¬ Bad e c := by
          intro hbad
          apply breaks hinv hhead hbad
          apply hgood
          refine List.mem_cons_of_mem _ ?_
          cases cs <;> exact List.mem_cons_self
        have hrest := (ih (keeps hinv hhead hbad) htail).mp
          fun e' he' => hgood e' (List.mem_cons_of_mem _ he')
        intro x hx
        rcases List.mem_cons.mp hx with rfl | hx
        · exact hbad
        · exact hrest x hx
      · intro hbad e' he'
        have hfirst : ¬ Bad e c := hbad (e, c) List.mem_cons_self
        rcases List.mem_cons.mp he' with rfl | he'
        · exact good hinv
        · exact (ih (keeps hinv hhead hfirst) htail).mpr
            (fun x hx => hbad x (List.mem_cons_of_mem _ hx)) e' he'

end Parley.Editor
