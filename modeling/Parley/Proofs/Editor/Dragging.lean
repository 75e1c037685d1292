/-
# Moves that are committed and moves that are not

A drag displaces blocks without a commit, and its end makes up for that.  Whether
it does is decided by one block, the one the drag began with: if that block lies
where it lay when its drag began, or is gone, there is nothing to commit.  But the
graph may have moved all the same:

    startDrag a, drag a, startDrag a, endDrag a          the place of a is noted anew
    startDrag a, drag a with a and b selected,
      deselect, drag a back, endDrag a                   b went along, and stays

A command `Abandons` the graph that ends the last drag like this while the graph is
not the current entry.  Between drags an editor should be `Settled`: what is shown
is what is recorded, so undo and redo lead back to it and no commit carries more
than its edit.  It is settled at all times between drags if and only if no command
abandons the graph (`settled_states_iff`), from any graph and without any condition
on the commands.
-/
import Parley.Proofs.Editor.Step
import Parley.Proofs.History

namespace Parley.Editor

/-- Nothing is shown that is not recorded. -/
structure Settled (e : Editor) : Prop where
  /-- The graph is the current entry. -/
  agrees : e.graph = e.history.current
  /-- Going back and forth in the history leads to the graph again. -/
  returns : ∀ n, n ≤ e.history.index →
    (e.performAll (List.replicate n .undo ++ List.replicate n .redo)).graph = e.graph
  /-- An edit is committed alone: one step back undoes it and nothing else. -/
  alone : ∀ c ch r, e.edit? c = some ch → e.graph.perform? e.supply ch = some r →
    (e.performAll [c, .undo]).graph = e.graph

/-- The command ends the last drag and commits nothing, but the graph has moved. -/
inductive Abandons (e : Editor) : Command → Prop
  | endDrag {id : String} {origin : Position} : e.drags.entries = [(id, origin)] →
      e.dragMoved id origin = false → e.graph ≠ e.history.current → Abandons e (.endDrag id)

/-- Without drags the graph is the current entry. -/
def Core.Recorded (k : Core) : Prop := k.drags.entries = [] → k.graph = k.history.current

/-! ## One step -/

variable {e : Editor} {c : Command}

theorem Core.Recorded.step {k : Core} (h : e.core.Recorded) (hkept : ¬ Abandons e c)
    (hstep : Step e c k) : k.Recorded := by
  cases hstep with
  | edit => exact fun _ => (History.current_commit _ _).symm
  | travel => exact fun _ => rfl
  | startDrag =>
      intro hempty
      exact absurd hempty (Table.entries_insert_ne_nil _ _ _)
  | drag hdragging =>
      intro hempty
      rw [isDragging, Table.contains, show e.drags.entries = [] from hempty] at hdragging
      cases hdragging
  | endDrag => exact fun _ => (History.current_commit _ _).symm
  | letGo horigin hplace =>
      intro hempty
      by_cases hsame : e.graph = e.history.current
      · exact hsame
      · have hlast := Table.entries_of_erase_eq_nil horigin hempty
        exact absurd (.endDrag hlast hplace hsame) hkept
  | rest => exact h

/-- An abandoned graph stays what it is, and so does the history. -/
theorem core_perform_of_abandons (h : Abandons e c) :
    (e.perform c).1.drags.entries = [] ∧
      (e.perform c).1.graph ≠ (e.perform c).1.history.current := by
  cases h with
  | @endDrag id origin hlast hplace hother =>
      have hget : e.drags.get? id = some origin := by
        simp [Table.get?, hlast]
      have hcore : (e.perform (.endDrag id)).1.core = { e.core with drags := e.drags.erase id } := by
        show (e.endDrag id).1.core = _
        rw [core_endDrag hget, hplace]
        rfl
      have hdrags : (e.perform (.endDrag id)).1.drags = e.drags.erase id :=
        congrArg Core.drags hcore
      have hgraph : (e.perform (.endDrag id)).1.graph = e.graph := congrArg Core.graph hcore
      have hhistory : (e.perform (.endDrag id)).1.history = e.history :=
        congrArg Core.history hcore
      rw [hdrags, hgraph, hhistory]
      refine ⟨?_, hother⟩
      show e.drags.entries.filter _ = []
      rw [hlast]
      simp

/-! ## Going back and forth

Steps back and steps on go through the entries one by one, and each makes its entry the
graph.  So in a settled editor a number of undos and as many redos end where they began. -/

theorem agrees_of_travel? {h : History} (hc : e.travel? c = some h) :
    (e.perform c).1.graph = (e.perform c).1.history.current := by
  have hcore := core_perform_of_travel? hc
  rw [show (e.perform c).1.graph = h.current from congrArg Core.graph hcore,
    show (e.perform c).1.history = h from congrArg Core.history hcore]

theorem history_of_travel? {h : History} (hc : e.travel? c = some h) :
    (e.perform c).1.history = h :=
  congrArg Core.history (core_perform_of_travel? hc)

theorem performAll_undo : ∀ (n : Nat) {e : Editor}, e.graph = e.history.current →
    n ≤ e.history.index →
      (e.performAll (List.replicate n .undo)).graph =
        (e.performAll (List.replicate n .undo)).history.current ∧
      (e.performAll (List.replicate n .undo)).history.entries = e.history.entries ∧
      (e.performAll (List.replicate n .undo)).history.index + n = e.history.index
  | 0, _, hagrees, _ => ⟨hagrees, rfl, rfl⟩
  | n + 1, e, _, hn => by
      obtain ⟨h, hback⟩ := History.exists_undo? (Nat.lt_of_lt_of_le (Nat.succ_pos n) hn)
      obtain ⟨hentries, hindex⟩ := History.undo?_eq_some hback
      have hhistory := history_of_travel? (e := e) (c := .undo) hback
      obtain ⟨hagrees, hentries', hindex'⟩ := performAll_undo n
        (agrees_of_travel? (e := e) (c := .undo) hback) (by rw [hhistory]; omega)
      rw [hhistory] at hentries' hindex'
      rw [List.replicate_succ, performAll_cons]
      exact ⟨hagrees, hentries'.trans hentries, by omega⟩

theorem performAll_redo : ∀ (n : Nat) {e : Editor}, e.graph = e.history.current →
    e.history.index + n < e.history.entries.length →
      (e.performAll (List.replicate n .redo)).graph =
        (e.performAll (List.replicate n .redo)).history.current ∧
      (e.performAll (List.replicate n .redo)).history.entries = e.history.entries ∧
      (e.performAll (List.replicate n .redo)).history.index = e.history.index + n
  | 0, _, hagrees, _ => ⟨hagrees, rfl, rfl⟩
  | n + 1, e, _, hn => by
      obtain ⟨h, hon⟩ := History.exists_redo? (h := e.history) (by omega)
      obtain ⟨hentries, hindex⟩ := History.redo?_eq_some hon
      have hhistory := history_of_travel? (e := e) (c := .redo) hon
      obtain ⟨hagrees, hentries', hindex'⟩ := performAll_redo n
        (agrees_of_travel? (e := e) (c := .redo) hon)
        (by rw [hhistory, hentries, hindex]; omega)
      rw [hhistory] at hentries' hindex'
      rw [List.replicate_succ, performAll_cons]
      exact ⟨hagrees, hentries'.trans hentries, by omega⟩

theorem settled_of_agrees (h : e.graph = e.history.current) : e.Settled := by
  refine ⟨h, ?_, ?_⟩
  · intro n hn
    obtain ⟨hback, hentries, hindex⟩ := performAll_undo n h hn
    have hlt := e.history.index_lt
    obtain ⟨hon, hentries', hindex'⟩ := performAll_redo n hback (by rw [hentries]; omega)
    have hsame := History.eq_of_entries (hentries'.trans hentries) (hindex'.trans hindex)
    rw [performAll_append, hon, hsame, h]
  · intro c ch r hedit hr
    have hhistory : (e.perform c).1.history = e.history.commit r.graph :=
      congrArg Core.history (core_perform_of_perform? hedit hr)
    show (e.perform c).1.undo.1.graph = e.graph
    rw [(undo_of_commit hhistory).2, h]

/-! ## Sessions of editing -/

/-- **When editor and history agree.**  From any graph and for any commands, the
editor is settled in every state without a drag exactly if no command ends the last
drag in place while the graph has moved. -/
theorem settled_states_iff (s : IdSupply) (g : Graph) (cs : List Command) :
    (∀ e ∈ (start s g).states cs, e.drags.entries = [] → e.Settled) ↔
      ∀ x ∈ (start s g).steps cs, ¬ Abandons x.1 x.2 := by
  refine forall_states_iff (fun e => e.core.Recorded) _ (fun _ _ => True) _ ?_ ?_ ?_ cs
    (fun _ => rfl) (fun _ _ => trivial)
  · intro e h hempty
    exact settled_of_agrees (h hempty)
  · intro e c h _ hkept
    exact h.step hkept (step_perform e c)
  · intro e c _ _ habandons hsettled
    obtain ⟨hempty, hother⟩ := core_perform_of_abandons habandons
    exact hother (hsettled hempty).agrees

/-- A drag that is started anew where it has come to. -/
def restarting : List Command :=
  [.startDrag "start", .drag "start" ⟨10, 0⟩, .startDrag "start", .endDrag "start"]

/-- **The graph may differ from the current entry with no drag in progress**, and
then the undo of another edit takes the move back as well. -/
theorem restarting_not_settled :
    ((start ⟨toString, 0⟩ .seed).performAll restarting).drags.entries = [] ∧
      ((start ⟨toString, 0⟩ .seed).performAll restarting).graph ≠
        ((start ⟨toString, 0⟩ .seed).performAll restarting).history.current ∧
      ((start ⟨toString, 0⟩ .seed).performAll
          (restarting ++ [.change (.addBlock .message ⟨0, 0⟩), .undo])).graph ≠
        ((start ⟨toString, 0⟩ .seed).performAll restarting).graph := by
  refine ⟨by decide +kernel, ?_, ?_⟩
  · intro h
    exact absurd (congrArg (fun g => g.blocks.map (·.position.x)) h) (by decide +kernel)
  · intro h
    exact absurd (congrArg (fun g => g.blocks.map (·.position.x)) h) (by decide +kernel)

end Parley.Editor
