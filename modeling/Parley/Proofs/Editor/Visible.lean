/-
# Steps of the history that show

A step back or on should lead to another graph than the one it leads from.  Whether it
does was decided when the entries were committed, and an entry is committed because
something was done, not because the graph is another one.

| commit            | differs from the entry before because                              |
| :---------------- | :----------------------------------------------------------------- |
| an edit, no move  | a block or a connection more or less, or another content           |
| the end of a drag | the two graphs are compared                                        |
| a move            | only if the blocks come to lie elsewhere than in the current entry |

The first line holds whatever is being dragged: drags displace blocks, so the graph
and the current entry are alike at all times.  The last line has no check.  A move is
refused if it leads nowhere, but a move that leads somewhere may be so short that it is
lost in rounding, and a move made while a block is dragged may take it back to where
the current entry has it.  Such a move `Idles`, and these are all: every step through
the history shows, in all states of a session of editing, if and only if no command
idles (`visible_states_iff`).
-/
import Parley.Proofs.Editor.Step
import Parley.Proofs.Graph.Alike
import Parley.Proofs.History

namespace Parley.Editor

/-- Every entry of the history differs from its neighbours, and so a step back or on
leads to another graph than the current entry. -/
structure Visible (e : Editor) : Prop where
  entries : e.history.entries.IsChain fun g g' => g != g'
  undone : e.undo.2 → e.undo.1.graph != e.history.current
  redone : e.redo.2 → e.redo.1.graph != e.history.current

/-- The command is a move that is carried out, and the graph it commits is the current
entry again. -/
inductive Idles (e : Editor) : Command → Prop
  | move {ids : List String} {delta : Position} {g : Graph} : e.graph.move? ids delta = some g →
      g == e.history.current → Idles e (.change (.move ids delta))

/-- Neighbouring entries differ, and the graph differs from the current entry in the
places of blocks only. -/
structure Core.Visible (k : Core) : Prop where
  alike : k.graph.Alike k.history.current
  entries : k.history.entries.IsChain fun g g' => g != g'

variable {e : Editor} {c : Command}

/-! ## Commits

An edit that is no move changes the blocks or the connections in more than places, and drags
change nothing but places.  So what it commits differs from the current entry whatever is
being dragged. -/

theorem eq_of_edit?_move {ids : List String} {delta : Position}
    (h : e.edit? c = some (.move ids delta)) : c = .change (.move ids delta) := by
  generalize hch : Change.move ids delta = ch at h ⊢
  cases edits_of_edit? h with
  | change => rfl
  | @choose kind m | @chooseNamed name kind m => cases m <;> cases hch
  | addChoice | removeChoice | duplicate | remove | connect => cases hch

/-- What an edit commits differs from the current entry, unless the command idles. -/
theorem bne_of_edit {ch : Change} {r : Created Made} (h : e.graph.Alike e.history.current)
    (hkept : ¬ Idles e c) (hedit : e.edit? c = some ch)
    (hr : e.graph.perform? e.supply ch = some r) : e.history.current != r.graph := by
  by_contra hsame
  have hbeq : r.graph == e.history.current := by
    rw [Graph.bne_comm] at hsame
    simpa [bne] using hsame
  by_cases hmove : ∃ ids delta, ch = .move ids delta
  · obtain ⟨ids, delta, rfl⟩ := hmove
    obtain ⟨g, hg, rfl⟩ := Option.map_eq_some_iff.mp hr
    rw [eq_of_edit?_move hedit] at hkept
    exact hkept (.move hg hbeq)
  · -- the current entry is like the graph before the edit, and only a move leads there
    refine Graph.not_alike_of_perform? hr ?_ ((Graph.alike_of_beq hbeq).trans h.symm)
    rintro ids delta rfl
    exact hmove ⟨ids, delta, rfl⟩

theorem bne_of_dragMoved {id : String} {origin : Position} (h : e.dragMoved id origin) :
    e.history.current != e.graph := by
  unfold dragMoved at h
  split at h
  · rw [Bool.and_eq_true] at h
    rw [Graph.bne_comm]
    exact h.2
  · cases h

theorem Core.Visible.commit {k : Core} {g : Graph} (h : k.Visible)
    (hother : k.history.current != g) (s : IdSupply) (drags : Table Position) :
    Core.Visible ⟨g, s, k.history.commit g, drags⟩ := by
  refine ⟨?_, ?_⟩
  · show g.Alike (k.history.commit g).current
    rw [History.current_commit]
    exact .refl g
  · exact History.isChain_commit_iff.mpr ⟨h.entries.take _, hother⟩

/-! ## One step

The graph and the current entry differ in places at most, and that is enough: an edit shows
because it does not only move, and a drag is committed only if the graph is another.  A move
is what remains. -/

theorem Core.Visible.step {k : Core} (h : e.core.Visible) (hkept : ¬ Idles e c)
    (hstep : Step e c k) : k.Visible := by
  cases hstep with
  | edit hedit hr => exact h.commit (bne_of_edit h.alike hkept hedit hr) _ _
  | @travel c h' htravel =>
      refine ⟨.refl _, ?_⟩
      show h'.entries.IsChain _
      rw [entries_of_travel? htravel]
      exact h.entries
  | startDrag => exact ⟨h.alike, h.entries⟩
  | @drag id delta hdragging =>
      exact ⟨(Graph.alike_displace e.graph (e.dragGroup id) delta).trans h.alike, h.entries⟩
  | endDrag horigin hmoved => exact h.commit (bne_of_dragMoved hmoved) _ _
  | letGo => exact ⟨h.alike, h.entries⟩
  | rest => exact h

/-- A command that idles makes an entry that is the current one again. -/
theorem not_visible_of_idles (h : Idles e c) : ¬ (e.perform c).1.Visible := by
  intro hvisible
  cases h with
  | @move ids delta g hmove hsame =>
      have hr : e.graph.perform? e.supply (.move ids delta) = some ⟨g, e.supply, .nothing⟩ := by
        rw [Graph.perform?, hmove]
        rfl
      have hhistory : (e.perform (.change (.move ids delta))).1.history = e.history.commit g :=
        congrArg Core.history (core_perform_of_perform? rfl hr)
      have hentries := hvisible.entries
      rw [hhistory] at hentries
      have hother := (History.isChain_commit_iff.mp hentries).2
      rw [Graph.bne_comm, bne, hsame] at hother
      cases hother

theorem visible_of_entries (h : e.history.entries.IsChain fun g g' => g != g') : e.Visible := by
  refine ⟨h, ?_, ?_⟩
  · intro hdone
    unfold undo at hdone ⊢
    cases hback : e.history.undo? with
    | none =>
        rw [hback] at hdone
        cases hdone
    | some h' =>
        rw [show (e.restore (some h')).1.graph = h'.current from
          congrArg Core.graph (core_restore e h')]
        exact History.rel_of_undo? h hback
  · intro hdone
    unfold redo at hdone ⊢
    cases hon : e.history.redo? with
    | none =>
        rw [hon] at hdone
        cases hdone
    | some h' =>
        rw [show (e.restore (some h')).1.graph = h'.current from
          congrArg Core.graph (core_restore e h'), Graph.bne_comm]
        exact History.rel_of_redo? h hon

/-! ## Sessions of editing -/

/-- **When every step through the history shows.**  From any graph and for any commands, in
every state neighbouring entries differ, and undo and redo lead to a graph that is not the
current entry, exactly if no command is a move after which the graph is the current entry
again. -/
theorem visible_states_iff (s : IdSupply) (g : Graph) (cs : List Command) :
    (∀ e ∈ (start s g).states cs, e.Visible) ↔ ∀ x ∈ (start s g).steps cs, ¬ Idles x.1 x.2 := by
  have hstart : (start s g).core.Visible := ⟨.refl g, List.isChain_singleton g⟩
  refine forall_states_iff (fun e => e.core.Visible) _ (fun _ _ => True) _ ?_ ?_ ?_ cs hstart
    (fun _ _ => trivial)
  · intro e h
    exact visible_of_entries h.entries
  · intro e c h _ hkept
    exact h.step hkept (step_perform e c)
  · intro e c _ _ hidles
    exact not_visible_of_idles hidles

/-- A move that is shorter than the doubles at its start lie apart. -/
def lost : List Command := [.change (.move ["start"] ⟨1e-20, 0⟩)]

/-- **A step back may lead to the same graph.**  The move is carried out and can be undone,
but the block lies where it lay. -/
theorem lost_not_visible :
    let e := (start ⟨toString, 0⟩ .seed).performAll lost
    e.history.entries.length = 2 ∧ e.undo.2 ∧ e.undo.1.graph == e.history.current ∧
      ¬ e.history.entries.IsChain fun g g' => g != g' := by
  decide +kernel

end Parley.Editor
