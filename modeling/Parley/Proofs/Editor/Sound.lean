/-
# Sound sessions

Every command keeps the graph and all entries of the history sound, whatever it is
told, if the edit that it may be draws new ids.  The entries have to be in the
invariant because undo and redo bring any of them back; a drag moves blocks in a
graph that no entry has yet.  This much goes for any property of graphs that edits and
drags keep (`Core.Throughout.step`).
-/
import Parley.Proofs.Editor.Step
import Parley.Proofs.Graph.Sound
import Parley.Proofs.History

namespace Parley.Editor

/-- The edit that a command is draws new ids, unless it is refused. -/
def DrawsNew (e : Editor) (c : Command) : Prop :=
  ∀ ch ∈ e.edit? c, (e.graph.perform? e.supply ch).isSome → ch.DrawsNew e.graph e.supply

instance (e : Editor) (c : Command) : Decidable (DrawsNew e c) :=
  inferInstanceAs (Decidable (∀ ch ∈ e.edit? c, _))

/-- The graph and all entries of the history have a property. -/
structure Core.Throughout (P : Graph → Prop) (k : Core) : Prop where
  graph : P k.graph
  entries : ∀ g ∈ k.history.entries, P g

/-- The graph and all entries of the history are sound. -/
structure Core.Sound (k : Core) : Prop where
  graph : k.graph.Sound
  entries : ∀ g ∈ k.history.entries, g.Sound

variable {e : Editor} {c : Command}

/-- A property that the edit and drags keep is kept by the step. -/
theorem Core.Throughout.step {P : Graph → Prop} {k : Core} (h : e.core.Throughout P)
    (hedit : ∀ ch ∈ e.edit? c, ∀ r, e.graph.perform? e.supply ch = some r → P r.graph)
    (hdrag : ∀ ids delta, P (e.graph.displace ids delta)) (hstep : Step e c k) :
    k.Throughout P := by
  cases hstep with
  | edit hch hr =>
      have hgraph := hedit _ hch _ hr
      exact ⟨hgraph, History.forall_entries_commit h.entries hgraph⟩
  | @travel c h' htravel =>
      have hentries : ∀ g ∈ h'.entries, P g := by
        rw [entries_of_travel? htravel]
        exact h.entries
      exact ⟨hentries _ (List.get_mem _ _), hentries⟩
  | startDrag => exact ⟨h.graph, h.entries⟩
  | drag => exact ⟨hdrag _ _, h.entries⟩
  | endDrag => exact ⟨h.graph, History.forall_entries_commit h.entries h.graph⟩
  | letGo => exact ⟨h.graph, h.entries⟩
  | rest => exact h

theorem throughout_start {P : Graph → Prop} (s : IdSupply) {g : Graph} (h : P g) :
    (start s g).core.Throughout P := by
  refine ⟨h, ?_⟩
  intro g' hg'
  rw [List.mem_singleton.mp hg']
  exact h

theorem Core.Sound.step {k : Core} (h : e.core.Sound) (hnew : DrawsNew e c) (hstep : Step e c k) :
    k.Sound := by
  have hsound : k.Throughout Graph.Sound := by
    refine Core.Throughout.step ⟨h.graph, h.entries⟩ ?_ (fun ids delta => h.graph.displace ids delta)
      hstep
    intro ch hch r hr
    exact h.graph.perform? (hnew ch hch (Option.isSome_of_eq_some hr)) hr
  exact ⟨hsound.graph, hsound.entries⟩

theorem sound_start (s : IdSupply) {g : Graph} (h : g.Sound) : (start s g).core.Sound := by
  refine ⟨h, ?_⟩
  intro g' hg'
  rw [List.mem_singleton.mp hg']
  exact h

theorem core_sound_of_mem_states {s : IdSupply} {g : Graph} (hg : g.Sound) {cs : List Command}
    (hnew : ∀ x ∈ (start s g).steps cs, DrawsNew x.1 x.2) :
    ∀ e ∈ (start s g).states cs, e.core.Sound := by
  refine (forall_states_iff (fun e => e.core.Sound) _ DrawsNew (fun _ _ => False) id ?_ ?_ cs
    (sound_start s hg) hnew).mpr fun _ _ => id
  · intro e c h hnew _
    exact h.step hnew (step_perform e c)
  · intro e c _ _ hbad
    exact hbad.elim

/-- **Sessions of editing stay sound.**  From a sound graph, the graph and every entry
of the history are sound in every state, as long as ids that are drawn are new. -/
theorem sound_states (s : IdSupply) {g : Graph} (hg : g.Sound) (cs : List Command)
    (hnew : ∀ x ∈ (start s g).steps cs, DrawsNew x.1 x.2) :
    ∀ e ∈ (start s g).states cs, e.graph.Sound ∧ ∀ g' ∈ e.history.entries, g'.Sound := by
  refine (forall_states_iff (fun e => e.core.Sound) _ DrawsNew (fun _ _ => False) ?_ ?_ ?_ cs
    (sound_start s hg) hnew).mpr fun _ _ => id
  · intro e h
    exact ⟨h.graph, h.entries⟩
  · intro e c h hnew _
    exact h.step hnew (step_perform e c)
  · intro e c _ _ hbad
    exact hbad.elim

/-- Ends that do not exist are connected and split, the options of a copied block are
replaced by a list with ids that are empty or repeated, and a removal is undone. -/
def careless : List Command :=
  [.change (.addBlock .buttons ⟨400, 150⟩), .change (.connect ⟨"a", "x"⟩ ⟨"b", "y"⟩),
    .change (.insertBetween "conn-1" .message ⟨0, 0⟩), .addChoice "buttons-0" "More",
    .change (.connect ⟨"start", "output"⟩ ⟨"buttons-0", "input"⟩), .toggle "buttons-0",
    .toggle "message-2", .duplicateSelected,
    .change (.revise "buttons-7"
      { choices := some [⟨some "btn-1", "A"⟩, ⟨some "btn-1", "B"⟩, ⟨some "", "C"⟩] }),
    .confirmRemoval, .undo, .undo, .redo, .startDrag "start", .drag "start" ⟨10, 0⟩,
    .openMenu (.create ⟨0, 0⟩ ⟨"start", "nowhere"⟩), .choose .goodbye, .endDrag "start"]

theorem sound_states_careless :
    (∀ x ∈ (start ⟨toString, 0⟩ .seed).steps careless, DrawsNew x.1 x.2) ∧
      ∀ e ∈ (start ⟨toString, 0⟩ .seed).states careless,
        e.graph.Sound ∧ ∀ g ∈ e.history.entries, g.Sound := by
  have hnew : ∀ x ∈ (start ⟨toString, 0⟩ .seed).steps careless, DrawsNew x.1 x.2 := by
    decide +kernel
  exact ⟨hnew, sound_states ⟨toString, 0⟩ (by decide) careless hnew⟩

end Parley.Editor
