/-
# Selection and focus

What is selected and what is in focus is noted by id, beside the history.  Blocks go in
several ways, and each way has to see to it that nothing is left of them:

| what happens                 | the selection       | the focus       |
| :--------------------------- | :------------------ | :-------------- |
| blocks are removed           | those that are left | if it is left   |
| the selection is removed     | none                | if it is left   |
| undo, redo                   | none                | none            |
| the selection is duplicated  | the copies          | as before       |
| any other edit, a drag       | as before           | as before       |

An editor is `UpToDate` if what is selected exists and can be selected, what is in focus
exists, and observers have heard of the selection.  They are told of it when its size
changes, which is enough: what is left of a selection is smaller or all of it.

While blocks are removed, an editor is not up to date but `Heeded`: what is selected need
not exist.  It is up to date again once what is gone is forgotten (`Heeded.forgetGone`).
-/
import Parley.Proofs.Editor.Commits
import Parley.Proofs.Editor.Sound
import Parley.Proofs.Graph.Found

namespace Parley.Editor

/-- The selection that a notice tells of. -/
def Notice.selection? : Notice → Option (List String)
  | .selectionChanged ids => some ids
  | .committed .. | .restored _ => none

/-- The selection as observers were told of it last. -/
def heard (e : Editor) : List String := (e.notices.filterMap (·.selection?)).getLast?.getD []

/-- The selected blocks exist and can be selected, none is selected twice, the block in
focus exists, and observers have heard what is selected. -/
structure UpToDate (e : Editor) : Prop where
  distinct : e.selection.ids.Nodup
  selected : ∀ id ∈ e.selection.ids, ∃ b, e.graph.block? id = some b ∧ b.isSelectable
  focus : ∀ id ∈ e.focus, e.graph.hasBlock id
  heard : e.heard = e.selection.ids

/-- Up to date but for blocks that are gone. -/
structure Heeded (e : Editor) : Prop where
  distinct : e.selection.ids.Nodup
  selectable : ∀ id ∈ e.selection.ids, ∀ b, e.graph.block? id = some b → b.isSelectable
  heard : e.heard = e.selection.ids

variable {e e' : Editor} {c : Command} {reply : Reply}

/-! ## What is heard

Observers are told of a selection when its size changes, or when it is set; that the last
they heard is the selection itself has to be seen in each case, since a selection may be
another one of the same size. -/

theorem heard_tell_of_none {n : Notice} (h : n.selection? = none) : (e.tell n).heard = e.heard := by
  simp [heard, tell, h]

theorem heard_tellSelection (e : Editor) : e.tellSelection.heard = e.selection.ids := by
  simp [heard, tellSelection, tell, Notice.selection?]

theorem heard_commit (e : Editor) (g : Graph) (action : Action) :
    (e.commit g action).heard = e.heard :=
  heard_tell_of_none rfl

theorem heard_reselect {s : Selection} (h : e.heard = e.selection.ids)
    (hsame : s.size = e.selection.size → s.ids = e.selection.ids) :
    (e.reselect s).heard = s.ids := by
  unfold reselect
  split
  · rename_i hsize
    rw [hsame hsize]
    exact h
  · exact heard_tellSelection _

theorem heard_deselect (h : e.heard = e.selection.ids) : e.deselect.heard = [] := by
  refine heard_reselect h fun hsize => ?_
  exact (List.eq_nil_of_length_eq_zero hsize.symm).symm

theorem heard_existing (h : e.heard = e.selection.ids) (g : Graph) :
    (e.reselect (e.selection.existing g)).heard = (e.selection.existing g).ids := by
  refine heard_reselect h fun hsize => ?_
  exact List.filter_sublist.eq_of_length hsize

/-! ## Other graphs

Where no block goes, what was selected and in focus is there still.  Where blocks go it is
heeded only, until what names them is forgotten.  In either case blocks have to keep their
kinds, since a Welcome block is not to be selected. -/

theorem UpToDate.living (h : e.UpToDate) : Living e := by
  intro id hid
  obtain ⟨b, hb, -⟩ := h.selected id hid
  rw [Graph.hasBlock_eq_isSome, hb]
  rfl

theorem UpToDate.heeded (h : e.UpToDate) (hselection : e'.selection = e.selection)
    (hheard : e'.heard = e.heard)
    (hkind : ∀ {id b b'}, e.graph.block? id = some b → e'.graph.block? id = some b' →
      b'.kind = b.kind) : e'.Heeded := by
  constructor
  · rw [hselection]
    exact h.distinct
  · intro id hid b' hb'
    rw [hselection] at hid
    obtain ⟨b, hb, hselectable⟩ := h.selected id hid
    rw [Block.isSelectable, hkind hb hb']
    exact hselectable
  · rw [hheard, hselection]
    exact h.heard

theorem Heeded.upToDate (h : e.Heeded) (hliving : Living e)
    (hfocus : ∀ id ∈ e.focus, e.graph.hasBlock id) : e.UpToDate := by
  refine ⟨h.distinct, ?_, hfocus, h.heard⟩
  intro id hid
  have hfound := hliving id hid
  rw [Graph.hasBlock_eq_isSome] at hfound
  obtain ⟨b, hb⟩ := Option.isSome_iff_exists.mp hfound
  exact ⟨b, hb, h.selectable id hid b hb⟩

theorem UpToDate.regraph (h : e.UpToDate) (hselection : e'.selection = e.selection)
    (hfocus : e'.focus = e.focus) (hheard : e'.heard = e.heard)
    (hkeeps : ∀ {id}, e.graph.hasBlock id → e'.graph.hasBlock id)
    (hkind : ∀ {id b b'}, e.graph.block? id = some b → e'.graph.block? id = some b' →
      b'.kind = b.kind) : e'.UpToDate := by
  refine (h.heeded hselection hheard hkind).upToDate ?_ ?_
  · intro id hid
    rw [hselection] at hid
    exact hkeeps (h.living id hid)
  · intro id hid
    rw [hfocus] at hid
    exact hkeeps (h.focus id hid)

theorem UpToDate.of_same (h : e.UpToDate) (hgraph : e'.graph = e.graph)
    (hselection : e'.selection = e.selection) (hfocus : e'.focus = e.focus)
    (hheard : e'.heard = e.heard) : e'.UpToDate := by
  refine h.regraph hselection hfocus hheard ?_ ?_
  · intro id hid
    rw [hgraph]
    exact hid
  · intro id b b' hb hb'
    rw [hgraph, hb] at hb'
    rw [Option.some.inj hb']

/-! ## Forgetting -/

theorem Heeded.forgetGone (h : e.Heeded) : e.forgetGone.UpToDate := by
  have hselection : e.forgetGone.selection = e.selection.existing e.graph := selection_reselect e _
  have hgraph : e.forgetGone.graph = e.graph := graph_reselect e _
  have hheeded : e.forgetGone.Heeded := by
    refine ⟨?_, ?_, ?_⟩
    · rw [hselection]
      exact h.distinct.filter _
    · intro id hid b hb
      rw [hselection] at hid
      rw [hgraph] at hb
      exact h.selectable id (List.mem_filter.mp hid).1 b hb
    · rw [hselection]
      exact heard_existing h.heard e.graph
  refine hheeded.upToDate (living_forgetGone e) ?_
  intro id hid
  exact (Option.filter_eq_some_iff.mp hid).2

theorem upToDate_deselect (hheard : e.heard = e.selection.ids)
    (hfocus : ∀ id ∈ e.focus, e.graph.hasBlock id) : e.deselect.UpToDate := by
  have hselection : e.deselect.selection = .none := selection_reselect e _
  have hgraph : e.deselect.graph = e.graph := graph_reselect e _
  have hsame : e.deselect.focus = e.focus := by
    unfold deselect reselect
    split <;> rfl
  refine ⟨?_, ?_, ?_, ?_⟩
  · rw [hselection]
    exact List.nodup_nil
  · intro id hid
    rw [hselection] at hid
    cases hid
  · rw [hsame, hgraph]
    exact hfocus
  · rw [hselection]
    exact heard_deselect hheard

/-! ## Edits -/

theorem UpToDate.carriedOut (h : e.UpToDate) {ch : Change} {r : Created Made}
    (hr : e.graph.perform? e.supply ch = some r) : (e.carriedOut ch r).UpToDate := by
  have hheard := heard_commit { e with supply := r.supply } r.graph (.ofChange ch)
  cases ch with
  | erase ids =>
      refine Heeded.forgetGone ?_
      exact h.heeded rfl hheard (Graph.kind_of_perform? hr)
  | addBlock | revise | move | duplicate | connect | disconnect | extend | insertBetween =>
      exact h.regraph rfl rfl hheard (Graph.hasBlock_perform? hr nofun) (Graph.kind_of_perform? hr)

/-! ## Other selections -/

theorem upToDate_tellSelection (hdistinct : e.selection.ids.Nodup)
    (hselected : ∀ id ∈ e.selection.ids, ∃ b, e.graph.block? id = some b ∧ b.isSelectable)
    (hfocus : ∀ id ∈ e.focus, e.graph.hasBlock id) : e.tellSelection.UpToDate :=
  ⟨hdistinct, hselected, hfocus, heard_tellSelection e⟩

theorem nodup_toggle {s : Selection} (h : s.ids.Nodup) (id : String) :
    (s.toggle id).ids.Nodup := by
  unfold Selection.toggle
  split
  · exact h.erase id
  · rename_i hout
    refine h.append (List.nodup_singleton id) ?_
    simpa [Selection.contains] using hout

/-- The copies are other blocks than those there were, so each is found under its id. -/
theorem UpToDate.copied (h : e.UpToDate) (hids : (e.graph.blocks.map (·.id)).Nodup)
    (hnew : DrawsNew e .duplicateSelected) {r : Created (List String)}
    (hr : e.graph.duplicate? e.supply e.selection.ids = some r) :
    UpToDate { { e with supply := r.supply }.commit r.graph .duplicate with
      selection := ⟨r.made⟩ }.tellSelection := by
  have hdone := Graph.perform?_duplicate hr
  have hcarried := h.carriedOut hdone
  have hdrawn := hnew _ rfl (Option.isSome_of_eq_some hdone)
  have hcopies : r.made.Sublist (e.graph.drawn e.supply (.duplicate e.selection.ids)) := by
    rw [Graph.made_eq_copyIds hr hids, Graph.drawn_duplicate]
    exact List.sublist_append_left _ _
  refine upToDate_tellSelection (hdrawn.differ.sublist hcopies) ?_ hcarried.focus
  intro id hid
  have hfound := (Graph.exists_made_of_duplicate? hr).2 id hid
  rw [Graph.hasBlock_eq_isSome] at hfound
  obtain ⟨b, hb⟩ := Option.isSome_iff_exists.mp hfound
  have hother : id ∉ e.graph.blocks.map (·.id) := by
    intro hold
    exact hdrawn.graph id (hcopies.subset hid) (Graph.id_mem_names hold)
  exact ⟨b, hb, Graph.isSelectable_of_duplicate? hr hother hb⟩

/-! ## One command -/

/-- Every command leaves the editor up to date, where copies get new ids. -/
theorem Performed.upToDate (hperformed : Performed e c e' reply) (h : e.UpToDate)
    (hids : (e.graph.blocks.map (·.id)).Nodup) (hnew : DrawsNew e c) : e'.UpToDate := by
  cases hperformed with
  | rest | ask | withdraw | startDrag | letGo => exact h.of_same rfl rfl rfl rfl
  | @edit c drawing menu ch r hc hedit hr =>
      have hbefore : UpToDate { e with drawing, menu } := h.of_same rfl rfl rfl rfl
      exact hbefore.carriedOut hr
  | copy hr => exact h.copied hids hnew hr
  | @remove g hsome hg =>
      have hremoved : Heeded ({ e with confirming := false }.commit g .eraseSelected) :=
        h.heeded rfl (heard_commit _ _ _)
          (Graph.kind_of_perform? (s := e.supply) (Graph.perform?_erase hg))
      exact upToDate_deselect hremoved.forgetGone.heard hremoved.forgetGone.focus
  | removeNone =>
      have hbefore : UpToDate { e with confirming := false } := h.of_same rfl rfl rfl rfl
      have hheeded := hbefore.heeded rfl rfl fun hb hb' => by rw [Option.some.inj (hb'.symm.trans hb)]
      exact upToDate_deselect hheeded.forgetGone.heard hheeded.forgetGone.focus
  | @toggle id b hb hselectable =>
      refine upToDate_tellSelection (nodup_toggle h.distinct id) ?_ h.focus
      intro id' hid'
      by_cases hid : id' = id
      · rw [hid]
        exact ⟨b, hb, hselectable⟩
      · exact h.selected id' (((Selection.mem_toggle h.distinct id id').mp hid').mpr hid)
  | deselect => exact upToDate_deselect h.heard h.focus
  | focus =>
      refine ⟨h.distinct, h.selected, ?_, h.heard⟩
      intro id hid
      exact (Option.filter_eq_some_iff.mp hid).2
  | drag =>
      refine h.regraph rfl rfl rfl ?_ Graph.kind_of_displace
      intro id hid
      rw [Graph.hasBlock_iff_mem, Graph.map_displace fun _ _ => rfl, ← Graph.hasBlock_iff_mem]
      exact hid
  | endDrag => exact h.of_same rfl rfl rfl (heard_commit _ _ _)
  | travel =>
      refine UpToDate.of_same (upToDate_deselect ?_ ?_) rfl rfl rfl (heard_tell_of_none rfl)
      · exact h.heard
      · intro id hid
        cases hid

/-! ## Sessions of editing -/

/-- The ids of the blocks differ, in the graph and in all entries of the history, which undo
and redo may bring back. -/
theorem distinct_step {c : Command} {k : Core}
    (h : e.core.Throughout fun g => (g.blocks.map (·.id)).Nodup) (hnew : DrawsNew e c)
    (hstep : Step e c k) : k.Throughout fun g => (g.blocks.map (·.id)).Nodup := by
  refine h.step ?_ ?_ hstep
  · intro ch hch r hr
    exact Graph.nodup_ids_perform? hr (hnew ch hch (Option.isSome_of_eq_some hr)) h.graph
  · intro ids delta
    rw [Graph.map_displace fun _ _ => rfl]
    exact h.graph

/-- **Selection and focus name blocks that exist.**  From a graph whose blocks have different
ids, the editor is up to date in every state of a session, as long as ids that are drawn are
new. -/
theorem upToDate_states (s : IdSupply) {g : Graph} (hg : (g.blocks.map (·.id)).Nodup)
    (cs : List Command) (hnew : ∀ x ∈ (start s g).steps cs, DrawsNew x.1 x.2) :
    ∀ e ∈ (start s g).states cs, e.UpToDate := by
  have hstart : (start s g).UpToDate := ⟨List.nodup_nil, nofun, nofun, rfl⟩
  refine (forall_states_iff
    (fun e => e.UpToDate ∧ e.core.Throughout fun g => (g.blocks.map (·.id)).Nodup) _ DrawsNew
    (fun _ _ => False) ?_ ?_ ?_ cs ⟨hstart, throughout_start s hg⟩ hnew).mpr fun _ _ => id
  · intro e h
    exact h.1
  · intro e c h hnew _
    exact ⟨(performed_perform e c).upToDate h.1 h.2.graph hnew,
      distinct_step h.2 hnew (step_perform e c)⟩
  · intro e c _ _ hbad
    exact hbad.elim

/-- Blocks go while they are selected and in focus: the copy in focus is removed, then what
is left of the selection, and both removals and the duplicate are undone. -/
def losing : List Command :=
  [.change (.addBlock .message ⟨400, 150⟩), .change (.addBlock .buttons ⟨600, 150⟩),
    .toggle "message-0", .toggle "start", .toggle "buttons-1", .duplicateSelected,
    .focusOn (some "message-2"), .change (.erase ["message-2"]), .toggle "message-0",
    .startDrag "message-0", .drag "message-0" ⟨10, 0⟩, .confirmRemoval, .undo, .undo, .undo,
    .toggle "message-0", .redo]

theorem upToDate_states_losing :
    (Graph.seed.blocks.map (·.id)).Nodup ∧
      (∀ x ∈ (start ⟨toString, 0⟩ .seed).steps losing, DrawsNew x.1 x.2) ∧
      ∀ e ∈ (start ⟨toString, 0⟩ .seed).states losing, e.UpToDate := by
  have hids : (Graph.seed.blocks.map (·.id)).Nodup := by decide
  have hnew : ∀ x ∈ (start ⟨toString, 0⟩ .seed).steps losing, DrawsNew x.1 x.2 := by
    decide +kernel
  exact ⟨hids, hnew, upToDate_states ⟨toString, 0⟩ hids losing hnew⟩

example : ((start ⟨toString, 0⟩ .seed).states losing).map (·.selection.ids.length) =
    [0, 0, 0, 1, 1, 2, 2, 2, 1, 2, 2, 2, 0, 0, 0, 0, 1, 0] := by decide +kernel

end Parley.Editor
