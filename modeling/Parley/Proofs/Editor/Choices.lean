/-
# Options that are added and removed

An editor puts one option more or less to a Buttons block by a revision that gives all the other
options back.  In a sound graph they come back as they were, so (`EditsChoices`):

    addChoice       succeeds where there are fewer than five options; the new one is the last
    removeChoice    succeeds where there are two or more and one of them has the id; it goes

and the connections that leave the block at its other options stay.  That graphs are sound is
what a session from the seed makes sure of.  What a revision leaves alone holds of every editor,
and `choices_states` says both.
-/
import Parley.Proofs.Editor.Commits
import Parley.Proofs.Editor.Sound
import Parley.Proofs.Graph.Revised

namespace Parley.Editor

open Block (Content)

/-- What adding an option to a Buttons block `b` does. -/
structure Adds (e : Editor) (b : Block) (message : String) (binds : Option String)
    (cs : List Choice) (label : String) : Prop where
  succeeds : (e.addChoice b.id label).2.isSome ↔ cs.length < 5
  /-- The options stay as they are, and behind them there is one of this label. -/
  revised : cs.length < 5 → e.graph.Revised b
    (.buttons message binds (cs ++ [⟨(e.supply.draw Draft.idLabel).1, label⟩]))
    (e.addChoice b.id label).1.graph
  new : cs.length < 5 → DrawsNew e (.addChoice b.id label) →
    (e.supply.draw Draft.idLabel).1 ∉ cs.map (·.id)
  /-- No connection goes that leaves the block at one of its options. -/
  keeps : ∀ c ∈ e.graph.connections, (c.source.block = b.id → c.source.handle ∈ cs.map (·.id)) →
    c ∈ (e.addChoice b.id label).1.graph.connections

/-- What removing an option from a Buttons block `b` does. -/
structure Removes (e : Editor) (b : Block) (message : String) (binds : Option String)
    (cs : List Choice) (choice : String) : Prop where
  succeeds : (e.removeChoice b.id choice).2.isSome ↔ 1 < cs.length ∧ choice ∈ cs.map (·.id)
  /-- The option goes, and the others stay as they are. -/
  revised : 1 < cs.length → choice ∈ cs.map (·.id) → ∃ before gone after,
    cs = before ++ gone :: after ∧ gone.id = choice ∧ e.graph.Revised b
      (.buttons message binds (before ++ after)) (e.removeChoice b.id choice).1.graph

/-- Adding and removing options does this for every Buttons block. -/
structure EditsChoices (e : Editor) : Prop where
  adds : ∀ b ∈ e.graph.blocks, ∀ message binds cs, b.content = .buttons message binds cs →
    ∀ label, Adds e b message binds cs label
  removes : ∀ b ∈ e.graph.blocks, ∀ message binds cs, b.content = .buttons message binds cs →
    ∀ choice, Removes e b message binds cs choice

variable {e : Editor} {id : String} {b : Block} {message : String} {binds : Option String}
  {cs : List Choice}

/-! ## Revisions -/

theorem change_revise_of_some {patch : Block.Patch} {r : Graph × IdSupply}
    (h : e.graph.revise? e.supply id patch = some r) :
    (e.change (.revise id patch)).2.isSome ∧ (e.change (.revise id patch)).1.graph = r.1 := by
  have hr : e.graph.perform? e.supply (.revise id patch) = some ⟨r.1, r.2, .nothing⟩ :=
    congrArg (Option.map _) h
  rw [change_eq_of_perform? hr]
  exact ⟨rfl, rfl⟩

theorem change_revise_of_none {patch : Block.Patch}
    (h : e.graph.revise? e.supply id patch = none) : e.change (.revise id patch) = (e, none) :=
  change_eq_of_refused (congrArg (Option.map _) h)

theorem revised_change {patch : Block.Patch} (h : (e.change (.revise id patch)).2.isSome) :
    ∃ b content, e.graph.block? id = some b ∧
      e.graph.Revised b content (e.change (.revise id patch)).1.graph := by
  cases hr : e.graph.revise? e.supply id patch with
  | none =>
      rw [change_revise_of_none hr] at h
      cases h
  | some r =>
      rw [(change_revise_of_some hr).2]
      exact Graph.revised_of_revise? hr

/-! ## Other options

What is given back to a block is its own options and one more or less, so the list is a
normal one, and normalizing it gives it an id for the new option at most.  It is taken
because it is another list than the one before. -/

theorem choices?_of_buttons (hb : e.graph.block? id = some b)
    (hcontent : b.content = .buttons message binds cs) : e.choices? id = some cs := by
  obtain ⟨bid, place, content⟩ := b
  cases hcontent
  rw [choices?, hb]

/-- Options that are others are taken. -/
theorem revised_rechoose {ds : List Draft} {cs' : List Choice} {s' : IdSupply}
    (hb : e.graph.block? id = some b) (hcontent : b.content = .buttons message binds cs)
    (hnormal : Draft.normalize? e.supply ds = some (cs', s')) (hother : cs' ≠ cs) :
    (e.rechoose id ds).2.isSome ∧
      e.graph.Revised b (.buttons message binds cs') (e.rechoose id ds).1.graph := by
  have hrevise := Graph.revise?_choices hb hcontent hnormal
  rw [if_neg hother] at hrevise
  obtain ⟨hmade, hgraph⟩ := change_revise_of_some hrevise
  have hkind : (Content.buttons message binds cs').kind = b.kind := by
    rw [Block.kind, hcontent]
    rfl
  refine ⟨hmade, ?_⟩
  rw [rechoose, hgraph]
  exact Graph.revised_withContent hb hkind

theorem rechoose_same {ds : List Draft} {s' : IdSupply} (hb : e.graph.block? id = some b)
    (hcontent : b.content = .buttons message binds cs)
    (hnormal : Draft.normalize? e.supply ds = some (cs, s')) : e.rechoose id ds = (e, none) := by
  have hrevise := Graph.revise?_choices hb hcontent hnormal
  rw [if_pos rfl] at hrevise
  exact change_revise_of_none hrevise

/-! ## One option more

The options that there are come back as drafts with their ids, and the new one as a draft
without.  Where there are five already the graph is not even asked; so the list that it is
given has five drafts at most. -/

/-- The drafts for one option more. -/
def draftsWith (cs : List Choice) (label : String) : List Draft :=
  cs.map Choice.toDraft ++ [⟨none, label⟩]

theorem addChoice_of_room (label : String) (hchoices : e.choices? id = some cs)
    (hroom : cs.length < 5) : e.addChoice id label = e.rechoose id (draftsWith cs label) := by
  rw [addChoice, hchoices]
  exact if_pos hroom

theorem addChoice_of_full (label : String) (hchoices : e.choices? id = some cs)
    (hfull : ¬ cs.length < 5) : e.addChoice id label = (e, none) := by
  rw [addChoice, hchoices]
  exact if_neg hfull

theorem edit?_addChoice (label : String) (hchoices : e.choices? id = some cs)
    (hroom : cs.length < 5) :
    e.edit? (.addChoice id label) =
      some (.revise id { choices := some (draftsWith cs label) }) := by
  rw [edit?, hchoices]
  exact if_pos hroom

theorem id_not_mem_of_addChoice (hsound : e.graph.Sound) (hchoices : e.choices? b.id = some cs)
    (hroom : cs.length < 5) {new : String} (hrevised : e.graph.Revised b
      (.buttons message binds (cs ++ [⟨new, label⟩])) (e.addChoice b.id label).1.graph)
    (hmade : (e.addChoice b.id label).2.isSome) (hnew : DrawsNew e (.addChoice b.id label)) :
    new ∉ cs.map (·.id) := by
  have hedit := edit?_addChoice label hchoices hroom
  have hsound' : (e.addChoice b.id label).1.graph.Sound := by
    cases hr : e.graph.perform? e.supply
        (.revise b.id { choices := some (draftsWith cs label) }) with
    | none =>
        rw [addChoice_of_room label hchoices hroom, rechoose, change_eq_of_refused hr] at hmade
        cases hmade
    | some r =>
        have hcore : (e.addChoice b.id label).1.core = _ := core_perform_of_perform? hedit hr
        rw [show (e.addChoice b.id label).1.graph = r.graph from congrArg Core.graph hcore]
        exact hsound.perform? (hnew _ hedit (Option.isSome_of_eq_some hr)) hr
  have hproper : ProperChoices (cs ++ [⟨new, label⟩]) := hsound'.options _ hrevised.mem
  have hdiffer := hproper.differ
  rw [List.map_append, List.nodup_append] at hdiffer
  intro hmem
  exact hdiffer.2.2 _ hmem _ List.mem_cons_self rfl

theorem adds_of_proper (hsound : e.graph.Sound) (hb : e.graph.block? b.id = some b)
    (hcontent : b.content = .buttons message binds cs) (hproper : ProperChoices cs)
    (label : String) : Adds e b message binds cs label := by
  have hchoices := choices?_of_buttons hb hcontent
  by_cases hroom : cs.length < 5
  · obtain ⟨hmade, hrevised⟩ := revised_rechoose hb hcontent
      (Draft.normalize?_toDraft_concat hproper hroom label) (by simp)
    rw [← draftsWith, ← addChoice_of_room label hchoices hroom] at hmade hrevised
    refine ⟨iff_of_true hmade hroom, fun _ => hrevised, fun _ hnew => ?_, ?_⟩
    · exact id_not_mem_of_addChoice hsound hchoices hroom hrevised hmade hnew
    · intro c hc hleaves
      rw [hrevised.options _ _ _ rfl]
      refine List.mem_filter.mpr ⟨hc, decide_eq_true fun hsource => ?_⟩
      rw [List.map_append]
      exact List.mem_append_left _ (hleaves hsource)
  · have hrefused := addChoice_of_full label hchoices hroom
    refine ⟨?_, fun h => absurd h hroom, fun h => absurd h hroom, ?_⟩
    · rw [hrefused]
      exact iff_of_false Bool.false_ne_true hroom
    · intro c hc _
      rw [hrefused]
      exact hc

/-! ## One option less -/

theorem removeChoice_of_more (choice : String) (hchoices : e.choices? id = some cs)
    (hmore : 1 < cs.length) : e.removeChoice id choice =
      e.rechoose id ((cs.filter (·.id != choice)).map Choice.toDraft) := by
  rw [removeChoice, hchoices]
  exact if_pos hmore

theorem removeChoice_of_last (choice : String) (hchoices : e.choices? id = some cs)
    (hlast : ¬ 1 < cs.length) : e.removeChoice id choice = (e, none) := by
  rw [removeChoice, hchoices]
  exact if_neg hlast

theorem removes_of_proper (hb : e.graph.block? b.id = some b)
    (hcontent : b.content = .buttons message binds cs) (hproper : ProperChoices cs)
    (choice : String) : Removes e b message binds cs choice := by
  have hchoices := choices?_of_buttons hb hcontent
  by_cases hmore : 1 < cs.length
  · have hnormal := Draft.normalize?_toDraft (s := e.supply) (hproper.filter choice hmore)
    have hremove := removeChoice_of_more choice hchoices hmore
    by_cases hid : choice ∈ cs.map (·.id)
    · obtain ⟨before, gone, after, hsplit, hgone, hrest⟩ := exists_filter_id_ne hproper.differ hid
      have hother : cs.filter (·.id != choice) ≠ cs := by
        rw [hrest, hsplit]
        intro hsame
        simpa using congrArg List.length hsame
      obtain ⟨hmade, hrevised⟩ := revised_rechoose hb hcontent hnormal hother
      rw [← hremove] at hmade hrevised
      rw [hrest] at hrevised
      exact ⟨iff_of_true hmade ⟨hmore, hid⟩,
        fun _ _ => ⟨before, gone, after, hsplit, hgone, hrevised⟩⟩
    · have hall := filter_id_ne_eq_self hid
      rw [hall] at hnormal hremove
      rw [rechoose_same hb hcontent hnormal] at hremove
      refine ⟨?_, fun _ h => absurd h hid⟩
      rw [hremove]
      exact iff_of_false Bool.false_ne_true fun h => hid h.2
  · refine ⟨?_, fun h => absurd h hmore⟩
    rw [removeChoice_of_last choice hchoices hmore]
    exact iff_of_false Bool.false_ne_true fun h => hmore h.1

/-! ## Sessions of editing -/

theorem editsChoices_of_sound (h : e.graph.Sound) : EditsChoices e where
  adds := by
    intro b hb message binds cs hcontent label
    have hproper := h.options b hb
    rw [hcontent] at hproper
    exact adds_of_proper h (find?_key_of_mem h.ids hb) hcontent hproper label
  removes := by
    intro b hb message binds cs hcontent choice
    have hproper := h.options b hb
    rw [hcontent] at hproper
    exact removes_of_proper (find?_key_of_mem h.ids hb) hcontent hproper choice

/-- **Options are edited one by one.**  In every state of a session from the seed that draws new
ids, adding and removing an option does what it should to a Buttons block and its connections.
In any editor, an edit of what a block says that is accepted leaves all else alone. -/
theorem choices_states (s : IdSupply) (cmds : List Command)
    (hnew : ∀ x ∈ (start s .seed).steps cmds, DrawsNew x.1 x.2) :
    (∀ e ∈ (start s .seed).states cmds, EditsChoices e) ∧
      ∀ (e : Editor) (id : String) (patch : Block.Patch),
        (e.change (.revise id patch)).2.isSome →
        ∃ b content, e.graph.block? id = some b ∧
          e.graph.Revised b content (e.change (.revise id patch)).1.graph := by
  refine ⟨?_, fun e id patch => revised_change⟩
  intro e he
  have hseed : Graph.seed.Sound := by decide
  exact editsChoices_of_sound (core_sound_of_mem_states hseed hnew e he).graph

/-- A Buttons block is given a third option, wired and copied, and loses an option. -/
def reworking : List Command :=
  [.change (.addBlock .buttons ⟨400, 150⟩), .change (.addBlock .message ⟨600, 150⟩),
    .change (.connect ⟨"buttons-0", "btn-2"⟩ ⟨"message-1", "input"⟩),
    .addChoice "buttons-0" "More", .change (.duplicate ["buttons-0", "message-1"]),
    .removeChoice "buttons-0" "btn-2", .removeChoice "buttons-0" "unknown", .undo,
    .addChoice "buttons-4" "Most"]

theorem choices_states_reworking :
    (∀ x ∈ (start ⟨toString, 0⟩ .seed).steps reworking, DrawsNew x.1 x.2) ∧
      (∀ e ∈ (start ⟨toString, 0⟩ .seed).states reworking, EditsChoices e) ∧
      ∀ (e : Editor) (id : String) (patch : Block.Patch),
        (e.change (.revise id patch)).2.isSome →
        ∃ b content, e.graph.block? id = some b ∧
          e.graph.Revised b content (e.change (.revise id patch)).1.graph := by
  have hnew : ∀ x ∈ (start ⟨toString, 0⟩ .seed).steps reworking, DrawsNew x.1 x.2 := by
    decide +kernel
  exact ⟨hnew, choices_states ⟨toString, 0⟩ reworking hnew⟩

end Parley.Editor
