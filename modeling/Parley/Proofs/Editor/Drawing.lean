/-
# Connections drawn from handles that are gone

A connection being drawn, and then the menu it may end in, remember the handle
they started from.  The handle existed when they started.  Nothing forgets it when
its block or its option goes in the meantime, and nothing looks again when the
connection is made:

| gesture                        | made by      | looks at the source again   |
| :----------------------------- | :----------- | :-------------------------- |
| completed at an input handle   | `connect?`   | no                          |
| a kind chosen in the menu      | `extend?`    | the block, not the handle   |

A command is `Stale` that makes a connection in this way from a handle that is
gone.  The result is that nothing else goes wrong: in a session of editing whose
commands are given handles that exist, every connection is attached to blocks at
all times if and only if no command is stale (`attached_states_iff`).

The invariant behind it is `Core.Wired`, which speaks of the graph and of every
entry of the history, for undo and redo may bring back any of them.
-/
import Parley.Proofs.Editor.Step
import Parley.Proofs.Graph.Wired
import Parley.Proofs.History

namespace Parley

/-- Every connection leaves an output handle of a block and leads to a block. -/
def Graph.Attached (g : Graph) : Prop :=
  ∀ c ∈ g.connections, g.HasOutput c.source ∧ g.hasBlock c.target.block

instance (g : Graph) : Decidable g.Attached := inferInstanceAs (Decidable (∀ c ∈ g.connections, _))

namespace Editor

/-- The handles that a command names are handles of the graph.  Menus are opened by
the gestures that lead to them. -/
def Valid (e : Editor) : Command → Prop
  | .change ch => ch.FromHandles e.graph
  | .completeDrawing target => e.graph.HasInput target
  | .openMenu _ => False
  | _ => True

instance (e : Editor) (c : Command) : Decidable (Valid e c) :=
  match c with
  | .change ch => inferInstanceAs (Decidable (ch.FromHandles e.graph))
  | .completeDrawing target => inferInstanceAs (Decidable (e.graph.HasInput target))
  | .openMenu _ => inferInstanceAs (Decidable False)
  | .addChoice .. | .removeChoice .. | .duplicateSelected | .requestRemoval | .confirmRemoval
  | .cancelRemoval | .toggle _ | .deselect | .focusOn _ | .undo | .redo | .startDrag _ | .drag ..
  | .endDrag _ | .startDrawing _ | .cancelDrawing | .release _ | .openInsertMenu _ | .choose _
  | .chooseNamed _ | .closeMenu => inferInstanceAs (Decidable True)

/-- The command makes a connection from a handle that was noted and is gone. -/
inductive Stale (e : Editor) : Command → Prop
  | complete {source target : Endpoint} {r : Created String} : e.drawing = some source →
      ¬ e.graph.HasOutput source → e.graph.connect? e.supply source target = some r →
      Stale e (.completeDrawing target)
  | choose {place : Position} {source : Endpoint} {kind : Block.Kind} {r : Created String} :
      e.menu = some (.create place source) → ¬ e.graph.HasOutput source →
      e.graph.extend? e.supply source kind place = some r → Stale e (.choose kind)
  | chooseNamed {name : String} {kind : Block.Kind} : Block.Kind.ofName? name = .ok kind →
      Stale e (.choose kind) → Stale e (.chooseNamed name)

/-- The graph and all entries of the history are wired, and new ids will be new to
all of them. -/
structure Core.Wired (n : Nat) (k : Core) : Prop where
  differ : k.supply.Differ n
  graph : k.graph.WiredFor k.supply n
  entries : ∀ g ∈ k.history.entries, g.WiredFor k.supply n

/-! ## Sources

Where a command connects something, there are three places that the handle may come from: it
is given with the command, it was noted when the drawing began, or it is in the menu.
Validity speaks of the first, staleness of the other two. -/

section Sources

variable {g : Graph} {s : IdSupply} {n : Nat}

theorem attached_of_wired (h : g.Wired) : g.Attached := by
  intro c hc
  obtain ⟨b, hb, hid, -⟩ := h.targets c hc
  refine ⟨h.sources c hc, ?_⟩
  exact List.any_eq_true.mpr ⟨b, hb, beq_iff_eq.mpr hid⟩

theorem not_attached_of_perform? {ch : Change} {source : Endpoint} {r : Created Made}
    (h : g.WiredFor s n) (hr : g.perform? s ch = some r) (hn : r.supply.used ≤ n)
    (hsource : source ∈ ch.source?) (hgone : ¬ g.HasOutput source) : ¬ r.graph.Attached := by
  intro hattached
  cases ch with
  | connect source' target =>
      cases hsource
      obtain ⟨r', hr', rfl⟩ := Option.map_eq_some_iff.mp hr
      obtain ⟨-, -, rfl⟩ := Graph.connect?_eq_some hr'
      exact hgone (hattached _ (List.mem_append_right _ List.mem_cons_self)).1
  | extend source' kind place =>
      cases hsource
      obtain ⟨r', hr', rfl⟩ := Option.map_eq_some_iff.mp hr
      obtain ⟨-, hblock, rfl⟩ := Graph.extend?_eq_some hr'
      obtain ⟨b, hb, hid, hout⟩ := (hattached _ (List.mem_append_right _ List.mem_cons_self)).1
      rcases List.mem_append.mp hb with hold | hnew
      · exact hgone ⟨b, hold, hid, hout⟩
      · obtain ⟨b', hb', hid'⟩ := List.any_eq_true.mp hblock
        have hdrawn := (IdSupply.drawn_draw (s := s) (IdSupply.isLabel_kind kind)).mono
          (IdSupply.later_draw (s.draw kind.label).2 Graph.connectionLabel)
        apply (h.spared b' hb').ne hdrawn hn
        rw [beq_iff_eq.mp hid', ← show b.id = source.block from hid, List.mem_singleton.mp hnew]
        rfl
  | _ => cases hsource

end Sources

variable {e : Editor} {c : Command} {n : Nat}

theorem fromHandles_of_none {g : Graph} {ch : Change} (hsource : ch.source? = none)
    (htarget : ch.target? = none) : ch.FromHandles g := by
  constructor
  · intro x hx
    rw [hsource] at hx
    cases hx
  · intro x hx
    rw [htarget] at hx
    cases hx

theorem fromHandles_of_menu {m : Menu} {kind : Block.Kind} {r : Created Made}
    (hstale : ¬ Stale e (.choose kind)) (hmenu : e.menu = some m)
    (hr : e.graph.perform? e.supply (menuChange kind m) = some r) :
    (menuChange kind m).FromHandles e.graph := by
  cases m with
  | insert place connection => exact fromHandles_of_none rfl rfl
  | create place source =>
      constructor
      · rintro _ ⟨⟩
        by_contra hgone
        obtain ⟨r', hr', -⟩ := Option.map_eq_some_iff.mp hr
        exact hstale (.choose hmenu hgone hr')
      · intro x hx
        cases hx

/-- A valid command that is not stale connects handles of the graph. -/
theorem fromHandles_of_not_stale {ch : Change} {r : Created Made} (hvalid : Valid e c)
    (hstale : ¬ Stale e c) (hedit : e.edit? c = some ch)
    (hr : e.graph.perform? e.supply ch = some r) : ch.FromHandles e.graph := by
  cases edits_of_edit? hedit with
  | change => exact hvalid
  | addChoice | removeChoice | duplicate | remove => exact fromHandles_of_none rfl rfl
  | connect hdrawing =>
      constructor
      · rintro _ ⟨⟩
        by_contra hgone
        obtain ⟨r', hr', -⟩ := Option.map_eq_some_iff.mp hr
        exact hstale (.complete hdrawing hgone hr')
      · rintro _ ⟨⟩
        exact hvalid
  | choose hmenu => exact fromHandles_of_menu hstale hmenu hr
  | chooseNamed hname hmenu =>
      exact fromHandles_of_menu (fun hchoose => hstale (.chooseNamed hname hchoose)) hmenu hr

theorem exists_source_of_stale (h : Stale e c) :
    ∃ ch r source, e.edit? c = some ch ∧ e.graph.perform? e.supply ch = some r ∧
      source ∈ ch.source? ∧ ¬ e.graph.HasOutput source := by
  induction h with
  | @complete source target r hdrawing hgone hr =>
      refine ⟨.connect source target, { r with made := .id r.made }, source, ?_, ?_, rfl, hgone⟩
      · rw [edit?, hdrawing, Option.map_some]
      · rw [Graph.perform?, hr, Option.map_some]
  | @choose place source kind r hmenu hgone hr =>
      refine ⟨.extend source kind place, { r with made := .id r.made }, source, ?_, ?_, rfl, hgone⟩
      · rw [edit?, hmenu, Option.map_some]
        rfl
      · rw [Graph.perform?, hr, Option.map_some]
  | @chooseNamed name kind hname _ ih =>
      obtain ⟨ch, r, source, hedit, hrest⟩ := ih
      refine ⟨ch, r, source, ?_, hrest⟩
      rw [edit?, hname]
      exact hedit

/-! ## Steps -/

/-- What a step that is not stale does to the graph and the history keeps them wired. -/
theorem Core.Wired.step {k : Core} (h : e.core.Wired n) (hvalid : Valid e c)
    (hstale : ¬ Stale e c) (hn : k.supply.used ≤ n) (hstep : Step e c k) : k.Wired n := by
  cases hstep with
  | edit hedit hr =>
      have hlater := Graph.later_perform? hr
      have hwired := h.graph.perform? h.differ (fromHandles_of_not_stale hvalid hstale hedit hr) hr hn
      exact ⟨h.differ.later hlater, hwired,
        History.forall_entries_commit (fun g hg => (h.entries g hg).later hlater) hwired⟩
  | @travel c h' htravel =>
      have hentries : ∀ g ∈ h'.entries, g.WiredFor e.supply n := by
        rw [entries_of_travel? htravel]
        exact h.entries
      exact ⟨h.differ, hentries _ (List.get_mem _ _), hentries⟩
  | startDrag => exact ⟨h.differ, h.graph, h.entries⟩
  | drag => exact ⟨h.differ, h.graph.displace _ _, h.entries⟩
  | endDrag => exact ⟨h.differ, h.graph, History.forall_entries_commit h.entries h.graph⟩
  | letGo => exact ⟨h.differ, h.graph, h.entries⟩
  | rest => exact h

/-- A stale command leaves a connection that is not attached. -/
theorem not_attached_of_stale (h : e.core.Wired n) (hn : (e.perform c).1.supply.used ≤ n)
    (hstale : Stale e c) : ¬ (e.perform c).1.graph.Attached := by
  obtain ⟨ch, r, source, hedit, hr, hsource, hgone⟩ := exists_source_of_stale hstale
  have hcore := core_perform_of_perform? hedit hr
  have hgraph : (e.perform c).1.graph = r.graph := congrArg Core.graph hcore
  have hsupply : (e.perform c).1.supply = r.supply := congrArg Core.supply hcore
  rw [hgraph]
  rw [hsupply] at hn
  exact not_attached_of_perform? h.graph hr hn hsource hgone

/-! ## Sessions of editing -/

theorem wired_start {s : IdSupply} {n : Nat} (h : s.Differ n) : (start s .seed).core.Wired n := by
  have hseed : Graph.seed.WiredFor s n := by
    refine ⟨⟨by decide, List.forall_mem_nil _, List.forall_mem_nil _⟩, ?_⟩
    intro b hb
    rw [List.mem_singleton.mp hb]
    exact IdSupply.spares_of_isLabel (by decide)
  refine ⟨h, hseed, ?_⟩
  intro g hg
  rw [List.mem_singleton.mp hg]
  exact hseed

/-- **When connections stay attached.**  From the seed, with commands that are given
handles of the graph and ids that differ, every connection of every state is attached
exactly if no command makes one from a handle that was noted and is gone. -/
theorem attached_states_iff (s : IdSupply) (cs : List Command)
    (hvalid : ∀ x ∈ (start s .seed).steps cs, Valid x.1 x.2)
    (hdiffer : s.Differ ((start s .seed).performAll cs).supply.used) :
    (∀ e ∈ (start s .seed).states cs, e.graph.Attached) ↔
      ∀ x ∈ (start s .seed).steps cs, ¬ Stale x.1 x.2 := by
  let n := ((start s .seed).performAll cs).supply.used
  have hallowed : ∀ x ∈ (start s .seed).steps cs,
      Valid x.1 x.2 ∧ (x.1.perform x.2).1.supply.used ≤ n :=
    fun x hx => ⟨hvalid x hx, used_le_of_mem_steps hx⟩
  refine forall_states_iff (fun e => e.core.Wired n) _
    (fun e c => Valid e c ∧ (e.perform c).1.supply.used ≤ n) _ ?_ ?_ ?_ cs (wired_start hdiffer)
    hallowed
  · intro e h
    exact attached_of_wired h.graph.toWired
  · intro e c h hvalid hstale
    exact h.step hvalid.1 hstale hvalid.2 (step_perform e c)
  · intro e c h hvalid hstale
    exact not_attached_of_stale h hvalid.2 hstale

/-- A connection is drawn from the Welcome block, which is removed before the
connection is completed. -/
def orphaning : List Command :=
  [.change (.addBlock .message ⟨400, 150⟩), .startDrawing ⟨"start", "output"⟩,
    .change (.erase ["start"]), .completeDrawing ⟨"message-0", "input"⟩]

theorem attached_states_iff_orphaning :
    ¬ ∀ x ∈ (start ⟨toString, 0⟩ .seed).steps orphaning, ¬ Stale x.1 x.2 := by
  intro hstale
  have hattached := (attached_states_iff ⟨toString, 0⟩ orphaning (by decide +kernel)
    (by decide +kernel)).mpr hstale
  exact absurd hattached (by decide +kernel)

/-- **A valid session may leave a connection without its source.** -/
theorem orphaning_not_attached :
    (∀ x ∈ (start ⟨toString, 0⟩ .seed).steps orphaning, Valid x.1 x.2) ∧
      IdSupply.Differ ⟨toString, 0⟩ ((start ⟨toString, 0⟩ .seed).performAll orphaning).supply.used ∧
      ¬ ((start ⟨toString, 0⟩ .seed).performAll orphaning).graph.Attached := by
  decide +kernel

end Editor

end Parley
