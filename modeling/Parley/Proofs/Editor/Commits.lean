/-
# Commits and what is told of them

A command that can commit either succeeds or does nothing: `Committed` and `Unchanged`
say what the editor is like afterwards, and the reply says which it was.  Undo and
redo are the only other commands that touch the history (`Restored`).

    commits, with success     one entry more, in place of those ahead; told once
    commits, without          graph, history, selection and focus as before; nothing is told
    undo, redo, with success  one entry back or on; told once
    all others                the history as before; it is not mentioned

Observers may also hear of the selection.  What counts here are the notices of the
history, in order (`Told`).

There is one command where all this depends on the state: the removal of the
selection forgets the selection whether or not anything was removed.  It always
removes something, because only existing blocks are ever selected (`Living`).
-/
import Parley.Proofs.Editor.Step

namespace Parley.Editor

/-- A notice that says something of the history. -/
def Notice.isOfHistory : Notice → Bool
  | .committed .. | .restored _ => true
  | .selectionChanged _ => false

/-- From one editor to the next, observers were told this of the history. -/
def Told (e e' : Editor) (ns : List Notice) : Prop :=
  ∃ sent, e'.notices = e.notices ++ sent ∧ sent.filter (·.isOfHistory) = ns

/-- One more entry was made, after the current one. -/
structure Committed (e e' : Editor) : Prop where
  index : e'.history.index = e.history.index + 1
  entries : e'.history.entries = e.history.entries.take (e.history.index + 1) ++ [e'.graph]
  told : ∃ action, Told e e' [.committed e'.history.index action]

/-- Nothing changed that counts; a gesture may have begun or ended. -/
structure Unchanged (e e' : Editor) : Prop where
  graph : e'.graph = e.graph
  history : e'.history = e.history
  selection : e'.selection = e.selection
  focus : e'.focus = e.focus
  notices : e'.notices = e.notices

/-- Another entry became the graph. -/
structure Restored (e e' : Editor) : Prop where
  entries : e'.history.entries = e.history.entries
  graph : e'.graph = e'.history.current
  told : Told e e' [.restored e'.history.index]

/-- The history is as before, and nothing is told of it. -/
structure Silent (e e' : Editor) : Prop where
  history : e'.history = e.history
  told : Told e e' []

/-- What a command comes to, by the reply. -/
structure Outcome (e : Editor) (c : Command) (reply : Reply) (e' : Editor) : Prop where
  committed : c.commits → reply.success → Committed e e'
  refused : c.commits → reply.success = false → Unchanged e e'
  undone : c = .undo → reply.success → Restored e e' ∧ e'.history.index + 1 = e.history.index
  redone : c = .redo → reply.success → Restored e e' ∧ e'.history.index = e.history.index + 1
  other : c.commits = false → (c.travels → reply.success = false) → Silent e e'

variable {e e' e'' : Editor} {c : Command} {reply : Reply}

/-! ## Selected blocks exist

The removal of the selection forgets the selection in any case, so it does nothing by half
only if there always is something to remove.  What is selected is not in the core of an
editor, so this is looked up in the list of what commands do. -/

/-- The selected blocks exist. -/
def Living (e : Editor) : Prop := ∀ id ∈ e.selection.ids, e.graph.hasBlock id

@[simp]
theorem selection_reselect (e : Editor) (s : Selection) : (e.reselect s).selection = s := by
  unfold reselect
  split <;> rfl

theorem graph_reselect (e : Editor) (s : Selection) : (e.reselect s).graph = e.graph :=
  congrArg Core.graph (core_reselect e s)

theorem living_deselect (e : Editor) : Living e.deselect := by
  intro id hid
  rw [deselect, selection_reselect] at hid
  cases hid

theorem living_forgetGone (e : Editor) : Living e.forgetGone := by
  intro id hid
  have hselection : e.forgetGone.selection = e.selection.existing e.graph :=
    selection_reselect e _
  rw [hselection] at hid
  show (e.reselect _).graph.hasBlock id
  rw [graph_reselect]
  exact (List.mem_filter.mp hid).2

theorem living_carriedOut (h : Living e) {ch : Change} {r : Created Made}
    (hr : e.graph.perform? e.supply ch = some r) : Living (e.carriedOut ch r) := by
  cases ch with
  | erase ids => exact living_forgetGone _
  | addBlock | revise | move | duplicate | connect | disconnect | extend | insertBetween =>
      intro id hid
      exact Graph.hasBlock_perform? hr nofun (h id hid)

theorem Performed.living (hperformed : Performed e c e' reply) (h : Living e) : Living e' := by
  cases hperformed with
  | rest | ask | withdraw | focus | startDrag | endDrag | letGo => exact h
  | @edit _ drawing menu ch r hc hedit hr =>
      exact living_carriedOut (e := { e with drawing, menu }) h hr
  | copy hr => exact (Graph.exists_made_of_duplicate? hr).2
  | remove | removeNone | deselect | travel => exact living_deselect _
  | @toggle id b hb hselectable =>
      intro id' hid'
      show e.graph.hasBlock id'
      change id' ∈ (e.selection.toggle id).ids at hid'
      unfold Selection.toggle at hid'
      split at hid'
      · exact h id' (List.mem_of_mem_erase hid')
      · rcases List.mem_append.mp hid' with hold | hnew
        · exact h id' hold
        · rw [List.mem_singleton.mp hnew, Graph.hasBlock_eq_isSome, hb]
          rfl
  | @drag id delta hdragging =>
      intro id' hid'
      show (e.graph.displace _ _).hasBlock id'
      rw [Graph.hasBlock_iff_mem, Graph.map_displace fun _ _ => rfl, ← Graph.hasBlock_iff_mem]
      exact h id' hid'

theorem living_perform (h : Living e) (c : Command) : Living (e.perform c).1 :=
  (performed_perform e c).living h

theorem living_performAll : ∀ (cs : List Command) {e : Editor}, Living e →
    Living (e.performAll cs)
  | [], _, h => h
  | c :: cs, _, h => living_performAll cs (living_perform h c)

/-! ## What is told

What is told of the selection is no notice of the history, so it is silent here.  Where a
command commits and forgets blocks afterwards, or forgets first, what it tells of the history
is the commit alone. -/

theorem silent_of_same (hhistory : e'.history = e.history) (hnotices : e'.notices = e.notices) :
    Silent e e' :=
  ⟨hhistory, [], by rw [hnotices, List.append_nil], rfl⟩

theorem silent_tellSelection (hhistory : e'.history = e.history)
    (hnotices : e'.notices = e.notices) : Silent e e'.tellSelection :=
  ⟨hhistory, [.selectionChanged e'.selection.ids], congrArg (· ++ _) hnotices, rfl⟩

theorem told_one {n : Notice} (h : n.isOfHistory) : Told e (e.tell n) [n] :=
  ⟨[n], rfl, List.filter_cons_of_pos h⟩

theorem Told.trans {ns ms : List Notice} (h : Told e e' ns) (h' : Told e' e'' ms) :
    Told e e'' (ns ++ ms) := by
  obtain ⟨sent, hsent, rfl⟩ := h
  obtain ⟨sent', hsent', rfl⟩ := h'
  exact ⟨sent ++ sent', by rw [hsent', hsent, List.append_assoc], List.filter_append ..⟩

theorem silent_reselect (e : Editor) (s : Selection) : Silent e (e.reselect s) := by
  unfold reselect
  split
  · exact silent_of_same rfl rfl
  · exact silent_tellSelection rfl rfl

theorem silent_deselect (e : Editor) : Silent e e.deselect := silent_reselect e .none

theorem silent_forgetGone (e : Editor) : Silent e e.forgetGone := by
  obtain ⟨hhistory, htold⟩ := silent_reselect e (e.selection.existing e.graph)
  exact ⟨hhistory, htold⟩

theorem Committed.silent (h : Committed e e') (hgraph : e''.graph = e'.graph)
    (hsilent : Silent e' e'') : Committed e e'' := by
  obtain ⟨action, htold⟩ := h.told
  constructor
  · rw [hsilent.history]
    exact h.index
  · rw [hsilent.history, hgraph]
    exact h.entries
  · refine ⟨action, ?_⟩
    rw [hsilent.history]
    exact htold.trans hsilent.told

theorem committed_commit (g : Graph) (action : Action) (hhistory : e'.history = e.history)
    (hnotices : e'.notices = e.notices) : Committed e (e'.commit g action) := by
  unfold commit
  rw [hhistory]
  constructor
  · rfl
  · rfl
  · refine ⟨action, [.committed (e.history.commit g).index action], ?_, rfl⟩
    rw [← hnotices]
    rfl

theorem committed_carriedOut (ch : Change) (r : Created Made) (hhistory : e'.history = e.history)
    (hnotices : e'.notices = e.notices) : Committed e (e'.carriedOut ch r) := by
  have hcommit : Committed e ({ e' with supply := r.supply }.commit r.graph (.ofChange ch)) :=
    committed_commit _ _ hhistory hnotices
  cases ch with
  | erase ids => exact hcommit.silent (graph_reselect _ _) (silent_forgetGone _)
  | addBlock | revise | move | duplicate | connect | disconnect | extend | insertBetween =>
      exact hcommit

theorem restored_travel {h : History} (hentries : h.entries = e.history.entries) :
    Restored e (e.restore (some h)).1 := by
  have hcore := core_restore e h
  have hgraph : (e.restore (some h)).1.graph = h.current := congrArg Core.graph hcore
  have hhistory : (e.restore (some h)).1.history = h := congrArg Core.history hcore
  refine ⟨?_, ?_, ?_⟩
  · rw [hhistory, hentries]
  · rw [hgraph, hhistory]
  · have hdropped := silent_deselect
      { e with graph := h.current, history := h, focus := none, drags := .empty }
    rw [hhistory]
    exact hdropped.told.trans (told_one rfl)

/-! ## What a command comes to

Commands that can commit either do so or leave everything as it was, and those that cannot are
silent.  So there are three ways for a command to come to its outcome, and the fourth is a step
through the history. -/

/-- An edit that is carried out never makes an empty list. -/
theorem success_of_perform? {g : Graph} {s : IdSupply} {ch : Change} {r : Created Made}
    (h : g.perform? s ch = some r) : (Reply.made (some r.made)).success := by
  cases ch with
  | duplicate ids =>
      obtain ⟨r', hr', rfl⟩ := Option.map_eq_some_iff.mp h
      have hmade := (Graph.exists_made_of_duplicate? hr').1
      simpa [Reply.success] using hmade
  | addBlock | connect | extend | insertBetween | revise | erase | move | disconnect =>
      obtain ⟨r', -, rfl⟩ := Option.map_eq_some_iff.mp h
      rfl

theorem outcome_of_committed (hc : c.commits) (hdone : reply.success) (h : Committed e e') :
    Outcome e c reply e' := by
  refine ⟨fun _ _ => h, ?_, ?_, ?_, ?_⟩
  · intro _ hno
    cases hdone.symm.trans hno
  · rintro rfl
    cases hc
  · rintro rfl
    cases hc
  · intro hno
    cases hc.symm.trans hno

theorem outcome_of_unchanged (hfailed : c.commits ∨ c.travels → reply.success = false)
    (h : Unchanged e e') : Outcome e c reply e' := by
  refine ⟨?_, fun _ _ => h, ?_, ?_, fun _ _ => silent_of_same h.history h.notices⟩
  · intro hc hdone
    cases hdone.symm.trans (hfailed (.inl hc))
  · rintro rfl hdone
    cases hdone.symm.trans (hfailed (.inr rfl))
  · rintro rfl hdone
    cases hdone.symm.trans (hfailed (.inr rfl))

theorem outcome_of_silent (hcommits : c.commits = false) (htravels : c.travels = false)
    (h : Silent e e') : Outcome e c reply e' := by
  refine ⟨?_, ?_, ?_, ?_, fun _ _ => h⟩
  · intro hc
    cases hcommits.symm.trans hc
  · intro hc
    cases hcommits.symm.trans hc
  · rintro rfl
    cases htravels
  · rintro rfl
    cases htravels

theorem outcome_of_travel {h : History} (hc : e.travel? c = some h) :
    Outcome e c (.flag true) (e.restore (some h)).1 := by
  have hhistory : (e.restore (some h)).1.history = h := congrArg Core.history (core_restore e h)
  have hrestored := restored_travel (entries_of_travel? hc)
  cases c with
  | undo =>
      have hindex := (History.undo?_eq_some hc).2
      refine ⟨nofun, nofun, fun _ _ => ⟨hrestored, ?_⟩, nofun, fun _ hno => nomatch hno rfl⟩
      rw [hhistory]
      exact hindex
  | redo =>
      have hindex := (History.redo?_eq_some hc).2
      refine ⟨nofun, nofun, nofun, fun _ _ => ⟨hrestored, ?_⟩, fun _ hno => nomatch hno rfl⟩
      rw [hhistory]
      exact hindex
  | _ => cases hc

theorem commits_of_edits (hc : c.edits) : c.commits := by
  cases c with
  | change | addChoice | removeChoice | completeDrawing | choose | chooseNamed => rfl
  | _ => cases hc

/-- The selected blocks exist, so that there is something to remove where any are selected. -/
theorem Performed.outcome (hperformed : Performed e c e' reply) (h : Living e) :
    Outcome e c reply e' := by
  cases hperformed with
  | rest hrests => exact outcome_of_unchanged hrests.failed ⟨rfl, rfl, rfl, rfl, rfl⟩
  | ask => exact outcome_of_unchanged nofun ⟨rfl, rfl, rfl, rfl, rfl⟩
  | withdraw hc hnone hfailed =>
      exact outcome_of_unchanged (fun _ => hfailed) ⟨rfl, rfl, rfl, rfl, rfl⟩
  | letGo => exact outcome_of_unchanged (fun _ => rfl) ⟨rfl, rfl, rfl, rfl, rfl⟩
  | @edit _ _ _ ch r hc hedit hr =>
      exact outcome_of_committed (commits_of_edits hc) (success_of_perform? hr)
        (committed_carriedOut ch r rfl rfl)
  | copy hr =>
      refine outcome_of_committed rfl (success_of_perform? (Graph.perform?_duplicate hr)) ?_
      exact (committed_commit _ _ rfl rfl).silent rfl (silent_tellSelection rfl rfl)
  | remove hsome hg =>
      refine outcome_of_committed rfl rfl ?_
      refine Committed.silent ?_ (graph_reselect _ _) (silent_deselect _)
      refine Committed.silent ?_ (graph_reselect _ _) (silent_forgetGone _)
      exact committed_commit _ _ rfl rfl
  | removeNone hsome hg =>
      obtain ⟨id, hid⟩ := List.exists_mem_of_ne_nil _ hsome
      obtain ⟨g, hg'⟩ := Graph.exists_erase? hid (h id hid)
      cases hg.symm.trans hg'
  | endDrag => exact outcome_of_committed rfl rfl (committed_commit _ _ rfl rfl)
  | toggle => exact outcome_of_silent rfl rfl (silent_tellSelection rfl rfl)
  | deselect => exact outcome_of_silent rfl rfl (silent_deselect e)
  | focus | startDrag | drag => exact outcome_of_silent rfl rfl (silent_of_same rfl rfl)
  | travel htravel => exact outcome_of_travel htravel

/-- **Every command does all or nothing, and is announced exactly.**  This holds in
every state of every session of editing. -/
theorem outcome_performAll (s : IdSupply) (g : Graph) (cs : List Command) (c : Command) :
    let e := (start s g).performAll cs
    Outcome e c (e.perform c).2 (e.perform c).1 := by
  have hstart : Living (start s g) := nofun
  exact (performed_perform _ c).outcome (living_performAll cs hstart)

end Parley.Editor
