/-
# What the commands do

There are many commands, and few things that they do to an editor.  `Performed` lists these, each
with the editor that comes of it and the answer that is given, and `performed_perform` says that
there is nothing else:

    rest         nothing, but that a connection being drawn and a menu may come or go
    edit         an edit is carried out
    copy         the selection is duplicated, and the copies are selected
    ask          the removal of the selection is asked for
    withdraw     a request for it is settled, and nothing is removed
    remove       the selection is removed, and nothing is selected any more
    removeNone   nothing of what is selected exists; nothing is selected any more
    toggle, deselect, focus
    startDrag    the place of a block is noted
    drag         the blocks that go with a block are displaced
    endDrag      the graph is committed, and the drag is dropped
    letGo        the drag is dropped
    travel       an entry of the history becomes the graph

Which edit a command is depends on the editor: the options of a block, the selection, the
connection being drawn and the open menu go into it (`edit?`).

What is said elsewhere of all commands is said of these lines, and each time one part of the
editor is looked at: the graph and what it comes from (`Step`), what observers are told
(`Outcome`), the selection and the focus (`UpToDate`), the selection and the request (`Turns`).
-/
import Parley.Editor.Command
import Parley.Proofs.Graph.Drawn

namespace Parley

namespace Graph

variable {g g' : Graph} {s : IdSupply} {ids : List String}

theorem perform?_duplicate {r : Created (List String)} (h : g.duplicate? s ids = some r) :
    g.perform? s (.duplicate ids) = some { r with made := .ids r.made } :=
  congrArg (Option.map _) h

theorem perform?_duplicate_of_refused (h : g.duplicate? s ids = none) :
    g.perform? s (.duplicate ids) = none :=
  congrArg (Option.map _) h

theorem perform?_erase (h : g.erase? ids = some g') :
    g.perform? s (.erase ids) = some ⟨g', s, .nothing⟩ :=
  congrArg (plain s) h

theorem perform?_erase_of_refused (h : g.erase? ids = none) : g.perform? s (.erase ids) = none :=
  congrArg (plain s) h

end Graph

namespace Editor

/-- The commands that commit where they succeed. -/
def Command.commits : Command → Bool
  | .change _ | .addChoice .. | .removeChoice .. | .duplicateSelected | .confirmRemoval
  | .completeDrawing _ | .choose _ | .chooseNamed _ | .endDrag _ => true
  | .requestRemoval | .cancelRemoval | .toggle _ | .deselect | .focusOn _ | .undo | .redo
  | .startDrag _ | .drag .. | .startDrawing _ | .cancelDrawing | .openMenu _ | .release _
  | .openInsertMenu _ | .closeMenu => false

/-- The commands that carry out an edit and do nothing else. -/
def Command.edits : Command → Bool
  | .change _ | .addChoice .. | .removeChoice .. | .completeDrawing _ | .choose _
  | .chooseNamed _ => true
  | _ => false

/-- The commands that travel through the history. -/
def Command.travels : Command → Bool
  | .undo | .redo => true
  | _ => false

/-- A request for a removal does not outlast these. -/
def Command.settlesRequest : Command → Bool
  | .confirmRemoval | .cancelRemoval => true
  | .change _ | .addChoice .. | .removeChoice .. | .duplicateSelected | .requestRemoval
  | .toggle _ | .deselect | .focusOn _ | .undo | .redo | .startDrag _ | .drag .. | .endDrag _
  | .startDrawing _ | .completeDrawing _ | .cancelDrawing | .openMenu _ | .release _
  | .openInsertMenu _ | .choose _ | .chooseNamed _ | .closeMenu => false

/-- Whether a reply reports success.  An empty list of ids does not. -/
def Reply.success : Reply → Bool
  | .silent => false
  | .flag b => b
  | .made none => false
  | .made (some (.ids ids)) => !ids.isEmpty
  | .made (some _) => true

/-- The edit that a command is. -/
def edit? (e : Editor) : Command → Option Change
  | .change ch => some ch
  | .addChoice id label => (e.choices? id).bind fun choices =>
      if choices.length < Draft.most then
        some (.revise id { choices := some (choices.map Choice.toDraft ++ [⟨none, label⟩]) })
      else none
  | .removeChoice id choice => (e.choices? id).bind fun choices =>
      if Draft.fewest < choices.length then
        some (.revise id
          { choices := some ((choices.filter (·.id != choice)).map Choice.toDraft) })
      else none
  | .duplicateSelected => some (.duplicate e.selection.ids)
  | .confirmRemoval => if e.selection.isEmpty then none else some (.erase e.selection.ids)
  | .completeDrawing target => e.drawing.map fun source => .connect source target
  | .choose kind => e.menu.map (menuChange kind)
  | .chooseNamed name => (Block.Kind.ofName? name).toOption.bind fun kind =>
      e.menu.map (menuChange kind)
  | _ => none

/-- The state of the history that a command goes to. -/
def travel? (e : Editor) : Command → Option History
  | .undo => e.history.undo?
  | .redo => e.history.redo?
  | _ => none

/-- The editor after an edit that was not refused. -/
def carriedOut (e : Editor) (ch : Change) (r : Created Made) : Editor :=
  let e' := { e with supply := r.supply }.commit r.graph (.ofChange ch)
  match ch with
  | .erase _ => e'.forgetGone
  | _ => e'

/-- The commands that are edits, and which. -/
inductive Edits (e : Editor) : Command → Change → Prop
  | change {ch : Change} : Edits e (.change ch) ch
  | addChoice {id label : String} {drafts : List Draft} :
      Edits e (.addChoice id label) (.revise id { choices := some drafts })
  | removeChoice {id choice : String} {drafts : List Draft} :
      Edits e (.removeChoice id choice) (.revise id { choices := some drafts })
  | duplicate : Edits e .duplicateSelected (.duplicate e.selection.ids)
  | remove : e.selection.ids ≠ [] → Edits e .confirmRemoval (.erase e.selection.ids)
  | connect {source target : Endpoint} : e.drawing = some source →
      Edits e (.completeDrawing target) (.connect source target)
  | choose {kind : Block.Kind} {m : Menu} : e.menu = some m →
      Edits e (.choose kind) (menuChange kind m)
  | chooseNamed {name : String} {kind : Block.Kind} {m : Menu} :
      Block.Kind.ofName? name = .ok kind → e.menu = some m →
      Edits e (.chooseNamed name) (menuChange kind m)

/-- The command is answered, and nothing comes of it that counts. -/
structure Rests (e : Editor) (c : Command) (reply : Reply) : Prop where
  refused : ∀ ch, e.edit? c = some ch → e.graph.perform? e.supply ch = none
  stays : e.travel? c = none
  keepsRequest : c.settlesRequest = false
  unasked : c = .requestRemoval → e.selection.ids = []
  failed : c.commits ∨ c.travels → reply.success = false

/-- What a command makes of an editor, and what it answers. -/
inductive Performed (e : Editor) : Command → Editor → Reply → Prop
  | rest {c : Command} {drawing : Option Endpoint} {menu : Option Menu} {reply : Reply} :
      Rests e c reply → Performed e c { e with drawing, menu } reply
  | edit {c : Command} {drawing : Option Endpoint} {menu : Option Menu} {ch : Change}
      {r : Created Made} : c.edits → e.edit? c = some ch →
      e.graph.perform? e.supply ch = some r →
      Performed e c ({ e with drawing, menu }.carriedOut ch r) (.made (some r.made))
  | copy {r : Created (List String)} : e.graph.duplicate? e.supply e.selection.ids = some r →
      Performed e .duplicateSelected
        { { e with supply := r.supply }.commit r.graph .duplicate with
          selection := ⟨r.made⟩ }.tellSelection
        (.made (some (.ids r.made)))
  | ask : e.selection.ids ≠ [] →
      Performed e .requestRemoval { e with confirming := true } (.flag true)
  | withdraw {c : Command} {reply : Reply} : c.settlesRequest →
      (c = .confirmRemoval → e.selection.ids = []) → reply.success = false →
      Performed e c { e with confirming := false } reply
  | remove {g : Graph} : e.selection.ids ≠ [] → e.graph.erase? e.selection.ids = some g →
      Performed e .confirmRemoval
        ({ e with confirming := false }.commit g .eraseSelected).forgetGone.deselect (.flag true)
  | removeNone : e.selection.ids ≠ [] → e.graph.erase? e.selection.ids = none →
      Performed e .confirmRemoval { e with confirming := false }.forgetGone.deselect (.flag false)
  | toggle {id : String} {b : Block} : e.graph.block? id = some b → b.isSelectable →
      Performed e (.toggle id) { e with selection := e.selection.toggle id }.tellSelection .silent
  | deselect : Performed e .deselect e.deselect .silent
  | focus {id : Option String} : Performed e (.focusOn id) (e.focusOn id) .silent
  | startDrag {id : String} {b : Block} : e.graph.block? id = some b →
      Performed e (.startDrag id) { e with drags := e.drags.insert id b.position } .silent
  | drag {id : String} {delta : Position} : e.isDragging id →
      Performed e (.drag id delta) { e with graph := e.graph.displace (e.dragGroup id) delta }
        .silent
  | endDrag {id : String} {origin : Position} : e.drags.get? id = some origin →
      e.dragMoved id origin → Performed e (.endDrag id)
        ({ e with drags := e.drags.erase id }.commit e.graph .drag) (.flag true)
  | letGo {id : String} {origin : Position} : e.drags.get? id = some origin →
      e.dragMoved id origin = false →
      Performed e (.endDrag id) { e with drags := e.drags.erase id } (.flag false)
  | travel {c : Command} {h : History} : e.travel? c = some h →
      Performed e c
        ({ e with
            graph := h.current, history := h, focus := none,
            drags := .empty }.deselect.tell (.restored h.index))
        (.flag true)

variable {e : Editor} {c : Command}

/-! ## Edits

Completing a connection and choosing from a menu may come to an edit, and so may the commands
for single options; each looks first at what it refers to, and there is no edit if that is
gone.  Whether the edit is carried out is then up to the graph, and the answer says so. -/

theorem edits_of_edit? {ch : Change} (h : e.edit? c = some ch) : Edits e c ch := by
  cases c with
  | change ch' =>
      cases h
      exact .change
  | addChoice id label =>
      obtain ⟨choices, -, hroom⟩ := Option.bind_eq_some_iff.mp h
      split at hroom <;> cases hroom
      exact .addChoice
  | removeChoice id choice =>
      obtain ⟨choices, -, hroom⟩ := Option.bind_eq_some_iff.mp h
      split at hroom <;> cases hroom
      exact .removeChoice
  | duplicateSelected =>
      cases h
      exact .duplicate
  | confirmRemoval =>
      rw [edit?] at h
      split at h <;> cases h
      rename_i hsome
      exact .remove fun hnone => hsome (List.isEmpty_iff.mpr hnone)
  | completeDrawing target =>
      obtain ⟨source, hdrawing, rfl⟩ := Option.map_eq_some_iff.mp h
      exact .connect hdrawing
  | choose kind =>
      obtain ⟨m, hmenu, rfl⟩ := Option.map_eq_some_iff.mp h
      exact .choose hmenu
  | chooseNamed name =>
      rw [edit?, Option.bind_eq_some_iff] at h
      obtain ⟨kind, hkind, hchosen⟩ := h
      obtain ⟨m, hmenu, rfl⟩ := Option.map_eq_some_iff.mp hchosen
      cases hname : Block.Kind.ofName? name with
      | error =>
          rw [hname] at hkind
          cases hkind
      | ok kind' =>
          rw [hname] at hkind
          cases hkind
          exact .chooseNamed hname hmenu
  | _ => cases h

theorem change_eq_of_perform? {ch : Change} {r : Created Made}
    (hr : e.graph.perform? e.supply ch = some r) :
    e.change ch = (e.carriedOut ch r, some r.made) := by
  unfold change changeAs
  rw [hr]
  cases ch <;> rfl

theorem change_eq_of_refused {ch : Change} (hr : e.graph.perform? e.supply ch = none) :
    e.change ch = (e, none) := by
  unfold change changeAs
  rw [hr]
  cases ch <;> rfl

theorem refused_of_none (h : e.edit? c = none) :
    ∀ ch, e.edit? c = some ch → e.graph.perform? e.supply ch = none := by
  intro ch hch
  cases h.symm.trans hch

/-- A command that is refused rests, if it was to be an edit. -/
theorem rests_of_edits (hc : c.edits)
    (hrefused : ∀ ch, e.edit? c = some ch → e.graph.perform? e.supply ch = none) :
    Rests e c (.made none) := by
  cases c with
  | change | addChoice | removeChoice | completeDrawing | choose | chooseNamed =>
      exact ⟨hrefused, rfl, rfl, nofun, fun _ => rfl⟩
  | _ => cases hc

/-- The edit is carried out after the gesture that led to it was given up. -/
theorem performed_of_edits (hc : c.edits) (drawing : Option Endpoint) (menu : Option Menu)
    {x : Editor × Option Made}
    (hx : x = (e.edit? c).elim (e, none) { e with drawing, menu }.change) :
    Performed e c x.1 (.made x.2) := by
  subst hx
  cases hedit : e.edit? c with
  | none => exact .rest (rests_of_edits hc (refused_of_none hedit))
  | some ch =>
      rw [Option.elim_some]
      cases hr : e.graph.perform? e.supply ch with
      | none =>
          rw [change_eq_of_refused (e := { e with drawing, menu }) hr]
          refine .rest (rests_of_edits hc fun ch' hch' => ?_)
          rwa [← Option.some.inj (hedit.symm.trans hch')]
      | some r =>
          rw [change_eq_of_perform? (e := { e with drawing, menu }) hr]
          exact .edit hc hedit hr

theorem addChoice_eq (e : Editor) (id label : String) :
    e.addChoice id label = (e.edit? (.addChoice id label)).elim (e, none) e.change := by
  rw [addChoice, edit?]
  cases e.choices? id with
  | none => rfl
  | some choices =>
      simp only [Option.bind_some]
      split <;> rfl

theorem removeChoice_eq (e : Editor) (id choice : String) :
    e.removeChoice id choice = (e.edit? (.removeChoice id choice)).elim (e, none) e.change := by
  rw [removeChoice, edit?]
  cases e.choices? id with
  | none => rfl
  | some choices =>
      simp only [Option.bind_some]
      split <;> rfl

theorem completeDrawing_eq (e : Editor) (target : Endpoint) :
    e.completeDrawing target = (e.edit? (.completeDrawing target)).elim (e, none)
      { e with drawing := none }.change := by
  rw [completeDrawing, edit?]
  cases e.drawing <;> rfl

theorem choose_eq (e : Editor) (kind : Block.Kind) :
    e.choose kind = (e.edit? (.choose kind)).elim (e, none) e.closeMenu.change := by
  rw [choose, edit?]
  cases e.menu <;> rfl

theorem fst_made (x : Editor × Option Made) : (perform.made x).1 = x.1 := rfl

theorem snd_made (x : Editor × Option Made) : (perform.made x).2 = .made x.2 := rfl

theorem performed_chooseNamed (e : Editor) (name : String) :
    Performed e (.chooseNamed name) (e.chooseNamed name).1 (.made (e.chooseNamed name).2) := by
  rw [chooseNamed]
  cases hname : Block.Kind.ofName? name with
  | ok kind =>
      refine performed_of_edits rfl e.drawing none ?_
      rw [edit?, hname]
      exact choose_eq e kind
  | error =>
      refine .rest (rests_of_edits rfl fun ch hedit => ?_)
      rw [edit?, hname] at hedit
      cases hedit

/-! ## The selection -/

theorem performed_duplicateSelected (e : Editor) :
    Performed e .duplicateSelected e.duplicateSelected.1
      (.made (some (.ids e.duplicateSelected.2))) := by
  cases hr : e.graph.duplicate? e.supply e.selection.ids with
  | none =>
      have hrefused := Graph.perform?_duplicate_of_refused hr
      rw [duplicateSelected, change_eq_of_refused hrefused]
      refine .rest ⟨?_, rfl, rfl, nofun, fun _ => rfl⟩
      rintro _ ⟨⟩
      exact hrefused
  | some r =>
      have hmade := (Graph.exists_made_of_duplicate? hr).1
      rw [duplicateSelected, change_eq_of_perform? (Graph.perform?_duplicate hr)]
      simp only [List.isEmpty_iff, if_neg hmade]
      exact .copy hr

theorem toggle_eq {id : String} {b : Block} (hb : e.graph.block? id = some b)
    (hselectable : b.isSelectable) :
    e.toggle id = { e with selection := e.selection.toggle id }.tellSelection := by
  rw [toggle, hb]
  exact if_pos hselectable

theorem performed_toggle (e : Editor) (id : String) :
    Performed e (.toggle id) (e.toggle id) .silent := by
  have hrests : Rests e (.toggle id) .silent := ⟨refused_of_none rfl, rfl, rfl, nofun, nofun⟩
  cases hb : e.graph.block? id with
  | none =>
      rw [toggle, hb]
      exact .rest hrests
  | some b =>
      by_cases hselectable : b.isSelectable
      · rw [toggle_eq hb hselectable]
        exact .toggle hb hselectable
      · rw [toggle, hb]
        simp only [if_neg hselectable]
        exact .rest hrests

theorem performed_confirmRemoval (e : Editor) :
    Performed e .confirmRemoval e.confirmRemoval.1 (.flag e.confirmRemoval.2) := by
  unfold confirmRemoval changeAs
  dsimp only
  split
  · rename_i hnone
    exact .withdraw rfl (fun _ => List.isEmpty_iff.mp hnone) rfl
  · rename_i hselected
    have hsome : e.selection.ids ≠ [] := fun hnone => hselected (List.isEmpty_iff.mpr hnone)
    rw [Graph.perform?]
    cases hg : e.graph.erase? e.selection.ids with
    | none => exact .removeNone hsome hg
    | some g => exact .remove hsome hg

/-! ## Drags and travels -/

theorem endDrag_eq {id : String} {origin : Position} (h : e.drags.get? id = some origin) :
    e.endDrag id =
      if e.dragMoved id origin then
        ({ e with drags := e.drags.erase id }.commit e.graph .drag, true)
      else ({ e with drags := e.drags.erase id }, false) := by
  rw [endDrag, h]
  rfl

theorem performed_endDrag (e : Editor) (id : String) :
    Performed e (.endDrag id) (e.endDrag id).1 (.flag (e.endDrag id).2) := by
  cases horigin : e.drags.get? id with
  | none =>
      rw [endDrag, horigin]
      exact .rest ⟨refused_of_none rfl, rfl, rfl, nofun, fun _ => rfl⟩
  | some origin =>
      rw [endDrag_eq horigin]
      split
      · rename_i hmoved
        exact .endDrag horigin hmoved
      · rename_i hplace
        exact .letGo horigin (Bool.eq_false_iff.mpr hplace)

theorem performed_restore (hc : c.travels) :
    Performed e c (e.restore (e.travel? c)).1 (.flag (e.restore (e.travel? c)).2) := by
  cases htravel : e.travel? c with
  | none =>
      cases c with
      | undo | redo => exact .rest ⟨refused_of_none rfl, htravel, rfl, nofun, fun _ => rfl⟩
      | _ => cases hc
  | some h => exact .travel htravel

theorem perform_of_travel? {h : History} (hc : e.travel? c = some h) :
    (e.perform c).1 = (e.restore (some h)).1 := by
  cases c with
  | undo | redo => exact congrArg (fun back => (e.restore back).1) hc
  | _ => cases hc

/-! ## Every command -/

/-- **What is listed is all that a command does.** -/
theorem performed_perform (e : Editor) (c : Command) :
    Performed e c (e.perform c).1 (e.perform c).2 := by
  cases c with
  | change ch => exact performed_of_edits rfl e.drawing e.menu rfl
  | addChoice id label => exact performed_of_edits rfl e.drawing e.menu (e.addChoice_eq id label)
  | removeChoice id choice =>
      exact performed_of_edits rfl e.drawing e.menu (e.removeChoice_eq id choice)
  | completeDrawing target =>
      exact performed_of_edits rfl none e.menu (e.completeDrawing_eq target)
  | choose kind => exact performed_of_edits rfl e.drawing none (e.choose_eq kind)
  | chooseNamed name =>
      rw [perform, fst_made, snd_made]
      exact performed_chooseNamed e name
  | duplicateSelected => exact performed_duplicateSelected e
  | requestRemoval =>
      show Performed e _ e.requestRemoval.1 (.flag e.requestRemoval.2)
      rw [requestRemoval]
      split
      · rename_i hnone
        exact .rest ⟨refused_of_none rfl, rfl, rfl, fun _ => List.isEmpty_iff.mp hnone, nofun⟩
      · rename_i hsome
        exact .ask fun hnone => hsome (List.isEmpty_iff.mpr hnone)
  | confirmRemoval => exact performed_confirmRemoval e
  | cancelRemoval => exact .withdraw rfl nofun rfl
  | toggle id => exact performed_toggle e id
  | deselect => exact .deselect
  | focusOn id => exact .focus
  | undo => exact performed_restore rfl
  | redo => exact performed_restore rfl
  | startDrag id =>
      show Performed e _ (e.startDrag id) .silent
      rw [startDrag]
      split
      · rename_i b hb
        exact .startDrag hb
      · exact .rest ⟨refused_of_none rfl, rfl, rfl, nofun, nofun⟩
  | drag id delta =>
      show Performed e _ (e.drag id delta) .silent
      rw [drag]
      split
      · exact .rest ⟨refused_of_none rfl, rfl, rfl, nofun, nofun⟩
      · rename_i hdragging
        simp only [Bool.or_eq_true, not_or, Bool.not_eq_true', Bool.not_eq_false] at hdragging
        exact .drag hdragging.2
  | endDrag id => exact performed_endDrag e id
  | startDrawing source =>
      show Performed e _ (e.startDrawing source).1 (.flag (e.startDrawing source).2)
      rw [startDrawing]
      split <;> exact .rest ⟨refused_of_none rfl, rfl, rfl, nofun, nofun⟩
  | release place =>
      show Performed e _ (e.release place).1 (.flag (e.release place).2)
      rw [release]
      split <;> exact .rest ⟨refused_of_none rfl, rfl, rfl, nofun, nofun⟩
  | openInsertMenu connection =>
      show Performed e _ (e.openInsertMenu connection).1 (.flag (e.openInsertMenu connection).2)
      rw [openInsertMenu]
      split <;> exact .rest ⟨refused_of_none rfl, rfl, rfl, nofun, nofun⟩
  | cancelDrawing | openMenu | closeMenu => exact .rest ⟨refused_of_none rfl, rfl, rfl, nofun, nofun⟩

end Editor

end Parley
