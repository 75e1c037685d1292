/-
The editor.

An editor holds the graph, its history, and what the user is about: the
selection, the block in focus, the drags, a connection being drawn, the open
menu, and whether a removal waits for its confirmation.  Every change of the
graph that counts is committed: the new graph becomes the current entry of the
history and observers are told.  What observers are told is a list of notices,
the newest at the end.

Undo and redo bring back the graph and nothing else; they drop the focus, the
drags and the selection.
-/
import Parley.Graph.Edit
import Parley.History
import Parley.Editor.Selection

namespace Parley

/-- A menu of kinds, open at some place. -/
inductive Menu where
  /-- For a block to connect an output handle with. -/
  | create (place : Position) (source : Endpoint)
  /-- For a block to put into a connection. -/
  | insert (place : Position) (connection : String)

namespace Editor

/-- What was done to make an entry of the history. -/
inductive Action where
  | addBlock
  | revise
  | erase
  | move
  | duplicate
  | eraseSelected
  | connect
  | disconnect
  | extend
  | insertBetween
  | drag
deriving DecidableEq

def Action.name : Action → String
  | .addBlock => "add_block"
  | .revise => "update_block_data"
  | .erase => "remove_block"
  | .move => "move_blocks"
  | .duplicate => "duplicate_blocks"
  | .eraseSelected => "remove_selected"
  | .connect => "add_connection"
  | .disconnect => "remove_connection"
  | .extend => "create_and_connect"
  | .insertBetween => "insert_between"
  | .drag => "drag"

/-- The action that an edit is. -/
def Action.ofChange : Change → Action
  | .addBlock .. => .addBlock
  | .revise .. => .revise
  | .erase .. => .erase
  | .move .. => .move
  | .duplicate .. => .duplicate
  | .connect .. => .connect
  | .disconnect .. => .disconnect
  | .extend .. => .extend
  | .insertBetween .. => .insertBetween

/-- What observers of an editor are told. -/
inductive Notice where
  | committed (index : Nat) (action : Action)
  | restored (index : Nat)
  | selectionChanged (ids : List String)
deriving DecidableEq

end Editor

structure Editor where
  graph : Graph
  supply : IdSupply
  history : History
  selection : Selection
  focus : Option String
  /-- Where the blocks being dragged were when their drags began. -/
  drags : Table Position
  /-- The output handle a connection is being drawn from. -/
  drawing : Option Endpoint
  menu : Option Menu
  /-- The removal of the selected blocks was asked for and waits. -/
  confirming : Bool
  notices : List Editor.Notice

namespace Editor

/-- An editor at a graph, with nothing else going on. -/
def start (supply : IdSupply) (g : Graph) : Editor where
  graph := g
  supply
  history := .start g
  selection := .none
  focus := none
  drags := .empty
  drawing := none
  menu := none
  confirming := false
  notices := []

def tell (e : Editor) (n : Notice) : Editor := { e with notices := e.notices ++ [n] }

def tellSelection (e : Editor) : Editor := e.tell (.selectionChanged e.selection.ids)

/-- The block in focus, if it still exists. -/
def focused? (e : Editor) : Option Block := e.focus.bind e.graph.block?

/-! ## Commits -/

/-- A graph becomes the graph and the current entry. -/
def commit (e : Editor) (g : Graph) (action : Action) : Editor :=
  let history := e.history.commit g
  { e with graph := g, history }.tell (.committed history.index action)

/-- Another selection.  Observers hear of it if it has another size. -/
def reselect (e : Editor) (s : Selection) : Editor :=
  if s.size = e.selection.size then { e with selection := s }
  else { e with selection := s }.tellSelection

/-- Forgets the selection and the focus of blocks that are gone. -/
def forgetGone (e : Editor) : Editor :=
  let e := e.reselect (e.selection.existing e.graph)
  { e with focus := e.focus.filter e.graph.hasBlock }

/-- Carries out an edit and commits it under a name. -/
def changeAs (e : Editor) (c : Change) (action : Action) : Editor × Option Made :=
  match e.graph.perform? e.supply c with
  | none => (e, none)
  | some created =>
    ({ e with supply := created.supply }.commit created.graph action, some created.made)

/-- Carries out an edit.  Removed blocks are forgotten. -/
def change (e : Editor) (c : Change) : Editor × Option Made :=
  match c, e.changeAs c (.ofChange c) with
  | .erase _, (e, some made) => (e.forgetGone, some made)
  | _, result => result

/-! ## Options of a Buttons block -/

/-- The options of a Buttons block. -/
def choices? (e : Editor) (id : String) : Option (List Choice) :=
  match e.graph.block? id with
  | some ⟨_, _, .buttons _ _ choices⟩ => some choices
  | _ => none

/-- Other options for a block. -/
def rechoose (e : Editor) (id : String) (drafts : List Draft) : Editor × Option Made :=
  e.change (.revise id { choices := some drafts })

/-- One option more, unless there are five. -/
def addChoice (e : Editor) (id : String) (label : String) : Editor × Option Made :=
  match e.choices? id with
  | none => (e, none)
  | some choices =>
    if choices.length < Draft.most then
      e.rechoose id (choices.map Choice.toDraft ++ [⟨none, label⟩])
    else (e, none)

/-- One option less, unless it is the last. -/
def removeChoice (e : Editor) (id : String) (choice : String) : Editor × Option Made :=
  match e.choices? id with
  | none => (e, none)
  | some choices =>
    if Draft.fewest < choices.length then
      e.rechoose id ((choices.filter (·.id != choice)).map Choice.toDraft)
    else (e, none)

/-! ## Selection and focus -/

/-- Selects or deselects a block that can be selected. -/
def toggle (e : Editor) (id : String) : Editor :=
  match e.graph.block? id with
  | some b =>
    if b.isSelectable then { e with selection := e.selection.toggle id }.tellSelection else e
  | none => e

def deselect (e : Editor) : Editor := e.reselect .none

/-- Focuses a block, if it exists. -/
def focusOn (e : Editor) (id : Option String) : Editor :=
  { e with focus := id.filter e.graph.hasBlock }

/-- Copies the selected blocks and selects the copies. -/
def duplicateSelected (e : Editor) : Editor × List String :=
  match e.change (.duplicate e.selection.ids) with
  | (e, some (.ids ids)) =>
    (if ids.isEmpty then e else { e with selection := ⟨ids⟩ }.tellSelection, ids)
  | (e, _) => (e, [])

/-! ## Removing the selected blocks -/

/-- Asks for the removal of the selected blocks, if there are any. -/
def requestRemoval (e : Editor) : Editor × Bool :=
  if e.selection.isEmpty then (e, false) else ({ e with confirming := true }, true)

/-- Removes the selected blocks. -/
def confirmRemoval (e : Editor) : Editor × Bool :=
  let e := { e with confirming := false }
  if e.selection.isEmpty then (e, false)
  else
    let (e, made) := e.changeAs (.erase e.selection.ids) .eraseSelected
    (e.forgetGone.deselect, made.isSome)

def cancelRemoval (e : Editor) : Editor := { e with confirming := false }

/-! ## Undo and redo -/

/-- Takes up the current entry of another state of the history. -/
def restore (e : Editor) : Option History → Editor × Bool
  | none => (e, false)
  | some history =>
    let e := { e with graph := history.current, history, focus := none, drags := .empty }
    (e.deselect.tell (.restored history.index), true)

def undo (e : Editor) : Editor × Bool := e.restore e.history.undo?

def redo (e : Editor) : Editor × Bool := e.restore e.history.redo?

end Editor

end Parley
