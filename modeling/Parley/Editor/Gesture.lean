/-
Gestures: drags, connections being drawn, and menus.

A drag displaces blocks step by step and is committed once, at its end, if the
block it began with lies elsewhere by then and the history does not have the
graph already.  It displaces the whole selection when that has two blocks or
more and the dragged block is one of them.

A connection is drawn from an output handle.  It is completed at an input
handle, or released over the empty canvas, where a menu offers blocks to connect
with.  Another menu offers blocks to put into a connection.
-/
import Parley.Editor.Basic

namespace Parley.Editor

/-! ## Drags -/

/-- Notes where a block lies. -/
def startDrag (e : Editor) (id : String) : Editor :=
  match e.graph.block? id with
  | some b => { e with drags := e.drags.insert id b.position }
  | none => e

def isDragging (e : Editor) (id : String) : Bool := e.drags.contains id

/-- The blocks that go with a dragged block. -/
def dragGroup (e : Editor) (id : String) : List String :=
  if e.selection.contains id && 1 < e.selection.size then e.selection.ids else [id]

/-- One step of a drag. -/
def drag (e : Editor) (id : String) (delta : Position) : Editor :=
  if delta.isZero || !e.isDragging id then e
  else { e with graph := e.graph.displace (e.dragGroup id) delta }

/-- Whether a drag that began at `origin` has something to commit. -/
def dragMoved (e : Editor) (id : String) (origin : Position) : Bool :=
  match e.graph.block? id with
  | some b => !(origin == b.position) && !(e.graph == e.history.current)
  | none => false

/-- The end of a drag. -/
def endDrag (e : Editor) (id : String) : Editor × Bool :=
  match e.drags.get? id with
  | none => (e, false)
  | some origin =>
    let e := { e with drags := e.drags.erase id }
    if e.dragMoved id origin then (e.commit e.graph .drag, true) else (e, false)

/-! ## Connections being drawn -/

/-- Whether a block exists and has an output handle. -/
def canDrawFrom (e : Editor) (source : Endpoint) : Bool :=
  (e.graph.block? source.block).any (·.hasOutput source.handle)

def startDrawing (e : Editor) (source : Endpoint) : Editor × Bool :=
  if e.canDrawFrom source then ({ e with drawing := some source }, true) else (e, false)

/-- Connects where the connection was drawn from with `target`. -/
def completeDrawing (e : Editor) (target : Endpoint) : Editor × Option Made :=
  match e.drawing with
  | none => (e, none)
  | some source => { e with drawing := none }.change (.connect source target)

def cancelDrawing (e : Editor) : Editor := { e with drawing := none }

/-! ## Menus -/

def openMenu (e : Editor) (m : Menu) : Editor := { e with drawing := none, menu := some m }

def closeMenu (e : Editor) : Editor := { e with menu := none }

/-- Lets go of a connection over the empty canvas. -/
def release (e : Editor) (place : Position) : Editor × Bool :=
  match e.drawing with
  | none => (e, false)
  | some source => (e.openMenu (.create place source), true)

/-- Where the menu of a connection opens: half way between its blocks. -/
def middleOf? (e : Editor) (connection : String) : Option Position := do
  let c ← e.graph.connection? connection
  let source ← e.graph.block? c.source.block
  let target ← e.graph.block? c.target.block
  return source.position.midpoint target.position

def openInsertMenu (e : Editor) (connection : String) : Editor × Bool :=
  match e.middleOf? connection with
  | some place => (e.openMenu (.insert place connection), true)
  | none => (e, false)

/-- The edit that the choice of a kind in a menu is. -/
def menuChange (kind : Block.Kind) : Menu → Change
  | .create place source => .extend source kind place
  | .insert place connection => .insertBetween connection kind place

/-- Chooses a kind in the open menu, which closes. -/
def choose (e : Editor) (kind : Block.Kind) : Editor × Option Made :=
  match e.menu with
  | none => (e, none)
  | some m => e.closeMenu.change (menuChange kind m)

/-- Chooses a kind by its name.  A name of no kind closes the menu. -/
def chooseNamed (e : Editor) (name : String) : Editor × Option Made :=
  match Block.Kind.ofName? name with
  | .ok kind => e.choose kind
  | .error _ => (e.closeMenu, none)

end Parley.Editor
