/-
All that a user can do to an editor.

`Command` lists the operations with their arguments, and `perform` carries one
out.  A session of editing is a list of commands.
-/
import Parley.Editor.Gesture

namespace Parley.Editor

inductive Command where
  | change (c : Change)
  | addChoice (id label : String)
  | removeChoice (id choice : String)
  | duplicateSelected
  | requestRemoval
  | confirmRemoval
  | cancelRemoval
  | toggle (id : String)
  | deselect
  | focusOn (id : Option String)
  | undo
  | redo
  | startDrag (id : String)
  | drag (id : String) (delta : Position)
  | endDrag (id : String)
  | startDrawing (source : Endpoint)
  | completeDrawing (target : Endpoint)
  | cancelDrawing
  | openMenu (m : Menu)
  | release (place : Position)
  | openInsertMenu (connection : String)
  | choose (kind : Block.Kind)
  | chooseNamed (name : String)
  | closeMenu

/-- The answer to a command. -/
inductive Reply where
  /-- The command has none. -/
  | silent
  | flag (b : Bool)
  /-- What an edit made, unless it was refused. -/
  | made (m : Option Made)

/-- The new editor and the answer. -/
def perform (e : Editor) : Command → Editor × Reply
  | .change c => made (e.change c)
  | .addChoice id label => made (e.addChoice id label)
  | .removeChoice id choice => made (e.removeChoice id choice)
  | .duplicateSelected => (e.duplicateSelected.map id fun ids => .made (some (.ids ids)))
  | .requestRemoval => flag e.requestRemoval
  | .confirmRemoval => flag e.confirmRemoval
  | .cancelRemoval => (e.cancelRemoval, .silent)
  | .toggle id => (e.toggle id, .silent)
  | .deselect => (e.deselect, .silent)
  | .focusOn id => (e.focusOn id, .silent)
  | .undo => flag e.undo
  | .redo => flag e.redo
  | .startDrag id => (e.startDrag id, .silent)
  | .drag id delta => (e.drag id delta, .silent)
  | .endDrag id => flag (e.endDrag id)
  | .startDrawing source => flag (e.startDrawing source)
  | .completeDrawing target => made (e.completeDrawing target)
  | .cancelDrawing => (e.cancelDrawing, .silent)
  | .openMenu m => (e.openMenu m, .silent)
  | .release place => flag (e.release place)
  | .openInsertMenu connection => flag (e.openInsertMenu connection)
  | .choose kind => made (e.choose kind)
  | .chooseNamed name => made (e.chooseNamed name)
  | .closeMenu => (e.closeMenu, .silent)
where
  flag : Editor × Bool → Editor × Reply := Prod.map id .flag
  made : Editor × Option Made → Editor × Reply := Prod.map id .made

/-- The editor after a list of commands. -/
def performAll (e : Editor) (cs : List Command) : Editor := cs.foldl (fun e c => (e.perform c).1) e

end Parley.Editor
