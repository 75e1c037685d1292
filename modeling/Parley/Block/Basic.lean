/-
Blocks, where they lie, and their handles.

A position is a pair of doubles and doubles as a displacement.  Two positions
are compared coordinate by coordinate as doubles are: the two zeros are equal,
and a coordinate that is no number equals nothing.

A connection enters a block at its input handle and leaves it at one of its
output handles: `output` where there is a single way out, the ids of the options
for a Buttons block, none at all for a Goodbye block.
-/
import Parley.Block.Content

namespace Parley

structure Position where
  x : Float
  y : Float
deriving BEq

namespace Position

instance : Add Position := ⟨fun p q => ⟨p.x + q.x, p.y + q.y⟩⟩

def zero : Position := ⟨0, 0⟩

/-- A displacement that leads nowhere. -/
def isZero (p : Position) : Bool := p == zero

/-- The point half way between two points. -/
def midpoint (p q : Position) : Position := ⟨(p.x + q.x) / 2, (p.y + q.y) / 2⟩

end Position

structure Block where
  id : String
  position : Position
  content : Block.Content
deriving BEq

namespace Block

/-- The handle at which every block but a Welcome block is entered. -/
def inputName : String := "input"

/-- The handle at which a block with a single way out is left. -/
def outputName : String := "output"

/-- A new block of a kind. -/
def ofKind (id : String) (kind : Kind) (position : Position) : Block :=
  ⟨id, position, .initial kind⟩

def kind (b : Block) : Kind := b.content.kind

def inputHandle? (b : Block) : Option String :=
  if b.kind.hasInput then some inputName else none

def outputHandles (b : Block) : List String :=
  match b.content with
  | .buttons _ _ choices => choices.map (·.id)
  | .goodbye _ => []
  | _ => [outputName]

def hasOutput (b : Block) (handle : String) : Bool := b.outputHandles.contains handle

/-- A Welcome block cannot be selected. -/
def isSelectable (b : Block) : Bool := b.kind != .welcome

def isWelcome (b : Block) : Bool := b.kind == .welcome

@[simp]
theorem kind_ofKind (id : String) (k : Kind) (p : Position) : (ofKind id k p).kind = k :=
  Content.kind_initial k

/-- A new block with a single way out is left at `output`. -/
theorem outputHandles_ofKind (id : String) (p : Position) {k : Kind} (h : k.hasSingleOutput) :
    (ofKind id k p).outputHandles = [outputName] := by
  cases k with
  | buttons => cases h
  | goodbye => cases h
  | _ => rfl

end Block

end Parley
