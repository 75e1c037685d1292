/-
Flows: what a conversation does at each block of a graph.

A flow is made from a graph once and then replaces it: every step knows the
steps it leads to.  At a Field block the conversation captures the last reply
and passes on at once; at every other block it makes a stop.

The way on from a handle is where the first connection from it leads, and only
if that block exists; a later connection does not count even then.  Where an id
is repeated, the last block with it gives the step.
-/
import Parley.Graph.Basic
import Parley.Table

namespace Parley

namespace Flow

/-- One option at a stop, and where it leads. -/
structure Branch where
  choice : Choice
  next : Option String
deriving DecidableEq

/-- Where a conversation halts, for a pause or for a reply. -/
inductive Stop where
  /-- Says something and goes on after a pause. -/
  | say (message : String) (next : Option String)
  /-- Says something and ends after a pause. -/
  | farewell (message : String)
  /-- Asks for a text. -/
  | ask (message : String) (binds : Option String) (next : Option String)
  /-- Asks to pick an option. -/
  | choose (message : String) (binds : Option String) (branches : List Branch)
deriving DecidableEq

inductive Step where
  /-- Captures the last reply in a variable and passes on. -/
  | capture (binds : String) (next : Option String)
  | halt (stop : Stop)
deriving DecidableEq

end Flow

structure Flow where
  entry : Option String
  steps : Table Flow.Step
deriving DecidableEq

namespace Flow

/-- The block that the first connection from a handle leads to, if it exists. -/
def wayOn (g : Graph) (source : Endpoint) : Option String := (g.successor? source).filter g.hasBlock

/-- What a conversation does at a block. -/
def stepAt (g : Graph) (b : Block) : Step :=
  let next := wayOn g ⟨b.id, Block.outputName⟩
  match b.content with
  | .welcome m | .message m => .halt (.say m next)
  | .goodbye m => .halt (.farewell m)
  | .question m binds => .halt (.ask m binds next)
  | .field binds => .capture binds next
  | .buttons m binds choices =>
    .halt (.choose m binds (choices.map fun c => ⟨c, wayOn g ⟨b.id, c.id⟩⟩))

/-- The flow of a graph, entered at its first Welcome block. -/
def ofGraph (g : Graph) : Flow where
  entry := g.welcome?.map (·.id)
  steps := .ofList (g.blocks.map fun b => (b.id, stepAt g b))

def step? (f : Flow) (id : String) : Option Step := f.steps.get? id

/-- How many steps there are, one for each id. -/
def size (f : Flow) : Nat := f.steps.size

def isEmpty (f : Flow) : Bool := f.steps.isEmpty

/-- The options of the branches at a stop. -/
def choicesOf (branches : List Branch) : List Choice := branches.map (·.choice)

end Flow

end Parley
