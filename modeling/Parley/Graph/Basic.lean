/-
Conversation graphs.

A graph is its blocks and its connections, both in the order they were added.
Where several connections leave one handle, the conversation follows the first:
that is `successor?`.  Nothing here asks that ids differ, that connections have
blocks at their ends, or that there is just one Welcome block; of several the
first counts.
-/
import Parley.Block.Basic

namespace Parley

/-- One end of a connection: a block and one of its handles. -/
structure Endpoint where
  block : String
  handle : String
deriving DecidableEq

/-- A way from an output handle to an input handle. -/
structure Connection where
  id : String
  source : Endpoint
  target : Endpoint
deriving DecidableEq

namespace Connection

/-- Leads back to the block it leaves. -/
def isLoop (c : Connection) : Bool := c.source.block == c.target.block

/-- Goes from this end to that end, whatever its id. -/
def links (c : Connection) (source target : Endpoint) : Bool :=
  c.source == source && c.target == target

/-- Has the block at one of its ends. -/
def touches (c : Connection) (block : String) : Bool :=
  c.source.block == block || c.target.block == block

end Connection

structure Graph where
  blocks : List Block
  connections : List Connection
deriving BEq

namespace Graph

/-- The graph that editing starts with: a Welcome block and nothing else. -/
def seed : Graph := ⟨[⟨"start", ⟨150, 150⟩, .welcome "Welcome to our chatbot!"⟩], []⟩

/-- The first block with an id. -/
def block? (g : Graph) (id : String) : Option Block := g.blocks.find? (·.id == id)

def hasBlock (g : Graph) (id : String) : Bool := g.blocks.any (·.id == id)

/-- The first Welcome block. -/
def welcome? (g : Graph) : Option Block := g.blocks.find? (·.isWelcome)

/-- The first connection with an id. -/
def connection? (g : Graph) (id : String) : Option Connection := g.connections.find? (·.id == id)

/-- Whether some connection goes from this end to that end. -/
def hasLink (g : Graph) (source target : Endpoint) : Bool := g.connections.any (·.links source target)

/-- The connections that leave a handle, in order. -/
def outgoing (g : Graph) (source : Endpoint) : List Connection :=
  g.connections.filter (·.source == source)

/-- The block that the first connection from a handle leads to, existing or not. -/
def successor? (g : Graph) (source : Endpoint) : Option String :=
  (g.connections.find? (·.source == source)).map (·.target.block)

theorem hasBlock_eq_isSome (g : Graph) (id : String) : g.hasBlock id = (g.block? id).isSome := by
  rw [Bool.eq_iff_iff]
  simp [hasBlock, block?, List.find?_isSome]

theorem mem_of_block? {g : Graph} {id : String} {b : Block} (hb : g.block? id = some b) :
    b ∈ g.blocks :=
  List.mem_of_find?_eq_some hb

theorem id_of_block? {g : Graph} {id : String} {b : Block} (hb : g.block? id = some b) :
    b.id = id := by
  simpa using List.find?_some hb

/-- The successor is where the first of the outgoing connections leads. -/
theorem successor?_eq_head?_outgoing (g : Graph) (source : Endpoint) :
    g.successor? source = (g.outgoing source).head?.map (·.target.block) := by
  simp [successor?, outgoing, List.head?_filter]

end Graph

end Parley
