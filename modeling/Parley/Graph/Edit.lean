/-
Edits of a graph.

Every edit takes a graph to the next one, or to `none` where it is refused or
would change nothing: a second Welcome block, a connection from a block to
itself, a connection that exists, an id that names nothing.  Edits that create
something take a supply of ids and say what they created.

`Change` lists the edits with their arguments and `Graph.perform?` carries one out.
What an edit made is an id, several ids, or nothing with a name.
-/
import Parley.Graph.Basic
import Parley.Block.Patch
import Parley.Table

namespace Parley

/-- What an edit that creates something leads to. -/
structure Created (α : Type) where
  graph : Graph
  supply : IdSupply
  made : α

namespace Graph

/-- The label of connection ids. -/
def connectionLabel : String := "conn"

/-- How far a copy lies from what it copies. -/
def copyOffset : Position := ⟨40, 40⟩

/-- One more block.  A second Welcome block is refused. -/
def addBlock? (g : Graph) (supply : IdSupply) (kind : Block.Kind) (place : Position) :
    Option (Created String) :=
  if kind == .welcome && g.welcome?.isSome then none
  else
    let (id, supply) := supply.draw kind.label
    some ⟨{ g with blocks := g.blocks ++ [.ofKind id kind place] }, supply, id⟩

/-- The first element of a list that passes a test, changed. -/
def changeFirst (test : α → Bool) (change : α → α) : List α → List α
  | [] => []
  | x :: xs => if test x then change x :: xs else x :: changeFirst test change xs

/-- Whether a connection may stay when the block `id` gets this content: one that
leaves a Buttons block has to leave it through one of its options. -/
def staysAfter (id : String) (content : Block.Content) (c : Connection) : Bool :=
  match content with
  | .buttons _ _ choices => c.source.block != id || choices.any (·.id == c.source.handle)
  | _ => true

/-- A graph whose first block `id` has this content. -/
def withContent (g : Graph) (id : String) (content : Block.Content) : Graph :=
  { blocks := changeFirst (·.id == id) (fun b => { b with content }) g.blocks
    connections := g.connections.filter (staysAfter id content) }

/-- A patch merged into a block.  Refused when it changes nothing. -/
def revise? (g : Graph) (supply : IdSupply) (id : String) (patch : Block.Patch) :
    Option (Graph × IdSupply) := do
  let b ← g.block? id
  let (content, supply) ← patch.merge? supply b.content
  if content = b.content then none else some (g.withContent id content, supply)

/-- The graph without some blocks and without the connections that touch them. -/
def without (g : Graph) (ids : List String) : Graph :=
  { blocks := g.blocks.filter fun b => !ids.contains b.id
    connections := g.connections.filter fun c =>
      !ids.contains c.source.block && !ids.contains c.target.block }

/-- Removes the blocks listed.  Ids that name no block remove nothing, neither
blocks nor connections. -/
def erase? (g : Graph) (ids : List String) : Option Graph :=
  match ids.filter g.hasBlock with
  | [] => none
  | doomed => some (g.without doomed)

/-- The graph with the blocks listed displaced. -/
def displace (g : Graph) (ids : List String) (delta : Position) : Graph :=
  { g with blocks := g.blocks.map fun b =>
      if ids.contains b.id then { b with position := b.position + delta } else b }

/-- Displaces the blocks listed, if there are any and the way leads somewhere. -/
def move? (g : Graph) (ids : List String) (delta : Position) : Option Graph :=
  if delta.isZero || !g.blocks.any (fun b => ids.contains b.id) then none
  else some (g.displace ids delta)

/-- The blocks listed that may be copied, in the order of the graph. -/
def copyable (g : Graph) (ids : List String) : List Block :=
  g.blocks.filter fun b => ids.contains b.id && !b.isWelcome

/-- The connections with both ends among renamed blocks, renamed. -/
def renamed (g : Graph) (names : Table String) : List (Endpoint × Endpoint) :=
  g.connections.filterMap fun c => do
    return (⟨← names.get? c.source.block, c.source.handle⟩,
      ⟨← names.get? c.target.block, c.target.handle⟩)

/-- Copies the blocks listed and the connections between them, each with a new
id.  Welcome blocks are left out.  Makes the ids of the copies. -/
def duplicate? (g : Graph) (supply : IdSupply) (ids : List String) : Option (Created (List String)) :=
  match g.copyable ids with
  | [] => none
  | chosen =>
    let (newIds, supply) := supply.drawAll (chosen.map (·.kind.label))
    let names := Table.ofList ((chosen.map (·.id)).zip newIds)
    let copies := chosen.zipWith (fun b id => { b with id, position := b.position + copyOffset }) newIds
    let ends := g.renamed names
    let (newConnectionIds, supply) := supply.drawAll (ends.map fun _ => connectionLabel)
    let links := ends.zipWith (fun (source, target) id => ⟨id, source, target⟩) newConnectionIds
    some
      { graph := ⟨g.blocks ++ copies, g.connections ++ links⟩
        supply
        made := chosen.filterMap fun b => names.get? b.id }

/-- One more connection.  Refused from a block to itself, and where one goes
from this end to that end already. -/
def connect? (g : Graph) (supply : IdSupply) (source target : Endpoint) : Option (Created String) :=
  if source.block == target.block || g.hasLink source target then none
  else
    let (id, supply) := supply.draw connectionLabel
    some ⟨{ g with connections := g.connections ++ [⟨id, source, target⟩] }, supply, id⟩

/-- Removes the connections with an id. -/
def disconnect? (g : Graph) (id : String) : Option Graph :=
  if g.connections.any (·.id == id) then
    some { g with connections := g.connections.filter (·.id != id) }
  else none

/-- A new block and a connection from `source` into it.  Refused for a Welcome
block and where the source block does not exist. -/
def extend? (g : Graph) (supply : IdSupply) (source : Endpoint) (kind : Block.Kind) (place : Position) :
    Option (Created String) :=
  if !kind.isCreatable || !g.hasBlock source.block then none
  else
    let (id, supply) := supply.draw kind.label
    let (link, supply) := supply.draw connectionLabel
    some
      { graph :=
          { blocks := g.blocks ++ [.ofKind id kind place]
            connections := g.connections ++ [⟨link, source, ⟨id, Block.inputName⟩⟩] }
        supply
        made := id }

/-- What leaves a block put into a connection: the way on to the old target, if
the new block has a single way out. -/
def wayOn (supply : IdSupply) (id : String) (kind : Block.Kind) (target : Endpoint) :
    List Connection × IdSupply :=
  if kind.hasSingleOutput then
    let (link, supply) := supply.draw connectionLabel
    ([⟨link, ⟨id, Block.outputName⟩, target⟩], supply)
  else ([], supply)

/-- A new block in the middle of a connection.  The old source feeds the new
block; the new block feeds the old target if it has a single way out.  The old
connection goes. -/
def insertBetween? (g : Graph) (supply : IdSupply) (connection : String) (kind : Block.Kind)
    (place : Position) : Option (Created String) := do
  guard kind.isCreatable
  let old ← g.connection? connection
  let (id, supply) := supply.draw kind.label
  let (link, supply) := supply.draw connectionLabel
  let (onward, supply) := wayOn supply id kind old.target
  return {
    graph :=
      { blocks := g.blocks ++ [.ofKind id kind place]
        connections := g.connections.filter (·.id != connection) ++
          ⟨link, old.source, ⟨id, Block.inputName⟩⟩ :: onward }
    supply
    made := id }

end Graph

/-! ## Edits as data -/

inductive Change where
  | addBlock (kind : Block.Kind) (place : Position)
  | revise (id : String) (patch : Block.Patch)
  | erase (ids : List String)
  | move (ids : List String) (delta : Position)
  | duplicate (ids : List String)
  | connect (source target : Endpoint)
  | disconnect (id : String)
  | extend (source : Endpoint) (kind : Block.Kind) (place : Position)
  | insertBetween (connection : String) (kind : Block.Kind) (place : Position)

/-- What an edit made. -/
inductive Made where
  | nothing
  | id (id : String)
  | ids (ids : List String)
deriving DecidableEq

namespace Graph

/-- An edit that draws no ids and makes nothing with a name. -/
def plain (supply : IdSupply) (g : Option Graph) : Option (Created Made) :=
  g.map fun g => ⟨g, supply, .nothing⟩

/-- The next graph, the ids left, and what was made; `none` when refused. -/
def perform? (g : Graph) (supply : IdSupply) : Change → Option (Created Made)
  | .addBlock kind place => (g.addBlock? supply kind place).map fun c => { c with made := .id c.made }
  | .revise id patch => (g.revise? supply id patch).map fun (g, supply) => ⟨g, supply, .nothing⟩
  | .erase ids => plain supply (g.erase? ids)
  | .move ids delta => plain supply (g.move? ids delta)
  | .duplicate ids => (g.duplicate? supply ids).map fun c => { c with made := .ids c.made }
  | .connect source target =>
    (g.connect? supply source target).map fun c => { c with made := .id c.made }
  | .disconnect id => plain supply (g.disconnect? id)
  | .extend source kind place =>
    (g.extend? supply source kind place).map fun c => { c with made := .id c.made }
  | .insertBetween connection kind place =>
    (g.insertBetween? supply connection kind place).map fun c => { c with made := .id c.made }

end Graph

end Parley
