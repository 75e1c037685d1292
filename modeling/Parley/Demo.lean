/-
A conversation to try out.

It asks for a name and then for a topic.  One topic leads to a message and a
goodbye, the other to a goodbye of its own.  It is made with the editor, block
by block, from the seed.
-/
import Parley.Editor.Command

namespace Parley.Demo

/-- A new block behind an output handle, and its id. -/
def extend (e : Editor) (source : Endpoint) (kind : Block.Kind) (place : Position) :
    Editor × String :=
  match e.change (.extend source kind place) with
  | (e, some (.id id)) => (e, id)
  | (e, _) => (e, source.block)

/-- A block says something else. -/
def revise (e : Editor) (id : String) (patch : Block.Patch) : Editor :=
  (e.change (.revise id patch)).1

/-- A new block behind an output handle, with what it says, and its id. -/
def add (e : Editor) (source : Endpoint) (kind : Block.Kind) (place : Position)
    (patch : Block.Patch) : Editor × String :=
  let (e, id) := extend e source kind place
  (revise e id patch, id)

/-- The only way out of a block. -/
def outOf (id : String) : Endpoint := ⟨id, Block.outputName⟩

/-- The two topics. -/
def topics : List Draft := [⟨some "sales", "Sales"⟩, ⟨some "support", "Support"⟩]

/-- The editor behind the whole conversation. -/
def editor (supply : IdSupply) : Editor :=
  let e := Editor.start supply .seed
  let (e, name) := add e (outOf "start") .question ⟨400, 150⟩
    { message := some "What's your name?", binds := some (some "name") }
  let (e, field) := add e (outOf name) .field ⟨650, 150⟩ { binds := some (some "customer_name") }
  let (e, menu) := add e (outOf field) .buttons ⟨900, 150⟩
    { message := some "How can we help?", binds := some (some "topic"), choices := some topics }
  let (e, sales) := add e ⟨menu, "sales"⟩ .message ⟨1150, 150⟩
    { message := some "Our sales team will be in touch." }
  let (e, _) := extend e (outOf sales) .goodbye ⟨1400, 150⟩
  let (e, _) := add e ⟨menu, "support"⟩ .goodbye ⟨1150, 350⟩
    { message := some "Support will email you shortly. Bye!" }
  e

/-- The conversation to try out. -/
def graph (supply : IdSupply) : Graph := (editor supply).graph

end Parley.Demo
