/-
Graphs as JSON.

A block is one object: its id, its position, the name of its kind under `type`
and what it says under `data`.  A variable that is not set is left out.  Reading
accepts the keys in any order among others of any name, and an array of the
fields in place of a position, an option, an endpoint, a connection or a graph.

`type` may also be an object with the name as its only key, over `null` or, in a
block, over an empty object.

In a text all of a block has to be readable and may not nest too deep, in the
fields with other names too, except what its position holds beside the two
coordinates; elsewhere fields with other names are not looked at.
-/
import Parley.Json.Reader
import Parley.Graph.Basic

namespace Parley

open Json

/-- A position as an object. -/
def Position.toJson (p : Position) : Value :=
  .object [("x", .ofFloat p.x), ("y", .ofFloat p.y)]

def Position.ofJson? (v : Value) : Option Position :=
  match record? ["x", "y"] v with
  | some [x, y] => return ⟨← x.float?, ← y.float?⟩
  | _ => none

def Choice.toJson (c : Choice) : Value :=
  .object [("id", .string c.id), ("text", .string c.label)]

def Choice.ofJson? (v : Value) : Option Choice :=
  match record? ["id", "text"] v with
  | some [id, label] => return ⟨← id.string?, ← label.string?⟩
  | _ => none

namespace Block

/-- The field of a variable that is set. -/
def bindsFields : Option String → List (String × Value)
  | none => []
  | some b => [("variableName", .string b)]

namespace Content

/-- What stands under `data`. -/
def dataFields : Content → List (String × Value)
  | .welcome m | .message m | .goodbye m => [("message", .string m)]
  | .question m b => ("message", .string m) :: bindsFields b
  | .buttons m b cs =>
    ("message", .string m) :: bindsFields b ++ [("options", .array (cs.map Choice.toJson))]
  | .field b => [("variableName", .string b)]

/-- A field that has to be a string. -/
def text? (fields : List (String × Value)) (key : String) : Option String := do
  (← soleField? fields key).string?

/-- The variable of a block that need not have one. -/
def readBinds? (fields : List (String × Value)) : Option (Option String) := do
  match ← optionalField? fields "variableName" with
  | none => some none
  | some v => v.nullable Value.string?

/-- The content of a kind that fields under `data` describe. -/
def ofFields? (fields : List (String × Value)) : Kind → Option Content
  | .welcome => return .welcome (← text? fields "message")
  | .message => return .message (← text? fields "message")
  | .goodbye => return .goodbye (← text? fields "message")
  | .question => return .question (← text? fields "message") (← readBinds? fields)
  | .buttons => do
    let items ← (← soleField? fields "options").items?
    return .buttons (← text? fields "message") (← readBinds? fields) (← items.mapM Choice.ofJson?)
  | .field => return .field (← text? fields "variableName")

end Content

/-- The kind that a value names. -/
def Kind.ofJson? : Value → Option Kind
  | .string s => ofExactName? s
  | .object [(s, .null)] => ofExactName? s
  | _ => none

/-- The kind that a value names within a block. -/
def Kind.ofBlockJson? : Value → Option Kind
  | .object [(s, .object [])] => ofExactName? s
  | v => Kind.ofJson? v

/-- The content of a kind that a value under `data` describes. -/
def Content.ofData? (kind : Kind) (data : Value) : Option Content := do
  Content.ofFields? (← data.fields?) kind

/-- The content that a value without id and position describes.  In an array
the kind stands by its plain name. -/
def Content.ofJson? : Value → Option Content
  | .object fields => do
    Content.ofData? (← Kind.ofJson? (← soleField? fields "type")) (← soleField? fields "data")
  | .array [.string name, data] => do Content.ofData? (← Kind.ofExactName? name) data
  | _ => none

def toJson (b : Block) : Value :=
  .object [("id", .string b.id), ("position", b.position.toJson),
    ("type", .string b.kind.name), ("data", .object b.content.dataFields)]

def ofJson? : Value → Option Block
  | .object fields => do
    let id ← (← soleField? fields "id").string?
    let position ← Position.ofJson? (← soleField? fields "position")
    let kind ← Kind.ofBlockJson? (← soleField? fields "type")
    return ⟨id, position, ← Content.ofData? kind (← soleField? fields "data")⟩
  | _ => none

/-- How deep a field of a block may nest in the text of a graph. -/
def fieldDepth : Nat := 124

/-- Whether the fields of a block can be read as far as they have to be. -/
def legible : Value → Bool
  | .object fields => fields.all fun f => f.1 == "position" || f.2.readable fieldDepth
  | _ => true

end Block

def Endpoint.toJson (e : Endpoint) : Value :=
  .object [("blockId", .string e.block), ("handleId", .string e.handle)]

def Endpoint.ofJson? (v : Value) : Option Endpoint :=
  match record? ["blockId", "handleId"] v with
  | some [block, handle] => return ⟨← block.string?, ← handle.string?⟩
  | _ => none

def Connection.toJson (c : Connection) : Value :=
  .object [("id", .string c.id), ("source", c.source.toJson), ("target", c.target.toJson)]

def Connection.ofJson? (v : Value) : Option Connection :=
  match record? ["id", "source", "target"] v with
  | some [id, source, target] =>
    return ⟨← id.string?, ← Endpoint.ofJson? source, ← Endpoint.ofJson? target⟩
  | _ => none

namespace Graph

def toJson (g : Graph) : Value :=
  .object [("blocks", .array (g.blocks.map Block.toJson)),
    ("connections", .array (g.connections.map Connection.toJson))]

def ofJson? (v : Value) : Option Graph :=
  match record? ["blocks", "connections"] v with
  | some [blocks, connections] =>
    return ⟨← (← blocks.items?).mapM Block.ofJson?,
      ← (← connections.items?).mapM Connection.ofJson?⟩
  | _ => none

/-- Whether the blocks of a graph can be read as far as they have to be. -/
def legible (v : Value) : Bool :=
  match record? ["blocks", "connections"] v with
  | some [.array blocks, _] => blocks.all Block.legible
  | _ => true

/-- The graph that a text is. -/
def ofText? (s : String) : Option Graph := do
  let v ← Value.ofText? s
  guard (legible v)
  ofJson? v

end Graph

end Parley
