/-
The six kinds of blocks.

A conversation starts at a Welcome block, which nothing leads into, and ends at
a Goodbye block, which leads nowhere.  A Buttons block branches; the other four
have one way out.

`ofName?` finds the kind that a text names.  Blanks around the name and the case
of its ASCII letters do not matter.
-/
import Parley.Fault
import Parley.Text

namespace Parley.Block

inductive Kind where
  | welcome
  | message
  | question
  | buttons
  | field
  | goodbye
deriving DecidableEq

namespace Kind

def all : List Kind := [.welcome, .message, .question, .buttons, .field, .goodbye]

def name : Kind → String
  | .welcome => "Welcome"
  | .message => "Message"
  | .question => "Question"
  | .buttons => "Buttons"
  | .field => "Field"
  | .goodbye => "Goodbye"

/-- The first part of the id of a new block. -/
def label : Kind → String
  | .welcome => "welcome"
  | .message => "message"
  | .question => "question"
  | .buttons => "buttons"
  | .field => "field"
  | .goodbye => "goodbye"

/-- Only a Welcome block has no way in. -/
def hasInput (k : Kind) : Bool := k != .welcome

/-- The kinds with exactly one way out. -/
def hasSingleOutput : Kind → Bool
  | .welcome | .message | .question | .field => true
  | .buttons | .goodbye => false

/-- The kinds that can be created in the middle of a conversation. -/
def isCreatable (k : Kind) : Bool := k != .welcome

/-- The kind of exactly this name. -/
def ofExactName? (s : String) : Option Kind := all.find? (·.name == s)

/-- The kind that a text names. -/
def ofName? (s : String) : Except UnknownKind Kind :=
  match all.find? (fun k => Text.sameFolded k.name (Text.trim s)) with
  | some k => .ok k
  | none => .error ⟨s⟩

theorem mem_all (k : Kind) : k ∈ all := by cases k <;> decide

@[simp]
theorem ofExactName?_name (k : Kind) : ofExactName? k.name = some k := by cases k <;> decide +kernel

/-- Only its own name finds a kind exactly. -/
theorem eq_name_of_ofExactName? {s : String} {k : Kind} (h : ofExactName? s = some k) :
    s = k.name := by
  have := List.find?_some h
  exact (beq_iff_eq.1 this).symm

end Kind

end Parley.Block
