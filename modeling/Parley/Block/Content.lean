/-
What a block says and asks.

The content of a block determines its kind.  A Question or Buttons block may
bind the reply to a variable; a Field block always names the variable it
captures the last reply in.  A Buttons block offers options, and its handles are
their ids.
-/
import Parley.Block.Kind

namespace Parley

/-- One of the options that a Buttons block offers. -/
structure Choice where
  id : String
  label : String
deriving DecidableEq

namespace Block

inductive Content where
  | welcome (message : String)
  | message (message : String)
  | question (message : String) (binds : Option String)
  | buttons (message : String) (binds : Option String) (choices : List Choice)
  | field (binds : String)
  | goodbye (message : String)
deriving DecidableEq

namespace Content

/-- What a new block of a kind starts with. -/
def initial : Kind → Content
  | .welcome => .welcome "Welcome message"
  | .message => .message "Informational message"
  | .question => .question "Your question here..." none
  | .buttons => .buttons "Choose an option" none [⟨"btn-1", "Option 1"⟩, ⟨"btn-2", "Option 2"⟩]
  | .field => .field "my_variable"
  | .goodbye => .goodbye "Goodbye!"

def kind : Content → Kind
  | .welcome .. => .welcome
  | .message .. => .message
  | .question .. => .question
  | .buttons .. => .buttons
  | .field .. => .field
  | .goodbye .. => .goodbye

/-- What the block says; a Field block says nothing. -/
def message? : Content → Option String
  | .welcome m | .message m | .question m _ | .buttons m _ _ | .goodbye m => some m
  | .field _ => none

/-- The variable the block binds. -/
def binds? : Content → Option String
  | .question _ b | .buttons _ b _ => b
  | .field b => some b
  | _ => none

/-- The options the block offers. -/
def choices : Content → List Choice
  | .buttons _ _ cs => cs
  | _ => []

@[simp]
theorem kind_initial (k : Kind) : (initial k).kind = k := by cases k <;> rfl

end Content

end Block

end Parley
