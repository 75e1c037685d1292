/-
Transcripts and notices as JSON.
-/
import Parley.Conversation.State
import Parley.Graph.Codec

namespace Parley.Conversation

open Json

/-- Options as JSON. -/
def choicesJson (cs : List Choice) : Value := .array (cs.map Choice.toJson)

def Entry.toJson : Entry → Value
  | .bot t => .object [("author", .string "bot"), ("text", .string t)]
  | .user t => .object [("author", .string "user"), ("text", .string t)]
  | .prompt t cs =>
    .object [("author", .string "button_prompt"), ("text", .string t), ("options", choicesJson cs)]

def Entry.ofJson? (v : Value) : Option Entry := do
  let fields ← v.fields?
  let author ← (← soleField? fields "author").string?
  let text ← (← soleField? fields "text").string?
  match author with
  | "bot" => some (.bot text)
  | "user" => some (.user text)
  | "button_prompt" =>
    return .prompt text (← (← (← soleField? fields "options").items?).mapM Choice.ofJson?)
  | _ => none

def Input.toJson : Input → Value
  | .text => .object [("kind", .string "text")]
  | .button cs => .object [("kind", .string "button"), ("options", choicesJson cs)]

def Notice.toJson : Notice → Value
  | .message entry => .object [("type", .string "message"), ("entry", entry.toJson)]
  | .resolved prompt reply =>
    .object [("type", .string "prompt_resolved"), ("prompt", .string prompt), ("reply", .string reply)]
  | .awaiting input => .object [("type", .string "awaiting_input"), ("input", input.toJson)]
  | .ended => .object [("type", .string "ended")]

end Parley.Conversation
