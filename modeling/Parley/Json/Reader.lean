/-
From tokens to a value.

`Value.ofTokens?` reads exactly one value, with nothing behind it.  The arrays
and objects that are still open form a stack, so text may nest as deep as it
likes.  `Value.ofText?` is the reader of JSON text.
-/
import Parley.Json.Token

namespace Parley.Json

/-- An open array or object with what was read of it, last first.  The fields of
an object are `none` once one of its keys was unreadable. -/
inductive Frame where
  | array (items : List Value)
  | object (fields : Option (List (String × Value)))
  /-- An object behind one of its keys. -/
  | member (fields : Option (List (String × Value))) (key : Option String)

/-- What may come next. -/
inductive Expected where
  | value
  /-- A first item, or the end of the array. -/
  | firstItem
  /-- A first key, or the end of the object. -/
  | firstKey
  | key
  | colon
  /-- A comma, or the end of the innermost array or object. -/
  | separator
  /-- Nothing: this is the value of the text. -/
  | nothing (v : Value)

/-- A text half read. -/
structure Reading where
  expected : Expected
  stack : List Frame

namespace Reading

def start : Reading := ⟨.value, []⟩

/-- One field more, if the key can be read. -/
def withField (fields : Option (List (String × Value))) (key : Option String) (v : Value) :
    Option (List (String × Value)) := do
  return (← key, v) :: (← fields)

/-- A value is complete and goes where the stack says. -/
def complete (v : Value) : List Frame → Option Reading
  | [] => some ⟨.nothing v, []⟩
  | .array items :: rest => some ⟨.separator, .array (v :: items) :: rest⟩
  | .member fields key :: rest => some ⟨.separator, .object (withField fields key v) :: rest⟩
  | .object _ :: _ => none

/-- A token where a value has to start. -/
def stepValue (stack : List Frame) : Token → Option Reading
  | .beginArray => some ⟨.firstItem, .array [] :: stack⟩
  | .beginObject => some ⟨.firstKey, .object (some []) :: stack⟩
  | .text (some s) => complete (.string s) stack
  | .text none => complete .unreadable stack
  | .scalar v => complete v stack
  | _ => none

/-- A token where a key has to stand. -/
def stepKey : List Frame → Token → Option Reading
  | .object fields :: rest, .text key => some ⟨.colon, .member fields key :: rest⟩
  | _, _ => none

/-- The end of the innermost array or object. -/
def close : List Frame → Token → Option Reading
  | .array items :: rest, .endArray => complete (.array items.reverse) rest
  | .object fields :: rest, .endObject =>
    complete ((fields.map fun fs => Value.object fs.reverse).getD .unreadable) rest
  | _, _ => none

/-- One token more. -/
def step (r : Reading) (t : Token) : Option Reading :=
  match r.expected, t with
  | .value, t => stepValue r.stack t
  | .firstItem, .endArray => close r.stack t
  | .firstItem, t => stepValue r.stack t
  | .firstKey, .endObject => close r.stack t
  | .firstKey, t => stepKey r.stack t
  | .key, t => stepKey r.stack t
  | .colon, .colon => some { r with expected := .value }
  | .colon, _ => none
  | .separator, .comma =>
    match r.stack with
    | .array _ :: _ => some { r with expected := .value }
    | .object _ :: _ => some { r with expected := .key }
    | _ => none
  | .separator, t => close r.stack t
  | .nothing _, _ => none

/-- The value that was read. -/
def finish (r : Reading) : Option Value :=
  match r.expected with
  | .nothing v => some v
  | _ => none

end Reading

/-- The value that a list of tokens is. -/
def Value.ofTokens? (ts : List Token) : Option Value := do
  (← ts.foldlM Reading.step .start).finish

/-- The value that a text is; `none` when the text is malformed. -/
def Value.ofText? (s : String) : Option Value := do
  Value.ofTokens? (← Token.ofText? s)

end Parley.Json
