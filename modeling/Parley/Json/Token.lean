/-
Tokens of JSON text.

`Token.ofText?` cuts a text into tokens: marks, strings, and runs of letters,
digits and signs, which are `null`, `true`, `false` or a numeral.  Only space,
tab, line feed and carriage return may stand between tokens.  The text is taken
one character at a time, so nothing is read twice.

A string may hold any character from U+0020 on except `"` and `\`, and the
escapes of JSON.  Two `\u` escapes that form a surrogate pair are one character;
half of a pair makes the string unreadable, not the text malformed.
-/
import Parley.Json.Value

namespace Parley.Json

inductive Token where
  | beginArray
  | endArray
  | beginObject
  | endObject
  | colon
  | comma
  /-- A string; `none` when it is unreadable. -/
  | text (s : Option String)
  /-- `null`, a truth value or a number. -/
  | scalar (v : Value)

/-- The part of a string read so far: its characters, last first, unless it is
unreadable, and the first half of a surrogate pair that waits for the second. -/
structure Spelling where
  chars : Option (List Char)
  half : Option Nat

namespace Spelling

def empty : Spelling := ⟨some [], none⟩

/-- One character more.  A waiting half stays without its second. -/
def push (s : Spelling) (c : Char) : Spelling :=
  match s.half with
  | none => ⟨s.chars.map (c :: ·), none⟩
  | some _ => ⟨none, none⟩

/-- The character of a surrogate pair. -/
def pair (high low : Nat) : Char :=
  Char.ofNat (0x10000 + (high - 0xD800) * 0x400 + (low - 0xDC00))

/-- One unit of sixteen bits more. -/
def pushUnit (s : Spelling) (u : Nat) : Spelling :=
  let isHigh := 0xD800 ≤ u && u < 0xDC00
  let isLow := 0xDC00 ≤ u && u < 0xE000
  match s.half with
  | none =>
    if isHigh then ⟨s.chars, some u⟩
    else if isLow then ⟨none, none⟩
    else s.push (Char.ofNat u)
  | some high => if isLow then ⟨s.chars.map (pair high u :: ·), none⟩ else ⟨none, none⟩

/-- The text that was spelled. -/
def finish (s : Spelling) : Option String :=
  match s.half with
  | none => s.chars.map fun cs => String.ofList cs.reverse
  | some _ => none

end Spelling

/-- Where in a token the text stands. -/
inductive Place where
  | between
  /-- In a run of letters, digits and signs, given last first. -/
  | run (cs : List Char)
  | string (s : Spelling)
  /-- Behind a backslash. -/
  | escape (s : Spelling)
  /-- In the digits behind `\u`: how many are to come, and the value so far. -/
  | unit (s : Spelling) (left : Nat) (value : Nat)

/-- The character that a short escape stands for. -/
def shortEscape? : Char → Option Char
  | '"' => some '"'
  | '\\' => some '\\'
  | '/' => some '/'
  | 'b' => some '\x08'
  | 'f' => some '\x0c'
  | 'n' => some '\n'
  | 'r' => some '\r'
  | 't' => some '\t'
  | _ => none

/-- The value of a hexadecimal digit. -/
def hexDigit? (c : Char) : Option Nat :=
  if c.isDigit then some (c.toNat - '0'.toNat)
  else if 'a' ≤ c && c ≤ 'f' then some (c.toNat - 'a'.toNat + 10)
  else if 'A' ≤ c && c ≤ 'F' then some (c.toNat - 'A'.toNat + 10)
  else none

/-- Characters of words and numerals. -/
def isRunChar (c : Char) : Bool := c.isAlphanum || c == '-' || c == '+' || c == '.'

/-- The scalar that a run spells. -/
def scalarOfRun? (cs : List Char) : Option Value :=
  if cs == "null".toList then some .null
  else if cs == "true".toList then some (.bool true)
  else if cs == "false".toList then some (.bool false)
  else (Numeral.ofChars? cs).map fun n =>
    match n.toNumber? with
    | some x => .number x
    | none => .unreadable

/-- The mark that a character is. -/
def mark? : Char → Option Token
  | '[' => some .beginArray
  | ']' => some .endArray
  | '{' => some .beginObject
  | '}' => some .endObject
  | ':' => some .colon
  | ',' => some .comma
  | _ => none

/-- A character may stand between tokens. -/
def isSpace (c : Char) : Bool := c == ' ' || c == '\t' || c == '\n' || c == '\r'

/-- A text half cut: where it stands, and its tokens, last first. -/
structure Cutting where
  place : Place
  tokens : List Token

namespace Cutting

def start : Cutting := ⟨.between, []⟩

/-- One character more outside of any token. -/
def stepBetween (tokens : List Token) (c : Char) : Option Cutting :=
  if isSpace c then some ⟨.between, tokens⟩
  else if c == '"' then some ⟨.string .empty, tokens⟩
  else if isRunChar c then some ⟨.run [c], tokens⟩
  else (mark? c).map fun t => ⟨.between, t :: tokens⟩

/-- One character more inside a string. -/
def stepString (tokens : List Token) (s : Spelling) (c : Char) : Option Cutting :=
  if c == '"' then some ⟨.between, .text s.finish :: tokens⟩
  else if c == '\\' then some ⟨.escape s, tokens⟩
  else if c.toNat < 0x20 then none
  else some ⟨.string (s.push c), tokens⟩

/-- One character more. -/
def step (k : Cutting) (c : Char) : Option Cutting :=
  match k.place with
  | .between => stepBetween k.tokens c
  | .run cs =>
    if isRunChar c then some { k with place := .run (c :: cs) }
    else do stepBetween (.scalar (← scalarOfRun? cs.reverse) :: k.tokens) c
  | .string s => stepString k.tokens s c
  | .escape s =>
    if c == 'u' then some { k with place := .unit s 4 0 }
    else (shortEscape? c).map fun e => { k with place := .string (s.push e) }
  | .unit s left value => do
    let value := value * 16 + (← hexDigit? c)
    some { k with place := if left ≤ 1 then .string (s.pushUnit value) else .unit s (left - 1) value }

/-- The tokens of a text at its end. -/
def finish (k : Cutting) : Option (List Token) :=
  match k.place with
  | .between => some k.tokens.reverse
  | .run cs => (scalarOfRun? cs.reverse).map fun v => (Token.scalar v :: k.tokens).reverse
  | _ => none

end Cutting

/-- The tokens of a text; `none` when it is malformed. -/
def Token.ofText? (s : String) : Option (List Token) := do
  (← s.toList.foldlM Cutting.step .start).finish

end Parley.Json
