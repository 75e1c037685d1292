/-
Values as JSON text.

`compact` writes no blanks at all; `indented` gives every item and every field a
line of its own, two spaces deeper than what holds it, and a space behind every
colon.  Empty arrays and objects stay on one line in both.

A string escapes the quote, the backslash and the characters below U+0020, the
usual five of them in short form; all others stand for themselves.
-/
import Parley.Json.Value
import Parley.Decimal
import Parley.Text

namespace Parley.Json

/-- A character as it stands in a string. -/
def escaped (c : Char) : String :=
  match c with
  | '"' => "\\\""
  | '\\' => "\\\\"
  | '\x08' => "\\b"
  | '\t' => "\\t"
  | '\n' => "\\n"
  | '\x0c' => "\\f"
  | '\r' => "\\r"
  | c => if c.toNat < 0x20 then "\\u" ++ Text.hex 4 c.toNat else c.toString

/-- A text between quotes. -/
def quoted (s : String) : String :=
  s.toList.foldl (fun out c => out ++ escaped c) "\"" ++ "\""

/-- A number as text. -/
def Number.text : Number → String
  | .integer n => toString n
  | .real x => Decimal.text x

/-- What stands before an item at some depth, and between a key and its value. -/
structure Style where
  lineBreak : Nat → String
  colon : String

/-- No blanks. -/
def Style.compact : Style := ⟨fun _ => "", ":"⟩

/-- A line for each item, two spaces of indentation for each level. -/
def Style.indented : Style := ⟨fun depth => "\n" ++ String.ofList (List.replicate (2 * depth) ' '), ": "⟩

mutual

/-- A value at some depth, behind the text written so far. -/
def Value.write (style : Style) (depth : Nat) (out : String) : Value → String
  | .null => out ++ "null"
  | .bool b => out ++ (if b then "true" else "false")
  | .number n => out ++ n.text
  | .string s => out ++ quoted s
  | .array [] => out ++ "[]"
  | .array (v :: vs) =>
    let out := v.write style (depth + 1) (out ++ "[" ++ style.lineBreak (depth + 1))
    writeItems style (depth + 1) out vs ++ style.lineBreak depth ++ "]"
  | .object [] => out ++ "\x7b\x7d"
  | .object ((key, v) :: fs) =>
    let out := out ++ "\x7b" ++ style.lineBreak (depth + 1) ++ quoted key ++ style.colon
    let out := v.write style (depth + 1) out
    writeFields style (depth + 1) out fs ++ style.lineBreak depth ++ "\x7d"
  | .unreadable => out ++ "null"

/-- The items of an array behind its first. -/
def writeItems (style : Style) (depth : Nat) (out : String) : List Value → String
  | [] => out
  | v :: vs => writeItems style depth (v.write style depth (out ++ "," ++ style.lineBreak depth)) vs

/-- The fields of an object behind its first. -/
def writeFields (style : Style) (depth : Nat) (out : String) : List (String × Value) → String
  | [] => out
  | (key, v) :: fs =>
    let out := out ++ "," ++ style.lineBreak depth ++ quoted key ++ style.colon
    writeFields style depth (v.write style depth out) fs

end

/-- A value on one line, without blanks. -/
def Value.compact (v : Value) : String := v.write .compact 0 ""

/-- A value over several lines. -/
def Value.indented (v : Value) : String := v.write .indented 0 ""

end Parley.Json
