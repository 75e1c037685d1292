/-
JSON values.

Objects keep their fields in the order they were written, repeated keys
included.  `unreadable` stands for well-formed text that denotes no value: a
string with half of a surrogate pair, a numeral beyond the greatest double, or
an object with a key of that kind.  Whoever needs the value refuses it; whoever
skips it need not care.

A record is an object with certain keys, each exactly once, and any others; or,
where that is allowed, an array of exactly its fields in order.
-/
import Parley.Json.Numeral

namespace Parley.Json

inductive Value where
  | null
  | bool (b : Bool)
  | number (n : Number)
  | string (s : String)
  | array (items : List Value)
  | object (fields : List (String × Value))
  | unreadable

namespace Value

mutual

/-- Whether a value is readable throughout, with arrays and objects nested no
deeper than `depth`. -/
def readable (depth : Nat) : Value → Bool
  | .unreadable => false
  | .array items => match depth with
    | 0 => false
    | depth + 1 => readableItems depth items
  | .object fields => match depth with
    | 0 => false
    | depth + 1 => readableFields depth fields
  | _ => true

/-- `readable`, of all items of an array. -/
def readableItems (depth : Nat) : List Value → Bool
  | [] => true
  | v :: vs => readable depth v && readableItems depth vs

/-- `readable`, of the values of all fields. -/
def readableFields (depth : Nat) : List (String × Value) → Bool
  | [] => true
  | (_, v) :: fs => readable depth v && readableFields depth fs

end

/-- A double as a value: numbers that are infinite or none at all are `null`. -/
def ofFloat (x : Float) : Value := if x.isFinite then .number (.real x) else .null

/-- The items of an array. -/
def items? : Value → Option (List Value)
  | .array items => some items
  | _ => none

/-- The fields of an object. -/
def fields? : Value → Option (List (String × Value))
  | .object fields => some fields
  | _ => none

/-- The text of a string. -/
def string? : Value → Option String
  | .string s => some s
  | _ => none

/-- The double nearest to a number. -/
def float? : Value → Option Float
  | .number n => some n.toFloat
  | _ => none

/-- `null` is an absent value; anything else must be read. -/
def nullable (read : Value → Option α) : Value → Option (Option α)
  | .null => some none
  | v => (read v).map some

end Value

/-- The value under a key: of several, the last. -/
def lastField? (fields : List (String × Value)) (key : String) : Option Value :=
  (fields.reverse.find? (·.1 == key)).map (·.2)

/-! ## Records -/

/-- The value under a key that an object has exactly once. -/
def soleField? (fields : List (String × Value)) (key : String) : Option Value :=
  match fields.filter (·.1 == key) with
  | [(_, v)] => some v
  | _ => none

/-- The value under a key that an object has at most once. -/
def optionalField? (fields : List (String × Value)) (key : String) : Option (Option Value) :=
  match fields.filter (·.1 == key) with
  | [] => some none
  | [(_, v)] => some (some v)
  | _ => none

/-- The values of a record under its keys, in order. -/
def record? (keys : List String) : Value → Option (List Value)
  | .object fields => keys.mapM (soleField? fields)
  | .array items => if items.length = keys.length then some items else none
  | _ => none

end Parley.Json
