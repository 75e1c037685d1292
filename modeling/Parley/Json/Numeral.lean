/-
Numerals of JSON text and the numbers they denote.

A numeral is an optional `-`, digits without a superfluous leading zero, an
optional fraction and an optional exponent.  A numeral without fraction and
exponent that fits in sixty-four bits denotes that integer, except `-0`, which
denotes the negative zero; every other numeral denotes a double.

The digits of a double are gathered into a significand below 2^64.  A digit of
the whole part that would not fit raises the exponent instead, and so do all
after it; a digit of the fraction that would not fit is dropped with all after
it.  A value beyond the greatest double is denoted by no numeral.
-/
import Parley.Decimal

namespace Parley.Json

/-- The number a numeral denotes. -/
inductive Number where
  | integer (n : Int)
  | real (x : Float)

/-- The double nearest to a number. -/
def Number.toFloat : Number → Float
  | .integer n => Float.ofInt n
  | .real x => x

/-- The parts of a numeral; digits stand with the most significant first. -/
structure Numeral where
  negative : Bool
  whole : List Nat
  fraction : List Nat
  /-- Whether the exponent is negative, and its digits. -/
  exponent : Option (Bool × List Nat)
  /-- Whether there is neither a fraction nor an exponent. -/
  plain : Bool

/-- The digits that a list of characters starts with, and what follows them. -/
def digits (cs : List Char) : List Nat × List Char :=
  ((cs.takeWhile Char.isDigit).map fun c => c.toNat - '0'.toNat, cs.dropWhile Char.isDigit)

namespace Numeral

/-- Whether digits make a whole part: at least one, and no zero before others. -/
def wholePart : List Nat → Bool
  | [] => false
  | [_] => true
  | d :: _ => d != 0

/-- The exponent after an `e` or `E`: an optional sign and at least one digit,
with nothing behind them. -/
def exponentPart? (cs : List Char) : Option (Bool × List Nat) :=
  let (negative, cs) := match cs with
    | '-' :: cs => (true, cs)
    | '+' :: cs => (false, cs)
    | cs => (false, cs)
  match digits cs with
  | ([], _) => none
  | (ds, []) => some (negative, ds)
  | _ => none

/-- The fraction after a point, at least one digit, and what follows it; no
digits when there is no point. -/
def fractionPart? : List Char → Option (List Nat × List Char)
  | '.' :: cs => match digits cs with
    | ([], _) => none
    | found => some found
  | cs => some ([], cs)

/-- The numeral that a list of characters is. -/
def ofChars? (cs : List Char) : Option Numeral := do
  let (negative, cs) := match cs with
    | '-' :: cs => (true, cs)
    | cs => (false, cs)
  let (whole, cs) := digits cs
  guard (wholePart whole)
  let (fraction, cs) ← fractionPart? cs
  match cs with
  | [] => some ⟨negative, whole, fraction, none, fraction.isEmpty⟩
  | c :: cs =>
    guard (c == 'e' || c == 'E')
    let exponent ← exponentPart? cs
    some ⟨negative, whole, fraction, some exponent, false⟩

/-- Where significands end. -/
def limit : Nat := Nat.pow 2 64

/-- The significand of a whole part, and how many of its digits did not fit. -/
def gatherWhole (ds : List Nat) : Nat × Nat :=
  ds.foldl (fun (n, dropped) d =>
    if dropped == 0 && n * 10 + d < limit then (n * 10 + d, 0) else (n, dropped + 1)) (0, 0)

/-- A significand with the digits of a fraction behind it, as many as fit, and
how many those are. -/
def gatherFraction : List Nat → Nat → Nat × Nat
  | [], n => (n, 0)
  | d :: ds, n =>
    if n * 10 + d < limit then
      let (m, taken) := gatherFraction ds (n * 10 + d)
      (m, taken + 1)
    else (n, 0)

/-- Exponents from here on count as without bound. -/
def exponentLimit : Nat := Nat.pow 2 31

/-- The double of a significand, a power of ten and a written exponent. -/
def magnitude? (significand : Nat) (power : Int) : Option (Bool × List Nat) → Option Float
  | none => Decimal.scaled? significand power
  | some (negative, ds) =>
    let e := ds.foldl (fun n d => n * 10 + d) 0
    if e < exponentLimit then
      Decimal.scaled? significand (if negative then power - e else power + e)
    else if negative || significand == 0 then some 0
    else none

/-- The double a numeral denotes. -/
def toFloat? (n : Numeral) : Option Float :=
  let (w, dropped) := gatherWhole n.whole
  let (s, taken) := gatherFraction n.fraction w
  (magnitude? s ((dropped : Int) - taken) n.exponent).map fun x => if n.negative then -x else x

/-- The integer a numeral denotes, if it denotes one. -/
def toInt? (n : Numeral) : Option Int :=
  match n.plain, gatherWhole n.whole with
  | true, (w, 0) =>
    if n.negative then (if 0 < w ∧ w ≤ Nat.pow 2 63 then some (-(w : Int)) else none) else some w
  | _, _ => none

/-- The number a numeral denotes; `none` beyond the greatest double. -/
def toNumber? (n : Numeral) : Option Number :=
  match n.toInt? with
  | some i => some (.integer i)
  | none => n.toFloat?.map .real

end Numeral

end Parley.Json
