/-
Doubles and decimals.

A decimal in a text stands for a double (`scaled?`), and a finite double is
written as a decimal (`text`): the shortest digits that read back, laid out by
`standard`.
-/

namespace Parley.Decimal

/-! ## From a decimal to a double

The whole number is rounded to a double first and the result is multiplied by a
power of ten, or divided by one, which rounds a second time.  Most decimals of up
to fifteen digits come out as the nearest double; others may miss it by one unit
in the last place.  A value beyond the greatest double has no double to stand
for it; one below the least is zero. -/

/-- The double nearest to a power of ten. -/
def tenTo (n : Nat) : Float := Float.ofScientific 1 false n

/-- The greatest power of ten among the doubles. -/
def greatestPower : Nat := 308

/-- A double divided by `10^n`, in steps no longer than the greatest power. -/
def shrink (x : Float) (n : Nat) : Float :=
  if n ≤ greatestPower then x / tenTo n
  else if x == 0 then x
  else shrink (x / tenTo greatestPower) (n - greatestPower)
termination_by n
decreasing_by simp only [greatestPower] at *; omega

/-- A double multiplied by `10^n`, unless that leaves the doubles. -/
def grow? (x : Float) (n : Nat) : Option Float :=
  if n ≤ greatestPower then
    let y := x * tenTo n
    if y.isInf then none else some y
  else if x == 0 then some x
  else none

/-- The double that stands for `n * 10^e`. -/
def scaled? (n : Nat) (e : Int) : Option Float :=
  match e with
  | .ofNat k => grow? (Float.ofNat n) k
  | .negSucc k => some (shrink (Float.ofNat n) (k + 1))

/-! ## The shortest decimal that reads back

A positive finite double is `m * 2^q` for whole `m` and `q`.  The reals that
round to it fill an interval around it, whose ends belong to it exactly when `m`
is even.  Of the decimals `d * 10^t` in that interval those with the greatest
`t` have the fewest digits, and of these `shortest` takes the nearest to the
double, the even one when two are equally near.  All arithmetic is on natural
numbers, so there is no rounding in it. -/

/-- A positive number `digits * 10^exponent`. -/
structure Scientific where
  digits : Nat
  exponent : Int
deriving DecidableEq

/-- The rounding interval of a positive double, all four numbers over one
denominator.  `closed` says that the two ends round to the double too. -/
structure Rounding where
  low : Nat
  mid : Nat
  high : Nat
  den : Nat
  closed : Bool
deriving DecidableEq

namespace Rounding

/-- The interval of `mantissa * 2^exponent`.  The gap below a power of two is
half the gap above it, unless the double is among the smallest. -/
def ofParts (mantissa : Nat) (exponent : Int) (narrowBelow : Bool) : Rounding :=
  let up := Nat.pow 2 (exponent - 2).toNat
  { low := (4 * mantissa - (if narrowBelow then 1 else 2)) * up
    mid := 4 * mantissa * up
    high := (4 * mantissa + 2) * up
    den := Nat.pow 2 (2 - exponent).toNat
    closed := mantissa % 2 == 0 }

/-- The same interval measured in units of `10^t`. -/
def inUnits (r : Rounding) (t : Int) : Rounding :=
  let up := Nat.pow 10 (-t).toNat
  { r with low := r.low * up, mid := r.mid * up, high := r.high * up,
           den := r.den * Nat.pow 10 t.toNat }

/-- Whether a whole number lies in the interval. -/
def contains (r : Rounding) (n : Nat) : Bool :=
  let v := n * r.den
  if r.closed then r.low ≤ v && v ≤ r.high else r.low < v && v < r.high

/-- The whole number in the interval that is nearest to its middle, the even
one of two at the same distance. -/
def nearest? (r : Rounding) : Option Nat :=
  let below := r.mid / r.den
  let above := below + 1
  let twice := 2 * r.mid
  let half := (2 * below + 1) * r.den
  match r.contains below, r.contains above with
  | true, true =>
    if twice < half then some below
    else if half < twice then some above
    else some (if below % 2 == 0 then below else above)
  | true, false => some below
  | false, true => some above
  | false, false => none

/-- A power of ten above the middle of the interval. -/
def topExponent (r : Rounding) : Int :=
  ((r.mid.log2 : Int) - (r.den.log2 : Int) + 1) * 30103 / 100000 + 1

/-- The first power of ten, going down from `t`, of which a multiple lies in the
interval. -/
def search (r : Rounding) : Nat → Int → Scientific
  | 0, t => ⟨(r.inUnits t).mid / (r.inUnits t).den, t⟩
  | steps + 1, t =>
    match (r.inUnits t).nearest? with
    | some d => ⟨d, t⟩
    | none => r.search steps (t - 1)

/-- Seventeen digits tell every double from its neighbours, so the search ends
before its steps do. -/
def shortest (r : Rounding) : Scientific := r.search 20 r.topExponent

end Rounding

/-- The fraction bits of a double. -/
def fractionBits (bits : Nat) : Nat := bits % Nat.pow 2 52

/-- The exponent bits of a double. -/
def exponentBits (bits : Nat) : Nat := bits / Nat.pow 2 52 % Nat.pow 2 11

/-- The rounding interval of the double with these bits, its sign left aside. -/
def roundingOfBits (bits : Nat) : Rounding :=
  let fraction := fractionBits bits
  let exponent := exponentBits bits
  if exponent == 0 then .ofParts fraction (-1074) false
  else .ofParts (Nat.pow 2 52 + fraction) ((exponent : Int) - 1075) (fraction == 0 && exponent != 1)

/-- The shortest decimal that reads back as the positive double with these bits. -/
def shortestOfBits (bits : Nat) : Scientific := (roundingOfBits bits).shortest

example : shortestOfBits 0x3FB999999999999A = ⟨1, -1⟩ := by decide +kernel
example : shortestOfBits 0x3FD3333333333334 = ⟨30000000000000004, -17⟩ := by decide +kernel
example : shortestOfBits 1 = ⟨5, -324⟩ := by decide +kernel
example : shortestOfBits 0x7FEFFFFFFFFFFFFF = ⟨17976931348623157, 292⟩ := by decide +kernel

/-- A nearest whole number of an interval lies in it. -/
theorem Rounding.contains_of_nearest? {r : Rounding} {n : Nat} (h : r.nearest? = some n) :
    r.contains n := by
  simp only [Rounding.nearest?] at h
  split at h
  · rename_i hb ha
    split at h
    · cases h; exact hb
    · split at h
      · cases h; exact ha
      · split at h
        · cases h; exact hb
        · cases h; exact ha
  · rename_i hb _; cases h; exact hb
  · rename_i _ ha; cases h; exact ha
  · cases h

/-! ## How a double is written

`Layout` holds the decisions of a format: from which power of ten to which the
digits are written out in place.  In place there is always a point with a digit
behind it; outside, one digit stands before the point, and a lone digit stands
without a point.  The exponent follows an `e` and always has a sign.  The two
zeros are `0.0` and `-0.0`. -/

/-- The least and the greatest exponent of a leading digit that is written in
place. -/
structure Layout where
  least : Int
  greatest : Int

/-- In place from `0.00001` to below `1e16`. -/
def standard : Layout := ⟨-5, 15⟩

/-- A run of zeros. -/
def zeros (n : Nat) : String := String.ofList (List.replicate n '0')

/-- The digits of a positive number, written in place. -/
def Scientific.inPlace (s : Scientific) : String :=
  let ds := (toString s.digits).toList
  let point := (ds.length : Int) + s.exponent
  if 0 ≤ s.exponent then String.ofList ds ++ zeros s.exponent.toNat ++ ".0"
  else if 0 < point then
    String.ofList (ds.take point.toNat) ++ "." ++ String.ofList (ds.drop point.toNat)
  else "0." ++ zeros (-point).toNat ++ String.ofList ds

/-- An exponent with its sign. -/
def signed (e : Int) : String := if 0 ≤ e then "+" ++ toString e else toString e

/-- The digits of a positive number with an exponent behind them. -/
def Scientific.withExponent (s : Scientific) : String :=
  let ds := (toString s.digits).toList
  let lead := (ds.length : Int) + s.exponent - 1
  let tail := ds.drop 1
  String.ofList (ds.take 1) ++ (if tail.isEmpty then "" else "." ++ String.ofList tail) ++
    "e" ++ signed lead

/-- A positive number as a layout has it. -/
def Layout.render (l : Layout) (s : Scientific) : String :=
  let lead := ((toString s.digits).length : Int) + s.exponent - 1
  if l.least ≤ lead ∧ lead ≤ l.greatest then s.inPlace else s.withExponent

/-- A finite double as text. -/
def text (x : Float) : String :=
  let bits := x.toBits.toNat
  let size := bits % Nat.pow 2 63
  let sign := if bits < Nat.pow 2 63 then "" else "-"
  if size == 0 then sign ++ "0.0" else sign ++ standard.render (shortestOfBits size)

end Parley.Decimal
