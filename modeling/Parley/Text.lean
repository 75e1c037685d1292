/-
Characters and texts.

What the rest needs to know of texts and the core library does not say: which
characters are blank, when two texts are the same but for the case of ASCII
letters, how a number is written in hexadecimal digits, and which texts denote a
number of sixty-four bits.
-/

namespace Parley.Text

/-! ## Blanks

`isBlank` is the Unicode property `White_Space`: twenty-five characters, among
them the no-break and ideographic spaces.  Zero-width characters and the
information separators U+001C to U+001F are not blank.  `trim` drops blanks at
both ends.  `isBlank_of_isWhitespace` says that every character the core
library calls white is blank here too. -/

/-- The Unicode property `White_Space`. -/
def isBlank (c : Char) : Bool :=
  let n := c.toNat
  (0x09 ≤ n && n ≤ 0x0D) || n == 0x20 || n == 0x85 || n == 0xA0 || n == 0x1680 ||
    (0x2000 ≤ n && n ≤ 0x200A) || n == 0x2028 || n == 0x2029 || n == 0x202F ||
    n == 0x205F || n == 0x3000

/-- A list of characters without the blanks at its end. -/
def dropBlankEnd (cs : List Char) : List Char :=
  (cs.reverse.dropWhile isBlank).reverse

/-- A text without the blanks at its two ends. -/
def trim (s : String) : String :=
  String.ofList (dropBlankEnd (s.toList.dropWhile isBlank))

example : trim " \u00A0Ada\u3000\t" = "Ada" := by decide +kernel
example : trim "\u200BAda\u001C" = "\u200BAda\u001C" := by decide +kernel

/-- What the core library takes for white space is blank. -/
theorem isBlank_of_isWhitespace {c : Char} (h : c.isWhitespace) : isBlank c := by
  simp only [Char.isWhitespace, Bool.or_eq_true, decide_eq_true_eq] at h
  rcases h with ((h | h) | h) | h <;> subst h <;> decide

/-! ## The case of letters

Only `A` to `Z` and `a` to `z` are folded; every other character stands for
itself, so the Kelvin sign is no `k` and `É` is no `é`. -/

/-- A text with its ASCII capitals made small. -/
def foldAscii (s : String) : String :=
  String.ofList (s.toList.map Char.toLower)

/-- Equality up to the case of ASCII letters. -/
def sameFolded (s t : String) : Bool := foldAscii s == foldAscii t

example : sameFolded "QuestioN" "question" = true := by decide +kernel
example : sameFolded "É" "é" = false := by decide +kernel

theorem sameFolded_refl (s : String) : sameFolded s s = true := by
  simp [sameFolded]

theorem sameFolded_comm (s t : String) : sameFolded s t = sameFolded t s := by
  simp [sameFolded, Bool.beq_comm]

/-! ## Hexadecimal digits -/

/-- A hexadecimal digit, small letters above nine. -/
def hexChar (n : Nat) : Char := Char.ofNat (if n < 10 then 48 + n else 87 + n)

/-- The last digits of a number, `width` of them, least significant first. -/
def hexReversed : Nat → Nat → List Char
  | 0, _ => []
  | width + 1, n => hexChar (n % 16) :: hexReversed width (n / 16)

/-- The last digits of a number, `width` of them. -/
def hex (width n : Nat) : String := String.ofList (hexReversed width n).reverse

example : hex 4 0xBEEF5 = "eef5" := by decide +kernel
example : hex 3 10 = "00a" := by decide +kernel

theorem length_hexReversed (width n : Nat) : (hexReversed width n).length = width := by
  induction width generalizing n with
  | zero => rfl
  | succ width ih => simp [hexReversed, ih]

/-! ## Numbers of sixty-four bits

A text denotes one when it is at least one ASCII digit, after one optional `+`,
and the value is below 2^64.  Nothing else is allowed: no blanks, no `-`, no
digit separators.  Leading zeros count for nothing. -/

/-- The value of a list of characters read as decimal digits, most significant
first; `none` when one of them is no digit. -/
def digitsValue? (cs : List Char) : Option Nat :=
  cs.foldl (fun acc c => acc.bind fun n =>
    if c.isDigit then some (n * 10 + (c.toNat - '0'.toNat)) else none) (some 0)

/-- The digits of a number: what follows one optional `+`. -/
def withoutPlus : List Char → List Char
  | '+' :: cs => cs
  | cs => cs

/-- The first number that sixty-four bits cannot hold. -/
def unsignedLimit : Nat := Nat.pow 2 64

/-- The number below 2^64 that a text denotes. -/
def unsigned? (s : String) : Option Nat :=
  match withoutPlus s.toList with
  | [] => none
  | cs => (digitsValue? cs).filter (· < unsignedLimit)

example : unsigned? "+007" = some 7 := by decide +kernel
example : unsigned? "++7" = none := by decide +kernel
example : unsigned? "18446744073709551615" = some (unsignedLimit - 1) := by decide +kernel
example : unsigned? "18446744073709551616" = none := by decide +kernel

/-- A number that was read fits in sixty-four bits. -/
theorem unsigned?_lt {s : String} {n : Nat} (h : unsigned? s = some n) : n < unsignedLimit := by
  unfold unsigned? at h
  split at h
  · cases h
  · simpa using (Option.filter_eq_some_iff.1 h).2

end Parley.Text
