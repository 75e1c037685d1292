/-
Where new ids come from.

A supply is an endless row of tokens and the number of tokens already drawn.  A
new id is a label, a hyphen and the next token.  The laws of the editor ask of a
supply that its tokens differ and occur in no id yet.  `ofSeed` counts on from a
number that whoever starts the program picks at random.
-/
import Parley.Text

namespace Parley

structure IdSupply where
  token : Nat → String
  used : Nat

namespace IdSupply

/-- The id with the `n`th token. -/
def nth (s : IdSupply) (label : String) (n : Nat) : String := label ++ "-" ++ s.token n

/-- A new id, and the supply without its token. -/
def draw (s : IdSupply) (label : String) : String × IdSupply :=
  (s.nth label s.used, { s with used := s.used + 1 })

/-- Tokens of thirty-two hexadecimal digits that count on from a number. -/
def ofSeed (seed : Nat) : IdSupply := ⟨fun n => Text.hex 32 (seed + n), 0⟩

/-- A new id for each label, in order. -/
def drawAll (s : IdSupply) : List String → List String × IdSupply
  | [] => ([], s)
  | l :: ls =>
    let (id, s) := s.draw l
    let (ids, s) := s.drawAll ls
    (id :: ids, s)

theorem length_drawAll (s : IdSupply) (ls : List String) : (s.drawAll ls).1.length = ls.length := by
  induction ls generalizing s with
  | nil => rfl
  | cons l ls ih => simp [drawAll, ih]

end IdSupply

end Parley
