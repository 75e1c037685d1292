/-
The selected blocks.

A selection is a list of ids in the order they were selected.  Toggling takes
out one occurrence of an id or adds it at the end; a list put in its place is
taken as it is.
-/
import Parley.Graph.Basic

namespace Parley

structure Selection where
  ids : List String
deriving DecidableEq

namespace Selection

def none : Selection := ⟨[]⟩

def size (s : Selection) : Nat := s.ids.length

def isEmpty (s : Selection) : Bool := s.ids.isEmpty

def contains (s : Selection) (id : String) : Bool := s.ids.contains id

/-- In or out. -/
def toggle (s : Selection) (id : String) : Selection :=
  if s.contains id then ⟨s.ids.erase id⟩ else ⟨s.ids ++ [id]⟩

/-- The selected blocks that a graph still has. -/
def existing (s : Selection) (g : Graph) : Selection := ⟨s.ids.filter g.hasBlock⟩

/-- Toggling an id that is in once, or not at all, changes whether it is in. -/
theorem mem_toggle {s : Selection} (h : s.ids.Nodup) (id id' : String) :
    id' ∈ (s.toggle id).ids ↔ (id' ∈ s.ids ↔ id' ≠ id) := by
  unfold toggle contains
  by_cases hs : id ∈ s.ids
  · simp only [List.contains_iff_mem.2 hs, if_true, h.mem_erase_iff]
    by_cases e : id' = id
    · subst e; simp [hs]
    · simp [e]
  · have hc : s.ids.contains id = false := by simpa using hs
    simp only [hc, Bool.false_eq_true, if_false, List.mem_append, List.mem_singleton]
    by_cases e : id' = id
    · subst e; simp [hs]
    · simp [e]

end Selection

end Parley
