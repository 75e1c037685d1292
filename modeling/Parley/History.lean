/-
Undo and redo.

A history is a row of entries with one of them current.  The first entry is the
one it started from and stays the first.  A commit drops what comes after the
current entry and puts the new entry there, so there is one line of entries and
no tree.

`entries_commit`, `undo?_eq_some` and `redo?_eq_some` say what the operations
do to entries and index.
-/
import Parley.Graph.Basic

namespace Parley

structure History where
  entries : List Graph
  index : Nat
  index_lt : index < entries.length

namespace History

/-- A history of one entry. -/
def start (g : Graph) : History := ⟨[g], 0, by simp⟩

/-- The history that editing starts with. -/
def seed : History := start .seed

def size (h : History) : Nat := h.entries.length

def current (h : History) : Graph := h.entries.get ⟨h.index, h.index_lt⟩

/-- The entries up to the current one. -/
def kept (h : History) : List Graph := h.entries.take (h.index + 1)

theorem length_kept (h : History) : h.kept.length = h.index + 1 := by
  have := h.index_lt
  simp only [kept, List.length_take]
  omega

/-- A new entry behind the current one, in place of all that came there. -/
def commit (h : History) (g : Graph) : History :=
  ⟨h.kept ++ [g], h.index + 1, by simp [length_kept]⟩

def canUndo (h : History) : Bool := 0 < h.index

def canRedo (h : History) : Bool := h.index + 1 < h.entries.length

/-- One entry back, unless this is the first. -/
def undo? (h : History) : Option History :=
  if 0 < h.index then
    some ⟨h.entries, h.index - 1, Nat.lt_of_le_of_lt (Nat.sub_le ..) h.index_lt⟩
  else none

/-- One entry on, unless this is the last. -/
def redo? (h : History) : Option History :=
  if lt : h.index + 1 < h.entries.length then some ⟨h.entries, h.index + 1, lt⟩ else none

theorem entries_commit (h : History) (g : Graph) :
    (h.commit g).entries = h.entries.take (h.index + 1) ++ [g] := rfl

@[simp]
theorem index_commit (h : History) (g : Graph) : (h.commit g).index = h.index + 1 := rfl

@[simp]
theorem current_commit (h : History) (g : Graph) : (h.commit g).current = g := by
  simp [current, commit, ← length_kept h]

theorem undo?_eq_some {h h' : History} (e : h.undo? = some h') :
    h'.entries = h.entries ∧ h'.index + 1 = h.index := by
  unfold undo? at e
  split at e
  · cases e; exact ⟨rfl, by simp only; omega⟩
  · cases e

theorem redo?_eq_some {h h' : History} (e : h.redo? = some h') :
    h'.entries = h.entries ∧ h'.index = h.index + 1 := by
  unfold redo? at e
  split at e
  · cases e; exact ⟨rfl, rfl⟩
  · cases e

/-- A step back is possible exactly where `canUndo` says so. -/
theorem isSome_undo? (h : History) : h.undo?.isSome = h.canUndo := by
  unfold undo? canUndo
  split <;> simp_all

theorem isSome_redo? (h : History) : h.redo?.isSome = h.canRedo := by
  unfold redo? canRedo
  split <;> simp_all

end History

end Parley
