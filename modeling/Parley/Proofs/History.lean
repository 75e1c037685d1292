/-
# Entries of a history

A history is its entries and its index (`eq_of_entries`), and what is current
depends on nothing else.  A commit touches only what comes after the current
entry, so going back from it finds that entry again (`current_of_undo?_commit`).

Where all entries are related to the ones behind them, a step back or on leads
from an entry to a related one, and a commit has to relate one pair only, the
current entry and the new one.
-/
import Mathlib.Data.List.Chain
import Parley.History

namespace Parley.History

variable {h h' : History}

theorem eq_of_entries (hentries : h.entries = h'.entries) (hindex : h.index = h'.index) :
    h = h' := by
  cases h
  cases h'
  cases hentries
  cases hindex
  rfl

theorem getElem?_index (h : History) : h.entries[h.index]? = some h.current :=
  List.getElem?_eq_getElem h.index_lt

/-- A commit keeps entries and adds one. -/
theorem forall_entries_commit {P : Graph → Prop} {g : Graph} (hentries : ∀ g ∈ h.entries, P g)
    (hg : P g) : ∀ g' ∈ (h.commit g).entries, P g' := by
  intro g' hg'
  rcases List.mem_append.mp hg' with hkept | hnew
  · exact hentries g' (List.mem_of_mem_take hkept)
  · rw [List.mem_singleton.mp hnew]
    exact hg

theorem current_of_undo? (hback : h.undo? = some h') :
    h.entries[h.index - 1]? = some h'.current := by
  obtain ⟨hentries, hindex⟩ := undo?_eq_some hback
  rw [← hentries, ← hindex, Nat.add_sub_cancel]
  exact h'.getElem?_index

/-- A step back from a commit undoes the commit and nothing else. -/
theorem current_of_undo?_commit {g : Graph} (hback : (h.commit g).undo? = some h') :
    h'.current = h.current := by
  have hcurrent := current_of_undo? hback
  have hlt : h.index < (h.entries.take (h.index + 1)).length := by
    show h.index < h.kept.length
    rw [length_kept]
    exact Nat.lt_succ_self _
  rw [index_commit, Nat.add_sub_cancel, entries_commit, List.getElem?_append_left hlt,
    List.getElem?_take_of_lt (Nat.lt_succ_self _), getElem?_index] at hcurrent
  exact (Option.some.inj hcurrent).symm

theorem exists_undo? (hpos : 0 < h.index) : ∃ h', h.undo? = some h' := by
  rw [← Option.isSome_iff_exists, isSome_undo?]
  exact decide_eq_true hpos

theorem exists_redo? (hlt : h.index + 1 < h.entries.length) : ∃ h', h.redo? = some h' := by
  rw [← Option.isSome_iff_exists, isSome_redo?]
  exact decide_eq_true hlt

/-! ## Neighbours

A relation between neighbours is kept by steps back and on, since they change no entry.  A
commit drops what was ahead and puts one entry behind the current one, so it is kept if that
pair is related. -/

section Neighbours

variable {R : Graph → Graph → Prop}

theorem getLast?_kept (h : History) : h.kept.getLast? = some h.current := by
  rw [List.getLast?_eq_getElem?, length_kept, Nat.add_sub_cancel, kept,
    List.getElem?_take_of_lt (Nat.lt_succ_self _), getElem?_index]

/-- After a commit the current entry and the new one are neighbours, and the others were. -/
theorem isChain_commit_iff {g : Graph} :
    (h.commit g).entries.IsChain R ↔ h.kept.IsChain R ∧ R h.current g := by
  have hlast := h.getLast?_kept
  show List.IsChain R (h.kept ++ [g]) ↔ _
  rw [List.isChain_append]
  simp [hlast]

theorem rel_of_undo? (hentries : h.entries.IsChain R) (hback : h.undo? = some h') :
    R h'.current h.current := by
  obtain ⟨hsame, hindex⟩ := undo?_eq_some hback
  have hlt : h'.index + 1 < h.entries.length := by
    rw [hindex]
    exact h.index_lt
  have hpair := List.isChain_iff_getElem.mp hentries h'.index hlt
  have hbefore : h.entries[h'.index] = h'.current := by simp [History.current, ← hsame]
  have hhere : h.entries[h'.index + 1] = h.current := by simp [History.current, ← hindex]
  rw [hbefore, hhere] at hpair
  exact hpair

theorem rel_of_redo? (hentries : h.entries.IsChain R) (hon : h.redo? = some h') :
    R h.current h'.current := by
  obtain ⟨hsame, hindex⟩ := redo?_eq_some hon
  have hlt : h.index + 1 < h.entries.length := by
    rw [← hindex, ← hsame]
    exact h'.index_lt
  have hpair := List.isChain_iff_getElem.mp hentries h.index hlt
  have hbehind : h.entries[h.index + 1] = h'.current := by
    simp [History.current, ← hsame, ← hindex]
  rw [hbehind] at hpair
  exact hpair

end Neighbours

end Parley.History
