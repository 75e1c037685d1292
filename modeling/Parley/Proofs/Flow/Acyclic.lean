/-
# Flows without circles

A step *leads* to its exits, and a flow is *acyclic* if no block leads back to itself, however
far round:

    f.Acyclic   =   ∀ id, ¬ TransGen f.Leads id id

A path of an acyclic flow meets no block twice (`Acyclic.nodup`), and so it is no longer than
the flow (`Acyclic.length_le_size`).  That a given flow is acyclic is seen from a numbering of
its blocks by which every step leads on to greater numbers (`acyclic_of_rank`).
-/
import Mathlib.Data.List.Chain
import Mathlib.Data.List.Perm.Subperm
import Mathlib.Logic.Relation
import Parley.Proofs.Flow.Closed

namespace Parley.Flow

/-- The step of one block can lead to the other. -/
def Leads (f : Flow) (id next : String) : Prop := ∃ step, f.step? id = some step ∧ next ∈ step.exits

/-- No block leads back to itself. -/
def Acyclic (f : Flow) : Prop := ∀ id, ¬ Relation.TransGen f.Leads id id

variable {f : Flow} {path : List String}

theorem Acyclic.nodup (h : f.Acyclic) (hpath : path.IsChain f.Leads) : path.Nodup := by
  have hfar : path.Pairwise (Relation.TransGen f.Leads) :=
    (hpath.imp fun _ _ => Relation.TransGen.single).pairwise
  refine hfar.imp ?_
  rintro id _ hback rfl
  exact h id hback

/-- A path of an acyclic flow has no more blocks than the flow. -/
theorem Acyclic.length_le_size (h : f.Acyclic) (hpath : path.IsChain f.Leads)
    (hknown : ∀ id ∈ path, id ∈ f.steps.keys) : path.length ≤ f.size := by
  have hkeys : f.steps.keys.length = f.size := List.length_map _
  rw [← hkeys]
  exact (List.subperm_of_subset (h.nodup hpath) hknown).length_le

/-- Numbers that rise with every step never come back. -/
theorem acyclic_of_rank (rank : String → Nat)
    (hrises : ∀ entry ∈ f.steps.entries, ∀ next ∈ entry.2.exits, rank entry.1 < rank next) :
    f.Acyclic := by
  have hleads : ∀ {id next : String}, f.Leads id next → rank id < rank next := by
    rintro id next ⟨step, hstep, hnext⟩
    obtain ⟨entry, hfind, rfl⟩ := Option.map_eq_some_iff.mp hstep
    have hid : entry.1 = id := by simpa using List.find?_some hfind
    exact hid ▸ hrises entry (List.mem_of_find?_eq_some hfind) next hnext
  have hfar : ∀ {id next : String}, Relation.TransGen f.Leads id next → rank id < rank next := by
    intro id next h
    induction h with
    | single hnext => exact hleads hnext
    | tail _ hnext ih => exact Nat.lt_trans ih (hleads hnext)
  intro id hback
  exact Nat.lt_irrefl _ (hfar hback)

end Parley.Flow
