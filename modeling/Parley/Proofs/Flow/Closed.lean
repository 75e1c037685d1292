/-
# The flow of a graph is closed

A step of a flow names the blocks it can lead to: those are its *exits*.  In the
flow of a graph every exit has a step of its own, whatever the graph looks like:

    (ofGraph g).step? id = some step  →  t ∈ step.exits  →  ((ofGraph g).step? t).isSome

Repeated ids and dangling connections do no harm.  The steps are kept under the
ids of the blocks, one for each id (`isSome_step?_ofGraph`), and a way on is kept
only where it leads to a block (`wayOn`), so both sides speak of `hasBlock`.
-/
import Parley.Flow
import Parley.Proofs.Table

namespace Parley.Flow

/-! ## Exits -/

/-- The blocks that a stop can lead to. -/
def Stop.exits : Stop → List String
  | .say _ next | .ask _ _ next => next.toList
  | .farewell _ => []
  | .choose _ _ branches => branches.filterMap (·.next)

/-- The blocks that a step can lead to. -/
def Step.exits : Step → List String
  | .capture _ next => next.toList
  | .halt stop => stop.exits

/-- Every exit of a step has a step. -/
def Closed (f : Flow) : Prop :=
  ∀ id step, f.step? id = some step → ∀ t ∈ step.exits, (f.step? t).isSome

/-! ## The steps of a graph

The steps are kept under the ids of blocks, and an id may come twice: then the last block
gives the step.  But whether there is a step, and whether a way leads on, are both questions
about `hasBlock`, and that does not depend on which of the blocks it is. -/

variable {g : Graph} {id : String}

theorem step?_ofGraph (g : Graph) (id : String) :
    (ofGraph g).step? id = (g.blocks.reverse.find? (·.id == id)).map (stepAt g) := by
  show (Table.ofList _).get? id = _
  rw [Table.get?_ofList, ← List.map_reverse, List.find?_map, Option.map_map]
  rfl

theorem exists_block_of_step? {step : Step} (h : (ofGraph g).step? id = some step) :
    ∃ b ∈ g.blocks, b.id = id ∧ stepAt g b = step := by
  rw [step?_ofGraph, Option.map_eq_some_iff] at h
  obtain ⟨b, hfind, hstep⟩ := h
  have hid : b.id = id := by simpa using List.find?_some hfind
  exact ⟨b, List.mem_reverse.mp (List.mem_of_find?_eq_some hfind), hid, hstep⟩

/-- The flow has a step for exactly the blocks of the graph. -/
theorem isSome_step?_ofGraph (g : Graph) (id : String) :
    ((ofGraph g).step? id).isSome ↔ g.hasBlock id := by
  rw [step?_ofGraph, Option.isSome_map, List.find?_isSome]
  simp [Graph.hasBlock]

theorem hasBlock_of_wayOn {source : Endpoint} {t : String} (h : t ∈ wayOn g source) :
    g.hasBlock t :=
  (Option.mem_filter_iff.mp h).2

theorem hasBlock_of_mem_exits {b : Block} {t : String} (h : t ∈ (stepAt g b).exits) :
    g.hasBlock t := by
  obtain ⟨bid, place, content⟩ := b
  cases content with
  | welcome | message | question | field =>
      exact hasBlock_of_wayOn (Option.mem_toList.mp h)
  | goodbye => cases h
  | buttons m binds choices =>
      obtain ⟨branch, hbranch, hnext⟩ := List.mem_filterMap.mp h
      obtain ⟨c, -, rfl⟩ := List.mem_map.mp hbranch
      exact hasBlock_of_wayOn hnext

/-- **Every exit of the flow of a graph has a step.** -/
theorem closed_ofGraph (g : Graph) : (ofGraph g).Closed := by
  intro id step h t ht
  obtain ⟨b, -, -, rfl⟩ := exists_block_of_step? h
  exact (isSome_step?_ofGraph g t).mpr (hasBlock_of_mem_exits ht)

end Parley.Flow
