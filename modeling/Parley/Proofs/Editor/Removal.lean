/-
# Removals in an editor

For the graph there is nothing special about the removal of the selection: it is the
removal of the blocks selected (`graph_confirmRemoval`), as removing one block is that of
one.  That the selection is forgotten in between, once blocks are gone, has no part in it.
So all that holds of removals in a graph holds here, and first of all that their order
does not matter.
-/
import Parley.Proofs.Editor.Step
import Parley.Proofs.Graph.Removal

namespace Parley.Editor

open Parley.Graph

/-- One removal for each of the ids. -/
def removals (ids : List String) : List Command := ids.map fun id => .change (.erase [id])

theorem erased_of_erase? {g g' : Graph} {ids : List String} (h : g.erase? ids = some g') :
    g.erased ids = g' := by
  rw [erased, h, Option.getD_some]

theorem erased_of_refused {g : Graph} {ids : List String} (h : g.erase? ids = none) :
    g.erased ids = g := by
  rw [erased, h, Option.getD_none]

theorem graph_erase (e : Editor) (ids : List String) :
    (e.perform (.change (.erase ids))).1.graph = e.graph.erased ids := by
  show (e.change (.erase ids)).1.graph = _
  cases hg : e.graph.erase? ids with
  | none => rw [change_eq_of_refused (Graph.perform?_erase_of_refused hg), erased_of_refused hg]
  | some g =>
      rw [change_eq_of_perform? (Graph.perform?_erase hg), erased_of_erase? hg]
      exact congrArg Core.graph (core_carriedOut e (.erase ids) _)

theorem graph_removals (ids : List String) (e : Editor) :
    (e.performAll (removals ids)).graph = e.graph.erasedEach ids := by
  induction ids generalizing e with
  | nil => rfl
  | cons id ids ih =>
      show ((e.perform (.change (.erase [id]))).1.performAll (removals ids)).graph = _
      rw [ih, graph_erase]
      rfl

/-- The removal of the selection removes what is selected, and nothing if nothing is. -/
theorem graph_confirmRemoval (e : Editor) :
    e.confirmRemoval.1.graph = e.graph.erased e.selection.ids := by
  have h := performed_confirmRemoval e
  generalize e.confirmRemoval = x at h ⊢
  obtain ⟨e', done⟩ := x
  cases h with
  | rest hrests => cases hrests.keepsRequest
  | withdraw hc hnone =>
      rw [hnone rfl]
      rfl
  | remove hsome hg =>
      rw [erased_of_erase? hg]
      exact congrArg Core.graph ((core_deselect _).trans (core_forgetGone _))
  | removeNone hsome hg =>
      rw [erased_of_refused hg]
      exact congrArg Core.graph ((core_deselect _).trans (core_forgetGone _))
  | travel htravel => cases htravel

/-- **A removal leaves what the graph induces on the other blocks, in any order.**  It is
refused if no id listed names a block.  One removal for each of the ids leads to the same
graph, a refused one counting for nothing, and so do single removals of what is selected
and the removal of the selection. -/
theorem induced_removals (g : Graph) (ids : List String) :
    (g.erase? ids = none ↔ ∀ id ∈ ids, ¬ g.hasBlock id) ∧
      (∀ g', g.erase? ids = some g' → Induced g ids g') ∧
      (∀ order : List String, (∀ id, id ∈ order ↔ id ∈ ids) →
        g.erasedEach order = g.erased ids) ∧
      ∀ (e : Editor) (order : List String), (∀ id, id ∈ order ↔ id ∈ e.selection.ids) →
        (e.performAll (removals order)).graph = e.confirmRemoval.1.graph := by
  refine ⟨erase?_eq_none_iff, ?_, ?_, ?_⟩
  · intro g' hg'
    have hinduced := induced_erased g ids
    rwa [erased, hg'] at hinduced
  · intro order horder
    rw [erasedEach_eq, erased_congr horder]
  · intro e order horder
    rw [graph_removals, erasedEach_eq, graph_confirmRemoval, erased_congr horder]

/-- Two blocks have one id, and two connections dangle at an id that names none. -/
def frayed : Graph where
  blocks := [⟨"w", ⟨0, 0⟩, .welcome "Hi"⟩, ⟨"a", ⟨200, 0⟩, .message "A"⟩,
    ⟨"a", ⟨200, 200⟩, .question "A?" none⟩, ⟨"b", ⟨400, 0⟩, .message "B"⟩]
  connections := [⟨"c1", ⟨"w", "output"⟩, ⟨"a", "input"⟩⟩, ⟨"c2", ⟨"a", "output"⟩, ⟨"b", "input"⟩⟩,
    ⟨"c3", ⟨"ghost", "output"⟩, ⟨"b", "input"⟩⟩, ⟨"c4", ⟨"b", "output"⟩, ⟨"ghost", "input"⟩⟩,
    ⟨"c5", ⟨"w", "output"⟩, ⟨"b", "input"⟩⟩]

/-- The dangling connections stay when their missing end is listed, and the two blocks of one
id go together; with both names selected the order of the removals makes no difference. -/
theorem induced_removals_frayed :
    let e := (start ⟨toString, 0⟩ frayed).performAll [.toggle "a", .toggle "b"]
    (frayed.erase? ["a", "ghost", "a"] = some (frayed.erased ["a", "ghost", "a"]) ∧
        Induced frayed ["a", "ghost", "a"] (frayed.erased ["a", "ghost", "a"])) ∧
      ((∀ id, id ∈ ["ghost", "a"] ↔ id ∈ ["a", "ghost", "a"]) ∧
        frayed.erasedEach ["ghost", "a"] = frayed.erased ["a", "ghost", "a"]) ∧
      (∀ id, id ∈ ["b", "a"] ↔ id ∈ e.selection.ids) ∧
        (e.performAll (removals ["b", "a"])).graph = e.confirmRemoval.1.graph := by
  intro e
  have hlisted : frayed.erase? ["a", "ghost", "a"] = some (frayed.erased ["a", "ghost", "a"]) := rfl
  have horder : ∀ id, id ∈ ["ghost", "a"] ↔ id ∈ ["a", "ghost", "a"] := by
    intro id
    simp only [List.mem_cons, List.not_mem_nil, or_false]
    tauto
  have hselected : e.selection.ids = ["a", "b"] := by decide +kernel
  have hboth : ∀ id, id ∈ ["b", "a"] ↔ id ∈ e.selection.ids := by
    intro id
    rw [hselected]
    simp [or_comm]
  obtain ⟨-, hinduced, hsame, hselection⟩ := induced_removals frayed ["a", "ghost", "a"]
  exact ⟨⟨hlisted, hinduced _ hlisted⟩, ⟨horder, hsame _ horder⟩, hboth, hselection e _ hboth⟩

example : (frayed.erased ["a", "ghost", "a"]).connections.map (·.id) = ["c3", "c4", "c5"] := by
  decide +kernel

end Parley.Editor
