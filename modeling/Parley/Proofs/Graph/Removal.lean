/-
# Removals

A removal leaves what the graph induces on the blocks that are not listed: these blocks,
and the connections at neither end of which a removed block lies (`Induced`).  An id that
names no block counts for nothing; a connection may go on dangling from it.

`erased` is the graph after a removal, be it refused.  A later removal looks for its ids
among the blocks that are left.  Those it misses there because they went before have lost
their connections by then, so two removals do what one of both lists does:

    g.erased (ids ++ more) = (g.erased ids).erased more

It follows that it is the same to remove blocks at once or one at a time (`erasedEach`),
in whatever order and however often an id is listed.
-/
import Parley.Proofs.Graph.Edit

namespace Parley.Graph

/-- `g'` has the blocks of `g` that are not listed and the connections of `g` that touch
no other block, in their order. -/
structure Induced (g : Graph) (ids : List String) (g' : Graph) : Prop where
  blocks : g'.blocks = g.blocks.filter fun b => b.id ∉ ids
  connections : g'.connections =
    g.connections.filter fun c => ∀ b ∈ g.blocks, b.id ∈ ids → ¬ c.touches b.id

/-- The graph after a removal; as it is if the removal is refused. -/
def erased (g : Graph) (ids : List String) : Graph := (g.erase? ids).getD g

/-- The graph after one removal for each of the ids. -/
def erasedEach (g : Graph) (ids : List String) : Graph := ids.foldl (fun g id => g.erased [id]) g

variable {g g' : Graph} {ids more : List String} {id : String}

/-! ## One removal

The blocks listed go, and so do the connections that touch one of them.  An id that names no
block takes nothing with it, not even connections that dangle from it. -/

theorem erase?_eq_none_iff : g.erase? ids = none ↔ ∀ id ∈ ids, ¬ g.hasBlock id := by
  constructor
  · intro hnone id hid hblock
    obtain ⟨g', hsome⟩ := exists_erase? hid hblock
    cases hnone.symm.trans hsome
  · intro h
    cases hg' : g.erase? ids with
    | none => rfl
    | some g' =>
        obtain ⟨id, hid, hblock⟩ := exists_of_erase? hg'
        exact absurd hblock (h id (List.mem_filter.mp hid).1)

theorem without_nil (g : Graph) : g.without [] = g := by
  simp [without]

theorem erased_eq_without (g : Graph) (ids : List String) :
    g.erased ids = g.without (ids.filter g.hasBlock) := by
  rw [erased]
  cases hg' : g.erase? ids with
  | some g' => exact erase?_eq_some hg'
  | none =>
      rw [List.filter_eq_nil_iff.mpr (erase?_eq_none_iff.mp hg'), without_nil]
      rfl

theorem hasBlock_erased : (g.erased ids).hasBlock id ↔ g.hasBlock id ∧ id ∉ ids := by
  simp only [erased_eq_without, hasBlock, without, List.any_filter, List.any_eq_true,
    List.contains_eq_mem, List.mem_filter, Bool.and_eq_true, Bool.not_eq_true',
    decide_eq_false_iff_not, beq_iff_eq]
  constructor
  · rintro ⟨b, hb, hkept, rfl⟩
    exact ⟨⟨b, hb, rfl⟩, fun hid => hkept ⟨hid, b, hb, rfl⟩⟩
  · rintro ⟨⟨b, hb, rfl⟩, hid⟩
    exact ⟨b, hb, fun hdoomed => hid hdoomed.1, rfl⟩

theorem induced_erased (g : Graph) (ids : List String) : Induced g ids (g.erased ids) := by
  rw [erased_eq_without]
  constructor
  · refine List.filter_congr fun b hb => ?_
    have hblock : g.hasBlock b.id := List.any_eq_true.mpr ⟨b, hb, beq_self_eq_true b.id⟩
    simp [hblock]
  · refine List.filter_congr fun c _ => ?_
    rw [Bool.eq_iff_iff]
    simp only [List.contains_eq_mem, List.mem_filter, hasBlock, Connection.touches,
      List.any_eq_true, Bool.and_eq_true, Bool.or_eq_true, Bool.not_eq_true',
      decide_eq_false_iff_not, decide_eq_true_eq, beq_iff_eq]
    constructor
    · rintro ⟨hsource, htarget⟩ b hb hid (hend | hend)
      · exact hsource ⟨hend ▸ hid, b, hb, hend.symm⟩
      · exact htarget ⟨hend ▸ hid, b, hb, hend.symm⟩
    · intro h
      constructor
      · rintro ⟨hid, b, hb, hend⟩
        exact h b hb (hend ▸ hid) (.inl hend.symm)
      · rintro ⟨hid, b, hb, hend⟩
        exact h b hb (hend ▸ hid) (.inr hend.symm)

/-! ## Removals one after the other

That a removal may be refused is in the way here, for what is refused when the blocks went
before is not refused when they are listed together.  With `erased` there is no difference
between refusing and taking out nothing. -/

theorem without_without (g : Graph) (ids more : List String) :
    (g.without ids).without more = g.without (ids ++ more) := by
  simp only [without, List.filter_filter, mk.injEq]
  constructor
  · refine List.filter_congr fun b _ => ?_
    simp [Bool.and_comm]
  · refine List.filter_congr fun c _ => ?_
    simp only [List.contains_eq_mem, List.mem_append, Bool.decide_or, Bool.not_or]
    ac_rfl

/-- Of a list to be taken out it only counts which ids are in it. -/
theorem without_congr (h : ∀ id, id ∈ ids ↔ id ∈ more) : g.without ids = g.without more := by
  simp only [without, List.contains_eq_mem, h]

/-- **A removal after another does what it would have done along with it.** -/
theorem erased_append (g : Graph) (ids more : List String) :
    g.erased (ids ++ more) = (g.erased ids).erased more := by
  rw [erased_eq_without (g.erased ids), erased_eq_without g ids, without_without,
    ← erased_eq_without g ids, erased_eq_without]
  refine without_congr fun id => ?_
  -- an id of `more` that is not found any more was in `ids`
  simp only [List.filter_append, List.mem_append, List.mem_filter, hasBlock_erased]
  by_cases hid : id ∈ ids <;> simp [hid]

theorem erased_congr (h : ∀ id, id ∈ ids ↔ id ∈ more) : g.erased ids = g.erased more := by
  rw [erased_eq_without, erased_eq_without]
  refine without_congr fun id => ?_
  rw [List.mem_filter, List.mem_filter, h]

theorem erasedEach_eq (g : Graph) (ids : List String) : g.erasedEach ids = g.erased ids := by
  induction ids generalizing g with
  | nil => rfl
  | cons id ids ih => exact (ih (g.erased [id])).trans (erased_append g [id] ids).symm

end Parley.Graph
