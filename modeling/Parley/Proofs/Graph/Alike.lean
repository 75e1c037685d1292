/-
# Graphs that differ in the places of blocks only

Two graphs are *alike* if they have the same connections and, one by one, blocks of
the same id that say the same.  Nothing is said of where the blocks lie.

Graphs are compared coordinate by coordinate, as doubles are.  So a graph may count
as different from itself, where a coordinate is no number, and as the same as another,
where a zero has another sign; but graphs that count as the same are always alike
(`alike_of_beq`).

A displacement leads to a graph that is alike.  All other edits add a block or a
connection, take one away, or change what a block says, so none of them does
(`not_alike_of_perform?`), wherever the blocks lie.
-/
import Parley.Proofs.Graph.Drawn

namespace Parley

open Float.Model (UnpackedFloat)

/-! ## Comparing graphs

That two graphs count as the same does not depend on which comes first.  It comes down to
doubles, where it has to be seen from how they are compared: no double that is no number
equals itself, so there is no equality to go by. -/

theorem compare_swap (a b : UnpackedFloat) : b.compare a = (a.compare b).map Ordering.swap := by
  have hparts : ∀ (e e' : Int) (m m' : Nat),
      (compare e' e).then (compare m' m) = ((compare e e').then (compare m m')).swap := by
    intro e e' m m'
    rw [Ordering.swap_then, ← Std.OrientedCmp.eq_swap, ← Std.OrientedCmp.eq_swap]
  rcases a with (_ | _) | _ | _ | ⟨_ | _, m, e, hm⟩ <;>
    rcases b with (_ | _) | _ | _ | ⟨_ | _, m', e', hm'⟩
  case finite.negative.finite.negative => exact congrArg (some ·.swap) (hparts e e' m m')
  case finite.positive.finite.positive => exact congrArg some (hparts e e' m m')
  all_goals rfl

theorem float_beq_comm (x y : Float) : (x == y) = (y == x) := by
  show (UnpackedFloat.compare _ _ == some .eq) = (UnpackedFloat.compare _ _ == some .eq)
  rw [compare_swap]
  cases UnpackedFloat.compare _ _ with
  | none => rfl
  | some o => cases o <;> rfl

theorem Position.beq_comm (p q : Position) : (p == q) = (q == p) := by
  show (p.x == q.x && p.y == q.y) = (q.x == p.x && q.y == p.y)
  rw [float_beq_comm p.x, float_beq_comm p.y]

theorem Block.beq_eq (b b' : Block) :
    (b == b') = (b.id == b'.id && (b.position == b'.position && b.content == b'.content)) := rfl

theorem Block.beq_comm (b b' : Block) : (b == b') = (b' == b) := by
  rw [Block.beq_eq, Block.beq_eq, BEq.comm (a := b.id), Position.beq_comm b.position, BEq.comm (a := b.content)]

namespace Graph

theorem blocks_beq_comm (bs bs' : List Block) : (bs == bs') = (bs' == bs) := by
  induction bs generalizing bs' with
  | nil => cases bs' <;> rfl
  | cons b bs ih =>
      cases bs' with
      | nil => rfl
      | cons b' bs' => rw [List.cons_beq_cons, List.cons_beq_cons, Block.beq_comm b, ih]

theorem beq_eq (g g' : Graph) :
    (g == g') = (g.blocks == g'.blocks && g.connections == g'.connections) := rfl

theorem beq_comm (g g' : Graph) : (g == g') = (g' == g) := by
  rw [beq_eq, beq_eq, blocks_beq_comm, BEq.comm (a := g.connections)]

theorem bne_comm (g g' : Graph) : (g != g') = (g' != g) := by
  rw [bne, bne, beq_comm]

/-! ## Likeness -/

/-- What a block is apart from its place. -/
def unplaced (b : Block) : String × Block.Content := (b.id, b.content)

/-- The same but for the places of blocks. -/
structure Alike (g g' : Graph) : Prop where
  blocks : g.blocks.map unplaced = g'.blocks.map unplaced
  connections : g.connections = g'.connections

variable {g g' g'' : Graph} {s : IdSupply}

theorem Alike.refl (g : Graph) : Alike g g := ⟨rfl, rfl⟩

theorem Alike.symm (h : Alike g g') : Alike g' g := ⟨h.blocks.symm, h.connections.symm⟩

theorem Alike.trans (h : Alike g g') (h' : Alike g' g'') : Alike g g'' :=
  ⟨h.blocks.trans h'.blocks, h.connections.trans h'.connections⟩

theorem Alike.length_blocks (h : Alike g g') : g.blocks.length = g'.blocks.length := by
  simpa using congrArg List.length h.blocks

theorem map_unplaced_of_beq {bs bs' : List Block} (h : bs == bs') :
    bs.map unplaced = bs'.map unplaced := by
  induction bs generalizing bs' with
  | nil =>
      cases bs' with
      | nil => rfl
      | cons b' bs' => cases h
  | cons b bs ih =>
      cases bs' with
      | nil => cases h
      | cons b' bs' =>
          rw [List.cons_beq_cons, Bool.and_eq_true] at h
          obtain ⟨hhead, htail⟩ := h
          rw [Block.beq_eq] at hhead
          simp only [Bool.and_eq_true, beq_iff_eq] at hhead
          obtain ⟨hid, -, hcontent⟩ := hhead
          simp only [List.map_cons, unplaced, hid, hcontent, ih htail]

/-- Graphs that count as the same are alike. -/
theorem alike_of_beq (h : g == g') : Alike g g' := by
  rw [beq_eq, Bool.and_eq_true] at h
  exact ⟨map_unplaced_of_beq h.1, beq_iff_eq.mp h.2⟩

theorem alike_displace (g : Graph) (ids : List String) (delta : Position) :
    Alike (g.displace ids delta) g :=
  ⟨map_displace fun _ _ => rfl, rfl⟩

/-! ## Edits -/

/-- A change that shows makes another list. -/
theorem map_changeFirst_ne {α β : Type} {f : α → β} {test : α → Bool} {change : α → α} {x : α} :
    ∀ {xs : List α}, xs.find? test = some x → f (change x) ≠ f x →
      (changeFirst test change xs).map f ≠ xs.map f
  | [], hx, _ => nomatch hx
  | y :: ys, hx, hother => by
      intro hsame
      rw [changeFirst] at hsame
      split at hsame
      · rename_i hy
        rw [List.find?_cons_of_pos hy] at hx
        cases hx
        exact hother (List.cons.inj hsame).1
      · rename_i hy
        rw [List.find?_cons_of_neg hy] at hx
        exact map_changeFirst_ne hx hother (List.cons.inj hsame).2

theorem not_alike_of_more {b : Block} {bs : List Block} {cs : List Connection} :
    ¬ Alike ⟨g.blocks ++ b :: bs, cs⟩ g := by
  intro h
  have hlength := h.length_blocks
  simp at hlength

theorem not_alike_without {ids : List String} {id : String} (hid : id ∈ ids) (h : g.hasBlock id) :
    ¬ Alike (g.without ids) g := by
  intro halike
  obtain ⟨b, hb, hbid⟩ := List.any_eq_true.mp h
  have hshorter : (g.without ids).blocks.length < g.blocks.length := by
    rw [without, List.length_filter_lt_length_iff_exists]
    refine ⟨b, hb, ?_⟩
    rw [beq_iff_eq.mp hbid]
    simpa using hid
  exact absurd halike.length_blocks (Nat.ne_of_lt hshorter)

/-- **No edit but a displacement leads to a graph that is alike.** -/
theorem not_alike_of_perform? {ch : Change} {r : Created Made} (h : g.perform? s ch = some r)
    (hmove : ∀ ids delta, ch ≠ .move ids delta) : ¬ Alike r.graph g := by
  cases ch with
  | addBlock kind place =>
      obtain ⟨r', hr, rfl⟩ := Option.map_eq_some_iff.mp h
      obtain ⟨-, rfl⟩ := addBlock?_eq_some hr
      exact not_alike_of_more
  | revise id patch =>
      obtain ⟨r', hr, rfl⟩ := Option.map_eq_some_iff.mp h
      obtain ⟨b, content, s', hb, -, hother, rfl⟩ := revise?_eq_some hr
      intro halike
      refine map_changeFirst_ne (f := unplaced) hb ?_ halike.blocks
      intro hsame
      exact hother (Prod.mk.inj hsame).2
  | erase ids =>
      obtain ⟨g', hr, rfl⟩ := Option.map_eq_some_iff.mp h
      obtain ⟨id, hid, hblock⟩ := exists_of_erase? hr
      obtain rfl := erase?_eq_some hr
      exact not_alike_without hid hblock
  | move ids delta => exact absurd rfl (hmove ids delta)
  | duplicate ids =>
      obtain ⟨r', hr, rfl⟩ := Option.map_eq_some_iff.mp h
      have hchosen := (made_of_duplicate? hr).1
      have hcopies : (copies (g.copyable ids) (copyIds s (g.copyable ids)).1).length =
          (g.copyable ids).length := by
        rw [copies, List.length_zipWith, length_copyIds, Nat.min_self]
      intro halike
      have hlength : r'.graph.blocks.length = g.blocks.length := halike.length_blocks
      rw [(duplicate?_eq_some hr).1, List.length_append, hcopies] at hlength
      exact hchosen (List.length_eq_zero_iff.mp (by omega))
  | connect source target =>
      obtain ⟨r', hr, rfl⟩ := Option.map_eq_some_iff.mp h
      obtain ⟨-, -, rfl⟩ := connect?_eq_some hr
      intro halike
      simpa using congrArg List.length halike.connections
  | disconnect id =>
      obtain ⟨g', hr, rfl⟩ := Option.map_eq_some_iff.mp h
      obtain ⟨c, hc, hid⟩ := exists_of_disconnect? hr
      obtain rfl := disconnect?_eq_some hr
      intro halike
      have hsame : g.connections.filter (·.id != id) = g.connections := halike.connections
      have hkept : c ∈ g.connections.filter (·.id != id) := by rw [hsame]; exact hc
      simpa [hid] using (List.mem_filter.mp hkept).2
  | extend source kind place =>
      obtain ⟨r', hr, rfl⟩ := Option.map_eq_some_iff.mp h
      obtain ⟨-, -, rfl⟩ := extend?_eq_some hr
      exact not_alike_of_more
  | insertBetween id kind place =>
      obtain ⟨r', hr, rfl⟩ := Option.map_eq_some_iff.mp h
      obtain ⟨-, old, -, rfl⟩ := exists_of_insertBetween? hr
      exact not_alike_of_more

end Graph

end Parley
