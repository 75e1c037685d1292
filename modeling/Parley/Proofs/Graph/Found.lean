/-
# What an id names after an edit

Blocks come and go, but no edit turns the block behind an id into one of another kind:
what an id names before an edit and what it names afterwards, if it names something both
times, are of one kind (`kind_of_perform?`).  Blocks keep their ids and kinds, and what is
added comes last, where it hides nothing.

A duplicate makes the ids of its copies (`made_eq_copyIds`), and under each of them a copy
is found, which is no Welcome block (`isSelectable_of_duplicate?`).  The first needs that
the ids of the graph differ, the second that the new id is new.
-/
import Parley.Proofs.Graph.Drawn

namespace Parley

namespace Graph

variable {g : Graph} {s : IdSupply} {c : Change} {r : Created Made} {id : String} {b b' : Block}

theorem block?_of_without {ids : List String} (hb : (g.without ids).block? id = some b) :
    g.block? id = some b := by
  have hid := id_of_block? hb
  have hkept : id ∉ ids := by
    have hmem := List.mem_filter.mp (mem_of_block? hb)
    simpa [hid] using hmem.2
  rw [← hb, block?, block?, without, List.find?_filter]
  congr 1
  funext b'
  by_cases hid' : b'.id = id
  · simp [hid', hkept]
  · simp [hid']

theorem signature_block? (g : Graph) (id : String) :
    (g.block? id).map (·.signature) = (g.blocks.map (·.signature)).find? (·.1 == id) := by
  rw [List.find?_map]
  rfl

theorem kind_of_signatures {g' : Graph} {new : List (String × Block.Kind)}
    (h : g'.blocks.map (·.signature) = g.blocks.map (·.signature) ++ new)
    (hb : g.block? id = some b) (hb' : g'.block? id = some b') : b'.kind = b.kind := by
  have hfound := signature_block? g' id
  rw [h, List.find?_append, ← signature_block?, hb, hb'] at hfound
  exact congrArg Prod.snd (Option.some.inj hfound)

/-- What an id names before an edit and what it names afterwards are of one kind. -/
theorem kind_of_perform? (h : g.perform? s c = some r) (hb : g.block? id = some b)
    (hb' : r.graph.block? id = some b') : b'.kind = b.kind := by
  rcases signatures_perform? h with ⟨ids, -, hgraph⟩ | ⟨new, -, hnew⟩
  · rw [hgraph] at hb'
    rw [Option.some.inj ((block?_of_without hb').symm.trans hb)]
  · exact kind_of_signatures hnew hb hb'

theorem kind_of_displace {ids : List String} {delta : Position} (hb : g.block? id = some b)
    (hb' : (g.displace ids delta).block? id = some b') : b'.kind = b.kind := by
  have hsame : (g.displace ids delta).blocks.map (·.signature) =
      g.blocks.map (·.signature) ++ [] := by
    rw [List.append_nil]
    exact map_displace fun _ _ => rfl
  exact kind_of_signatures hsame hb hb'

/-! ## Copies -/

theorem get?_names {chosen : List Block} {new : List String}
    (hchosen : (chosen.map (·.id)).Nodup) (hlength : new.length = chosen.length)
    {x : Block × String} (hx : x ∈ chosen.zip new) :
    (Table.ofList ((chosen.map (·.id)).zip new)).get? x.1.id = some x.2 := by
  have hkeys : ((((chosen.map (·.id)).zip new)).map (·.1)).Nodup := by
    rw [List.map_fst_zip (by simp [hlength])]
    exact hchosen
  have hentry : (x.1.id, x.2) ∈ (chosen.map (·.id)).zip new := by
    rw [List.zip_map_left]
    exact List.mem_map_of_mem hx
  rw [Table.get?_ofList, find?_key_reverse hkeys, find?_key_of_mem hkeys hentry]
  rfl

theorem nodup_copyable (hids : (g.blocks.map (·.id)).Nodup) (ids : List String) :
    ((g.copyable ids).map (·.id)).Nodup :=
  hids.sublist (List.filter_sublist.map _)

theorem made_eq_copyIds {ids : List String} {r : Created (List String)}
    (h : g.duplicate? s ids = some r) (hids : (g.blocks.map (·.id)).Nodup) :
    r.made = (copyIds s (g.copyable ids)).1 := by
  obtain ⟨-, hmade⟩ := made_of_duplicate? h
  have hlength := length_copyIds s (g.copyable ids)
  have hchosen := nodup_copyable hids ids
  generalize (copyIds s (g.copyable ids)).1 = new at hmade hlength ⊢
  generalize g.copyable ids = chosen at hmade hlength hchosen ⊢
  rw [hmade]
  calc chosen.filterMap (fun b => (Table.ofList ((chosen.map (·.id)).zip new)).get? b.id)
      = ((chosen.zip new).map Prod.fst).filterMap
          fun b => (Table.ofList ((chosen.map (·.id)).zip new)).get? b.id := by
        rw [List.map_fst_zip (Nat.le_of_eq hlength.symm)]
    _ = (chosen.zip new).filterMap fun x => some x.2 := by
        rw [List.filterMap_map]
        exact List.filterMap_congr fun x hx => get?_names hchosen hlength hx
    _ = new := by
        rw [List.filterMap_eq_map', List.map_snd_zip (Nat.le_of_eq hlength)]

/-- Under a new id that a duplicate made, a copy is found. -/
theorem isSelectable_of_duplicate? {ids : List String} {r : Created (List String)}
    (h : g.duplicate? s ids = some r) (hnew : id ∉ g.blocks.map (·.id))
    (hb : r.graph.block? id = some b) : b.isSelectable := by
  have hid := id_of_block? hb
  have hmem := mem_of_block? hb
  rw [(duplicate?_eq_some h).1] at hmem
  rcases List.mem_append.mp hmem with hold | hcopy
  · exact absurd (hid ▸ List.mem_map_of_mem hold) hnew
  · obtain ⟨original, new, hzip, rfl⟩ := mem_copies.mp hcopy
    have hchosen := (List.mem_filter.mp (List.of_mem_zip hzip).1).2
    have hkind := (Bool.and_eq_true_iff.mp hchosen).2
    simpa [Block.isSelectable, Block.isWelcome, Block.kind] using hkind

end Graph

end Parley
