/-
# Copies of a part of a graph

A duplicate adds to a graph a copy of the part that some of its blocks span.  The copy is told by
one renaming of these blocks (`Copied`):

    block id            becomes    block (name id), moved by the offset
    connection a → b    becomes    connection name a → name b, where a and b are both copied

The renaming is one to one and leads to new ids only, so the copy is of the same shape and hangs
together with nothing that was there before.

The names are kept in a table while the copy is made.  Where the ids of the graph differ the
table has one name for each block that is copied (`get?_newName`), and blocks, connections and
the ids made are read off it in the order of the graph.
-/
import Parley.Proofs.Graph.Found
import Parley.Proofs.Graph.Sound

namespace Parley

namespace Graph

/-- Both ends of a connection are among the blocks of these ids. -/
def spans (ids : List String) (c : Connection) : Bool :=
  ids.contains c.source.block && ids.contains c.target.block

/-- The ends of a connection between blocks that go by other names. -/
def renameEnds (name : String → String) (c : Connection) : Endpoint × Endpoint :=
  (⟨name c.source.block, c.source.handle⟩, ⟨name c.target.block, c.target.handle⟩)

/-- The graph made is `g` with a copy of the blocks listed, but for Welcome blocks, and of the
connections between them. -/
structure Copied (g : Graph) (ids : List String) (name : String → String)
    (r : Created (List String)) : Prop where
  blocks : r.graph.blocks = g.blocks ++
    (g.copyable ids).map fun b => ⟨name b.id, b.position + ⟨40, 40⟩, b.content⟩
  made : r.made = (g.copyable ids).map fun b => name b.id
  /-- The connections added have new ids, and each has the ends of an old one, renamed. -/
  connections : ∃ added, r.graph.connections = g.connections ++ added ∧
    added.map (·.ends) = (g.connections.filter (spans ((g.copyable ids).map (·.id)))).map
      (renameEnds name) ∧
    (added.map (·.id)).Nodup ∧ (∀ c ∈ added, c.id ∉ g.names) ∧
    ∀ c ∈ added, ∀ b ∈ g.blocks, c.touches b.id = false
  injective : ∀ b ∈ g.copyable ids, ∀ b' ∈ g.copyable ids, name b.id = name b'.id → b = b'
  fresh : ∀ b ∈ g.copyable ids, name b.id ∉ g.names

variable {g : Graph} {s : IdSupply} {ids : List String}

/-- A duplicate is refused where no id names a block that may be copied. -/
theorem duplicate?_eq_none_iff (hids : (g.blocks.map (·.id)).Nodup) :
    g.duplicate? s ids = none ↔ ∀ id ∈ ids, ∀ b, g.block? id = some b → b.isWelcome := by
  have hnone : g.duplicate? s ids = none ↔ g.copyable ids = [] := by
    unfold duplicate?
    split
    · simp_all
    · simp_all
  rw [hnone, copyable, List.filter_eq_nil_iff]
  constructor
  · intro h id hid b hb
    have hname := id_of_block? hb
    have hrefused := h b (mem_of_block? hb)
    simpa [hname, hid] using hrefused
  · intro h b hb
    by_cases hid : b.id ∈ ids
    · have hfound : g.block? b.id = some b := find?_key_of_mem hids hb
      simp [h b.id hid b hfound]
    · simp [hid]

/-! ## Names

The new ids are given out in the order of the blocks, so the table is two lists zipped.  Of
ids that differ each has one place in the first list, and its name is what stands there in
the second. -/

/-- The name of a copied block. -/
def newName (chosen : List Block) (new : List String) (id : String) : String :=
  ((Table.ofList ((chosen.map (·.id)).zip new)).get? id).getD id

section Names

variable {chosen : List Block} {new : List String}

theorem newName_of_mem_zip (hchosen : (chosen.map (·.id)).Nodup)
    (hlength : new.length = chosen.length) {x : Block × String} (hx : x ∈ chosen.zip new) :
    newName chosen new x.1.id = x.2 := by
  rw [newName, get?_names hchosen hlength hx]
  rfl

theorem exists_mem_zip (hlength : new.length = chosen.length) {b : Block} (hb : b ∈ chosen) :
    ∃ id, (b, id) ∈ chosen.zip new := by
  rw [← List.map_fst_zip (Nat.le_of_eq hlength.symm)] at hb
  obtain ⟨⟨_, id⟩, hzip, rfl⟩ := List.mem_map.mp hb
  exact ⟨id, hzip⟩

theorem map_newName (hchosen : (chosen.map (·.id)).Nodup)
    (hlength : new.length = chosen.length) :
    (chosen.map fun b => newName chosen new b.id) = new := by
  calc (chosen.map fun b => newName chosen new b.id)
      = ((chosen.zip new).map Prod.fst).map fun b => newName chosen new b.id := by
        rw [List.map_fst_zip (Nat.le_of_eq hlength.symm)]
    _ = (chosen.zip new).map Prod.snd := by
        rw [List.map_map]
        exact List.map_congr_left fun x hx => newName_of_mem_zip hchosen hlength hx
    _ = new := List.map_snd_zip (Nat.le_of_eq hlength)

theorem copies_eq_map (hchosen : (chosen.map (·.id)).Nodup)
    (hlength : new.length = chosen.length) :
    copies chosen new =
      chosen.map fun b => ⟨newName chosen new b.id, b.position + ⟨40, 40⟩, b.content⟩ := by
  calc copies chosen new
      = (chosen.zip new).map fun x => ⟨x.2, x.1.position + ⟨40, 40⟩, x.1.content⟩ :=
        List.map_uncurry_zip_eq_zipWith.symm
    _ = ((chosen.zip new).map Prod.fst).map
          fun b => ⟨newName chosen new b.id, b.position + ⟨40, 40⟩, b.content⟩ := by
        rw [List.map_map]
        refine List.map_congr_left fun x hx => ?_
        rw [Function.comp_apply, newName_of_mem_zip hchosen hlength hx]
    _ = _ := by rw [List.map_fst_zip (Nat.le_of_eq hlength.symm)]

/-- The copied blocks have names in the table, and no others. -/
theorem get?_newName (hchosen : (chosen.map (·.id)).Nodup)
    (hlength : new.length = chosen.length) (id : String) :
    (Table.ofList ((chosen.map (·.id)).zip new)).get? id =
      if (chosen.map (·.id)).contains id then some (newName chosen new id) else none := by
  by_cases hid : id ∈ chosen.map (·.id)
  · rw [if_pos (List.contains_iff_mem.mpr hid)]
    obtain ⟨b, hb, rfl⟩ := List.mem_map.mp hid
    obtain ⟨id, hzip⟩ := exists_mem_zip hlength hb
    rw [newName, get?_names hchosen hlength hzip]
    rfl
  · rw [if_neg (by simpa using hid)]
    cases hget : (Table.ofList ((chosen.map (·.id)).zip new)).get? id with
    | none => rfl
    | some found =>
        have hentry := (List.of_mem_zip (Table.mem_of_get?_ofList hget)).1
        exact absurd hentry hid

theorem copyEnds_eq_map (g : Graph) (hchosen : (chosen.map (·.id)).Nodup)
    (hlength : new.length = chosen.length) :
    g.copyEnds chosen new =
      (g.connections.filter (spans (chosen.map (·.id)))).map
        (renameEnds (newName chosen new)) := by
  rw [copyEnds, renamed_eq, ← List.filterMap_eq_map' (f := renameEnds _), List.filterMap_filter]
  refine List.filterMap_congr fun c _ => ?_
  rw [rename, get?_newName hchosen hlength, get?_newName hchosen hlength, spans]
  cases (chosen.map (·.id)).contains c.source.block with
  | false => rfl
  | true =>
      cases (chosen.map (·.id)).contains c.target.block with
      | false => rfl
      | true => rfl

end Names

/-! ## The duplicate -/

theorem touches_of_mem_links {chosen : List Block} {new linkIds : List String}
    (hfresh : ∀ id ∈ new, id ∉ g.names) {c : Connection}
    (hc : c ∈ links (g.copyEnds chosen new) linkIds) {b : Block} (hb : b ∈ g.blocks) :
    c.touches b.id = false := by
  obtain ⟨-, -, b₁, b₂, hsource, htarget, -, -⟩ := exists_of_mem_links hc
  have hother : ∀ id ∈ new, id ≠ b.id := by
    rintro id hid rfl
    exact hfresh _ hid (id_mem_names (List.mem_map_of_mem hb))
  rw [Connection.touches, beq_eq_false_iff_ne.mpr (hother _ (List.of_mem_zip hsource).2),
    beq_eq_false_iff_ne.mpr (hother _ (List.of_mem_zip htarget).2)]
  rfl

/-- **A duplicate is a copy of the part of the graph that the blocks listed span**, Welcome
blocks left out, where blocks have different ids and the ids drawn are new.  It is refused only
where no other block is listed. -/
theorem copied_duplicate? (g : Graph) (s : IdSupply) (ids : List String)
    (hids : (g.blocks.map (·.id)).Nodup) (hnew : (Change.duplicate ids).DrawsNew g s) :
    (g.duplicate? s ids = none ↔ ∀ id ∈ ids, ∀ b, g.block? id = some b → b.isWelcome) ∧
      ∀ r, g.duplicate? s ids = some r → ∃ name, Copied g ids name r := by
  refine ⟨duplicate?_eq_none_iff hids, ?_⟩
  intro r hr
  have hgraph := (duplicate?_eq_some hr).1
  have hmade := made_eq_copyIds hr hids
  have hlength := length_copyIds s (g.copyable ids)
  have hchosen := nodup_copyable hids ids
  obtain ⟨hdiffer, hfresh, -⟩ := hnew
  rw [drawn_duplicate] at hdiffer hfresh
  generalize (copyIds s (g.copyable ids)).2 = s' at hgraph hdiffer hfresh
  generalize (copyIds s (g.copyable ids)).1 = new at hgraph hmade hlength hdiffer hfresh
  have hlinkIds := IdSupply.length_drawAll s'
    ((g.copyEnds (g.copyable ids) new).map fun _ => connectionLabel)
  rw [List.length_map] at hlinkIds
  generalize (s'.drawAll _).1 = linkIds at hgraph hdiffer hfresh hlinkIds
  have hnewDiffer : new.Nodup := (List.nodup_append.mp hdiffer).1
  have hnewFresh : ∀ id ∈ new, id ∉ g.names := fun id hid => hfresh id (List.mem_append_left _ hid)
  have hnames := map_newName hchosen hlength
  have hname : ∀ b ∈ g.copyable ids, newName (g.copyable ids) new b.id ∈ new := by
    intro b hb
    have hmem := List.mem_map_of_mem (f := fun b => newName (g.copyable ids) new b.id) hb
    rwa [hnames] at hmem
  refine ⟨newName (g.copyable ids) new, ?_, ?_, ?_, ?_, ?_⟩
  · rw [hgraph, copies_eq_map hchosen hlength]
  · rw [hmade, hnames]
  · refine ⟨links (g.copyEnds (g.copyable ids) new) linkIds, by rw [hgraph], ?_, ?_, ?_, ?_⟩
    · rw [ends_links hlinkIds, copyEnds_eq_map g hchosen hlength]
    · rw [ids_links hlinkIds]
      exact (List.nodup_append.mp hdiffer).2.1
    · intro c hc
      have hid := List.mem_map_of_mem (f := Connection.id) hc
      rw [ids_links hlinkIds] at hid
      exact hfresh _ (List.mem_append_right _ hid)
    · intro c hc b hb
      exact touches_of_mem_links hnewFresh hc hb
  · rw [← hnames] at hnewDiffer
    exact fun b hb b' hb' => List.inj_on_of_nodup_map hnewDiffer hb hb'
  · exact fun b hb => hnewFresh _ (hname b hb)

/-- A menu and two messages, with connections inside, across and out of what is copied. -/
def branching : Graph where
  blocks :=
    [⟨"start", ⟨0, 0⟩, .welcome "Hi"⟩, ⟨"m", ⟨400, 0⟩, .message "More"⟩,
      ⟨"b", ⟨200, 0⟩, .buttons "Which?" none [⟨"y", "Yes"⟩, ⟨"n", "No"⟩]⟩,
      ⟨"o", ⟨400, 200⟩, .message "Other"⟩]
  connections :=
    [⟨"c1", ⟨"start", "output"⟩, ⟨"b", "input"⟩⟩, ⟨"c2", ⟨"b", "y"⟩, ⟨"m", "input"⟩⟩,
      ⟨"c3", ⟨"b", "n"⟩, ⟨"o", "input"⟩⟩, ⟨"c4", ⟨"m", "output"⟩, ⟨"b", "input"⟩⟩,
      ⟨"c5", ⟨"m", "output"⟩, ⟨"gone", "input"⟩⟩, ⟨"c6", ⟨"b", "y"⟩, ⟨"m", "input"⟩⟩]

theorem copied_duplicate?_branching :
    (branching.blocks.map (·.id)).Nodup ∧
      (Change.duplicate ["b", "start", "m", "gone", "b"]).DrawsNew branching ⟨toString, 0⟩ ∧
      ∃ r name, branching.duplicate? ⟨toString, 0⟩ ["b", "start", "m", "gone", "b"] = some r ∧
        Copied branching ["b", "start", "m", "gone", "b"] name r ∧
        r.made = ["message-0", "buttons-1"] := by
  have hids : (branching.blocks.map (·.id)).Nodup := by decide
  have hnew : (Change.duplicate ["b", "start", "m", "gone", "b"]).DrawsNew branching
      ⟨toString, 0⟩ := by
    decide +kernel
  refine ⟨hids, hnew, ?_⟩
  have hmade : (branching.duplicate? ⟨toString, 0⟩ ["b", "start", "m", "gone", "b"]).map (·.made) =
      some ["message-0", "buttons-1"] := by
    decide +kernel
  obtain ⟨r, hr, hids'⟩ := Option.map_eq_some_iff.mp hmade
  obtain ⟨name, hcopied⟩ := (copied_duplicate? branching _ _ hids hnew).2 r hr
  exact ⟨r, name, hr, hcopied, hids'⟩

end Graph

end Parley
