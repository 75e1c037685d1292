/-
# What the edits come to

Every edit is either refused or leads to one graph.  For each edit a lemma says
which graph that is and what held for it not to be refused; proofs about edits
start from these and do not look into the edits again.  A duplicate is read as
two lists, `copies` and `links`, and an insertion as a `splice`.
-/
import Parley.Graph.Edit
import Parley.Proofs.Graph.Splice
import Parley.Proofs.IdSupply
import Parley.Proofs.Table

namespace Parley

namespace Graph

variable {g g' : Graph} {s : IdSupply}

/-! ## Single edits -/

theorem addBlock?_eq_some {kind : Block.Kind} {place : Position} {r : Created String}
    (h : g.addBlock? s kind place = some r) :
    (kind == .welcome && g.welcome?.isSome) = false ∧
      r =
        { graph := { g with blocks := g.blocks ++ [.ofKind (s.draw kind.label).1 kind place] }
          supply := (s.draw kind.label).2
          made := (s.draw kind.label).1 } := by
  unfold addBlock? at h
  split at h
  · cases h
  · rename_i hallowed
    exact ⟨Bool.eq_false_iff.mpr hallowed, (Option.some.inj h).symm⟩

theorem mem_changeFirst {α : Type} {test : α → Bool} {change : α → α} {x : α} :
    ∀ {xs : List α}, x ∈ changeFirst test change xs →
      x ∈ xs ∨ ∃ y, xs.find? test = some y ∧ x = change y
  | [], hx => nomatch hx
  | y :: ys, hx => by
      rw [changeFirst] at hx
      split at hx
      · rename_i hy
        rcases List.mem_cons.mp hx with rfl | hx
        · exact .inr ⟨y, List.find?_cons_of_pos hy, rfl⟩
        · exact .inl (List.mem_cons_of_mem _ hx)
      · rename_i hy
        rcases List.mem_cons.mp hx with rfl | hx
        · exact .inl List.mem_cons_self
        · rw [List.find?_cons_of_neg hy]
          exact (mem_changeFirst hx).imp_left (List.mem_cons_of_mem _)

theorem map_changeFirst {α β : Type} {f : α → β} {test : α → Bool} {change : α → α} :
    ∀ {xs : List α}, (∀ x, xs.find? test = some x → f (change x) = f x) →
      (changeFirst test change xs).map f = xs.map f
  | [], _ => rfl
  | x :: xs, h => by
      rw [changeFirst]
      split
      · rename_i hx
        rw [List.map_cons, List.map_cons, h x (List.find?_cons_of_pos hx)]
      · rename_i hx
        rw [List.find?_cons_of_neg hx] at h
        rw [List.map_cons, List.map_cons, map_changeFirst h]

/-- What is looked for is found in its place, changed. -/
theorem find?_changeFirst {α : Type} {test : α → Bool} {change : α → α}
    (hkeeps : ∀ x, test (change x) = test x) (xs : List α) :
    (changeFirst test change xs).find? test = (xs.find? test).map change := by
  induction xs with
  | nil => rfl
  | cons x xs ih =>
      rw [changeFirst]
      by_cases hx : test x
      · rw [if_pos hx, List.find?_cons_of_pos hx, List.find?_cons_of_pos ((hkeeps x).trans hx)]
        rfl
      · rw [if_neg hx, List.find?_cons_of_neg hx, List.find?_cons_of_neg hx, ih]

theorem block?_withContent (g : Graph) (id : String) (content : Block.Content) :
    (g.withContent id content).block? id = (g.block? id).map fun b => { b with content } := by
  refine find?_changeFirst ?_ g.blocks
  exact fun _ => rfl

theorem kinds_withContent {id : String} {b : Block} {content : Block.Content}
    (hb : g.block? id = some b) (hkind : content.kind = b.kind) :
    (g.withContent id content).blocks.map (·.kind) = g.blocks.map (·.kind) := by
  refine map_changeFirst ?_
  intro b' hb'
  rw [Option.some.inj (hb'.symm.trans hb)]
  exact hkind

theorem revise?_eq_some {id : String} {patch : Block.Patch} {r : Graph × IdSupply}
    (h : g.revise? s id patch = some r) :
    ∃ b content s', g.block? id = some b ∧ patch.merge? s b.content = some (content, s') ∧
      content ≠ b.content ∧ r = (g.withContent id content, s') := by
  unfold revise? at h
  obtain ⟨b, hb, h⟩ := Option.bind_eq_some_iff.mp h
  obtain ⟨⟨content, s'⟩, hmerge, h⟩ := Option.bind_eq_some_iff.mp h
  dsimp only at h
  split at h
  · cases h
  · rename_i hother
    exact ⟨b, content, s', hb, hmerge, hother, (Option.some.inj h).symm⟩

theorem erase?_eq_some {ids : List String} (h : g.erase? ids = some g') :
    g' = g.without (ids.filter g.hasBlock) := by
  unfold erase? at h
  split at h
  · cases h
  · exact (Option.some.inj h).symm

theorem exists_erase? {ids : List String} {id : String} (hid : id ∈ ids) (h : g.hasBlock id) :
    ∃ g', g.erase? ids = some g' := by
  have hdoomed : id ∈ ids.filter g.hasBlock := List.mem_filter.mpr ⟨hid, h⟩
  unfold erase?
  split
  · rename_i hnone
    rw [hnone] at hdoomed
    cases hdoomed
  · exact ⟨_, rfl⟩

theorem exists_of_erase? {ids : List String} (h : g.erase? ids = some g') :
    ∃ id ∈ ids.filter g.hasBlock, g.hasBlock id := by
  unfold erase? at h
  split at h
  · cases h
  · rename_i hsome
    obtain ⟨id, hid⟩ := List.exists_mem_of_ne_nil _ hsome
    exact ⟨id, hid, (List.mem_filter.mp hid).2⟩

theorem move?_eq_some {ids : List String} {delta : Position} (h : g.move? ids delta = some g') :
    g' = g.displace ids delta := by
  unfold move? at h
  split at h
  · cases h
  · exact (Option.some.inj h).symm

theorem map_displace {α : Type} {f : Block → α} {ids : List String} {delta : Position}
    (h : ∀ b p, f { b with position := p } = f b) :
    (g.displace ids delta).blocks.map f = g.blocks.map f := by
  rw [displace, List.map_map]
  refine List.map_congr_left fun b _ => ?_
  rw [Function.comp_apply]
  split
  · exact h b _
  · rfl

theorem connect?_eq_some {source target : Endpoint} {r : Created String}
    (h : g.connect? s source target = some r) :
    source.block ≠ target.block ∧ g.hasLink source target = false ∧
      r =
        { graph :=
            { g with
              connections := g.connections ++ [⟨(s.draw connectionLabel).1, source, target⟩] }
          supply := (s.draw connectionLabel).2
          made := (s.draw connectionLabel).1 } := by
  unfold connect? at h
  split at h
  · cases h
  · rename_i hallowed
    simp only [Bool.or_eq_true, not_or, beq_iff_eq, Bool.not_eq_true] at hallowed
    exact ⟨hallowed.1, hallowed.2, (Option.some.inj h).symm⟩

theorem disconnect?_eq_some {id : String} (h : g.disconnect? id = some g') :
    g' = { g with connections := g.connections.filter (·.id != id) } := by
  unfold disconnect? at h
  split at h
  · exact (Option.some.inj h).symm
  · cases h

theorem exists_of_disconnect? {id : String} (h : g.disconnect? id = some g') :
    ∃ c ∈ g.connections, c.id = id := by
  unfold disconnect? at h
  split at h
  · rename_i hany
    obtain ⟨c, hc, hid⟩ := List.any_eq_true.mp hany
    exact ⟨c, hc, beq_iff_eq.mp hid⟩
  · cases h

theorem extend?_eq_some {source : Endpoint} {kind : Block.Kind} {place : Position}
    {r : Created String} (h : g.extend? s source kind place = some r) :
    kind.isCreatable ∧ g.hasBlock source.block ∧
      r =
        { graph :=
            { blocks := g.blocks ++ [.ofKind (s.draw kind.label).1 kind place]
              connections := g.connections ++
                [⟨((s.draw kind.label).2.draw connectionLabel).1, source,
                  ⟨(s.draw kind.label).1, Block.inputName⟩⟩] }
          supply := ((s.draw kind.label).2.draw connectionLabel).2
          made := (s.draw kind.label).1 } := by
  unfold extend? at h
  split at h
  · cases h
  · rename_i hallowed
    simp only [Bool.or_eq_true, Bool.not_eq_true', not_or, Bool.not_eq_false] at hallowed
    exact ⟨hallowed.1, hallowed.2, (Option.some.inj h).symm⟩

/-! ## Duplicates

A duplicate renames by a table, first the blocks and then the ends of the connections between
them; where a name is missed nothing is made.  What is made is read off two lists, which go
by the names alone. -/

/-- Copies of blocks under new ids. -/
def copies (chosen : List Block) (ids : List String) : List Block :=
  chosen.zipWith (fun b id => { b with id, position := b.position + copyOffset }) ids

/-- Connections between given ends under new ids. -/
def links (ends : List (Endpoint × Endpoint)) (ids : List String) : List Connection :=
  ends.zipWith (fun (source, target) id => ⟨id, source, target⟩) ids

/-- The ids of the copies of blocks, with the supply left. -/
def copyIds (s : IdSupply) (chosen : List Block) : List String × IdSupply :=
  s.drawAll (chosen.map (·.kind.label))

/-- The ends of the connections between copies. -/
def copyEnds (g : Graph) (chosen : List Block) (ids : List String) : List (Endpoint × Endpoint) :=
  g.renamed (Table.ofList ((chosen.map (·.id)).zip ids))

theorem duplicate?_eq_some {ids : List String} {r : Created (List String)}
    (h : g.duplicate? s ids = some r) :
    let drawn := copyIds s (g.copyable ids)
    let ends := g.copyEnds (g.copyable ids) drawn.1
    let drawn' := drawn.2.drawAll (ends.map fun _ => connectionLabel)
    r.graph = ⟨g.blocks ++ copies (g.copyable ids) drawn.1, g.connections ++ links ends drawn'.1⟩ ∧
      r.supply = drawn'.2 := by
  unfold duplicate? at h
  split at h
  · cases h
  · cases h
    exact ⟨rfl, rfl⟩

theorem made_of_duplicate? {ids : List String} {r : Created (List String)}
    (h : g.duplicate? s ids = some r) :
    let names := Table.ofList
      (((g.copyable ids).map (·.id)).zip (copyIds s (g.copyable ids)).1)
    g.copyable ids ≠ [] ∧ r.made = (g.copyable ids).filterMap fun b => names.get? b.id := by
  unfold duplicate? at h
  split at h
  · cases h
  · rename_i hchosen
    cases h
    exact ⟨hchosen, rfl⟩

/-- A copy has the content of one of the blocks, under the id that goes with it. -/
theorem mem_copies {b : Block} {chosen : List Block} {ids : List String} :
    b ∈ copies chosen ids ↔
      ∃ original id, (original, id) ∈ chosen.zip ids ∧
        b = { original with id, position := original.position + copyOffset } := by
  rw [copies, ← List.map_uncurry_zip_eq_zipWith, List.mem_map]
  constructor
  · rintro ⟨⟨original, id⟩, hmem, rfl⟩
    exact ⟨original, id, hmem, rfl⟩
  · rintro ⟨original, id, hmem, rfl⟩
    exact ⟨(original, id), hmem, rfl⟩

theorem ids_links {ends : List (Endpoint × Endpoint)} {ids : List String}
    (h : ids.length = ends.length) : (links ends ids).map (·.id) = ids := by
  rw [links, ← List.map_uncurry_zip_eq_zipWith, List.map_map]
  exact List.map_snd_zip (Nat.le_of_eq h)

theorem ids_copies {chosen : List Block} {ids : List String} (h : ids.length = chosen.length) :
    (copies chosen ids).map (·.id) = ids := by
  rw [copies, ← List.map_uncurry_zip_eq_zipWith, List.map_map]
  exact List.map_snd_zip (Nat.le_of_eq h)

theorem exists_of_renamed {chosen : List Block} {ids : List String} {old new : String}
    (h : (Table.ofList ((chosen.map (·.id)).zip ids)).get? old = some new) :
    ∃ b, (b, new) ∈ chosen.zip ids ∧ b.id = old := by
  have hmem := Table.mem_of_get?_ofList h
  rw [List.zip_map_left, List.mem_map] at hmem
  obtain ⟨⟨b, id⟩, hzip, hpair⟩ := hmem
  cases hpair
  exact ⟨b, hzip, rfl⟩

/-- The ends of the copy of a connection, if both its blocks are copied. -/
def rename (names : Table String) (c : Connection) : Option (Endpoint × Endpoint) := do
  return (⟨← names.get? c.source.block, c.source.handle⟩,
    ⟨← names.get? c.target.block, c.target.handle⟩)

theorem renamed_eq (g : Graph) (names : Table String) :
    g.renamed names = g.connections.filterMap (rename names) := rfl

theorem exists_of_rename {c : Connection} {ends : Endpoint × Endpoint} {chosen : List Block}
    {ids : List String} (h : rename (Table.ofList ((chosen.map (·.id)).zip ids)) c = some ends) :
    ∃ b b', (b, ends.1.block) ∈ chosen.zip ids ∧ (b', ends.2.block) ∈ chosen.zip ids ∧
      c.source = ⟨b.id, ends.1.handle⟩ ∧ c.target = ⟨b'.id, ends.2.handle⟩ := by
  obtain ⟨newSource, hsource, hrest⟩ := Option.bind_eq_some_iff.mp h
  obtain ⟨newTarget, htarget, hpair⟩ := Option.bind_eq_some_iff.mp hrest
  cases hpair
  obtain ⟨b, hb, hbid⟩ := exists_of_renamed hsource
  obtain ⟨b', hb', hbid'⟩ := exists_of_renamed htarget
  exact ⟨b, b', hb, hb', by rw [hbid], by rw [hbid']⟩

/-- A link has given ends. -/
theorem exists_of_mem_links {d : Connection} {chosen : List Block} {blockIds linkIds : List String}
    (h : d ∈ links (g.copyEnds chosen blockIds) linkIds) :
    ∃ c ∈ g.connections, ∃ b b', (b, d.source.block) ∈ chosen.zip blockIds ∧
      (b', d.target.block) ∈ chosen.zip blockIds ∧
      c.source = ⟨b.id, d.source.handle⟩ ∧ c.target = ⟨b'.id, d.target.handle⟩ := by
  rw [links, ← List.map_uncurry_zip_eq_zipWith, List.mem_map] at h
  obtain ⟨⟨ends, id⟩, hzip, rfl⟩ := h
  have hends := (List.of_mem_zip hzip).1
  rw [copyEnds, renamed_eq, List.mem_filterMap] at hends
  obtain ⟨c, hc, hrename⟩ := hends
  exact ⟨c, hc, exists_of_rename hrename⟩

end Graph

end Parley
