/-
# The ids that an edit draws

How many ids an edit draws, and under which labels, depends on the graph: on the
kind of what is added, on the drafts that come without an id of their own, on the
connections between the blocks that are copied.  `labels` lists the labels and
`drawn` the ids that the supply has for them, and what is left of the supply shows
that the edit draws these and no others (`supply_perform?`).

The ids of blocks and of connections are kept apart by an edit whose ids are new.
`DrawsNew` asks for that: the ids drawn differ, and neither the graph nor the edit
names one of them.  What was seen before includes both, so a supply whose ids
never equal one seen before makes every edit draw new ids.

An edit takes some ids out and adds some that it has drawn (`renewed_ids` and
`renewed_connectionIds`), so where these are new all ids still differ.  Only removals
take blocks out, and blocks that stay keep their kinds (`signatures_perform?`).
-/
import Parley.Proofs.Graph.Edit

namespace Parley

/-! ## Labels -/

/-- A label for each draft that does not keep an id. -/
def Draft.lacking (seen : List String) : List Draft → List String
  | [] => []
  | d :: ds =>
    match d.kept? seen with
    | some id => lacking (id :: seen) ds
    | none => idLabel :: lacking seen ds

/-- The labels of the ids that a patch draws for a content. -/
def Block.Patch.labels (p : Patch) : Content → List String
  | .buttons .. => (p.choices.map (Draft.lacking [])).getD []
  | _ => []

namespace Graph

/-- The labels of the ids that an edit draws, in order. -/
def labels (g : Graph) (s : IdSupply) : Change → List String
  | .addBlock kind _ => [kind.label]
  | .revise id patch => ((g.block? id).map fun b => patch.labels b.content).getD []
  | .duplicate ids =>
    let chosen := g.copyable ids
    chosen.map (·.kind.label) ++
      (g.copyEnds chosen (copyIds s chosen).1).map fun _ => connectionLabel
  | .connect .. => [connectionLabel]
  | .extend _ kind _ => [kind.label, connectionLabel]
  | .insertBetween _ kind _ =>
    kind.label :: connectionLabel :: if kind.hasSingleOutput then [connectionLabel] else []
  | .erase _ | .move .. | .disconnect _ => []

/-- The ids that an edit draws. -/
def drawn (g : Graph) (s : IdSupply) (c : Change) : List String := (s.drawAll (g.labels s c)).1

/-- The ids of blocks and connections that a graph names, also those of blocks that
it does not have but connects. -/
def names (g : Graph) : List String :=
  g.blocks.map (·.id) ++ g.connections.flatMap fun c => [c.id, c.source.block, c.target.block]

end Graph

/-- What edits keep of a block, as long as it is there. -/
def Block.signature (b : Block) : String × Kind := (b.id, b.kind)

/-- The option ids that an edit names. -/
def Change.optionIds : Change → List String
  | .revise _ patch => (patch.choices.getD []).filterMap (·.id)
  | _ => []

/-- The ids that an edit draws differ, and none of them is named already. -/
structure Change.DrawsNew (c : Change) (g : Graph) (s : IdSupply) : Prop where
  differ : (g.drawn s c).Nodup
  graph : ∀ id ∈ g.drawn s c, id ∉ g.names
  edit : ∀ id ∈ g.drawn s c, id ∉ c.optionIds

instance (c : Change) (g : Graph) (s : IdSupply) : Decidable (c.DrawsNew g s) :=
  decidable_of_iff ((g.drawn s c).Nodup ∧ (∀ id ∈ g.drawn s c, id ∉ g.names) ∧
      ∀ id ∈ g.drawn s c, id ∉ c.optionIds)
    ⟨fun h => ⟨h.1, h.2.1, h.2.2⟩, fun h => ⟨h.1, h.2, h.3⟩⟩

theorem Graph.id_mem_names {g : Graph} {id : String} (h : id ∈ g.blocks.map (·.id)) :
    id ∈ g.names :=
  List.mem_append_left _ h

theorem Graph.mem_names_of_connection {g : Graph} {c : Connection} (hc : c ∈ g.connections) :
    c.id ∈ g.names ∧ c.source.block ∈ g.names ∧ c.target.block ∈ g.names := by
  have hmem : ∀ id ∈ [c.id, c.source.block, c.target.block], id ∈ g.names :=
    fun id hid => List.mem_append_right _ (List.mem_flatMap.mpr ⟨c, hc, hid⟩)
  exact ⟨hmem _ (by simp), hmem _ (by simp), hmem _ (by simp)⟩

theorem Graph.mem_names_of_successor? {g : Graph} {source : Endpoint} {t : String}
    (h : g.successor? source = some t) : t ∈ g.names := by
  obtain ⟨d, hd, rfl⟩ := Option.map_eq_some_iff.mp h
  exact (mem_names_of_connection (List.mem_of_find?_eq_some hd)).2.2

/-! ## The supply

What is left of a supply tells how many ids were drawn from it, and each is made of its label
and the next token.  So if the labels are known, the ids are. -/

theorem Draft.supply_assign : ∀ (ds : List Draft) (seen : List String) (s : IdSupply),
    (assign seen s ds).2 = (s.drawAll (lacking seen ds)).2
  | [], _, _ => rfl
  | d :: ds, seen, s => by
      cases hkept : d.kept? seen with
      | some id =>
          simp only [assign, lacking, hkept]
          exact supply_assign ds (id :: seen) s
      | none =>
          simp only [assign, lacking, hkept]
          exact supply_assign ds seen (s.draw idLabel).2

theorem Draft.isLabel_lacking {l : String} : ∀ {ds : List Draft} {seen : List String},
    l ∈ lacking seen ds → IdSupply.IsLabel l
  | [], _, hl => nomatch hl
  | d :: ds, seen, hl => by
      unfold lacking at hl
      split at hl
      · exact isLabel_lacking hl
      · rcases List.mem_cons.mp hl with rfl | htail
        · decide
        · exact isLabel_lacking htail

theorem Draft.normalize?_eq_some {s : IdSupply} {ds : List Draft} {r : List Choice × IdSupply}
    (h : normalize? s ds = some r) :
    fewest ≤ ds.length ∧ ds.length ≤ most ∧ r = assign [] s ds := by
  unfold normalize? at h
  split at h
  · rename_i hsize
    exact ⟨hsize.1, hsize.2, (Option.some.inj h).symm⟩
  · cases h

theorem Block.Patch.supply_merge? {p : Patch} {s s' : IdSupply} {c c' : Content}
    (h : p.merge? s c = some (c', s')) : s' = (s.drawAll (p.labels c)).2 := by
  cases c with
  | buttons message binds choices =>
      simp only [merge?] at h
      split at h
      · rename_i hnone
        cases h
        rw [labels, hnone]
        rfl
      · rename_i ds hds
        obtain ⟨⟨cs, s''⟩, hnormal, heq⟩ := Option.map_eq_some_iff.mp h
        cases heq
        obtain ⟨-, -, hassign⟩ := Draft.normalize?_eq_some hnormal
        rw [labels, hds, Option.map_some, Option.getD_some, ← Draft.supply_assign, ← hassign]
  | welcome | message | question | field | goodbye =>
      cases h
      rfl

namespace Graph

variable {g : Graph} {s : IdSupply} {c : Change} {r : Created Made}

/-- An edit draws the ids listed, in that order, and no others. -/
theorem supply_perform? (h : g.perform? s c = some r) :
    r.supply = (s.drawAll (g.labels s c)).2 := by
  cases c with
  | addBlock kind place =>
      obtain ⟨r', hr, rfl⟩ := Option.map_eq_some_iff.mp h
      obtain ⟨-, rfl⟩ := addBlock?_eq_some hr
      rfl
  | revise id patch =>
      obtain ⟨r', hr, rfl⟩ := Option.map_eq_some_iff.mp h
      obtain ⟨b, content, s', hb, hmerge, -, rfl⟩ := revise?_eq_some hr
      rw [labels, hb, Option.map_some, Option.getD_some]
      exact Block.Patch.supply_merge? hmerge
  | duplicate ids =>
      obtain ⟨r', hr, rfl⟩ := Option.map_eq_some_iff.mp h
      rw [labels, IdSupply.drawAll_append]
      exact (duplicate?_eq_some hr).2
  | connect source target =>
      obtain ⟨r', hr, rfl⟩ := Option.map_eq_some_iff.mp h
      obtain ⟨-, -, rfl⟩ := connect?_eq_some hr
      rfl
  | extend source kind place =>
      obtain ⟨r', hr, rfl⟩ := Option.map_eq_some_iff.mp h
      obtain ⟨-, -, rfl⟩ := extend?_eq_some hr
      rfl
  | insertBetween id kind place =>
      obtain ⟨r', hr, rfl⟩ := Option.map_eq_some_iff.mp h
      obtain ⟨-, old, -, rfl⟩ := exists_of_insertBetween? hr
      rw [labels]
      split <;> rfl
  | erase | move | disconnect =>
      obtain ⟨g', -, rfl⟩ := Option.map_eq_some_iff.mp h
      rfl

/-- An edit takes ids from its supply and changes nothing else about it. -/
theorem later_perform? (h : g.perform? s c = some r) : s.Later r.supply := by
  rw [supply_perform? h]
  exact IdSupply.later_drawAll _ s

theorem isLabel_connectionLabel : IdSupply.IsLabel connectionLabel := by decide

theorem isLabel_labels {l : String} (hl : l ∈ g.labels s c) : IdSupply.IsLabel l := by
  cases c with
  | addBlock kind place =>
      rw [List.mem_singleton.mp hl]
      exact IdSupply.isLabel_kind kind
  | revise id patch =>
      rw [labels] at hl
      cases hb : g.block? id with
      | none =>
          rw [hb] at hl
          cases hl
      | some b =>
          rw [hb, Option.map_some, Option.getD_some] at hl
          cases hcontent : b.content with
          | buttons message binds choices =>
              rw [hcontent, Block.Patch.labels] at hl
              cases hchoices : patch.choices with
              | none =>
                  rw [hchoices] at hl
                  cases hl
              | some ds =>
                  rw [hchoices] at hl
                  exact Draft.isLabel_lacking hl
          | welcome | message | question | field | goodbye =>
              rw [hcontent] at hl
              cases hl
  | duplicate ids =>
      rcases List.mem_append.mp hl with hblock | hlink
      · obtain ⟨b, -, rfl⟩ := List.mem_map.mp hblock
        exact IdSupply.isLabel_kind b.kind
      · obtain ⟨ends, -, rfl⟩ := List.mem_map.mp hlink
        exact isLabel_connectionLabel
  | connect source target =>
      rw [List.mem_singleton.mp hl]
      exact isLabel_connectionLabel
  | extend source kind place =>
      rcases List.mem_cons.mp hl with rfl | hlink
      · exact IdSupply.isLabel_kind kind
      · rw [List.mem_singleton.mp hlink]
        exact isLabel_connectionLabel
  | insertBetween id kind place =>
      rcases List.mem_cons.mp hl with rfl | hlinks
      · exact IdSupply.isLabel_kind kind
      · have hlink : l = connectionLabel := by
          rcases List.mem_cons.mp hlinks with hfirst | hsecond
          · exact hfirst
          · split at hsecond
            · exact List.mem_singleton.mp hsecond
            · cases hsecond
        rw [hlink]
        exact isLabel_connectionLabel
  | erase | move | disconnect => cases hl

theorem drawn_of_mem_drawn (h : g.perform? s c = some r) {id : String} (hid : id ∈ g.drawn s c) :
    s.Drawn r.supply id := by
  rw [supply_perform? h]
  exact IdSupply.drawn_drawAll (fun _ => isLabel_labels) hid

theorem nodup_drawn {k : Nat} (hd : s.Differ k) (h : g.perform? s c = some r)
    (hk : r.supply.used ≤ k) : (g.drawn s c).Nodup := by
  rw [supply_perform? h] at hk
  exact IdSupply.nodup_drawAll hd (fun _ => isLabel_labels) hk

/-! ## The ids after an edit

An edit keeps some of the ids of blocks and puts some that it drew behind them, and it does
likewise with those of connections (`Renewed`). If the ids it drew are new then no id comes
twice afterwards, and none has to be looked at. -/

/-- A list after an edit: some of the old ids, and behind them some of those drawn. -/
def Renewed (old drawn after : List String) : Prop :=
  ∃ kept new, kept.Sublist old ∧ new.Sublist drawn ∧ after = kept ++ new

theorem Renewed.nodup {old drawn after : List String} (h : Renewed old drawn after)
    (hold : old.Nodup) (hdrawn : drawn.Nodup) (hapart : ∀ id ∈ drawn, id ∉ old) :
    after.Nodup := by
  obtain ⟨kept, new, hkept, hnew, rfl⟩ := h
  rw [List.nodup_append]
  refine ⟨hold.sublist hkept, hdrawn.sublist hnew, ?_⟩
  rintro id hid _ hid' rfl
  exact hapart id (hnew.subset hid') (hkept.subset hid)

theorem Renewed.mem {old drawn after : List String} (h : Renewed old drawn after) {id : String}
    (hid : id ∈ after) : id ∈ old ∨ id ∈ drawn := by
  obtain ⟨kept, new, hkept, hnew, rfl⟩ := h
  exact (List.mem_append.mp hid).imp (hkept.subset ·) (hnew.subset ·)

theorem Renewed.of_sublist {old drawn after : List String} (h : after.Sublist old) :
    Renewed old drawn after :=
  ⟨after, [], h, List.nil_sublist _, (List.append_nil _).symm⟩

theorem Renewed.append {old drawn new : List String} (h : new.Sublist drawn) :
    Renewed old drawn (old ++ new) :=
  ⟨old, new, .refl old, h, rfl⟩

theorem length_copyIds (s : IdSupply) (chosen : List Block) :
    (copyIds s chosen).1.length = chosen.length := by
  rw [copyIds, IdSupply.length_drawAll, List.length_map]

theorem drawn_duplicate (g : Graph) (s : IdSupply) (ids : List String) :
    g.drawn s (.duplicate ids) =
      (copyIds s (g.copyable ids)).1 ++
        ((copyIds s (g.copyable ids)).2.drawAll
          ((g.copyEnds (g.copyable ids) (copyIds s (g.copyable ids)).1).map
            fun _ => connectionLabel)).1 := by
  rw [drawn, labels, IdSupply.drawAll_append]
  rfl

/-- Only removals take blocks out.  Else the blocks keep ids and kinds, and those that are
added come last. -/
theorem signatures_perform? (h : g.perform? s c = some r) :
    (∃ ids, c = .erase ids ∧ r.graph = g.without (ids.filter g.hasBlock)) ∨
      ∃ new, (new.map Prod.fst).Sublist (g.drawn s c) ∧
        r.graph.blocks.map (·.signature) = g.blocks.map (·.signature) ++ new := by
  cases c with
  | addBlock kind place =>
      obtain ⟨r', hr, rfl⟩ := Option.map_eq_some_iff.mp h
      obtain ⟨-, rfl⟩ := addBlock?_eq_some hr
      refine .inr ⟨_, ?_, List.map_append⟩
      exact .refl _
  | revise id patch =>
      obtain ⟨r', hr, rfl⟩ := Option.map_eq_some_iff.mp h
      obtain ⟨b, content, s', hb, hmerge, -, rfl⟩ := revise?_eq_some hr
      refine .inr ⟨[], List.nil_sublist _, ?_⟩
      rw [List.append_nil]
      refine map_changeFirst fun b' hb' => ?_
      obtain rfl : b = b' := Option.some.inj (hb.symm.trans hb')
      exact Prod.ext rfl (Block.Patch.kind_merge? hmerge)
  | erase ids =>
      obtain ⟨g', hr, rfl⟩ := Option.map_eq_some_iff.mp h
      exact .inl ⟨ids, rfl, erase?_eq_some hr⟩
  | move ids delta =>
      obtain ⟨g', hr, rfl⟩ := Option.map_eq_some_iff.mp h
      obtain rfl := move?_eq_some hr
      refine .inr ⟨[], List.nil_sublist _, ?_⟩
      rw [List.append_nil]
      exact map_displace fun _ _ => rfl
  | duplicate ids =>
      obtain ⟨r', hr, rfl⟩ := Option.map_eq_some_iff.mp h
      have hgraph := (duplicate?_eq_some hr).1
      refine .inr ⟨_, ?_, (congrArg (·.blocks.map (·.signature)) hgraph).trans List.map_append⟩
      rw [drawn_duplicate, List.map_map]
      show ((copies _ _).map Block.id).Sublist _
      rw [ids_copies (length_copyIds s _)]
      exact List.sublist_append_left _ _
  | connect source target =>
      obtain ⟨r', hr, rfl⟩ := Option.map_eq_some_iff.mp h
      obtain ⟨-, -, rfl⟩ := connect?_eq_some hr
      exact .inr ⟨[], List.nil_sublist _, (List.append_nil _).symm⟩
  | disconnect id =>
      obtain ⟨g', hr, rfl⟩ := Option.map_eq_some_iff.mp h
      obtain rfl := disconnect?_eq_some hr
      exact .inr ⟨[], List.nil_sublist _, (List.append_nil _).symm⟩
  | extend source kind place =>
      obtain ⟨r', hr, rfl⟩ := Option.map_eq_some_iff.mp h
      obtain ⟨-, -, rfl⟩ := extend?_eq_some hr
      refine .inr ⟨_, ?_, List.map_append⟩
      exact (List.nil_sublist _).cons_cons _
  | insertBetween id kind place =>
      obtain ⟨r', hr, rfl⟩ := Option.map_eq_some_iff.mp h
      obtain ⟨-, old, -, rfl⟩ := exists_of_insertBetween? hr
      refine .inr ⟨_, ?_, List.map_append⟩
      exact (List.nil_sublist _).cons_cons _

theorem ids_perform? (h : g.perform? s c = some r) :
    (∃ ids, c = .erase ids ∧ (r.graph.blocks.map (·.id)).Sublist (g.blocks.map (·.id))) ∨
      ∃ new, new.Sublist (g.drawn s c) ∧
        r.graph.blocks.map (·.id) = g.blocks.map (·.id) ++ new := by
  rcases signatures_perform? h with ⟨ids, rfl, hgraph⟩ | ⟨new, hnew, hsignatures⟩
  · refine .inl ⟨ids, rfl, ?_⟩
    rw [hgraph]
    exact List.filter_sublist.map _
  · have hids := congrArg (List.map Prod.fst) hsignatures
    rw [List.map_append, List.map_map, List.map_map] at hids
    exact .inr ⟨new.map Prod.fst, hnew, hids⟩

theorem renewed_ids (h : g.perform? s c = some r) :
    Renewed (g.blocks.map (·.id)) (g.drawn s c) (r.graph.blocks.map (·.id)) := by
  rcases ids_perform? h with ⟨ids, rfl, hsub⟩ | ⟨new, hnew, hids⟩
  · exact .of_sublist hsub
  · rw [hids]
    exact .append hnew

theorem hasBlock_iff_mem {id : String} : g.hasBlock id ↔ id ∈ g.blocks.map (·.id) := by
  simp [hasBlock]

theorem hasBlock_perform? (h : g.perform? s c = some r) (hkeeps : ∀ ids, c ≠ .erase ids)
    {id : String} (hid : g.hasBlock id) : r.graph.hasBlock id := by
  rw [hasBlock_iff_mem] at hid ⊢
  rcases ids_perform? h with ⟨ids, herase, -⟩ | ⟨new, -, hids⟩
  · exact absurd herase (hkeeps ids)
  · rw [hids]
    exact List.mem_append_left _ hid

theorem renewed_connectionIds (h : g.perform? s c = some r) :
    Renewed (g.connections.map (·.id)) (g.drawn s c) (r.graph.connections.map (·.id)) := by
  cases c with
  | addBlock kind place =>
      obtain ⟨r', hr, rfl⟩ := Option.map_eq_some_iff.mp h
      obtain ⟨-, rfl⟩ := addBlock?_eq_some hr
      exact .of_sublist (.refl _)
  | revise id patch =>
      obtain ⟨r', hr, rfl⟩ := Option.map_eq_some_iff.mp h
      obtain ⟨b, content, s', -, -, -, rfl⟩ := revise?_eq_some hr
      exact .of_sublist (List.filter_sublist.map _)
  | erase ids =>
      obtain ⟨g', hr, rfl⟩ := Option.map_eq_some_iff.mp h
      obtain rfl := erase?_eq_some hr
      exact .of_sublist (List.filter_sublist.map _)
  | move ids delta =>
      obtain ⟨g', hr, rfl⟩ := Option.map_eq_some_iff.mp h
      obtain rfl := move?_eq_some hr
      exact .of_sublist (.refl _)
  | duplicate ids =>
      obtain ⟨r', hr, rfl⟩ := Option.map_eq_some_iff.mp h
      have hgraph := (duplicate?_eq_some hr).1
      show Renewed _ _ (r'.graph.connections.map (·.id))
      rw [hgraph, List.map_append, ids_links, drawn_duplicate]
      · exact .append (List.sublist_append_right _ _)
      · rw [IdSupply.length_drawAll, List.length_map]
  | connect source target =>
      obtain ⟨r', hr, rfl⟩ := Option.map_eq_some_iff.mp h
      obtain ⟨-, -, rfl⟩ := connect?_eq_some hr
      show Renewed _ _ ((g.connections ++ [_]).map Connection.id)
      rw [List.map_append]
      exact .append (.refl _)
  | disconnect id =>
      obtain ⟨g', hr, rfl⟩ := Option.map_eq_some_iff.mp h
      obtain rfl := disconnect?_eq_some hr
      exact .of_sublist (List.filter_sublist.map _)
  | extend source kind place =>
      obtain ⟨r', hr, rfl⟩ := Option.map_eq_some_iff.mp h
      obtain ⟨-, -, rfl⟩ := extend?_eq_some hr
      show Renewed _ _ ((g.connections ++ [_]).map Connection.id)
      rw [List.map_append]
      exact .append (List.sublist_cons_self _ _)
  | insertBetween id kind place =>
      obtain ⟨r', hr, rfl⟩ := Option.map_eq_some_iff.mp h
      obtain ⟨-, old, -, rfl⟩ := exists_of_insertBetween? hr
      refine ⟨_, _, List.filter_sublist.map _, ?_, List.map_append⟩
      rw [drawn, labels, wayOutOf]
      split <;> exact List.sublist_cons_self _ _

theorem nodup_ids_perform? (h : g.perform? s c = some r) (hnew : c.DrawsNew g s)
    (hids : (g.blocks.map (·.id)).Nodup) : (r.graph.blocks.map (·.id)).Nodup :=
  (renewed_ids h).nodup hids hnew.differ
    fun id hid hmem => hnew.graph id hid (id_mem_names hmem)

theorem nodup_connectionIds_perform? (h : g.perform? s c = some r) (hnew : c.DrawsNew g s)
    (hids : (g.connections.map (·.id)).Nodup) : (r.graph.connections.map (·.id)).Nodup := by
  refine (renewed_connectionIds h).nodup hids hnew.differ ?_
  intro id hid hmem
  obtain ⟨d, hd, rfl⟩ := List.mem_map.mp hmem
  exact hnew.graph _ hid (mem_names_of_connection hd).1

/-- A duplicate makes at least one id, and what it makes are ids of its blocks. -/
theorem exists_made_of_duplicate? {ids : List String} {r : Created (List String)}
    (h : g.duplicate? s ids = some r) : r.made ≠ [] ∧ ∀ id ∈ r.made, r.graph.hasBlock id := by
  obtain ⟨hchosen, hmade⟩ := made_of_duplicate? h
  have hlength := length_copyIds s (g.copyable ids)
  rw [hmade]
  constructor
  · obtain ⟨b, hb⟩ := List.exists_mem_of_ne_nil _ hchosen
    have hkey : b.id ∈ (((g.copyable ids).map (·.id)).zip (copyIds s (g.copyable ids)).1).map
        Prod.fst := by
      rw [List.map_fst_zip (Nat.le_of_eq (by rw [hlength, List.length_map]))]
      exact List.mem_map_of_mem hb
    obtain ⟨⟨old, new⟩, hentry, rfl⟩ := List.mem_map.mp hkey
    obtain ⟨id, hid⟩ := Table.exists_get?_ofList hentry
    exact List.ne_nil_of_mem (List.mem_filterMap.mpr ⟨b, hb, hid⟩)
  · intro id hid
    obtain ⟨b, -, hname⟩ := List.mem_filterMap.mp hid
    obtain ⟨b', hzip, -⟩ := exists_of_renamed hname
    rw [hasBlock_iff_mem, (duplicate?_eq_some h).1, List.map_append, ids_copies hlength]
    exact List.mem_append_right _ (List.of_mem_zip hzip).2

end Graph

end Parley
