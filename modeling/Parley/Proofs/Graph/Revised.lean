/-
# Graphs in which one block says something else

A revision merges a patch into what one block says.  `Revised` tells all that this does to a
graph:

    the block         keeps its id, its place and its kind
    other blocks      stay as they are, where they are
    connections       stay, but where the block is a Buttons block and they leave it at something
                      that is none of its options any more

Options may be given without ids, and ids that are given may be taken already, so it takes an
argument that options which are given back as they were are the same afterwards: their ids differ
and are not empty, hence each is kept (`assign_toDraft`).  By this one option more or less leaves
the others alone.
-/
import Parley.Proofs.Graph.Sound

namespace Parley

/-! ## Options given back -/

namespace Draft

theorem kept?_toDraft {seen : List String} {c : Choice} (hnamed : c.id ≠ "") (hnew : c.id ∉ seen) :
    kept? seen c.toDraft = some c.id :=
  kept?_eq_some_iff.mpr ⟨rfl, hnamed, hnew⟩

/-- Options that have proper ids keep them, and what comes behind is given others. -/
theorem assign_toDraft (s : IdSupply) (ds : List Draft) : ∀ (cs : List Choice) {seen : List String},
    (cs.map (·.id)).Nodup → "" ∉ cs.map (·.id) → (∀ id ∈ cs.map (·.id), id ∉ seen) →
      assign seen s (cs.map Choice.toDraft ++ ds) =
        (cs ++ (assign ((cs.map (·.id)).reverse ++ seen) s ds).1,
          (assign ((cs.map (·.id)).reverse ++ seen) s ds).2)
  | [], _, _, _, _ => rfl
  | c :: cs, seen, hdiffer, hnamed, hnew => by
      obtain ⟨hfirst, hrest⟩ := List.nodup_cons.mp hdiffer
      have hkept : kept? seen c.toDraft = some c.id := by
        refine kept?_toDraft ?_ (hnew c.id List.mem_cons_self)
        rintro hempty
        exact hnamed (hempty ▸ List.mem_cons_self)
      have hnew' : ∀ id ∈ cs.map (·.id), id ∉ c.id :: seen := by
        intro id hid hmem
        rcases List.mem_cons.mp hmem with rfl | hseen
        · exact hfirst hid
        · exact hnew id (List.mem_cons_of_mem _ hid) hseen
      have hseen : ((c :: cs).map (·.id)).reverse ++ seen =
          (cs.map (·.id)).reverse ++ c.id :: seen := by
        rw [List.map_cons, List.reverse_cons, List.append_assoc, List.singleton_append]
      rw [hseen, List.map_cons, List.cons_append, assign, hkept]
      dsimp only
      rw [assign_toDraft s ds cs hrest (List.not_mem_of_not_mem_cons hnamed) hnew']
      rfl

variable {s : IdSupply} {cs : List Choice}

theorem normalize?_toDraft (h : ProperChoices cs) :
    normalize? s (cs.map Choice.toDraft) = some (cs, s) := by
  have hassign := assign_toDraft s [] cs h.differ h.named fun _ _ => List.not_mem_nil
  rw [List.append_nil, assign, List.append_nil] at hassign
  rw [normalize?, List.length_map, if_pos ⟨h.fewest, h.most⟩, hassign]

/-- One option more gets an id that is drawn. -/
theorem normalize?_toDraft_concat (h : ProperChoices cs) (hroom : cs.length < most)
    (label : String) :
    normalize? s (cs.map Choice.toDraft ++ [⟨none, label⟩]) =
      some (cs ++ [⟨(s.draw idLabel).1, label⟩], (s.draw idLabel).2) := by
  have hlength : (cs.map Choice.toDraft ++ [(⟨none, label⟩ : Draft)]).length = cs.length + 1 := by
    rw [List.length_append, List.length_map, List.length_singleton]
  rw [normalize?, hlength, if_pos ⟨Nat.le_succ_of_le h.fewest, hroom⟩,
    assign_toDraft s _ cs h.differ h.named fun _ _ => List.not_mem_nil]
  rfl

end Draft

theorem exists_filter_id_ne {cs : List Choice} {id : String} (hdiffer : (cs.map (·.id)).Nodup)
    (hid : id ∈ cs.map (·.id)) :
    ∃ before gone after, cs = before ++ gone :: after ∧ gone.id = id ∧
      cs.filter (·.id != id) = before ++ after := by
  obtain ⟨gone, hmem, rfl⟩ := List.mem_map.mp hid
  obtain ⟨before, after, rfl⟩ := List.append_of_mem hmem
  refine ⟨before, gone, after, rfl, rfl, ?_⟩
  rw [List.map_append, List.map_cons, List.nodup_append] at hdiffer
  obtain ⟨-, hafter, hbefore⟩ := hdiffer
  have hothers : ∀ c ∈ before ++ after, (c.id != gone.id) = true := by
    intro c hc
    rw [bne_iff_ne]
    rcases List.mem_append.mp hc with hleft | hright
    · exact hbefore _ (List.mem_map_of_mem hleft) _ List.mem_cons_self
    · rintro hsame
      exact (List.nodup_cons.mp hafter).1 (hsame ▸ List.mem_map_of_mem hright)
  rw [List.filter_append, List.filter_cons_of_neg (by simp), ← List.filter_append]
  exact List.filter_eq_self.mpr hothers

theorem filter_id_ne_eq_self {cs : List Choice} {id : String} (hid : id ∉ cs.map (·.id)) :
    cs.filter (·.id != id) = cs := by
  refine List.filter_eq_self.mpr fun c hc => bne_iff_ne.mpr ?_
  rintro rfl
  exact hid (List.mem_map_of_mem hc)

theorem ProperChoices.filter {cs : List Choice} (h : ProperChoices cs) (id : String)
    (hmore : Draft.fewest < cs.length) : ProperChoices (cs.filter (·.id != id)) where
  fewest := by
    by_cases hid : id ∈ cs.map (·.id)
    · obtain ⟨before, gone, after, rfl, -, hrest⟩ := exists_filter_id_ne h.differ hid
      rw [hrest]
      rw [List.length_append, List.length_cons] at hmore
      rw [List.length_append]
      omega
    · rw [filter_id_ne_eq_self hid]
      exact h.fewest
  most := Nat.le_trans (List.length_filter_le _ _) h.most
  differ := h.differ.sublist (List.filter_sublist.map _)
  named := fun hempty => h.named ((List.filter_sublist.map _).subset hempty)

namespace Graph

/-! ## Revisions

Of the connections only those are looked at that leave the block, and only where it is a
Buttons block.  They stay if their handle is one of the options that the block has then. -/

/-- The graph `g'` is `g` with other content for its block `b`. -/
structure Revised (g : Graph) (b : Block) (content : Block.Content) (g' : Graph) : Prop where
  /-- Only what the first block of this id says is different. -/
  blocks : ∃ before after, g.blocks = before ++ b :: after ∧ (∀ b' ∈ before, b'.id ≠ b.id) ∧
    g'.blocks = before ++ { b with content } :: after
  kind : content.kind = b.kind
  /-- A Buttons block is left at its options only. -/
  options : ∀ message binds cs, content = .buttons message binds cs →
    g'.connections = g.connections.filter fun c =>
      decide (c.source.block = b.id → c.source.handle ∈ cs.map (·.id))
  others : content.kind ≠ .buttons → g'.connections = g.connections

variable {g : Graph} {s : IdSupply} {id : String} {b : Block}

theorem Revised.mem {content : Block.Content} {g' : Graph} (h : Revised g b content g') :
    { b with content } ∈ g'.blocks := by
  obtain ⟨before, after, -, -, hblocks⟩ := h.blocks
  rw [hblocks]
  exact List.mem_append_right _ List.mem_cons_self

theorem changeFirst_append {α : Type} {test : α → Bool} {change : α → α} {x : α} {after : List α}
    (hx : test x) : ∀ {before : List α}, (∀ y ∈ before, (!test y) = true) →
      changeFirst test change (before ++ x :: after) = before ++ change x :: after
  | [], _ => by rw [List.nil_append, changeFirst, if_pos hx, List.nil_append]
  | y :: ys, h => by
      have hy : ¬ test y := by simpa using h y List.mem_cons_self
      rw [List.cons_append, changeFirst, if_neg hy,
        changeFirst_append hx fun z hz => h z (List.mem_cons_of_mem _ hz), List.cons_append]

theorem revised_withContent {content : Block.Content} (hb : g.block? id = some b)
    (hkind : content.kind = b.kind) : Revised g b content (g.withContent id content) := by
  have hid := id_of_block? hb
  subst hid
  refine ⟨?_, hkind, ?_, ?_⟩
  · obtain ⟨htest, before, after, hsplit, hbefore⟩ := List.find?_eq_some_iff_append.mp hb
    refine ⟨before, after, hsplit, fun b' hb' => by simpa using hbefore b' hb', ?_⟩
    show changeFirst _ _ g.blocks = _
    rw [hsplit]
    refine changeFirst_append ?_ hbefore
    exact htest
  · rintro message binds cs rfl
    refine List.filter_congr fun c _ => ?_
    rw [staysAfter, Bool.eq_iff_iff]
    by_cases hsource : c.source.block = b.id <;> simp [hsource]
  · intro hother
    refine List.filter_eq_self.mpr fun c _ => ?_
    cases content with
    | buttons => exact absurd rfl hother
    | welcome | message | question | field | goodbye => rfl

/-- **A patch that is accepted changes what one block says**, and takes away the connections that
this leaves without an option. -/
theorem revised_of_revise? {patch : Block.Patch} {r : Graph × IdSupply}
    (h : g.revise? s id patch = some r) :
    ∃ b content, g.block? id = some b ∧ Revised g b content r.1 := by
  obtain ⟨b, content, s', hb, hmerge, -, rfl⟩ := revise?_eq_some h
  exact ⟨b, content, hb, revised_withContent hb (Block.Patch.kind_merge? hmerge)⟩

theorem revise?_choices {message : String} {binds : Option String} {cs cs' : List Choice}
    {ds : List Draft} {s' : IdSupply} (hb : g.block? id = some b)
    (hcontent : b.content = .buttons message binds cs)
    (hnormal : Draft.normalize? s ds = some (cs', s')) :
    g.revise? s id { choices := some ds } =
      if cs' = cs then none else some (g.withContent id (.buttons message binds cs'), s') := by
  have hmerge : Block.Patch.merge? { choices := some ds } s b.content =
      some (.buttons message binds cs', s') := by
    rw [hcontent]
    simp only [Block.Patch.merge?, hnormal]
    rfl
  have hsame : Block.Content.buttons message binds cs' = b.content ↔ cs' = cs := by
    rw [hcontent]
    simp
  simp only [revise?, hb, hmerge, Option.bind_eq_bind, Option.bind_some, hsame]

end Graph

end Parley
