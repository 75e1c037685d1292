/-
# Sound graphs

A graph is *sound* if

    welcome         at most one of its blocks is a Welcome block
    ids             its blocks have different ids
    options         every Buttons block has one to five options, with different ids
                    that are not empty
    connectionIds   its connections have different ids
    loops           no connection leads back to the block it leaves
    links           no two connections have the same ends

Nothing is said here of the blocks at the ends of a connection, which need not
exist.  Every edit keeps a graph sound, whatever it is told, if the ids are new
that it draws.

The ids are kept apart for all edits at once (`nodup_ids_perform?`).  For the rest
an edit either adds blocks and connections at the end (`Sound.grow`) or only takes
some away and changes blocks in their place (`Sound.restrict`).  An edit looks for
a connection with the same ends where it is told both of them; elsewhere one end of
what it adds is a block that it has just made, which no connection knows.
-/
import Parley.Proofs.Graph.Drafts

namespace Parley

/-- One to five options, with different ids that are not empty. -/
structure ProperChoices (cs : List Choice) : Prop where
  fewest : Draft.fewest ≤ cs.length
  most : cs.length ≤ Draft.most
  differ : (cs.map (·.id)).Nodup
  named : "" ∉ cs.map (·.id)

instance (cs : List Choice) : Decidable (ProperChoices cs) :=
  decidable_of_iff (Draft.fewest ≤ cs.length ∧ cs.length ≤ Draft.most ∧
      (cs.map (·.id)).Nodup ∧ "" ∉ cs.map (·.id))
    ⟨fun h => ⟨h.1, h.2.1, h.2.2.1, h.2.2.2⟩, fun h => ⟨h.1, h.2, h.3, h.4⟩⟩

/-- The options, if it is a Buttons block that says this, are proper. -/
def Block.Content.Proper : Content → Prop
  | .buttons _ _ choices => ProperChoices choices
  | _ => True

instance (c : Block.Content) : Decidable c.Proper :=
  match c with
  | .buttons _ _ choices => inferInstanceAs (Decidable (ProperChoices choices))
  | .welcome _ | .message _ | .question .. | .field _ | .goodbye _ =>
    inferInstanceAs (Decidable True)

/-- Where a connection begins and ends. -/
def Connection.ends (c : Connection) : Endpoint × Endpoint := (c.source, c.target)

structure Graph.Sound (g : Graph) : Prop where
  welcome : g.blocks.countP (·.isWelcome) ≤ 1
  ids : (g.blocks.map (·.id)).Nodup
  options : ∀ b ∈ g.blocks, b.content.Proper
  connectionIds : (g.connections.map (·.id)).Nodup
  loops : ∀ c ∈ g.connections, c.isLoop = false
  links : (g.connections.map (·.ends)).Nodup

instance (g : Graph) : Decidable g.Sound :=
  decidable_of_iff (g.blocks.countP (·.isWelcome) ≤ 1 ∧ (g.blocks.map (·.id)).Nodup ∧
      (∀ b ∈ g.blocks, b.content.Proper) ∧ (g.connections.map (·.id)).Nodup ∧
      (∀ c ∈ g.connections, c.isLoop = false) ∧ (g.connections.map (·.ends)).Nodup)
    ⟨fun h => ⟨h.1, h.2.1, h.2.2.1, h.2.2.2.1, h.2.2.2.2.1, h.2.2.2.2.2⟩,
      fun h => ⟨h.1, h.2, h.3, h.4, h.5, h.6⟩⟩

/-! ## Options -/

namespace Draft

theorem proper_normalize? {ds : List Draft} {cs : List Choice} {s s' : IdSupply}
    (h : normalize? s ds = some (cs, s')) (hdiffer : (s.drawAll (lacking [] ds)).1.Nodup)
    (hnew : ∀ id ∈ (s.drawAll (lacking [] ds)).1, id ∉ ds.filterMap (·.id)) :
    ProperChoices cs := by
  obtain ⟨hfewest, hmost, hassign⟩ := normalize?_eq_some h
  have hcs : cs = (assign [] s ds).1 := congrArg Prod.fst hassign
  have hlength : cs.length = ds.length := by rw [hcs, length_assign]
  rw [← hlength] at hfewest hmost
  rw [hcs] at hfewest hmost ⊢
  exact ⟨hfewest, hmost, nodup_ids_assign hdiffer hnew, empty_not_mem_ids_assign⟩

end Draft

namespace Block

theorem Content.proper_initial (kind : Kind) : (initial kind).Proper := by
  cases kind <;> decide

theorem Patch.proper_merge? {p : Patch} {c c' : Content} {s s' : IdSupply} (hc : c.Proper)
    (h : p.merge? s c = some (c', s')) (hdiffer : (s.drawAll (p.labels c)).1.Nodup)
    (hnew : ∀ id ∈ (s.drawAll (p.labels c)).1, id ∉ (p.choices.getD []).filterMap (·.id)) :
    c'.Proper := by
  cases c with
  | buttons message binds choices =>
      rw [labels] at hdiffer hnew
      simp only [merge?] at h
      split at h
      · cases h
        exact hc
      · rename_i ds hds
        rw [hds] at hdiffer hnew
        obtain ⟨⟨cs, s''⟩, hnormal, heq⟩ := Option.map_eq_some_iff.mp h
        cases heq
        exact Draft.proper_normalize? hnormal hdiffer hnew
  | welcome | message | question | field | goodbye =>
      cases h
      trivial

end Block

namespace Graph

variable {g g' : Graph} {s : IdSupply}

/-! ## Two ways to keep a graph sound

What stays of a sound graph is sound, since each clause speaks of blocks or of connections,
one by one or in pairs.  What is added has to be compared with what is there, and `Addable`
is what is left to see of that once ids are known to be new. -/

/-- Blocks and connections go, and blocks change what they say but not their kind. -/
theorem Sound.restrict (h : g.Sound)
    (hkinds : (g'.blocks.map (·.kind)).Sublist (g.blocks.map (·.kind)))
    (hids : (g'.blocks.map (·.id)).Nodup) (hoptions : ∀ b ∈ g'.blocks, b.content.Proper)
    (hconnections : g'.connections.Sublist g.connections) : g'.Sound where
  welcome := by
    have hcount : ∀ bs : List Block, bs.countP (·.isWelcome) =
        (bs.map (·.kind)).countP (· == .welcome) := by
      intro bs
      rw [List.countP_map]
      rfl
    have hle := hkinds.countP_le (p := (· == .welcome))
    rw [← hcount, ← hcount] at hle
    exact Nat.le_trans hle h.welcome
  ids := hids
  options := hoptions
  connectionIds := h.connectionIds.sublist (hconnections.map _)
  loops := fun c hc => h.loops c (hconnections.subset hc)
  links := h.links.sublist (hconnections.map _)

/-- Connections that may be added: no loops, and with ends that differ from each other
and from those that are there. -/
structure Addable (g : Graph) (cs : List Connection) : Prop where
  loops : ∀ c ∈ cs, c.isLoop = false
  differ : (cs.map (·.ends)).Nodup
  apart : ∀ c ∈ cs, ∀ c' ∈ g.connections, c'.ends ≠ c.ends

theorem addable_nil : g.Addable [] := ⟨nofun, List.nodup_nil, nofun⟩

/-- Blocks and connections are added at the end; connections may also go. -/
theorem Sound.grow (h : g.Sound) {new : List Block} {kept added : List Connection}
    (hblocks : g'.blocks = g.blocks ++ new) (hwelcome : g'.blocks.countP (·.isWelcome) ≤ 1)
    (hids : (g'.blocks.map (·.id)).Nodup) (hoptions : ∀ b ∈ new, b.content.Proper)
    (hconnections : g'.connections = kept ++ added) (hkept : kept.Sublist g.connections)
    (hadded : g.Addable added) (hconnectionIds : (g'.connections.map (·.id)).Nodup) :
    g'.Sound where
  welcome := hwelcome
  ids := hids
  options := by
    intro b hb
    rw [hblocks] at hb
    rcases List.mem_append.mp hb with hold | hnew
    · exact h.options b hold
    · exact hoptions b hnew
  connectionIds := hconnectionIds
  loops := by
    intro c hc
    rw [hconnections] at hc
    rcases List.mem_append.mp hc with hold | hnew
    · exact h.loops c (hkept.subset hold)
    · exact hadded.loops c hnew
  links := by
    rw [hconnections, List.map_append, List.nodup_append]
    refine ⟨h.links.sublist (hkept.map _), hadded.differ, ?_⟩
    intro ends hends ends' hends'
    obtain ⟨c, hc, rfl⟩ := List.mem_map.mp hends
    obtain ⟨c', hc', rfl⟩ := List.mem_map.mp hends'
    exact hadded.apart c' hc' c (hkept.subset hc)

theorem ends_ne_of_new {c c' : Connection} (hc : c ∈ g.connections)
    (hnew : c'.source.block ∉ g.names ∨ c'.target.block ∉ g.names) : c.ends ≠ c'.ends := by
  intro heq
  obtain ⟨-, hsource, htarget⟩ := mem_names_of_connection hc
  have hends : c.source = c'.source ∧ c.target = c'.target := Prod.mk.inj heq
  rcases hnew with hnew | hnew
  · exact hnew (hends.1 ▸ hsource)
  · exact hnew (hends.2 ▸ htarget)

/-! ## Single edits

Most edits that add something add one block and connections to or from it.  Its id is new, so
no connection is at it yet, and only connections between known blocks have to be looked for
among those there are. -/

theorem countP_welcome_append {new : List Block} (h : g.blocks.countP (·.isWelcome) ≤ 1)
    (hnew : ∀ b ∈ new, b.isWelcome = false) :
    (g.blocks ++ new).countP (·.isWelcome) ≤ 1 := by
  have hzero : new.countP (·.isWelcome) = 0 := by
    rw [List.countP_eq_zero]
    exact fun b hb => Bool.eq_false_iff.mp (hnew b hb)
  rw [List.countP_append, hzero]
  exact h

theorem isWelcome_ofKind {kind : Block.Kind} {id : String} {place : Position}
    (h : kind.isCreatable) : (Block.ofKind id kind place).isWelcome = false := by
  cases kind with
  | welcome => cases h
  | message | question | buttons | field | goodbye => rfl

theorem Sound.growBlock {kind : Block.Kind} {id : String} {place : Position}
    {kept added : List Connection} (h : g.Sound) (hkind : kind.isCreatable)
    (hblocks : g'.blocks = g.blocks ++ [.ofKind id kind place])
    (hids : (g'.blocks.map (·.id)).Nodup) (hconnections : g'.connections = kept ++ added)
    (hkept : kept.Sublist g.connections) (hadded : g.Addable added)
    (hconnectionIds : (g'.connections.map (·.id)).Nodup) : g'.Sound := by
  refine h.grow hblocks ?_ hids ?_ hconnections hkept hadded hconnectionIds
  · rw [hblocks]
    refine countP_welcome_append h.welcome ?_
    intro b hb
    rw [List.mem_singleton.mp hb]
    exact isWelcome_ofKind hkind
  · intro b hb
    rw [List.mem_singleton.mp hb]
    exact Block.Content.proper_initial kind

theorem Sound.addBlock {kind : Block.Kind} {place : Position} {r : Created String} (h : g.Sound)
    (hr : g.addBlock? s kind place = some r) (hids : (r.graph.blocks.map (·.id)).Nodup) :
    r.graph.Sound := by
  obtain ⟨hallowed, rfl⟩ := addBlock?_eq_some hr
  have hnone : g.connections = g.connections ++ [] := (List.append_nil _).symm
  by_cases hkind : kind.isCreatable
  · exact h.growBlock hkind rfl hids hnone (List.Sublist.refl _) addable_nil h.connectionIds
  · refine h.grow rfl ?_ hids ?_ hnone (List.Sublist.refl _) addable_nil h.connectionIds
    · have hwelcome : kind == .welcome := by simpa [Block.Kind.isCreatable] using hkind
      rw [hwelcome, Bool.true_and] at hallowed
      have hfirst : g.welcome? = none :=
        Option.not_isSome_iff_eq_none.mp (Bool.eq_false_iff.mp hallowed)
      have hzero : g.blocks.countP (·.isWelcome) = 0 := by
        rw [List.countP_eq_zero]
        exact List.find?_eq_none.mp hfirst
      show (g.blocks ++ [_]).countP _ ≤ 1
      rw [List.countP_append, hzero, Nat.zero_add]
      exact List.countP_le_length
    · intro b hb
      rw [List.mem_singleton.mp hb]
      exact Block.Content.proper_initial kind

theorem Sound.displace (h : g.Sound) (ids : List String) (delta : Position) :
    (g.displace ids delta).Sound := by
  refine h.restrict ?_ ?_ ?_ (List.Sublist.refl _)
  · rw [map_displace fun _ _ => rfl]
  · rw [map_displace fun _ _ => rfl]
    exact h.ids
  · intro b' hb'
    obtain ⟨b, hb, rfl⟩ := List.mem_map.mp hb'
    split <;> exact h.options b hb

theorem Sound.connect {source target : Endpoint} {r : Created String} (h : g.Sound)
    (hr : g.connect? s source target = some r)
    (hconnectionIds : (r.graph.connections.map (·.id)).Nodup) : r.graph.Sound := by
  obtain ⟨hloop, hlink, rfl⟩ := connect?_eq_some hr
  refine h.grow (List.append_nil _).symm h.welcome h.ids nofun rfl (List.Sublist.refl _) ?_
    hconnectionIds
  constructor
  · intro c hc
    rw [List.mem_singleton.mp hc]
    exact beq_eq_false_iff_ne.mpr hloop
  · exact List.nodup_singleton _
  · intro c hc c' hc' hends
    rw [List.mem_singleton.mp hc] at hends
    have hsame : c'.source = source ∧ c'.target = target := Prod.mk.inj hends
    have hlinked : g.hasLink source target := by
      refine List.any_eq_true.mpr ⟨c', hc', ?_⟩
      rw [Connection.links, hsame.1, hsame.2]
      simp
    rw [hlink] at hlinked
    cases hlinked

section Growth

variable {kind : Block.Kind} {place : Position} {r : Created String}

theorem Sound.extend {source : Endpoint} (h : g.Sound)
    (hnew : (Change.extend source kind place).DrawsNew g s)
    (hr : g.extend? s source kind place = some r) (hids : (r.graph.blocks.map (·.id)).Nodup)
    (hconnectionIds : (r.graph.connections.map (·.id)).Nodup) : r.graph.Sound := by
  obtain ⟨hkind, hsource, rfl⟩ := extend?_eq_some hr
  have hmade : (s.draw kind.label).1 ∉ g.names := hnew.graph _ List.mem_cons_self
  refine h.growBlock hkind rfl hids rfl (List.Sublist.refl _) ?_ hconnectionIds
  constructor
  · intro c hc
    rw [List.mem_singleton.mp hc]
    refine beq_eq_false_iff_ne.mpr ?_
    intro (hloop : source.block = (s.draw kind.label).1)
    rw [← hloop] at hmade
    exact hmade (id_mem_names (hasBlock_iff_mem.mp hsource))
  · exact List.nodup_singleton _
  · intro c hc c' hc'
    rw [List.mem_singleton.mp hc]
    exact ends_ne_of_new hc' (.inr hmade)

theorem addable_ways {old : Connection} {id link link' : String} (hid : id ∉ g.names)
    (hsource : old.source.block ∈ g.names) (htarget : old.target.block ∈ g.names) :
    g.Addable (wayInto old id link :: wayOutOf old id kind link') where
  loops := by
    intro c hc
    refine beq_eq_false_iff_ne.mpr ?_
    rcases List.mem_cons.mp hc with rfl | hout
    · intro (hloop : old.source.block = id)
      exact hid (hloop ▸ hsource)
    · rw [(of_mem_wayOutOf hout).2]
      intro (hloop : id = old.target.block)
      exact hid (hloop ▸ htarget)
  differ := by
    refine List.nodup_cons.mpr ⟨?_, ?_⟩
    · intro hmem
      obtain ⟨c, hc, hends⟩ := List.mem_map.mp hmem
      rw [(of_mem_wayOutOf hc).2] at hends
      have hsame : id = old.source.block := congrArg (·.1.block) hends
      exact hid (hsame ▸ hsource)
    · unfold wayOutOf
      split
      · exact List.nodup_singleton _
      · exact List.nodup_nil
  apart := by
    intro c hc c' hc'
    rcases List.mem_cons.mp hc with rfl | hout
    · exact ends_ne_of_new hc' (.inr hid)
    · rw [(of_mem_wayOutOf hout).2]
      exact ends_ne_of_new hc' (.inl hid)

theorem Sound.insertBetween {id : String} (h : g.Sound)
    (hnew : (Change.insertBetween id kind place).DrawsNew g s)
    (hr : g.insertBetween? s id kind place = some r) (hids : (r.graph.blocks.map (·.id)).Nodup)
    (hconnectionIds : (r.graph.connections.map (·.id)).Nodup) : r.graph.Sound := by
  obtain ⟨hkind, old, hold, rfl⟩ := exists_of_insertBetween? hr
  have hmade : s.nth kind.label s.used ∉ g.names := hnew.graph _ List.mem_cons_self
  obtain ⟨-, hsource, htarget⟩ := mem_names_of_connection (List.mem_of_find?_eq_some hold)
  exact h.growBlock hkind rfl hids rfl List.filter_sublist (addable_ways hmade hsource htarget)
    hconnectionIds

end Growth

/-! ## Duplicates -/

theorem eq_of_mem_zip {chosen : List Block} {ids : List String} (hids : ids.Nodup)
    (hlength : ids.length = chosen.length) {b b' : Block} {id : String}
    (hb : (b, id) ∈ chosen.zip ids) (hb' : (b', id) ∈ chosen.zip ids) : b = b' := by
  have hnodup : ((chosen.zip ids).map Prod.snd).Nodup := by
    rw [List.map_snd_zip (Nat.le_of_eq hlength)]
    exact hids
  exact congrArg Prod.fst (List.inj_on_of_nodup_map hnodup hb hb' rfl)

/-- Connections with other ends get other ends. -/
theorem nodup_copyEnds {chosen : List Block} {ids : List String} (hids : ids.Nodup)
    (hlength : ids.length = chosen.length) (hlinks : (g.connections.map (·.ends)).Nodup) :
    (g.copyEnds chosen ids).Nodup := by
  rw [copyEnds, renamed_eq, List.Nodup, List.pairwise_filterMap]
  refine (List.pairwise_map.mp hlinks).imp ?_
  intro c c' hne ends hends ends' hends' heq
  subst heq
  obtain ⟨b, d, hb, hd, hsource, htarget⟩ := exists_of_rename hends
  obtain ⟨b', d', hb', hd', hsource', htarget'⟩ := exists_of_rename hends'
  cases eq_of_mem_zip hids hlength hb hb'
  cases eq_of_mem_zip hids hlength hd hd'
  exact hne (Prod.ext (hsource.trans hsource'.symm) (htarget.trans htarget'.symm))

theorem ends_links {ends : List (Endpoint × Endpoint)} {ids : List String}
    (h : ids.length = ends.length) : (links ends ids).map (·.ends) = ends := by
  rw [links, ← List.map_uncurry_zip_eq_zipWith, List.map_map]
  exact List.map_fst_zip (Nat.le_of_eq h.symm)

theorem addable_links {chosen : List Block} {blockIds linkIds : List String} (h : g.Sound)
    (hdiffer : blockIds.Nodup) (hlength : blockIds.length = chosen.length)
    (hlinks : linkIds.length = (g.copyEnds chosen blockIds).length)
    (hnew : ∀ id ∈ blockIds, id ∉ g.names) :
    g.Addable (links (g.copyEnds chosen blockIds) linkIds) where
  loops := by
    intro d hd
    obtain ⟨c, hc, b, b', hb, hb', hsource, htarget⟩ := exists_of_mem_links hd
    refine beq_eq_false_iff_ne.mpr ?_
    intro hloop
    rw [hloop] at hb
    cases eq_of_mem_zip hdiffer hlength hb hb'
    have hstays := h.loops c hc
    rw [Connection.isLoop, hsource, htarget, beq_self_eq_true] at hstays
    cases hstays
  differ := by
    rw [ends_links hlinks]
    exact nodup_copyEnds hdiffer hlength h.links
  apart := by
    intro d hd c' hc'
    obtain ⟨c, hc, b, b', hb, hb', hsource, htarget⟩ := exists_of_mem_links hd
    exact ends_ne_of_new hc' (.inl (hnew _ (List.of_mem_zip hb).2))

theorem Sound.duplicate {ids : List String} {r : Created (List String)} (h : g.Sound)
    (hnew : (Change.duplicate ids).DrawsNew g s) (hr : g.duplicate? s ids = some r)
    (hids : (r.graph.blocks.map (·.id)).Nodup)
    (hconnectionIds : (r.graph.connections.map (·.id)).Nodup) : r.graph.Sound := by
  have hgraph := (duplicate?_eq_some hr).1
  rw [hgraph] at hids hconnectionIds ⊢
  have hsub : (copyIds s (g.copyable ids)).1.Sublist (g.drawn s (.duplicate ids)) := by
    rw [drawn_duplicate]
    exact List.sublist_append_left _ _
  refine h.grow rfl (countP_welcome_append h.welcome ?_) hids ?_ rfl (List.Sublist.refl _) ?_
    hconnectionIds
  · intro b hb
    obtain ⟨original, id, hzip, rfl⟩ := mem_copies.mp hb
    have hchosen := (List.mem_filter.mp (List.of_mem_zip hzip).1).2
    rw [Bool.and_eq_true, Bool.not_eq_true'] at hchosen
    exact hchosen.2
  · intro b hb
    obtain ⟨original, id, hzip, rfl⟩ := mem_copies.mp hb
    exact h.options original (List.mem_filter.mp (List.of_mem_zip hzip).1).1
  · refine addable_links h (hnew.differ.sublist hsub) (length_copyIds s _) ?_
      fun id hid => hnew.graph id (hsub.subset hid)
    rw [IdSupply.length_drawAll, List.length_map]

/-! ## All edits -/

/-- **Every edit keeps a graph sound** that draws new ids. -/
theorem Sound.perform? {c : Change} {r : Created Made} (h : g.Sound) (hnew : c.DrawsNew g s)
    (hr : g.perform? s c = some r) : r.graph.Sound := by
  have hids := nodup_ids_perform? hr hnew h.ids
  have hconnectionIds := nodup_connectionIds_perform? hr hnew h.connectionIds
  cases c with
  | addBlock kind place =>
      obtain ⟨r', hr', rfl⟩ := Option.map_eq_some_iff.mp hr
      exact h.addBlock hr' hids
  | revise id patch =>
      obtain ⟨r', hr', rfl⟩ := Option.map_eq_some_iff.mp hr
      obtain ⟨b, content, s', hb, hmerge, -, rfl⟩ := revise?_eq_some hr'
      have hlabels : g.drawn s (.revise id patch) = (s.drawAll (patch.labels b.content)).1 := by
        rw [drawn, labels, hb, Option.map_some, Option.getD_some]
      refine h.restrict ?_ hids ?_ List.filter_sublist
      · show ((g.withContent id content).blocks.map Block.kind).Sublist _
        rw [kinds_withContent hb (Block.Patch.kind_merge? hmerge)]
      · intro b' hb'
        rcases mem_changeFirst hb' with hold | ⟨b'', -, rfl⟩
        · exact h.options b' hold
        · refine Block.Patch.proper_merge? (h.options b (mem_of_block? hb)) hmerge ?_ ?_
          · rw [← hlabels]
            exact hnew.differ
          · rw [← hlabels]
            exact hnew.edit
  | erase ids =>
      obtain ⟨g', hg', rfl⟩ := Option.map_eq_some_iff.mp hr
      obtain rfl := erase?_eq_some hg'
      refine h.restrict (List.filter_sublist.map _) hids ?_ List.filter_sublist
      intro b hb
      exact h.options b (List.mem_filter.mp hb).1
  | move ids delta =>
      obtain ⟨g', hg', rfl⟩ := Option.map_eq_some_iff.mp hr
      obtain rfl := move?_eq_some hg'
      exact h.displace ids delta
  | duplicate ids =>
      obtain ⟨r', hr', rfl⟩ := Option.map_eq_some_iff.mp hr
      exact h.duplicate hnew hr' hids hconnectionIds
  | connect source target =>
      obtain ⟨r', hr', rfl⟩ := Option.map_eq_some_iff.mp hr
      exact h.connect hr' hconnectionIds
  | disconnect id =>
      obtain ⟨g', hg', rfl⟩ := Option.map_eq_some_iff.mp hr
      obtain rfl := disconnect?_eq_some hg'
      exact h.restrict (List.Sublist.refl _) hids h.options List.filter_sublist
  | extend source kind place =>
      obtain ⟨r', hr', rfl⟩ := Option.map_eq_some_iff.mp hr
      exact h.extend hnew hr' hids hconnectionIds
  | insertBetween id kind place =>
      obtain ⟨r', hr', rfl⟩ := Option.map_eq_some_iff.mp hr
      exact h.insertBetween hnew hr' hids hconnectionIds

end Graph

end Parley
