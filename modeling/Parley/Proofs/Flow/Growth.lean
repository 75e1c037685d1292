/-
# Flows that grow

A flow *extends* another if it is entered at the same block and has all the steps of the
other, and maybe more.  A graph *outgrows* another if blocks may lie elsewhere and what is
added to it is beside the way of every conversation:

    a block        under an id that the old graph does not name, and no Welcome block
    a connection   from such a block, or from a handle that another connection leaves

That the id is not named matters also where the old graph has no block of that id: a
connection may lead there, and the new block would give it somewhere to go.

Since the first connection counts, an added one that comes second is not followed.  So every
way from an old block is as before (`Outgrows.wayOn`), and the flow of a graph that outgrows
another extends the flow of the other (`Outgrows.extends`).  This is true of repeated ids
too, for the last block of an id gives the step, and an added block has none of the old ids.

`outgrows_perform?` lists the edits that make a graph outgrow the old one.
-/
import Parley.Proofs.Flow.Closed
import Parley.Proofs.Graph.Drawn

namespace Parley

namespace Flow

/-- A flow that is entered at the same block and has all the steps. -/
structure Extends (f f' : Flow) : Prop where
  entry : f'.entry = f.entry
  steps : ∀ id step, f.step? id = some step → f'.step? id = some step

theorem stepAt_congr {g g' : Graph} {b b' : Block} (hid : b'.id = b.id)
    (hcontent : b'.content = b.content)
    (hways : ∀ handle, wayOn g' ⟨b.id, handle⟩ = wayOn g ⟨b.id, handle⟩) :
    stepAt g' b' = stepAt g b := by
  simp only [stepAt, hid, hcontent, hways]

theorem isSome_step?_of_entry {g : Graph} {id : String} (h : id ∈ (ofGraph g).entry) :
    ((ofGraph g).step? id).isSome := by
  obtain ⟨b, hb, rfl⟩ := Option.map_eq_some_iff.mp h
  rw [isSome_step?_ofGraph, Graph.hasBlock_iff_mem]
  exact List.mem_map_of_mem (List.mem_of_find?_eq_some hb)

end Flow

namespace Graph

/-- The blocks and connections of a graph, with blocks put elsewhere and with more of both
beside the way. -/
structure Outgrows (g g' : Graph) : Prop where
  blocks : ∃ (moved : Block → Block) (more : List Block),
    g'.blocks = g.blocks.map moved ++ more ∧
      (∀ b, (moved b).id = b.id ∧ (moved b).content = b.content) ∧
      ∀ b ∈ more, b.id ∉ g.names ∧ b.isWelcome = false
  connections : ∃ more : List Connection, g'.connections = g.connections ++ more ∧
    ∀ d ∈ more, d.source.block ∉ g.names ∨ g.outgoing d.source ≠ []

variable {g g' : Graph}

/-! ## Ways

Of the connections that leave a handle the first counts, and what is added comes behind the
others.  An added connection that leaves a known block leaves it at a handle that has one
already, so it is never the first. -/

theorem Outgrows.successor? (h : g.Outgrows g') {source : Endpoint}
    (hsource : source.block ∈ g.names) : g'.successor? source = g.successor? source := by
  obtain ⟨more, hmore, hbeside⟩ := h.connections
  rw [Graph.successor?, Graph.successor?, hmore, List.find?_append]
  cases hfirst : g.connections.find? (·.source == source) with
  | some d => rfl
  | none =>
      have hnone : more.find? (·.source == source) = none := by
        rw [List.find?_eq_none]
        intro d hd hleaves
        have hsame : d.source = source := beq_iff_eq.mp hleaves
        rcases hbeside d hd with hnew | hsecond
        · exact hnew (hsame ▸ hsource)
        · apply hsecond
          rw [hsame, outgoing, List.filter_eq_nil_iff]
          exact List.find?_eq_none.mp hfirst
      rw [hnone]
      rfl

theorem Outgrows.hasBlock (h : g.Outgrows g') {id : String} (hid : id ∈ g.names) :
    g'.hasBlock id = g.hasBlock id := by
  obtain ⟨moved, more, hblocks, hmoved, hmore⟩ := h.blocks
  rw [Bool.eq_iff_iff, hasBlock_iff_mem, hasBlock_iff_mem, hblocks, List.map_append, List.map_map,
    List.mem_append]
  have hsame : g.blocks.map ((·.id) ∘ moved) = g.blocks.map (·.id) :=
    List.map_congr_left fun b _ => (hmoved b).1
  rw [hsame]
  refine or_iff_left ?_
  intro hadded
  obtain ⟨b, hb, rfl⟩ := List.mem_map.mp hadded
  exact (hmore b hb).1 hid

theorem Outgrows.wayOn (h : g.Outgrows g') {source : Endpoint} (hsource : source.block ∈ g.names) :
    Flow.wayOn g' source = Flow.wayOn g source := by
  rw [Flow.wayOn, Flow.wayOn, h.successor? hsource]
  cases hnext : g.successor? source with
  | none => rfl
  | some t => rw [Option.filter_some, Option.filter_some, h.hasBlock (mem_names_of_successor? hnext)]

/-! ## The flow -/

theorem Outgrows.welcome? (h : g.Outgrows g') :
    g'.welcome?.map (·.id) = g.welcome?.map (·.id) := by
  obtain ⟨moved, more, hblocks, hmoved, hmore⟩ := h.blocks
  have hkind : Block.isWelcome ∘ moved = Block.isWelcome := by
    funext b
    rw [Function.comp_apply, Block.isWelcome, Block.kind, (hmoved b).2]
    rfl
  have hnone : more.find? Block.isWelcome = none := by
    rw [List.find?_eq_none]
    intro b hb
    rw [(hmore b hb).2]
    exact Bool.false_ne_true
  rw [Graph.welcome?, Graph.welcome?, hblocks, List.find?_append, List.find?_map, hkind, hnone,
    Option.or_none, Option.map_map]
  congr 1
  funext b
  exact (hmoved b).1

/-- **The flow of a graph that outgrows another extends the flow of the other.** -/
theorem Outgrows.extends (h : g.Outgrows g') : (Flow.ofGraph g).Extends (Flow.ofGraph g') where
  entry := h.welcome?
  steps := by
    intro id step hstep
    obtain ⟨moved, more, hblocks, hmoved, hmore⟩ := h.blocks
    rw [Flow.step?_ofGraph, Option.map_eq_some_iff] at hstep ⊢
    obtain ⟨b, hfind, rfl⟩ := hstep
    have hb : b ∈ g.blocks := List.mem_reverse.mp (List.mem_of_find?_eq_some hfind)
    have hid : b.id = id := by simpa using List.find?_some hfind
    have hnamed : b.id ∈ g.names := id_mem_names (List.mem_map_of_mem hb)
    have hnone : more.reverse.find? (·.id == id) = none := by
      rw [List.find?_eq_none]
      intro b' hb' hsame
      apply (hmore b' (List.mem_reverse.mp hb')).1
      rw [beq_iff_eq.mp hsame, ← hid]
      exact hnamed
    have hmovedId : (fun b' : Block => b'.id == id) ∘ moved = (·.id == id) := by
      funext b'
      rw [Function.comp_apply, (hmoved b').1]
    refine ⟨moved b, ?_, ?_⟩
    · rw [hblocks, List.reverse_append, List.find?_append, hnone, ← List.map_reverse,
        List.find?_map, hmovedId, hfind]
      rfl
    · exact Flow.stepAt_congr (hmoved b).1 (hmoved b).2 fun handle => h.wayOn hnamed

end Graph

/-! ## Edits

Off the course of all conversations are the edits that put nothing at the end of a way: a
block that nothing leads to, a copy of a part, a connection that comes second at its handle,
and a displacement. -/

/-- Edits that add nothing that a conversation over the graph could come to: blocks that
nothing leads to, or a second way from a handle. -/
def Change.OffCourse (g : Graph) : Change → Prop
  | .addBlock kind _ => kind ≠ .welcome
  | .move .. | .duplicate _ => True
  | .connect source _ | .extend source _ _ => g.outgoing source ≠ []
  | .revise .. | .erase _ | .disconnect _ | .insertBetween .. => False

namespace Graph

variable {g g' : Graph} {s : IdSupply}

/-- Nothing is moved and these are added. -/
theorem Outgrows.of_append {more : List Block} {links : List Connection}
    (hblocks : g'.blocks = g.blocks ++ more) (hconnections : g'.connections = g.connections ++ links)
    (hmore : ∀ b ∈ more, b.id ∉ g.names ∧ b.isWelcome = false)
    (hlinks : ∀ d ∈ links, d.source.block ∉ g.names ∨ g.outgoing d.source ≠ []) :
    g.Outgrows g' where
  blocks := by
    refine ⟨id, more, ?_, fun _ => ⟨rfl, rfl⟩, hmore⟩
    rw [List.map_id]
    exact hblocks
  connections := ⟨links, hconnections, hlinks⟩

theorem isWelcome_ofKind_of_ne {kind : Block.Kind} (h : kind ≠ .welcome) (id : String)
    (place : Position) : (Block.ofKind id kind place).isWelcome = false := by
  rw [Block.isWelcome, Block.kind_ofKind]
  exact beq_eq_false_iff_ne.mpr h

theorem outgrows_displace (g : Graph) (ids : List String) (delta : Position) :
    g.Outgrows (g.displace ids delta) where
  blocks := by
    refine ⟨fun b => if ids.contains b.id then { b with position := b.position + delta } else b,
      [], (List.append_nil _).symm, ?_, List.forall_mem_nil _⟩
    intro b
    dsimp only
    split <;> exact ⟨rfl, rfl⟩
  connections := ⟨[], (List.append_nil _).symm, List.forall_mem_nil _⟩

theorem outgrows_duplicate {ids : List String} {r : Created (List String)}
    (hr : g.duplicate? s ids = some r) (hnew : ∀ id ∈ g.drawn s (.duplicate ids), id ∉ g.names) :
    g.Outgrows r.graph := by
  have hgraph := (duplicate?_eq_some hr).1
  have hcopy : ∀ id ∈ (copyIds s (g.copyable ids)).1, id ∉ g.names := by
    intro id hid
    apply hnew
    rw [drawn_duplicate]
    exact List.mem_append_left _ hid
  rw [hgraph]
  refine .of_append rfl rfl ?_ ?_
  · intro b hb
    obtain ⟨original, id, hzip, rfl⟩ := mem_copies.mp hb
    obtain ⟨horiginal, hid⟩ := List.of_mem_zip hzip
    have hkind := (Bool.and_eq_true_iff.mp (List.mem_filter.mp horiginal).2).2
    exact ⟨hcopy id hid, Bool.not_eq_true' _ ▸ hkind⟩
  · intro d hd
    obtain ⟨c, -, b, b', hb, -, -, -⟩ := exists_of_mem_links hd
    exact .inl (hcopy _ (List.of_mem_zip hb).2)

/-- **An edit off the course of all conversations makes the graph outgrow the old one**, if
the old one does not name the ids that are drawn. -/
theorem outgrows_perform? {c : Change} {r : Created Made} (hr : g.perform? s c = some r)
    (hoff : c.OffCourse g) (hnew : ∀ id ∈ g.drawn s c, id ∉ g.names) : g.Outgrows r.graph := by
  cases c with
  | addBlock kind place =>
      obtain ⟨r', hr', rfl⟩ := Option.map_eq_some_iff.mp hr
      obtain ⟨-, rfl⟩ := addBlock?_eq_some hr'
      refine .of_append rfl (List.append_nil _).symm ?_ (List.forall_mem_nil _)
      intro b hb
      rw [List.mem_singleton.mp hb]
      exact ⟨hnew _ List.mem_cons_self, isWelcome_ofKind_of_ne hoff _ place⟩
  | move ids delta =>
      obtain ⟨g', hg', rfl⟩ := Option.map_eq_some_iff.mp hr
      obtain rfl := move?_eq_some hg'
      exact outgrows_displace g ids delta
  | duplicate ids =>
      obtain ⟨r', hr', rfl⟩ := Option.map_eq_some_iff.mp hr
      exact outgrows_duplicate hr' hnew
  | connect source target =>
      obtain ⟨r', hr', rfl⟩ := Option.map_eq_some_iff.mp hr
      obtain ⟨-, -, rfl⟩ := connect?_eq_some hr'
      refine .of_append (List.append_nil _).symm rfl (List.forall_mem_nil _) ?_
      intro d hd
      rw [List.mem_singleton.mp hd]
      exact .inr hoff
  | extend source kind place =>
      obtain ⟨r', hr', rfl⟩ := Option.map_eq_some_iff.mp hr
      obtain ⟨hkind, -, rfl⟩ := extend?_eq_some hr'
      refine .of_append rfl rfl ?_ ?_
      · intro b hb
        rw [List.mem_singleton.mp hb]
        exact ⟨hnew _ List.mem_cons_self, isWelcome_ofKind_of_ne (bne_iff_ne.mp hkind) _ place⟩
      · intro d hd
        rw [List.mem_singleton.mp hd]
        exact .inr hoff
  | revise | erase | disconnect | insertBetween => cases hoff

end Graph

end Parley
