/-
# Wired graphs

A graph is *wired* if its blocks have different ids and every connection runs
from an output handle that its source block has to the input handle of its target
block.  Every edit keeps a graph wired, given that the connections it is told to
make begin and end at such handles (`Change.FromHandles`) and that no block has
the ids it draws.  The edits do one of three things to a graph:

| edits                            | what they do               | kept by         |
| :------------------------------- | :------------------------- | :-------------- |
| `addBlock`, `duplicate`, `connect`, `extend`, `insertBetween` | add blocks and connections | `Wired.grow` |
| `revise`, `move`                 | change blocks              | `Wired.reshape` |
| `erase`, `disconnect`            | take blocks or connections out | `Wired.shrink` |

So a list of edits keeps a graph wired as well (`wired_performAll`).

Where ids come from a supply whose tokens differ, that they are new is an
invariant: in `WiredFor s k` the tokens that the supply `s` has left below the
`k`th make no id of a block of the graph.
-/
import Parley.Proofs.Graph.Drawn

namespace Parley

namespace Graph

/-- This is an output handle of a block of the graph. -/
def HasOutput (g : Graph) (e : Endpoint) : Prop :=
  ∃ b ∈ g.blocks, b.id = e.block ∧ b.hasOutput e.handle

/-- This is the input handle of a block of the graph. -/
def HasInput (g : Graph) (e : Endpoint) : Prop :=
  ∃ b ∈ g.blocks, b.id = e.block ∧ b.inputHandle? = some e.handle

instance (g : Graph) (e : Endpoint) : Decidable (g.HasOutput e) :=
  inferInstanceAs (Decidable (∃ b ∈ g.blocks, _))

instance (g : Graph) (e : Endpoint) : Decidable (g.HasInput e) :=
  inferInstanceAs (Decidable (∃ b ∈ g.blocks, _))

/-- Ids differ, and every connection runs from an output handle to an input handle. -/
structure Wired (g : Graph) : Prop where
  ids : (g.blocks.map (·.id)).Nodup
  sources : ∀ c ∈ g.connections, g.HasOutput c.source
  targets : ∀ c ∈ g.connections, g.HasInput c.target

/-- Wired, and the next ids of the supply are no ids of the graph. -/
structure WiredFor (s : IdSupply) (k : Nat) (g : Graph) : Prop extends Wired g where
  spared : ∀ b ∈ g.blocks, s.Spares k b.id

end Graph

/-- The output handle from which an edit is told to make a connection. -/
def Change.source? : Change → Option Endpoint
  | .connect source _ | .extend source _ _ => some source
  | _ => none

/-- The input handle to which an edit is told to make a connection. -/
def Change.target? : Change → Option Endpoint
  | .connect _ target => some target
  | _ => none

/-- What an edit is told to connect are handles of the graph. -/
structure Change.FromHandles (c : Change) (g : Graph) : Prop where
  source : ∀ e ∈ c.source?, g.HasOutput e
  target : ∀ e ∈ c.target?, g.HasInput e

instance (c : Change) (g : Graph) : Decidable (c.FromHandles g) :=
  decidable_of_iff ((∀ e ∈ c.source?, g.HasOutput e) ∧ ∀ e ∈ c.target?, g.HasInput e)
    ⟨fun h => ⟨h.1, h.2⟩, fun h => ⟨h.1, h.2⟩⟩

namespace Graph

variable {g g' : Graph} {s s' : IdSupply} {k : Nat}

/-! ## The handles of a wired graph -/

theorem Wired.eq_of_id_eq (h : g.Wired) {b b' : Block} (hb : b ∈ g.blocks) (hb' : b' ∈ g.blocks)
    (hid : b'.id = b.id) : b' = b :=
  List.inj_on_of_nodup_map h.ids hb' hb hid

theorem Wired.hasOutput_iff (h : g.Wired) {b : Block} (hb : b ∈ g.blocks) {handle : String} :
    g.HasOutput ⟨b.id, handle⟩ ↔ b.hasOutput handle := by
  constructor
  · rintro ⟨b', hb', hid, hout⟩
    rwa [h.eq_of_id_eq hb hb' hid] at hout
  · intro hout
    exact ⟨b, hb, rfl, hout⟩

theorem Wired.hasInput_iff (h : g.Wired) {b : Block} (hb : b ∈ g.blocks) {handle : String} :
    g.HasInput ⟨b.id, handle⟩ ↔ b.inputHandle? = some handle := by
  constructor
  · rintro ⟨b', hb', hid, hin⟩
    rwa [h.eq_of_id_eq hb hb' hid] at hin
  · intro hin
    exact ⟨b, hb, rfl, hin⟩

/-! ## Three ways to keep a graph wired

A connection stays attached if its two blocks stay and its handle does.  So blocks may be
added, may be changed as long as no handle is lost that is in use, and may go together with
the connections that touch them. -/

theorem HasOutput.mono {e : Endpoint} (h : g.HasOutput e) (hsub : g.blocks ⊆ g'.blocks) :
    g'.HasOutput e := by
  obtain ⟨b, hb, hat⟩ := h
  exact ⟨b, hsub hb, hat⟩

theorem HasInput.mono {e : Endpoint} (h : g.HasInput e) (hsub : g.blocks ⊆ g'.blocks) :
    g'.HasInput e := by
  obtain ⟨b, hb, hat⟩ := h
  exact ⟨b, hsub hb, hat⟩

theorem Wired.grow (h : g.Wired) (hids : (g'.blocks.map (·.id)).Nodup) (hsub : g.blocks ⊆ g'.blocks)
    (hconnections : ∀ c ∈ g'.connections, c ∈ g.connections ∨
      (g'.HasOutput c.source ∧ g'.HasInput c.target)) : g'.Wired := by
  constructor
  · exact hids
  · intro c hc
    rcases hconnections c hc with hold | hnew
    · exact (h.sources c hold).mono hsub
    · exact hnew.1
  · intro c hc
    rcases hconnections c hc with hold | hnew
    · exact (h.targets c hold).mono hsub
    · exact hnew.2

/-- Every block is changed in its place, keeping its id and its kind, and those
connections stay that still have a handle to leave from. -/
theorem Wired.reshape (h : g.Wired) {change : Block → Block}
    (hblocks : g'.blocks = g.blocks.map change) (hid : ∀ b, (change b).id = b.id)
    (hkind : ∀ b ∈ g.blocks, (change b).kind = b.kind)
    (hconnections : ∀ c ∈ g'.connections, c ∈ g.connections ∧
      ∀ b ∈ g.blocks, b.id = c.source.block → b.hasOutput c.source.handle →
        (change b).hasOutput c.source.handle) :
    g'.Wired := by
  have hchanged : ∀ b ∈ g.blocks, change b ∈ g'.blocks :=
    fun b hb => hblocks ▸ List.mem_map_of_mem hb
  constructor
  · have hsame : g'.blocks.map (·.id) = g.blocks.map (·.id) := by
      rw [hblocks, List.map_map]
      exact List.map_congr_left fun b _ => hid b
    rw [hsame]
    exact h.ids
  · intro c hc
    obtain ⟨hmem, hstill⟩ := hconnections c hc
    obtain ⟨b, hb, hbid, hout⟩ := h.sources c hmem
    exact ⟨change b, hchanged b hb, (hid b).trans hbid, hstill b hb hbid hout⟩
  · intro c hc
    obtain ⟨b, hb, hbid, hin⟩ := h.targets c (hconnections c hc).1
    refine ⟨change b, hchanged b hb, (hid b).trans hbid, ?_⟩
    rw [Block.inputHandle?, hkind b hb]
    exact hin

theorem Wired.shrink (h : g.Wired) {stays : Block → Bool}
    (hblocks : g'.blocks = g.blocks.filter stays)
    (hconnections : ∀ c ∈ g'.connections, c ∈ g.connections ∧
      ∀ b ∈ g.blocks, b.id = c.source.block ∨ b.id = c.target.block → stays b) :
    g'.Wired := by
  have hstay : ∀ b ∈ g.blocks, stays b → b ∈ g'.blocks :=
    fun b hb hstays => hblocks ▸ List.mem_filter.mpr ⟨hb, hstays⟩
  constructor
  · rw [hblocks]
    exact h.ids.sublist (List.filter_sublist.map _)
  · intro c hc
    obtain ⟨hmem, hends⟩ := hconnections c hc
    obtain ⟨b, hb, hbid, hout⟩ := h.sources c hmem
    exact ⟨b, hstay b hb (hends b hb (.inl hbid)), hbid, hout⟩
  · intro c hc
    obtain ⟨hmem, hends⟩ := hconnections c hc
    obtain ⟨b, hb, hbid, hin⟩ := h.targets c hmem
    exact ⟨b, hstay b hb (hends b hb (.inr hbid)), hbid, hin⟩

/-! ## Blocks and their handles -/

theorem hasInput_of_new {kind : Block.Kind} {id : String} {place : Position}
    (hblocks : g'.blocks = g.blocks ++ [.ofKind id kind place]) (h : kind.isCreatable) :
    g'.HasInput ⟨id, Block.inputName⟩ := by
  refine ⟨.ofKind id kind place, ?_, rfl, ?_⟩
  · rw [hblocks]
    exact List.mem_append_right _ List.mem_cons_self
  · cases kind with
    | welcome => cases h
    | message | question | buttons | field | goodbye => rfl

theorem hasOutput_of_new {kind : Block.Kind} {id : String} {place : Position}
    (hblocks : g'.blocks = g.blocks ++ [.ofKind id kind place]) (h : kind.hasSingleOutput) :
    g'.HasOutput ⟨id, Block.outputName⟩ := by
  refine ⟨.ofKind id kind place, ?_, rfl, ?_⟩
  · rw [hblocks]
    exact List.mem_append_right _ List.mem_cons_self
  · rw [Block.hasOutput, Block.outputHandles_ofKind id place h]
    exact List.contains_iff_mem.mpr List.mem_cons_self

/-- Only the handles of a Buttons block depend on more than its kind, and there the
connections are dropped that would lose theirs. -/
theorem hasOutput_of_staysAfter {b : Block} {content : Block.Content} {c : Connection}
    (hkind : content.kind = b.kind) (hsource : b.id = c.source.block)
    (hstays : staysAfter b.id content c) (hout : b.hasOutput c.source.handle) :
    Block.hasOutput { b with content } c.source.handle := by
  obtain ⟨id, place, old⟩ := b
  cases content with
  | buttons message binds choices =>
      have hne : (c.source.block != id) = false := by rw [← hsource]; exact bne_self_eq_false _
      simp only [staysAfter, hne, Bool.false_or, List.any_eq_true, beq_iff_eq] at hstays
      obtain ⟨choice, hchoice, hid⟩ := hstays
      exact List.contains_iff_mem.mpr (List.mem_map.mpr ⟨choice, hchoice, hid⟩)
  | welcome | message | question | field | goodbye =>
      cases old with
      | welcome | message | question | field | goodbye | buttons => first | exact hout | cases hkind

/-! ## The edits

Of each edit it is to be seen which of the three it is, and for those that connect something
that both ends are handles.  One end or both may be at a block that the edit has just made,
and of that the handles are known by its kind. -/

theorem changeFirst_eq_map {change : Block → Block} {id : String} :
    ∀ {bs : List Block}, (bs.map (·.id)).Nodup →
      changeFirst (·.id == id) change bs = bs.map fun b => if b.id == id then change b else b
  | [], _ => rfl
  | b :: bs, h => by
      obtain ⟨hnotin, hrest⟩ := List.nodup_cons.mp h
      rw [changeFirst, List.map_cons]
      split
      · rename_i hb
        have hothers : ∀ b' ∈ bs, (if b'.id == id then change b' else b') = b' := by
          intro b' hb'
          rw [if_neg]
          intro hid
          have hsame : b'.id = b.id := (beq_iff_eq.mp hid).trans (beq_iff_eq.mp hb).symm
          exact hnotin (List.mem_map.mpr ⟨b', hb', hsame⟩)
        rw [List.map_congr_left hothers, List.map_id']
      · rw [changeFirst_eq_map hrest]

theorem Wired.withContent (h : g.Wired) {id : String} {b : Block} {content : Block.Content}
    (hb : g.block? id = some b) (hkind : content.kind = b.kind) :
    (g.withContent id content).Wired := by
  have hbid := id_of_block? hb
  have hsame : ∀ b' ∈ g.blocks, b'.id = id → b' = b := by
    intro b' hb' hid
    exact h.eq_of_id_eq (mem_of_block? hb) hb' (hid.trans hbid.symm)
  refine h.reshape (changeFirst_eq_map h.ids) ?_ ?_ ?_
  · intro b'
    split <;> rfl
  · intro b' hb'
    split
    · rename_i hid
      rw [hsame b' hb' (beq_iff_eq.mp hid)]
      exact hkind
    · rfl
  · intro c hc
    obtain ⟨hmem, hstays⟩ := List.mem_filter.mp hc
    refine ⟨hmem, ?_⟩
    intro b' hb' hsource hout
    split
    · rename_i hid
      cases hsame b' hb' (beq_iff_eq.mp hid)
      cases hbid
      exact hasOutput_of_staysAfter hkind hsource hstays hout
    · exact hout

theorem Wired.without (h : g.Wired) (ids : List String) : (g.without ids).Wired := by
  refine h.shrink rfl ?_
  intro c hc
  obtain ⟨hmem, hends⟩ := List.mem_filter.mp hc
  rw [Bool.and_eq_true] at hends
  refine ⟨hmem, ?_⟩
  rintro b - (hsource | htarget)
  · rw [hsource]
    exact hends.1
  · rw [htarget]
    exact hends.2

theorem Wired.displace (h : g.Wired) (ids : List String) (delta : Position) :
    (g.displace ids delta).Wired := by
  refine h.reshape rfl ?_ ?_ ?_
  · intro b
    split <;> rfl
  · intro b _
    split <;> rfl
  · intro c hc
    refine ⟨hc, ?_⟩
    intro b _ _ hout
    split <;> exact hout

theorem Wired.disconnect (h : g.Wired) (id : String) :
    Wired { g with connections := g.connections.filter (·.id != id) } := by
  have hall : g.blocks = g.blocks.filter fun _ => true := (List.filter_true _).symm
  refine h.shrink hall ?_
  intro c hc
  exact ⟨(List.mem_filter.mp hc).1, fun _ _ _ => rfl⟩

section Growth

variable {kind : Block.Kind} {place : Position} {source target : Endpoint} {r : Created String}

theorem Wired.connect (h : g.Wired) (hsource : g.HasOutput source) (htarget : g.HasInput target)
    (hr : g.connect? s source target = some r) : r.graph.Wired := by
  obtain ⟨-, -, rfl⟩ := connect?_eq_some hr
  refine h.grow h.ids (List.Subset.refl _) ?_
  intro c hc
  rcases List.mem_append.mp hc with hold | hnew
  · exact .inl hold
  · rw [List.mem_singleton.mp hnew]
    exact .inr ⟨hsource, htarget⟩

theorem Wired.extend (h : g.Wired) (hsource : g.HasOutput source)
    (hr : g.extend? s source kind place = some r) (hids : (r.graph.blocks.map (·.id)).Nodup) :
    r.graph.Wired := by
  obtain ⟨hkind, -, rfl⟩ := extend?_eq_some hr
  refine h.grow hids (List.subset_append_left _ _) ?_
  intro c hc
  rcases List.mem_append.mp hc with hold | hnew
  · exact .inl hold
  · rw [List.mem_singleton.mp hnew]
    exact .inr ⟨hsource.mono (List.subset_append_left _ _), hasInput_of_new rfl hkind⟩

theorem Wired.insertBetween {id : String} (h : g.Wired)
    (hr : g.insertBetween? s id kind place = some r)
    (hids : (r.graph.blocks.map (·.id)).Nodup) : r.graph.Wired := by
  obtain ⟨hkind, old, hold, rfl⟩ := exists_of_insertBetween? hr
  have hmem : old ∈ g.connections := List.mem_of_find?_eq_some hold
  refine h.grow hids (List.subset_append_left _ _) ?_
  intro c hc
  rcases List.mem_append.mp hc with hkept | hadded
  · exact .inl (List.mem_filter.mp hkept).1
  rcases List.mem_cons.mp hadded with rfl | honward
  · exact .inr ⟨(h.sources old hmem).mono (List.subset_append_left _ _), hasInput_of_new rfl hkind⟩
  · obtain ⟨hsingle, rfl⟩ := of_mem_wayOutOf honward
    exact .inr
      ⟨hasOutput_of_new rfl hsingle, (h.targets old hmem).mono (List.subset_append_left _ _)⟩

end Growth

theorem mem_of_mem_copyable {b : Block} {ids : List String} (h : b ∈ g.copyable ids) :
    b ∈ g.blocks :=
  (List.mem_filter.mp h).1

theorem Wired.duplicate {ids : List String} {r : Created (List String)} (h : g.Wired)
    (hr : g.duplicate? s ids = some r) (hids : (r.graph.blocks.map (·.id)).Nodup) :
    r.graph.Wired := by
  have hgraph := (duplicate?_eq_some hr).1
  rw [hgraph] at hids ⊢
  refine h.grow hids (List.subset_append_left _ _) ?_
  intro d hd
  rcases List.mem_append.mp hd with hold | hnew
  · exact .inl hold
  · obtain ⟨c, hc, b, b', hb, hb', hsource, htarget⟩ := exists_of_mem_links hnew
    have hout := h.sources c hc
    have hin := h.targets c hc
    rw [hsource, h.hasOutput_iff (mem_of_mem_copyable (List.of_mem_zip hb).1)] at hout
    rw [htarget, h.hasInput_iff (mem_of_mem_copyable (List.of_mem_zip hb').1)] at hin
    exact .inr
      ⟨⟨_, List.mem_append_right _ (mem_copies.mpr ⟨b, _, hb, rfl⟩), rfl, hout⟩,
        ⟨_, List.mem_append_right _ (mem_copies.mpr ⟨b', _, hb', rfl⟩), rfl, hin⟩⟩

/-- Every edit keeps a graph wired that is told to connect handles of the graph and
draws ids that no block has. -/
theorem Wired.perform? {c : Change} {r : Created Made} (h : g.Wired) (hfrom : c.FromHandles g)
    (hdiffer : (g.drawn s c).Nodup) (hnew : ∀ id ∈ g.drawn s c, id ∉ g.blocks.map (·.id))
    (hr : g.perform? s c = some r) : r.graph.Wired := by
  have hids : (r.graph.blocks.map (·.id)).Nodup := (renewed_ids hr).nodup h.ids hdiffer hnew
  cases c with
  | addBlock kind place =>
      obtain ⟨r', hr', rfl⟩ := Option.map_eq_some_iff.mp hr
      obtain ⟨-, rfl⟩ := addBlock?_eq_some hr'
      exact h.grow hids (List.subset_append_left _ _) fun c hc => .inl hc
  | revise id patch =>
      obtain ⟨r', hr', rfl⟩ := Option.map_eq_some_iff.mp hr
      obtain ⟨b, content, s', hb, hmerge, -, rfl⟩ := revise?_eq_some hr'
      exact h.withContent hb (Block.Patch.kind_merge? hmerge)
  | erase ids =>
      obtain ⟨g', hg', rfl⟩ := Option.map_eq_some_iff.mp hr
      rw [erase?_eq_some hg']
      exact h.without _
  | move ids delta =>
      obtain ⟨g', hg', rfl⟩ := Option.map_eq_some_iff.mp hr
      rw [move?_eq_some hg']
      exact h.displace ids delta
  | duplicate ids =>
      obtain ⟨r', hr', rfl⟩ := Option.map_eq_some_iff.mp hr
      exact h.duplicate hr' hids
  | connect source target =>
      obtain ⟨r', hr', rfl⟩ := Option.map_eq_some_iff.mp hr
      exact h.connect (hfrom.source source rfl) (hfrom.target target rfl) hr'
  | disconnect id =>
      obtain ⟨g', hg', rfl⟩ := Option.map_eq_some_iff.mp hr
      rw [disconnect?_eq_some hg']
      exact h.disconnect id
  | extend source kind place =>
      obtain ⟨r', hr', rfl⟩ := Option.map_eq_some_iff.mp hr
      exact h.extend (hfrom.source source rfl) hr' hids
  | insertBetween id kind place =>
      obtain ⟨r', hr', rfl⟩ := Option.map_eq_some_iff.mp hr
      exact h.insertBetween hr' hids

/-! ## Ids that stay new

An edit has to find its ids new in the graph that it is made on, which other edits have made.
Ids that were drawn go on to be none that will be drawn as long as the tokens differ, and
that is asked of the supply once and for all. -/

theorem WiredFor.later (h : g.WiredFor s k) (hlater : s.Later s') : g.WiredFor s' k :=
  { h with spared := fun b hb => (h.spared b hb).later hlater }

theorem WiredFor.displace (h : g.WiredFor s k) (ids : List String) (delta : Position) :
    (g.displace ids delta).WiredFor s k := by
  refine ⟨h.toWired.displace ids delta, ?_⟩
  intro b' hb'
  obtain ⟨b, hb, rfl⟩ := List.mem_map.mp hb'
  split <;> exact h.spared b hb

/-- While the tokens differ that are drawn, an edit finds its ids new and leaves the
next ones new. -/
theorem WiredFor.perform? {c : Change} {r : Created Made} (h : g.WiredFor s k) (hd : s.Differ k)
    (hfrom : c.FromHandles g) (hr : g.perform? s c = some r) (hk : r.supply.used ≤ k) :
    r.graph.WiredFor r.supply k := by
  have hlater := later_perform? hr
  have hnew : ∀ id ∈ g.drawn s c, id ∉ g.blocks.map (·.id) := by
    intro id hid hmem
    obtain ⟨b, hb, rfl⟩ := List.mem_map.mp hmem
    exact (h.spared b hb).ne (drawn_of_mem_drawn hr hid) hk rfl
  refine ⟨h.toWired.perform? hfrom (nodup_drawn hd hr hk) hnew hr, ?_⟩
  intro b hb
  rcases (renewed_ids hr).mem (List.mem_map_of_mem hb) with hold | hdrawn
  · obtain ⟨b', hb', hid⟩ := List.mem_map.mp hold
    rw [← hid]
    exact (h.spared b' hb').later hlater
  · exact (drawn_of_mem_drawn hr hdrawn).spares hd hlater hk

/-! ## Lists of edits -/

/-- The graph after a list of edits, with what is left of the supply.  An edit that is
refused leaves both as they are. -/
def performAll (g : Graph) (s : IdSupply) : List Change → Graph × IdSupply
  | [] => (g, s)
  | c :: cs =>
    match g.perform? s c with
    | some r => r.graph.performAll r.supply cs
    | none => g.performAll s cs

/-- The edits of a list that are carried out, each with the graph and the supply that it
starts from. -/
def carriedOut (g : Graph) (s : IdSupply) : List Change → List (Graph × IdSupply × Change)
  | [] => []
  | c :: cs =>
    match g.perform? s c with
    | some r => (g, s, c) :: r.graph.carriedOut r.supply cs
    | none => g.carriedOut s cs

/-- **Lists of edits keep a graph wired**, where each that is carried out connects
handles that its graph has and draws ids that are new to it. -/
theorem wired_performAll (h : g.Wired) (s : IdSupply) (cs : List Change)
    (hfrom : ∀ x ∈ g.carriedOut s cs, x.2.2.FromHandles x.1)
    (hnew : ∀ x ∈ g.carriedOut s cs, x.2.2.DrawsNew x.1 x.2.1) : (g.performAll s cs).1.Wired := by
  induction cs generalizing g s with
  | nil => exact h
  | cons c cs ih =>
      rw [performAll]
      rw [carriedOut] at hfrom hnew
      cases hr : g.perform? s c with
      | none =>
          rw [hr] at hfrom hnew
          exact ih h s hfrom hnew
      | some r =>
          rw [hr] at hfrom hnew
          obtain ⟨hhandles, hfrom⟩ := List.forall_mem_cons.mp hfrom
          obtain ⟨hids, hnew⟩ := List.forall_mem_cons.mp hnew
          have hblocks : ∀ id ∈ g.drawn s c, id ∉ g.blocks.map (·.id) :=
            fun id hid hmem => hids.graph id hid (id_mem_names hmem)
          exact ih (h.perform? hhandles hids.differ hblocks hr) r.supply hfrom hnew

/-- Edits of all kinds, one of them refused.  The options of the Buttons block are
replaced while one of them is connected, and its copy is removed again. -/
def rewiring : List Change :=
  [.addBlock .buttons ⟨400, 150⟩, .addBlock .goodbye ⟨600, 150⟩,
    .connect ⟨"start", "output"⟩ ⟨"buttons-0", "input"⟩,
    .connect ⟨"buttons-0", "btn-2"⟩ ⟨"goodbye-1", "input"⟩, .addBlock .welcome ⟨0, 0⟩,
    .revise "buttons-0" { choices := some [⟨some "btn-2", "Yes"⟩, ⟨none, "No"⟩] },
    .duplicate ["buttons-0", "goodbye-1"], .extend ⟨"buttons-0", "btn-4"⟩ .message ⟨600, 300⟩,
    .insertBetween "conn-2" .question ⟨300, 150⟩, .move ["start"] ⟨10, 0⟩, .disconnect "conn-3",
    .erase ["buttons-5"]]

theorem wired_performAll_rewiring :
    (seed.carriedOut ⟨toString, 0⟩ rewiring).length = 11 ∧
      (∀ x ∈ seed.carriedOut ⟨toString, 0⟩ rewiring, x.2.2.FromHandles x.1) ∧
      (∀ x ∈ seed.carriedOut ⟨toString, 0⟩ rewiring, x.2.2.DrawsNew x.1 x.2.1) ∧
      (seed.performAll ⟨toString, 0⟩ rewiring).1.Wired := by
  have hseed : seed.Wired := ⟨by decide, List.forall_mem_nil _, List.forall_mem_nil _⟩
  have hfrom : ∀ x ∈ seed.carriedOut ⟨toString, 0⟩ rewiring, x.2.2.FromHandles x.1 := by
    decide +kernel
  have hnew : ∀ x ∈ seed.carriedOut ⟨toString, 0⟩ rewiring, x.2.2.DrawsNew x.1 x.2.1 := by
    decide +kernel
  exact ⟨by decide +kernel, hfrom, hnew, wired_performAll hseed ⟨toString, 0⟩ rewiring hfrom hnew⟩

end Graph

end Parley
