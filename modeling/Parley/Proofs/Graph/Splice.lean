/-
# A block put into a connection

`insertBetween?` takes a connection out of a graph and puts a block in its
place.  `splice` is the graph this makes, for a given block and given ids, and
`insertBetween?_eq_some` says that the edit is a splice wherever the kind can
be created and the connection exists.

What a splice does to the ways of a conversation is read off the connections that
leave a handle (`outgoing_splice`), in their order:

| handle                        | leaves it before  | leaves it after           |
| :---------------------------- | :---------------- | :------------------------ |
| the source of the connection  | `old :: others`   | `others ++ [into]`        |
| `output` of the new block     | nothing           | the way on, if there is one |
| any other                     | `cs`              | `cs`                      |

A conversation follows the first connection, and the way into the new block comes
last.  So it is followed exactly where `others` is empty: with a second connection
at the handle, the splice of the first diverts the conversation to where the
second one leads (`successor?_insertBetween?`).
-/
import Parley.Graph.Edit
import Parley.Proofs.Table

namespace Parley.Graph

/-! ## The splice -/

/-- The way into a block `id` that is put into a connection. -/
def wayInto (old : Connection) (id link : String) : Connection :=
  ⟨link, old.source, ⟨id, Block.inputName⟩⟩

/-- The way on from it, if its kind has a single way out. -/
def wayOutOf (old : Connection) (id : String) (kind : Block.Kind) (link : String) :
    List Connection :=
  if kind.hasSingleOutput then [⟨link, ⟨id, Block.outputName⟩, old.target⟩] else []

/-- The graph with a new block in the middle of a connection.  The new
connections are called `link` and `link'`. -/
def splice (g : Graph) (old : Connection) (id : String) (kind : Block.Kind) (place : Position)
    (link link' : String) : Graph where
  blocks := g.blocks ++ [.ofKind id kind place]
  connections := g.connections.filter (·.id != old.id) ++
    wayInto old id link :: wayOutOf old id kind link'

theorem of_mem_wayOutOf {old d : Connection} {id link : String} {kind : Block.Kind}
    (h : d ∈ wayOutOf old id kind link) :
    kind.hasSingleOutput ∧ d = ⟨link, ⟨id, Block.outputName⟩, old.target⟩ := by
  unfold wayOutOf at h
  split at h
  · exact ⟨‹_›, List.mem_singleton.mp h⟩
  · cases h

section Insertion

variable {g : Graph} {s : IdSupply} {kind : Block.Kind} {place : Position}

theorem wayOn_eq (s : IdSupply) (id : String) (kind : Block.Kind) (old : Connection) :
    wayOn s id kind old.target =
      (wayOutOf old id kind (s.nth connectionLabel s.used),
        { s with used := s.used + if kind.hasSingleOutput then 1 else 0 }) := by
  unfold wayOn wayOutOf IdSupply.draw
  split <;> rfl

/-- What an insertion makes. -/
theorem insertBetween?_eq_some {id : String} {old : Connection} (hkind : kind.isCreatable)
    (hold : g.connection? id = some old) :
    g.insertBetween? s id kind place = some
      { graph := g.splice old (s.nth kind.label s.used) kind place
          (s.nth connectionLabel (s.used + 1)) (s.nth connectionLabel (s.used + 2))
        supply := { s with used := s.used + 2 + if kind.hasSingleOutput then 1 else 0 }
        made := s.nth kind.label s.used } := by
  have hid : old.id = id := by simpa using List.find?_some hold
  subst hid
  have hguard : (guard (kind.isCreatable = true) : Option Unit) = some () := if_pos hkind
  rw [insertBetween?, hguard, hold]
  simp only [IdSupply.draw, wayOn_eq]
  rfl

theorem exists_of_insertBetween? {id : String} {r : Created String}
    (h : g.insertBetween? s id kind place = some r) :
    kind.isCreatable ∧ ∃ old, g.connection? id = some old ∧ r =
      { graph := g.splice old (s.nth kind.label s.used) kind place
          (s.nth connectionLabel (s.used + 1)) (s.nth connectionLabel (s.used + 2))
        supply := { s with used := s.used + 2 + if kind.hasSingleOutput then 1 else 0 }
        made := s.nth kind.label s.used } := by
  have hinsert := h
  rw [insertBetween?] at hinsert
  obtain ⟨_, hguard, hrest⟩ := Option.bind_eq_some_iff.mp hinsert
  obtain ⟨old, hold, -⟩ := Option.bind_eq_some_iff.mp hrest
  have hkind : kind.isCreatable := by
    by_contra hkind
    rw [guard, if_neg hkind] at hguard
    cases hguard
  rw [insertBetween?_eq_some hkind hold] at h
  exact ⟨hkind, old, hold, (Option.some.inj h).symm⟩

end Insertion

/-! ## The connections that leave a handle

A splice takes one connection out and appends two at most.  So what leaves a handle is read
off three lists: what was there without the old connection, the way in, and the way out. -/

section Outgoing

variable {g : Graph} {old : Connection} {id link link' : String} {kind : Block.Kind}
  {place : Position}

theorem outgoing_splice (g : Graph) (old : Connection) (id : String) (kind : Block.Kind)
    (place : Position) (link link' : String) (e : Endpoint) :
    (g.splice old id kind place link link').outgoing e =
      (g.outgoing e).filter (·.id != old.id) ++
        (wayInto old id link :: wayOutOf old id kind link').filter (·.source == e) := by
  simp only [outgoing, splice, List.filter_append, List.filter_filter, Bool.and_comm]

theorem eq_of_id_eq {c d : Connection} (hids : (g.connections.map (·.id)).Nodup)
    (hc : c ∈ g.connections) (hd : d ∈ g.connections) (h : d.id = c.id) : d = c :=
  List.inj_on_of_nodup_map hids hd hc h

theorem mem_of_mem_outgoing {c : Connection} {e : Endpoint} (h : c ∈ g.outgoing e) :
    c ∈ g.connections ∧ c.source = e := by
  simpa [outgoing] using h

theorem filter_outgoing_of_ne {e : Endpoint} (hids : (g.connections.map (·.id)).Nodup)
    (hold : old ∈ g.connections) (he : e ≠ old.source) :
    (g.outgoing e).filter (·.id != old.id) = g.outgoing e := by
  rw [List.filter_eq_self]
  intro d hd
  obtain ⟨hmem, hsource⟩ := mem_of_mem_outgoing hd
  have hne : d.id ≠ old.id := by
    intro h
    rw [eq_of_id_eq hids hold hmem h] at hsource
    exact he hsource.symm
  exact bne_iff_ne.mpr hne

theorem filter_outgoing_source {others : List Connection}
    (hids : (g.connections.map (·.id)).Nodup) (h : g.outgoing old.source = old :: others) :
    (g.outgoing old.source).filter (·.id != old.id) = others := by
  have hnodup : ((g.outgoing old.source).map (·.id)).Nodup :=
    hids.sublist (List.filter_sublist.map _)
  rw [h, List.map_cons, List.nodup_cons] at hnodup
  rw [h, List.filter_cons_of_neg (by simp), List.filter_eq_self]
  intro d hd
  have hne : d.id ≠ old.id := fun heq => hnodup.1 (heq ▸ List.mem_map_of_mem hd)
  exact bne_iff_ne.mpr hne

end Outgoing

/-! ## Successors

The successor at a handle is the target of the first connection that leaves it.  At the old
source that is the second of before, if there was one, since the way into the new block comes
behind it. -/

section Successors

variable {g : Graph} {old : Connection} {id link link' : String} {kind : Block.Kind}
  {place : Position}

theorem filter_wayInto_of_ne {e : Endpoint} (he : e ≠ old.source) (ways : List Connection) :
    (wayInto old id link :: ways).filter (·.source == e) = ways.filter (·.source == e) :=
  List.filter_cons_of_neg fun h => he (beq_iff_eq.mp h).symm

theorem filter_wayOutOf_of_ne {e : Endpoint} (he : e ≠ ⟨id, Block.outputName⟩) :
    (wayOutOf old id kind link).filter (·.source == e) = [] := by
  rw [List.filter_eq_nil_iff]
  intro d hd
  rw [(of_mem_wayOutOf hd).2, beq_iff_eq]
  exact fun h => he h.symm

/-- What left the source after the old connection comes before the new way. -/
theorem successor?_splice_source {others : List Connection}
    (hids : (g.connections.map (·.id)).Nodup) (hout : g.outgoing old.source = old :: others)
    (hnew : old.source.block ≠ id) :
    (g.splice old id kind place link link').successor? old.source =
      some ((others.head?.map (·.target.block)).getD id) := by
  have hne : old.source ≠ ⟨id, Block.outputName⟩ := fun h => hnew (congrArg Endpoint.block h)
  have hinto : (wayInto old id link).source = old.source := rfl
  rw [successor?_eq_head?_outgoing, outgoing_splice, filter_outgoing_source hids hout,
    List.filter_cons_of_pos (by rw [hinto, beq_self_eq_true]), filter_wayOutOf_of_ne hne]
  cases others with
  | nil => rfl
  | cons d ds => rfl

theorem successor?_splice_new (hfresh : ∀ d ∈ g.connections, d.source.block ≠ id)
    (hold : old ∈ g.connections) :
    (g.splice old id kind place link link').successor? ⟨id, Block.outputName⟩ =
      if kind.hasSingleOutput then some old.target.block else none := by
  have hnone : g.outgoing ⟨id, Block.outputName⟩ = [] := by
    rw [outgoing, List.filter_eq_nil_iff]
    intro d hd h
    exact hfresh d hd (congrArg Endpoint.block (beq_iff_eq.mp h))
  have hne : ⟨id, Block.outputName⟩ ≠ old.source := by
    intro h
    exact hfresh old hold (congrArg Endpoint.block h.symm)
  rw [successor?_eq_head?_outgoing, outgoing_splice, hnone, filter_wayInto_of_ne hne, wayOutOf]
  split <;> simp

theorem successor?_splice_of_ne {e : Endpoint} (hids : (g.connections.map (·.id)).Nodup)
    (hold : old ∈ g.connections) (he : e ≠ old.source) (he' : e ≠ ⟨id, Block.outputName⟩) :
    (g.splice old id kind place link link').successor? e = g.successor? e := by
  rw [successor?_eq_head?_outgoing, outgoing_splice, filter_outgoing_of_ne hids hold he,
    filter_wayInto_of_ne he, filter_wayOutOf_of_ne he', List.append_nil,
    successor?_eq_head?_outgoing]

theorem source_ne_of_mem_splice (hfresh : ∀ d ∈ g.connections, d.source.block ≠ id)
    (hold : old ∈ g.connections) (hkind : kind.hasSingleOutput = false) :
    ∀ d ∈ (g.splice old id kind place link link').connections, d.source.block ≠ id := by
  intro d hd
  rcases List.mem_append.mp hd with hkept | hadded
  · exact hfresh d (List.mem_filter.mp hkept).1
  · rcases List.mem_cons.mp hadded with rfl | hout
    · exact hfresh old hold
    · simp only [wayOutOf, hkind] at hout
      cases hout

end Successors

/-! ## Where an insertion leads the conversation -/

theorem first_mem {g : Graph} {c : Connection} {e : Endpoint}
    (h : (g.outgoing e).head? = some c) : c ∈ g.connections :=
  (mem_of_mem_outgoing (List.mem_of_head? h)).1

theorem connection?_of_mem {g : Graph} {c : Connection}
    (hids : (g.connections.map (·.id)).Nodup) (hc : c ∈ g.connections) :
    g.connection? c.id = some c :=
  find?_key_of_mem hids hc

/-- **Putting a block into the connection that a conversation follows.**  The edit
succeeds.  The conversation goes from the old source to the new block exactly if
nothing else leaves that handle; otherwise it goes where the second connection
leads.  From the new block it goes on to the old target if the block has a single
way out, and nothing leaves the block if not.  All other ways are as before. -/
theorem successor?_insertBetween? (g : Graph) (s : IdSupply) (c : Connection)
    (kind : Block.Kind) (place : Position) (hids : (g.connections.map (·.id)).Nodup)
    (hfirst : (g.outgoing c.source).head? = some c) (hkind : kind.isCreatable)
    (hfresh : ∀ d ∈ g.connections, d.touches (s.draw kind.label).1 = false) :
    ∃ r, g.insertBetween? s c.id kind place = some r ∧
      (r.graph.successor? c.source = some r.made ↔ g.outgoing c.source = [c]) ∧
      (∀ d others, g.outgoing c.source = c :: d :: others →
        r.graph.successor? c.source = some d.target.block) ∧
      r.graph.successor? ⟨r.made, Block.outputName⟩ =
        (if kind.hasSingleOutput then some c.target.block else none) ∧
      (kind.hasSingleOutput = false → ∀ d ∈ r.graph.connections, d.source.block ≠ r.made) ∧
      ∀ e, e ≠ c.source → e ≠ ⟨r.made, Block.outputName⟩ →
        r.graph.successor? e = g.successor? e := by
  have hmem : c ∈ g.connections := first_mem hfirst
  have hsource : ∀ d ∈ g.connections, d.source.block ≠ s.nth kind.label s.used := by
    intro d hd h
    have hapart := hfresh d hd
    simp [Connection.touches, IdSupply.draw, h] at hapart
  have htarget : ∀ d ∈ g.connections, d.target.block ≠ s.nth kind.label s.used := by
    intro d hd h
    have hapart := hfresh d hd
    simp [Connection.touches, IdSupply.draw, h] at hapart
  obtain ⟨others, hout⟩ := List.head?_eq_some_iff.mp hfirst
  refine ⟨_, insertBetween?_eq_some hkind (connection?_of_mem hids hmem), ?_, ?_, ?_, ?_, ?_⟩
  · rw [successor?_splice_source hids hout (hsource c hmem), hout]
    cases others with
    | nil => exact ⟨fun _ => rfl, fun _ => rfl⟩
    | cons d ds =>
        have hd : d ∈ g.connections := by
          have hin : d ∈ g.outgoing c.source := by rw [hout]; simp
          exact (mem_of_mem_outgoing hin).1
        constructor
        · intro h
          exact absurd (Option.some.inj h) (htarget d hd)
        · intro h
          cases h
  · intro d ds hds
    rw [successor?_splice_source hids hds (hsource c hmem)]
    rfl
  · exact successor?_splice_new hsource hmem
  · exact source_ne_of_mem_splice hsource hmem
  · intro e he he'
    exact successor?_splice_of_ne hids hmem he he'

/-- A Welcome block whose only handle two connections leave. -/
def forked : Graph where
  blocks :=
    [⟨"w", ⟨0, 0⟩, .welcome "Hi"⟩, ⟨"a", ⟨200, 0⟩, .message "A"⟩, ⟨"b", ⟨200, 200⟩, .message "B"⟩]
  connections :=
    [⟨"c1", ⟨"w", "output"⟩, ⟨"a", "input"⟩⟩, ⟨"c2", ⟨"w", "output"⟩, ⟨"b", "input"⟩⟩]

theorem successor?_insertBetween?_forked :
    ∃ r, forked.insertBetween? ⟨toString, 0⟩ "c1" .message ⟨100, 0⟩ = some r ∧
      r.graph.successor? ⟨"w", "output"⟩ = some "b" ∧
      r.graph.successor? ⟨r.made, Block.outputName⟩ = some "a" := by
  obtain ⟨r, hr, -, hsecond, honward, -⟩ :=
    successor?_insertBetween? forked ⟨toString, 0⟩ ⟨"c1", ⟨"w", "output"⟩, ⟨"a", "input"⟩⟩
      .message ⟨100, 0⟩ (by decide) (by decide) rfl (by decide)
  exact ⟨r, hr, hsecond ⟨"c2", ⟨"w", "output"⟩, ⟨"b", "input"⟩⟩ [] (by decide), honward⟩

/-- **Not every insertion into a followed connection is followed**, with distinct
ids and no connection from a block to itself. -/
theorem insertBetween?_forked_not_followed :
    (forked.blocks.map (·.id)).Nodup ∧ (forked.connections.map (·.id)).Nodup ∧
      (∀ c ∈ forked.connections, c.isLoop = false) ∧
      forked.successor? ⟨"w", "output"⟩ = some "a" ∧
      ∃ r, forked.insertBetween? ⟨toString, 0⟩ "c1" .message ⟨100, 0⟩ = some r ∧
        r.graph.successor? ⟨"w", "output"⟩ ≠ some r.made :=
  ⟨by decide, by decide, by decide, by decide, _, rfl, by decide⟩

end Parley.Graph
