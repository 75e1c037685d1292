/-
# A drag that nothing interrupts

A drag shows every step it makes and the history hears of none, so what is committed at its end
has to be told from where it began.  While a drag is under way (`Underway`) the graph is the one
it began with, but for the blocks of one group, and these have gone one by one the deltas that
lead somewhere (`carry`):

    the group         the whole selection, if the block is one of two or more that are selected,
                      and else the block alone
    the end           commits, if the block does not lie where it lay, and else leaves the
                      history as it is
    an undo           brings back the graph the drag began with

Nothing but the block has to be looked at, though the end compares graphs as well: a graph in
which the block lies elsewhere is another graph (`position_beq_of_carry_beq`), also as doubles
are compared.
-/
import Parley.Proofs.Editor.Step
import Parley.Proofs.Graph.Alike

namespace Parley

/-- Where a point comes to, displaced by one delta after the other.  Those that lead nowhere are
left out. -/
def Position.along (p : Position) (deltas : List Position) : Position :=
  (deltas.filter (!·.isZero)).foldl (· + ·) p

theorem Block.position_beq_of_beq {b b' : Block} (h : b == b') : b.position == b'.position := by
  rw [Block.beq_eq] at h
  simp only [Bool.and_eq_true] at h
  exact h.2.1

namespace Graph

/-- The graph with the blocks of a group displaced by one delta after the other. -/
def carry (g : Graph) (group : List String) (deltas : List Position) : Graph :=
  { g with blocks := g.blocks.map fun b =>
      if b.id ∈ group then { b with position := b.position.along deltas } else b }

variable {g : Graph} {group : List String} {deltas : List Position} {delta : Position}
  {id : String} {b : Block}

@[simp]
theorem carry_nil (g : Graph) (group : List String) : g.carry group [] = g := by
  have hsame : ∀ b ∈ g.blocks,
      (if b.id ∈ group then { b with position := b.position.along [] } else b) = b := by
    intro b _
    split <;> rfl
  rw [carry, List.map_congr_left hsame, List.map_id']

theorem carry_concat_of_isZero (h : delta.isZero) :
    g.carry group (deltas ++ [delta]) = g.carry group deltas := by
  have halong (p : Position) : p.along (deltas ++ [delta]) = p.along deltas := by
    rw [Position.along, List.filter_append, List.filter_cons_of_neg (by simp [h]),
      List.filter_nil, List.append_nil, Position.along]
  simp only [carry, halong]

theorem carry_concat (h : delta.isZero = false) :
    g.carry group (deltas ++ [delta]) = (g.carry group deltas).displace group delta := by
  have halong (p : Position) : p.along (deltas ++ [delta]) = p.along deltas + delta := by
    rw [Position.along, List.filter_append, List.filter_cons_of_pos (by simp [h]),
      List.filter_nil, List.foldl_append, Position.along]
    rfl
  simp only [carry, displace, halong, List.map_map]
  congr 1
  refine List.map_congr_left fun b _ => ?_
  by_cases hmem : b.id ∈ group <;> simp [hmem]

theorem block?_carry (hb : g.block? id = some b) (hid : id ∈ group) :
    (g.carry group deltas).block? id = some { b with position := b.position.along deltas } := by
  have hkeeps : (fun b : Block => b.id == id) ∘ (fun b =>
      if b.id ∈ group then { b with position := b.position.along deltas } else b) =
        fun b => b.id == id := by
    funext b
    dsimp only [Function.comp]
    split <;> rfl
  have hbid := id_of_block? hb
  rw [block?, carry, List.find?_map, hkeeps]
  rw [block?] at hb
  rw [hb, Option.map_some, hbid, if_pos hid]

theorem beq_of_map_beq {f : Block → Block} {bs : List Block} (h : bs.map f == bs) :
    ∀ b ∈ bs, f b == b := by
  induction bs with
  | nil => exact nofun
  | cons b bs ih =>
      rw [List.map_cons, List.cons_beq_cons, Bool.and_eq_true] at h
      exact List.forall_mem_cons.mpr ⟨h.1, ih h.2⟩

/-- Where the graphs count as the same, the block counts as being where it was. -/
theorem position_beq_of_carry_beq (hb : g.block? id = some b) (hid : id ∈ group)
    (h : g.carry group deltas == g) : b.position.along deltas == b.position := by
  rw [beq_eq, Bool.and_eq_true] at h
  have hblock := beq_of_map_beq h.1 b (mem_of_block? hb)
  rw [id_of_block? hb, if_pos hid] at hblock
  have hplace := Block.position_beq_of_beq hblock
  exact hplace

end Graph

namespace Editor

/-- The blocks that a drag of a block moves: the selection, if the block is one of two or more
selected, and else the block alone. -/
def group (e : Editor) (id : String) : List String :=
  if id ∈ e.selection.ids ∧ 2 ≤ e.selection.ids.length then e.selection.ids else [id]

/-- The commands of a drag up to its end. -/
def gesture (id : String) (deltas : List Position) : List Command :=
  .startDrag id :: deltas.map (.drag id)

/-- A whole drag, with the answer to its end. -/
def dragThrough (e : Editor) (id : String) (deltas : List Position) : Editor × Bool :=
  (e.performAll (gesture id deltas)).endDrag id

/-- A drag is one step that can be undone. -/
structure OneStep (e : Editor) (id : String) (deltas : List Position) (b : Block) : Prop where
  /-- No entry is made before the end. -/
  waits : ∀ e' ∈ e.states (gesture id deltas), e'.history = e.history
  /-- The blocks of the group are displaced, and there is no other change. -/
  moves : (e.dragThrough id deltas).1.graph = e.graph.carry (e.group id) deltas
  /-- The block itself goes all the way. -/
  found : (e.dragThrough id deltas).1.graph.block? id =
    some { b with position := b.position.along deltas }
  /-- It is committed exactly if the block is elsewhere. -/
  commits : (e.dragThrough id deltas).2 = (b.position.along deltas != b.position)
  /-- A commit makes one entry, for all that was moved. -/
  records : (e.dragThrough id deltas).2 →
    (e.dragThrough id deltas).1.history.entries =
        e.history.entries.take (e.history.index + 1) ++ [(e.dragThrough id deltas).1.graph] ∧
      (e.dragThrough id deltas).1.history.index = e.history.index + 1
  /-- Without a commit the history stays as it is. -/
  keeps : (e.dragThrough id deltas).2 = false → (e.dragThrough id deltas).1.history = e.history
  /-- An undo takes the drag back. -/
  undoes : (e.dragThrough id deltas).2 → (e.dragThrough id deltas).1.undo.2 ∧
    (e.dragThrough id deltas).1.undo.1.graph = e.graph

variable {e e' : Editor} {id : String} {b : Block} {deltas : List Position}

theorem mem_group (e : Editor) (id : String) : id ∈ e.group id := by
  unfold group
  split
  · rename_i h
    exact h.1
  · exact List.mem_singleton_self id

theorem dragGroup_eq (e : Editor) (id : String) : e.dragGroup id = e.group id := by
  simp only [dragGroup, group, Selection.contains, Selection.size, List.contains_eq_mem,
    Bool.and_eq_true, decide_eq_true_eq, Nat.lt_iff_add_one_le]

/-! ## While a drag is under way

Nothing but the drag itself is going on, so the selection stays and with it the group that is
displaced.  Each step moves the group of the graph that the last one led to, and the graph it
began with is never looked at again. -/

/-- A drag of `b` that began in `e` has made these steps. -/
structure Underway (e : Editor) (id : String) (b : Block) (done : List Position) (e' : Editor) :
    Prop where
  graph : e'.graph = e.graph.carry (e.group id) done
  history : e'.history = e.history
  selection : e'.selection = e.selection
  origin : e'.drags.get? id = some b.position

theorem underway_startDrag (hb : e.graph.block? id = some b) :
    Underway e id b [] (e.startDrag id) := by
  have hstart : e.startDrag id = { e with drags := e.drags.insert id b.position } := by
    rw [startDrag, hb]
  rw [hstart]
  refine ⟨(Graph.carry_nil _ _).symm, rfl, rfl, ?_⟩
  rw [Table.get?_insert, if_pos rfl]

theorem Underway.drag (h : Underway e id b deltas e') (delta : Position) :
    Underway e id b (deltas ++ [delta]) (e'.drag id delta) := by
  have hdragging : e'.isDragging id := by
    rw [isDragging, Table.contains_eq_isSome, h.origin]
    rfl
  have hgroup : e'.dragGroup id = e.group id := by
    rw [dragGroup_eq, group, h.selection, group]
  unfold Editor.drag
  rw [hdragging, hgroup]
  cases hzero : delta.isZero with
  | true => exact ⟨h.graph.trans (Graph.carry_concat_of_isZero hzero).symm, h.history,
      h.selection, h.origin⟩
  | false =>
      refine ⟨?_, h.history, h.selection, h.origin⟩
      rw [Graph.carry_concat hzero, ← h.graph]
      rfl

/-- All steps of a drag, by induction on those to come. -/
theorem Underway.performAll : ∀ (rest : List Position) {done : List Position} {e' : Editor},
    Underway e id b done e' →
      Underway e id b (done ++ rest) (e'.performAll (rest.map (.drag id)))
  | [], done, _, h => by
      rw [List.append_nil]
      exact h
  | delta :: rest, done, _, h => by
      have hrest := (h.drag delta).performAll rest
      rw [List.append_assoc, List.singleton_append] at hrest
      exact hrest

theorem Underway.history_of_mem_states : ∀ (rest : List Position) {done : List Position}
    {e' x : Editor}, Underway e id b done e' → x ∈ e'.states (rest.map (.drag id)) →
      x.history = e.history
  | [], _, _, _, h, hx => by
      rw [List.mem_singleton.mp hx]
      exact h.history
  | delta :: rest, _, _, _, h, hx => by
      rcases List.mem_cons.mp hx with rfl | hx
      · exact h.history
      · exact (h.drag delta).history_of_mem_states rest hx

/-! ## The end

The end of a drag looks at one block and at the current entry.  In a drag that nothing
interrupted the block decides alone: where it lies elsewhere, the graph does not count as the
one that the drag began with. -/

/-- Where the graph was the current entry, the block alone decides whether the drag counts. -/
theorem Underway.dragMoved (h : Underway e id b deltas e') (hagrees : e.graph = e.history.current)
    (hb : e.graph.block? id = some b) :
    e'.dragMoved id b.position = (b.position.along deltas != b.position) := by
  have hfound : e'.graph.block? id = some { b with position := b.position.along deltas } := by
    rw [h.graph]
    exact Graph.block?_carry hb (mem_group e id)
  unfold Editor.dragMoved
  rw [hfound, h.history, ← hagrees, h.graph]
  dsimp only
  rw [Position.beq_comm]
  cases hplace : (b.position.along deltas == b.position) with
  | true => simp [bne, hplace]
  | false =>
      have hother : (e.graph.carry (e.group id) deltas == e.graph) = false := by
        refine Bool.eq_false_iff.mpr fun hsame => ?_
        rw [Graph.position_beq_of_carry_beq hb (mem_group e id) hsame] at hplace
        cases hplace
      rw [hother, bne, hplace]
      rfl

theorem snd_endDrag {origin : Position} (horigin : e.drags.get? id = some origin) :
    (e.endDrag id).2 = e.dragMoved id origin := by
  rw [endDrag_eq horigin]
  cases e.dragMoved id origin <;> rfl

theorem graph_endDrag {origin : Position} (horigin : e.drags.get? id = some origin) :
    (e.endDrag id).1.graph = e.graph := by
  refine (congrArg Core.graph (core_endDrag horigin)).trans ?_
  split <;> rfl

theorem history_endDrag {origin : Position} (horigin : e.drags.get? id = some origin) :
    (e.endDrag id).1.history =
      if e.dragMoved id origin then e.history.commit e.graph else e.history := by
  refine (congrArg Core.history (core_endDrag horigin)).trans ?_
  split <;> rfl

/-- **A drag is one step that can be undone.**  In every editor that shows the current entry, and
for every block, selection and list of deltas. -/
theorem oneStep_dragThrough (deltas : List Position) (hagrees : e.graph = e.history.current)
    (hb : e.graph.block? id = some b) : OneStep e id deltas b := by
  have hbegan := underway_startDrag hb
  have hway := hbegan.performAll deltas
  rw [List.nil_append] at hway
  have hend : (e.dragThrough id deltas).2 = _ := snd_endDrag hway.origin
  have hmoves : (e.dragThrough id deltas).1.graph = e.graph.carry (e.group id) deltas :=
    (graph_endDrag hway.origin).trans hway.graph
  have hhistory : (e.dragThrough id deltas).1.history =
      if (e.dragThrough id deltas).2 then
        e.history.commit (e.dragThrough id deltas).1.graph
      else e.history := by
    rw [hend, hmoves, ← hway.graph, ← hway.history]
    exact history_endDrag hway.origin
  refine ⟨?waits, hmoves, ?found, hend.trans (hway.dragMoved hagrees hb), ?records, ?keeps,
    ?undoes⟩
  case waits =>
    intro e' he'
    rcases List.mem_cons.mp he' with rfl | he'
    · rfl
    · exact hbegan.history_of_mem_states deltas he'
  case found =>
    rw [hmoves]
    exact Graph.block?_carry hb (mem_group e id)
  case records =>
    intro hdone
    rw [if_pos hdone] at hhistory
    rw [hhistory]
    exact ⟨History.entries_commit _ _, History.index_commit _ _⟩
  case keeps =>
    intro hnot
    rw [hhistory, hnot]
    rfl
  case undoes =>
    intro hdone
    rw [if_pos hdone] at hhistory
    rw [hagrees]
    exact undo_of_commit hhistory

/-- Two blocks beside the first one, both selected. -/
def twoSelected : Editor :=
  (start ⟨toString, 0⟩ .seed).performAll
    [.change (.addBlock .message ⟨400, 150⟩), .change (.addBlock .buttons ⟨600, 150⟩),
      .toggle "message-0", .toggle "buttons-1"]

theorem oneStep_dragThrough_twoSelected :
    twoSelected.graph = twoSelected.history.current ∧
      twoSelected.group "message-0" = ["message-0", "buttons-1"] ∧
      (twoSelected.dragThrough "message-0" [⟨10, 0⟩, ⟨0, 0⟩, ⟨-3, 5⟩]).2 ∧
      ∃ b, twoSelected.graph.block? "message-0" = some b ∧
        OneStep twoSelected "message-0" [⟨10, 0⟩, ⟨0, 0⟩, ⟨-3, 5⟩] b := by
  have hagrees : twoSelected.graph = twoSelected.history.current := by
    rfl
  have hfound : (twoSelected.graph.block? "message-0").isSome := by
    decide +kernel
  obtain ⟨b, hb⟩ := Option.isSome_iff_exists.mp hfound
  exact ⟨hagrees, by decide +kernel, by decide +kernel, b, hb,
    oneStep_dragThrough _ hagrees hb⟩

end Editor

end Parley
