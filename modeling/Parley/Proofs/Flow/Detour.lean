/-
# A Field block on the way

Putting a Field block into a connection makes a *detour* of every way that led along it:

    a --------------> onward            before
    a -----> id ----> onward            after

where `onward` is what the connection led to, or nowhere if that block does not exist.  All
other ways are as before.  So the two flows have the same steps up to detours of the ways on
from them, and one of them has the step of the new block besides (`detoured_splice`).

That needs the connection to be the only one that leaves its handle.  If another leaves it,
then after the splice the other comes first.
-/
import Mathlib.Data.List.Forall2
import Parley.Proofs.Flow.Closed
import Parley.Proofs.Graph.Drawn

namespace Parley

namespace Flow

/-! ## Steps that match

Steps match that are of one kind and say the same, with ways that go together.  Which ways go
together is left open here, for the same is asked of ways that are equal and of ways that
make a detour. -/

section Matches

variable (T : Option String → Option String → Prop)

/-- The same option, with ways that go together. -/
structure Branch.Matches (b b' : Branch) : Prop where
  choice : b'.choice = b.choice
  next : T b.next b'.next

/-- The same stop, with ways that go together. -/
inductive Stop.Matches : Stop → Stop → Prop
  | say (message : String) {next next' : Option String} : T next next' →
      Matches (.say message next) (.say message next')
  | farewell (message : String) : Matches (.farewell message) (.farewell message)
  | ask (message : String) (binds : Option String) {next next' : Option String} : T next next' →
      Matches (.ask message binds next) (.ask message binds next')
  | choose (message : String) (binds : Option String) {branches branches' : List Branch} :
      List.Forall₂ (Branch.Matches T) branches branches' →
      Matches (.choose message binds branches) (.choose message binds branches')

/-- The same step, with ways that go together. -/
inductive Step.Matches : Step → Step → Prop
  | capture (binds : String) {next next' : Option String} : T next next' →
      Matches (.capture binds next) (.capture binds next')
  | halt {stop stop' : Stop} : stop.Matches T stop' → Matches (.halt stop) (.halt stop')

end Matches

variable {T : Option String → Option String → Prop}

theorem choicesOf_of_matches {branches branches' : List Branch}
    (h : List.Forall₂ (Branch.Matches T) branches branches') :
    choicesOf branches' = choicesOf branches := by
  induction h with
  | nil => rfl
  | @cons b b' bs bs' hb _ ih =>
      show b'.choice :: choicesOf bs' = b.choice :: choicesOf bs
      rw [hb.choice, ih]

theorem find?_of_matches {branches branches' : List Branch}
    (h : List.Forall₂ (Branch.Matches T) branches branches') (option : String) :
    Option.Rel (Branch.Matches T) (branches.find? (·.choice.id == option))
      (branches'.find? (·.choice.id == option)) := by
  induction h with
  | nil => exact .none
  | @cons b b' bs bs' hb _ ih =>
      rw [List.find?_cons, List.find?_cons, hb.choice]
      cases b.choice.id == option with
      | true => exact .some hb
      | false => exact ih

/-- A block does the same in two graphs in which its ways go together. -/
theorem matches_stepAt {g g' : Graph} (b : Block)
    (hways : ∀ handle, T (wayOn g ⟨b.id, handle⟩) (wayOn g' ⟨b.id, handle⟩)) :
    (stepAt g b).Matches T (stepAt g' b) := by
  obtain ⟨id, place, content⟩ := b
  cases content with
  | welcome message | message message => exact .halt (.say message (hways _))
  | goodbye message => exact .halt (.farewell message)
  | question message binds => exact .halt (.ask message binds (hways _))
  | field binds => exact .capture binds (hways _)
  | buttons message binds choices =>
      refine .halt (.choose message binds ?_)
      rw [List.forall₂_map_left_iff, List.forall₂_map_right_iff, List.forall₂_same]
      intro c _
      exact ⟨rfl, hways c.id⟩

/-! ## Detours -/

/-- Where a way leads before and after the block `id` was put into the way `onward`: to the
same, or to the block and from there on. -/
inductive Detour (id : String) (onward : Option String) : Option String → Option String → Prop
  | same {t : Option String} : t ≠ some id → Detour id onward t t
  | via : Detour id onward onward (some id)

/-- A flow, and the same with a Field block `id` on some of the ways `onward`. -/
structure Detoured (id binds : String) (onward : Option String) (f f' : Flow) : Prop where
  entry : Detour id onward f.entry f'.entry
  steps : ∀ t, t ≠ id → Option.Rel (Step.Matches (Detour id onward)) (f.step? t) (f'.step? t)
  /-- The block is new. -/
  absent : f.step? id = none
  field : f'.step? id = some (.capture binds onward)
  /-- It does not lead to itself. -/
  onward_ne : onward ≠ some id

end Flow

namespace Graph

/-! ## The splice

Only one connection left the old source, so what leaves it now is the way into the new block
alone.  At all other handles of old blocks the connections are those before; and from the new
block the way out leads to where the old connection led. -/

variable {g : Graph} {old : Connection} {id : String} {place : Position} {link link' : String}

theorem hasBlock_splice_self (g : Graph) (old : Connection) (id : String) (kind : Block.Kind)
    (place : Position) (link link' : String) :
    (g.splice old id kind place link link').hasBlock id := by
  simp [hasBlock, splice, Block.ofKind]

theorem hasBlock_splice_of_ne {kind : Block.Kind} {t : String} (h : t ≠ id) :
    (g.splice old id kind place link link').hasBlock t = g.hasBlock t := by
  simp [hasBlock, splice, Block.ofKind, Ne.symm h]

theorem wayOn_of_outgoing (honly : g.outgoing old.source = [old]) :
    Flow.wayOn g old.source = (some old.target.block).filter g.hasBlock := by
  rw [Flow.wayOn, successor?_eq_head?_outgoing, honly]
  rfl

theorem mem_of_outgoing (honly : g.outgoing old.source = [old]) : old ∈ g.connections :=
  first_mem (congrArg List.head? honly)

theorem detour_wayOn_splice (hids : (g.connections.map (·.id)).Nodup)
    (honly : g.outgoing old.source = [old]) (hnew : id ∉ g.names) {kind : Block.Kind}
    {e : Endpoint} (he : e.block ≠ id) :
    Flow.Detour id (Flow.wayOn g old.source) (Flow.wayOn g e)
      (Flow.wayOn (g.splice old id kind place link link') e) := by
  by_cases hsource : e = old.source
  · cases hsource
    have hfollowed : (g.splice old id kind place link link').successor? old.source = some id :=
      successor?_splice_source hids honly he
    have hled : Flow.wayOn (g.splice old id kind place link link') old.source = some id := by
      rw [Flow.wayOn, hfollowed, Option.filter_some, if_pos (hasBlock_splice_self ..)]
    rw [hled]
    exact .via
  · have hother : e ≠ ⟨id, Block.outputName⟩ := fun h => he (congrArg Endpoint.block h)
    have hkept : Flow.wayOn (g.splice old id kind place link link') e =
        (g.successor? e).filter (g.splice old id kind place link link').hasBlock := by
      rw [Flow.wayOn, successor?_splice_of_ne hids (mem_of_outgoing honly) hsource hother]
    rw [hkept]
    show Flow.Detour id _ ((g.successor? e).filter g.hasBlock) _
    cases hnext : g.successor? e with
    | none => exact .same (Option.some_ne_none id).symm
    | some t =>
        have ht : t ≠ id := by
          rintro rfl
          exact hnew (mem_names_of_successor? hnext)
        rw [Option.filter_some, Option.filter_some, hasBlock_splice_of_ne ht]
        refine .same ?_
        split
        · exact fun h => ht (Option.some.inj h)
        · exact (Option.some_ne_none id).symm

theorem wayOn_splice_new (honly : g.outgoing old.source = [old]) (hnew : id ∉ g.names)
    {kind : Block.Kind} (hkind : kind.hasSingleOutput) :
    Flow.wayOn (g.splice old id kind place link link') ⟨id, Block.outputName⟩ =
      Flow.wayOn g old.source := by
  have hold := mem_of_outgoing honly
  have hsources : ∀ d ∈ g.connections, d.source.block ≠ id := by
    rintro d hd rfl
    exact hnew (mem_names_of_connection hd).2.1
  have htarget : old.target.block ≠ id := by
    rintro rfl
    exact hnew (mem_names_of_connection hold).2.2
  rw [Flow.wayOn, successor?_splice_new hsources hold, if_pos hkind, wayOn_of_outgoing honly,
    Option.filter_some, Option.filter_some, hasBlock_splice_of_ne htarget]

theorem step?_splice_of_ne {kind : Block.Kind} {t : String} (ht : t ≠ id) :
    (Flow.ofGraph (g.splice old id kind place link link')).step? t =
      (g.blocks.reverse.find? (·.id == t)).map
        (Flow.stepAt (g.splice old id kind place link link')) := by
  have hother : ((Block.ofKind id kind place).id == t) = false := beq_eq_false_iff_ne.mpr ht.symm
  rw [Flow.step?_ofGraph, splice, List.reverse_append, List.reverse_singleton,
    List.singleton_append, List.find?_cons, hother]

/-- **Putting a Field block into the only connection at its handle is a detour.** -/
theorem detoured_splice (hids : (g.connections.map (·.id)).Nodup)
    (honly : g.outgoing old.source = [old]) (hnew : id ∉ g.names) :
    Flow.Detoured id "my_variable" (Flow.wayOn g old.source) (.ofGraph g)
      (.ofGraph (g.splice old id .field place link link')) where
  entry := by
    have hwelcome : (g.splice old id .field place link link').welcome? = g.welcome? := by
      have hnone : [Block.ofKind id .field place].find? Block.isWelcome = none := rfl
      rw [welcome?, splice, List.find?_append, hnone, Option.or_none]
      rfl
    show Flow.Detour id _ (g.welcome?.map (·.id)) (Option.map _ (welcome? _))
    rw [hwelcome]
    refine .same ?_
    intro hentry
    obtain ⟨b, hb, rfl⟩ := Option.map_eq_some_iff.mp hentry
    exact hnew (id_mem_names (List.mem_map_of_mem (List.mem_of_find?_eq_some hb)))
  steps := by
    intro t ht
    rw [Flow.step?_ofGraph, step?_splice_of_ne ht]
    cases hfind : g.blocks.reverse.find? (·.id == t) with
    | none => exact .none
    | some b =>
        have hid : b.id = t := by simpa using List.find?_some hfind
        refine .some (Flow.matches_stepAt b ?_)
        intro handle
        exact detour_wayOn_splice hids honly hnew (hid ▸ ht)
  absent := by
    have hno : ¬ g.hasBlock id := fun h => hnew (id_mem_names (hasBlock_iff_mem.mp h))
    rw [← Flow.isSome_step?_ofGraph, Option.not_isSome_iff_eq_none] at hno
    exact hno
  field := by
    have hself : ((Block.ofKind id .field place).id == id) = true := beq_self_eq_true id
    rw [Flow.step?_ofGraph, splice, List.reverse_append, List.reverse_singleton,
      List.singleton_append, List.find?_cons, hself, ← splice]
    exact congrArg (fun way => some (Flow.Step.capture "my_variable" way))
      (wayOn_splice_new honly hnew rfl)
  onward_ne := by
    rw [wayOn_of_outgoing honly]
    intro h
    obtain ⟨hsame, -⟩ := Option.filter_eq_some_iff.mp h
    exact hnew (Option.some.inj hsame ▸
      (mem_names_of_connection (mem_of_outgoing honly)).2.2)

end Graph

end Parley
