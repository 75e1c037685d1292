/-
# Walks along Field blocks

Where entering a block leads is settled by the flow alone: follow the ways on from one Field
block to the next, for as long as there are Field blocks (`Flow.Through`).  There are three ways
this can turn out, and one of them does (`exists_through`):

    lands      the way comes to a stop                   the conversation makes that stop
    runs out   there is no way on, or no step for it     it ends
    returns    a Field block is met again                it ends

In each case the variables of the Field blocks passed hold what is carried, and no others have
changed (`Bound`).

A walk does not look out for Field blocks that it has passed.  It counts those it comes to and
gives up at one more than the flow has steps (`fieldsMet`).  That it gives up only where a Field
block is met again is the pigeonhole principle; that it does give up there is because the way
never comes to anything but Field blocks from then on (`Trail.circle`).
-/
import Parley.Proofs.Conversation.Visits

namespace Parley

namespace Flow

/-- From a target the ways on lead through these Field blocks, in this order, to what comes
behind them. -/
inductive Through (f : Flow) : Option String → List String → Option String → Prop
  | here (target : Option String) : Through f target [] target
  | field {id binds : String} {next last : Option String} {ids : List String} :
      f.step? id = some (.capture binds next) → Through f next ids last →
      Through f (some id) (id :: ids) last

/-- The variable of a Field block. -/
def fieldVariable? (f : Flow) (id : String) : Option String :=
  match f.step? id with
  | some (.capture binds _) => some binds
  | _ => none

def isField (f : Flow) (id : String) : Bool := (f.fieldVariable? id).isSome

/-- The variables of Field blocks. -/
def fieldVariables (f : Flow) (ids : List String) : List String := ids.filterMap f.fieldVariable?

variable {f : Flow} {target last : Option String} {id binds : String} {ids : List String}

theorem fieldVariable?_of_capture {next : Option String}
    (h : f.step? id = some (.capture binds next)) : f.fieldVariable? id = some binds := by
  rw [fieldVariable?, h]

theorem isField_of_capture {next : Option String} (h : f.step? id = some (.capture binds next)) :
    f.isField id := by
  rw [isField, fieldVariable?_of_capture h]
  rfl

theorem isField_eq_false (h : ∀ binds next, f.step? id ≠ some (.capture binds next)) :
    f.isField id = false := by
  unfold isField fieldVariable?
  split
  · rename_i hstep
    exact absurd hstep (h _ _)
  · rfl

theorem Through.upTo : ∀ {ids rest : List String} {target : Option String},
    f.Through target (ids ++ id :: rest) last → f.Through target ids (some id)
  | [], _, _, .field _ _ => .here _
  | _ :: _, _, _, .field hstep hrest => .field hstep hrest.upTo

theorem Through.mem_keys (h : f.Through target ids last) : ∀ id ∈ ids, id ∈ f.steps.keys := by
  induction h with
  | here => exact nofun
  | field hstep _ ih =>
      intro id hid
      rcases List.mem_cons.mp hid with rfl | hlater
      · exact Table.mem_keys_of_get? hstep
      · exact ih id hlater

theorem Through.length_le_size (h : f.Through target ids last) (hids : ids.Nodup) :
    ids.length ≤ f.size := by
  have hkeys : f.steps.keys.length = f.size := List.length_map _
  rw [← hkeys]
  exact (List.subperm_of_subset hids h.mem_keys).length_le

end Flow

namespace Conversation

/-! ## What is bound on the way -/

/-- The variables after Field blocks with these names. -/
def bindAll (carry : Option String) (names : List String) (bindings : Table String) :
    Table String :=
  match carry with
  | some value => names.foldl (fun t name => t.insert name value) bindings
  | none => bindings

/-- Of these names each holds what is carried, if something is, and no other has changed. -/
structure Bound (carry : Option String) (names : List String) (old new : Table String) : Prop where
  held : ∀ name ∈ names, ∀ value ∈ carry, new.get? name = some value
  others : ∀ name, name ∉ names → new.get? name = old.get? name
  nothing : carry = none → new = old

theorem get?_foldl_insert_same (value name : String) : ∀ (names : List String) (t : Table String),
    (names.foldl (fun t name => t.insert name value) t).get? name =
      if name ∈ names then some value else t.get? name
  | [], _ => rfl
  | other :: names, t => by
      rw [List.foldl_cons, get?_foldl_insert_same value name names, Table.get?_insert]
      by_cases hlater : name ∈ names
      · rw [if_pos hlater, if_pos (List.mem_cons_of_mem _ hlater)]
      · rw [if_neg hlater]
        simp only [List.mem_cons, hlater, or_false]

theorem bound_bindAll (carry : Option String) (names : List String) (bindings : Table String) :
    Bound carry names bindings (bindAll carry names bindings) := by
  cases carry with
  | none => exact ⟨nofun, fun _ _ => rfl, fun _ => rfl⟩
  | some value =>
      refine ⟨?_, ?_, nofun⟩
      · rintro name hname _ ⟨⟩
        exact (get?_foldl_insert_same value name names bindings).trans (if_pos hname)
      · intro name hname
        exact (get?_foldl_insert_same value name names bindings).trans (if_neg hname)

variable {script : Script} {s : State} {target last carry : Option String} {ids : List String}
  {id : String} {hops : Nat}

/-! ## Walks that follow the way

Passing a Field block costs one hop and binds its variable, so a walk with hops enough comes
to what is behind the Field blocks with all of their variables bound.  How many hops it had
makes no difference to what it does from there (`walk_eq_enter`), which is how the hops spent
on the way are made up for. -/

/-- A walk does not depend on where it sets out. -/
theorem walk_moveTo (script : Script) (carry : Option String) (hops : Nat) (s : State)
    (id : String) (target : Option String) :
    walk script carry hops (s.moveTo id) target = walk script carry hops s target := by
  cases target with
  | none =>
      rw [walk, walk]
      rfl
  | some other =>
      cases hstep : script.flow.step? other with
      | none =>
          rw [walk_of_missing hstep, walk_of_missing hstep]
          rfl
      | some step =>
          cases step with
          | halt stop =>
              rw [walk_of_halt hstep, walk_of_halt hstep]
              rfl
          | capture binds next =>
              cases hops with
              | zero =>
                  rw [walk_zero_of_capture hstep, walk_zero_of_capture hstep]
                  rfl
              | succ hops =>
                  rw [walk_succ_of_capture hstep, walk_succ_of_capture hstep]
                  rfl

theorem rebind_capture (s : State) (id binds : String) (carry : Option String)
    (names : List String) :
    let passed := capture (s.moveTo id) binds carry
    { passed with bindings := bindAll carry names passed.bindings } =
      State.moveTo { s with bindings := bindAll carry (binds :: names) s.bindings } id := by
  cases carry <;> rfl

theorem walk_of_through (h : script.flow.Through target ids last) (s : State) :
    walk script carry (ids.length + hops) s target =
      walk script carry hops
        { s with bindings := bindAll carry (script.flow.fieldVariables ids) s.bindings } last := by
  induction h generalizing s with
  | here target =>
      rw [List.length_nil, Nat.zero_add]
      cases carry <;> rfl
  | @field id binds next last ids hstep _ ih =>
      have hnames : script.flow.fieldVariables (id :: ids) =
          binds :: script.flow.fieldVariables ids :=
        List.filterMap_cons_some (Flow.fieldVariable?_of_capture hstep)
      have hlength : (id :: ids).length + hops = ids.length + hops + 1 := by
        rw [List.length_cons]
        omega
      rw [hlength, walk_succ_of_capture hstep, ih, hnames, rebind_capture, walk_moveTo]

theorem holds_none (s : State) (name : String) : Holds none s name := by
  rintro value ⟨⟩

theorem trail_of_through (h : script.flow.Through target ids last)
    (hheld : ∀ name ∈ script.flow.fieldVariables ids, Holds carry s name) :
    Trail script carry s ids last := by
  induction h with
  | here => exact nofun
  | @field id binds next last ids hstep hrest ih =>
      intro p hp
      rcases List.mem_cons.mp hp with rfl | hlater
      · have hname : binds ∈ script.flow.fieldVariables (p :: ids) :=
          List.mem_filterMap.mpr ⟨p, List.mem_cons_self, Flow.fieldVariable?_of_capture hstep⟩
        refine ⟨binds, next, hstep, ?_, hheld binds hname⟩
        cases hrest with
        | here => exact .inl rfl
        | field => exact .inr ⟨_, List.mem_cons_of_mem _ List.mem_cons_self, rfl⟩
      · have hsub : (script.flow.fieldVariables ids).Sublist
            (script.flow.fieldVariables (id :: ids)) :=
          (List.sublist_cons_self id ids).filterMap _
        obtain ⟨binds', next', hstep', hnext', hholds⟩ :=
          ih (fun name hname => hheld name (hsub.subset hname)) p hlater
        refine ⟨binds', next', hstep', hnext'.imp_right ?_, hholds⟩
        rintro ⟨t, ht, rfl⟩
        exact ⟨t, List.mem_cons_of_mem _ ht, rfl⟩

theorem enter_of_through (h : script.flow.Through target ids last) (s : State) :
    enter script s target carry =
      enter script { s with bindings := bindAll carry (script.flow.fieldVariables ids) s.bindings }
        last carry := by
  rw [← walk_eq_enter script (Nat.le_add_left _ ids.length) s target]
  exact walk_of_through h s

theorem enter_of_returns (h : script.flow.Through target ids (some id)) (hagain : id ∈ ids)
    (s : State) :
    enter script s target carry =
      { s with bindings := bindAll carry (script.flow.fieldVariables ids) s.bindings }.finish := by
  rw [enter_of_through h]
  refine walk_circle _ (Trail.circle (trail_of_through h ?_) hagain) hagain
  exact (bound_bindAll carry _ s.bindings).held

/-! ## Where the guard stops a walk

A walk gives up when it has come to more Field blocks than the flow has steps.  Then it came
to one of them twice, and the first that it came to twice closes a circle that it never
leaves.  The other way round, a way that returns comes to Field blocks for as long as one
looks. -/

/-- The Field blocks that a conversation comes to when it enters a target, one after the other.
The walk gives up when these are more than the flow has steps. -/
def fieldsMet (script : Script) (s : State) (target carry : Option String) : List String :=
  (trek script carry script.flow.size s target).2.filter script.flow.isField

theorem through_trek (script : Script) (carry : Option String) (hops : Nat) (s : State)
    (target : Option String) :
    let ids := (trek script carry hops s target).2.filter script.flow.isField
    ids.length ≤ hops + 1 ∧ ∃ last, script.flow.Through target ids last ∧
      (ids.length ≤ hops → ∀ id ∈ last, script.flow.isField id = false) := by
  fun_induction trek script carry hops s target with
  | case1 =>
      refine ⟨Nat.zero_le _, none, .here none, ?_⟩
      intro _ id hid
      cases hid
  | case2 hops s id hstep =>
      refine ⟨Nat.zero_le _, some id, .here _, ?_⟩
      rintro - _ ⟨⟩
      exact Flow.isField_eq_false fun _ _ h => by cases hstep.symm.trans h
  | case3 hops s id stop hstep =>
      have hother : script.flow.isField id = false :=
        Flow.isField_eq_false fun _ _ h => by cases hstep.symm.trans h
      intro ids
      have hnone : ids = [] := List.filter_cons_of_neg (Bool.eq_false_iff.mp hother)
      rw [hnone]
      refine ⟨Nat.zero_le _, some id, .here _, ?_⟩
      rintro - _ ⟨⟩
      exact hother
  | case4 s id binds next hstep =>
      intro ids
      have hone : ids = [id] := List.filter_cons_of_pos (Flow.isField_of_capture hstep)
      rw [hone]
      exact ⟨Nat.le_refl _, next, .field hstep (.here next),
        fun hfew => absurd hfew (Nat.not_succ_le_zero 0)⟩
  | case5 s id binds next hstep hops rest ih =>
      obtain ⟨hlength, last, hthrough, hlast⟩ := ih
      intro ids
      have hmore : ids = id :: rest.2.filter script.flow.isField :=
        List.filter_cons_of_pos (Flow.isField_of_capture hstep)
      rw [hmore, List.length_cons]
      exact ⟨Nat.succ_le_succ hlength, last, .field hstep hthrough,
        fun hfew => hlast (Nat.le_of_succ_le_succ hfew)⟩

theorem exists_first_repeat {α : Type} [DecidableEq α] {xs : List α} (h : ¬ xs.Nodup) :
    ∃ before x after, xs = before ++ x :: after ∧ before.Nodup ∧ x ∈ before := by
  induction xs using List.reverseRecOn with
  | nil => exact absurd List.nodup_nil h
  | append_singleton xs x ih =>
      by_cases hxs : xs.Nodup
      · refine ⟨xs, x, [], rfl, hxs, ?_⟩
        by_contra hnew
        exact h (List.nodup_append.mpr ⟨hxs, List.nodup_singleton x, by
          rintro y hy _ hx rfl
          exact hnew (List.mem_singleton.mp hx ▸ hy)⟩)
      · obtain ⟨before, y, after, rfl, hbefore, hy⟩ := ih hxs
        exact ⟨before, y, after ++ [x], by simp, hbefore, hy⟩

theorem Circle.exists_of_through {circle : List String}
    (hcircle : Circle script carry s circle) (h : script.flow.Through target ids last)
    (htarget : ∃ t ∈ circle, target = some t) : ∃ t ∈ circle, last = some t := by
  induction h with
  | here => exact htarget
  | field hstep _ ih =>
      obtain ⟨t, ht, ⟨⟩⟩ := htarget
      obtain ⟨binds', next', hstep', hnext, -⟩ := hcircle _ ht
      cases hstep.symm.trans hstep'
      exact ih ⟨next', hnext, rfl⟩

theorem exists_isField_of_returns {ids' : List String}
    (h : script.flow.Through target ids (some id)) (hagain : id ∈ ids)
    (h' : script.flow.Through target ids' last) :
    ∃ t, last = some t ∧ script.flow.isField t := by
  have hcircle : Circle script none .initial ids :=
    (trail_of_through h fun name _ => holds_none _ name).circle hagain
  have htarget : ∃ t ∈ ids, target = some t := by
    cases h with
    | here => exact ⟨id, hagain, rfl⟩
    | field => exact ⟨_, List.mem_cons_self, rfl⟩
  obtain ⟨t, ht, hlast⟩ := hcircle.exists_of_through h' htarget
  obtain ⟨binds, next, hstep, -, -⟩ := hcircle t ht
  exact ⟨t, hlast, Flow.isField_of_capture hstep⟩

/-- The guard stops a walk exactly where the way returns. -/
theorem size_lt_fieldsMet_iff (script : Script) (s : State) (target carry : Option String) :
    script.flow.size < (fieldsMet script s target carry).length ↔
      ∃ ids id, script.flow.Through target ids (some id) ∧ id ∈ ids := by
  obtain ⟨-, last, hthrough, hlast⟩ := through_trek script carry script.flow.size s target
  constructor
  · intro hmany
    have hrepeat : ¬ (fieldsMet script s target carry).Nodup := fun hids =>
      absurd (hthrough.length_le_size hids) (Nat.not_le_of_lt hmany)
    obtain ⟨ids, id, rest, hsplit, -, hagain⟩ := exists_first_repeat hrepeat
    rw [fieldsMet] at hsplit
    rw [hsplit] at hthrough
    exact ⟨ids, id, hthrough.upTo, hagain⟩
  · rintro ⟨ids, id, hway, hagain⟩
    by_contra hfew
    obtain ⟨t, ht, hfield⟩ := exists_isField_of_returns hway hagain hthrough
    rw [hlast (Nat.le_of_not_lt hfew) t ht] at hfield
    cases hfield

/-! ## Every entry -/

/-- Entering a target does what the ways on from it say. -/
structure Follows (script : Script) (s : State) (target carry : Option String) : Prop where
  /-- Where the way comes to a stop, the conversation makes it. -/
  lands : ∀ ids id stop, script.flow.Through target ids (some id) →
    script.flow.step? id = some (.halt stop) →
      ∃ bindings, Bound carry (script.flow.fieldVariables ids) s.bindings bindings ∧
        enter script s target carry = halt script ({ s with bindings }.moveTo id) stop
  /-- Where the way runs out, the conversation ends. -/
  runsOut : ∀ ids last, script.flow.Through target ids last →
    last.bind script.flow.step? = none →
      ∃ bindings, Bound carry (script.flow.fieldVariables ids) s.bindings bindings ∧
        enter script s target carry = { s with bindings }.finish
  /-- Where the way returns to a Field block, the conversation ends. -/
  returns : ∀ ids id, script.flow.Through target ids (some id) → id ∈ ids →
    ∃ bindings, Bound carry (script.flow.fieldVariables ids) s.bindings bindings ∧
      enter script s target carry = { s with bindings }.finish
  /-- One of the three is the case, at the latest where a Field block is met again. -/
  covered : ∃ ids last, script.flow.Through target ids last ∧ ids.Nodup ∧
    (last.bind script.flow.step? = none ∨
      ∃ id, last = some id ∧ (id ∈ ids ∨ ∃ stop, script.flow.step? id = some (.halt stop)))
  /-- The walk comes to at most one Field block more than the flow has steps. -/
  bounded : (fieldsMet script s target carry).length ≤ script.flow.size + 1
  /-- It comes to that many, and gives up, exactly where the way returns. -/
  guarded : script.flow.size < (fieldsMet script s target carry).length ↔
    ∃ ids id, script.flow.Through target ids (some id) ∧ id ∈ ids

/-- The way from a target comes to a stop, runs out or returns. -/
theorem exists_through (f : Flow) (target : Option String) :
    ∃ ids last, f.Through target ids last ∧ ids.Nodup ∧
      (last.bind f.step? = none ∨
        ∃ id, last = some id ∧ (id ∈ ids ∨ ∃ stop, f.step? id = some (.halt stop))) := by
  let script : Script := ⟨f, .usual⟩
  obtain ⟨-, last, hthrough, hlast⟩ := through_trek script none f.size .initial target
  generalize (trek script none f.size .initial target).2.filter script.flow.isField = met
    at hthrough hlast
  by_cases hids : met.Nodup
  · refine ⟨met, last, hthrough, hids, ?_⟩
    have hother := hlast (hthrough.length_le_size hids)
    cases last with
    | none => exact .inl rfl
    | some id =>
        match hstep : f.step? id with
        | none => exact .inl hstep
        | some (.halt stop) => exact .inr ⟨id, rfl, .inr ⟨stop, hstep⟩⟩
        | some (.capture binds next) =>
            have hfield : f.isField id := Flow.isField_of_capture hstep
            have hnone : f.isField id = false := hother id rfl
            rw [hnone] at hfield
            cases hfield
  · obtain ⟨ids, id, rest, rfl, hfresh, hagain⟩ := exists_first_repeat hids
    exact ⟨ids, some id, hthrough.upTo, hfresh, .inr ⟨id, rfl, .inl hagain⟩⟩

/-- **Entering a block follows the ways on through Field blocks, and its guard is exact.** -/
theorem follows_enter (script : Script) (s : State) (target carry : Option String) :
    Follows script s target carry where
  lands := by
    intro ids id stop hway hstep
    refine ⟨_, bound_bindAll carry _ _, ?_⟩
    rw [enter_of_through hway]
    exact walk_of_halt hstep
  runsOut := by
    intro ids last hway hnone
    refine ⟨_, bound_bindAll carry _ _, ?_⟩
    rw [enter_of_through hway]
    cases last with
    | none => rw [enter, walk]
    | some id => exact walk_of_missing hnone
  returns := by
    intro ids id hway hagain
    exact ⟨_, bound_bindAll carry _ _, enter_of_returns hway hagain s⟩
  covered := exists_through script.flow target
  bounded := (through_trek script carry script.flow.size s target).1
  guarded := size_lt_fieldsMet_iff script s target carry

/-- Two Field blocks that lead to each other, and one that leads to the first. -/
def circling : Graph where
  blocks := [⟨"a", ⟨0, 0⟩, .field "x"⟩, ⟨"b", ⟨200, 0⟩, .field "y"⟩, ⟨"c", ⟨400, 0⟩, .field "z"⟩]
  connections :=
    [⟨"c1", ⟨"a", "output"⟩, ⟨"b", "input"⟩⟩, ⟨"c2", ⟨"b", "output"⟩, ⟨"c", "input"⟩⟩,
      ⟨"c3", ⟨"c", "output"⟩, ⟨"b", "input"⟩⟩]

example :
    fieldsMet ⟨.ofGraph circling, .usual⟩ .initial (some "a") none = ["a", "b", "c", "b"] := by
  decide +kernel

end Conversation

end Parley
