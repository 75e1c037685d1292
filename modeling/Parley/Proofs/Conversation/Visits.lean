/-
# Conversations on flows without circles

The blocks that a conversation enters are those its walks move to, Field blocks among them
(`trek` notes them, `entered` lists them for a run).  They form a path of the flow: within a
walk each leads to the next, an advance leads on from the block that scheduled it, and a
reply takes the way on from the block that asked.

So much goes for any flow.  The events that are taken are counted by the blocks entered:

| mode     | taken so far, where `k` blocks were entered |
| :------- | :------------------------------------------ |
| idle     | none                                        |
| running  | at most `2 * k`                             |
| awaiting | at most `2 * k - 1`                         |
| ended    | at most `2 * k + 1`                         |

One event enters a block or more, and only where the last of them waits for the user a
second event, the reply, comes before the next is entered.  On an acyclic flow a path has no
more blocks than the flow, and so no run takes more than `2 * size + 1` events.
-/
import Parley.Proofs.Conversation.Coherent
import Parley.Proofs.Conversation.Roaming
import Parley.Proofs.Flow.Acyclic

namespace Parley.Conversation

/-! ## The blocks that are entered

A walk that notes the blocks it moves to is the walk, and the blocks it notes form a path: it
moves to the target it was given, and from each Field block to the block that it leads to. -/

/-- A walk that notes the blocks it moves to. -/
def trek (script : Script) (carry : Option String) (hops : Nat) (s : State)
    (target : Option String) : Outcome × List String :=
  match target with
  | none => (s.finish, [])
  | some id =>
    match script.flow.step? id with
    | none => (s.finish, [])
    | some (.halt stop) => (halt script (s.moveTo id) stop, [id])
    | some (.capture binds next) =>
      match hops with
      | 0 => ((s.moveTo id).finish, [id])
      | hops + 1 =>
        let rest := trek script carry hops (capture (s.moveTo id) binds carry) next
        (rest.1, id :: rest.2)

/-- The blocks that an event enters where it is taken. -/
def enteredBy (script : Script) (s : State) : Event → List String
  | .start => (trek script none script.flow.size s script.flow.entry).2
  | .advance _ =>
    match s.pending with
    | some p => (trek script p.carry script.flow.size { s with pending := none } p.target).2
    | none => []
  | .submit _ | .select _ => []

/-- The blocks that a conversation enters by a list of events, in order. -/
def entered (script : Script) : State → List Event → List String
  | _, [] => []
  | s, e :: es =>
    match react script s e with
    | .ok o => enteredBy script s e ++ entered script o.state es
    | .error _ => entered script s es

variable {script : Script} {carry : Option String} {hops : Nat} {s : State}
  {target : Option String} {e : Event} {o : Outcome}

theorem fst_trek (script : Script) (carry : Option String) (hops : Nat) (s : State)
    (target : Option String) :
    (trek script carry hops s target).1 = walk script carry hops s target := by
  fun_induction trek script carry hops s target with
  | case1 hops s => rw [walk]
  | case2 hops s id hstep => rw [walk_of_missing hstep]
  | case3 hops s id stop hstep => rw [walk_of_halt hstep]
  | case4 s id binds next hstep =>
      rw [walk_zero_of_capture hstep]
      rfl
  | case5 s id binds next hstep hops rest ih => rw [walk_succ_of_capture hstep, ← ih]

theorem head?_trek (script : Script) (carry : Option String) (hops : Nat) (s : State)
    (target : Option String) :
    ∀ id ∈ (trek script carry hops s target).2.head?, target = some id := by
  intro first hfirst
  unfold trek at hfirst
  split at hfirst
  · cases hfirst
  · split at hfirst
    · cases hfirst
    · cases hfirst
      rfl
    · split at hfirst <;> (cases hfirst; rfl)

/-- What a walk enters is a path of the flow. -/
theorem isChain_trek (script : Script) (carry : Option String) (hops : Nat) (s : State)
    (target : Option String) :
    (trek script carry hops s target).2.IsChain script.flow.Leads := by
  fun_induction trek script carry hops s target with
  | case1 | case2 => exact List.isChain_nil
  | case3 | case4 => exact List.isChain_singleton _
  | case5 s id binds next hstep hops rest ih =>
      refine List.isChain_cons.mpr ⟨?_, ih⟩
      intro t ht
      have hnext : next = some t := head?_trek script carry hops _ next t ht
      exact ⟨_, hstep, hnext ▸ List.mem_singleton_self t⟩

theorem mem_keys_of_mem_trek (script : Script) (carry : Option String) (hops : Nat) (s : State)
    (target : Option String) :
    ∀ id ∈ (trek script carry hops s target).2, id ∈ script.flow.steps.keys := by
  fun_induction trek script carry hops s target with
  | case1 | case2 => exact nofun
  | case3 hops s id stop hstep =>
      intro t ht
      rw [List.mem_singleton.mp ht]
      exact mem_keys_of_step? hstep
  | case4 s id binds next hstep =>
      intro t ht
      rw [List.mem_singleton.mp ht]
      exact mem_keys_of_step? hstep
  | case5 s id binds next hstep hops rest ih =>
      intro t ht
      rcases List.mem_cons.mp ht with rfl | hlater
      · exact mem_keys_of_step? hstep
      · exact ih t hlater

theorem getLast?_trek (script : Script) (carry : Option String) (hops : Nat) (s : State)
    (target : Option String) :
    (trek script carry hops s target).1.state.mode = .ended ∨
      ∃ id, (trek script carry hops s target).1.state.current = some id ∧
        (trek script carry hops s target).2.getLast? = some id := by
  fun_induction trek script carry hops s target with
  | case1 | case2 | case4 => exact .inl rfl
  | case3 hops s id stop hstep => exact .inr ⟨id, by cases stop <;> rfl, rfl⟩
  | case5 s id binds next hstep hops rest ih =>
      refine ih.imp_right ?_
      rintro ⟨last, hcurrent, hlast⟩
      refine ⟨last, hcurrent, ?_⟩
      rw [List.getLast?_cons, hlast]
      rfl

/-! ## The count -/

/-- A conversation has taken `n` events and entered these blocks, one after the other. -/
structure Descent (script : Script) (n : Nat) (path : List String) (s : State) : Prop where
  chain : path.IsChain script.flow.Leads
  known : ∀ id ∈ path, id ∈ script.flow.steps.keys
  bound : n ≤ 2 * path.length + 1
  idle : s.mode = .idle → n = 0 ∧ path = [] ∧ s.pending = none
  /-- An advance leads on from the last block. -/
  pending : ∀ p ∈ s.pending, n ≤ 2 * path.length ∧
    ∀ id ∈ path.getLast?, ∀ next ∈ p.target, script.flow.Leads id next
  /-- Only where the user is waited for a second event is to come. -/
  awaiting : s.mode.isAwaiting → n + 1 ≤ 2 * path.length ∧ s.current = path.getLast?

variable {n : Nat} {path : List String}

theorem descent_initial (script : Script) : Descent script 0 [] .initial where
  chain := List.isChain_nil
  known := nofun
  bound := Nat.zero_le _
  idle _ := ⟨rfl, rfl, rfl⟩
  pending := nofun
  awaiting := nofun

theorem descent_halt {id : String} {stop : Flow.Stop} (hchain : path.IsChain script.flow.Leads)
    (hknown : ∀ id ∈ path, id ∈ script.flow.steps.keys) (hn : n + 1 ≤ 2 * path.length)
    (hlast : path.getLast? = some id) (hstep : script.flow.step? id = some (.halt stop))
    (hpending : s.pending = none) :
    Descent script n path (halt script (s.moveTo id) stop).state := by
  have hbound : n ≤ 2 * path.length := Nat.le_of_succ_le hn
  cases stop with
  | say message next =>
      refine ⟨hchain, hknown, Nat.le_succ_of_le hbound, nofun, ?_, nofun⟩
      rintro p ⟨⟩
      refine ⟨hbound, ?_⟩
      intro last hid t ht
      cases hlast.symm.trans hid
      exact ⟨_, hstep, Option.mem_toList.mpr ht⟩
  | farewell message =>
      refine ⟨hchain, hknown, Nat.le_succ_of_le hbound, nofun, ?_, nofun⟩
      rintro p ⟨⟩
      exact ⟨hbound, nofun⟩
  | ask message binds next =>
      refine ⟨hchain, hknown, Nat.le_succ_of_le hbound, nofun, ?_, fun _ => ⟨hn, hlast.symm⟩⟩
      intro p hp
      cases hpending.symm.trans hp
  | choose message binds branches =>
      refine ⟨hchain, hknown, Nat.le_succ_of_le hbound, nofun, ?_, fun _ => ⟨hn, hlast.symm⟩⟩
      intro p hp
      cases hpending.symm.trans hp

theorem descent_trek (hchain : path.IsChain script.flow.Leads)
    (hknown : ∀ id ∈ path, id ∈ script.flow.steps.keys) (hn : n ≤ 2 * path.length)
    (hleads : ∀ id ∈ path.getLast?, ∀ next ∈ target, script.flow.Leads id next)
    (hpending : s.pending = none) (carry : Option String) (hops : Nat) :
    Descent script (n + 1) (path ++ (trek script carry hops s target).2)
      (walk script carry hops s target).state := by
  have hwhole : (path ++ (trek script carry hops s target).2).IsChain script.flow.Leads := by
    refine List.isChain_append.mpr ⟨hchain, isChain_trek .., ?_⟩
    intro id hid next hnext
    exact hleads id hid next (head?_trek script carry hops s target next hnext)
  have hall : ∀ id ∈ path ++ (trek script carry hops s target).2,
      id ∈ script.flow.steps.keys := by
    intro id hid
    rcases List.mem_append.mp hid with hold | hnew
    · exact hknown id hold
    · exact mem_keys_of_mem_trek script carry hops s target id hnew
  have hlast := getLast?_trek script carry hops s target
  have harrival : Arrival script s (walk script carry hops s target) :=
    walk_arrival carry hops s target
  rw [fst_trek] at hlast
  generalize (trek script carry hops s target).2 = new at hwhole hall hlast ⊢
  generalize walk script carry hops s target = o at hlast harrival ⊢
  have hlength : (path ++ new).length = path.length + new.length := List.length_append
  cases harrival with
  | ended bindings => exact ⟨hwhole, hall, by omega, nofun, nofun, nofun⟩
  | @stopped bindings id stop hstep =>
      have hid : new.getLast? = some id := by
        rcases hlast with hended | ⟨last, hcurrent, hlast⟩
        · cases stop <;> cases hended
        · cases stop <;> (cases hcurrent; exact hlast)
      have hsome : 0 < new.length :=
        List.length_pos_iff.mpr fun hnone => by rw [hnone] at hid; cases hid
      refine descent_halt hwhole hall (by omega) ?_ hstep hpending
      rw [List.getLast?_append, hid]
      rfl

theorem Descent.reply (h : Descent script n path s) (hmode : s.mode.isAwaiting)
    (hrunning : o.state.mode = .running)
    (hnext : ∀ p ∈ o.state.pending, ∀ id ∈ s.current, ∀ next ∈ p.target,
      script.flow.Leads id next) : Descent script (n + 1) path o.state := by
  obtain ⟨hn, hcurrent⟩ := h.awaiting hmode
  refine ⟨h.chain, h.known, Nat.le_succ_of_le hn, ?_, ?_, ?_⟩
  · intro hidle
    cases hrunning.symm.trans hidle
  · intro p hp
    rw [← hcurrent]
    exact ⟨hn, hnext p hp⟩
  · intro hawaiting
    rw [hrunning] at hawaiting
    cases hawaiting

theorem leads_of_currentStop? {id next : String} {stop : Flow.Stop} (hid : id ∈ s.current)
    (hstop : currentStop? script s = some stop) (hnext : next ∈ stop.exits) :
    script.flow.Leads id next := by
  obtain ⟨id', hcurrent, hstep⟩ := exists_step_of_currentStop? hstop
  cases hcurrent.symm.trans hid
  exact ⟨_, hstep, hnext⟩

theorem leads_of_askedFor {id next : String} (hid : id ∈ s.current)
    (hnext : next ∈ (askedFor script s).2) : script.flow.Leads id next := by
  unfold askedFor at hnext
  split at hnext
  · rename_i message binds next' hstop
    exact leads_of_currentStop? hid hstop (Option.mem_toList.mpr hnext)
  · cases hnext

/-- **Every event that is taken goes on with the path.** -/
theorem Descent.taken (h : Descent script n path s) (htaken : Taken script s e o) :
    Descent script (n + 1) (path ++ enteredBy script s e) o.state := by
  cases htaken with
  | start hmode =>
      obtain ⟨rfl, rfl, hpending⟩ := h.idle hmode
      exact descent_trek h.chain h.known (Nat.zero_le _) nofun hpending none script.flow.size
  | @advance p hlive hpending =>
      obtain ⟨hn, hleads⟩ := h.pending p hpending
      simp only [enteredBy, hpending]
      exact descent_trek h.chain h.known hn hleads rfl p.carry script.flow.size
  | submit text hmode =>
      rw [enteredBy, List.append_nil]
      refine h.reply (by rw [hmode]; rfl) rfl ?_
      rintro p ⟨⟩ id hid next hnext
      exact leads_of_askedFor hid hnext
  | @select message binds branches branch option hmode hstop hfind =>
      rw [enteredBy, List.append_nil]
      refine h.reply (by rw [hmode]; rfl) rfl ?_
      rintro p ⟨⟩ id hid next hnext
      refine leads_of_currentStop? hid hstop ?_
      exact List.mem_filterMap.mpr ⟨branch, List.mem_of_find?_eq_some hfind, hnext⟩

/-! ## Runs

The path and the count are kept event by event.  On a flow without circles the path has each
block once, so there are no more blocks on it than in the flow, and the count is bounded by
that. -/

theorem Descent.run (es : List Event) (h : Descent script n path s) :
    Descent script (n + (trace script s es).length) (path ++ entered script s es)
      (Conversation.run script s es) := by
  induction es generalizing n path s with
  | nil =>
      rw [entered, List.append_nil]
      exact h
  | cons e es ih =>
      rw [run_cons, next]
      cases hreact : react script s e with
      | ok o =>
          have hrest := ih (h.taken (react_eq_ok_iff.mp hreact))
          simp only [trace, entered, hreact, List.length_cons]
          rw [← List.append_assoc, Nat.add_comm _ 1, ← Nat.add_assoc]
          exact hrest
      | error r =>
          simp only [trace, entered, hreact]
          exact ih h

/-- **What a conversation enters is a path of its flow.** -/
theorem isChain_entered (script : Script) (es : List Event) :
    (entered script .initial es).IsChain script.flow.Leads :=
  ((descent_initial script).run es).chain

/-- **On a flow without circles no conversation goes on for ever.**  Whatever happens, at most
two events for each step are taken and one more, and no block is entered twice. -/
theorem length_trace_le_of_acyclic (script : Script) (h : script.flow.Acyclic)
    (es : List Event) :
    (trace script .initial es).length ≤ 2 * script.flow.size + 1 ∧
      (entered script .initial es).Nodup := by
  have hrun := (descent_initial script).run es
  rw [Nat.zero_add, List.nil_append] at hrun
  have hsize := h.length_le_size hrun.chain hrun.known
  have hbound := hrun.bound
  exact ⟨by omega, h.nodup hrun.chain⟩

/-- Two ways on from a choice, which meet again at a Field block. -/
def crossing : Graph where
  blocks :=
    [⟨"w", ⟨0, 0⟩, .welcome "Hi"⟩,
      ⟨"b", ⟨200, 0⟩, .buttons "Tell?" none [⟨"y", "Yes"⟩, ⟨"n", "No"⟩]⟩,
      ⟨"q", ⟨400, 0⟩, .question "Name?" none⟩, ⟨"f", ⟨600, 0⟩, .field "name"⟩,
      ⟨"e", ⟨800, 0⟩, .goodbye "Bye"⟩]
  connections :=
    [⟨"c1", ⟨"w", "output"⟩, ⟨"b", "input"⟩⟩, ⟨"c2", ⟨"b", "y"⟩, ⟨"q", "input"⟩⟩,
      ⟨"c3", ⟨"b", "n"⟩, ⟨"f", "input"⟩⟩, ⟨"c4", ⟨"q", "output"⟩, ⟨"f", "input"⟩⟩,
      ⟨"c5", ⟨"f", "output"⟩, ⟨"e", "input"⟩⟩]

/-- A run with late and repeated events. -/
def hasty : List Event :=
  [.start, .start, .advance 0, .submit "no", .select "y", .select "n", .advance 0, .advance 1,
    .submit "Ann", .submit "Ann", .advance 2, .advance 2, .advance 3, .start]

theorem length_trace_le_crossing :
    let script : Script := ⟨.ofGraph crossing, .usual⟩
    script.flow.Acyclic ∧ (trace script .initial hasty).length ≤ 2 * script.flow.size + 1 ∧
      (entered script .initial hasty).Nodup := by
  intro script
  have hacyclic : script.flow.Acyclic := by
    refine Flow.acyclic_of_rank (["w", "b", "q", "f", "e"].idxOf ·) ?_
    decide +kernel
  exact ⟨hacyclic, length_trace_le_of_acyclic script hacyclic hasty⟩

example : entered ⟨.ofGraph crossing, .usual⟩ .initial hasty = ["w", "b", "q", "f", "e"] := by
  decide +kernel

end Parley.Conversation
