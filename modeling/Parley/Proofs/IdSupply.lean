/-
# Ids that are new

An id is a label, a hyphen and a token, and no label has a hyphen in it.  So the
first hyphen of an id divides it (`nth_inj`), and ids with different tokens differ
whatever their labels are.

What is asked of a supply is that the tokens differ which are drawn: `Differ s k`
says so for the first `k` tokens, where `k` is how far a session of editing gets.
An id is *spared* if none of the tokens left below `k` makes it again.  Ids that
were drawn are spared from then on (`Drawn.spares`), and what is spared remains
so while the supply is drawn from (`Spares.later`); these are all that is used to
keep the ids of a graph apart.
-/
import Parley.Block.Kind
import Parley.IdSupply

namespace Parley.IdSupply

/-- A text that can be the label of an id. -/
def IsLabel (l : String) : Prop := '-' ∉ l.toList

instance (l : String) : Decidable (IsLabel l) := inferInstanceAs (Decidable (¬ _))

/-- The tokens before the `k`th differ. -/
def Differ (s : IdSupply) (k : Nat) : Prop :=
  ∀ m, m < k → ∀ n, n < k → s.token m = s.token n → m = n

instance (s : IdSupply) (k : Nat) : Decidable (s.Differ k) :=
  inferInstanceAs (Decidable (∀ m, m < k → ∀ n, n < k → s.token m = s.token n → m = n))

/-- None of the tokens left below the `k`th makes this id. -/
def Spares (s : IdSupply) (k : Nat) (id : String) : Prop :=
  ∀ l n, IsLabel l → s.used ≤ n → n < k → id ≠ s.nth l n

/-- The same supply with more tokens drawn. -/
structure Later (s s' : IdSupply) : Prop where
  token : s'.token = s.token
  used : s.used ≤ s'.used

/-- The id has one of the tokens that `s` still had and `s'` has no longer. -/
def Drawn (s s' : IdSupply) (id : String) : Prop :=
  ∃ l n, IsLabel l ∧ s.used ≤ n ∧ n < s'.used ∧ id = s.nth l n

/-! ## Labels -/

theorem isLabel_kind (kind : Block.Kind) : IsLabel kind.label := by
  cases kind <;> decide

theorem eq_of_append_hyphen : ∀ {ls ls' ts ts' : List Char}, '-' ∉ ls → '-' ∉ ls' →
    ls ++ '-' :: ts = ls' ++ '-' :: ts' → ts = ts'
  | [], [], _, _, _, _, h => (List.cons.inj h).2
  | [], _ :: _, _, _, _, hls', h => absurd ((List.cons.inj h).1 ▸ List.mem_cons_self) hls'
  | _ :: _, [], _, _, hls, _, h => absurd ((List.cons.inj h).1 ▸ List.mem_cons_self) hls
  | _ :: _, _ :: _, _, _, hls, hls', h =>
      eq_of_append_hyphen (List.not_mem_of_not_mem_cons hls) (List.not_mem_of_not_mem_cons hls')
        (List.cons.inj h).2

/-- Ids of the same text have the same token. -/
theorem nth_inj {s s' : IdSupply} {l l' : String} {m n : Nat} (hl : IsLabel l)
    (hl' : IsLabel l') (h : s.nth l m = s'.nth l' n) : s.token m = s'.token n := by
  have hlist : l.toList ++ '-' :: (s.token m).toList = l'.toList ++ '-' :: (s'.token n).toList := by
    have := congrArg String.toList h
    simpa [nth, String.toList_append] using this
  exact String.toList_inj.mp (eq_of_append_hyphen hl hl' hlist)

/-! ## Later supplies -/

theorem Later.refl (s : IdSupply) : Later s s := ⟨rfl, Nat.le_refl _⟩

theorem Later.trans {s s' s'' : IdSupply} (h : Later s s') (h' : Later s' s'') : Later s s'' :=
  ⟨h'.token.trans h.token, Nat.le_trans h.used h'.used⟩

theorem later_draw (s : IdSupply) (l : String) : Later s (s.draw l).2 := ⟨rfl, Nat.le_succ _⟩

theorem later_drawAll : ∀ (ls : List String) (s : IdSupply), Later s (s.drawAll ls).2
  | [], s => .refl s
  | l :: ls, s => (later_draw s l).trans (later_drawAll ls (s.draw l).2)

theorem drawAll_append : ∀ (ls ls' : List String) (s : IdSupply),
    s.drawAll (ls ++ ls') = ((s.drawAll ls).1 ++ ((s.drawAll ls).2.drawAll ls').1,
      ((s.drawAll ls).2.drawAll ls').2)
  | [], _, _ => rfl
  | l :: ls, ls', s => by
      simp only [List.cons_append, drawAll, drawAll_append ls ls']

variable {s s' : IdSupply} {k : Nat}

theorem Later.nth (h : Later s s') (l : String) (n : Nat) : s'.nth l n = s.nth l n := by
  unfold IdSupply.nth
  rw [h.token]

theorem Differ.later (h : Differ s k) (hlater : Later s s') : Differ s' k := by
  intro m hm n hn htoken
  rw [hlater.token] at htoken
  exact h m hm n hn htoken

theorem Spares.later {id : String} (h : Spares s k id) (hlater : Later s s') :
    Spares s' k id := by
  intro l n hl hn hnk
  rw [hlater.nth]
  exact h l n hl (Nat.le_trans hlater.used hn) hnk

/-! ## Drawn ids

A supply gives out its tokens in a row, so an id that was drawn has a token that comes before
all those left.  Where tokens differ, no id that is still to come is the same.  That is the
one argument by which ids are new; the rest is to note how far the supply was drawn from. -/

/-- A text without a hyphen is no id that could be drawn. -/
theorem spares_of_isLabel {id : String} (h : IsLabel id) : Spares s k id := by
  rintro l n - - - rfl
  apply h
  simp [nth, String.toList_append]

theorem Drawn.mono {s'' : IdSupply} {id : String} (h : Drawn s s' id) (hlater : Later s' s'') :
    Drawn s s'' id := by
  obtain ⟨l, n, hl, hn, hlt, rfl⟩ := h
  exact ⟨l, n, hl, hn, Nat.lt_of_lt_of_le hlt hlater.used, rfl⟩

theorem Spares.ne {id id' : String} (h : Spares s k id) (hdrawn : Drawn s s' id')
    (hk : s'.used ≤ k) : id ≠ id' := by
  obtain ⟨l, n, hl, hn, hlt, rfl⟩ := hdrawn
  exact h l n hl hn (Nat.lt_of_lt_of_le hlt hk)

/-- What was drawn is not drawn again. -/
theorem Drawn.spares {id : String} (h : Drawn s s' id) (hd : Differ s k) (hlater : Later s s')
    (hk : s'.used ≤ k) : Spares s' k id := by
  obtain ⟨l, m, hl, -, hlt, rfl⟩ := h
  intro l' n hl' hn hnk heq
  have hmn : m = n := by
    rw [hlater.nth] at heq
    exact hd m (Nat.lt_of_lt_of_le hlt hk) n hnk (nth_inj hl hl' heq)
  omega

theorem drawn_draw {l : String} (hl : IsLabel l) : Drawn s (s.draw l).2 (s.draw l).1 :=
  ⟨l, s.used, hl, Nat.le_refl _, Nat.lt_succ_self _, rfl⟩

theorem drawn_drawAll {id : String} : ∀ {ls : List String} {s : IdSupply},
    (∀ l ∈ ls, IsLabel l) → id ∈ (s.drawAll ls).1 → Drawn s (s.drawAll ls).2 id
  | [], _, _, h => nomatch h
  | l :: ls, s, hls, h => by
      rcases List.mem_cons.mp h with rfl | htail
      · exact (drawn_draw (hls l List.mem_cons_self)).mono (later_drawAll ls _)
      · obtain ⟨l', n, hl', hn, hlt, rfl⟩ :=
          drawn_drawAll (fun l' hl' => hls l' (List.mem_cons_of_mem _ hl')) htail
        exact ⟨l', n, hl', Nat.le_of_succ_le hn, hlt, rfl⟩

theorem nodup_drawAll : ∀ {ls : List String} {s : IdSupply}, Differ s k →
    (∀ l ∈ ls, IsLabel l) → (s.drawAll ls).2.used ≤ k → (s.drawAll ls).1.Nodup
  | [], _, _, _, _ => List.nodup_nil
  | l :: ls, s, hd, hls, hk => by
      have hlater := later_draw s l
      have hused := (later_drawAll ls (s.draw l).2).used
      have htail : ∀ l' ∈ ls, IsLabel l' := fun l' hl' => hls l' (List.mem_cons_of_mem _ hl')
      have hspared : Spares (s.draw l).2 k (s.draw l).1 :=
        (drawn_draw (hls l List.mem_cons_self)).spares hd hlater (Nat.le_trans hused hk)
      refine List.nodup_cons.mpr ⟨?_, nodup_drawAll (hd.later hlater) htail hk⟩
      intro hmem
      exact hspared.ne (drawn_drawAll htail hmem) hk rfl

end Parley.IdSupply
