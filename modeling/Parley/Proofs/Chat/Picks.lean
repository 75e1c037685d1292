/-
# Replies that name an option

A reply names an option by its number or by its label (`Named`).  What is picked for a reply is
always an option that it names.  Not every reply that names an option is heeded:

    a number of an option     picks that option
    another number            picks nothing, be it the label of an option
    any other text            picks the first option with that label

Of the numbers only those below 2^64 count.  So all replies that name an option are heeded
exactly if no label is a number that no option has, and all options have numbers below 2^64
(`heeds_iff`).
-/
import Parley.Chat.Basic
import Parley.Proofs.Text.Numeral
import Mathlib.Algebra.Order.BigOperators.Group.List
import Mathlib.Algebra.Order.Group.Nat

namespace Parley.Chat

open Text

/-- The text is a numeral of the place of the option, counted from one. -/
def Numbered (choices : List Choice) (text : String) (c : Choice) : Prop :=
  ∃ i, choices[i]? = some c ∧ Denotes text (i + 1)

/-- The text is the label of the option, up to the case of ASCII letters. -/
def Labelled (choices : List Choice) (text : String) (c : Choice) : Prop :=
  c ∈ choices ∧ sameFolded c.label text

/-- The text names the option. -/
def Named (choices : List Choice) (text : String) (c : Choice) : Prop :=
  Numbered choices text c ∨ Labelled choices text c

/-- A reply that names an option picks an option that it names. -/
def Heeds (choices : List Choice) : Prop :=
  ∀ line text, replyText? line = some text → (∃ c, Named choices text c) →
    ∃ c, Named choices text c ∧ pickChoice? choices text = some c.id

/-- The text is a numeral of sixty-four bits, but not the number of an option. -/
def Overshoots (choices : List Choice) (text : String) : Prop :=
  ∃ n, Denotes text n ∧ n < unsignedLimit ∧ (n = 0 ∨ choices.length < n)

variable {choices : List Choice} {text id : String} {c : Choice} {n : Nat}

theorem Named.mem (h : Named choices text c) : c ∈ choices := by
  rcases h with ⟨i, hc, -⟩ | ⟨hmem, -⟩
  · exact List.mem_of_getElem? hc
  · exact hmem

/-! ## What is picked

A reply is tried as a number first.  If it is the numeral of one, the options are counted off
and no label is looked at; if not, it goes to the first option whose label it is, up to case.
Either way an option that is picked is one that the reply names. -/

theorem pickChoice?_of_number (h : unsigned? text = some n) :
    pickChoice? choices text = numbered? choices n := by
  rw [pickChoice?, h]

theorem pickChoice?_of_label (h : unsigned? text = none) :
    pickChoice? choices text = labelled? choices text := by
  rw [pickChoice?, h]

theorem numbered?_eq_some_iff :
    numbered? choices n = some id ↔ ∃ i c, n = i + 1 ∧ choices[i]? = some c ∧ c.id = id := by
  cases n with
  | zero =>
      rw [numbered?, if_pos rfl]
      exact ⟨nofun, fun ⟨i, c, h, _⟩ => nomatch h⟩
  | succ n =>
      rw [numbered?, if_neg (Nat.succ_ne_zero n), Nat.add_sub_cancel, Option.map_eq_some_iff]
      constructor
      · rintro ⟨c, hc, hid⟩
        exact ⟨n, c, rfl, hc, hid⟩
      · rintro ⟨i, c, hi, hc, hid⟩
        cases hi
        exact ⟨c, hc, hid⟩

theorem exists_labelled (h : labelled? choices text = some id) :
    ∃ c, Labelled choices text c ∧ c.id = id := by
  obtain ⟨c, hc, hid⟩ := Option.map_eq_some_iff.mp h
  have hfolded := List.find?_some hc
  exact ⟨c, ⟨List.mem_of_find?_eq_some hc, hfolded⟩, hid⟩

theorem isSome_labelled? (h : Labelled choices text c) : (labelled? choices text).isSome := by
  rw [labelled?, Option.isSome_map, List.find?_isSome]
  exact ⟨c, h⟩

/-- **What is picked for a text is named by it.** -/
theorem exists_named (h : pickChoice? choices text = some id) :
    ∃ c, Named choices text c ∧ c.id = id := by
  cases hread : unsigned? text with
  | some n =>
      rw [pickChoice?_of_number hread] at h
      obtain ⟨i, c, rfl, hc, hid⟩ := numbered?_eq_some_iff.mp h
      exact ⟨c, .inl ⟨i, hc, (unsigned?_eq_some_iff.mp hread).1⟩, hid⟩
  | none =>
      rw [pickChoice?_of_label hread] at h
      obtain ⟨c, hc, hid⟩ := exists_labelled h
      exact ⟨c, .inr hc, hid⟩

/-! ## What is not

There are two ways for an option to be out of reach.  A label that is the numeral of no
option is read as a number first, and the labels are not looked at again; and past 2^64 the
number of an option is not read as one.  Both are conditions on the options alone, not on
what is typed. -/

theorem pickChoice?_of_overshoots (h : Overshoots choices text) :
    pickChoice? choices text = none := by
  obtain ⟨n, hn, hlimit, hbeyond⟩ := h
  rw [pickChoice?_of_number (unsigned?_eq_some_iff.mpr ⟨hn, hlimit⟩)]
  refine Option.eq_none_iff_forall_ne_some.mpr fun id hid => ?_
  obtain ⟨i, c, rfl, hc, -⟩ := numbered?_eq_some_iff.mp hid
  have hi := (List.getElem?_eq_some_iff.mp hc).1
  omega

/-- A text that names an option picks one, if it is no number without an option and the
numbers of the options can be read. -/
theorem isSome_pickChoice? (hsize : choices.length < unsignedLimit)
    (hnamed : Named choices text c) (hreach : ¬ Overshoots choices text) :
    (pickChoice? choices text).isSome := by
  cases hread : unsigned? text with
  | some n =>
      obtain ⟨hdenotes, hlimit⟩ := unsigned?_eq_some_iff.mp hread
      have hne : n ≠ 0 := fun h => hreach ⟨n, hdenotes, hlimit, .inl h⟩
      have hle : ¬ choices.length < n := fun h => hreach ⟨n, hdenotes, hlimit, .inr h⟩
      have hi : n - 1 < choices.length := by omega
      rw [pickChoice?_of_number hread, numbered?, if_neg hne, List.getElem?_eq_getElem hi]
      rfl
  | none =>
      rw [pickChoice?_of_label hread]
      rcases hnamed with ⟨i, hc, hdenotes⟩ | hlabelled
      · have hi := (List.getElem?_eq_some_iff.mp hc).1
        have hread' := unsigned?_eq_some_iff.mpr ⟨hdenotes, Nat.lt_of_le_of_lt hi hsize⟩
        cases hread.symm.trans hread'
      · exact isSome_labelled? hlabelled

theorem replyText?_of_denotes (h : Denotes text n) : replyText? text = some text := by
  rw [replyText?, h.trim]
  exact if_neg h.ne_empty

theorem length_lt_of_heeds (h : Heeds choices) : choices.length < unsignedLimit := by
  by_contra hmany
  have hlast : unsignedLimit - 1 < choices.length :=
    Nat.lt_of_lt_of_le (Nat.sub_one_lt (by decide)) (Nat.le_of_not_lt hmany)
  have hdenotes := denotes_numeral (choices.map (·.label.length)).sum unsignedLimit
  have hnamed : Named choices _ choices[unsignedLimit - 1] :=
    .inl ⟨_, List.getElem?_eq_getElem hlast, hdenotes⟩
  obtain ⟨c, -, hpick⟩ := h _ _ (replyText?_of_denotes hdenotes) ⟨_, hnamed⟩
  have hread : unsigned? (numeral (choices.map (·.label.length)).sum unsignedLimit) = none := by
    refine Option.eq_none_iff_forall_ne_some.mpr fun n hn => ?_
    obtain ⟨hsame, hlimit⟩ := unsigned?_eq_some_iff.mp hn
    exact absurd (hsame.unique hdenotes) (Nat.ne_of_lt hlimit)
  rw [pickChoice?_of_label hread] at hpick
  obtain ⟨c', ⟨hmem, hfolded⟩, -⟩ := exists_labelled hpick
  have hlong := lt_length_numeral (choices.map (·.label.length)).sum unsignedLimit
  rw [← hdenotes.eq_of_sameFolded hfolded] at hlong
  have hshort : c'.label.length ≤ (choices.map (·.label.length)).sum :=
    List.le_sum_of_mem (List.mem_map_of_mem hmem)
  exact Nat.not_lt_of_le hshort hlong

/-- An option whose label is a number without an option is not picked by its label. -/
theorem not_heeds_of_overshoots (hc : c ∈ choices) (h : Overshoots choices c.label) :
    ¬ Heeds choices := by
  intro hheeds
  have hnone := pickChoice?_of_overshoots h
  obtain ⟨n, hdenotes, -⟩ := h
  have hnamed : Named choices c.label c := .inr ⟨hc, sameFolded_refl c.label⟩
  obtain ⟨c', -, hpick⟩ := hheeds _ _ (replyText?_of_denotes hdenotes) ⟨c, hnamed⟩
  cases hnone.symm.trans hpick

theorem not_overshoots (hlabels : ∀ c ∈ choices, ¬ Overshoots choices c.label)
    (hnamed : Named choices text c) : ¬ Overshoots choices text := by
  rintro ⟨n, hdenotes, hlimit, hbeyond⟩
  rcases hnamed with ⟨i, hc, hnumber⟩ | ⟨hmem, hfolded⟩
  · have hi := (List.getElem?_eq_some_iff.mp hc).1
    have hsame := hnumber.unique hdenotes
    omega
  · rw [← hdenotes.eq_of_sameFolded hfolded] at hdenotes
    exact hlabels c hmem ⟨n, hdenotes, hlimit, hbeyond⟩

/-- **When replies reach the options that they name.**  What is picked for a reply is always an
option that the reply names.  All replies that name an option pick one exactly if the number of
every option can be read and no label is a number that no option has. -/
theorem heeds_iff (choices : List Choice) :
    (∀ text id, pickChoice? choices text = some id → ∃ c, Named choices text c ∧ c.id = id) ∧
      (Heeds choices ↔
        choices.length < unsignedLimit ∧ ∀ c ∈ choices, ¬ Overshoots choices c.label) := by
  refine ⟨fun _ _ => exists_named, ?_⟩
  constructor
  · intro h
    exact ⟨length_lt_of_heeds h, fun c hc hbeyond => not_heeds_of_overshoots hc hbeyond h⟩
  · rintro ⟨hsize, hlabels⟩ line text - ⟨c, hnamed⟩
    have hpicked := isSome_pickChoice? hsize hnamed (not_overshoots hlabels hnamed)
    obtain ⟨id, hpick⟩ := Option.isSome_iff_exists.mp hpicked
    obtain ⟨c', hnamed', rfl⟩ := exists_named hpick
    exact ⟨c', hnamed', hpick⟩

/-- Options whose labels are numbers. -/
def years : List Choice := [⟨"past", "2024"⟩, ⟨"present", "2025"⟩]

/-- **Not every reply that is the label of an option picks one.** -/
theorem years_not_heeded :
    replyText? "2025" = some "2025" ∧ Labelled years "2025" ⟨"present", "2025"⟩ ∧
      pickChoice? years "2025" = none ∧ ¬ Heeds years := by
  have hreply : replyText? "2025" = some "2025" := by decide +kernel
  have hlabelled : Labelled years "2025" ⟨"present", "2025"⟩ := ⟨by decide, sameFolded_refl _⟩
  have hnone : pickChoice? years "2025" = none := by decide +kernel
  refine ⟨hreply, hlabelled, hnone, fun h => ?_⟩
  obtain ⟨c, -, hpick⟩ := h _ _ hreply ⟨_, .inr hlabelled⟩
  cases hnone.symm.trans hpick

end Parley.Chat
