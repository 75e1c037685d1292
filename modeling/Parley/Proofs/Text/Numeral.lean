/-
# Numerals

A numeral is one or more ASCII digits, behind one plus sign or none, and it may begin with any
number of zeros.  `unsigned?` reads the numerals of numbers below 2^64 and nothing else
(`unsigned?_eq_some_iff`).

No character of a numeral is a blank or a letter.  So a numeral is a line that has been trimmed
(`Denotes.trim`), and only the numeral itself is equal to it up to case (`Denotes.eq_of_sameFolded`).
-/
import Parley.Text
import Mathlib.Data.List.Induction
import Mathlib.Data.List.TakeWhile

namespace Parley.Text

/-- The text is a numeral of the number. -/
def Denotes (text : String) (n : Nat) : Prop :=
  ∃ digits : List Char, (text.toList = digits ∨ text.toList = '+' :: digits) ∧ digits ≠ [] ∧
    (∀ c ∈ digits, c.isDigit) ∧ Nat.ofDigitChars 10 digits 0 = n

/-- A numeral of a number, with zeros in front. -/
def numeral (zeros n : Nat) : String :=
  String.ofList (List.replicate zeros '0' ++ Nat.toDigits 10 n)

variable {text other : String} {m n : Nat}

/-! ## Reading

The value of a row of digits is found from the left, one digit at a time, and nothing is read
where one character is no digit.  A sign in front is dropped first, and only one. -/

theorem digitsValue?_concat (cs : List Char) (c : Char) :
    digitsValue? (cs ++ [c]) = (digitsValue? cs).bind fun n =>
      if c.isDigit then some (n * 10 + (c.toNat - '0'.toNat)) else none := by
  rw [digitsValue?, List.foldl_append]
  rfl

theorem digitsValue?_eq_some_iff {cs : List Char} {n : Nat} :
    digitsValue? cs = some n ↔ (∀ c ∈ cs, c.isDigit) ∧ Nat.ofDigitChars 10 cs 0 = n := by
  induction cs using List.reverseRecOn generalizing n with
  | nil =>
      rw [digitsValue?, List.foldl_nil, Nat.ofDigitChars_nil, Option.some_inj]
      exact ⟨fun h => ⟨nofun, h⟩, fun h => h.2⟩
  | append_singleton cs c ih =>
      rw [digitsValue?_concat, List.forall_mem_append, List.forall_mem_singleton,
        Nat.ofDigitChars_append, Nat.ofDigitChars_cons, Nat.ofDigitChars_nil]
      constructor
      · intro h
        obtain ⟨k, hk, h⟩ := Option.bind_eq_some_iff.mp h
        obtain ⟨hcs, rfl⟩ := ih.mp hk
        split at h
        · rename_i hc
          cases h
          exact ⟨⟨hcs, hc⟩, by omega⟩
        · cases h
      · rintro ⟨⟨hcs, hc⟩, rfl⟩
        rw [ih.mpr ⟨hcs, rfl⟩, Option.bind_some, if_pos hc, Nat.mul_comm]

theorem withoutPlus_eq_or (cs : List Char) : cs = withoutPlus cs ∨ cs = '+' :: withoutPlus cs := by
  unfold withoutPlus
  split
  · exact .inr rfl
  · exact .inl rfl

theorem withoutPlus_of_digits {ds : List Char} (h : ∀ c ∈ ds, c.isDigit) : withoutPlus ds = ds := by
  unfold withoutPlus
  split
  · cases h '+' List.mem_cons_self
  · rfl

theorem denotes_iff : Denotes text n ↔
    withoutPlus text.toList ≠ [] ∧ digitsValue? (withoutPlus text.toList) = some n := by
  constructor
  · rintro ⟨ds, htext, hsome, hdigits, hvalue⟩
    have hds : withoutPlus text.toList = ds := by
      rcases htext with h | h
      · rw [h, withoutPlus_of_digits hdigits]
      · rw [h]
        rfl
    rw [hds]
    exact ⟨hsome, digitsValue?_eq_some_iff.mpr ⟨hdigits, hvalue⟩⟩
  · rintro ⟨hsome, hvalue⟩
    obtain ⟨hdigits, hvalue⟩ := digitsValue?_eq_some_iff.mp hvalue
    exact ⟨_, withoutPlus_eq_or text.toList, hsome, hdigits, hvalue⟩

/-- **The numerals of numbers that sixty-four bits can hold are read**, and no other texts. -/
theorem unsigned?_eq_some_iff : unsigned? text = some n ↔ Denotes text n ∧ n < unsignedLimit := by
  rw [denotes_iff]
  cases hdigits : withoutPlus text.toList with
  | nil =>
      rw [unsigned?, hdigits]
      exact ⟨nofun, fun h => absurd rfl h.1.1⟩
  | cons c cs =>
      rw [unsigned?, hdigits]
      dsimp only
      rw [Option.filter_eq_some_iff, decide_eq_true_eq]
      exact ⟨fun h => ⟨⟨nofun, h.1⟩, h.2⟩, fun h => ⟨h.1.2, h.2⟩⟩

theorem Denotes.unique (h : Denotes text m) (h' : Denotes text n) : m = n :=
  Option.some.inj ((denotes_iff.mp h).2.symm.trans (denotes_iff.mp h').2)

/-! ## The characters of a numeral

All digits lie below the letters, and blanks are no digits.  So trimming a numeral and
folding its case leave it as it is, and a text that folds to a numeral has no letters in it. -/

theorem Denotes.mem (h : Denotes text n) {c : Char} (hc : c ∈ text.toList) :
    c.isDigit ∨ c = '+' := by
  obtain ⟨ds, htext | htext, -, hdigits, -⟩ := h
  · exact .inl (hdigits c (htext ▸ hc))
  · rw [htext] at hc
    rcases List.mem_cons.mp hc with rfl | hmem
    · exact .inr rfl
    · exact .inl (hdigits c hmem)

theorem Denotes.ne_empty (h : Denotes text n) : text ≠ "" := by
  rintro rfl
  exact (denotes_iff.mp h).1 rfl

theorem toNat_le_of_isDigit {c : Char} (h : c.isDigit) : 48 ≤ c.toNat ∧ c.toNat ≤ 57 :=
  Char.isDigit_iff_toNat.mp h

theorem isBlank_of_isDigit {c : Char} (h : c.isDigit) : isBlank c = false := by
  obtain ⟨hlow, hhigh⟩ := toNat_le_of_isDigit h
  simp only [isBlank, Bool.or_eq_false_iff, Bool.and_eq_false_iff, decide_eq_false_iff_not,
    beq_eq_false_iff_ne]
  omega

theorem Denotes.trim (h : Denotes text n) : trim text = text := by
  have hplain : ∀ c ∈ text.toList, isBlank c = false := by
    intro c hc
    rcases h.mem hc with hdigit | rfl
    · exact isBlank_of_isDigit hdigit
    · rfl
  have hfront : text.toList.dropWhile isBlank = text.toList :=
    List.dropWhile_eq_self_iff.mpr fun hl => ne_true_of_eq_false (hplain _ (List.getElem_mem hl))
  have hend : text.toList.reverse.dropWhile isBlank = text.toList.reverse :=
    List.dropWhile_eq_self_iff.mpr fun hl =>
      ne_true_of_eq_false (hplain _ (List.mem_reverse.mp (List.getElem_mem hl)))
  rw [Text.trim, hfront, dropBlankEnd, hend, List.reverse_reverse, String.ofList_toList]

theorem toLower_eq_iff {c d : Char} (hd : d.toNat < 'A'.toNat) : c.toLower = d ↔ c = d := by
  unfold Char.toLower
  split
  · rename_i hcap
    obtain ⟨hlow, hhigh⟩ := hcap
    rw [ge_iff_le, UInt32.le_iff_toNat_le] at hlow
    rw [UInt32.le_iff_toNat_le] at hhigh
    have hA : 'A'.val.toNat = 65 := rfl
    have hZ : 'Z'.val.toNat = 90 := rfl
    have hgap : ('a'.val - 'A'.val).toNat = 32 := rfl
    constructor
    · rintro rfl
      change (c.val + ('a'.val - 'A'.val)).toNat < 'A'.val.toNat at hd
      rw [UInt32.toNat_add] at hd
      omega
    · rintro rfl
      change c.val.toNat < 'A'.val.toNat at hd
      omega
  · exact Iff.rfl

theorem eq_of_map_toLower : ∀ {cs ds : List Char}, (∀ d ∈ ds, d.toNat < 'A'.toNat) →
    cs.map Char.toLower = ds.map Char.toLower → cs = ds
  | [], [], _, _ => rfl
  | [], _ :: _, _, h => nomatch h
  | _ :: _, [], _, h => nomatch h
  | c :: cs, d :: ds, hds, h => by
      obtain ⟨hd, hrest⟩ := List.forall_mem_cons.mp hds
      obtain ⟨hfirst, htail⟩ := List.cons.inj h
      rw [(toLower_eq_iff hd).mpr rfl, toLower_eq_iff hd] at hfirst
      rw [hfirst, eq_of_map_toLower hrest htail]

/-- Only the numeral itself is equal to it up to case. -/
theorem Denotes.eq_of_sameFolded (h : Denotes text n) (hsame : sameFolded other text) :
    other = text := by
  have hplain : ∀ d ∈ text.toList, d.toNat < 'A'.toNat := by
    intro d hd
    rcases h.mem hd with hdigit | rfl
    · exact Nat.lt_of_le_of_lt (toNat_le_of_isDigit hdigit).2 (by decide)
    · decide
  have hfolded := congrArg String.toList (beq_iff_eq.mp hsame)
  rw [foldAscii, foldAscii, String.toList_ofList, String.toList_ofList] at hfolded
  exact String.toList_inj.mp (eq_of_map_toLower hplain hfolded)

/-! ## Zeros in front -/

theorem denotes_numeral (zeros n : Nat) : Denotes (numeral zeros n) n := by
  refine ⟨_, .inl String.toList_ofList, ?_, ?_, ?_⟩
  · exact List.append_ne_nil_of_right_ne_nil _ Nat.toDigits_ne_nil
  · intro c hc
    rcases List.mem_append.mp hc with hzero | hdigit
    · rw [List.eq_of_mem_replicate hzero]
      rfl
    · exact Nat.isDigit_of_mem_toDigits (by decide) (by decide) hdigit
  · rw [Nat.ofDigitChars_append, Nat.ofDigitChars_replicate_zero, Nat.mul_zero,
      Nat.ofDigitChars_ten_toDigits]

/-- There are numerals of any length. -/
theorem lt_length_numeral (zeros n : Nat) : zeros < (numeral zeros n).length := by
  rw [numeral, String.length_ofList, List.length_append, List.length_replicate]
  have hdigits : Nat.toDigits 10 n ≠ [] := Nat.toDigits_ne_nil
  exact Nat.lt_add_of_pos_right (List.length_pos_iff.mpr hdigits)

end Parley.Text
