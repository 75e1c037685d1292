/-
# Tables made from lists

`ofList` inserts the entries of a list one after the other, so of several entries
under one key the last gives the value.  `get?_ofList` says this as a search from
the end of the list, and `mem_of_get?_ofList` is what is mostly needed of it.

At the end are two facts on whether a table has entries at all.

A list whose members have different keys is searched like a table: by its key each
member is found (`find?_key_of_mem`), from either end (`find?_key_reverse`).
-/
import Mathlib.Data.List.Nodup
import Parley.Table

namespace Parley

/-! ## Lists of different keys

A list is put into a table from the front, so what comes later takes the place of what was
there.  Where all keys differ nothing is replaced, and it does not matter from which end the
list is searched. -/

section Keys

variable {α κ : Type} [BEq κ] [LawfulBEq κ] {key : α → κ} {xs : List α}

theorem find?_key_of_mem (h : (xs.map key).Nodup) {x : α} (hx : x ∈ xs) :
    xs.find? (key · == key x) = some x := by
  cases hfind : xs.find? (key · == key x) with
  | none => exact absurd (beq_self_eq_true (key x)) (List.find?_eq_none.mp hfind x hx)
  | some y =>
      have hkey : key y = key x := by simpa using List.find?_some hfind
      rw [List.inj_on_of_nodup_map h (List.mem_of_find?_eq_some hfind) hx hkey]

theorem find?_key_reverse (h : (xs.map key).Nodup) (k : κ) :
    xs.reverse.find? (key · == k) = xs.find? (key · == k) := by
  cases hfind : xs.find? (key · == k) with
  | none =>
      rw [List.find?_eq_none] at hfind ⊢
      exact fun x hx => hfind x (List.mem_reverse.mp hx)
  | some x =>
      have hk : key x = k := by simpa using List.find?_some hfind
      have hreverse : (xs.reverse.map key).Nodup := by
        rw [List.map_reverse]
        exact List.nodup_reverse.mpr h
      subst hk
      exact find?_key_of_mem hreverse (List.mem_reverse.mpr (List.mem_of_find?_eq_some hfind))

end Keys

namespace Table

variable {α : Type}

/-- Inserting the entries of a list: the last entry under a key counts, and
where the list has none the table is as before. -/
theorem get?_foldl_insert (k : String) :
    ∀ (es : List (String × α)) (t : Table α),
      (es.foldl (fun t e => t.insert e.1 e.2) t).get? k =
        ((es.reverse.find? (·.1 == k)).map (·.2)).or (t.get? k)
  | [], t => rfl
  | e :: es, t => by
      rw [List.foldl_cons, get?_foldl_insert k es, get?_insert, List.reverse_cons,
        List.find?_append]
      cases es.reverse.find? (·.1 == k) with
      | some x => rfl
      | none =>
          by_cases h : e.1 = k
          · subst h; simp
          · simp [h, Ne.symm h]

theorem get?_ofList (es : List (String × α)) (k : String) :
    (ofList es).get? k = (es.reverse.find? (·.1 == k)).map (·.2) := by
  rw [ofList, get?_foldl_insert, get?_empty, Option.or_none]

theorem mem_of_get?_ofList {es : List (String × α)} {k : String} {a : α}
    (h : (ofList es).get? k = some a) : (k, a) ∈ es := by
  rw [get?_ofList, Option.map_eq_some_iff] at h
  obtain ⟨⟨k', a'⟩, hfind, rfl⟩ := h
  have hk : k' = k := by simpa using List.find?_some hfind
  exact hk ▸ List.mem_reverse.mp (List.mem_of_find?_eq_some hfind)

theorem exists_get?_ofList {es : List (String × α)} {k : String} {a : α} (h : (k, a) ∈ es) :
    ∃ b, (ofList es).get? k = some b := by
  rw [get?_ofList, ← Option.isSome_iff_exists, Option.isSome_map, List.find?_isSome]
  exact ⟨(k, a), List.mem_reverse.mpr h, beq_self_eq_true k⟩

/-! ## What is in a table -/

theorem mem_keys_of_get? {t : Table α} {k : String} {a : α} (h : t.get? k = some a) :
    k ∈ t.keys := by
  obtain ⟨e, hfind, -⟩ := Option.map_eq_some_iff.mp h
  have hk : e.1 = k := by simpa using List.find?_some hfind
  exact hk ▸ List.mem_map_of_mem (List.mem_of_find?_eq_some hfind)

/-- Inserting what is there already changes nothing, not even the order. -/
theorem insert_of_get? {t : Table α} {k : String} {a : α} (h : t.get? k = some a) :
    t.insert k a = t := by
  have hput : ∀ {es : List (String × α)}, (es.find? (·.1 == k)).map (·.2) = some a →
      put k a es = es := by
    intro es
    induction es with
    | nil => exact nofun
    | cons e es ih =>
        intro hfind
        rw [put]
        split
        · rename_i hk
          rw [List.find?_cons_of_pos (by simpa using hk)] at hfind
          obtain ⟨k', a'⟩ := e
          cases hk
          cases hfind
          rfl
        · rename_i hk
          rw [List.find?_cons_of_neg (by simpa using hk)] at hfind
          rw [ih hfind]
  obtain ⟨entries, hnodup⟩ := t
  simp only [insert, hput h]

/-! ## Empty tables and tables of one entry -/

theorem entries_insert_ne_nil (t : Table α) (k : String) (a : α) :
    (t.insert k a).entries ≠ [] := by
  intro h
  have hkeys := keys_insert t k a
  rw [keys, h] at hkeys
  split at hkeys
  · rename_i hk
    rw [← hkeys] at hk
    cases hk
  · exact absurd hkeys.symm (by simp)

theorem entries_of_erase_eq_nil {t : Table α} {k : String} {a : α} (hget : t.get? k = some a)
    (herase : (t.erase k).entries = []) : t.entries = [(k, a)] := by
  obtain ⟨entries, hnodup⟩ := t
  have hkeys : ∀ e ∈ entries, e.1 = k := by
    intro e he
    by_cases hk : e.1 = k
    · exact hk
    · have hmem : e ∈ entries.filter (·.1 != k) := List.mem_filter.mpr ⟨he, bne_iff_ne.mpr hk⟩
      rw [show entries.filter (·.1 != k) = [] from herase] at hmem
      cases hmem
  match entries, hnodup, hkeys, hget with
  | [], _, _, hget => cases hget
  | [e], _, hkeys, hget =>
      have he : e.1 = k := hkeys e List.mem_cons_self
      cases he
      have ha : e.2 = a := by simpa [get?] using hget
      rw [← ha]
  | e :: e' :: es, hnodup, hkeys, _ =>
      have he : e.1 = k := hkeys e List.mem_cons_self
      have he' : e'.1 = k := hkeys e' (List.mem_cons_of_mem _ List.mem_cons_self)
      rw [List.map_cons, List.map_cons, he, he', List.nodup_cons] at hnodup
      exact absurd List.mem_cons_self hnodup.1

end Table

end Parley
