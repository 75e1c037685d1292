/-
Tables: values under texts, each key once.

A key keeps the place of its first `insert`; a later one replaces the value.
`get?_insert` and `get?_erase` say what the two operations do to the view of a
table as a partial function, and `keys_insert` what they do to its keys.
-/

namespace Parley

/-- Values under distinct texts, in the order the keys were first inserted. -/
structure Table (α : Type) where
  entries : List (String × α)
  nodup : (entries.map (·.1)).Nodup
deriving DecidableEq

namespace Table

variable {α : Type}

def empty : Table α := ⟨[], by simp⟩

def keys (t : Table α) : List String := t.entries.map (·.1)

def size (t : Table α) : Nat := t.entries.length

def isEmpty (t : Table α) : Bool := t.entries.isEmpty

/-- The value under a key. -/
def get? (t : Table α) (k : String) : Option α := (t.entries.find? (·.1 == k)).map (·.2)

def contains (t : Table α) (k : String) : Bool := t.entries.any (·.1 == k)

/-- The entries with `v` under `k`: in the place of `k`, or at the end. -/
def put (k : String) (v : α) : List (String × α) → List (String × α)
  | [] => [(k, v)]
  | e :: es => if e.1 = k then (k, v) :: es else e :: put k v es

theorem keys_put (k : String) (v : α) (es : List (String × α)) :
    (put k v es).map (·.1) =
      if k ∈ es.map (·.1) then es.map (·.1) else es.map (·.1) ++ [k] := by
  induction es with
  | nil => simp [put]
  | cons e es ih =>
    by_cases h : e.1 = k
    · subst h; simp [put]
    · have h' : ¬ k = e.1 := fun h' => h h'.symm
      simp only [put, h, if_false, List.map_cons, List.mem_cons, h', false_or, ih]
      split <;> simp

theorem nodup_put {k : String} {v : α} {es : List (String × α)}
    (h : (es.map (·.1)).Nodup) : ((put k v es).map (·.1)).Nodup := by
  rw [keys_put]
  split
  · exact h
  · rename_i hk
    rw [List.nodup_append]
    refine ⟨h, by simp, ?_⟩
    intro a ha b hb
    rw [List.mem_singleton] at hb
    subst hb
    exact fun e => hk (e ▸ ha)

def insert (t : Table α) (k : String) (v : α) : Table α :=
  ⟨put k v t.entries, nodup_put t.nodup⟩

def erase (t : Table α) (k : String) : Table α :=
  ⟨t.entries.filter (·.1 != k), t.nodup.sublist (List.filter_sublist.map _)⟩

/-- The table of a list of entries; of several under one key the last counts. -/
def ofList (es : List (String × α)) : Table α :=
  es.foldl (fun t e => t.insert e.1 e.2) empty

theorem find?_put (k q : String) (v : α) (es : List (String × α)) :
    ((put k v es).find? (·.1 == q)).map (·.2) =
      if q = k then some v else (es.find? (·.1 == q)).map (·.2) := by
  induction es with
  | nil =>
    by_cases h : q = k
    · simp [put, h]
    · simp [put, h, Ne.symm h]
  | cons e es ih =>
    by_cases h : e.1 = k
    · by_cases hq : q = k
      · simp [put, h, hq]
      · have : ¬ k = q := Ne.symm hq
        simp [put, h, hq, this]
    · by_cases he : e.1 = q
      · subst he; simp [put, h]
      · simp only [put, h, if_false, List.find?_cons, beq_eq_false_iff_ne.2 he, ih]

@[simp]
theorem get?_empty (k : String) : (empty : Table α).get? k = none := rfl

/-- An insertion changes the value under its key and no other. -/
@[simp]
theorem get?_insert (t : Table α) (k q : String) (v : α) :
    (t.insert k v).get? q = if q = k then some v else t.get? q :=
  find?_put k q v t.entries

@[simp]
theorem get?_erase (t : Table α) (k q : String) :
    (t.erase k).get? q = if q = k then none else t.get? q := by
  unfold get? erase
  rw [List.find?_filter]
  by_cases h : q = k
  · subst h
    rw [if_pos rfl, List.find?_eq_none.2]
    · rfl
    · intro e _; by_cases he : e.1 = q <;> simp [he]
  · simp only [h, if_false]
    congr 2
    funext e
    by_cases he : e.1 = q
    · simp [he, h]
    · simp [he]

/-- A key is inserted at the end unless it is there already. -/
theorem keys_insert (t : Table α) (k : String) (v : α) :
    (t.insert k v).keys = if k ∈ t.keys then t.keys else t.keys ++ [k] :=
  keys_put k v t.entries

theorem contains_eq_isSome (t : Table α) (k : String) : t.contains k = (t.get? k).isSome := by
  rw [Bool.eq_iff_iff]
  simp [contains, get?, Option.isSome_map, List.find?_isSome]

end Table

end Parley
