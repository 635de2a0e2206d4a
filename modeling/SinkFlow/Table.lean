/-! Keyed tables: one value per key, in the order in which the keys were first put in. -/

namespace SinkFlow

/-- A finite map that remembers the order of its keys. -/
structure Table (κ ν : Type) where
  entries : List (κ × ν)
  nodup : (entries.map Prod.fst).Nodup
  deriving DecidableEq

namespace Table

variable {κ ν μ : Type}

/-- The table without entries. -/
def empty : Table κ ν := ⟨[], .nil⟩

instance : EmptyCollection (Table κ ν) := ⟨empty⟩

instance : Inhabited (Table κ ν) := ⟨empty⟩

/-- The keys, oldest first. -/
def keys (t : Table κ ν) : List κ := t.entries.map Prod.fst

/-- The number of keys. -/
def size (t : Table κ ν) : Nat := t.entries.length

/-- Whether the table has no key. -/
def isEmpty (t : Table κ ν) : Bool := t.entries.isEmpty

/-- Keeps the entries that pass a test. -/
def filter (p : κ → ν → Bool) (t : Table κ ν) : Table κ ν where
  entries := t.entries.filter fun e => p e.1 e.2
  nodup := t.nodup.sublist (List.filter_sublist.map _)

/-- Changes every value and no key. -/
def mapValues (f : κ → ν → μ) (t : Table κ ν) : Table κ μ where
  entries := t.entries.map fun e => (e.1, f e.1 e.2)
  nodup := by
    have h : Prod.fst ∘ (fun e : κ × ν => (e.1, f e.1 e.2)) = Prod.fst := rfl
    rw [List.map_map, h]
    exact t.nodup

@[simp] theorem keys_empty : (empty : Table κ ν).keys = [] := rfl

@[simp] theorem keys_mapValues (f : κ → ν → μ) (t : Table κ ν) : (t.mapValues f).keys = t.keys := by
  simp [keys, mapValues, Function.comp_def]

variable [DecidableEq κ]

/-- The value under a key. -/
def get? (t : Table κ ν) (k : κ) : Option ν := t.entries.lookup k

/-- Whether a key is in the table. -/
def contains (t : Table κ ν) (k : κ) : Bool := decide (k ∈ t.keys)

/-- Adds an entry under a new key; a key that is there keeps its value. -/
def insertIfNew (t : Table κ ν) (k : κ) (v : ν) : Table κ ν :=
  if h : k ∈ t.keys then t
  else
    { entries := t.entries ++ [(k, v)]
      nodup := by
        simp only [List.map_append, List.map_cons, List.map_nil, List.nodup_append]
        refine ⟨t.nodup, by simp, ?_⟩
        intro a ha b hb he
        rw [List.mem_singleton] at hb
        exact h (hb ▸ he ▸ ha) }

/-- Sets the value under a key; a new key goes to the end. -/
def insert (t : Table κ ν) (k : κ) (v : ν) : Table κ ν :=
  (t.mapValues fun k' v' => if k' = k then v else v').insertIfNew k v

/-- Removes a key. -/
def erase (t : Table κ ν) (k : κ) : Table κ ν := t.filter fun k' _ => k' ≠ k

/-- The table of a list of entries; of two entries with one key the later one wins. -/
def ofEntries (es : List (κ × ν)) : Table κ ν := es.foldl (fun t e => t.insert e.1 e.2) empty

theorem contains_iff {t : Table κ ν} {k : κ} : t.contains k = true ↔ k ∈ t.keys := by
  simp [contains]

@[simp] theorem get?_empty (k : κ) : (empty : Table κ ν).get? k = none := rfl

theorem get?_eq_none_iff {t : Table κ ν} {k : κ} : t.get? k = none ↔ k ∉ t.keys := by
  obtain ⟨es, h⟩ := t
  simp only [get?, keys]
  clear h
  induction es with
  | nil => simp
  | cons e es ih =>
      obtain ⟨a, b⟩ := e
      by_cases hk : k = a
      · simp [hk]
      · have hb : (k == a) = false := by simp [hk]
        simpa [List.lookup_cons, hb, hk] using ih

/-- A look-up after an insertion that keeps present keys. -/
theorem get?_insertIfNew (t : Table κ ν) (k j : κ) (v : ν) :
    (t.insertIfNew k v).get? j = if j = k ∧ k ∉ t.keys then some v else t.get? j := by
  unfold insertIfNew
  split
  · rename_i h
    simp [h]
  · rename_i h
    by_cases hj : j = k
    · subst hj
      have hn : t.entries.lookup j = none := get?_eq_none_iff.mpr h
      simp [get?, List.lookup_append, hn, h]
    · have hb : (j == k) = false := by simp [hj]
      simp [get?, List.lookup_append, List.lookup_cons, hb, hj]

/-- Inserting adds at most its own key, at the end. -/
theorem keys_insertIfNew (t : Table κ ν) (k : κ) (v : ν) :
    (t.insertIfNew k v).keys = if k ∈ t.keys then t.keys else t.keys ++ [k] := by
  unfold insertIfNew
  split
  · rfl
  · simp [keys]

theorem get?_mapValues (f : κ → ν → μ) (t : Table κ ν) (k : κ) :
    (t.mapValues f).get? k = (t.get? k).map (f k) := by
  obtain ⟨es, h⟩ := t
  simp only [get?, mapValues]
  clear h
  induction es with
  | nil => rfl
  | cons e es ih =>
      obtain ⟨a, b⟩ := e
      by_cases hk : k = a
      · simp [hk]
      · have hb : (k == a) = false := by simp [hk]
        simpa [List.lookup_cons, hb] using ih

/-- A look-up after setting a key. -/
theorem get?_insert (t : Table κ ν) (k j : κ) (v : ν) :
    (t.insert k v).get? j = if j = k then some v else t.get? j := by
  rw [insert, get?_insertIfNew, get?_mapValues, keys_mapValues]
  by_cases hj : j = k
  · subst hj
    by_cases hm : j ∈ t.keys
    · cases hg : t.get? j with
      | none => exact absurd hm (get?_eq_none_iff.mp hg)
      | some w => simp [hm]
    · simp [hm]
  · cases t.get? j <;> simp [hj]

/-- Setting a key adds at most that key. -/
theorem keys_insert (t : Table κ ν) (k : κ) (v : ν) :
    (t.insert k v).keys = if k ∈ t.keys then t.keys else t.keys ++ [k] := by
  simp [insert, keys_insertIfNew]

theorem keys_erase (t : Table κ ν) (k : κ) : (t.erase k).keys = t.keys.filter (· ≠ k) := by
  rw [keys, keys, List.filter_map]
  rfl

end Table

end SinkFlow
