/-!
# Maps from numbers

Finite maps whose keys are natural numbers, kept in ascending order of the keys. Two maps that hold the same values
under the same keys are equal (`ext_get?`); `get?_insert` and `get?_erase` say what the two changes do.
-/

namespace AddressSpace

/-- A finite map with keys in ascending order. -/
structure KeyMap (α : Type) where
  entries : List (Nat × α)
  sorted : entries.Pairwise fun a b => a.1 < b.1
  deriving DecidableEq

namespace KeyMap

variable {α : Type}

/-! ## Lists of entries -/

/-- The value of the first entry with the key. -/
def lookup (k : Nat) : List (Nat × α) → Option α
  | [] => none
  | e :: es => if e.1 = k then some e.2 else lookup k es

/-- Puts an entry in its place, instead of one with the same key. -/
def put (k : Nat) (v : α) : List (Nat × α) → List (Nat × α)
  | [] => [(k, v)]
  | e :: es => if k < e.1 then (k, v) :: e :: es else if e.1 = k then (k, v) :: es else e :: put k v es

/-- Takes out the entry with the key. -/
def drop (k : Nat) (es : List (Nat × α)) : List (Nat × α) := es.filter fun e => e.1 ≠ k

/-- Putting a value adds no entry but its own. -/
theorem mem_put {k : Nat} {v : α} {e : Nat × α} {es : List (Nat × α)} (h : e ∈ put k v es) : e = (k, v) ∨ e ∈ es := by
  induction es with
  | nil => simp_all [put]
  | cons d ds ih =>
    rw [put] at h
    split at h
    · simpa using h
    · split at h
      · rcases List.mem_cons.1 h with h | h
        · exact .inl h
        · exact .inr (List.mem_cons_of_mem _ h)
      · rcases List.mem_cons.1 h with h | h
        · exact .inr (h ▸ List.mem_cons_self)
        · rcases ih h with h | h
          · exact .inl h
          · exact .inr (List.mem_cons_of_mem _ h)

/-- Putting a value keeps the keys in ascending order. -/
theorem sorted_put (k : Nat) (v : α) {es : List (Nat × α)} (h : es.Pairwise fun a b => a.1 < b.1) :
    (put k v es).Pairwise fun a b => a.1 < b.1 := by
  induction es with
  | nil => simp [put]
  | cons d ds ih =>
    rw [List.pairwise_cons] at h
    rw [put]
    split
    · rename_i hk
      refine List.pairwise_cons.2 ⟨fun e he => ?_, List.pairwise_cons.2 h⟩
      rcases List.mem_cons.1 he with rfl | he
      · exact hk
      · exact Nat.lt_trans hk (h.1 e he)
    · split
      · rename_i hk
        exact List.pairwise_cons.2 ⟨fun e he => hk ▸ h.1 e he, h.2⟩
      · rename_i hk hk'
        refine List.pairwise_cons.2 ⟨fun e he => ?_, ih h.2⟩
        rcases mem_put he with rfl | he
        · simp only at hk hk' ⊢
          omega
        · exact h.1 e he

/-- A value that was put is found under its key, and all other keys find what they found before. -/
theorem lookup_put (k : Nat) (v : α) (es : List (Nat × α)) (hs : es.Pairwise fun a b => a.1 < b.1) (j : Nat) :
    lookup j (put k v es) = if j = k then some v else lookup j es := by
  induction es with
  | nil => simp only [put, lookup, eq_comm]
  | cons d ds ih =>
    rw [List.pairwise_cons] at hs
    rw [put]
    split
    · rename_i hk
      by_cases hj : j = k
      · subst hj
        simp [lookup]
      · have : ¬k = j := fun h => hj h.symm
        simp [lookup, hj, this]
    · split
      · rename_i hk
        by_cases hj : j = k
        · subst hj
          simp [lookup]
        · have : ¬k = j := fun h => hj h.symm
          simp [lookup, hj, this, hk]
      · rename_i hk hk'
        by_cases hj : j = k
        · subst hj
          simp [lookup, hk', ih hs.2]
        · simp [lookup, hj, ih hs.2]

/-- A key that was dropped finds nothing, and all other keys find what they found before. -/
theorem lookup_drop (k : Nat) (es : List (Nat × α)) (j : Nat) :
    lookup j (drop k es) = if j = k then none else lookup j es := by
  induction es with
  | nil => simp [drop, lookup]
  | cons d ds ih =>
    simp only [drop, ne_eq, decide_not] at ih ⊢
    rw [List.filter_cons]
    by_cases hd : d.1 = k
    · by_cases hj : j = k
      · subst hj
        simpa [hd] using ih
      · have : ¬k = j := fun h => hj h.symm
        simp [hd, ih, hj, lookup, this]
    · by_cases hj : j = k
      · subst hj
        simpa [hd, lookup] using ih
      · simp [hd, ih, hj, lookup]

/-- Where the keys ascend, a key finds a value just when they make an entry. -/
theorem lookup_eq_some_iff {k : Nat} {v : α} {es : List (Nat × α)} (hs : es.Pairwise fun a b => a.1 < b.1) :
    lookup k es = some v ↔ (k, v) ∈ es := by
  induction es with
  | nil => simp [lookup]
  | cons d ds ih =>
    rw [List.pairwise_cons] at hs
    rw [lookup, List.mem_cons]
    split
    · rename_i hd
      constructor
      · rintro h
        left
        rw [Option.some.injEq] at h
        rw [← h, ← hd]
      · rintro (h | h)
        · rw [← h]
        · exact absurd (hs.1 _ h) (by simp [hd])
    · rename_i hd
      rw [ih hs.2]
      refine ⟨.inr, ?_⟩
      rintro (h | h)
      · exact absurd (by rw [← h]) hd
      · exact h

/-! ## Maps -/

/-- The map without entries. -/
def empty : KeyMap α := ⟨[], .nil⟩

instance : Inhabited (KeyMap α) := ⟨empty⟩

/-- The value under the key. -/
def get? (m : KeyMap α) (k : Nat) : Option α := lookup k m.entries

/-- The map with the value under the key, whatever stood there before. -/
def insert (m : KeyMap α) (k : Nat) (v : α) : KeyMap α := ⟨put k v m.entries, sorted_put k v m.sorted⟩

/-- The map without the key. -/
def erase (m : KeyMap α) (k : Nat) : KeyMap α := ⟨drop k m.entries, m.sorted.filter _⟩

/-- The values in ascending order of their keys. -/
def values (m : KeyMap α) : List α := m.entries.map (·.2)

/-- The number of entries. -/
def size (m : KeyMap α) : Nat := m.entries.length

/-- The values with their keys, of which the later ones win. -/
def ofList (es : List (Nat × α)) : KeyMap α := es.foldl (fun m e => m.insert e.1 e.2) empty

/-- The values whose keys are at most `k`, in descending order of the keys. -/
def downFrom (m : KeyMap α) (k : Nat) : List α := ((m.entries.filter fun e => e.1 ≤ k).map (·.2)).reverse

/-- The values whose keys lie between `low` and `high`, in ascending order of the keys. -/
def between (m : KeyMap α) (low high : Nat) : List α :=
  (m.entries.filter fun e => low ≤ e.1 && e.1 ≤ high).map (·.2)

/-- An inserted value is found under its key, and other keys find what they found before. -/
theorem get?_insert (m : KeyMap α) (k j : Nat) (v : α) :
    (m.insert k v).get? j = if j = k then some v else m.get? j := lookup_put k v _ m.sorted j

/-- An erased key finds nothing, and other keys find what they found before. -/
theorem get?_erase (m : KeyMap α) (k j : Nat) : (m.erase k).get? j = if j = k then none else m.get? j :=
  lookup_drop k _ j

theorem get?_empty (k : Nat) : (empty : KeyMap α).get? k = none := rfl

/-- A key finds a value just when they make an entry. -/
theorem get?_eq_some_iff (m : KeyMap α) (k : Nat) (v : α) : m.get? k = some v ↔ (k, v) ∈ m.entries :=
  lookup_eq_some_iff m.sorted

/-- The values between two keys are those that the keys from the one to the other find. -/
theorem mem_between {m : KeyMap α} {low high : Nat} {v : α} :
    v ∈ m.between low high ↔ ∃ k, m.get? k = some v ∧ low ≤ k ∧ k ≤ high := by
  unfold between
  simp only [List.mem_map, List.mem_filter, Bool.and_eq_true, decide_eq_true_eq]
  constructor
  · rintro ⟨⟨k, v⟩, ⟨hmem, hbounds⟩, rfl⟩
    exact ⟨k, (m.get?_eq_some_iff k v).2 hmem, hbounds⟩
  · rintro ⟨k, hget, hbounds⟩
    exact ⟨(k, v), ⟨(m.get?_eq_some_iff k v).1 hget, hbounds⟩, rfl⟩

/-- Two sorted lists with the same entries are equal. -/
theorem eq_of_mem_iff {es fs : List (Nat × α)} (he : es.Pairwise fun a b => a.1 < b.1)
    (hf : fs.Pairwise fun a b => a.1 < b.1) (h : ∀ e, e ∈ es ↔ e ∈ fs) : es = fs := by
  induction es generalizing fs with
  | nil =>
    cases fs with
    | nil => rfl
    | cons f fs => exact absurd ((h f).2 (by simp)) (by simp)
  | cons d ds ih =>
    cases fs with
    | nil => exact absurd ((h d).1 (by simp)) (by simp)
    | cons f fs =>
      rw [List.pairwise_cons] at he hf
      have hdf : d = f := by
        rcases List.mem_cons.1 ((h d).1 (by simp)) with hd | hd
        · exact hd
        · rcases List.mem_cons.1 ((h f).2 (by simp)) with hf' | hf'
          · exact hf'.symm
          · exact absurd (Nat.lt_trans (he.1 f hf') (hf.1 d hd)) (Nat.lt_irrefl _)
      subst hdf
      congr 1
      refine ih he.2 hf.2 fun e => ?_
      constructor
      · intro hm
        rcases List.mem_cons.1 ((h e).1 (List.mem_cons_of_mem _ hm)) with rfl | hm'
        · exact absurd (he.1 e hm) (Nat.lt_irrefl _)
        · exact hm'
      · intro hm
        rcases List.mem_cons.1 ((h e).2 (List.mem_cons_of_mem _ hm)) with rfl | hm'
        · exact absurd (hf.1 e hm) (Nat.lt_irrefl _)
        · exact hm'

/-- A map is determined by what it holds under each key. -/
theorem ext_get? {m n : KeyMap α} (h : ∀ k, m.get? k = n.get? k) : m = n := by
  have : m.entries = n.entries := eq_of_mem_iff m.sorted n.sorted fun e => by
    rw [← get?_eq_some_iff m e.1 e.2, ← get?_eq_some_iff n e.1 e.2, h]
  cases m
  cases n
  simp_all

end KeyMap

end AddressSpace
