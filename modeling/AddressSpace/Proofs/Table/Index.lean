import AddressSpace.KeyMap
/-!
# Queries of a map from numbers

What the queries of a `KeyMap` give, said through `get?`: all values (`mem_values`), those whose keys lie between two
numbers (`mem_between`), and the value under the greatest key up to a number that has some property
(`find?_downFrom_eq_some`, `find?_downFrom_eq_none`). The index of an interval table is read by these alone.
-/

namespace AddressSpace.KeyMap

variable {α : Type}

/-- The values are those that some key finds. -/
theorem mem_values (m : KeyMap α) (v : α) : v ∈ m.values ↔ ∃ k, m.get? k = some v := by
  simp only [values, List.mem_map, Prod.exists, exists_eq_right, get?_eq_some_iff]

/-- The values from a key downward are those that it or a lower key finds. -/
theorem mem_downFrom (m : KeyMap α) (n : Nat) (v : α) : v ∈ m.downFrom n ↔ ∃ k, m.get? k = some v ∧ k ≤ n := by
  simp [downFrom, get?_eq_some_iff]

/-- No value under a key up to the number has the property. -/
theorem find?_downFrom_eq_none {m : KeyMap α} {n : Nat} {p : α → Bool} (h : (m.downFrom n).find? p = none) {k : Nat}
    {v : α} (hk : m.get? k = some v) (hn : k ≤ n) : p v = false := by
  have := List.find?_eq_none.1 h v ((mem_downFrom m n v).2 ⟨k, hk, hn⟩)
  simpa using this

/-- The entries up to a number, the greatest key first. -/
theorem downFrom_eq_map (m : KeyMap α) (n : Nat) :
    m.downFrom n = ((m.entries.filter fun e => e.1 ≤ n).reverse).map (·.2) := by
  rw [downFrom, List.map_reverse]

/-- The value found is the one under the greatest key up to the number among those with the property. -/
theorem find?_downFrom_eq_some {m : KeyMap α} {n : Nat} {p : α → Bool} {v : α}
    (h : (m.downFrom n).find? p = some v) :
    p v = true ∧ ∃ k, m.get? k = some v ∧ k ≤ n ∧ ∀ j w, m.get? j = some w → j ≤ n → p w = true → j ≤ k := by
  refine ⟨List.find?_some h, ?_⟩
  rw [downFrom_eq_map, List.find?_map, Option.map_eq_some_iff] at h
  obtain ⟨e, he, rfl⟩ := h
  obtain ⟨_, before, after, hsplit, hbefore⟩ := List.find?_eq_some_iff_append.1 he
  have hdesc : (before ++ e :: after).Pairwise fun a b => b.1 < a.1 := by
    rw [← hsplit, List.pairwise_reverse]
    exact m.sorted.filter _
  have hmem : ∀ d, d ∈ before ++ e :: after ↔ d ∈ m.entries ∧ d.1 ≤ n := by
    intro d
    rw [← hsplit]
    simp
  obtain ⟨hin, hn⟩ := (hmem e).1 (by simp)
  refine ⟨e.1, (get?_eq_some_iff m _ _).2 hin, hn, fun j w hj hjn hw => ?_⟩
  have hj' := (hmem (j, w)).2 ⟨(get?_eq_some_iff m _ _).1 hj, hjn⟩
  rcases List.mem_append.1 hj' with hb | ha
  · exact absurd hw (by simpa using hbefore _ hb)
  · rcases List.mem_cons.1 ha with rfl | ha
    · exact Nat.le_refl _
    · have := (List.pairwise_cons.1 (List.pairwise_append.1 hdesc).2.1).1 _ ha
      exact Nat.le_of_lt this

/-- The greatest key up to the number. -/
theorem head?_downFrom_eq_some {m : KeyMap α} {n : Nat} {v : α} (h : (m.downFrom n).head? = some v) :
    ∃ k, m.get? k = some v ∧ k ≤ n ∧ ∀ j w, m.get? j = some w → j ≤ n → j ≤ k := by
  have h' : (m.downFrom n).find? (fun _ => true) = some v := by
    cases hd : m.downFrom n with
    | nil => simp [hd] at h
    | cons d ds => simpa [hd] using h
  obtain ⟨-, k, hk, hn, hmax⟩ := find?_downFrom_eq_some h'
  exact ⟨k, hk, hn, fun j w hj hjn => hmax j w hj hjn rfl⟩

/-- Where nothing is found from a key downward, no key that finds something is at or below it. -/
theorem head?_downFrom_eq_none {m : KeyMap α} {n : Nat} (h : (m.downFrom n).head? = none) {k : Nat} {v : α}
    (hk : m.get? k = some v) : ¬k ≤ n := by
  intro hn
  have := (mem_downFrom m n v).2 ⟨k, hk, hn⟩
  rw [List.head?_eq_none_iff.1 h] at this
  exact absurd this (by simp)

end AddressSpace.KeyMap
