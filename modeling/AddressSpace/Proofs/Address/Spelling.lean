import AddressSpace.Proofs.Address.Text
import AddressSpace.Proofs.Text.Blank
/-!
# How addresses are spelled

`Spelled` says which text an address has, without saying how it is found: octets with dots, groups with colons, the longest run of
at least two zero groups (the first of several) as a double colon, and octets behind sixteen one bits. Every address is written
so (`Address.spelled`), and so with dots, colons and digits only (`Address.mem_chars`).
-/

namespace AddressSpace

namespace Text

variable {sep c : Char} {parts : List (List Char)}

/-- The `count` digits of a number, leading zeros among them. -/
structure Places (base count n : Nat) (ds : List Nat) : Prop where
  length : ds.length = count
  lt : ∀ d ∈ ds, d < base
  value : ds.foldl (fun m d => m * base + d) 0 = n

/-- Joining adds separators and nothing else. -/
theorem mem_join (h : c ∈ join sep parts) : c = sep ∨ ∃ part ∈ parts, c ∈ part := by
  induction parts with
  | nil => cases h
  | cons part rest ih =>
    cases rest with
    | nil => exact .inr ⟨part, List.mem_cons_self, h⟩
    | cons next rest =>
      rw [join, List.mem_append, List.mem_cons] at h
      · rcases h with h | h | h
        · exact .inr ⟨part, List.mem_cons_self, h⟩
        · exact .inl h
        · rcases ih h with h | ⟨p, hp, h⟩
          · exact .inl h
          · exact .inr ⟨p, List.mem_cons_of_mem part hp, h⟩
      · exact List.cons_ne_nil _ _

/-- Numerals with a separator consist of it and of digits. -/
theorem mem_join_digits {base : Nat} (hb : 1 < base) {ns : List Nat} (h : c ∈ join sep (ns.map (digits base))) :
    c = sep ∨ ∃ d < base, c = digitChar d := by
  rcases mem_join h with h | ⟨part, hpart, h⟩
  · exact .inl h
  · obtain ⟨n, -, rfl⟩ := List.mem_map.1 hpart
    exact .inr (mem_digits hb h)

end Text

namespace Address

open Text

variable {F : Family} {gs : List Nat}

/-- The text of an address. -/
inductive Spelled : {F : Family} → Address F → List Char → Prop where
  /-- Four decimal octets with dots. -/
  | dotted {a : Address .v4} {os : List Nat} (h : Places 256 4 a.bits os) : Spelled a (join '.' (os.map (digits 10)))
  /-- Four decimal octets behind sixteen one bits that have zeros before them. -/
  | mapped {a : Address .v6} {n : Nat} {os : List Nat} (h : a.bits = 0xffff * 2 ^ 32 + n) (hos : Places 256 4 n os) :
    Spelled a ("::ffff:".toList ++ join '.' (os.map (digits 10)))
  /-- Eight hexadecimal groups with colons, if no two zero groups meet. -/
  | full {a : Address .v6} {gs : List Nat} (hplain : a.bits / 2 ^ 32 ≠ 0xffff) (h : Places 0x10000 8 a.bits gs)
    (hzeros : ¬ [0, 0] <:+: gs) : Spelled a (join ':' (gs.map (digits 16)))
  /-- The groups around a run of at least two zero groups that is as long as any other, and starts before any as long. -/
  | shortened {a : Address .v6} {before after : List Nat} {n : Nat} (hplain : a.bits / 2 ^ 32 ≠ 0xffff)
    (h : Places 0x10000 8 a.bits (before ++ List.replicate n 0 ++ after)) (htwo : 2 ≤ n)
    (hlongest : ∀ k, List.replicate k 0 <:+: before ++ List.replicate n 0 ++ after → k ≤ n)
    (hfirst : ∀ before' after', before ++ List.replicate n 0 ++ after = before' ++ List.replicate n 0 ++ after' →
      before.length ≤ before'.length) :
    Spelled a (join ':' (before.map (digits 16)) ++ ':' :: ':' :: join ':' (after.map (digits 16)))

/-! ## Runs of zeros -/

/-- A run of zeros is counted where it starts. -/
theorem le_zerosAt {before after : List Nat} {k : Nat} (h : gs = before ++ List.replicate k 0 ++ after) :
    k ≤ zerosAt gs before.length := by
  have hzeros : ∀ g ∈ List.replicate k 0, (g == 0) = true := fun g hg => by rw [List.eq_of_mem_replicate hg]; rfl
  rw [h, zerosAt, List.append_assoc, List.drop_left, List.takeWhile_append_of_pos hzeros, List.length_append,
    List.length_replicate]
  exact Nat.le_add_right k _

/-- No run of zeros is longer than the longest, nor does one as long start before it. -/
theorem zerosAt_le_longest {j : Nat} (hj : j < gs.length) :
    zerosAt gs j ≤ zerosAt gs (longestZeros gs) ∧ (zerosAt gs j = zerosAt gs (longestZeros gs) → longestZeros gs ≤ j) := by
  -- what is found among the first positions is no later than the next, and the first of the longest runs among them
  have hfound (n : Nat) (best : Nat)
      (hbest : (List.range n).foldl (fun best i => if zerosAt gs best < zerosAt gs i then i else best) 0 = best) :
      best ≤ n ∧ ∀ j < n, zerosAt gs j ≤ zerosAt gs best ∧ (zerosAt gs j = zerosAt gs best → best ≤ j) := by
    induction n generalizing best with
    | zero => exact ⟨Nat.le_of_eq hbest.symm, nofun⟩
    | succ n ih =>
      rw [List.range_succ, List.foldl_append, List.foldl_cons, List.foldl_nil] at hbest
      obtain ⟨hle, hall⟩ := ih _ rfl
      split at hbest
      · rename_i hlt
        subst hbest
        refine ⟨Nat.le_succ _, fun j hj => ?_⟩
        by_cases hjn : j = n
        · rw [hjn]
          exact ⟨Nat.le_refl _, fun _ => Nat.le_refl _⟩
        · have := (hall j (by omega)).1
          omega
      · rename_i hlt
        rw [hbest] at hle hall hlt
        refine ⟨by omega, fun j hj => ?_⟩
        by_cases hjn : j = n
        · rw [hjn]
          omega
        · exact hall j (by omega)
  exact (hfound gs.length _ rfl).2 j hj

/-- A run of zeros, wherever it stands, is no longer than the longest. -/
theorem le_longest {k : Nat} (h : List.replicate k 0 <:+: gs) : k ≤ zerosAt gs (longestZeros gs) := by
  obtain ⟨before, after, hgs⟩ := h
  have hk : k ≤ zerosAt gs before.length := le_zerosAt hgs.symm
  rcases Nat.eq_zero_or_pos k with rfl | hpos
  · exact Nat.zero_le _
  · have hlength := congrArg List.length hgs
    rw [List.length_append, List.length_append, List.length_replicate] at hlength
    exact Nat.le_trans hk (zerosAt_le_longest (by omega)).1

/-! ## Every address -/

/-- The four bytes of a number of 32 bits are its places. -/
theorem places_dotted {n : Nat} (h : n < Family.v4.size) :
    Places 256 4 n [(n >>> 24) % 256, (n >>> 16) % 256, (n >>> 8) % 256, n % 256] where
  length := rfl
  lt d hd := by
    simp only [List.mem_cons, List.not_mem_nil, or_false] at hd
    omega
  value := by
    have hn : n < 4294967296 := h
    simp only [List.foldl_cons, List.foldl_nil, Nat.shiftRight_eq_div_pow]
    omega

/-- The eight groups of a number of 128 bits are its places. -/
theorem places_groups {n : Nat} (h : n < Family.v6.size) : Places 0x10000 8 n (groups n) :=
  ⟨length_groups n, fun _ => groups_lt, ofGroups_groups h⟩

/-- Eight groups that do not stand for octets are spelled in full or shortened. -/
theorem spelled_compressed {a : Address .v6} (hplain : a.bits / 2 ^ 32 ≠ 0xffff) (h : Places 0x10000 8 a.bits gs) :
    Spelled a (compressed gs) := by
  have hparts := take_replicate_drop gs (longestZeros gs)
  unfold compressed
  by_cases hn : 1 < zerosAt gs (longestZeros gs)
  · rw [if_pos hn]
    refine .shortened hplain (hparts.symm ▸ h) hn (hparts.symm ▸ fun k => le_longest) (hparts.symm ▸ fun before after hgs => ?_)
    have hlength := congrArg List.length hgs
    rw [List.length_append, List.length_append, List.length_replicate] at hlength
    have hzeros := le_zerosAt hgs
    obtain ⟨hle, hfirst⟩ := @zerosAt_le_longest gs before.length (by omega)
    exact Nat.le_trans (List.length_take_le _ _) (hfirst (Nat.le_antisymm hle hzeros))
  · rw [if_neg hn]
    exact .full hplain h fun hzeros => hn (le_longest hzeros)

/-- The text that is written for an address is a spelling of it. -/
theorem spelled (a : Address F) : a.Spelled a.chars := by
  cases F with
  | v4 => exact .dotted (places_dotted a.isLt)
  | v6 =>
    show a.Spelled (grouped a.bits)
    unfold grouped
    rw [Nat.shiftRight_eq_div_pow]
    by_cases hmapped : a.bits / 2 ^ 32 = 0xffff
    · rw [if_pos hmapped]
      refine .mapped (hmapped ▸ ?_) (places_dotted (Nat.mod_lt _ Family.v4.size_pos))
      exact (Nat.div_add_mod' a.bits (2 ^ 32)).symm
    · rw [if_neg hmapped]
      exact spelled_compressed hmapped (places_groups a.isLt)

/-- The text of an address consists of dots, colons and digits. -/
theorem mem_chars {a : Address F} {c : Char} (h : c ∈ a.chars) : c = '.' ∨ c = ':' ∨ ∃ d < 16, c = digitChar d := by
  have hoctets {os : List Nat} (h : c ∈ join '.' (os.map (digits 10))) : c = '.' ∨ c = ':' ∨ ∃ d < 16, c = digitChar d := by
    rcases mem_join_digits (by decide) h with h | ⟨d, hd, h⟩
    · exact .inl h
    · exact .inr (.inr ⟨d, by omega, h⟩)
  have hgroups {gs : List Nat} (h : c ∈ join ':' (gs.map (digits 16))) : c = '.' ∨ c = ':' ∨ ∃ d < 16, c = digitChar d :=
    .inr (mem_join_digits (by decide) h)
  have hspelled := a.spelled
  generalize a.chars = cs at h hspelled
  cases hspelled with
  | dotted => exact hoctets h
  | mapped =>
    rcases List.mem_append.1 h with h | h
    · have hmark : ∀ c ∈ "::ffff:".toList, c = ':' ∨ c = digitChar 15 := by simp [digitChar]
      exact .inr ((hmark c h).imp_right fun hc => ⟨15, by decide, hc⟩)
    · exact hoctets h
  | full => exact hgroups h
  | shortened =>
    simp only [List.mem_append, List.mem_cons] at h
    rcases h with h | h | h | h
    · exact hgroups h
    · exact .inr (.inl h)
    · exact .inr (.inl h)
    · exact hgroups h

/-- The text of an address has no blanks. -/
theorem solid_chars (a : Address F) : Solid a.chars := by
  intro c hc
  rcases mem_chars hc with rfl | rfl | ⟨d, hd, rfl⟩
  · decide
  · decide
  · exact isBlank_digitChar hd

end Address

end AddressSpace
