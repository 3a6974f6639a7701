import AddressSpace.Address.Text
import AddressSpace.Proofs.Text.Numerals
/-!
# Addresses that are written are read

The text of an address is read as that address, in both families (`ofText?_text`): dotted octets (`readDotted?_dotted`), eight
groups with colons, groups around a double colon that stands for a run of zeros, and octets behind sixteen one bits
(`readGrouped?_grouped`).
-/

namespace AddressSpace

namespace Text

variable {sep : Char} {part rest : List Char} {parts : List (List Char)}

/-! ## Doubled separators -/

/-- No doubled separator starts in a part without one. -/
theorem splitDouble?_append (h : sep ∉ part) (rest : List Char) :
    splitDouble? sep (part ++ rest) = (splitDouble? sep rest).map fun p => (part ++ p.1, p.2) := by
  induction part with
  | nil => exact (congrFun Option.map_id _).symm
  | cons c part ih =>
    rw [List.mem_cons, not_or] at h
    rw [List.cons_append, splitDouble?, if_neg fun hc => h.1 hc.1.symm, ih h.2, Option.map_map]
    rfl

/-- Nor does one start at a single separator. -/
theorem splitDouble?_sep (h : rest.head? ≠ some sep) :
    splitDouble? sep (sep :: rest) = (splitDouble? sep rest).map fun p => (sep :: p.1, p.2) := by
  rw [splitDouble?, if_neg fun hc => h hc.2]

/-- In joined parts of which none is empty there is no doubled separator, nor does one start at their end. -/
theorem splitDouble?_join (h : ∀ part ∈ parts, part ≠ [] ∧ sep ∉ part) (rest : List Char) :
    splitDouble? sep (join sep parts ++ rest) = (splitDouble? sep rest).map fun p => (join sep parts ++ p.1, p.2) := by
  induction parts with
  | nil => exact (congrFun Option.map_id _).symm
  | cons part parts ih =>
    obtain ⟨⟨-, hpart⟩, hparts⟩ := List.forall_mem_cons.1 h
    cases parts with
    | nil => exact splitDouble?_append hpart rest
    | cons next parts =>
      obtain ⟨hne, hnext⟩ := hparts next List.mem_cons_self
      have hhead : (join sep (next :: parts) ++ rest).head? ≠ some sep := by
        obtain ⟨c, cs, rfl⟩ := List.exists_cons_of_ne_nil hne
        have hc : c ≠ sep := fun he => hnext (he ▸ List.mem_cons_self)
        cases parts <;> simpa [join] using hc
      rw [join, List.append_assoc, splitDouble?_append hpart, List.cons_append, splitDouble?_sep hhead, ih hparts, Option.map_map,
        Option.map_map]
      · refine Option.map_congr fun p _ => ?_
        simp
      · exact List.cons_ne_nil _ _

end Text

namespace Address

open Text

/-! ## Dotted octets -/

/-- A byte that is written is read. -/
theorem octet?_digits {d : Nat} (h : d < 256) : octet? (digits 10 d) = some d := by
  have hlength : (digits 10 d).length ≤ 3 := length_digits_le (by decide) (Nat.lt_trans h (by decide))
  have hhead : (digits 10 d).length ≤ 1 ∨ (digits 10 d).head? ≠ some '0' := by
    by_cases hd : d = 0
    · rw [hd, digits_of_lt (by decide)]
      exact .inl (Nat.le_refl 1)
    · exact .inr (head?_digits_ne (by decide) (by decide) (Nat.pos_of_ne_zero hd))
  rw [octet?, if_pos ⟨hlength, hhead⟩, value_digits (by decide) (by decide), Option.filter_some, if_pos (decide_eq_true h)]

/-- Four octets with dots are read as their number. -/
theorem readDotted?_dotted {n : Nat} (h : n < Family.v4.size) : readDotted? (dotted n) = some n := by
  have hn : n < 4294967296 := h
  have hsplit : split '.' (dotted n) = [(n >>> 24) % 256, (n >>> 16) % 256, (n >>> 8) % 256, n % 256].map (digits 10) := by
    refine split_join (List.cons_ne_nil _ _) (List.forall_mem_map.2 fun d _ => ?_)
    exact not_mem_digits (by decide) (by decide) rfl d
  have hoctet : ∀ m : Nat, octet? (digits 10 (m % 256)) = some (m % 256) := fun m => octet?_digits (Nat.mod_lt _ (by decide))
  unfold readDotted?
  rw [hsplit]
  simp only [List.map_cons, List.map_nil, List.mapM_cons, List.mapM_nil, hoctet, Option.bind_eq_bind, Option.bind_some,
    Option.pure_def, Nat.shiftRight_eq_div_pow]
  congr 1
  omega

/-! ## Groups -/

/-- The groups of a number of 128 bits stand for it. -/
theorem ofGroups_groups {n : Nat} (h : n < Family.v6.size) : ofGroups (groups n) = n := by
  have htop : n / 2 ^ 112 % 65536 = n / 2 ^ 112 := Nat.mod_eq_of_lt (Nat.div_lt_of_lt_mul h)
  -- a group stands behind the bits above it
  have hnext (k : Nat) : n / 2 ^ (k + 16) * 65536 + n / 2 ^ k % 65536 = n / 2 ^ k := by
    rw [Nat.pow_add, ← Nat.div_div_eq_div_mul]
    exact Nat.div_add_mod' _ _
  have hrange : List.range 8 = [0, 1, 2, 3, 4, 5, 6, 7] := rfl
  simp only [ofGroups, groups, hrange, List.map_cons, List.map_nil, List.foldl_cons, List.foldl_nil, Nat.shiftRight_eq_div_pow]
  rw [Nat.zero_mul, Nat.zero_add, htop, hnext 96, hnext 80, hnext 64, hnext 48, hnext 32, hnext 16, hnext 0, Nat.pow_zero,
    Nat.div_one]

theorem length_groups (n : Nat) : (groups n).length = 8 := rfl

theorem groups_lt {n g : Nat} (h : g ∈ groups n) : g < 65536 := by
  obtain ⟨i, -, rfl⟩ := List.mem_map.1 h
  exact Nat.mod_lt _ (by decide)

/-- A group that is written is read. -/
theorem group?_digits {g : Nat} (h : g < 65536) : group? (digits 16 g) = some g := by
  have hlength : (digits 16 g).length ≤ 4 := length_digits_le (by decide) (Nat.lt_of_lt_of_le h (by decide))
  rw [group?, if_pos hlength, value_digits (by decide) (by decide)]

variable {gs : List Nat}

/-- Groups that are written are read, one by one. -/
theorem mapM_group?_digits (h : ∀ g ∈ gs, g < 65536) : (gs.map (digits 16)).mapM group? = some gs := by
  induction gs with
  | nil => rfl
  | cons g gs ih =>
    obtain ⟨hg, hgs⟩ := List.forall_mem_cons.1 h
    rw [List.map_cons, List.mapM_cons, group?_digits hg, ih hgs]
    rfl

/-- Parts that are all groups are read as these. -/
theorem readParts?_digits (h : ∀ g ∈ gs, g < 65536) : readParts? (gs.map (digits 16)) = some gs := by
  induction gs with
  | nil => rfl
  | cons g gs ih =>
    obtain ⟨hg, hgs⟩ := List.forall_mem_cons.1 h
    cases gs with
    | nil =>
      have hdot : (digits 16 g).contains '.' = false := by
        simpa using not_mem_digits (by decide : 1 < 16) (by decide) rfl g
      rw [List.map_singleton, readParts?, hdot, group?_digits hg]
      rfl
    | cons g' gs =>
      rw [List.map_cons, List.map_cons, readParts?, group?_digits hg, ← List.map_cons, ih hgs]
      · rfl
      · exact List.cons_ne_nil _ _

/-- The numerals of groups hold no colon, and none is empty. -/
theorem numerals_of_groups (gs : List Nat) : ∀ part ∈ gs.map (digits 16), part ≠ [] ∧ ':' ∉ part :=
  List.forall_mem_map.2 fun g _ => ⟨digits_ne_nil 16 g, not_mem_digits (by decide) (by decide) rfl g⟩

/-- Groups with colons between them are cut apart at the colons. -/
theorem split_colons (h : gs ≠ []) : split ':' (colons gs) = gs.map (digits 16) :=
  split_join (by simpa using h) fun part hpart => (numerals_of_groups gs part hpart).2

/-- No groups are no parts, and others are cut apart at the colons. -/
theorem colonParts_colons (gs : List Nat) : colonParts (colons gs) = gs.map (digits 16) := by
  cases gs with
  | nil => rfl
  | cons g gs =>
    have hne : colons (g :: gs) ≠ [] := by
      have hg := digits_ne_nil 16 g
      cases gs <;> simp [colons, join, hg]
    rw [colonParts, if_neg hne, split_colons (List.cons_ne_nil _ _)]

/-- Eight groups with colons are read as their number. -/
theorem readGrouped?_colons (h : ∀ g ∈ gs, g < 65536) (hlength : gs.length = 8) :
    readGrouped? (colons gs) = some (ofGroups gs) := by
  have hne : gs ≠ [] := List.ne_nil_of_length_pos (by omega)
  have hdouble : splitDouble? ':' (colons gs) = none := by
    have hjoin := splitDouble?_join (numerals_of_groups gs) []
    rwa [List.append_nil] at hjoin
  rw [readGrouped?, hdouble]
  simp only [split_colons hne, readParts?_digits h, Option.bind_eq_bind, Option.bind_some, if_pos hlength]

/-- Groups around a double colon are read as their number with zero groups put in. -/
theorem readGrouped?_around {before after : List Nat} (hb : ∀ g ∈ before, g < 65536) (ha : ∀ g ∈ after, g < 65536)
    (hlength : before.length + after.length < 8) :
    readGrouped? (colons before ++ ':' :: ':' :: colons after) =
      some (ofGroups (before ++ List.replicate (8 - before.length - after.length) 0 ++ after)) := by
  have hdouble : splitDouble? ':' (colons before ++ ':' :: ':' :: colons after) = some (colons before, colons after) := by
    refine (splitDouble?_join (numerals_of_groups before) _).trans ?_
    simp [splitDouble?, colons]
  rw [readGrouped?, hdouble]
  simp only [colonParts_colons, mapM_group?_digits hb, readParts?_digits ha, Option.bind_eq_bind, Option.bind_some,
    if_pos hlength]

/-- The zeros that a list starts with, and the rest of it. -/
theorem replicate_drop_zeros (gs : List Nat) :
    List.replicate (gs.takeWhile (· == 0)).length 0 ++ gs.drop (gs.takeWhile (· == 0)).length = gs := by
  induction gs with
  | nil => rfl
  | cons g gs ih =>
    cases g with
    | zero =>
      rw [List.takeWhile_cons_of_pos rfl, List.length_cons, List.replicate_succ, List.cons_append, List.drop_succ_cons, ih]
    | succ g => rw [List.takeWhile_cons_of_neg (by simp), List.length_nil, List.replicate_zero, List.nil_append, List.drop_zero]

/-- A run of zero groups with what stands before and after it. -/
theorem take_replicate_drop (gs : List Nat) (i : Nat) :
    gs.take i ++ List.replicate (zerosAt gs i) 0 ++ gs.drop (i + zerosAt gs i) = gs := by
  rw [← List.drop_drop, List.append_assoc, zerosAt, replicate_drop_zeros, List.take_append_drop]

/-- Eight groups, their longest run of zeros left out or not, are read as their number. -/
theorem readGrouped?_compressed (h : ∀ g ∈ gs, g < 65536) (hlength : gs.length = 8) :
    readGrouped? (compressed gs) = some (ofGroups gs) := by
  have hparts := take_replicate_drop gs (longestZeros gs)
  unfold compressed
  generalize longestZeros gs = i at hparts
  by_cases hn : 1 < zerosAt gs i
  · have hsum := congrArg List.length hparts
    rw [List.length_append, List.length_append, List.length_replicate, hlength] at hsum
    rw [if_pos hn, readGrouped?_around (fun g hg => h g (List.mem_of_mem_take hg)) (fun g hg => h g (List.mem_of_mem_drop hg))
      (by omega), show 8 - (gs.take i).length - (gs.drop (i + zerosAt gs i)).length = zerosAt gs i by omega, hparts]
  · rw [if_neg hn]
    exact readGrouped?_colons h hlength

/-- Octets behind sixteen one bits are read as the number that has these bits and stands for the octets. -/
theorem readGrouped?_mapped {n : Nat} (h : n >>> 32 = 0xffff) :
    readGrouped? ("::ffff:".toList ++ dotted (n % Family.v4.size)) = some n := by
  have hlow : n % Family.v4.size < Family.v4.size := Nat.mod_lt _ Family.v4.size_pos
  have hcolon : ':' ∉ dotted (n % Family.v4.size) := by
    simp only [dotted, List.map_cons, List.map_nil, join, List.mem_append, List.mem_cons, not_or]
    simp [not_mem_digits (c := ':') (by decide : 1 < 10) (by decide) rfl]
  have hdot : (dotted (n % Family.v4.size)).contains '.' = true := by simp [dotted, join]
  have hsplit : colonParts (['f', 'f', 'f', 'f'] ++ ':' :: dotted (n % Family.v4.size)) =
      [['f', 'f', 'f', 'f'], dotted (n % Family.v4.size)] := by
    rw [colonParts, if_neg (by simp), split_append (by decide), split_of_not_mem hcolon]
  have hdouble : splitDouble? ':' ("::ffff:".toList ++ dotted (n % Family.v4.size)) =
      some ([], ['f', 'f', 'f', 'f'] ++ ':' :: dotted (n % Family.v4.size)) := rfl
  have hones : group? ['f', 'f', 'f', 'f'] = some 0xffff := by decide
  have hparts : readParts? [['f', 'f', 'f', 'f'], dotted (n % Family.v4.size)] =
      some [0xffff, n % Family.v4.size / 0x10000, n % Family.v4.size % 0x10000] := by
    rw [readParts?, hones, readParts?, hdot, if_pos rfl, readDotted?_dotted hlow]
    · rfl
    · exact List.cons_ne_nil _ _
  have hvalue : ofGroups (List.replicate 5 0 ++ [0xffff, n % Family.v4.size / 0x10000, n % Family.v4.size % 0x10000]) = n := by
    have hsize : Family.v4.size = 4294967296 := rfl
    rw [Nat.shiftRight_eq_div_pow] at h
    simp only [hsize, ofGroups, List.replicate, List.cons_append, List.nil_append, List.foldl_cons, List.foldl_nil]
    omega
  rw [readGrouped?, hdouble]
  simp only [hsplit, hparts]
  exact congrArg some hvalue

/-- The text of a number of 128 bits is read as the number. -/
theorem readGrouped?_grouped {n : Nat} (h : n < Family.v6.size) : readGrouped? (grouped n) = some n := by
  unfold grouped
  by_cases hmapped : n >>> 32 = 0xffff
  · rw [if_pos hmapped]
    exact readGrouped?_mapped hmapped
  · rw [if_neg hmapped, readGrouped?_compressed (fun g hg => groups_lt hg) (length_groups n), ofGroups_groups h]

/-! ## Either family -/

/-- The text of an address is read as the address. -/
theorem ofText?_text {F : Family} (a : Address F) : ofText? F a.text = some a := by
  rw [ofText?, text, String.toList_ofList]
  cases F with
  | v4 => exact (congrArg (Option.map (ofBits .v4)) (readDotted?_dotted a.isLt)).trans (congrArg some a.ofBits_bits)
  | v6 => exact (congrArg (Option.map (ofBits .v6)) (readGrouped?_grouped a.isLt)).trans (congrArg some a.ofBits_bits)

end Address

end AddressSpace
