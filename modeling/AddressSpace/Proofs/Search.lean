import AddressSpace.External
import AddressSpace.Note
import AddressSpace.Range.Filter
import AddressSpace.Proofs.Text.Lower
/-!
# Searching for what stands in a row

Every listing that takes a search term shows the rows with a text that the term matches, both in lower case and without the blanks
around the term (`RangeFilter.accepts_iff` and its like). A term taken literally from a row finds the row, but for one letter: a
capital sigma has two lower-case forms, one of which ends words. The term and the texts are put into lower case each on its own, so a
term that is cut out of a word may end in the one form where the word goes on with the other, and is then not found
(`literal_not_always_found`). A term is found wherever it occurs with its capital sigmas as they are in the term alone
(`literal_found`): any term without a capital sigma occurs so, and any term of whole words.
-/

namespace AddressSpace

open Text (Matches Occurs)

variable {F : Family} {t : String}

/-! ## The listings -/

/-- A search accepts a range whose name or user remark matches, or whose admin remark does for those who may see it. -/
theorem RangeFilter.accepts_iff {privileged : Bool} {r : Range F} :
    ({ RangeFilter.all with search := some t, privileged } : RangeFilter F).accepts r = true ↔
      Matches t r.name ∨ Matches t r.userRemark ∨ privileged = true ∧ Matches t r.adminRemark := by
  show Text.found t (r.name :: r.userRemark :: if privileged then [r.adminRemark] else []) = true ↔ _
  rw [Text.found_iff (List.cons_ne_nil _ _)]
  cases privileged <;> simp

/-- A search accepts a supernet whose name or remark matches. -/
theorem SupernetFilter.accepts_iff {s : Supernet} :
    SupernetFilter.accepts ⟨none, none, none, some t⟩ s = true ↔ Matches t s.name ∨ Matches t s.remark := by
  show Text.found t [s.name, s.remark] = true ↔ _
  rw [Text.found_iff (List.cons_ne_nil _ _)]
  simp

/-- A search accepts an external range of which one text matches. -/
theorem ExternalFilter.accepts_iff {r : ExternalRange} :
    ExternalFilter.accepts ⟨none, none, some t⟩ r = true ↔
      ∃ field ∈ [r.name, r.remark, r.orgName, r.country, r.city], Matches t field :=
  Text.found_iff (List.cons_ne_nil _ _)

namespace Notes

/-- A reader finds a term in a note by a remark that is not empty. -/
theorem found_iff {privileged : Bool} {n : Note F} :
    found t privileged n = true ↔ ∃ remark ∈ visible n privileged, remark ≠ "" ∧ Matches t remark := by
  unfold found
  split
  · rename_i hterm
    simp only [List.any_eq_true, decide_eq_true_eq, Text.matches_of_trimmed_eq_nil hterm, and_true]
  · rename_i hterm
    simp only [List.any_eq_true, Text.holds_iff]
    refine exists_congr fun remark => and_congr_right fun _ => ?_
    exact ⟨fun h => ⟨h.ne_empty hterm, h⟩, And.right⟩

/-- The notes between two bounds are those on the addresses between them. -/
theorem mem_between {m : Notes F} {start stop : Option (Address F)} {n : Note F} :
    n ∈ KeyMap.between m ((start.map (·.bits)).getD 0) ((stop.map (·.bits)).getD (F.size - 1)) ↔
      ∃ address, m.get? address = some n ∧ (∀ a ∈ start, a ≤ address) ∧ ∀ a ∈ stop, address ≤ a := by
  have hlow (k : Nat) : (start.map (·.bits)).getD 0 ≤ k ↔ ∀ a ∈ start, a.bits ≤ k := by
    cases start <;> simp
  have hhigh (k : Nat) : k ≤ (stop.map (·.bits)).getD (F.size - 1) ↔ k < F.size ∧ ∀ a ∈ stop, k ≤ a.bits := by
    have := F.size_pos
    cases stop with
    | none => simp; omega
    | some last =>
      have := last.isLt
      simp; omega
  rw [KeyMap.mem_between]
  simp only [hlow, hhigh]
  constructor
  · rintro ⟨k, hget, hstart, hk, hstop⟩
    exact ⟨⟨k, hk⟩, hget, hstart, hstop⟩
  · rintro ⟨address, hget, hstart, hstop⟩
    exact ⟨address.bits, hget, hstart, address.isLt, hstop⟩

/-- A search lists the notes between two addresses of which one remark matches, the admin remark for those who may see it only. -/
theorem mem_filter_iff {m : Notes F} {start stop : Option (Address F)} {privileged : Bool} {n : Note F} :
    n ∈ m.filter start stop (some t) privileged ↔
      (∃ address, m.get? address = some n ∧ (∀ a ∈ start, a ≤ address) ∧ ∀ a ∈ stop, address ≤ a) ∧
        ((n.userRemark ≠ "" ∧ Matches t n.userRemark) ∨ privileged = true ∧ n.adminRemark ≠ "" ∧ Matches t n.adminRemark) := by
  have hfilter : n ∈ m.filter start stop (some t) privileged ↔ _ ∧ found t privileged n = true := List.mem_filter
  rw [hfilter, mem_between, found_iff, visible]
  cases privileged <;> simp

end Notes

/-! ## Terms taken from a row -/

/-- A term occurs in a text that it stands in if it has no capital sigma, or if it stands there as whole words, and matches every
text that it occurs in. A search shows just the rows with a text to look into that the term matches, and so those with one that it
occurs in: the name and the user remark of a range, the name and the remark of a supernet, the five texts of an external range, and
the user remark of a note if that is not empty. Those with privilege also find ranges and notes by the admin remark. -/
theorem literal_found (t : String) :
    (∀ field : String, 'Σ' ∉ t.toList → t.toList <:+: field.toList → Occurs t field) ∧
      (∀ (field : String) (before after : List Char), field.toList = before ++ t.toList ++ after →
        (∀ c ∈ before.getLast?, Text.isBlank c = true) → (∀ c ∈ after.head?, Text.isBlank c = true) → Occurs t field) ∧
      (∀ field : String, Occurs t field → Matches t field) ∧
      (∀ (F : Family) (r : Range F) (privileged : Bool),
        ({ RangeFilter.all with search := some t, privileged } : RangeFilter F).accepts r = true ↔
          Matches t r.name ∨ Matches t r.userRemark ∨ privileged = true ∧ Matches t r.adminRemark) ∧
      (∀ s : Supernet, SupernetFilter.accepts ⟨none, none, none, some t⟩ s = true ↔ Matches t s.name ∨ Matches t s.remark) ∧
      (∀ r : ExternalRange, ExternalFilter.accepts ⟨none, none, some t⟩ r = true ↔
        ∃ field ∈ [r.name, r.remark, r.orgName, r.country, r.city], Matches t field) ∧
      ∀ (F : Family) (m : Notes F) (start stop : Option (Address F)) (privileged : Bool) (n : Note F),
        n ∈ m.filter start stop (some t) privileged ↔
          (∃ address, m.get? address = some n ∧ (∀ a ∈ start, a ≤ address) ∧ ∀ a ∈ stop, address ≤ a) ∧
            ((n.userRemark ≠ "" ∧ Matches t n.userRemark) ∨
              privileged = true ∧ n.adminRemark ≠ "" ∧ Matches t n.adminRemark) := by
  refine ⟨fun _ => Text.occurs_of_infix, fun _ _ _ => Text.occurs_of_blank, fun _ => Text.matches_of_occurs,
    fun _ _ _ => RangeFilter.accepts_iff, fun _ => SupernetFilter.accepts_iff, fun _ => ExternalFilter.accepts_iff,
    fun _ _ _ _ _ _ => Notes.mem_filter_iff⟩

/-- A term that ends in the final sigma, as the word in the rows does, and one without a sigma. -/
theorem literal_found_words :
    let field := "ΟΔΟΣ 24"
    let r : Range .v4 :=
      .build (.ofBits 1) field ⟨.ofBits .v4 0x0a000000, .ofBits .v4 0x0a0000ff, 24⟩ ⟨1, 64512, "AS64512"⟩ default
    let s : Supernet := ⟨.ofBits 2, "10.0.0.0/24", r.span, .inWarehouse, 64512, field, "", 0, 256, default, default⟩
    let e : ExternalRange := ⟨.ofBits 3, "10.0.0.0/24", r.span, 64512, "", "GR", field, "", "", default, default⟩
    let n : Note .v4 := ⟨.ofBits .v4 0x0a000001, "", field, default, default⟩
    Occurs "ΟΔΟΣ" field ∧ Occurs "24" field ∧
      ({ RangeFilter.all with search := some "ΟΔΟΣ" } : RangeFilter .v4).accepts r = true ∧
      SupernetFilter.accepts ⟨none, none, none, some "ΟΔΟΣ"⟩ s = true ∧
      ExternalFilter.accepts ⟨none, none, some "ΟΔΟΣ"⟩ e = true ∧
      n ∈ (Notes.ofList [n]).filter (some (.ofBits .v4 0x0a000000)) (some (.ofBits .v4 0x0a0000ff)) (some "ΟΔΟΣ") false := by
  intro field r s e n
  obtain ⟨-, hword, hmatches, hrange, hsupernet, hexternal, hnote⟩ := literal_found "ΟΔΟΣ"
  have hblank : ∀ c ∈ " 24".toList.head?, Text.isBlank c = true := by
    rintro c hc
    obtain rfl := Option.some.inj hc
    decide
  have hoccurs : Occurs "ΟΔΟΣ" field := hword field [] " 24".toList (by decide) (by simp) hblank
  have hfield := hmatches field hoccurs
  have hname : r.name = field := by decide +kernel
  refine ⟨hoccurs, (literal_found "24").1 field (by decide) ⟨"ΟΔΟΣ ".toList, [], by decide⟩, ?_, ?_, ?_, ?_⟩
  · exact (hrange .v4 r false).2 (.inl (hname ▸ hfield))
  · exact (hsupernet s).2 (.inr hfield)
  · exact (hexternal e).2 ⟨e.city, by simp, hfield⟩
  · refine (hnote .v4 _ _ _ false n).2 ⟨⟨.ofBits .v4 0x0a000001, ?_, ?_, ?_⟩, .inl ⟨by decide, hfield⟩⟩
    · decide +kernel
    · decide +kernel
    · decide +kernel

/-- A term that is cut out of a word may be missed: alone it ends in the final sigma, in the name the word goes on. -/
theorem literal_not_always_found :
    ¬∀ (t : String) (r : Range .v4), t.toList <:+: r.name.toList →
      ({ RangeFilter.all with search := some t } : RangeFilter .v4).accepts r = true := by
  intro hfound
  let r : Range .v4 :=
    .build (.ofBits 1) "ΑΣΑ" ⟨.ofBits .v4 0x0a000000, .ofBits .v4 0x0a0000ff, 24⟩ ⟨1, 64512, "AS64512"⟩ default
  have hmissed : ({ RangeFilter.all with search := some "ΑΣ" } : RangeFilter .v4).accepts r = false := by decide +kernel
  exact absurd (hfound "ΑΣ" r ⟨[], "Α".toList, by decide⟩) (by rw [hmissed]; decide)

end AddressSpace
