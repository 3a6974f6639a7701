import AddressSpace.Proofs.Json.Closed
import AddressSpace.Proofs.Snapshot.Text
/-!
# How much of a text is a snapshot

Only the first value of a text is looked at (`ofText_append`), and a text is taken for a snapshot just if its first value is, whatever
stands behind it (`ofText_eq_ok_iff`). So not every text that is taken for a snapshot is a single JSON value
(`ofText_not_always_whole`), and what is written stays readable whatever is added to it (`ofText_text_append`).
-/

namespace AddressSpace.Snapshot

open Json (Space Grammar)

variable {front value rest : List Char} {s : Snapshot}

/-! ## The first value -/

/-- Only an array or an object is taken for a snapshot. -/
theorem error_of_not_opens {c : Char} (hspace : Json.isSpace c = false) (hopen : ¬(c = '[' ∨ c = '\x7b')) (fuel : Nat)
    (cs : List Char) : Decode.snapshot [] (Json.readValue (fuel + 1) (c :: cs)).1 = .error [] :=
  Json.Fields.objectOrArray_of_not_container (mt (Json.isContainer_readValue hspace).1 hopen) []

/-- What stands around the first value of a text makes no difference. -/
theorem ofText_append (hfront : Space front) (hvalue : Grammar .value value) (rest : List Char) :
    ofText (String.ofList (front ++ (value ++ rest))) = ofText (String.ofList value) := by
  obtain ⟨⟨c, ds, rfl, hspace, -⟩, -⟩ := hvalue.accepted
  simp only [ofText, Json.ofText, String.toList_ofList, Json.ofChars]
  rw [Json.readValue_of_skipSpace (hfront.skipSpace_append _)]
  by_cases hopen : c = '[' ∨ c = '\x7b'
  · obtain ⟨j, hread⟩ := hvalue.exists_readValue hopen
    have halone := hread (2 * (c :: ds).length + 1) [] (by omega)
    rw [List.append_nil] at halone
    rw [halone, hread _ rest (by simp only [List.length_append]; omega)]
  · rw [List.cons_append, error_of_not_opens hspace hopen, error_of_not_opens hspace hopen]

/-- A text that is taken for a snapshot starts with a value, perhaps behind blanks. -/
theorem exists_value {t : String} (h : ofText t = .ok s) :
    ∃ front value rest, t.toList = front ++ (value ++ rest) ∧ Space front ∧ Grammar .value value := by
  have hclosed := Json.Fields.closed_of_objectOrArray h
  obtain ⟨rest, hrest⟩ := Json.exists_behind rfl hclosed
  obtain ⟨front, value, hfront, hvalue, ht⟩ := Json.readValue_sound (Prod.ext rfl hrest)
  exact ⟨front, value, rest, ht, hfront, hvalue⟩

/-- The text is a single JSON value if nothing but blanks stands behind the one that is taken for a snapshot. -/
theorem element_iff (hfront : Space front) (hvalue : Grammar .value value) (h : ofText (String.ofList value) = .ok s) :
    Grammar .element (front ++ (value ++ rest)) ↔ Space rest := by
  refine ⟨fun helement => ?_, .element hfront hvalue⟩
  obtain ⟨⟨c, ds, rfl, hspace, -⟩, -⟩ := hvalue.accepted
  have hopen : c = '[' ∨ c = '\x7b' := by
    by_contra hopen
    rw [ofText, Json.ofText, String.toList_ofList, Json.ofChars, error_of_not_opens hspace hopen] at h
    cases h
  obtain ⟨j, hread⟩ := hvalue.exists_readValue hopen
  obtain ⟨-, j', back, hback, hwhole⟩ := helement.accepted
  have hfirst := hwhole _ [] (Nat.le_refl _) Json.ends_nil
  rw [List.append_nil, List.append_nil, Json.readValue_of_skipSpace (hfront.skipSpace_append _), hread] at hfirst
  · obtain ⟨-, hrest⟩ := Prod.mk.inj hfirst
    exact Option.some.inj hrest ▸ hback
  · simp only [List.length_append]
    omega

/-- A text is taken for a snapshot just if its first value is, whatever stands behind it; it is a single JSON value with blanks around
it just if nothing but blanks stands there. -/
theorem ofText_eq_ok_iff (t : String) (s : Snapshot) :
    ofText t = .ok s ↔ ∃ front value rest, t.toList = front ++ (value ++ rest) ∧ Space front ∧ Grammar .value value ∧
      ofText (String.ofList value) = .ok s ∧ (Grammar .element t.toList ↔ Space rest) := by
  constructor
  · intro h
    obtain ⟨front, value, rest, ht, hfront, hvalue⟩ := exists_value h
    have halone : ofText (String.ofList value) = .ok s := by
      rw [← ofText_append hfront hvalue rest, ← ht, String.ofList_toList, h]
    exact ⟨front, value, rest, ht, hfront, hvalue, halone, ht ▸ element_iff hfront hvalue halone⟩
  · rintro ⟨front, value, rest, ht, hfront, hvalue, halone, -⟩
    rw [← String.ofList_toList (s := t), ht, ofText_append hfront hvalue, halone]

/-- Two values, one behind the other, are taken for the first. -/
theorem ofText_not_always_whole : ¬∀ t s, ofText t = .ok s → Grammar .element t.toList := by
  intro h
  have hnothing : Space [] := nofun
  have hvalue : Grammar .value ['\x7b', '\x7d'] := .emptyObject hnothing
  have hfirst : ofText "\x7b\x7d" = .ok .empty := by decide
  have hread : ofText "\x7b\x7d\x7b\x7d" = .ok .empty := (ofText_append hnothing hvalue ['\x7b', '\x7d']).trans hfirst
  have hrest : Space ['\x7b', '\x7d'] := (element_iff hnothing hvalue hfirst).1 (h _ _ hread)
  exact absurd (hrest '\x7b' List.mem_cons_self) (by decide)

/-! ## What is written -/

/-- The text of a snapshot is read as the snapshot, whatever is written behind it. -/
theorem ofText_text_append (s : Snapshot) (h : ∀ t ∈ s.instants, t.InFourDigits) (more : String) :
    ofText (s.text ++ more) = .ok s := by
  have hread := (s.encodes_toJson h).sound.reads 0 _ [] nofun (Nat.le_refl _)
  obtain ⟨front, value, hfront, hvalue, htext⟩ := Json.readValue_sound hread
  rw [List.append_nil, List.append_nil] at htext
  have hmore : s.text ++ more = String.ofList (front ++ (value ++ more.toList)) := by
    rw [text, Json.text, htext, ← String.toList_inj]
    simp
  have hwhole : s.text = String.ofList (front ++ (value ++ [])) := by rw [text, Json.text, htext, List.append_nil]
  rw [hmore, ofText_append hfront hvalue, ← ofText_append hfront hvalue [], ← hwhole, ofText_text s h]

end AddressSpace.Snapshot
