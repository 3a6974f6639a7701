import AddressSpace.Json.Decoder
import AddressSpace.Proofs.Json.Extent
import AddressSpace.Proofs.Outcome
/-!
# Arrays and objects that are closed

The first character of a text tells whether it starts with an array or an object (`isContainer_readValue`). One that is closed has
been read up to its end (`exists_behind`), and no other is decoded as an object (`Fields.closed_of_objectOrArray`).
-/

namespace AddressSpace.Json

variable {c : Char} {cs rest : List Char} {fuel : Nat}

/-! ## What is read -/

/-- An array or an object. -/
def IsContainer : Json → Prop
  | .array _ _ => True
  | .object _ _ => True
  | _ => False

/-- An array or an object with its closing bracket or brace. -/
def IsClosed : Json → Prop
  | .array _ closed => closed = true
  | .object _ ending => ending = .closed
  | _ => False

/-- A closed value is an array or an object. -/
theorem IsClosed.isContainer {j : Json} (h : j.IsClosed) : j.IsContainer := by
  cases j with
  | array => trivial
  | object => trivial
  | _ => exact h

/-- A word is not read as an array or an object. -/
theorem readWord_not_container {w : String} {value j : Json} {behind : Option (List Char)} (hvalue : ¬value.IsContainer)
    (h : readWord w value cs = (j, behind)) : ¬j.IsContainer := by
  unfold readWord at h
  split at h
  · cases h
    exact hvalue
  · cases h
    exact id

/-- The first character tells whether a text starts with an array or an object. -/
theorem isContainer_readValue (hspace : isSpace c = false) :
    (readValue (fuel + 1) (c :: cs)).1.IsContainer ↔ c = '[' ∨ c = '\x7b' := by
  rw [readValue.eq_def]
  simp only [skipSpace_cons hspace]
  split_ifs with hquote hbracket hbrace hn ht hf hminus
  · refine iff_of_false ?_ (by rintro (rfl | rfl) <;> cases hquote)
    split <;> exact id
  · refine iff_of_true ?_ (.inl hbracket)
    split <;> trivial
  · refine iff_of_true ?_ (.inr hbrace)
    split <;> trivial
  all_goals refine iff_of_false ?_ (not_or.2 ⟨hbracket, hbrace⟩)
  · exact readWord_not_container id rfl
  · exact readWord_not_container id rfl
  · exact readWord_not_container id rfl
  · split <;> exact id
  · split <;> exact id

/-- Members that are read to their closing brace leave a rest behind it. -/
theorem readMembers_closed (fuel : Nat) : ∀ {cs : List Char} {ms : List (Option String × Json)} {behind : Option (List Char)},
    readMembers fuel cs = (ms, .closed, behind) → ∃ rest, behind = some rest := by
  induction fuel with
  | zero => exact fun h => nomatch h
  | succ fuel ih =>
    intro cs ms behind h
    rw [readMembers.eq_def] at h
    simp only at h
    split at h
    · split at h
      · cases h
      · split at h
        · split at h
          · cases h
          · split at h
            · obtain ⟨-, hmore⟩ := Prod.mk.inj h
              obtain ⟨hending, hbehind⟩ := Prod.mk.inj hmore
              exact ih (Prod.ext rfl (Prod.ext hending hbehind))
            · cases h
              exact ⟨_, rfl⟩
            · cases h
        · split at h
          · cases h
          · cases h
    · cases h

/-- An array or an object that is closed has an end. -/
theorem exists_behind {j : Json} {behind : Option (List Char)} (h : readValue fuel cs = (j, behind)) (hj : j.IsClosed) :
    ∃ rest, behind = some rest := by
  obtain _ | fuel := fuel
  · cases h
    exact hj.elim
  rw [readValue.eq_def] at h
  simp only at h
  split at h
  · cases h
    exact hj.elim
  · split_ifs at h with hquote hbracket hbrace hn ht hf hminus
    · split at h <;> cases h <;> exact hj.elim
    · split at h
      · cases h
        cases hj
      · cases h
        exact ⟨_, rfl⟩
      · cases h
        exact Option.isSome_iff_exists.1 hj
    · split at h
      · cases h
        exact ⟨_, rfl⟩
      · cases h
        exact readMembers_closed fuel (Prod.ext rfl (Prod.ext hj rfl))
    · exact absurd hj.isContainer (readWord_not_container id h)
    · exact absurd hj.isContainer (readWord_not_container id h)
    · exact absurd hj.isContainer (readWord_not_container id h)
    · split at h <;> cases h <;> exact hj.elim
    · split at h <;> cases h <;> exact hj.elim

/-- An array or an object is read up to its end, whatever stands behind it. -/
theorem Grammar.exists_readValue (h : Grammar .value (c :: cs)) (hopen : c = '[' ∨ c = '\x7b') :
    ∃ j, ∀ fuel rest, 2 * (c :: cs).length ≤ fuel → readValue fuel (c :: cs ++ rest) = (j, some rest) := by
  obtain ⟨⟨_, _, ⟨⟩, hspace, -⟩, j, hread⟩ := h.accepted
  have hj : (readValue (2 * cs.length + 1 + 1) (c :: (cs ++ []))).1 = j :=
    congrArg Prod.fst (hread _ [] (by simp [Nat.mul_succ]) fun _ _ => ends_nil)
  have hcontainer : j.IsContainer := hj ▸ (isContainer_readValue hspace).2 hopen
  refine ⟨j, fun fuel rest hfuel => hread fuel rest hfuel ?_⟩
  rintro literal rfl
  exact hcontainer.elim

/-! ## What is decoded -/

namespace Fields

variable {α : Type} {f : Fields α} {a : α} {path : Path}

/-- Where the check of members accepts, the object was closed. -/
theorem closed_of_check {members : List Member} {other : Decoder Unit} {ms : List (Option String × Json)} {ending : Ending}
    {seen : List String} (h : check members other path seen ms ending = .ok ()) : ending = .closed := by
  induction ms generalizing seen with
  | nil =>
    cases ending with
    | closed => rfl
    | nameless => cases h
    | colonless => cases h
  | cons m ms ih =>
    obtain ⟨_ | name, value⟩ := m
    · cases h
    · rw [check] at h
      split at h
      · simp only at h
        split at h
        · cases h
        · obtain ⟨⟨⟩, -, hmore⟩ := bind_eq_ok_iff.1 h
          exact ih hmore
      · obtain ⟨⟨⟩, -, hmore⟩ := bind_eq_ok_iff.1 h
        exact ih hmore

/-- Where the check of items in order accepts, the array was closed. -/
theorem closed_of_checkInOrder {members : List Member} {items : List Json} {closed : Bool} {n : Nat}
    (h : checkInOrder path n members items closed = .ok ()) : closed = true := by
  induction members generalizing n items with
  | nil =>
    rw [checkInOrder] at h
    split at h
    · rename_i hclosed
      exact (Bool.and_eq_true_iff.1 hclosed).2
    · cases h
  | cons f members ih =>
    cases items with
    | nil =>
      rw [checkInOrder] at h
      split at h
      · rename_i hclosed
        exact (Bool.and_eq_true_iff.1 hclosed).1
      · cases h
    | cons item items =>
      obtain ⟨⟨⟩, -, hmore⟩ := bind_eq_ok_iff.1 h
      exact ih hmore

/-- Nothing but an array or an object that is closed is taken for an object. -/
theorem closed_of_objectOrArray {j : Json} (h : f.objectOrArray path j = .ok a) : j.IsClosed := by
  cases j with
  | array =>
    obtain ⟨⟨⟩, hcheck, -⟩ := bind_eq_ok_iff.1 h
    exact closed_of_checkInOrder hcheck
  | object =>
    obtain ⟨⟨⟩, hcheck, -⟩ := bind_eq_ok_iff.1 h
    exact closed_of_check hcheck
  | _ => cases h

/-- A record is made of arrays and objects only. -/
theorem objectOrArray_of_not_container {j : Json} (h : ¬j.IsContainer) (path : Path) : f.objectOrArray path j = .error path := by
  cases j with
  | array => exact absurd trivial h
  | object => exact absurd trivial h
  | _ => rfl

end Fields

end AddressSpace.Json
