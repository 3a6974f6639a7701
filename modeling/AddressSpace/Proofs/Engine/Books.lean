import AddressSpace.Proofs.Engine.Pools
/-!
# The registry and the notes

The AS registry and the notes are maps whose keys are parts of their values, the AS number and the address. Such a map is known
by its values (`KeyMap.ofList_values`). Every ordinary operation keeps the maps so (`Engine.reached_keyed`).
-/

namespace AddressSpace

open AddressSpace.Action

/-! ## Maps under keys of their own -/

namespace KeyMap

variable {α : Type} {m : KeyMap α} {key : α → Nat}

/-- Every value is kept under its own key. -/
def Keyed (key : α → Nat) (m : KeyMap α) : Prop := ∀ k v, m.get? k = some v → k = key v

theorem Keyed.empty : (KeyMap.empty : KeyMap α).Keyed key := fun _ _ h => nomatch h

/-- A value that is inserted under its key leaves a keyed map keyed. -/
theorem Keyed.insert (h : m.Keyed key) {k : Nat} {v : α} (hk : k = key v) : (m.insert k v).Keyed key := by
  intro j w hw
  rw [get?_insert] at hw
  split at hw
  · rename_i hj
    rw [hj, hk, Option.some.inj hw]
  · exact h j w hw

/-- Entries under different keys are all found, in front of what was there before. -/
theorem get?_foldl_insert (k : Nat) {es : List (Nat × α)} (h : es.Pairwise fun a b => a.1 < b.1) (m : KeyMap α) :
    (es.foldl (fun m e => m.insert e.1 e.2) m).get? k = (lookup k es).or (m.get? k) := by
  induction es generalizing m with
  | nil => rfl
  | cons e es ih =>
    obtain ⟨hfirst, hrest⟩ := List.pairwise_cons.1 h
    rw [List.foldl_cons, ih hrest, get?_insert, lookup]
    by_cases hk : e.1 = k
    · have hnone : lookup k es = none := by
        cases hl : lookup k es with
        | none => rfl
        | some v => exact absurd (hfirst _ ((lookup_eq_some_iff hrest).1 hl)) (by simp [hk])
      rw [hnone, if_pos hk.symm, if_pos hk]
      rfl
    · rw [if_neg (Ne.symm hk), if_neg hk]

/-- The map of a map's entries is that map. -/
theorem ofList_entries (m : KeyMap α) : ofList m.entries = m := by
  refine ext_get? fun k => ?_
  rw [ofList, get?_foldl_insert k m.sorted, get?_empty, Option.or_none]
  rfl

/-- Where every value is under its own key, the values are enough to know the map. -/
theorem ofList_values (h : m.Keyed key) : ofList (m.values.map fun v => (key v, v)) = m := by
  have hentries : m.values.map (fun v => (key v, v)) = m.entries := by
    rw [values, List.map_map]
    refine (List.map_congr_left fun e he => ?_).trans (List.map_id _)
    exact Prod.ext (h e.1 e.2 ((get?_eq_some_iff m e.1 e.2).2 he)).symm rfl
  rw [hentries, ofList_entries]

/-- A value under a new key is one more. -/
theorem length_values_insert {k : Nat} (h : m.get? k = none) (v : α) : (m.insert k v).values.length = m.values.length + 1 := by
  have hput : ∀ es : List (Nat × α), lookup k es = none → (put k v es).length = es.length + 1 := by
    intro es hes
    induction es with
    | nil => rfl
    | cons e es ih =>
      rw [lookup] at hes
      split at hes
      · cases hes
      · rename_i hne
        rw [put, if_neg hne]
        split
        · rfl
        · rw [List.length_cons, ih hes, List.length_cons]
  rw [values, values, List.length_map, List.length_map]
  exact hput m.entries h

end KeyMap

/-! ## The registry -/

namespace Registry

/-- Every AS is registered under its number. -/
def Keyed (r : Registry) : Prop := KeyMap.Keyed (fun a : Asn => a.number.toNat) r

/-- Registering a number leaves the registry keyed. -/
theorem Keyed.register {r : Registry} (h : r.Keyed) (number : UInt32) : (r.register number).2.Keyed := by
  unfold Registry.register
  split
  · exact h
  · exact KeyMap.Keyed.insert h rfl

/-- Registering gives the entry of the number. -/
theorem Keyed.number_eq {r : Registry} (h : r.Keyed) (number : UInt32) : (r.register number).1.number = number := by
  unfold Registry.register
  split
  · rename_i a hget
    exact UInt32.toNat_inj.1 (h _ a hget).symm
  · rfl

/-- A number that is registered is left alone. -/
theorem register_of_isSome {r : Registry} {number : UInt32} (h : (r.get? number).isSome = true) : (r.register number).2 = r := by
  obtain ⟨a, ha⟩ := Option.isSome_iff_exists.1 h
  unfold Registry.register
  rw [ha]

/-- A number that is not registered is added. -/
theorem values_register_ne {r : Registry} {number : UInt32} (h : r.get? number = none) :
    (r.register number).2.values ≠ r.values := by
  unfold Registry.register
  rw [h]
  intro he
  have hlength := congrArg List.length he
  rw [KeyMap.length_values_insert h] at hlength
  exact Nat.succ_ne_self _ hlength

end Registry

/-! ## The notes -/

namespace Notes

variable {F : Family}

/-- Every note is kept under its address. -/
def Keyed (m : Notes F) : Prop := KeyMap.Keyed (fun n : Note F => n.address.bits) m

/-- A new remark does not move the note to another address. -/
theorem remark_ends {m : Notes F} (h : m.Keyed) (now : Instant) (address : Address F) (userRemark adminRemark : Option String) :
    (remark now address userRemark adminRemark).Ends m (fun _ m' => m'.Keyed) (fun _ m' => m' = m) := by
  have hold : ((get? m address).getD ⟨address, "", "", now, now⟩).address = address := by
    cases hget : get? m address with
    | none => rfl
    | some n => exact Address.ext_bits (h _ n hget).symm
  unfold remark
  simp only [ends_bind, ends_ite, ends_throw, ends_get, ends_set, ends_pure, implies_true, true_and]
  exact fun _ => KeyMap.Keyed.insert h (congrArg Address.bits hold.symm)

end Notes

/-! ## Both in the engine -/

namespace Engine

variable {e e' : Engine} {limits : Limits}

/-- The registry and the notes are kept under their own keys. -/
structure Keyed (e : Engine) : Prop where
  registry : e.registry.Keyed
  v4Notes : e.v4Notes.Keyed
  v6Notes : e.v6Notes.Keyed

/-- The notes of a keyed engine are keyed. -/
theorem Keyed.notes (h : e.Keyed) (F : Family) : (e.notes F).Keyed :=
  match F with
  | .v4 => h.v4Notes
  | .v6 => h.v6Notes

/-- Other notes that are keyed leave an engine keyed. -/
theorem Keyed.withNotes {F : Family} (h : e.Keyed) {n : Notes F} (hn : n.Keyed) : (withNotes F e n).Keyed := by
  cases F with
  | v4 => exact { h with v4Notes := hn }
  | v6 => exact { h with v6Notes := hn }

/-- A change of a pool does not reach the registry and the notes. -/
theorem Keyed.followed {F : Family} (h : e.Keyed) (q : Pool F) (spans : List (Span F)) : (followed F e q spans).Keyed := by
  cases F <;> exact ⟨h.registry, h.v4Notes, h.v6Notes⟩

/-- An engine is keyed behind a supernet that was stocked. -/
theorem Keyed.stocked {registry : Registry} (h : e.Keyed) (hr : registry.Keyed) (hs : Stocked e registry e') : e'.Keyed := by
  obtain ⟨stamp, user, spans, q, ids, -, rfl⟩ := hs
  exact { h.followed q spans with registry := hr }

/-- An ordinary operation keeps the registry and the notes under their keys. -/
theorem Keyed.after (h : e.Keyed) (hsound : e.Sound) {op : Operation} (ho : op.ordinary = true) : (op.after e).Keyed := by
  have hregister : ∀ number, ({ e with registry := (e.registry.register number).2 } : Engine).Keyed :=
    fun number => { h with registry := h.registry.register number }
  have haside : op.aside = true → (op.after e).Keyed := by
    intro haside
    obtain ⟨supernets, externals, he⟩ := aside_after e haside
    rw [he]
    exact ⟨h.registry, h.v4Notes, h.v6Notes⟩
  cases op with
  | onRanges F stamp user op =>
    refine Ends.state (q := Keyed) ((perform_ends (hsound.pool F).toAtRest op).imp ?_ fun _ _ he => he ▸ h)
    rintro _ _ ⟨spans, q, -, rfl⟩
    exact h.followed q spans
  | stock stamp id user =>
    refine Ends.state (q := Keyed) (ends_map .. |>.2 ((stock_ends hsound id).imp ?_ ?_))
    · rintro _ _ ⟨number, hs⟩
      exact h.stocked (h.registry.register number) hs
    · rintro _ _ (rfl | ⟨number, rfl⟩)
      · exact h
      · exact hregister number
  | stockUnder stamp id asn user =>
    refine Ends.state (q := Keyed) (ends_map .. |>.2 ((stockUnder_ends hsound e.registry id asn).imp ?_ ?_))
    · exact fun _ _ hs => h.stocked h.registry hs
    · exact fun _ _ he => he ▸ h
  | annotate F stamp address userRemark adminRemark =>
    refine Ends.state (q := Keyed) (ends_map .. |>.2 (ends_on .. |>.2 ?_))
    refine (Notes.remark_ends (h.notes F) stamp.now address userRemark adminRemark).imp (fun _ _ hn => h.withNotes hn) ?_
    exact fun _ _ he => h.withNotes (he ▸ h.notes F)
  | register number => exact hregister number
  | insertRow F r => cases ho
  | transact F lock remove add => cases ho
  | closeJournal F => cases ho
  | forget user => cases ho
  | _ => exact haside rfl

/-- What ordinary operations lead to from an empty engine is keyed. -/
theorem reached_keyed (hr : Reached Operation.ordinary (empty limits) e) : e.Keyed := by
  induction hr with
  | start => exact ⟨.empty, .empty, .empty⟩
  | step op hr ho ih => exact ih.after (reached_ordinary_sound hr) ho

end Engine

end AddressSpace
