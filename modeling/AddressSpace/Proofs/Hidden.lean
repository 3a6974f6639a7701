import AddressSpace.Proofs.Engine.Indistinct
import AddressSpace.Proofs.Engine.Sound
/-!
# Admin remarks stay hidden

What somebody without privilege can observe does not depend on admin remarks. Two runs that differ in the texts of admin remarks only
lead to engines that look the same once these are left out (`Engine.indistinct_afterAll`), and so to the same outcomes, supernets
and journals, and to listings for unprivileged readers that select the same rows (`Engine.admin_remarks_hidden`).
-/

namespace AddressSpace

open AddressSpace.Action

/-! ## Operations that differ in admin remarks -/

/-- Two operations on ranges are the same but for the text of an admin remark. Remarking with one is another thing than remarking
without, while a range that is created or edited has one in any case. -/
inductive RangeOperation.Indistinct {F : Family} : RangeOperation F → RangeOperation F → Prop where
  | refl (op : RangeOperation F) : Indistinct op op
  | create (new : NewRange F) (adminRemark : String) : Indistinct (.create new) (.create { new with adminRemark })
  | update (id : Identifier) (edit : RangeEdit F) (adminRemark : Option String) :
      Indistinct (.update id edit) (.update id { edit with adminRemark })
  | remark (id : Identifier) (userRemark : Option String) {adminRemark adminRemark' : Option String}
      (h : adminRemark.isSome = adminRemark'.isSome) (privileged : Bool) :
      Indistinct (.remark id userRemark adminRemark privileged) (.remark id userRemark adminRemark' privileged)

/-- Two operations are the same, with the same stamp, but for the text of an admin remark on a range or an address. -/
inductive Operation.Indistinct : Operation → Operation → Prop where
  | refl (op : Operation) : Indistinct op op
  | onRanges {F : Family} (stamp : Stamp) (user : Option String) {op op' : RangeOperation F} (h : op.Indistinct op') :
      Indistinct (.onRanges F stamp user op) (.onRanges F stamp user op')
  | annotate {F : Family} (stamp : Stamp) (address : Address F) (userRemark : Option String)
      {adminRemark adminRemark' : Option String} (h : adminRemark.isSome = adminRemark'.isSome) :
      Indistinct (.annotate F stamp address userRemark adminRemark) (.annotate F stamp address userRemark adminRemark')

/-- How the operations of a sequence end, one after the other. -/
def Operation.outcomes : List Operation → Engine → List (Except Failure Unit)
  | [], _ => []
  | op :: ops, e => (op.perform.run e).1 :: outcomes ops (op.after e)

namespace Engine

variable {e e' : Engine} {F : Family}

/-! ## One operation -/

/-- Creating a range is the same operation with any admin remark. -/
theorem create_paired (h : e.Indistinct e') (stamp : Stamp) (user : Option String) (new : NewRange F) (adminRemark : String) :
    (RangeOperation.perform stamp user (.create new)).Paired (RangeOperation.perform stamp user (.create { new with adminRemark }))
      e e' Indistinct Eq :=
  (manage_paired h (Pool.create_paired (h.pool F) new adminRemark)).discard

/-- Changing a range is the same operation with any admin remark. -/
theorem update_paired (hs : e.Sound) (hs' : e'.Sound) (h : e.Indistinct e') (stamp : Stamp) (user : Option String)
    (id : Identifier) (edit : RangeEdit F) (adminRemark : Option String) :
    (RangeOperation.perform stamp user (.update id edit)).Paired
      (RangeOperation.perform stamp user (.update id { edit with adminRemark })) e e' Indistinct Eq :=
  (manage_paired h (Pool.update_paired (hs.pool F) (hs'.pool F) (h.pool F) edit adminRemark)).discard

/-- Remarking on a range is the same operation with any text of the admin remark. -/
theorem remark_paired (h : e.Indistinct e') (stamp : Stamp) (user : Option String) (id : Identifier) (userRemark : Option String)
    {adminRemark adminRemark' : Option String} (hsome : adminRemark.isSome = adminRemark'.isSome) (privileged : Bool) :
    (RangeOperation.perform (F := F) stamp user (.remark id userRemark adminRemark privileged)).Paired
      (RangeOperation.perform (F := F) stamp user (.remark id userRemark adminRemark' privileged)) e e' Indistinct Eq :=
  (onPool_paired h (Pool.remark_paired (h.pool F) userRemark hsome privileged)).discard

/-- An operation on ranges ends alike on engines that look the same, whatever admin remark it sets. -/
theorem perform_paired (hs : e.Sound) (hs' : e'.Sound) (h : e.Indistinct e') (stamp : Stamp) (user : Option String)
    {op op' : RangeOperation F} (ho : op.Indistinct op') :
    (op.perform stamp user).Paired (op'.perform stamp user) e e' Indistinct Eq := by
  cases ho with
  | create new adminRemark => exact create_paired h stamp user new adminRemark
  | update id edit adminRemark => exact update_paired hs hs' h stamp user id edit adminRemark
  | remark id userRemark hsome privileged => exact remark_paired h stamp user id userRemark hsome privileged
  | refl op =>
    cases op with
    | create new => exact create_paired h stamp user new new.adminRemark
    | update id edit => exact update_paired hs hs' h stamp user id edit edit.adminRemark
    | remark id userRemark adminRemark privileged => exact remark_paired h stamp user id userRemark rfl privileged
    | delete id => exact (manage_paired h (Pool.delete_paired (h.pool F))).discard
    | reserve id org => exact (manage_paired h (Pool.reserve_paired (h.pool F) org)).discard
    | assign id org => exact (manage_paired h (Pool.assign_paired (h.pool F) org)).discard
    | recover id => exact (manage_paired h (Pool.recover_paired (h.pool F))).discard
    | split id target => exact (manage_paired h (Pool.split_paired (h.pool F))).discard
    | splitAlong id plan => exact (manage_paired h (Pool.splitAlong_paired (h.pool F) plan)).discard
    | merge ids target => exact (manage_paired h (Pool.merge_paired (h.pool F) ids)).discard
    | splitPreview id target =>
      have hpreview := Pool.agree_splitPreview (h.pool F) stamp id target
      exact Paired.discard (paired_get_bind (paired_ofExcept h hpreview))
    | mergePreview ids target =>
      have hpreview := Pool.agree_mergePreview (h.pool F) stamp ids target
      exact Paired.discard (paired_get_bind (paired_ofExcept h hpreview))

/-- An operation ends alike on engines that look the same, whatever admin remark it sets. -/
theorem operation_paired (hs : e.Sound) (hs' : e'.Sound) (h : e.Indistinct e') {op op' : Operation} (ho : op.Indistinct op') :
    op.perform.Paired op'.perform e e' Indistinct Eq := by
  cases ho with
  | onRanges stamp user ho => exact perform_paired hs hs' h stamp user ho
  | annotate stamp address userRemark hsome => exact (annotate_paired h address userRemark hsome).discard
  | refl op =>
    cases op with
    | onRanges F stamp user op => exact perform_paired hs hs' h stamp user (.refl op)
    | annotate F stamp address userRemark adminRemark => exact (annotate_paired h address userRemark rfl).discard
    | stock stamp id user => exact (stock_paired h id).discard
    | stockUnder stamp id asn user => exact (stockUnder_paired h id asn).discard
    | createSupernet stamp input operator =>
      exact (paired_get_bind (onSupernets_paired h (by rw [Warehouse.create_eq h.v4.store]))).discard
    | updateSupernet stamp id input operator =>
      exact (paired_get_bind (onSupernets_paired h (by rw [Warehouse.update_eq h.v4.store]))).discard
    | deleteSupernet id => exact (onSupernets_paired h rfl).discard
    | refreshSupernets spans => exact (refreshSupernets_paired h spans).discard
    | createExternal stamp input operator => exact (onExternals_paired _ h).discard
    | updateExternal stamp id input operator => exact (onExternals_paired _ h).discard
    | deleteExternal id => exact (onExternals_paired _ h).discard
    | register number => exact (register_paired h number).discard
    | insertRow F r => exact onPool_paired h (Pool.onStore_paired _ (h.pool F) (Store.insert_paired (h.pool F).store rfl).discard)
    | transact F lock remove add =>
      refine onPool_paired h (Pool.onStore_paired _ (h.pool F) ?_)
      refine (Store.lock_paired (h.pool F).store lock).bind fun tx ty s t hx h => ?_
      exact (Store.finishing_paired hx.guard (Store.write_paired h hx.guard remove rfl)).discard
    | closeJournal F => exact closeJournal_paired h F
    | forget user => exact (forget_paired h user).discard

/-! ## Runs -/

/-- Two runs that differ in admin remarks have the same outcomes, and lead to engines that look the same. -/
theorem indistinct_afterAll (hs : e.Sound) (hs' : e'.Sound) (h : e.Indistinct e') {ops ops' : List Operation}
    (ho : List.Forall₂ Operation.Indistinct ops ops') :
    Operation.outcomes ops e = Operation.outcomes ops' e' ∧
      (Operation.afterAll ops e).Indistinct (Operation.afterAll ops' e') := by
  induction ho generalizing e e' with
  | nil => exact ⟨rfl, h⟩
  | @cons op op' ops ops' ho _ ih =>
    obtain ⟨hout, hafter⟩ := (operation_paired hs hs' h ho).run
    obtain ⟨houts, hafters⟩ := ih (after_sound hs op) (after_sound hs' op') hafter
    refine ⟨?_, hafters⟩
    rw [Operation.outcomes, Operation.outcomes, hout.eq, houts]

/-- Two runs from an empty engine are the same but for the texts of the admin remarks that they set. Then each operation has the same
outcome in both, and both lead to the same supernets. In each family they lead to the same journal and to ranges that are the same
but for admin remarks and times of the last change, and every unprivileged reader is shown the same rows in the same order. -/
theorem admin_remarks_hidden (limits : Limits) {ops ops' : List Operation} (ho : List.Forall₂ Operation.Indistinct ops ops') :
    Operation.outcomes ops (empty limits) = Operation.outcomes ops' (empty limits) ∧
      (Operation.afterAll ops (empty limits)).supernets = (Operation.afterAll ops' (empty limits)).supernets ∧
      ∀ F : Family,
        let p := (Operation.afterAll ops (empty limits)).pool F
        let q := (Operation.afterAll ops' (empty limits)).pool F
        let m := (Operation.afterAll ops (empty limits)).notes F
        let n := (Operation.afterAll ops' (empty limits)).notes F
        p.journal = q.journal ∧ p.store.toList.map Range.redacted = q.store.toList.map Range.redacted ∧
          (∀ f : RangeFilter F, f.privileged = false →
            (p.store.filter f).map Range.redacted = (q.store.filter f).map Range.redacted) ∧
          ∀ start stop term, (Notes.filter m start stop term false).map Note.redacted =
            (Notes.filter n start stop term false).map Note.redacted := by
  obtain ⟨hout, h⟩ := indistinct_afterAll (sound_empty limits) (sound_empty limits) (.refl _) ho
  refine ⟨hout, h.supernets, fun F => ⟨(h.pool F).journal, (h.pool F).store.table.map_toList, fun f hf => ?_, fun start stop term => ?_⟩⟩
  · exact (h.pool F).store.map_filter hf
  · exact Notes.map_filter (h.notes F) start stop term

/-- A range, another one and an address are given an admin remark, after a time. -/
def remarked (adminRemark : String) : List Operation :=
  let stamp (n : Nat) : Stamp := { Stamp.counting n with now := ⟨(default : Instant).date, 1, 0, by decide, by decide⟩ }
  Operation.sample ++
    [.onRanges .v4 (stamp 20) none (.update (.ofBits 17) ⟨none, none, none, some adminRemark⟩),
      .onRanges .v4 (stamp 21) none (.remark (.ofBits 16) (some "web") (some adminRemark) true),
      .annotate .v4 (stamp 22) (.ofBits .v4 256) (some "gateway") (some adminRemark)]

/-- Where the admin remark is empty, the edit changes nothing. Nobody without privilege can tell, while somebody with privilege finds
two ranges by the remark of the other run. -/
theorem admin_remarks_hidden_sample :
    let p := (Operation.afterAll (remarked "") (empty .standard)).pool .v4
    let q := (Operation.afterAll (remarked "secret") (empty .standard)).pool .v4
    let f : RangeFilter .v4 := { RangeFilter.all with search := some "secret" }
    Operation.outcomes (remarked "") (empty .standard) = Operation.outcomes (remarked "secret") (empty .standard) ∧
      (p.store.filter f).map Range.redacted = (q.store.filter f).map Range.redacted ∧
        (p.store.filter { f with privileged := true }).length = 0 ∧ (q.store.filter { f with privileged := true }).length = 2 ∧
          p.store.toList.map (·.updatedAt) ≠ q.store.toList.map (·.updatedAt) := by
  intro p q f
  have hops : List.Forall₂ Operation.Indistinct (remarked "") (remarked "secret") :=
    List.rel_append (List.forall₂_same.2 fun op _ => .refl op)
      (.cons (.onRanges _ _ (.update _ _ _)) (.cons (.onRanges _ _ (.remark _ _ (by rfl) true)) (.cons (.annotate _ _ _ (by rfl)) .nil)))
  obtain ⟨hout, -, hpool⟩ := admin_remarks_hidden .standard hops
  obtain ⟨-, -, hfilter, -⟩ := hpool .v4
  exact ⟨hout, hfilter f rfl, by decide +kernel, by decide +kernel, by decide +kernel⟩

end Engine

end AddressSpace
