import Mathlib.Data.List.Forall2
import AddressSpace.Proofs.Pool.Effect
/-!
# Effects are local

The effect of an operation depends on the rows that it names, and on no other (`RowOperation.effect_congr`). It takes out rows that
are named, and puts in rows with identifiers that are named or new (`RowOperation.effect_local`). With another stamp it is the same
but for new identifiers and times: `Range.Like` says of two rows that they differ in nothing else.
-/

namespace AddressSpace

variable {F : Family}

/-! ## Rows that are alike -/

/-- The identifiers are the same, or have been given out at the same place by two stamps that stand for each other. -/
def Identifier.Like (stamps : List (Stamp × Stamp)) (i j : Identifier) : Prop :=
  i = j ∨ ∃ σ ∈ stamps, ∃ k, i = σ.1.rowId k ∧ j = σ.2.rowId k

/-- The times are the same, or those of two stamps that stand for each other. -/
def Instant.Like (stamps : List (Stamp × Stamp)) (t u : Instant) : Prop := t = u ∨ ∃ σ ∈ stamps, t = σ.1.now ∧ u = σ.2.now

/-- The rows are the same up to identifiers and times that stamps have given to them. -/
structure Range.Like (stamps : List (Stamp × Stamp)) (r s : Range F) : Prop where
  id : r.id.Like stamps s.id
  assignedAt : Option.Rel (Instant.Like stamps) r.assignedAt s.assignedAt
  createdAt : r.createdAt.Like stamps s.createdAt
  updatedAt : r.updatedAt.Like stamps s.updatedAt
  rest : s = { r with id := s.id, assignedAt := s.assignedAt, createdAt := s.createdAt, updatedAt := s.updatedAt }

variable {stamps stamps' : List (Stamp × Stamp)} {stamp stamp' : Stamp}

theorem Instant.like_now : stamp.now.Like [(stamp, stamp')] stamp'.now := .inr ⟨_, List.mem_singleton.2 rfl, rfl, rfl⟩

theorem Instant.Like.mono {t u : Instant} (h : t.Like stamps u) (hsub : ∀ σ ∈ stamps, σ ∈ stamps') : t.Like stamps' u :=
  h.imp_right fun ⟨σ, hσ, ht⟩ => ⟨σ, hsub σ hσ, ht⟩

theorem Instant.like_option (t : Option Instant) : Option.Rel (Instant.Like stamps) t t := by
  cases t with
  | none => exact .none
  | some t => exact .some (.inl rfl)

/-- Times that may be missing and are like each other stay so with more stamps. -/
theorem Instant.like_option_mono {t u : Option Instant} (h : Option.Rel (Instant.Like stamps) t u)
    (hsub : ∀ σ ∈ stamps, σ ∈ stamps') : Option.Rel (Instant.Like stamps') t u := by
  cases h with
  | none => exact .none
  | some h => exact .some (h.mono hsub)

namespace Range

@[refl] theorem Like.refl (r : Range F) : r.Like stamps r :=
  ⟨.inl rfl, Instant.like_option _, .inl rfl, .inl rfl, rfl⟩

/-- More stamps that stand for each other make no rows less alike. -/
theorem Like.mono {r s : Range F} (h : r.Like stamps s) (hsub : ∀ σ ∈ stamps, σ ∈ stamps') : r.Like stamps' s where
  id := h.id.imp_right fun ⟨σ, hσ, k, hk⟩ => ⟨σ, hsub σ hσ, k, hk⟩
  assignedAt := Instant.like_option_mono h.assignedAt hsub
  createdAt := h.createdAt.mono hsub
  updatedAt := h.updatedAt.mono hsub
  rest := h.rest

theorem Like.digest {r s : Range F} (h : r.Like stamps s) : r.digest = s.digest := by
  rw [h.rest]
  rfl

/-- The name that a row is stored with has nothing to do with its identifier or its times. -/
theorem Like.named {r s : Range F} (h : r.Like stamps s) : r.named.Like stamps s.named where
  id := by rw [named_id, named_id]; exact h.id
  assignedAt := by rw [named_assignedAt, named_assignedAt]; exact h.assignedAt
  createdAt := by rw [named_createdAt, named_createdAt]; exact h.createdAt
  updatedAt := by rw [named_updatedAt, named_updatedAt]; exact h.updatedAt
  rest := by
    have hrest := h.rest
    rw [named_id, named_assignedAt, named_createdAt, named_updatedAt]
    generalize s.id = id, s.assignedAt = assignedAt, s.createdAt = createdAt, s.updatedAt = updatedAt at hrest ⊢
    rw [hrest, Range.named, Range.named]

/-- A range that is held at the time of either stamp. -/
theorem like_heldBy (r : Range F) (status : Status) (org : Option Consumer) {t u : Option Instant}
    (h : Option.Rel (Instant.Like [(stamp, stamp')]) t u) :
    (r.heldBy status org t stamp.now).Like [(stamp, stamp')] (r.heldBy status org u stamp'.now) :=
  Like.named ⟨.inl rfl, h, .inl rfl, Instant.like_now, rfl⟩

theorem like_remarked (r : Range F) (userRemark adminRemark : Option String) :
    (r.remarked userRemark adminRemark stamp.now).Like [(stamp, stamp')] (r.remarked userRemark adminRemark stamp'.now) :=
  Like.named ⟨.inl rfl, Instant.like_option _, .inl rfl, Instant.like_now, rfl⟩

end Range

namespace Pool

/-- The parts of a range are alike one by one. -/
theorem like_parts (source : Range F) (spans : List (Span F)) :
    List.Forall₂ (Range.Like [(stamp, stamp')]) (parts source stamp.now stamp.rowId spans)
      (parts source stamp'.now stamp'.rowId spans) := by
  unfold parts
  rw [List.forall₂_map_left_iff, List.forall₂_map_right_iff, List.forall₂_same]
  intro s _
  exact ⟨.inr ⟨_, List.mem_singleton.2 rfl, s.2, rfl, rfl⟩, Instant.like_option _, Instant.like_now, Instant.like_now, rfl⟩

/-- A merged row is alike for both stamps. -/
theorem like_mergedRange (target : UInt8) (first last : Range F) :
    (mergedRange stamp.now (stamp.rowId 0) target first last).Like [(stamp, stamp')]
      (mergedRange stamp'.now (stamp'.rowId 0) target first last) :=
  ⟨.inr ⟨_, List.mem_singleton.2 rfl, 0, rfl, rfl⟩, .none, Instant.like_now, Instant.like_now, rfl⟩

end Pool

/-! ## Effects -/

namespace Effect

/-- The effect takes out rows with the names given and puts in rows with these names or with one of the first `n` new identifiers,
and with another stamp it puts in and answers with rows that are alike. -/
structure Local (d : Effect F) (names : List Identifier) (n : Nat) : Prop where
  old : ∀ r ∈ d.old, r.id ∈ names
  new : ∀ σ, ∀ r ∈ d.new σ, r.id ∈ names ∨ ∃ k < n, r.id = σ.rowId k
  alike : ∀ σ τ, List.Forall₂ (Range.Like [(σ, τ)]) (d.new σ) (d.new τ)
  answer : ∀ σ τ, List.Forall₂ (Range.Like [(σ, τ)]) (d.answer σ) (d.answer τ)

variable {names : List Identifier} {n : Nat} {d : Effect F}

/-- Rows that stay are within any bounds. -/
theorem local_stay (rows : List (Range F)) : (stay rows).Local names n where
  old := List.forall_mem_nil _
  new := fun _ => List.forall_mem_nil _
  alike := fun _ _ => .nil
  answer := fun _ _ => List.forall₂_same.2 fun r _ => .refl r

/-- A row gives way to one with its identifier. -/
theorem local_renewed {event : Option (Event F)} {spans : List (Span F)} {r : Range F} {new : Stamp → Range F}
    (hid : ∀ σ, (new σ).id = r.id) (halike : ∀ σ τ, (new σ).Like [(σ, τ)] (new τ)) :
    (replace event spans [r] fun σ => [new σ]).Local [r.id] n := by
  have hone : ∀ σ τ, List.Forall₂ (Range.Like [(σ, τ)]) [new σ] [new τ] := fun σ τ => .cons (halike σ τ) .nil
  refine ⟨fun s hs => ?_, fun σ s hs => .inl ?_, hone, hone⟩
  · rw [List.mem_singleton.1 hs]
    exact List.mem_singleton.2 rfl
  · rw [List.mem_singleton.1 hs, hid]
    exact List.mem_singleton.2 rfl

/-- A row gives way to its parts. -/
theorem local_parts (source : Range F) (spans : List (Span F)) : (parts source spans).Local [source.id] spans.length := by
  refine ⟨fun s hs => ?_, fun σ s hs => .inr ?_, fun σ τ => Pool.like_parts source spans, fun σ τ => Pool.like_parts source spans⟩
  · rw [List.mem_singleton.1 hs]
    exact List.mem_singleton.2 rfl
  · have hmem : s.id ∈ (List.range spans.length).map σ.rowId :=
      Pool.map_id_parts source σ.now σ.rowId spans ▸ List.mem_map_of_mem hs
    obtain ⟨k, hk, hid⟩ := List.mem_map.1 hmem
    exact ⟨k, List.mem_range.1 hk, hid.symm⟩

/-- Rows that are named give way to one range. -/
theorem local_combine (target : UInt8) {members : List (Range F)} (first last : Range F) (h : ∀ r ∈ members, r.id ∈ names) :
    (combine target members first last).Local names 1 := by
  have hone : ∀ σ τ : Stamp, List.Forall₂ (Range.Like [(σ, τ)]) [Pool.mergedRange σ.now (σ.rowId 0) target first last]
      [Pool.mergedRange τ.now (τ.rowId 0) target first last] := fun _ _ => .cons (Pool.like_mergedRange target first last) .nil
  refine ⟨h, fun σ s hs => .inr ⟨0, Nat.one_pos, ?_⟩, hone, hone⟩
  rw [List.mem_singleton.1 hs]
  simp [Pool.mergedRange, Range.build]

end Effect

namespace RowOperation

variable {p p' : Pool F}

/-- The effect depends on the limits and on the rows named. -/
theorem effect_congr (op : RowOperation F) (hlimits : p'.limits = p.limits)
    (hrows : ∀ id ∈ op.names, p'.store.row id = p.store.row id) : op.effect p' = op.effect p := by
  cases op with
  | merge ids target =>
    have hread : (Locks.distinct ids).mapM p'.store.row = (Locks.distinct ids).mapM p.store.row :=
      mapM_congr fun id hid => hrows id (Locks.mem_distinct.1 hid)
    rw [effect, effect, hlimits, hread]
  | _ => simp only [effect, hlimits, hrows _ (List.mem_singleton.2 rfl)]

/-- What is decided by one row is local to it. -/
theorem local_of_row {id : Identifier} {x : Range F → Except Failure (Effect F)} {d : Effect F} {n : Nat}
    (h : p.store.table.Valid) (hd : p.store.row id >>= x = .ok d)
    (hx : ∀ r, p.store.row id = .ok r → x r = .ok d → d.Local [r.id] n) : d.Local [id] n := by
  obtain ⟨r, hr, hrd⟩ := bind_eq_ok_iff.1 hd
  obtain ⟨-, rfl⟩ := h.get?_eq_some_iff.1 (Store.row_eq_ok_iff.1 hr)
  exact hx r hr hrd

/-- Whatever an operation does is local to the rows that it names. -/
theorem effect_local (h : p.store.table.Valid) (op : RowOperation F) {d : Effect F} (hd : op.effect p = .ok d) :
    d.Local op.names (op.adds p) := by
  cases op with
  | delete id =>
    refine local_of_row h hd fun r _ hr => ?_
    simp only [Effect.delete, check_bind_eq_ok_iff, pure_eq_ok_iff] at hr
    obtain ⟨-, rfl⟩ := hr
    exact ⟨by simp, by simp, fun _ _ => .nil, fun _ _ => .cons (.refl r) .nil⟩
  | reserve id org =>
    refine local_of_row h hd fun r _ hr => ?_
    simp only [Effect.reserve, refuse_bind_eq_ok_iff, pure_eq_ok_iff] at hr
    obtain ⟨-, rfl⟩ := hr
    exact Effect.local_renewed (fun _ => r.heldBy_id ..) fun _ _ => r.like_heldBy .reserved (some org) .none
  | assign id org =>
    refine local_of_row h hd fun r _ hr => ?_
    simp only [Effect.assign, check_bind_eq_ok_iff, pure_eq_ok_iff] at hr
    obtain ⟨-, rfl⟩ := hr
    exact Effect.local_renewed (fun _ => r.heldBy_id ..) fun _ _ => r.like_heldBy .assigned (some org) (.some Instant.like_now)
  | recover id =>
    refine local_of_row h hd fun r _ hr => ?_
    unfold Effect.recover at hr
    split at hr
    · cases hr
      exact Effect.local_stay [r]
    · cases hr
      exact Effect.local_renewed (fun _ => r.heldBy_id ..) fun _ _ => r.like_heldBy .wait none .none
  | remark id userRemark adminRemark privileged =>
    simp only [effect, refuse_bind_eq_ok_iff] at hd
    refine local_of_row h hd.2.2 fun r _ hr => ?_
    simp only [Effect.remark, refuse_bind_eq_ok_iff, pure_eq_ok_iff] at hr
    obtain ⟨-, rfl⟩ := hr
    exact Effect.local_renewed (fun _ => r.remarked_id ..) fun _ _ => r.like_remarked userRemark adminRemark
  | split id target =>
    refine local_of_row h hd fun r hrow hr => ?_
    obtain ⟨spans, hplan, hr⟩ := bind_eq_ok_iff.1 hr
    cases hr
    have hadds : (RowOperation.split id target).adds p = spans.length := by
      simp only [adds, Store.bind_of_row hrow, hplan]
    rw [hadds]
    exact Effect.local_parts r spans
  | splitAlong id plan =>
    refine local_of_row h hd fun r _ hr => ?_
    simp only [Effect.splitAlong, check_bind_eq_ok_iff] at hr
    obtain ⟨-, -, hr⟩ := hr
    split at hr
    · cases hr
      exact Effect.local_stay [r]
    · obtain ⟨-, hr⟩ := check_bind_eq_ok_iff.1 hr
      cases hr
      exact Effect.local_parts r plan
  | merge ids target =>
    simp only [effect, bind_eq_ok_iff, mapError_eq_ok_iff] at hd
    obtain ⟨_, -, read, hread, hd⟩ := hd
    obtain ⟨hids, -⟩ := Store.rows_of_mapM h hread
    unfold Effect.merge at hd
    obtain ⟨-, hd⟩ := check_bind_eq_ok_iff.1 hd
    split at hd
    · rename_i first last hf hl
      cases hd
      split
      · exact Effect.local_stay [first]
      · refine Effect.local_combine target first last fun r hr => ?_
        have hread : r ∈ read := List.mem_mergeSort.1 hr
        exact Locks.mem_distinct.1 (hids ▸ List.mem_map_of_mem hread)
    · cases hd

end RowOperation

end AddressSpace
