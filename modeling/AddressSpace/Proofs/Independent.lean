import AddressSpace.Proofs.Engine.RowOperation
import AddressSpace.Proofs.Supernet.Follow
/-!
# Independent operations commute

Two operations that name different rows do not depend on each other: what becomes of the rows that the second one names is the
same before and after the first (`RowOperation.effect_after`). Their changes of the table are therefore one change, in either
order (`Table.Swapped.append`), and the supernets follow both at once (`Effect.followed_both`). Up to new identifiers and times,
the order in which they run does not matter (`Engine.independent_commute`).
-/

namespace AddressSpace

variable {F : Family}

/-! ## Tables -/

/-- Ascending lists of which each member has a partner with its key in the other are alike one by one. -/
theorem forall₂_of_ascending {α β : Type} {related : α → β → Prop} {key : α → Nat} {key' : β → Nat} {xs : List α} {ys : List β}
    (hx : xs.Pairwise fun a b => key a < key b) (hy : ys.Pairwise fun a b => key' a < key' b)
    (hpartner : ∀ x ∈ xs, ∃ y ∈ ys, related x y ∧ key x = key' y) (hpartner' : ∀ y ∈ ys, ∃ x ∈ xs, key x = key' y) :
    List.Forall₂ related xs ys := by
  induction xs generalizing ys with
  | nil =>
    cases ys with
    | nil => exact .nil
    | cons y ys =>
      obtain ⟨x, hx, -⟩ := hpartner' y (by simp)
      cases hx
  | cons x xs ih =>
    cases ys with
    | nil =>
      obtain ⟨y, hy, -⟩ := hpartner x (by simp)
      cases hy
    | cons y ys =>
      obtain ⟨hxs, hxrest⟩ := List.pairwise_cons.1 hx
      obtain ⟨hys, hyrest⟩ := List.pairwise_cons.1 hy
      -- the least keys are the same, so that the partner of the first member is the first
      obtain ⟨y', hy', hrelated, hkey⟩ := hpartner x (by simp)
      obtain ⟨x', hx', hkey'⟩ := hpartner' y (by simp)
      have hle : key x ≤ key x' := by
        rcases List.mem_cons.1 hx' with rfl | hx'
        · exact Nat.le_refl _
        · exact Nat.le_of_lt (hxs x' hx')
      have hfirst : y' = y := by
        rcases List.mem_cons.1 hy' with rfl | hy'
        · rfl
        · have := hys y' hy'
          omega
      subst hfirst
      refine .cons hrelated (ih hxrest hyrest ?_ ?_)
      · intro z hz
        obtain ⟨w, hw, hzw, hkey''⟩ := hpartner z (by simp [hz])
        rcases List.mem_cons.1 hw with rfl | hw
        · have := hxs z hz
          omega
        · exact ⟨w, hw, hzw, hkey''⟩
      · intro w hw
        obtain ⟨z, hz, hkey''⟩ := hpartner' w (by simp [hw])
        rcases List.mem_cons.1 hz with rfl | hz
        · have := hys w hw
          omega
        · exact ⟨z, hz, hkey''⟩

/-- The members of lists that are alike have partners in the other list. -/
theorem exists_of_forall₂ {α β : Type} {related : α → β → Prop} {xs : List α} {ys : List β} (h : List.Forall₂ related xs ys) :
    (∀ x ∈ xs, ∃ y ∈ ys, related x y) ∧ ∀ y ∈ ys, ∃ x ∈ xs, related x y := by
  induction h with
  | nil => simp
  | cons hxy _ ih =>
    constructor
    · intro x hx
      rcases List.mem_cons.1 hx with rfl | hx
      · exact ⟨_, by simp, hxy⟩
      · obtain ⟨y, hy, hrelated⟩ := ih.1 x hx
        exact ⟨y, by simp [hy], hrelated⟩
    · intro y hy
      rcases List.mem_cons.1 hy with rfl | hy
      · exact ⟨_, by simp, hxy⟩
      · obtain ⟨x, hx, hrelated⟩ := ih.2 y hy
        exact ⟨x, by simp [hx], hrelated⟩

namespace Table

variable {R : Type} [Row R] {t t' t'' : Table R} {old new new' : List R}

/-- Two changes of a table that take out the same rows and put in rows which are alike lead to tables which are alike. -/
theorem Swapped.forall₂_toList {related : R → R → Prop} (h : t.Swapped old new t') (h' : t.Swapped old new' t'')
    (hrefl : ∀ r, related r r) (hspan : ∀ {r s}, related r s → Row.span r = Row.span s) (hnew : List.Forall₂ related new new') :
    List.Forall₂ related t'.toList t''.toList := by
  obtain ⟨hleft, hright⟩ := exists_of_forall₂ hnew
  refine forall₂_of_ascending (pairwise_first_toList h.valid) (pairwise_first_toList h'.valid) ?_ ?_
  · intro r hr
    rcases (h.mem_iff r).1 ((mem_toList h.valid).1 hr) with ⟨hrt, hro⟩ | hrn
    · exact ⟨r, (mem_toList h'.valid).2 (h'.kept hrt hro), hrefl r, rfl⟩
    · obtain ⟨s, hs, hrs⟩ := hleft r hrn
      exact ⟨s, (mem_toList h'.valid).2 (h'.new_mem hs), hrs, congrArg Interval.first (hspan hrs)⟩
  · intro s hs
    rcases (h'.mem_iff s).1 ((mem_toList h'.valid).1 hs) with ⟨hst, hso⟩ | hsn
    · exact ⟨s, (mem_toList h.valid).2 (h.kept hst hso), rfl⟩
    · obtain ⟨r, hr, hrs⟩ := hright s hsn
      exact ⟨r, (mem_toList h.valid).2 (h.new_mem hr), congrArg Interval.first (hspan hrs)⟩

end Table

/-- Ranges that are alike have the same spans and statuses. -/
theorem Range.digests_of_like {stamps : List (Stamp × Stamp)} {rs ss : List (Range F)}
    (h : List.Forall₂ (Range.Like stamps) rs ss) : rs.map Range.digest = ss.map Range.digest := by
  rw [← List.forall₂_eq_eq_eq, List.forall₂_map_left_iff, List.forall₂_map_right_iff]
  exact h.imp fun _ _ hlike => hlike.digest

/-! ## Journals -/

/-- The records are the same up to their identifiers and times. -/
def Record.Like (r s : Record F) : Prop := s = { r with id := s.id, createdAt := s.createdAt }

namespace Journal

variable {j : Journal F}

/-- What is written down does not change what is written down next. -/
theorem entry_enter (stamp stamp' : Stamp) (user user' : Option String) (event event' : Option (Event F)) :
    (j.enter stamp user event).entry stamp' user' event' = j.entry stamp' user' event' := by
  rw [entry, entry, closed_enter]

/-- What two stamps note of one event is the same up to identifiers and times. -/
theorem like_entry (stamp stamp' : Stamp) (user : Option String) (event : Option (Event F)) :
    List.Forall₂ Record.Like (j.entry stamp user event) (j.entry stamp' user event) := by
  unfold entry
  split
  · exact .nil
  · rw [List.forall₂_map_left_iff, List.forall₂_map_right_iff, List.forall₂_same]
    intro event _
    rfl

end Journal

/-! ## Effects one after the other -/

namespace Engine

/-- Announced in another order, and with rows of the same spans and statuses, a change has the same consequences. -/
theorem followed_congr {e : Engine} (h : e.Sound) {q q' : Pool F} (hq : q.store.table.Valid) (hq' : q'.store.table.Valid)
    (hd : q.store.toList.map Range.digest = q'.store.toList.map Range.digest) {spans spans' : List (Span F)}
    (hspans : ∀ s, s ∈ spans ↔ s ∈ spans') : followed F e q' spans' = withPool F (followed F e q spans) q' := by
  cases F with
  | v4 =>
    have hsupernets : (Warehouse.refresh q.store spans e.supernets).2 = (Warehouse.refresh q'.store spans' e.supernets).2 :=
      Warehouse.refresh_congr h.supernets hq hq' hd hspans
    simp only [followed, rangesChanged, withPool, hsupernets]
  | v6 => rfl

end Engine

namespace Effect

variable {e e₁ e₂ e₁₂ e₂₁ : Engine} {d₁ d₂ : Effect F} {names₁ names₂ : List Identifier} {n₁ n₂ : Nat}
  {σ₁ σ₂ τ₁ τ₂ : Stamp} {user₁ user₂ : Option String}

/-- Engines follow two effects one after the other as they follow both at once. -/
theorem followed_both (h : e.Sound) (hd₁ : d₁.Follows σ₁ user₁ e e₁) (hd₂ : d₂.Follows σ₂ user₂ e₁ e₁₂) :
    e₁₂ = Engine.followed F e (e₁₂.pool F) (d₁.spans ++ d₂.spans) := by
  have h₁ := hd₁.sound h
  obtain ⟨q₁, -, rfl⟩ := hd₁
  obtain ⟨q₂, hmade, rfl⟩ := hd₂
  cases F with
  | v4 =>
    have hsupernets := Warehouse.refresh_refresh h.supernets h₁.v4.valid hmade.became.table hmade.transition d₁.spans
    simp only [Engine.followed, Engine.rangesChanged, Engine.withPool, Engine.pool] at hsupernets ⊢
    rw [hsupernets]
  | v6 => rfl

/-- An effect adds what it has to record to the journal of its family, and nothing else. -/
theorem Follows.records (hd₁ : d₁.Follows σ₁ user₁ e e₁) :
    (e₁.pool F).journal.records = (e.pool F).journal.records ++ (e.pool F).journal.entry σ₁ user₁ d₁.event := by
  rw [hd₁.made.became.journal, Journal.records_enter]

/-- The records of two effects one after the other. -/
theorem records_both (hd₁ : d₁.Follows σ₁ user₁ e e₁) (hd₂ : d₂.Follows σ₂ user₂ e₁ e₁₂) :
    (e₁₂.pool F).journal.records = (e.pool F).journal.records ++
      ((e.pool F).journal.entry σ₁ user₁ d₁.event ++ (e.pool F).journal.entry σ₂ user₂ d₂.event) := by
  rw [hd₂.records, hd₁.records, List.append_assoc, hd₁.made.became.journal, Journal.entry_enter]

/-- An effect on some names puts in no row with another name, as long as the new identifiers are no such names. -/
theorem Local.new_unnamed (h₁ : d₁.Local names₁ n₁) (hnames : ∀ id ∈ names₁, id ∉ names₂) (hids : ∀ k < n₁, σ₁.rowId k ∉ names₂) :
    ∀ r ∈ d₁.new σ₁, r.id ∉ names₂ := by
  intro r hr
  rcases h₁.new σ₁ r hr with hid | ⟨k, hk, hid⟩
  · exact hnames _ hid
  · rw [hid]
    exact hids k hk

/-- The changes of effects on different names are one change of the table. -/
theorem swapped_both (h₁ : d₁.Local names₁ n₁) (h₂ : d₂.Local names₂ n₂) (hnames : ∀ id ∈ names₁, id ∉ names₂)
    (hids : ∀ k < n₁, σ₁.rowId k ∉ names₂) (hd₁ : d₁.Follows σ₁ user₁ e e₁) (hd₂ : d₂.Follows σ₂ user₂ e₁ e₁₂) :
    (e.pool F).store.table.Swapped (d₁.old ++ d₂.old) (d₁.new σ₁ ++ d₂.new σ₂) (e₁₂.pool F).store.table := by
  refine hd₁.made.became.table.append hd₂.made.became.table fun r hr hro => ?_
  exact h₁.new_unnamed hnames hids r hr (h₂.old r hro)

/-- In either order, effects on different names lead to ranges that are alike. -/
theorem ranges_both (h₁ : d₁.Local names₁ n₁) (h₂ : d₂.Local names₂ n₂)
    (hsw : (e.pool F).store.table.Swapped (d₁.old ++ d₂.old) (d₁.new σ₁ ++ d₂.new σ₂) (e₁₂.pool F).store.table)
    (hsw' : (e.pool F).store.table.Swapped (d₂.old ++ d₁.old) (d₂.new τ₂ ++ d₁.new τ₁) (e₂₁.pool F).store.table) :
    List.Forall₂ (Range.Like [(σ₁, τ₁), (σ₂, τ₂)]) (e₁₂.pool F).store.toList (e₂₁.pool F).store.toList := by
  have hordered : (e.pool F).store.table.Swapped (d₁.old ++ d₂.old) (d₁.new τ₁ ++ d₂.new τ₂) (e₂₁.pool F).store.table :=
    hsw'.congr (fun r => by simp [or_comm]) fun r => by simp [or_comm]
  have hfirst : List.Forall₂ (Range.Like [(σ₁, τ₁), (σ₂, τ₂)]) (d₁.new σ₁) (d₁.new τ₁) :=
    (h₁.alike σ₁ τ₁).imp fun _ _ hlike => hlike.mono (by simp)
  have hsecond : List.Forall₂ (Range.Like [(σ₁, τ₁), (σ₂, τ₂)]) (d₂.new σ₂) (d₂.new τ₂) :=
    (h₂.alike σ₂ τ₂).imp fun _ _ hlike => hlike.mono (by simp)
  refine hsw.forall₂_toList hordered Range.Like.refl ?_ (List.rel_append hfirst hsecond)
  intro r s hlike
  exact congrArg (fun d => d.1.interval) hlike.digest

/-- Effects on different names lead to ranges that are alike in either order, and to the same of everything else. -/
theorem commute (h : e.Sound) (h₁ : d₁.Local names₁ n₁) (h₂ : d₂.Local names₂ n₂) (hnames : ∀ id ∈ names₁, id ∉ names₂)
    (hσ : ∀ k < n₁, σ₁.rowId k ∉ names₂) (hτ : ∀ k < n₂, τ₂.rowId k ∉ names₁) (hd₁ : d₁.Follows σ₁ user₁ e e₁)
    (hd₁₂ : d₂.Follows σ₂ user₂ e₁ e₁₂) (hd₂ : d₂.Follows τ₂ user₂ e e₂) (hd₂₁ : d₁.Follows τ₁ user₁ e₂ e₂₁) :
    List.Forall₂ (Range.Like [(σ₁, τ₁), (σ₂, τ₂)]) (e₁₂.pool F).store.toList (e₂₁.pool F).store.toList ∧
      e₂₁ = Engine.withPool F e₁₂ (e₂₁.pool F) := by
  have hnames' : ∀ id ∈ names₂, id ∉ names₁ := fun id hid hid' => hnames id hid' hid
  have hsw := swapped_both h₁ h₂ hnames hσ hd₁ hd₁₂
  have hsw' := swapped_both h₂ h₁ hnames' hτ hd₂ hd₂₁
  have hranges := ranges_both h₁ h₂ hsw hsw'
  have hspans : ∀ s, s ∈ d₁.spans ++ d₂.spans ↔ s ∈ d₂.spans ++ d₁.spans := by simp [or_comm]
  have hafter := Engine.followed_congr h hsw.valid hsw'.valid (Range.digests_of_like hranges) hspans
  rw [← followed_both h hd₁ hd₁₂, ← followed_both h hd₂ hd₂₁] at hafter
  exact ⟨hranges, hafter⟩

end Effect

/-! ## Operations one after the other -/

namespace RowOperation

variable {e e₁ : Engine} {d₁ : Effect F} {names₁ : List Identifier} {n₁ : Nat} {σ₁ σ₂ : Stamp} {user₁ : Option String}

/-- An effect on other names changes nothing of what an operation would do. -/
theorem effect_after (h : e.Sound) (h₁ : d₁.Local names₁ n₁) (hd₁ : d₁.Follows σ₁ user₁ e e₁) (op : RowOperation F)
    (hnames : ∀ id ∈ names₁, id ∉ op.names) (hids : ∀ k < n₁, σ₁.rowId k ∉ op.names) :
    op.effect (e₁.pool F) = op.effect (e.pool F) := by
  have hmade := hd₁.made.became
  refine op.effect_congr hmade.limits fun id hid => ?_
  have hget : (e₁.pool F).store.table.get? id = (e.pool F).store.table.get? id := by
    refine hmade.table.get?_eq (h.pool F).valid ?_ ?_
    · intro r hr he
      exact hnames r.id (h₁.old r hr) (by rwa [← Range.row_id, he])
    · intro r hr he
      exact h₁.new_unnamed hnames hids r hr (by rwa [← Range.row_id, he])
  unfold Store.row
  rw [hget]

/-- An operation whose effect on an engine is the same as on another makes of it what it would make of the other. -/
theorem after_follows_of_effect {e e' : Engine} (h' : e'.Sound) {op : RowOperation F} {σ : Stamp}
    (hfresh : σ.Fresh (e'.pool F).store.table (op.adds (e'.pool F))) (user : Option String)
    (he : op.effect (e'.pool F) = op.effect (e.pool F)) : (op.does (e.pool F)).Follows σ user e' (op.after σ user e') := by
  have hfollows : (op.does (e'.pool F)).Follows σ user e' (op.after σ user e') := after_follows h' op hfresh
  unfold does at hfollows ⊢
  rwa [he] at hfollows

/-- When the operations run one after the other, the identifiers for new rows are new to the table, and those of the first
operation are not among the names of the second. -/
structure FreshInTurn (e : Engine) (op₁ op₂ : RowOperation F) (σ₁ σ₂ : Stamp) (user₁ : Option String) : Prop where
  first : σ₁.Fresh (e.pool F).store.table (op₁.adds (e.pool F))
  second : σ₂.Fresh ((op₁.after σ₁ user₁ e).pool F).store.table (op₂.adds ((op₁.after σ₁ user₁ e).pool F))
  unnamed : ∀ k < op₁.adds (e.pool F), σ₁.rowId k ∉ op₂.names

/-- The outcomes are the same failure, or rows that are alike. -/
inductive OutcomesLike (stamps : List (Stamp × Stamp)) :
    Except Failure (List (Range F)) → Except Failure (List (Range F)) → Prop
  | ok {rows rows' : List (Range F)} (h : List.Forall₂ (Range.Like stamps) rows rows') :
      OutcomesLike stamps (.ok rows) (.ok rows')
  | error (f : Failure) : OutcomesLike stamps (.error f) (.error f)

/-- An operation whose effect is the same on two engines ends on both alike. -/
theorem outcomesLike_of_effect {e e' : Engine} (h : e.Sound) (h' : e'.Sound) {op : RowOperation F} {σ τ : Stamp}
    (hfresh : σ.Fresh (e.pool F).store.table (op.adds (e.pool F)))
    (hfresh' : τ.Fresh (e'.pool F).store.table (op.adds (e'.pool F))) (user : Option String)
    (he : op.effect (e'.pool F) = op.effect (e.pool F)) :
    OutcomesLike [(σ, τ)] (op.outcome σ user e) (op.outcome τ user e') := by
  rw [outcome_eq h op hfresh, outcome_eq h' op hfresh', he]
  cases hd : op.effect (e.pool F) with
  | ok d => exact .ok ((effect_local (h.pool F).valid op hd).answer σ τ)
  | error f => exact .error f

end RowOperation

namespace Engine

open RowOperation

/-- In every engine that operations lead to from an empty or a restored one, whether they succeed or fail, two operations on rows
that name different identifiers can change places. In either order, with identifiers for new rows that are new, each of them fails
for the same reason or answers with the same rows, up to new identifiers and times. The stored ranges at the end are the same up
to these as well, and all beside the pool of the family is the same, the supernets with their rollups and numbers of addresses
included. Each operation adds the same records to the journal, in the order in which they run. -/
theorem independent_commute {start e : Engine}
    (hs : (∃ limits, start = empty limits) ∨ ∃ snapshot limits, restore snapshot limits = .ok start)
    (hr : Reached (fun _ => true) start e) {op₁ op₂ : RowOperation F} (hnames : ∀ id ∈ op₁.names, id ∉ op₂.names)
    {σ₁ σ₂ τ₁ τ₂ : Stamp} {user₁ user₂ : Option String} (h₁₂ : FreshInTurn e op₁ op₂ σ₁ σ₂ user₁)
    (h₂₁ : FreshInTurn e op₂ op₁ τ₂ τ₁ user₂) :
    let e₁ := op₁.after σ₁ user₁ e
    let e₂ := op₂.after τ₂ user₂ e
    let e₁₂ := op₂.after σ₂ user₂ e₁
    let e₂₁ := op₁.after τ₁ user₁ e₂
    OutcomesLike [(σ₁, τ₁)] (op₁.outcome σ₁ user₁ e) (op₁.outcome τ₁ user₁ e₂) ∧
      OutcomesLike [(σ₂, τ₂)] (op₂.outcome σ₂ user₂ e₁) (op₂.outcome τ₂ user₂ e) ∧
      List.Forall₂ (Range.Like [(σ₁, τ₁), (σ₂, τ₂)]) (e₁₂.pool F).store.toList (e₂₁.pool F).store.toList ∧
      e₂₁ = withPool F e₁₂ (e₂₁.pool F) ∧
      ∃ r₁ r₂ s₁ s₂ : List (Record F), List.Forall₂ Record.Like r₁ s₁ ∧ List.Forall₂ Record.Like r₂ s₂ ∧
        (e₁.pool F).journal.records = (e.pool F).journal.records ++ r₁ ∧
        (e₁₂.pool F).journal.records = (e.pool F).journal.records ++ (r₁ ++ r₂) ∧
        (e₂.pool F).journal.records = (e.pool F).journal.records ++ s₂ ∧
        (e₂₁.pool F).journal.records = (e.pool F).journal.records ++ (s₂ ++ s₁) := by
  intro e₁ e₂ e₁₂ e₂₁
  have h : e.Sound := reached_sound (sound_of_start hs) hr
  have hvalid := (h.pool F).valid
  have hnames' : ∀ id ∈ op₂.names, id ∉ op₁.names := fun id h₂ h₁ => hnames id h₁ h₂
  have hlocal₁ := does_local hvalid op₁
  have hlocal₂ := does_local hvalid op₂
  have hd₁ : (op₁.does (e.pool F)).Follows σ₁ user₁ e e₁ := after_follows h op₁ h₁₂.first
  have hd₂ : (op₂.does (e.pool F)).Follows τ₂ user₂ e e₂ := after_follows h op₂ h₂₁.first
  have h₁ : e₁.Sound := hd₁.sound h
  have h₂ : e₂.Sound := hd₂.sound h
  -- what the second operation does is what it would have done as the first
  have heffect₂ : op₂.effect (e₁.pool F) = op₂.effect (e.pool F) := effect_after h hlocal₁ hd₁ op₂ hnames h₁₂.unnamed
  have heffect₁ : op₁.effect (e₂.pool F) = op₁.effect (e.pool F) := effect_after h hlocal₂ hd₂ op₁ hnames' h₂₁.unnamed
  have hd₁₂ : (op₂.does (e.pool F)).Follows σ₂ user₂ e₁ e₁₂ := after_follows_of_effect h₁ h₁₂.second user₂ heffect₂
  have hd₂₁ : (op₁.does (e.pool F)).Follows τ₁ user₁ e₂ e₂₁ := after_follows_of_effect h₂ h₂₁.second user₁ heffect₁
  obtain ⟨hranges, hrest⟩ := Effect.commute h hlocal₁ hlocal₂ hnames h₁₂.unnamed h₂₁.unnamed hd₁ hd₁₂ hd₂ hd₂₁
  exact ⟨outcomesLike_of_effect h h₂ h₁₂.first h₂₁.second user₁ heffect₁,
    outcomesLike_of_effect h₁ h h₁₂.second h₂₁.first user₂ heffect₂.symm, hranges, hrest,
    _, _, _, _, Journal.like_entry σ₁ τ₁ user₁ _, Journal.like_entry σ₂ τ₂ user₂ _, hd₁.records,
    Effect.records_both hd₁ hd₁₂, hd₂.records, Effect.records_both hd₂ hd₂₁⟩

/-- The assigned network is taken back and the reserved one is split, in either order. -/
theorem independent_commute_sample :
    let e := Operation.afterAll Operation.sample (empty .standard)
    let op₁ : RowOperation .v4 := .recover (.ofBits 16)
    let op₂ : RowOperation .v4 := .split (.ofBits 17) 25
    let e₁₂ := op₂.after (.counting 33) none (op₁.after (.counting 32) none e)
    let e₂₁ := op₁.after (.counting 50) none (op₂.after (.counting 48) none e)
    e₁₂.v4.store.toList.map (·.id) = [.ofBits 16, .ofBits 33, .ofBits 34] ∧
      e₂₁.v4.store.toList.map (·.id) = [.ofBits 16, .ofBits 48, .ofBits 49] ∧
      List.Forall₂ (Range.Like [(.counting 32, .counting 50), (.counting 33, .counting 48)]) (e₁₂.pool .v4).store.toList
        (e₂₁.pool .v4).store.toList ∧
      e₂₁ = withPool .v4 e₁₂ (e₂₁.pool .v4) := by
  intro e op₁ op₂ e₁₂ e₂₁
  have hreached : Reached (fun _ => true) (empty .standard) e := reached_afterAll _ rfl
  have hrecover : FreshInTurn e op₁ op₂ (.counting 32) (.counting 33) none :=
    ⟨⟨by decide, by decide +kernel⟩, ⟨by decide +kernel, by decide +kernel⟩, by decide +kernel⟩
  have hsplit : FreshInTurn e op₂ op₁ (.counting 48) (.counting 50) none :=
    ⟨⟨by decide +kernel, by decide +kernel⟩, ⟨by decide, by decide +kernel⟩, by decide +kernel⟩
  obtain ⟨-, -, hranges, hrest, -⟩ := independent_commute (.inl ⟨.standard, rfl⟩) hreached (by decide) hrecover hsplit
  exact ⟨by decide +kernel, by decide +kernel, hranges, hrest⟩

end Engine

end AddressSpace
