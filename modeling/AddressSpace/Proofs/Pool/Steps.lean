import AddressSpace.Proofs.Pool.Members
/-!
# Every operation on a pool is a transition

Each operation on a pool that is at rest either fails and leaves the pool as it was, or makes one of the transitions and
announces its spans. It takes out none but the rows that it names, and what it writes down is of a kind of its own (`Pool.Deed`).
-/

namespace AddressSpace

open AddressSpace.Action

variable {F : Family} {α : Type}

/-- An operation on one locked row ends as its body does, with the row given back. -/
theorem Store.locking_row_ends {s : Store F} (h : s.AtRest) {id : Identifier}
    {body : Transaction F → Range F → Action (Store F) α} {ok : α → Store F → Prop} {fail : Failure → Store F → Prop}
    (hfail : ∀ e, fail e s)
    (hbody : ∀ tx t r, r ∈ s.table → r.id = id → t.table = s.table →
      (body tx r).Ends t (fun x u => u.locks = t.locks ∧ ok x ⟨u.table, .empty⟩) (fun _ u => u = t)) :
    (Store.locking [id] fun tx => do
      let r ← tx.row id
      body tx r).Ends s ok fail := by
  refine Store.locking_ends h hfail fun tx t hreads htable => ?_
  have hback : ∀ e, fail e ⟨t.table, .empty⟩ := by
    intro e
    rw [htable, ← h.eq_mk]
    exact hfail e
  rw [ends_bind, ends_liftM]
  refine ⟨fun r hr => ?_, fun e _ => ⟨rfl, hback e⟩⟩
  obtain ⟨hmem, hid⟩ := hreads.row hr
  refine (hbody tx t r hmem hid htable).imp (fun _ _ hok => hok) ?_
  rintro e u rfl
  exact ⟨rfl, hback e⟩

namespace Pool

variable {p : Pool F} {stamp : Stamp} {user : Option String}

/-- Writing down an event enters it in the journal and changes nothing else. -/
@[simp] theorem ends_record (event : Event F) {ok : Unit → Pool F → Prop} {fail : Failure → Pool F → Prop} :
    (record stamp user event).Ends p ok fail ↔ ok () { p with journal := p.journal.enter stamp user (some event) } :=
  Iff.rfl

/-- A range is created just when its span has the right shape and it is apart from all others. -/
theorem create_exact (h : p.store.AtRest) (new : NewRange F) :
    (create stamp new user).Ends p
      (fun out q => (new.span.Shaped ∧ ∀ o ∈ p.store.table, Row.Apart o (new.row stamp)) ∧
        out = ⟨new.row stamp, [new.span]⟩ ∧ Became stamp user p (some (.add new.span)) [] [new.row stamp] q)
      (fun _ q => ¬(new.span.Shaped ∧ ∀ o ∈ p.store.table, Row.Apart o (new.row stamp)) ∧ q = p) := by
  unfold create
  simp only [ends_bind, onStore, ends_on, ends_record, ends_pure]
  refine ((Store.insert_ends h.valid _).and (Store.insert_decides h.valid _)).imp ?_ fun _ t ht => ⟨ht.2, by rw [ht.1]⟩
  rintro r t ⟨⟨hshape, rfl, hlocks, hsw⟩, hgood⟩
  exact ⟨hgood, by rw [Range.named_span]; rfl, hsw, hlocks.trans h.unlocked, List.forall_mem_singleton.2 hshape, rfl, rfl⟩

/-- Creating a range takes out no row, or it fails and changes nothing. -/
theorem create_ends (h : p.store.AtRest) (new : NewRange F) :
    (create stamp new user).Ends p (fun out q => Deed [] (some .add) stamp user p out.spans q) (fun _ q => q = p) := by
  refine (create_exact h new).imp ?_ fun _ _ hq => hq.2
  rintro out q ⟨-, rfl, hb⟩
  exact ⟨_, [], [new.row stamp], .added new, hb, by simp, by simp [Event.kind]⟩

/-- A pool whose store is back at its table with nothing locked is the pool that it was. -/
theorem back (h : p.store.AtRest) {t : Store F} (ht : t.table = p.store.table) :
    ({ p with store := ⟨t.table, .empty⟩ } : Pool F) = p := by
  rw [ht, ← h.eq_mk]

/-- A locked row is written anew, and an event written down. -/
theorem renew_became (h : p.store.AtRest) (stamp : Stamp) (user : Option String) {tx : Transaction F} {t : Store F}
    (htable : t.table = p.store.table) {old r : Range F} (hold : old ∈ p.store.table) (hid : old.id = r.id)
    (event : Option (Event F)) :
    (renew tx r).Ends t
      (fun r' u => r' = r.named ∧ u.locks = t.locks ∧ Became stamp user p event [old] [r.named]
        { p with store := ⟨u.table, .empty⟩, journal := p.journal.enter stamp user event })
      (fun _ u => u = t) := by
  refine (renew_ends (htable ▸ h.valid) tx (htable ▸ hold) hid).imp ?_ fun _ _ ht => ht
  rintro r' u ⟨hshape, rfl, hlocks, hsw⟩
  rw [htable] at hsw
  exact ⟨rfl, hlocks, hsw, rfl, by simpa using hshape, rfl, rfl⟩

/-- Changing a range takes out that one only, or it fails and changes nothing. -/
theorem update_ends (h : p.store.AtRest) (id : Identifier) (edit : RangeEdit F) :
    (update stamp id edit user).Ends p (fun out q => Deed [id] (some .change) stamp user p out.spans q) (fun _ q => q = p) := by
  unfold update
  simp only [ends_bind, onStore, ends_on]
  refine Store.locking_row_ends h (fun _ => rfl) fun tx t old hold hid htable => ?_
  simp only [ends_bind, ends_liftM, ends_ite, ends_pure, ends_record]
  refine ⟨fun _ hm => ⟨fun _ => ⟨trivial, fun _ => ?_, fun hne => absurd trivial hne⟩, fun _ => ?_⟩, fun _ _ => trivial⟩
  · rw [back h htable]
    exact Deed.refl h
  · have hm := requireMutable_eq_ok_iff.1 hm
    by_cases hs : (edit.apply old).span = old.span
    · refine Ends.imp (renew_became h stamp user htable hold (by rfl) none) ?_ fun _ _ ht => ht
      rintro _ u ⟨rfl, hlocks, hb⟩
      exact ⟨hlocks, fun _ => ⟨none, [old], _, .edited edit hm hs, hb, by simpa using hid, by simp⟩, fun hne => absurd hs hne⟩
    · refine Ends.imp (renew_became h stamp user htable hold (by rfl) (some (.change old.span (edit.apply old).span))) ?_
        fun _ _ ht => ht
      rintro _ u ⟨rfl, hlocks, hb⟩
      exact ⟨hlocks, fun he => absurd he hs,
        fun _ => ⟨_, [old], _, .moved edit hm hs, hb, by simpa using hid, by simp [Event.kind]⟩⟩

/-- Deleting a range takes out that one only, or it fails and changes nothing. -/
theorem delete_ends (h : p.store.AtRest) (id : Identifier) :
    (delete stamp id user).Ends p (fun out q => Deed [id] (some .delete) stamp user p out.spans q) (fun _ q => q = p) := by
  unfold delete
  simp only [ends_bind, onStore, ends_on]
  refine Store.locking_row_ends h (fun _ => rfl) fun tx t old hold hid htable => ?_
  simp only [ends_bind, ends_liftM, ends_pure, ends_record]
  refine ⟨fun _ hm => ?_, fun _ _ => trivial⟩
  refine (Store.write_ends (htable ▸ h.valid) tx [id] []).imp ?_ fun _ _ ht => ht
  rintro added u ⟨-, rfl, hlocks, old', hold', -, hsw⟩
  rw [htable] at hsw
  obtain ⟨o, rfl, ho⟩ := List.map_eq_singleton_iff.1 hold'
  obtain rfl := Table.eq_of_id (hsw.old_mem o (by simp)) hold (ho.trans hid.symm)
  exact ⟨hlocks, _, _, _, .deleted (requireMutable_eq_ok_iff.1 hm), ⟨hsw, rfl, by simp, rfl, rfl⟩, by simpa using hid, by simp [Event.kind]⟩

/-- Reserving a range takes out that one only, or it fails and changes nothing. -/
theorem reserve_ends (h : p.store.AtRest) (id : Identifier) (org : Consumer) :
    (reserve stamp id org user).Ends p (fun out q => Deed [id] (some .reserve) stamp user p out.spans q) (fun _ q => q = p) := by
  unfold reserve
  simp only [ends_bind, onStore, ends_on]
  refine Store.locking_row_ends h (fun _ => rfl) fun tx t old hold hid htable => ?_
  simp only [ends_bind, ends_ite, ends_throw, ends_pure, ends_record]
  refine ⟨fun _ => trivial, fun hw => ?_⟩
  have hw := Classical.not_not.1 hw
  refine Ends.imp (renew_became h stamp user htable hold (by rfl) (some (.reserve old.span org old.status))) ?_ fun _ _ ht => ht
  rintro _ u ⟨rfl, hlocks, hb⟩
  rw [Range.named_span]
  exact ⟨hlocks, _, [old], _, .reserved org hw, hb, by simpa using hid, by simp [Event.kind]⟩

/-- Assigning a range takes out that one only, or it fails and changes nothing. -/
theorem assign_ends (h : p.store.AtRest) (id : Identifier) (org : Consumer) :
    (assign stamp id org user).Ends p (fun out q => Deed [id] (some .assign) stamp user p out.spans q) (fun _ q => q = p) := by
  unfold assign
  simp only [ends_bind, onStore, ends_on]
  refine Store.locking_row_ends h (fun _ => rfl) fun tx t old hold hid htable => ?_
  simp only [ends_bind, ends_liftM, ends_pure, ends_record]
  refine ⟨fun _ ha => ?_, fun _ _ => trivial⟩
  refine Ends.imp (renew_became h stamp user htable hold (by rfl) (some (.assign old.span org old.status))) ?_ fun _ _ ht => ht
  rintro _ u ⟨rfl, hlocks, hb⟩
  rw [Range.named_span]
  exact ⟨hlocks, _, [old], _, .assigned org ha, hb, by simpa using hid, by simp [Event.kind]⟩

/-- Recovering a range takes out that one only, or it fails and changes nothing. -/
theorem recover_ends (h : p.store.AtRest) (id : Identifier) :
    (recover stamp id user).Ends p (fun out q => Deed [id] (some .recover) stamp user p out.spans q) (fun _ q => q = p) := by
  unfold recover
  simp only [ends_bind, onStore, ends_on]
  refine Store.locking_row_ends h (fun _ => rfl) fun tx t old hold hid htable => ?_
  simp only [ends_bind, ends_ite, ends_pure, ends_record]
  refine ⟨fun hw => ⟨trivial, fun _ => ?_, fun hne => absurd hw hne⟩, fun hw => ?_⟩
  · rw [back h htable]
    exact Deed.refl h
  · refine Ends.imp (renew_became h stamp user htable hold (by rfl) (some (.recover old.span old.org old.status))) ?_
      fun _ _ ht => ht
    rintro _ u ⟨rfl, hlocks, hb⟩
    rw [Range.named_span]
    exact ⟨hlocks, fun he => absurd he hw,
      fun _ => ⟨_, [old], _, .recovered hw, hb, by simpa using hid, by simp [Event.kind]⟩⟩

/-- Remarking on a range takes out that one only and writes down nothing, or it fails and changes nothing. -/
theorem remark_ends (h : p.store.AtRest) (id : Identifier) (userRemark adminRemark : Option String)
    (privileged : Bool) :
    (remark stamp id userRemark adminRemark privileged).Ends p (fun _ q => Deed [id] none stamp user p [] q)
      (fun _ q => q = p) := by
  unfold remark
  simp only [ends_bind, ends_ite, ends_throw, onStore, ends_on, implies_true, true_and]
  intro _ _
  refine Store.locking_row_ends h (fun _ => rfl) fun tx t old hold hid htable => ?_
  simp only [ends_bind, ends_ite, ends_throw, implies_true, true_and]
  intro _
  refine Ends.imp (renew_became h stamp user htable hold (by rfl) none) ?_ fun _ _ ht => ht
  rintro _ u ⟨-, hlocks, hb⟩
  exact ⟨hlocks, none, _, _, .remarked userRemark adminRemark, hb, by simpa using hid, by simp⟩

end Pool

end AddressSpace
