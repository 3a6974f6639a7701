import Mathlib.Data.List.Nodup
import AddressSpace.Proofs.Action
import AddressSpace.Proofs.Table.Query
/-!
# What a change makes of a table

`Swapped t old new t'` says that `t'` is the table `t` with the rows `old` taken out and the rows `new` put in, and that both
are valid. Every change of a table is one: adding a row (`insert_eq_ok_iff`), replacing one (`replace_ok`), taking one out
(`swapped_of_remove?`) and swapping many (`swap_ends`), which on failure gives back the very table that it started from.
-/

namespace AddressSpace.Table

variable {R : Type} [Row R] {t t' : Table R}

/-- The table `t'` is `t` with the rows `old` taken out and the rows `new` put in. -/
structure Swapped (t : Table R) (old new : List R) (t' : Table R) : Prop where
  valid : t'.Valid
  old_mem : ∀ r ∈ old, r ∈ t
  mem_iff : ∀ r, r ∈ t' ↔ r ∈ t ∧ r ∉ old ∨ r ∈ new
  /-- A row that is put in was not there, unless it was taken out before. -/
  fresh : ∀ r ∈ new, r ∈ t → r ∈ old

namespace Swapped

variable {old new old' new' : List R} {r s : R}

theorem refl (ht : t.Valid) : Swapped t [] [] t :=
  ⟨ht, nofun, fun r => by simp, nofun⟩

/-- Rows that are taken out and put in again leave the table as it is. -/
theorem again (ht : t.Valid) (h : ∀ r ∈ old, r ∈ t) : Swapped t old old t where
  valid := ht
  old_mem := h
  mem_iff := fun r => by
    constructor
    · intro hr
      exact (Classical.em (r ∈ old)).symm.imp_left fun ho => ⟨hr, ho⟩
    · rintro (⟨hr, -⟩ | hr)
      · exact hr
      · exact h r hr
  fresh := fun _ hr _ => hr

theorem new_mem (h : Swapped t old new t') (hr : r ∈ new) : r ∈ t' := (h.mem_iff r).2 (.inr hr)

/-- A row that is not taken out stays. -/
theorem kept (h : Swapped t old new t') (hr : r ∈ t) (ho : r ∉ old) : r ∈ t' := (h.mem_iff r).2 (.inl ⟨hr, ho⟩)

/-- Only which rows are taken out and put in matters, not their order. -/
theorem congr (h : Swapped t old new t') (ho : ∀ r, r ∈ old ↔ r ∈ old') (hn : ∀ r, r ∈ new ↔ r ∈ new') :
    Swapped t old' new' t' where
  valid := h.valid
  old_mem := fun r hr => h.old_mem r ((ho r).2 hr)
  mem_iff := fun r => by rw [h.mem_iff, ho, hn]
  fresh := fun r hr hrt => (ho r).1 (h.fresh r ((hn r).2 hr) hrt)

/-- What all rows had before and the new ones have, all rows have after. -/
theorem all {p : R → Prop} (h : Swapped t old new t') (ht : ∀ r ∈ t, p r) (hn : ∀ r ∈ new, p r) : ∀ r ∈ t', p r := by
  intro r hr
  rcases (h.mem_iff r).1 hr with ⟨hr, -⟩ | hr
  · exact ht r hr
  · exact hn r hr

/-- A row that stays has another name than one that is put in. -/
theorem id_ne (h : Swapped t old new t') (hr : r ∈ t) (ho : r ∉ old) (hs : s ∈ new) : Row.id r ≠ Row.id s := by
  intro hid
  obtain rfl := eq_of_id (h.kept hr ho) (h.new_mem hs) hid
  exact ho (h.fresh r hs hr)

/-- Rows that are put in and taken out again have not been there. -/
theorem trans {t'' : Table R} (h : Swapped t old new t') (h' : Swapped t' new new' t'') : Swapped t old new' t'' where
  valid := h'.valid
  old_mem := h.old_mem
  mem_iff := fun r => by
    rw [h'.mem_iff, h.mem_iff]
    constructor
    · rintro (⟨hr | hr, hn⟩ | hr)
      · exact .inl hr
      · exact absurd hr hn
      · exact .inr hr
    · rintro (⟨hr, ho⟩ | hr)
      · exact .inl ⟨.inl ⟨hr, ho⟩, fun hn => ho (h.fresh r hn hr)⟩
      · exact .inr hr
  fresh := fun r hr hrt => by
    by_contra ho
    exact ho (h.fresh r (h'.fresh r hr (h.kept hrt ho)) hrt)

/-- Two changes, of which the second takes out nothing that the first has put in, are one change. -/
theorem append {t'' : Table R} (h : Swapped t old new t') (h' : Swapped t' old' new' t'') (hne : ∀ r ∈ new, r ∉ old') :
    Swapped t (old ++ old') (new ++ new') t'' where
  valid := h'.valid
  old_mem := fun r hr => by
    rcases List.mem_append.1 hr with hr | hr
    · exact h.old_mem r hr
    · rcases (h.mem_iff r).1 (h'.old_mem r hr) with ⟨hrt, -⟩ | hrn
      · exact hrt
      · exact absurd hr (hne r hrn)
  mem_iff := fun r => by
    simp only [h'.mem_iff, h.mem_iff, List.mem_append, not_or]
    constructor
    · intro hr
      rcases hr with ⟨⟨hrt, hro⟩ | hrn, hro'⟩ | hrn
      · exact .inl ⟨hrt, hro, hro'⟩
      · exact .inr (.inl hrn)
      · exact .inr (.inr hrn)
    · intro hr
      rcases hr with ⟨hrt, hro, hro'⟩ | hrn | hrn
      · exact .inl ⟨.inl ⟨hrt, hro⟩, hro'⟩
      · exact .inl ⟨.inr hrn, hne r hrn⟩
      · exact .inr hrn
  fresh := fun r hr hrt => by
    by_contra ho
    obtain ⟨hro, hro'⟩ := not_or.1 (List.mem_append.not.1 ho)
    rcases List.mem_append.1 hr with hr | hr
    · exact hro (h.fresh r hr hrt)
    · exact hro' (h'.fresh r hr (h.kept hrt hro))

/-- What is found under a name that no row taken out or put in has is the same as before. -/
theorem get?_eq (h : Swapped t old new t') (ht : t.Valid) {id : Identifier} (ho : ∀ r ∈ old, Row.id r ≠ id)
    (hn : ∀ r ∈ new, Row.id r ≠ id) : t'.get? id = t.get? id := by
  apply Option.ext
  intro r
  rw [h.valid.get?_eq_some_iff, ht.get?_eq_some_iff, h.mem_iff]
  constructor
  · intro hr
    rcases hr with ⟨⟨hrt, -⟩ | hrn, hid⟩
    · exact ⟨hrt, hid⟩
    · exact absurd hid (hn r hrn)
  · intro hr
    exact ⟨.inl ⟨hr.1, fun hro => ho r hro hr.2⟩, hr.2⟩

end Swapped

/-! ## One row -/

/-- An identifier finds something just when some row has it. -/
theorem isSome_get?_iff (ht : t.Valid) {id : Identifier} : (t.get? id).isSome = true ↔ ∃ r ∈ t, Row.id r = id := by
  simp only [Option.isSome_iff_exists, ht.get?_eq_some_iff]

/-- Putting a row that is apart from all others puts in that row. -/
theorem swapped_put (ht : t.Valid) {r : R} (hr : Row.Ordered r) (h : ∀ s ∈ t, Row.Apart s r) :
    Swapped t [] [r] (t.put r) where
  valid := valid_put ht hr h
  old_mem := nofun
  mem_iff := fun s => by simp [mem_put_of_apart h s, or_comm]
  fresh := by
    intro s hs hst
    obtain rfl := List.mem_singleton.1 hs
    exact absurd rfl (h s hst).1

/-- A row is added just when it is apart from all others. -/
theorem insert_eq_ok_iff (ht : t.Valid) {r : R} : t.insert r = .ok t' ↔ (∀ s ∈ t, Row.Apart s r) ∧ t' = t.put r := by
  unfold insert
  by_cases hid : (t.get? (Row.id r)).isSome = true
  · rw [if_pos hid]
    refine ⟨nofun, fun h => ?_⟩
    obtain ⟨s, hs, he⟩ := (isSome_get?_iff ht).1 hid
    exact absurd he (h.1 s hs).1
  · rw [if_neg hid]
    have hne : ∀ s ∈ t, Row.id s ≠ Row.id r := fun s hs he => hid ((isSome_get?_iff ht).2 ⟨s, hs, he⟩)
    cases hfree : t.checkFree (Row.span r) [] with
    | error e =>
      refine ⟨nofun, fun h => ?_⟩
      have hok : t.checkFree (Row.span r) [] = .ok () := (checkFree_eq_ok_iff ht).2 fun s hs _ => (h.1 s hs).2
      rw [hok] at hfree
      cases hfree
    | ok u =>
      have := (checkFree_eq_ok_iff ht).1 hfree
      constructor
      · rintro ⟨⟩
        exact ⟨fun s hs => ⟨hne s hs, this s hs (by simp)⟩, rfl⟩
      · rintro ⟨-, rfl⟩
        rfl

/-- An insertion that succeeds puts in the row. -/
theorem swapped_of_insert (ht : t.Valid) {r : R} (hr : Row.Ordered r) (h : t.insert r = .ok t') :
    Swapped t [] [r] t' := by
  obtain ⟨hapart, rfl⟩ := (insert_eq_ok_iff ht).1 h
  exact swapped_put ht hr hapart

/-- A removal that succeeds takes out the row. -/
theorem swapped_of_remove? (ht : t.Valid) {id : Identifier} {r : R} (h : t.remove? id = some (r, t')) :
    Swapped t [r] [] t' where
  valid := valid_of_remove? ht h
  old_mem := by
    intro s hs
    rw [List.mem_singleton.1 hs]
    exact (mem_of_remove? ht h).1
  mem_iff := fun s => by simp [mem_remove?_iff ht h]
  fresh := nofun

/-- A row that is apart from all that is left may be put in as well. -/
theorem Swapped.put {old : List R} {t₀ : Table R} (h : Swapped t₀ old [] t) {r : R} (hr : Row.Ordered r)
    (hapart : ∀ s ∈ t, Row.Apart s r) : Swapped t₀ old [r] (t.put r) where
  valid := valid_put h.valid hr hapart
  old_mem := h.old_mem
  mem_iff := fun s => by rw [mem_put_of_apart hapart, h.mem_iff]; simp [or_comm]
  fresh := by
    intro s hs hst
    obtain rfl := List.mem_singleton.1 hs
    apply Classical.byContradiction
    intro hso
    exact absurd rfl (hapart s (h.kept hst hso)).1

/-- A replaced row has the same name as the new one, which has its place. -/
theorem replace_ok (ht : t.Valid) {r old : R} (hr : Row.Ordered r) (h : t.replace r = .ok (old, t')) :
    old ∈ t ∧ Row.id old = Row.id r ∧ Swapped t [old] [r] t' := by
  unfold replace at h
  cases hfree : t.checkFree (Row.span r) [Row.id r] with
  | error e => rw [hfree] at h; cases h
  | ok u =>
    rw [hfree] at h
    cases hrem : t.remove? (Row.id r) with
    | none => rw [hrem] at h; cases h
    | some x =>
      obtain ⟨s, u⟩ := x
      rw [hrem] at h
      cases h
      obtain ⟨hs, hid⟩ := mem_of_remove? ht hrem
      refine ⟨hs, hid, (swapped_of_remove? ht hrem).put hr fun x hx => ?_⟩
      obtain ⟨hx, hne⟩ := (mem_remove?_iff ht hrem x).1 hx
      have hxid : Row.id x ≠ Row.id r := fun he => hne (eq_of_id hx hs (he.trans hid.symm))
      exact ⟨hxid, (checkFree_eq_ok_iff ht).1 hfree x hx (by simpa using hxid)⟩

/-- A row can be replaced by one of the same name that no other row meets. -/
theorem exists_replace (ht : t.Valid) {r old : R} (hold : old ∈ t) (hid : Row.id old = Row.id r)
    (hfree : ∀ s ∈ t, s ≠ old → (Row.span s).meets (Row.span r) = false) : ∃ t', t.replace r = .ok (old, t') := by
  have hcheck : t.checkFree (Row.span r) [Row.id r] = .ok () := by
    refine (checkFree_eq_ok_iff ht).2 fun s hs hex => hfree s hs fun he => ?_
    rw [he, hid] at hex
    exact hex (by simp)
  have hget : t.get? (Row.id r) = some old := ht.get?_eq_some_iff.2 ⟨hold, hid⟩
  unfold replace
  rw [hcheck, remove?, hget]
  exact ⟨_, rfl⟩

/-! ## Many rows -/

/-- Different rows of a table have different names. -/
theorem nodup_map_id {rows : List R} (hmem : ∀ r ∈ rows, r ∈ t) (hn : rows.Nodup) : (rows.map Row.id).Nodup :=
  List.pairwise_map.2 (hn.imp_of_mem fun hr hs hne hid => hne (eq_of_id (hmem _ hr) (hmem _ hs) hid))

/-- Which rows of a table are meant is said by their names. -/
theorem mem_iff_id_mem {rows : List R} (hmem : ∀ r ∈ rows, r ∈ t) {r : R} (hr : r ∈ t) : r ∈ rows ↔ Row.id r ∈ rows.map Row.id := by
  constructor
  · exact List.mem_map_of_mem
  · intro hid
    obtain ⟨s, hs, hsid⟩ := List.mem_map.1 hid
    rwa [← eq_of_id (hmem s hs) hr hsid]

/-- The rows can all be put into the table. -/
structure Admits (t : Table R) (rows : List R) : Prop where
  ordered : ∀ r ∈ rows, Row.Ordered r
  apart : rows.Pairwise Row.Apart
  free : ∀ s ∈ t, ∀ r ∈ rows, Row.Apart s r

theorem admits_nil : t.Admits [] := ⟨by simp, .nil, by simp⟩

/-- The first row can be put in, and then the others can. -/
theorem admits_cons {r : R} {rows : List R} :
    t.Admits (r :: rows) ↔ Row.Ordered r ∧ (∀ s ∈ t, Row.Apart s r) ∧ (t.put r).Admits rows := by
  constructor
  · intro h
    obtain ⟨hr, hrows⟩ := List.forall_mem_cons.1 h.ordered
    obtain ⟨hrest, hapart⟩ := List.pairwise_cons.1 h.apart
    have hfirst : ∀ s ∈ t, Row.Apart s r := fun s hs => h.free s hs r List.mem_cons_self
    refine ⟨hr, hfirst, hrows, hapart, fun s hs x hx => ?_⟩
    rcases (mem_put_of_apart hfirst s).1 hs with rfl | hs
    · exact hrest x hx
    · exact h.free s hs x (List.mem_cons_of_mem _ hx)
  · rintro ⟨hr, hfirst, h⟩
    have hmem := mem_put_of_apart hfirst
    refine ⟨List.forall_mem_cons.2 ⟨hr, h.ordered⟩, List.pairwise_cons.2 ⟨fun x hx => ?_, h.apart⟩, fun s hs x hx => ?_⟩
    · exact h.free r ((hmem r).2 (.inl rfl)) x hx
    · rcases List.mem_cons.1 hx with rfl | hx
      · exact hfirst s hs
      · exact h.free s ((hmem s).2 (.inr hs)) x hx

/-- Rows that can be put in are all in the table in the end. -/
theorem putBack_of_admits (rows : List R) :
    ∀ t : Table R, t.Valid → t.Admits rows → (t.putBack rows).Valid ∧ ∀ s, s ∈ t.putBack rows ↔ s ∈ t ∨ s ∈ rows := by
  induction rows with
  | nil => exact fun t ht _ => ⟨ht, fun s => by simp [putBack]⟩
  | cons r rows ih =>
    intro t ht h
    obtain ⟨hr, hfirst, hrest⟩ := admits_cons.1 h
    obtain ⟨hvalid, hmem⟩ := ih (t.put r) (valid_put ht hr hfirst) hrest
    refine ⟨hvalid, fun s => ?_⟩
    rw [putBack, List.foldl_cons, ← putBack, hmem, mem_put_of_apart hfirst, List.mem_cons, or_comm (a := s = r), or_assoc]

/-- Rows of a valid table can be put back into a part of it where they are missing. -/
theorem Valid.admits {t₀ : Table R} (h₀ : t₀.Valid) {rows : List R} (hsub : ∀ s ∈ t, s ∈ t₀)
    (hrows : ∀ r ∈ rows, r ∈ t₀ ∧ r ∉ t) (hn : rows.Nodup) : t.Admits rows where
  ordered := fun r hr => h₀.ordered r (hrows r hr).1
  apart := hn.imp_of_mem fun {r s} hr hs hne => h₀.apart (hrows r hr).1 (hrows s hs).1 hne
  free := fun s hs r hr => h₀.apart (hsub s hs) (hrows r hr).1 fun he => (hrows r hr).2 (he ▸ hs)

/-- Taking rows back leaves those with other names. -/
theorem takeBack_valid (ids : List Identifier) :
    ∀ t : Table R, t.Valid → (t.takeBack ids).Valid ∧ ∀ s, s ∈ t.takeBack ids ↔ s ∈ t ∧ Row.id s ∉ ids := by
  induction ids with
  | nil => intro t ht; exact ⟨ht, fun s => by simp [takeBack]⟩
  | cons id ids ih =>
    intro t ht
    rw [takeBack, List.foldl_cons, ← takeBack]
    cases hrem : t.remove? id with
    | none =>
      obtain ⟨hv, hm⟩ := ih t ht
      refine ⟨hv, fun s => ?_⟩
      rw [hm, List.mem_cons, not_or]
      refine ⟨fun h => ⟨h.1, fun he => ?_, h.2⟩, fun h => ⟨h.1, h.2.2⟩⟩
      have hnone := remove?_eq_none_iff.1 hrem
      rw [← he, mem_def.1 h.1] at hnone
      cases hnone
    | some x =>
      obtain ⟨r, u⟩ := x
      obtain ⟨hr, hid⟩ := mem_of_remove? ht hrem
      obtain ⟨hv, hm⟩ := ih u (valid_of_remove? ht hrem)
      refine ⟨hv, fun s => ?_⟩
      rw [hm, mem_remove?_iff ht hrem, List.mem_cons, not_or]
      constructor
      · rintro ⟨⟨hs, hne⟩, hids⟩
        exact ⟨hs, fun he => hne (eq_of_id hs hr (he.trans hid.symm)), hids⟩
      · rintro ⟨hs, hne, hids⟩
        exact ⟨⟨hs, fun he => hne (he ▸ hid)⟩, hids⟩

/-- Undoing a swap gives back the table as it was. -/
theorem Swapped.undone {t₀ : Table R} (h₀ : t₀.Valid) {taken new : List R} (h : Swapped t₀ taken new t)
    (hn : taken.Nodup) {added : List Identifier} (hadded : ∀ i, i ∈ added ↔ ∃ r ∈ new, Row.id r = i) :
    (t.takeBack added).putBack taken = t₀ := by
  obtain ⟨hv, hm⟩ := takeBack_valid added t h.valid
  have hm' : ∀ s, s ∈ t.takeBack added ↔ s ∈ t₀ ∧ s ∉ taken := by
    intro s
    rw [hm, h.mem_iff, hadded]
    constructor
    · rintro ⟨⟨hs, hst⟩ | hs, hid⟩
      · exact ⟨hs, hst⟩
      · exact absurd ⟨s, hs, rfl⟩ hid
    · rintro ⟨hs, hst⟩
      exact ⟨.inl ⟨hs, hst⟩, fun ⟨r, hr, he⟩ => h.id_ne hs hst hr he.symm⟩
  have hadmits : (t.takeBack added).Admits taken :=
    h₀.admits (fun s hs => ((hm' s).1 hs).1) (fun r hr => ⟨h.old_mem r hr, fun hrt => ((hm' r).1 hrt).2 hr⟩) hn
  obtain ⟨hv', hm''⟩ := putBack_of_admits taken _ hv hadmits
  refine hv'.ext h₀ fun s => ?_
  rw [hm'', hm']
  by_cases hs : s ∈ taken
  · simp [hs, h.old_mem s hs]
  · simp [hs]

/-- Rows are taken out one by one; when one is missing, the table is as it was. -/
theorem takeOut_ends {t₀ : Table R} (h₀ : t₀.Valid) (ids : List Identifier) :
    ∀ (t : Table R) (taken : List R), Swapped t₀ taken [] t → taken.Nodup →
      (takeOut taken ids).Ends t
        (fun rows t' =>
          (∃ more : List R, more.map Row.id = ids ∧ rows = more.reverse ++ taken) ∧ rows.Nodup ∧ Swapped t₀ rows [] t')
        (fun _ t' => t' = t₀) := by
  induction ids with
  | nil => intro t taken h hn; exact ⟨⟨[], rfl, rfl⟩, hn, h⟩
  | cons id ids ih =>
    intro t taken h hn
    rw [takeOut, Action.ends_bind, Action.ends_get]
    cases hrem : t.remove? id with
    | none =>
      simp only [Action.ends_bind, Action.ends_modify, Action.ends_throw]
      have hadded : ∀ i, i ∈ ([] : List Identifier) ↔ ∃ r ∈ ([] : List R), Row.id r = i := by simp
      exact h.undone h₀ hn hadded
    | some x =>
      obtain ⟨r, u⟩ := x
      simp only [Action.ends_bind, Action.ends_set]
      obtain ⟨hr, hid⟩ := mem_of_remove? h.valid hrem
      obtain ⟨hr₀, hrt⟩ : r ∈ t₀ ∧ r ∉ taken := by simpa using (h.mem_iff r).1 hr
      have hstep : Swapped t₀ (r :: taken) [] u := by
        refine ⟨valid_of_remove? h.valid hrem, ?_, fun s => ?_, by simp⟩
        · intro s hs
          exact (List.mem_cons.1 hs).elim (fun e => e ▸ hr₀) (h.old_mem s)
        · rw [mem_remove?_iff h.valid hrem, h.mem_iff]
          simp only [List.not_mem_nil, or_false, List.mem_cons, not_or]
          exact and_assoc.trans (and_congr_right' and_comm)
      refine (ih u (r :: taken) hstep (List.nodup_cons.2 ⟨hrt, hn⟩)).imp ?_ fun _ _ he => he
      rintro rows t' ⟨⟨more, hmore, rfl⟩, hnd, hsw⟩
      exact ⟨⟨r :: more, by simp [hmore, hid], by simp⟩, hnd, hsw⟩

/-- Rows are put in one by one; when one does not fit, the table is as it was before the swap. -/
theorem putIn_ends {t₀ : Table R} (h₀ : t₀.Valid) {taken : List R} (hn : taken.Nodup) (rows : List R) :
    ∀ (t : Table R) (new : List R) (added : List Identifier), Swapped t₀ taken new t →
      (∀ i, i ∈ added ↔ ∃ r ∈ new, Row.id r = i) → (∀ r ∈ rows, Row.Ordered r) →
      (putIn taken added rows).Ends t (fun _ t' => Swapped t₀ taken (new ++ rows) t') (fun _ t' => t' = t₀) := by
  induction rows with
  | nil => intro t new added h _ _; exact h.congr (fun r => Iff.rfl) (by simp)
  | cons r rows ih =>
    intro t new added h hadded ho
    rw [putIn, Action.ends_bind, Action.ends_get]
    cases hins : t.insert r with
    | error e =>
      simp only [Action.ends_bind, Action.ends_modify, Action.ends_throw]
      exact h.undone h₀ hn hadded
    | ok u =>
      simp only [Action.ends_bind, Action.ends_set]
      obtain ⟨hapart, rfl⟩ := (insert_eq_ok_iff h.valid).1 hins
      have hstep : Swapped t₀ taken (r :: new) (t.put r) := by
        refine ⟨valid_put h.valid (ho r (by simp)) hapart, h.old_mem, fun s => ?_, fun s hs hst => ?_⟩
        · rw [mem_put_of_apart hapart, h.mem_iff, List.mem_cons]
          exact ⟨fun h => h.elim (.inr ∘ .inl) fun h => h.imp_right .inr,
            fun h => h.elim (.inr ∘ .inl) fun h => h.imp_right .inr⟩
        · rcases List.mem_cons.1 hs with rfl | hs
          · apply Classical.byContradiction
            intro hso
            exact absurd rfl (hapart s (h.kept hst hso)).1
          · exact h.fresh s hs hst
      refine (ih _ (r :: new) (Row.id r :: added) hstep (fun i => ?_) fun s hs => ho s (by simp [hs])).imp
        (fun _ t' hsw => hsw.congr (fun _ => Iff.rfl) fun s => ?_) fun _ _ he => he
      · simp [hadded, eq_comm]
      · simp only [List.mem_append, List.mem_cons]
        exact ⟨fun h => h.elim (fun h => h.elim (.inr ∘ .inl) .inl) (.inr ∘ .inr),
          fun h => h.elim (.inl ∘ .inr) fun h => h.elim (.inl ∘ .inl) .inr⟩

/-- A swap takes out the rows named and puts in the others, or changes nothing. -/
theorem swap_ends (ht : t.Valid) (remove : List Identifier) {add : List R} (ho : ∀ r ∈ add, Row.Ordered r) :
    (swap remove add).Ends t
      (fun _ t' => ∃ old, old.map Row.id = remove ∧ old.Nodup ∧ Swapped t old add t') (fun _ t' => t' = t) := by
  unfold swap
  rw [Action.ends_bind]
  refine (takeOut_ends ht remove t [] (.refl ht) .nil).imp ?_ fun _ _ he => he
  rintro rows u ⟨⟨old, hold, rfl⟩, hn, hsw⟩
  refine (putIn_ends ht hn add u [] [] hsw (by simp) ho).imp (fun _ t' h => ?_) fun _ _ he => he
  rw [List.append_nil] at hn
  exact ⟨old, hold, List.nodup_reverse.1 hn, h.congr (by simp) (by simp)⟩

end AddressSpace.Table
