import Mathlib.Data.List.Perm.Basic
import AddressSpace.Proofs.Store
/-!
# Transactions side by side

A store is shared by any number of callers, each of whom may lock rows, commit or drop a transaction, or add a range, in any order
(`Shared.Reached`). What carries the proofs is that live transactions hold different rows, which are in the table as they were read
(`Shared.Safe`). A step takes out rows of one transaction only, and puts in rows whose identifiers are not in the table otherwise,
so that the rows of the others stay (`Safe.finished`). No update is lost therefore (`no_lost_updates`).
-/

namespace AddressSpace

variable {F : Family}

/-- A store with the transactions that are under way on it. -/
structure Shared (F : Family) where
  store : Store F
  live : List (Transaction F)
  deriving DecidableEq

/-- What a caller can do with a shared store. Transactions are named by their places among the live ones. -/
inductive Move (F : Family) where
  | lock (ids : List Identifier)
  | commit (n : Nat) (remove : List Identifier) (add : List (Range F))
  | drop (n : Nat)
  | insert (r : Range F)

namespace Shared

open AddressSpace.Action

variable {s : Shared F} {tx : Transaction F}

/-- Whether the move can be made: locking waits until the rows are free, and only a live transaction can be ended. -/
def enabled (s : Shared F) : Move F → Bool
  | .lock ids => s.store.locks.areFree ids
  | .commit n _ _ => n < s.live.length
  | .drop n => n < s.live.length
  | .insert _ => true

/-- The store after rows have been locked, or could not be read. -/
def locked (s : Shared F) (ids : List Identifier) : Shared F :=
  match (Store.lock ids).run s.store with
  | (.ok tx, store) => ⟨store, s.live ++ [tx]⟩
  | (.error _, store) => ⟨store, s.live⟩

/-- The store after a move. -/
def after (s : Shared F) : Move F → Shared F
  | .lock ids => s.locked ids
  | .commit n remove add =>
    match s.live[n]? with
    | some tx => ⟨((Store.commit tx remove add).run s.store).2, s.live.eraseIdx n⟩
    | none => s
  | .drop n =>
    match s.live[n]? with
    | some tx => ⟨s.store.release tx, s.live.eraseIdx n⟩
    | none => s
  | .insert r => ⟨((Store.insert r).run s.store).2, s.live⟩

/-- What any interleaving of moves leads to from a store on which nothing is under way. -/
inductive Reached (start : Store F) : Shared F → Prop where
  | start : Reached start ⟨start, []⟩
  | step {s : Shared F} (m : Move F) : Reached start s → s.enabled m = true → Reached start (s.after m)

/-- The store after a sequence of moves, if each of them can be made when its turn comes. -/
def run? (s : Shared F) : List (Move F) → Option (Shared F)
  | [] => some s
  | m :: ms => if s.enabled m then (s.after m).run? ms else none

/-- A sequence of moves that can be made is an interleaving. -/
theorem Reached.run {start : Store F} {ms : List (Move F)} {t : Shared F} (hr : Reached start s) (h : s.run? ms = some t) :
    Reached start t := by
  induction ms generalizing s with
  | nil =>
    obtain rfl : s = t := Option.some.inj h
    exact hr
  | cons m ms ih =>
    rw [run?] at h
    split at h
    · rename_i hm
      exact ih (hr.step m hm) h
    · cases h

/-! ## The invariant -/

/-- The transaction holds the rows that it has read, and they are in the table as they were read. -/
structure Holds (t : Table (Range F)) (tx : Transaction F) : Prop where
  kept : ∀ r ∈ tx.rows, r ∈ t
  guards : ∀ id, id ∈ tx.guard.ids ↔ ∃ r ∈ tx.rows, r.id = id

/-- The live transactions hold all that is held, no two of them the same row. -/
structure Safe (s : Shared F) : Prop where
  valid : s.store.table.Valid
  held : ∀ id, s.store.locks.isLocked id = true ↔ ∃ tx ∈ s.live, id ∈ tx.guard.ids
  apart : s.live.Pairwise fun a b => a.guard.ids.Disjoint b.guard.ids
  holds : ∀ tx ∈ s.live, Holds s.store.table tx

/-- A store at rest is safe before anything is under way. -/
theorem safe_start {start : Store F} (h : start.AtRest) : Safe ⟨start, []⟩ where
  valid := h.valid
  held := fun id => by simp [h.unlocked, Locks.isLocked, Locks.empty]
  apart := .nil
  holds := nofun

/-- A change of the table leaves the rows of a transaction that does not hold what is taken out. -/
theorem Holds.swapped {t t' : Table (Range F)} {old new : List (Range F)} (h : Holds t tx) (hsw : t.Swapped old new t')
    (hold : ∀ r ∈ old, r.id ∉ tx.guard.ids) : Holds t' tx where
  kept := fun r hr => hsw.kept (h.kept r hr) fun ho => hold r ho ((h.guards r.id).2 ⟨r, hr, rfl⟩)
  guards := h.guards

/-- Rows are locked that nobody held: the new transaction holds them beside the others. -/
theorem Safe.locked (h : s.Safe) {ids : List Identifier} (hfree : s.store.locks.areFree ids = true) : (s.locked ids).Safe := by
  have hlock := Store.lock_holds h.valid ids
  unfold Shared.locked
  cases hrun : (Store.lock ids).run s.store with
  | mk result t =>
    cases result with
    | error f =>
      have ht : t = s.store := by simpa [hrun] using hlock.fail_of_run (congrArg Prod.fst hrun)
      rw [ht]
      exact h
    | ok tx =>
      obtain ⟨hreads, htable, hlocks⟩ := hlock.ok_of_run hrun
      have hnew : ∀ id ∈ tx.guard.ids, s.store.locks.isLocked id = false := by
        intro id hid
        simpa using List.all_eq_true.1 hfree id ((hreads.guards id).1 hid)
      have hholds : Holds s.store.table tx := by
        refine ⟨fun r hr => ((hreads.mem_iff r).1 hr).1, fun id => ?_⟩
        rw [hreads.guards]
        refine ⟨hreads.found id, ?_⟩
        rintro ⟨r, hr, rfl⟩
        exact ((hreads.mem_iff r).1 hr).2
      refine ⟨htable ▸ h.valid, fun id => ?_, List.pairwise_append.2 ⟨h.apart, List.pairwise_singleton _ _, ?_⟩, ?_⟩
      · have hheld : t.locks.isLocked id = true ↔ s.store.locks.isLocked id = true ∨ id ∈ tx.guard.ids := by
          simp [hlocks, Locks.isLocked]
        simp only [hheld, h.held id, List.mem_append, List.mem_singleton, or_and_right, exists_or, exists_eq_left]
      · intro a ha b hb id hida hidb
        rw [List.mem_singleton.1 hb] at hidb
        have hlocked : s.store.locks.isLocked id = true := (h.held id).2 ⟨a, ha, hida⟩
        rw [hnew id hidb] at hlocked
        cases hlocked
      · intro a ha
        rw [htable]
        rcases List.mem_append.1 ha with ha | ha
        · exact h.holds a ha
        · rwa [List.mem_singleton.1 ha]

/-- A transaction ends that has taken out rows that it holds, or none. -/
theorem Safe.finished {rest : List (Transaction F)} {t : Table (Range F)} {old new : List (Range F)} (h : s.Safe)
    (hlive : s.live.Perm (tx :: rest)) (hsw : s.store.table.Swapped old new t) (hold : ∀ r ∈ old, r.id ∈ tx.guard.ids) :
    Safe ⟨⟨t, s.store.locks.release tx.guard⟩, rest⟩ := by
  obtain ⟨hothers, hrest⟩ := List.pairwise_cons.1 ((hlive.pairwise_iff List.disjoint_symm).1 h.apart)
  refine ⟨hsw.valid, fun id => ?_, hrest, fun a ha => ?_⟩
  · rw [Locks.isLocked_release, h.held id]
    constructor
    · rintro ⟨⟨a, ha, hid⟩, hnot⟩
      rcases List.mem_cons.1 (hlive.mem_iff.1 ha) with rfl | ha
      · exact absurd hid hnot
      · exact ⟨a, ha, hid⟩
    · rintro ⟨a, ha, hid⟩
      exact ⟨⟨a, hlive.mem_iff.2 (List.mem_cons_of_mem tx ha), hid⟩, fun htx => hothers a ha htx hid⟩
  · have ha' : a ∈ s.live := hlive.mem_iff.2 (List.mem_cons_of_mem tx ha)
    exact (h.holds a ha').swapped hsw fun r hr hid => hothers a ha (hold r hr) hid

/-- A live transaction may be taken to come first. -/
theorem perm_eraseIdx {n : Nat} (h : s.live[n]? = some tx) : s.live.Perm (tx :: s.live.eraseIdx n) := by
  obtain ⟨hn, rfl⟩ := List.getElem?_eq_some_iff.1 h
  exact (List.getElem_cons_eraseIdx_perm hn).symm

/-! ## Committing -/

/-- A commit takes out rows that the transaction holds, exactly as it has read them, or changes no row. -/
theorem commit_ends (h : s.Safe) (htx : tx ∈ s.live) (remove : List Identifier) (add : List (Range F)) :
    (Store.commit tx remove add).Ends s.store
      (fun added t => t.locks = s.store.locks.release tx.guard ∧
        ∃ old : List (Range F), old.map (·.id) = remove ∧ (∀ r ∈ old, r ∈ tx.rows) ∧ s.store.table.Swapped old added t.table)
      (fun f t => t = s.store.release tx ∧ ((∃ id ∈ remove, id ∉ tx.guard.ids) → f.kind = .conflict)) := by
  unfold Store.commit
  rw [Store.ends_finishing]
  refine ((Store.write_ends h.valid tx remove add).and (Store.write_guarded tx remove add)).imp ?_ ?_
  · rintro added t ⟨⟨-, -, hlocks, old, hids, -, hsw⟩, hguards⟩
    refine ⟨congrArg (·.release tx.guard) hlocks, old, hids, fun r hr => ?_, hsw⟩
    have hid : r.id ∈ tx.guard.ids := hguards r.id (hids ▸ List.mem_map_of_mem hr)
    obtain ⟨r', hr', he⟩ := ((h.holds tx htx).guards r.id).1 hid
    rwa [← Table.eq_of_id ((h.holds tx htx).kept r' hr') (hsw.old_mem r hr) he]
  · rintro f t ⟨rfl, hreason⟩
    refine ⟨rfl, fun hnot => ?_⟩
    obtain ⟨id, -, -, rfl⟩ := hreason hnot
    rfl

/-! ## Moves -/

/-- Dropping a transaction keeps a shared store safe. -/
theorem Safe.dropped (h : s.Safe) {n : Nat} (hn : s.live[n]? = some tx) : Safe ⟨s.store.release tx, s.live.eraseIdx n⟩ := by
  have hsame : s.store.table.Swapped [] [] s.store.table := .refl h.valid
  exact h.finished (perm_eraseIdx hn) hsame (by simp)

/-- Committing a transaction keeps a shared store safe, whether it succeeds or not. -/
theorem Safe.committed (h : s.Safe) {n : Nat} (hn : s.live[n]? = some tx) (remove : List Identifier) (add : List (Range F)) :
    Safe ⟨((Store.commit tx remove add).run s.store).2, s.live.eraseIdx n⟩ := by
  have htx : tx ∈ s.live := List.mem_of_getElem? hn
  refine Ends.state (q := fun store => Safe ⟨store, s.live.eraseIdx n⟩) ?_
  refine (commit_ends h htx remove add).imp ?_ ?_
  · rintro added ⟨table, locks⟩ ⟨rfl, old, -, hold, hsw⟩
    exact h.finished (perm_eraseIdx hn) hsw fun r hr => ((h.holds tx htx).guards r.id).2 ⟨r, hold r hr, rfl⟩
  · rintro f _ ⟨rfl, -⟩
    exact h.dropped hn

/-- Inserting a row keeps a shared store safe, whether it succeeds or not. -/
theorem Safe.inserted (h : s.Safe) (r : Range F) : Safe ⟨((Store.insert r).run s.store).2, s.live⟩ := by
  refine Ends.state (q := fun store => Safe ⟨store, s.live⟩) ?_
  refine (Store.insert_ends h.valid r).imp ?_ ?_
  · rintro r' ⟨table, locks⟩ ⟨-, -, rfl, hsw⟩
    exact ⟨hsw.valid, h.held, h.apart, fun tx htx => (h.holds tx htx).swapped hsw (by simp)⟩
  · rintro f _ rfl
    exact h

/-- Every move that can be made keeps the invariant. -/
theorem Safe.after (h : s.Safe) (m : Move F) (hm : s.enabled m = true) : (s.after m).Safe := by
  cases m with
  | lock ids => exact h.locked hm
  | commit n remove add =>
    simp only [Shared.after]
    split
    · rename_i tx hn
      exact h.committed hn remove add
    · exact h
  | drop n =>
    simp only [Shared.after]
    split
    · rename_i tx hn
      exact h.dropped hn
    · exact h
  | insert r => exact h.inserted r

/-- Whatever interleaving there is, a shared store is safe. -/
theorem reached_safe {start : Store F} (hstart : start.AtRest) (hr : Reached start s) : s.Safe := by
  induction hr with
  | start => exact safe_start hstart
  | step m _ hm ih => exact ih.after m hm

/-- However the moves of all callers interleave, live transactions hold different rows, and each row that one of them has read is
still the row of the table with its identifier. A commit that goes through therefore takes out rows as its transaction has read
them. One that fails changes nothing, and one that names a row that its transaction does not hold fails with a conflict. -/
theorem no_lost_updates {start : Store F} (hstart : start.AtRest) (hr : Reached start s) :
    (s.live.Pairwise fun a b => a.guard.ids.Disjoint b.guard.ids) ∧
      ∀ tx ∈ s.live,
        (∀ id ∈ tx.guard.ids, ∃ r ∈ tx.rows, r.id = id) ∧ (∀ r ∈ tx.rows, s.store.table.get? r.id = some r) ∧
          ∀ remove add,
            (Store.commit tx remove add).Ends s.store
              (fun added t => (∀ id ∈ remove, id ∈ tx.guard.ids) ∧
                ∃ old : List (Range F), old.map (·.id) = remove ∧ (∀ r ∈ old, r ∈ tx.rows) ∧
                  s.store.table.Swapped old added t.table)
              (fun f t => t = s.store.release tx ∧ ((∃ id ∈ remove, id ∉ tx.guard.ids) → f.kind = .conflict)) := by
  have h := reached_safe hstart hr
  refine ⟨h.apart, fun tx htx => ⟨fun id => ((h.holds tx htx).guards id).1, fun r hr => ?_, fun remove add => ?_⟩⟩
  · exact h.valid.get?_eq_some_iff.2 ⟨(h.holds tx htx).kept r hr, rfl⟩
  · refine (commit_ends h htx remove add).imp ?_ fun _ _ hf => hf
    rintro added t ⟨-, old, hids, hold, hsw⟩
    refine ⟨fun id hid => ?_, old, hids, hold, hsw⟩
    obtain ⟨r, hr, rfl⟩ := List.mem_map.1 (hids ▸ hid)
    exact ((h.holds tx htx).guards r.id).2 ⟨r, hold r hr, rfl⟩

/-- Two callers hold one row each when a range is added and the first one renames its row. The row of the second one is as it was
read, and the second one cannot take out that of the first. -/
theorem no_lost_updates_sample :
    let row (id : Nat) (name : String) : Range .v4 :=
      .build (.ofBits id) name ⟨.ofBits .v4 (id * 256), .ofBits .v4 (id * 256 + 255), 24⟩ ⟨1, 64512, "AS64512"⟩ default
    let tx : Transaction .v4 := ⟨[row 2 "mail"], ⟨[.ofBits 2]⟩⟩
    let store : Store .v4 := ⟨Table.empty.putBack [row 2 "mail", row 3 "files", row 1 "www"], ⟨[.ofBits 2]⟩⟩
    run? ⟨.empty, []⟩ [.insert (row 1 "web"), .insert (row 2 "mail"), .lock [.ofBits 1], .lock [.ofBits 2, .ofBits 2],
      .insert (row 3 "files"), .commit 0 [.ofBits 1] [row 1 "www"]] = some ⟨store, [tx]⟩ ∧
      store.table.get? (.ofBits 2) = some (row 2 "mail") ∧
        (Store.commit tx [.ofBits 2, .ofBits 1] []).Ends store (fun _ _ => False)
          fun f t => t = ⟨store.table, .empty⟩ ∧ f.kind = .conflict := by
  intro row tx store
  have hrun : run? ⟨.empty, []⟩ [.insert (row 1 "web"), .insert (row 2 "mail"), .lock [.ofBits 1], .lock [.ofBits 2, .ofBits 2],
      .insert (row 3 "files"), .commit 0 [.ofBits 1] [row 1 "www"]] = some ⟨store, [tx]⟩ := by decide +kernel
  obtain ⟨-, hlive⟩ := no_lost_updates .empty (Reached.run .start hrun)
  obtain ⟨-, hkept, hcommit⟩ := hlive tx (by simp)
  have hnot : Identifier.ofBits 1 ∉ tx.guard.ids := by decide
  refine ⟨hrun, hkept (row 2 "mail") (by simp [tx]), (hcommit [.ofBits 2, .ofBits 1] []).imp ?_ ?_⟩
  · rintro _ _ ⟨hheld, -⟩
    exact hnot (hheld _ (by simp))
  · rintro f _ ⟨rfl, hkind⟩
    exact ⟨by decide, hkind ⟨_, by simp, hnot⟩⟩

end Shared

end AddressSpace
