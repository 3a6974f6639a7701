import Mathlib.Data.List.Nodup
import AddressSpace.Locks
/-!
# Who holds which rows

Callers come and go in any order, each of them coming only when none of its rows is held (`LockRoom.After`). What is held is one set
of rows for all callers, and whoever goes takes its rows out of the set. That this frees the rows of nobody else rests on no row
being held by two callers at a time (`LockRoom.Exclusive`), and that in turn on every caller waiting until all of its rows are free.
Who is there and holds what follows from the turns alone (`LockRoom.Recalls`), and with it all that is locked
(`LockRoom.rows_accounted`).
-/

namespace AddressSpace

namespace Locks

/-- The members of a list once each, in the order in which they occur first. -/
structure FirstOccurrences (ids ds : List Identifier) : Prop where
  mem_iff : ∀ id, id ∈ ds ↔ id ∈ ids
  nodup : ds.Nodup
  ordered : ds.Pairwise fun a b => ids.idxOf a < ids.idxOf b

/-- Leaving out repetitions gives the identifiers in the order in which they occur first. -/
theorem firstOccurrences_distinct (ids : List Identifier) : FirstOccurrences ids (distinct ids) where
  mem_iff := fun _ => mem_distinct
  nodup := nodup_distinct ids
  ordered := by
    induction ids with
    | nil => exact .nil
    | cons id ids ih =>
      have hidx : ∀ a ∈ (distinct ids).filter (· != id), (id :: ids).idxOf a = ids.idxOf a + 1 := by
        intro a ha
        have hne : a ≠ id := by simpa using (List.mem_filter.1 ha).2
        exact List.idxOf_cons_ne ids hne.symm
      rw [distinct, List.pairwise_cons]
      refine ⟨fun a ha => ?_, (ih.filter _).imp_of_mem fun ha hb hab => ?_⟩
      · rw [List.idxOf_cons_self, hidx a ha]
        exact Nat.succ_pos _
      · rw [hidx _ ha, hidx _ hb]
        exact Nat.succ_lt_succ hab

/-- No other list is made of the members in this way. -/
theorem firstOccurrences_iff {ids ds : List Identifier} : FirstOccurrences ids ds ↔ distinct ids = ds := by
  constructor
  · intro h
    have hd := firstOccurrences_distinct ids
    have hperm : (distinct ids).Perm ds :=
      (List.perm_ext_iff_of_nodup hd.nodup h.nodup).2 fun id => (hd.mem_iff id).trans (h.mem_iff id).symm
    exact hperm.eq_of_pairwise (fun a b _ _ hab hba => absurd hab (Nat.lt_asymm hba)) hd.ordered h.ordered
  · rintro rfl
    exact firstOccurrences_distinct ids

end Locks

/-- A list with one more member at its end has that one behind all others. -/
theorem getElem?_concat_eq_some_iff {α : Type} {l : List α} {a x : α} {n : Nat} :
    (l ++ [a])[n]? = some x ↔ l[n]? = some x ∨ n = l.length ∧ a = x := by
  rcases Nat.lt_trichotomy n l.length with h | rfl | h
  · simp [List.getElem?_append_left h, Nat.ne_of_lt h]
  · simp
  · have hout : (l ++ [a]).length ≤ n := by simpa [Nat.succ_le_iff] using h
    simp [List.getElem?_eq_none hout, List.getElem?_eq_none (Nat.le_of_lt h), Nat.ne_of_gt h]

namespace LockRoom

variable {r r' : LockRoom}

/-- The `n`-th caller is there, and holds rows by the guard. -/
def Live (r : LockRoom) (n : Nat) (g : Guard) : Prop := r.guards[n]? = some (some g)

/-- A caller comes and asks for rows, or the `n`-th caller goes. -/
inductive Turn where
  | enter (ids : List Identifier)
  | leave (n : Nat)
  deriving DecidableEq

/-- The rows that the callers have asked for, by the numbers of the callers. -/
def requests (turns : List Turn) : List (List Identifier) :=
  turns.filterMap fun
    | .enter ids => some ids
    | .leave _ => none

/-- What turns lead to that begin where nothing is held. A caller waits with its turn until its rows are free, and goes only once. -/
inductive After : List Turn → LockRoom → Prop where
  | start : After [] .empty
  | enter {turns : List Turn} {r : LockRoom} (ids : List Identifier) :
      After turns r → r.locks.areFree ids = true → After (turns ++ [.enter ids]) (r.enter ids).2
  | leave {turns : List Turn} {r r' : LockRoom} (n : Nat) :
      After turns r → r.leave? n = some r' → After (turns ++ [.leave n]) r'

/-! ## One turn -/

/-- Whoever comes is there beside the others, and has the guard that it is given. -/
theorem live_enter {ids : List Identifier} {n : Nat} {g : Guard} :
    (r.enter ids).2.Live n g ↔ r.Live n g ∨ n = r.guards.length ∧ (r.enter ids).1 = g := by
  show (r.guards ++ [some (r.enter ids).1])[n]? = some (some g) ↔ _
  rw [getElem?_concat_eq_some_iff, Option.some.injEq]
  rfl

/-- A guard that is dropped is one that is alive, and dropping it releases its rows. -/
theorem leave?_eq_some_iff {n : Nat} :
    r.leave? n = some r' ↔ ∃ g, r.Live n g ∧ r' = ⟨r.locks.release g, r.guards.set n none⟩ := by
  unfold leave? Live
  split
  · rename_i g hg
    simp [hg, eq_comm]
  · rename_i hnone
    simp only [reduceCtorEq, false_iff]
    rintro ⟨g, hg, -⟩
    exact hnone g hg

/-- Whoever goes is not there any more, and the others stay. -/
theorem live_leave {n m : Nat} {g : Guard} (h : r.leave? n = some r') : r'.Live m g ↔ m ≠ n ∧ r.Live m g := by
  obtain ⟨_, -, rfl⟩ := leave?_eq_some_iff.1 h
  show (r.guards.set n none)[m]? = some (some g) ↔ m ≠ n ∧ r.guards[m]? = some (some g)
  rw [List.getElem?_set]
  split
  · rename_i hnm
    split <;> simp [hnm]
  · rename_i hnm
    exact ⟨fun hg => ⟨Ne.symm hnm, hg⟩, And.right⟩

/-! ## No row is held twice -/

/-- The callers that are there hold all that is locked, and no two of them the same row. -/
structure Exclusive (r : LockRoom) : Prop where
  locked_iff : ∀ id, r.locks.isLocked id = true ↔ ∃ n g, r.Live n g ∧ id ∈ g.ids
  eq_of_mem : ∀ {m n a b id}, r.Live m a → r.Live n b → id ∈ a.ids → id ∈ b.ids → m = n

theorem exclusive_empty : Exclusive .empty where
  locked_iff := fun id => by simp [Live, LockRoom.empty, Locks.isLocked, Locks.empty]
  eq_of_mem := fun h => by simp [Live, LockRoom.empty] at h

/-- Nobody who is there holds a row that is free. -/
theorem Exclusive.notMem_of_free (h : r.Exclusive) {ids : List Identifier} (hfree : r.locks.areFree ids = true) {n : Nat}
    {g : Guard} (hg : r.Live n g) : ∀ id ∈ ids, id ∉ g.ids := by
  intro id hid hmem
  have hunlocked : r.locks.isLocked id = false := by simpa using List.all_eq_true.1 hfree id hid
  rw [(h.locked_iff id).2 ⟨n, g, hg, hmem⟩] at hunlocked
  cases hunlocked

/-- Whoever comes holds rows that nobody held. -/
theorem Exclusive.enter (h : r.Exclusive) {ids : List Identifier} (hfree : r.locks.areFree ids = true) :
    (r.enter ids).2.Exclusive where
  locked_iff := by
    intro id
    have hgiven : id ∈ (r.enter ids).1.ids ↔ id ∈ ids := Locks.mem_distinct
    have hlocks : (r.enter ids).2.locks = (r.locks.acquire ids).2 := rfl
    rw [hlocks, Locks.isLocked_acquire, h.locked_iff]
    simp only [live_enter, or_and_right, exists_or, and_assoc, exists_and_left, exists_eq_left, exists_eq_left', hgiven]
  eq_of_mem := by
    intro m n a b id hm hn ha hb
    have hapart : ∀ {k g}, r.Live k g → id ∈ g.ids → id ∉ (r.enter ids).1.ids := fun hk hg hid =>
      h.notMem_of_free hfree hk id (Locks.mem_distinct.1 hid) hg
    rcases live_enter.1 hm with hm | ⟨rfl, rfl⟩ <;> rcases live_enter.1 hn with hn | ⟨rfl, rfl⟩
    · exact h.eq_of_mem hm hn ha hb
    · exact absurd hb (hapart hm ha)
    · exact absurd ha (hapart hn hb)
    · rfl

/-- The rows of the caller that goes are taken out of the set, in which they stand for that caller only. -/
theorem Exclusive.leave (h : r.Exclusive) {n : Nat} (hleave : r.leave? n = some r') : r'.Exclusive where
  locked_iff := by
    intro id
    simp only [live_leave hleave]
    obtain ⟨g, hg, rfl⟩ := leave?_eq_some_iff.1 hleave
    rw [Locks.isLocked_release, h.locked_iff]
    constructor
    · rintro ⟨⟨m, a, ha, hid⟩, hnot⟩
      refine ⟨m, a, ⟨?_, ha⟩, hid⟩
      rintro rfl
      obtain rfl : a = g := by simpa [Live] using ha.symm.trans hg
      exact hnot hid
    · rintro ⟨m, a, ⟨hmn, ha⟩, hid⟩
      exact ⟨⟨m, a, ha, hid⟩, fun hidg => hmn (h.eq_of_mem ha hg hid hidg)⟩
  eq_of_mem := fun hm hn => h.eq_of_mem ((live_leave hleave).1 hm).2 ((live_leave hleave).1 hn).2

/-- Whatever turns have been taken, no row has two holders. -/
theorem exclusive_of_after {turns : List Turn} (h : After turns r) : r.Exclusive := by
  induction h with
  | start => exact exclusive_empty
  | enter ids _ hfree ih => exact ih.enter hfree
  | leave n _ hleave ih => exact ih.leave hleave

/-! ## Who is there -/

theorem requests_enter {turns : List Turn} {ids : List Identifier} :
    requests (turns ++ [.enter ids]) = requests turns ++ [ids] := by
  simp [requests]

theorem requests_leave {turns : List Turn} {n : Nat} : requests (turns ++ [.leave n]) = requests turns := by
  simp [requests]

/-- The callers that have come and not gone are there, with the rows that they have asked for. -/
structure Recalls (turns : List Turn) (r : LockRoom) : Prop where
  numbered : r.guards.length = (requests turns).length
  came : ∀ n, .leave n ∈ turns → n < r.guards.length
  live_iff : ∀ n g, r.Live n g ↔ .leave n ∉ turns ∧ ∃ ids, (requests turns)[n]? = some ids ∧ Locks.distinct ids = g.ids

theorem recalls_empty : Recalls [] .empty where
  numbered := rfl
  came := fun _ h => by simp at h
  live_iff := fun n g => by simp [Live, LockRoom.empty, requests]

/-- An acquisition is remembered: whoever was inside still holds what was asked for, and so does the one who comes. -/
theorem Recalls.enter {turns : List Turn} (h : Recalls turns r) (ids : List Identifier) :
    Recalls (turns ++ [.enter ids]) (r.enter ids).2 where
  numbered := by simp [requests_enter, LockRoom.enter, h.numbered]
  came := by
    intro n hn
    have hlt := h.came n (by simpa using hn)
    simp only [LockRoom.enter, List.length_append]
    omega
  live_iff := by
    intro n g
    have hgiven : (r.enter ids).1 = g ↔ Locks.distinct ids = g.ids := by
      obtain ⟨ds⟩ := g
      exact Iff.of_eq (Guard.mk.injEq _ _)
    -- nobody has gone whose number is still to come
    have hnew : n = r.guards.length → Turn.leave n ∉ turns := fun he hn => Nat.ne_of_lt (h.came n hn) he
    have hasked : (∃ ids', (requests turns ++ [ids])[n]? = some ids' ∧ Locks.distinct ids' = g.ids) ↔
        (∃ ids', (requests turns)[n]? = some ids' ∧ Locks.distinct ids' = g.ids) ∨
          n = r.guards.length ∧ Locks.distinct ids = g.ids := by
      simp only [getElem?_concat_eq_some_iff, h.numbered, or_and_right, exists_or, and_assoc, exists_and_left, exists_eq_left']
    have hgone : Turn.leave n ∉ turns ++ [.enter ids] ↔ Turn.leave n ∉ turns := by simp
    rw [live_enter, h.live_iff, hgiven, requests_enter, hasked, hgone, and_or_left]
    exact or_congr_right (and_iff_right_of_imp fun hlast => hnew hlast.1).symm

/-- Dropping a guard is remembered: all others still hold what they asked for. -/
theorem Recalls.leave {turns : List Turn} (h : Recalls turns r) {n : Nat} (hleave : r.leave? n = some r') :
    Recalls (turns ++ [.leave n]) r' := by
  obtain ⟨g, hg, he⟩ := leave?_eq_some_iff.1 hleave
  have hlength : r'.guards.length = r.guards.length := by simp [he]
  refine ⟨hlength.trans (h.numbered.trans (congrArg _ requests_leave.symm)), fun m hm => ?_, fun m a => ?_⟩
  · rw [hlength]
    rcases List.mem_append.1 hm with hm | hm
    · exact h.came m hm
    · obtain rfl : m = n := by simpa using hm
      exact (List.getElem?_eq_some_iff.1 hg).1
  · rw [live_leave hleave, h.live_iff, requests_leave]
    simp only [List.mem_append, List.mem_singleton, Turn.leave.injEq, not_or]
    tauto

/-- Whatever turns have been taken, everybody inside holds what was asked for at the turn of entering. -/
theorem recalls_of_after {turns : List Turn} (h : After turns r) : Recalls turns r := by
  induction h with
  | start => exact recalls_empty
  | enter ids _ _ ih => exact ih.enter ids
  | leave n _ hleave ih => exact ih.leave hleave

/-! ## What is locked -/

/-- Where no row has two holders, a row is locked just when exactly one guard holds it. -/
theorem Exclusive.locked_iff_unique (h : r.Exclusive) (id : Identifier) :
    r.locks.isLocked id = true ↔ ∃! n, ∃ g, r.Live n g ∧ id ∈ g.ids := by
  rw [h.locked_iff]
  constructor
  · rintro ⟨n, g, hg, hid⟩
    refine ⟨n, ⟨g, hg, hid⟩, ?_⟩
    rintro m ⟨a, ha, hida⟩
    exact h.eq_of_mem ha hg hida hid
  · rintro ⟨n, ⟨g, hg, hid⟩, -⟩
    exact ⟨n, g, hg, hid⟩

/-- A caller need not wait unless somebody who is there holds one of its rows. -/
theorem Exclusive.areFree_iff (h : r.Exclusive) {ids : List Identifier} :
    r.locks.areFree ids = true ↔ ∀ n g, r.Live n g → ids.Disjoint g.ids := by
  constructor
  · exact fun hfree n g hg id hid => h.notMem_of_free hfree hg id hid
  · intro hnone
    refine List.all_eq_true.2 fun id hid => ?_
    rw [Bool.not_eq_true', ← Bool.not_eq_true, h.locked_iff]
    rintro ⟨n, g, hg, hidg⟩
    exact hnone n g hg hid hidg

/-- Whoever goes frees its own rows, and locks none. -/
theorem Exclusive.freed_iff (h : r.Exclusive) {n : Nat} {g : Guard} (hg : r.Live n g) (id : Identifier) :
    (r.locks.isLocked id = true ∧ (r.locks.release g).isLocked id = false ↔ id ∈ g.ids) ∧
      ((r.locks.release g).isLocked id = true → r.locks.isLocked id = true) := by
  rw [← Bool.not_eq_true, Locks.isLocked_release]
  refine ⟨⟨fun hfreed => ?_, fun hid => ⟨?_, fun hkept => hkept.2 hid⟩⟩, And.left⟩
  · by_contra hid
    exact hfreed.2 ⟨hfreed.1, hid⟩
  · exact (h.locked_iff id).2 ⟨n, g, hg, hid⟩

/-- Where nobody is inside, no row is locked. -/
theorem Exclusive.locks_eq_empty (h : r.Exclusive) (hnone : ∀ n g, ¬r.Live n g) : r.locks = .empty := by
  have hheld : r.locks.held = [] := by
    refine List.eq_nil_iff_forall_not_mem.2 fun id hid => ?_
    obtain ⟨n, g, hg, -⟩ := (h.locked_iff id).1 (List.contains_iff_mem.2 hid)
    exact hnone n g hg
  exact congrArg Locks.mk hheld

/-- However callers come and go, a row is locked just when exactly one of those who are there holds it, and no two of them hold the
same row. Those are there who have come and not gone, and they hold the rows that they have asked for, once each in the order in
which they occur first. A caller can come just when nobody holds one of its rows, and is there then with the guard that it is given.
Whoever goes frees its own rows and no others, and when nobody is there, nothing is locked. -/
theorem rows_accounted {turns : List Turn} (h : After turns r) :
    (∀ id, r.locks.isLocked id = true ↔ ∃! n, ∃ g, r.Live n g ∧ id ∈ g.ids) ∧
      (∀ m n a b, r.Live m a → r.Live n b → m ≠ n → a.ids.Disjoint b.ids) ∧
      (∀ n g, r.Live n g ↔
        .leave n ∉ turns ∧ ∃ ids, (requests turns)[n]? = some ids ∧ Locks.FirstOccurrences ids g.ids) ∧
      (∀ ids, (r.locks.areFree ids = true ↔ ∀ n g, r.Live n g → ids.Disjoint g.ids) ∧
        ∀ n g, (r.enter ids).2.Live n g ↔ r.Live n g ∨ n = r.guards.length ∧ (r.enter ids).1 = g) ∧
      (∀ n g, r.Live n g → ∃ r', r.leave? n = some r' ∧ (∀ m a, r'.Live m a ↔ m ≠ n ∧ r.Live m a) ∧
        ∀ id, (r.locks.isLocked id = true ∧ r'.locks.isLocked id = false ↔ id ∈ g.ids) ∧
          (r'.locks.isLocked id = true → r.locks.isLocked id = true)) ∧
      ((∀ n g, ¬r.Live n g) → r.locks = .empty) := by
  have hx := exclusive_of_after h
  refine ⟨hx.locked_iff_unique, ?_, ?_, fun ids => ⟨hx.areFree_iff, fun _ _ => live_enter⟩, ?_, hx.locks_eq_empty⟩
  · intro m n a b ha hb hmn id hida hidb
    exact hmn (hx.eq_of_mem ha hb hida hidb)
  · intro n g
    simp only [Locks.firstOccurrences_iff]
    exact (recalls_of_after h).live_iff n g
  · intro n g hg
    have hleave : r.leave? n = some ⟨r.locks.release g, r.guards.set n none⟩ := leave?_eq_some_iff.2 ⟨g, hg, rfl⟩
    exact ⟨_, hleave, fun _ _ => live_leave hleave, hx.freed_iff hg⟩

/-- Two callers come, who name some of their rows twice. The first one goes, so that a third one can come who asks for one of its
rows. -/
theorem rows_accounted_sample :
    let row := Identifier.ofBits
    let turns : List Turn := [.enter [row 1, row 1, row 2, row 1], .enter [row 5, row 4, row 5], .leave 0, .enter [row 3, row 2]]
    let r : LockRoom := ⟨⟨[row 5, row 4, row 3, row 2]⟩, [none, some ⟨[row 5, row 4]⟩, some ⟨[row 3, row 2]⟩]⟩
    After turns r ∧ (∃! n, ∃ g, r.Live n g ∧ row 2 ∈ g.ids) ∧
      Locks.FirstOccurrences [row 5, row 4, row 5] [row 5, row 4] ∧
        ∃ r', r.leave? 1 = some r' ∧
          ∀ id, r.locks.isLocked id = true ∧ r'.locks.isLocked id = false ↔ id ∈ [row 5, row 4] := by
  intro row turns r
  have hturns : After turns r := .enter _ (.leave 0 (.enter _ (.enter _ .start rfl) rfl) rfl) rfl
  obtain ⟨hlocked, -, hlive, -, hleave, -⟩ := rows_accounted hturns
  refine ⟨hturns, (hlocked (row 2)).1 (by decide +kernel), ?_, ?_⟩
  · obtain ⟨-, ids, hids, hfirst⟩ := (hlive 1 ⟨[row 5, row 4]⟩).1 rfl
    obtain rfl : [row 5, row 4, row 5] = ids := Option.some.inj hids
    exact hfirst
  · obtain ⟨r', hr', -, hfreed⟩ := hleave 1 ⟨[row 5, row 4]⟩ rfl
    exact ⟨r', hr', fun id => (hfreed id).1⟩

end LockRoom

end AddressSpace
