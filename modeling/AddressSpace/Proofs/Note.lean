import AddressSpace.Note
import AddressSpace.Proofs.Paired
/-!
# Notes that look the same

A note is redacted when its admin remark is left out. Notes that look the same when they are redacted are remarked on alike
(`Notes.remark_paired`), and an unprivileged reader finds the same ones (`Notes.map_filter`).
-/

namespace AddressSpace

open AddressSpace.Action

namespace KeyMap

variable {α β : Type}

/-- The map with each value changed in its place. -/
def map (f : α → β) (m : KeyMap α) : KeyMap β :=
  ⟨m.entries.map fun e => (e.1, f e.2), List.pairwise_map.2 m.sorted⟩

/-- A key finds the image of what it found. -/
theorem get?_map (f : α → β) (m : KeyMap α) (k : Nat) : (m.map f).get? k = (m.get? k).map f := by
  obtain ⟨entries, sorted⟩ := m
  show lookup k (entries.map fun e => (e.1, f e.2)) = (lookup k entries).map f
  clear sorted
  induction entries with
  | nil => rfl
  | cons e es ih =>
    rw [List.map_cons, lookup, lookup]
    split
    · rfl
    · exact ih

theorem map_insert (f : α → β) (m : KeyMap α) (k : Nat) (v : α) : (m.insert k v).map f = (m.map f).insert k (f v) := by
  refine ext_get? fun j => ?_
  rw [get?_map, get?_insert, get?_insert, get?_map]
  split <;> rfl

/-- The values between two keys are the images of those that were there. -/
theorem between_map (f : α → β) (m : KeyMap α) (low high : Nat) : (m.map f).between low high = (m.between low high).map f := by
  unfold between map
  rw [List.filter_map, List.map_map, List.map_map]
  rfl

end KeyMap

variable {F : Family}

/-- The note without its admin remark. -/
def Note.redacted (n : Note F) : Note F := { n with adminRemark := "" }

namespace Notes

variable {m n : Notes F}

/-- The remarks that two callers make may differ in the text of the admin remark. -/
theorem remark_paired (h : m.map Note.redacted = n.map Note.redacted) (now : Instant) (address : Address F)
    (userRemark : Option String) {adminRemark adminRemark' : Option String} (hsome : adminRemark.isSome = adminRemark'.isSome) :
    (remark now address userRemark adminRemark).Paired (remark now address userRemark adminRemark') m n
      (fun m n => m.map Note.redacted = n.map Note.redacted) fun a b => a.redacted = b.redacted := by
  have hnone : adminRemark.isNone = adminRemark'.isNone := by
    rw [← Option.not_isSome, ← Option.not_isSome, hsome]
  have hold : ∀ start : Note F, ((get? m address).getD start).redacted = ((get? n address).getD start).redacted := by
    intro start
    have hget : (get? m address).map Note.redacted = (get? n address).map Note.redacted := by
      unfold get?
      rw [← KeyMap.get?_map, ← KeyMap.get?_map, h]
    replace hget := rel_of_map_eq hget
    generalize get? m address = x, get? n address = y at hget
    cases hget with
    | none => rfl
    | some hnote => exact hnote
  have hnew : ∀ a b : Note F, a.redacted = b.redacted →
      ({ a with userRemark := userRemark.getD a.userRemark, adminRemark := adminRemark.getD a.adminRemark,
                updatedAt := now } : Note F).redacted =
        ({ b with userRemark := userRemark.getD b.userRemark, adminRemark := adminRemark'.getD b.adminRemark,
                  updatedAt := now } : Note F).redacted := fun a b hab =>
    congrArg (fun a : Note F => { a with userRemark := userRemark.getD a.userRemark, updatedAt := now }) hab
  unfold remark
  rw [hnone]
  refine paired_ite .rfl (fun _ => .error _ h) fun _ => paired_get_bind ?_
  refine Paired.bind (paired_set ?_) fun _ _ _ _ _ h => paired_pure h (hnew _ _ (hold _))
  rw [KeyMap.map_insert, KeyMap.map_insert, h, hnew _ _ (hold _)]

/-- An unprivileged reader finds notes that look the same, in the same order. -/
theorem map_filter (h : m.map Note.redacted = n.map Note.redacted) (start stop : Option (Address F)) (term : Option String) :
    (filter m start stop term false).map Note.redacted = (filter n start stop term false).map Note.redacted := by
  have hfilter : ∀ notes : List (Note F), (notes.filter fun a => term.all (found · false a)).map Note.redacted =
      (notes.map Note.redacted).filter fun a => term.all (found · false a) := fun notes => by
    rw [List.filter_map]
    rfl
  unfold filter
  rw [hfilter, hfilter, ← KeyMap.between_map, ← KeyMap.between_map, h]

end Notes

end AddressSpace
