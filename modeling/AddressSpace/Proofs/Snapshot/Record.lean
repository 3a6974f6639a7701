import AddressSpace.Proofs.Snapshot.Rows
/-!
# Records that are encoded are decoded

The members of a record are its own and those of its event. For no kind of event have two of them the same name
(`Record.names_nodup`), so that the event is found among them (`Record.event_members`), and what belongs to the event is passed over
when the record's own fields are read (`Event.admitted_members`).
-/

namespace AddressSpace

open Json (Encodes Admitted)
open Json.Fields.Encodes (const required nullable)

variable {F : Family}

/-! ## Events -/

/-- The members of an event are decoded as the event, for its kind. -/
theorem Event.encodes_members (e : Event F) : Json.Fields.Encodes (Decode.eventFields F e.kind) e.members e := by
  have hspans (l : List (Span F)) : Encodes (.list (Decode.span F)) (Json.ofList (l.map Span.toJson)) l :=
    .ofList fun s _ => s.encodes_toJson
  cases e with
  | add range => exact const Event.add |>.and (required "range" range.encodes_toJson)
  | change old new =>
    exact const Event.change |>.and (required "old" old.encodes_toJson) |>.and (required "new" new.encodes_toJson)
  | delete range org =>
    exact const Event.delete |>.and (required "range" range.encodes_toJson) |>.and (nullable "org" (Consumer.encodes_ofOption org))
  | split source subnets =>
    exact const Event.split |>.and (required "source" source.encodes_toJson) |>.and (required "subnets" (hspans subnets))
  | merge merged members =>
    exact const Event.merge |>.and (required "merged" merged.encodes_toJson) |>.and (required "members" (hspans members))
  | reserve range org before =>
    exact const Event.reserve |>.and (required "range" range.encodes_toJson) |>.and (required "org" org.encodes_toJson)
      |>.and (required "from" (before.encodes_text _))
  | assign range org before =>
    exact const Event.assign |>.and (required "range" range.encodes_toJson) |>.and (required "org" org.encodes_toJson)
      |>.and (required "from" (before.encodes_text _))
  | recover range org before =>
    exact const Event.recover |>.and (required "range" range.encodes_toJson)
      |>.and (nullable "org" (Consumer.encodes_ofOption org)) |>.and (required "from" (before.encodes_text _))

theorem Span.admitted_toJson (s : Span F) (depth : Nat) : Admitted (depth + 1) s.toJson := by
  have hplen : s.plen.toNat < 2 ^ 53 := Nat.lt_trans s.plen.toNat_lt (by decide)
  refine .ofMembers ?_
  simp only [members, List.forall_mem_cons]
  exact ⟨.string depth _, .string depth _, .ofNat depth hplen, fun _ h => absurd h List.not_mem_nil⟩

theorem Consumer.admitted_toJson (c : Consumer) (depth : Nat) : Admitted (depth + 1) c.toJson := by
  refine .ofMembers ?_
  simp only [List.forall_mem_cons]
  exact ⟨.string depth _, .string depth _, fun _ h => absurd h List.not_mem_nil⟩

/-- The members of an event are passed over within the depth of an event. -/
theorem Event.admitted_members (e : Event F) : ∀ m ∈ e.members, Admitted Decode.eventDepth m.2 := by
  have hspan (s : Span F) : Admitted Decode.eventDepth s.toJson := s.admitted_toJson _
  have hspans (l : List (Span F)) : Admitted Decode.eventDepth (Json.ofList (l.map Span.toJson)) :=
    .ofList (List.forall_mem_map.2 fun s _ => s.admitted_toJson _)
  have horg (c : Consumer) : Admitted Decode.eventDepth c.toJson := c.admitted_toJson _
  cases e <;> simp [members, hspan, hspans, horg, Admitted.ofOption horg, Admitted.string]

/-! ## Records -/

theorem EventKind.eventKind?_text (kind : EventKind) : Decode.eventKind? (.string kind.text) = some kind := by
  cases kind <;> decide

namespace Record

/-- The members of a record beside those of its event and the event's kind. -/
def ownMembers (r : Record F) : List (String × Json) :=
  [("id", r.id.toJson), ("user", Json.ofOption .string r.user), ("remark", .string r.remark), ("created_at", r.createdAt.toJson)]

/-- The kind of the event and its members. -/
def eventMembers (r : Record F) : List (String × Json) := ("record_type", .string r.event.kind.text) :: r.event.members

/-- All members of a record, in the order in which they are written. -/
def members (r : Record F) : List (String × Json) := r.ownMembers.take 1 ++ r.eventMembers ++ r.ownMembers.drop 1

/-- The members of a record that are not those of its event are decoded as what they make of an event. -/
theorem encodes_ownMembers (r : Record F) (h : r.createdAt.InFourDigits) :
    Json.Fields.Encodes (Decode.recordFields F) r.ownMembers fun event => ⟨r.id, event, r.user, r.remark, r.createdAt⟩ :=
  const _
    |>.and (required "id" r.id.encodes_toJson)
    |>.and (nullable "user" (.ofOption (fun s _ => .string s) nofun))
    |>.and (required "remark" (.string r.remark))
    |>.and (required "created_at" (Instant.encodes_toJson h))

/-- The members of a record are its own and those of its event, in another order. -/
theorem members_perm (r : Record F) : r.members.Perm (r.ownMembers ++ r.eventMembers) := by
  have hmoved : (r.eventMembers ++ r.ownMembers.drop 1).Perm (r.ownMembers.drop 1 ++ r.eventMembers) := List.perm_append_comm
  have := hmoved.append_left (r.ownMembers.take 1)
  rwa [← List.append_assoc, ← List.append_assoc, List.take_append_drop] at this

/-- A member of a record is its own or one of its event. -/
theorem mem_members {r : Record F} {m : String × Json} : m ∈ r.members ↔ m ∈ r.ownMembers ∨ m ∈ r.eventMembers :=
  r.members_perm.mem_iff.trans List.mem_append

/-- The fields of records, the kind of an event and the fields of events of the kind have different names. -/
theorem names_nodup (F : Family) (kind : EventKind) :
    ((Decode.recordFields F).members.map (·.name) ++
      "record_type" :: (Decode.eventFields F kind).members.map (·.name)).Nodup := by
  cases F <;> cases kind <;> decide

/-- No name of a member occurs twice. -/
theorem parts_nodup (r : Record F) : ((r.ownMembers ++ r.eventMembers).map (·.1)).Nodup := by
  have hnames := names_nodup F r.event.kind
  rw [r.event.encodes_members.names] at hnames
  rw [List.map_append]
  exact hnames

/-- Only the members of the event have names that no field of records has. -/
theorem filter_members (r : Record F) :
    (Json.named r.members).filter (fun m => !m.1.any ((Decode.recordFields F).members.map (·.name)).contains) =
      Json.named r.eventMembers := by
  obtain ⟨-, -, hne⟩ := List.nodup_append.1 (List.map_append ▸ r.parts_nodup)
  have hown : ∀ m ∈ r.ownMembers, m.1 ∈ (Decode.recordFields F).members.map (·.name) := fun m hm => List.mem_map_of_mem hm
  have hevent : ∀ m ∈ r.eventMembers, m.1 ∉ (Decode.recordFields F).members.map (·.name) := fun m hm h =>
    hne m.1 h m.1 (List.mem_map_of_mem hm) rfl
  rw [Json.named, List.filter_map, members, List.filter_append, List.filter_append, List.filter_eq_nil_iff.2,
    List.filter_eq_self.2, List.filter_eq_nil_iff.2, List.nil_append, List.append_nil, Json.named]
  · intro m hm
    simpa using hown m (List.mem_of_mem_drop hm)
  · intro m hm
    simpa using hevent m hm
  · intro m hm
    simpa using hown m (List.mem_of_mem_take hm)

/-- The event is found among the members of its record. -/
theorem event_members (r : Record F) (path : Json.Path) :
    Decode.event F path (Json.named r.members) = .ok r.event := by
  obtain ⟨-, hnodup, -⟩ := List.nodup_append.1 (List.map_append ▸ r.parts_nodup)
  obtain ⟨hkind, hevent⟩ := List.nodup_cons.1 hnodup
  have hother : ∀ m ∈ r.event.members, m.1 ≠ "record_type" := fun m hm h => hkind (List.mem_map.2 ⟨m, hm, h⟩)
  have hone : (Json.named r.eventMembers).filter (·.1 == some "record_type") =
      [(some "record_type", Json.string r.event.kind.text)] := by
    rw [eventMembers, Json.named_cons, List.filter_cons_of_pos rfl, List.filter_eq_nil_iff.2]
    exact List.forall_mem_map.2 fun m hm => by simpa using hother m hm
  have hrest : (Json.named r.eventMembers).filter (·.1 != some "record_type") = Json.named r.event.members := by
    rw [eventMembers, Json.named_cons, List.filter_cons_of_neg (by simp), List.filter_eq_self.2]
    exact List.forall_mem_map.2 fun m hm => by simpa using hother m hm
  have hobject : (Decode.eventFields F r.event.kind).object path (Json.ofMembers r.event.members) = .ok r.event :=
    (r.event.encodes_members.object (r.event.encodes_members.names ▸ hevent)).decoded path
  rw [Json.ofMembers_eq] at hobject
  simp only [Decode.event, r.filter_members, hone, hrest, EventKind.eventKind?_text, hobject]
  rfl

/-- What is written of the event can be read and passed over. -/
theorem sound_eventMembers (r : Record F) : ∀ m ∈ r.eventMembers, Json.Sound m.2 ∧ Admitted Decode.eventDepth m.2 := by
  refine List.forall_mem_cons.2 ⟨⟨.string _, .string _ _⟩, fun m hm => ?_⟩
  exact ⟨r.event.encodes_members.sound m hm, r.event.admitted_members m hm⟩

/-- The times in a record. -/
def instants (r : Record F) : List Instant := [r.createdAt]

/-- A record of the years 0 to 9999 is decoded as itself. -/
theorem encodes_toJson (r : Record F) (h : ∀ t ∈ r.instants, t.InFourDigits) : Encodes (Decode.record F) r.toJson r := by
  have hown := r.encodes_ownMembers (h _ List.mem_cons_self)
  have hsub : r.ownMembers ⊆ r.members := fun m hm => mem_members.2 (.inl hm)
  have hnodup : (r.members.map (·.1)).Nodup := (r.members_perm.map _).nodup_iff.2 r.parts_nodup
  have hsound : ∀ m ∈ r.members, Json.Sound m.2 := fun m hm =>
    (mem_members.1 hm).elim (hown.sound m) fun hm => (r.sound_eventMembers m hm).1
  have hadmitted : ∀ m ∈ r.members, m.1 ∉ (Decode.recordFields F).members.map (·.name) →
      Admitted Decode.eventDepth m.2 := by
    intro m hm hother
    rcases mem_members.1 hm with hm | hm
    · exact absurd (hown.names ▸ List.mem_map_of_mem hm) hother
    · exact (r.sound_eventMembers m hm).2
  refine ⟨.ofMembers hsound, fun path => ?_⟩
  have hcheck : Json.Fields.check (Decode.recordFields F).members (Json.checkContent Decode.eventDepth) path []
      (Json.named r.members) .closed = .ok () :=
    Json.Fields.check_eq_ok hnodup (fun m hm field hfield hname => hown.check_of_mem hsub hnodup hm hfield hname) hadmitted
      (fun _ _ => List.not_mem_nil) path
  have hbuild := hown.built_of_subset hsub hnodup path
  have hevent := r.event_members path
  show Decode.record F path (Json.ofMembers r.members) = .ok r
  simp only [Json.ofMembers_eq, Decode.record, hcheck, hbuild, hevent]
  rfl

end Record

end AddressSpace
