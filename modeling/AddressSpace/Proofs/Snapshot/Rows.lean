import AddressSpace.Proofs.Address.Text
import AddressSpace.Proofs.Identifier
import AddressSpace.Proofs.Instant
import AddressSpace.Proofs.Json.Decoder
import AddressSpace.Snapshot.Decode
import AddressSpace.Snapshot.Encode
/-!
# Rows that are encoded are decoded

Every row is encoded by an object that its decoder takes for the row, if the instants of the row lie in years of four digits. Its
bounds are members of the row itself (`Span.encodes_members`); elsewhere bounds are objects of their own (`Span.encodes_toJson`).
-/

namespace AddressSpace

open Json (Encodes)
open Json.Fields.Encodes (const required nullable)

variable {F : Family}

/-! ## Single values -/

theorem Identifier.encodes_toJson (i : Identifier) : Encodes Decode.identifier i.toJson i := .text i.ofText?_text

theorem Address.encodes_toJson (a : Address F) : Encodes (Decode.address F) a.toJson a := .text a.ofText?_text

/-- A time of the years 0 to 9999 is decoded as itself. -/
theorem Instant.encodes_toJson {t : Instant} (h : t.InFourDigits) : Encodes Decode.instant t.toJson t := .text (ofText?_text h)

/-- A status is decoded as itself. -/
theorem Status.encodes_text (s : Status) (unit : Json.Decoder Unit) : Encodes (Decode.status unit) (.string s.text) s :=
  .choice (by cases s <;> decide) unit

theorem Rollup.encodes_text (r : Rollup) : Encodes Decode.rollup (.string r.text) r := .choice (by cases r <;> decide) _

/-! ## Parts of rows -/

/-- The members of a span are decoded as the span. -/
theorem Span.encodes_members (s : Span F) : Json.Fields.Encodes (Decode.spanFields F) s.members s :=
  const Span.mk
    |>.and (required "start" s.start.encodes_toJson)
    |>.and (required "end" s.stop.encodes_toJson)
    |>.and (required "prefix" (.word8 s.plen))

theorem Span.encodes_toJson (s : Span F) : Encodes (Decode.span F) s.toJson s :=
  s.encodes_members.objectOrArray (by cases F <;> decide)

theorem Consumer.encodes_toJson (c : Consumer) : Encodes Decode.consumer c.toJson c := by
  refine Json.Fields.Encodes.objectOrArray ?_ (by decide)
  exact const Consumer.mk
    |>.and (required "id" (.string c.id))
    |>.and (required "org_id" (.string c.orgId))

theorem Consumer.encodes_ofOption (c : Option Consumer) : Encodes Decode.consumer.orNull (Json.ofOption Consumer.toJson c) c :=
  .ofOption (fun c _ => c.encodes_toJson) nofun

/-- The instants that stand last in a row. -/
theorem Json.Fields.Encodes.dated {α : Type} {f : Json.Fields (Instant → Instant → α)} {ms : List (String × Json)}
    {build : Instant → Instant → α} (hf : f.Encodes ms build) {created updated : Instant}
    (h : ∀ t ∈ [created, updated], t.InFourDigits) :
    ((f.and (.required "created_at" Decode.instant)).and (.required "updated_at" Decode.instant)).Encodes
      (ms ++ [("created_at", created.toJson)] ++ [("updated_at", updated.toJson)]) (build created updated) := by
  obtain ⟨hcreated, hupdated⟩ := List.forall_mem_cons.1 h
  exact hf |>.and (required "created_at" (Instant.encodes_toJson hcreated))
    |>.and (required "updated_at" (Instant.encodes_toJson (hupdated _ List.mem_cons_self)))

/-! ## Rows -/

theorem Asn.encodes_toJson (a : Asn) : Encodes Decode.asn a.toJson a := by
  refine Json.Fields.Encodes.objectOrArray ?_ (by decide)
  exact const Asn.mk
    |>.and (required "id" (.word32 a.id))
    |>.and (required "number" (.word32 a.number))
    |>.and (required "name" (.string a.name))

/-- The times in a range. -/
def Range.instants (r : Range F) : List Instant := r.assignedAt.toList ++ [r.createdAt, r.updatedAt]

/-- A range of the years 0 to 9999 is decoded as itself. -/
theorem Range.encodes_toJson (r : Range F) (h : ∀ t ∈ r.instants, t.InFourDigits) : Encodes (Decode.range F) r.toJson r := by
  have hassigned : Encodes Decode.instant.orNull (Json.ofOption Instant.toJson r.assignedAt) r.assignedAt := by
    refine .ofOption (fun t ht => Instant.encodes_toJson (h t ?_)) nofun
    exact List.mem_append_left _ (Option.mem_toList.2 ht)
  refine Json.Fields.Encodes.objectOrArray ?_ (by cases F <;> decide)
  exact const Range.mk
    |>.and (required "id" r.id.encodes_toJson)
    |>.and (required "name" (.string r.name))
    |>.and r.span.encodes_members
    |>.and (required "status" (r.status.encodes_text _))
    |>.and (required "asn" r.asn.encodes_toJson)
    |>.and (nullable "org" (Consumer.encodes_ofOption r.org))
    |>.and (nullable "assigned_at" hassigned)
    |>.and (required "admin_remark" (.string r.adminRemark))
    |>.and (required "user_remark" (.string r.userRemark))
    |>.dated (List.forall_mem_append.1 h).2

/-- The times in a supernet. -/
def Supernet.instants (s : Supernet) : List Instant := [s.createdAt, s.updatedAt]

/-- A supernet of the years 0 to 9999 is decoded as itself. -/
theorem Supernet.encodes_toJson (s : Supernet) (h : ∀ t ∈ s.instants, t.InFourDigits) :
    Encodes Decode.supernet s.toJson s := by
  refine Json.Fields.Encodes.objectOrArray ?_ (by decide)
  exact const Supernet.mk
    |>.and (required "id" s.id.encodes_toJson)
    |>.and (required "name" (.string s.name))
    |>.and s.span.encodes_members
    |>.and (required "status" s.rollup.encodes_text)
    |>.and (required "asn" (.word32 s.asn))
    |>.and (required "remark" (.string s.remark))
    |>.and (required "operator" (.string s.operator))
    |>.and (required "used_ip_count" (.word64 s.used))
    |>.and (required "total_ip_count" (.word64 s.total))
    |>.dated h

/-- The times in an external range. -/
def ExternalRange.instants (r : ExternalRange) : List Instant := [r.createdAt, r.updatedAt]

/-- An external range of the years 0 to 9999 is decoded as itself. -/
theorem ExternalRange.encodes_toJson (r : ExternalRange) (h : ∀ t ∈ r.instants, t.InFourDigits) :
    Encodes Decode.externalRange r.toJson r := by
  refine Json.Fields.Encodes.objectOrArray ?_ (by decide)
  exact const ExternalRange.mk
    |>.and (required "id" r.id.encodes_toJson)
    |>.and (required "name" (.string r.name))
    |>.and r.span.encodes_members
    |>.and (required "asn" (.word32 r.asn))
    |>.and (required "org_name" (.string r.orgName))
    |>.and (required "country" (.string r.country))
    |>.and (required "city" (.string r.city))
    |>.and (required "remark" (.string r.remark))
    |>.and (required "operator" (.string r.operator))
    |>.dated h

/-- The times in a note. -/
def Note.instants (n : Note F) : List Instant := [n.createdAt, n.updatedAt]

/-- A note of the years 0 to 9999 is decoded as itself. -/
theorem Note.encodes_toJson (n : Note F) (h : ∀ t ∈ n.instants, t.InFourDigits) : Encodes (Decode.note F) n.toJson n := by
  refine Json.Fields.Encodes.objectOrArray ?_ (by cases F <;> decide)
  exact const Note.mk
    |>.and (required "address" n.address.encodes_toJson)
    |>.and (required "admin_remark" (.string n.adminRemark))
    |>.and (required "user_remark" (.string n.userRemark))
    |>.dated h

end AddressSpace
