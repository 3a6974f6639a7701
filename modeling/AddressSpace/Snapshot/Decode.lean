import AddressSpace.Snapshot
import AddressSpace.Address.Text
import AddressSpace.Instant.Text
import AddressSpace.Json.Decoder
/-!
# Reading snapshots

The first fault in a snapshot's text is reported by its path. Lists may be left out, and so may what may be null. A row
may be an array of its values in order. The event of a record stands among the record's own fields; a fault in it is
reported for the record as a whole, once the record has been read.
-/

namespace AddressSpace

open Json (Decoder Path)
open Json.Decoder (text string word8 word32 word64 list orNull choice null nullOrEmpty)
open Json.Fields (required optional nullable const)

namespace Decode

variable {F : Family}

/-- An identifier, in any of its spellings. -/
def identifier : Decoder Identifier := text Identifier.ofText?

/-- A time, with any offset from UTC. -/
def instant : Decoder Instant := text Instant.ofText?

/-- An address, with no blanks around it. -/
def address (F : Family) : Decoder (Address F) := text (Address.ofText? F)

/-- A status by its name, which may be the only name of an object with such a value as `unit` takes. -/
def status (unit : Decoder Unit) : Decoder Status :=
  choice (fun s => [Status.wait, .reserved, .assigned].find? (·.text == s)) unit

/-- A rollup by its name, which may be the only name of an object with a null. -/
def rollup : Decoder Rollup :=
  choice (fun s => [Rollup.outOfWarehouse, .inWarehouse, .divided].find? (·.text == s)) null

/-- The three fields of a span. -/
def spanFields (F : Family) : Json.Fields (Span F) :=
  (((const Span.mk).and (required "start" (address F))).and (required "end" (address F))).and (required "prefix" word8)

/-- A span, as an object or in order. -/
def span (F : Family) : Decoder (Span F) := (spanFields F).objectOrArray

/-- A consumer, as an object or in order. -/
def consumer : Decoder Consumer :=
  (((const Consumer.mk).and (required "id" string)).and (required "org_id" string)).objectOrArray

/-- An AS number, as an object or in order. -/
def asn : Decoder Asn :=
  ((((const Asn.mk).and (required "id" word32)).and (required "number" word32)).and
    (required "name" string)).objectOrArray

/-- A range, as an object or in order. -/
def range (F : Family) : Decoder (Range F) :=
  ((((((((((((const Range.mk).and (required "id" identifier)).and (required "name" string)).and (spanFields F)).and
    (required "status" (status null))).and (required "asn" asn)).and (nullable "org" consumer)).and
    (nullable "assigned_at" instant)).and (required "admin_remark" string)).and (required "user_remark" string)).and
    (required "created_at" instant)).and (required "updated_at" instant)).objectOrArray

/-- A supernet, as an object or in order. -/
def supernet : Decoder Supernet :=
  ((((((((((((const Supernet.mk).and (required "id" identifier)).and (required "name" string)).and
    (spanFields .v4)).and (required "status" rollup)).and (required "asn" word32)).and (required "remark" string)).and
    (required "operator" string)).and (required "used_ip_count" word64)).and (required "total_ip_count" word64)).and
    (required "created_at" instant)).and (required "updated_at" instant)).objectOrArray

/-- An external range, as an object or in order. -/
def externalRange : Decoder ExternalRange :=
  ((((((((((((const ExternalRange.mk).and (required "id" identifier)).and (required "name" string)).and
    (spanFields .v4)).and (required "asn" word32)).and (required "org_name" string)).and
    (required "country" string)).and (required "city" string)).and (required "remark" string)).and
    (required "operator" string)).and (required "created_at" instant)).and
    (required "updated_at" instant)).objectOrArray

/-- A note, as an object or in order. -/
def note (F : Family) : Decoder (Note F) :=
  ((((((const Note.mk).and (required "address" (address F))).and (required "admin_remark" string)).and
    (required "user_remark" string)).and (required "created_at" instant)).and
    (required "updated_at" instant)).objectOrArray

/-! ## Records -/

/-- The fields of an event of some kind. -/
def eventFields (F : Family) : EventKind → Json.Fields (Event F)
  | .add => (const Event.add).and (required "range" (span F))
  | .change => ((const Event.change).and (required "old" (span F))).and (required "new" (span F))
  | .delete => ((const Event.delete).and (required "range" (span F))).and (nullable "org" consumer)
  | .split => ((const Event.split).and (required "source" (span F))).and (required "subnets" (list (span F)))
  | .merge => ((const Event.merge).and (required "merged" (span F))).and (required "members" (list (span F)))
  | .reserve =>
    (((const Event.reserve).and (required "range" (span F))).and (required "org" consumer)).and
      (required "from" (status nullOrEmpty))
  | .assign =>
    (((const Event.assign).and (required "range" (span F))).and (required "org" consumer)).and
      (required "from" (status nullOrEmpty))
  | .recover =>
    (((const Event.recover).and (required "range" (span F))).and (nullable "org" consumer)).and
      (required "from" (status nullOrEmpty))

/-- The kind of an event, by its name or by its number. -/
def eventKind? : Json → Option EventKind
  | .string s => EventKind.all.find? (·.text == s)
  | .number literal => (Text.value? 10 literal).bind (EventKind.all[·]?)
  | _ => none

/-- The fields that every record has beside those of its event, and what becomes of them. -/
def recordFields (F : Family) : Json.Fields (Event F → Record F) :=
  ((((const fun id user remark createdAt event => ⟨id, event, user, remark, createdAt⟩).and
    (required "id" identifier)).and (nullable "user" string)).and (required "remark" string)).and
    (required "created_at" instant)

/-- How deep the values of an event may be nested. -/
def eventDepth : Nat := 124

/-- The event among the members of a record. Its kind may be given only once. -/
def event (F : Family) (path : Path) (members : List (Option String × Json)) : Except Path (Event F) := do
  let own := (recordFields F).members.map (·.name)
  let fields := members.filter fun m => !m.1.any own.contains
  match fields.filter (·.1 == some "record_type") with
  | [(_, kind)] => match eventKind? kind with
    | some kind =>
      ((eventFields F kind).object path (.object (fields.filter (·.1 != some "record_type")) .closed)).mapError
        fun _ => path
    | none => throw path
  | _ => throw path

/-- A record. What is none of its own fields belongs to its event, and must be sound even if the event has no use for
it. -/
def record (F : Family) : Decoder (Record F) := fun path j =>
  match j with
  | .object members ending => do
    let own := recordFields F
    Json.Fields.check own.members (Json.checkContent eventDepth) path [] members ending
    let ofEvent ← own.build path (Json.Fields.value? members)
    let event ← event F path members
    return ofEvent event
  | _ => .error path

/-! ## The whole -/

/-- A list that may be left out. -/
def rows {α : Type} (name : String) (d : Decoder α) : Json.Fields (List α) := optional name (list d) []

/-- A snapshot, as an object or in order. All of its tables may be missing. -/
def snapshot : Decoder Snapshot :=
  ((((((((((const Snapshot.mk).and (rows "asns" asn)).and (rows "ipv4_ranges" (range .v4))).and
    (rows "ipv6_ranges" (range .v6))).and (rows "supernets" supernet)).and
    (rows "external_ranges" externalRange)).and (rows "ipv4_notes" (note .v4))).and
    (rows "ipv6_notes" (note .v6))).and (rows "ipv4_records" (record .v4))).and
    (rows "ipv6_records" (record .v6))).objectOrArray

end Decode

/-- The snapshot that a text holds, or the path of the first fault in it. -/
def Snapshot.ofText (s : String) : Except Path Snapshot := Decode.snapshot [] (Json.ofText s)

end AddressSpace
