import AddressSpace.Snapshot
import AddressSpace.Address.Text
import AddressSpace.Instant.Text
import AddressSpace.Json.Writer
/-!
# Writing snapshots

A snapshot is a JSON object of lists, and a row an object of its fields in a fixed order. The bounds of a row are three
fields of it; a record holds the fields of its event between its identifier and its user.
-/

namespace AddressSpace

open Json (ofMembers ofList ofOption ofNat)

/-- An identifier is encoded as its text. -/
def Identifier.toJson (i : Identifier) : Json := .string i.text

/-- An instant is encoded as its text. -/
def Instant.toJson (t : Instant) : Json := .string t.text

/-- An address is encoded as its text. -/
def Address.toJson {F : Family} (a : Address F) : Json := .string a.text

/-- The fields of the bounds. -/
def Span.members {F : Family} (s : Span F) : List (String × Json) :=
  [("start", s.start.toJson), ("end", s.stop.toJson), ("prefix", ofNat s.plen.toNat)]

/-- A span is encoded as an object. -/
def Span.toJson {F : Family} (s : Span F) : Json := ofMembers s.members

/-- A consumer is encoded as an object. -/
def Consumer.toJson (c : Consumer) : Json := ofMembers [("id", .string c.id), ("org_id", .string c.orgId)]

/-- An AS number is encoded as an object. -/
def Asn.toJson (a : Asn) : Json :=
  ofMembers [("id", ofNat a.id.toNat), ("number", ofNat a.number.toNat), ("name", .string a.name)]

/-- A range is encoded as an object. -/
def Range.toJson {F : Family} (r : Range F) : Json :=
  ofMembers <|
    [("id", r.id.toJson), ("name", .string r.name)] ++ r.span.members ++
    [("status", .string r.status.text), ("asn", r.asn.toJson), ("org", ofOption Consumer.toJson r.org),
      ("assigned_at", ofOption Instant.toJson r.assignedAt), ("admin_remark", .string r.adminRemark),
      ("user_remark", .string r.userRemark), ("created_at", r.createdAt.toJson), ("updated_at", r.updatedAt.toJson)]

/-- A supernet is encoded as an object. -/
def Supernet.toJson (s : Supernet) : Json :=
  ofMembers <|
    [("id", s.id.toJson), ("name", .string s.name)] ++ s.span.members ++
    [("status", .string s.rollup.text), ("asn", ofNat s.asn.toNat), ("remark", .string s.remark),
      ("operator", .string s.operator), ("used_ip_count", ofNat s.used.toNat), ("total_ip_count", ofNat s.total.toNat),
      ("created_at", s.createdAt.toJson), ("updated_at", s.updatedAt.toJson)]

/-- An external range is encoded as an object. -/
def ExternalRange.toJson (r : ExternalRange) : Json :=
  ofMembers <|
    [("id", r.id.toJson), ("name", .string r.name)] ++ r.span.members ++
    [("asn", ofNat r.asn.toNat), ("org_name", .string r.orgName), ("country", .string r.country),
      ("city", .string r.city), ("remark", .string r.remark), ("operator", .string r.operator),
      ("created_at", r.createdAt.toJson), ("updated_at", r.updatedAt.toJson)]

/-- A note is encoded as an object. -/
def Note.toJson {F : Family} (n : Note F) : Json :=
  ofMembers [("address", n.address.toJson), ("admin_remark", .string n.adminRemark),
    ("user_remark", .string n.userRemark), ("created_at", n.createdAt.toJson), ("updated_at", n.updatedAt.toJson)]

/-- The fields of an event beside its kind. -/
def Event.members {F : Family} : Event F → List (String × Json)
  | .add range => [("range", range.toJson)]
  | .change old new => [("old", old.toJson), ("new", new.toJson)]
  | .delete range org => [("range", range.toJson), ("org", ofOption Consumer.toJson org)]
  | .split source subnets => [("source", source.toJson), ("subnets", ofList (subnets.map Span.toJson))]
  | .merge merged members => [("merged", merged.toJson), ("members", ofList (members.map Span.toJson))]
  | .reserve range org before =>
    [("range", range.toJson), ("org", org.toJson), ("from", .string before.text)]
  | .assign range org before =>
    [("range", range.toJson), ("org", org.toJson), ("from", .string before.text)]
  | .recover range org before =>
    [("range", range.toJson), ("org", ofOption Consumer.toJson org), ("from", .string before.text)]

/-- A record is encoded as one object, with the members of its event among its own. -/
def Record.toJson {F : Family} (r : Record F) : Json :=
  ofMembers <|
    [("id", r.id.toJson), ("record_type", .string r.event.kind.text)] ++ r.event.members ++
    [("user", ofOption .string r.user), ("remark", .string r.remark), ("created_at", r.createdAt.toJson)]

namespace Snapshot

/-- A snapshot is encoded as an object with one array for each table. -/
def toJson (s : Snapshot) : Json :=
  ofMembers [("asns", ofList (s.asns.map Asn.toJson)), ("ipv4_ranges", ofList (s.v4Ranges.map Range.toJson)),
    ("ipv6_ranges", ofList (s.v6Ranges.map Range.toJson)), ("supernets", ofList (s.supernets.map Supernet.toJson)),
    ("external_ranges", ofList (s.externals.map ExternalRange.toJson)),
    ("ipv4_notes", ofList (s.v4Notes.map Note.toJson)), ("ipv6_notes", ofList (s.v6Notes.map Note.toJson)),
    ("ipv4_records", ofList (s.v4Records.map Record.toJson)),
    ("ipv6_records", ofList (s.v6Records.map Record.toJson))]

/-- The text of a snapshot. -/
def text (s : Snapshot) : String := s.toJson.text

end Snapshot

end AddressSpace
