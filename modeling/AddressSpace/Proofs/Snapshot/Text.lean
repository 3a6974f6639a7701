import AddressSpace.Proofs.Snapshot.Record
/-!
# Snapshots that are written are read

The text of a snapshot is read as the snapshot, whatever its rows hold, if the years of its instants are written with four digits
(`ofText_text`).
-/

namespace AddressSpace.Snapshot

open Json.Fields.Encodes (const optional)

/-- The instants of all rows. -/
def instants (s : Snapshot) : List Instant :=
  s.v4Ranges.flatMap Range.instants ++ s.v6Ranges.flatMap Range.instants ++ s.supernets.flatMap Supernet.instants ++
    s.externals.flatMap ExternalRange.instants ++ s.v4Notes.flatMap Note.instants ++ s.v6Notes.flatMap Note.instants ++
    s.v4Records.flatMap Record.instants ++ s.v6Records.flatMap Record.instants

/-- Rows are decoded one by one. -/
theorem encodes_rows {α : Type} (name : String) {d : Json.Decoder α} {f : α → Json} {as : List α}
    (h : ∀ a ∈ as, Json.Encodes d (f a) a) :
    Json.Fields.Encodes (Decode.rows name d) [(name, Json.ofList (as.map f))] as := optional name (.ofList h) []

/-- A snapshot of the years 0 to 9999 is decoded as itself. -/
theorem encodes_toJson (s : Snapshot) (h : ∀ t ∈ s.instants, t.InFourDigits) : Json.Encodes Decode.snapshot s.toJson s := by
  simp only [instants, List.forall_mem_append, List.forall_mem_flatMap] at h
  obtain ⟨⟨⟨⟨⟨⟨⟨hv4Ranges, hv6Ranges⟩, hsupernets⟩, hexternals⟩, hv4Notes⟩, hv6Notes⟩, hv4Records⟩, hv6Records⟩ := h
  refine Json.Fields.Encodes.objectOrArray ?_ (by decide)
  exact const Snapshot.mk
    |>.and (encodes_rows "asns" fun a _ => a.encodes_toJson)
    |>.and (encodes_rows "ipv4_ranges" fun r hr => r.encodes_toJson (hv4Ranges r hr))
    |>.and (encodes_rows "ipv6_ranges" fun r hr => r.encodes_toJson (hv6Ranges r hr))
    |>.and (encodes_rows "supernets" fun r hr => r.encodes_toJson (hsupernets r hr))
    |>.and (encodes_rows "external_ranges" fun r hr => r.encodes_toJson (hexternals r hr))
    |>.and (encodes_rows "ipv4_notes" fun n hn => n.encodes_toJson (hv4Notes n hn))
    |>.and (encodes_rows "ipv6_notes" fun n hn => n.encodes_toJson (hv6Notes n hn))
    |>.and (encodes_rows "ipv4_records" fun r hr => r.encodes_toJson (hv4Records r hr))
    |>.and (encodes_rows "ipv6_records" fun r hr => r.encodes_toJson (hv6Records r hr))

/-- The text of a snapshot is read as the snapshot. -/
theorem ofText_text (s : Snapshot) (h : ∀ t ∈ s.instants, t.InFourDigits) : ofText s.text = .ok s :=
  (s.encodes_toJson h).decoded_ofText []

/-- A snapshot with rows of every kind: strings with quotes, backslashes and control characters, and a leap second. -/
def sample : Snapshot :=
  let leap : Instant := ⟨⟨2016, 12, 31, by decide, by decide⟩, 86399, 1500000000, by decide, by decide⟩
  let newYear : Date := { (default : Instant).date with year := 0, day_le := by decide }
  let first : Instant := { (default : Instant) with date := newYear, nanos := 1, nanos_lt := by decide }
  let asn : Asn := ⟨1, 4294967295, "AS \"one\" \\ \t\n"⟩
  let consumer : Consumer := ⟨"vm-1", "Ж\x01\x7f😀"⟩
  let low : Span .v4 := ⟨.ofBits .v4 0, .ofBits .v4 255, 24⟩
  let high : Span .v6 := ⟨.ofBits .v6 (1 <<< 64), .ofBits .v6 (1 <<< 64 + 1), 127⟩
  { asns := [asn]
    v4Ranges := [⟨.ofBits 1, "", low, .wait, asn, none, none, "/", "", leap, first⟩]
    v6Ranges := [⟨.ofBits 2, "six", high, .assigned, asn, some consumer, some leap, "", "\x00", first, first⟩]
    supernets := [⟨.ofBits 3, "net", low, .divided, 0, "", "", 18446744073709551615, 256, first, leap⟩]
    externals := [⟨.ofBits 4, "far", low, 7, "", "", "", "", "", leap, leap⟩]
    v4Notes := [⟨.ofBits .v4 9, "a", "u", first, leap⟩]
    v6Notes := []
    v4Records := [⟨.ofBits 5, .split low [low, low], none, "", leap⟩, ⟨.ofBits 6, .delete low none, some "root", "", first⟩]
    v6Records := [⟨.ofBits 7, .recover high (some consumer) .reserved, some "", "wait from reserved", leap⟩] }

/-- A snapshot with rows of every kind is read back as it was. -/
theorem ofText_text_sample : (∀ t ∈ sample.instants, t.InFourDigits) ∧ ofText sample.text = .ok sample :=
  ⟨by decide, ofText_text sample (by decide)⟩

end AddressSpace.Snapshot
