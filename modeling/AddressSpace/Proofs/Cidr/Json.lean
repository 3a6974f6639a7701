import AddressSpace.Cidr.Json
import AddressSpace.Proofs.Cidr.Text
import AddressSpace.Proofs.Json.Text
/-!
# Networks and their texts

A network's text says which address and which length it has, and reads back as the network: from a plain text and as a JSON value,
also if the value goes through a text of its own (`Cidr.Legible`). So a text that was read may be replaced by that of the network
it was read as (`Cidr.legible_texts`).
-/

namespace AddressSpace.Cidr

variable {F : Family}

/-- A network's text shows its address and its length, and whoever reads it has the network. -/
structure Legible (c : Cidr F) : Prop where
  spelled : ∃ cs, c.addr.Spelled cs ∧ c.text = String.ofList cs ++ "/" ++ Text.decimal c.plen
  parsed : parse F c.text = .ok c
  decoded : ofJson F c.toJson = .ok c
  reread : ofJson F (Json.ofText c.toJson.text) = .ok c

/-- A network that is encoded is decoded. -/
theorem ofJson_toJson (c : Cidr F) : ofJson F c.toJson = .ok c := by
  rw [toJson, ofJson, parse_text]
  rfl

/-- Every network is legible. -/
theorem legible (c : Cidr F) : c.Legible where
  spelled := ⟨c.addr.chars, c.addr.spelled, c.text_eq⟩
  parsed := c.parse_text
  decoded := c.ofJson_toJson
  reread := by
    have hsound : Json.Sound c.toJson := .string c.text
    rw [hsound.ofText_eq_self, ofJson_toJson]

/-- Every network is legible, no two have the same text, and what a text is read as has a text that is read as the same, with a
length of the family. -/
theorem legible_texts (F : Family) :
    (∀ c : Cidr F, c.Legible) ∧ Function.Injective (text : Cidr F → String) ∧
      ∀ (t : String) (c : Cidr F), parse F t = .ok c → parse F c.text = .ok c ∧ c.plen ≤ F.width :=
  ⟨legible, text_injective, fun _ c _ => ⟨c.parse_text, c.plen_le⟩⟩

/-- With host bits, and with two runs of zero groups of which the second is the longer. -/
def hosted : Cidr .v6 := ⟨⟨0xa100000000000000020003, by decide⟩, 77, by decide⟩

/-- An address of another spelling, with blanks and leading zeros, is read as one whose text is read as itself. -/
theorem legible_texts_hosted :
    parse .v6 " 0:0:00A1:0:0:0:2:3 /+077\t" = .ok hosted ∧ parse .v6 hosted.text = .ok hosted ∧
      hosted.text = "0:0:a1::2:3/77" :=
  have hsloppy : parse .v6 " 0:0:00A1:0:0:0:2:3 /+077\t" = .ok hosted := by decide +kernel
  ⟨hsloppy, ((legible_texts .v6).2.2 _ hosted hsloppy).1, by decide +kernel⟩

end AddressSpace.Cidr
