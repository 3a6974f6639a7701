import Mathlib.Data.List.Basic
import AddressSpace.Json.Decoder
import AddressSpace.Proofs.Json.Text
/-!
# Decoders that undo encoders

`Encodes d j a` says that the value `j` can be written and that the decoder `d` takes it for `a`, wherever it stands. Single
values and lists encode what they were made of (`Encodes.nat`, `Encodes.ofOption`, `Encodes.ofList`), and an object encodes what
its members do (`Fields.Encodes.object`): `Fields.Encodes f ms a` says that the fields look at just the names of the members `ms`
and make `a` of their values, and it holds of combined fields if it holds of both (`Fields.Encodes.and`).
-/

namespace AddressSpace.Json

variable {α β : Type}

/-! ## Single values -/

/-- The value can be written and is decoded as `a`. -/
structure Encodes (d : Decoder α) (j : Json) (a : α) : Prop where
  sound : Sound j
  decoded : ∀ path, d path j = .ok a

namespace Encodes

/-- What was encoded is read back from the text. -/
theorem decoded_ofText {d : Decoder α} {j : Json} {a : α} (h : Encodes d j a) (path : Path) :
    d path (Json.ofText j.text) = .ok a := by
  rw [h.sound.ofText_eq_self, h.decoded]

/-- A text that is read as `a` encodes it. -/
theorem text {read : String → Option α} {s : String} {a : α} (h : read s = some a) :
    Encodes (Decoder.text read) (.string s) a where
  sound := .string s
  decoded path := by simp only [Decoder.text, h]

theorem string (s : String) : Encodes Decoder.string (.string s) s := text rfl

/-- A choice without content is encoded as its word. -/
theorem choice {read : String → Option α} {s : String} {a : α} (h : read s = some a) (unit : Decoder Unit) :
    Encodes (Decoder.choice read unit) (.string s) a := ⟨.string s, (text h).decoded⟩

/-- A number below the bound is encoded as itself. -/
theorem nat {n bound : Nat} (h : n < bound) : Encodes (Decoder.nat bound) (ofNat n) n where
  sound := .ofNat n
  decoded path := by
    simp only [Decoder.nat, Json.ofNat, Text.value_digits (by omega : 1 < 10) (by omega), Option.filter_some, h, decide_true,
      if_true]

theorem word8 (w : UInt8) : Encodes Decoder.word8 (ofNat w.toNat) w where
  sound := .ofNat _
  decoded path := by rw [Decoder.word8, (nat w.toNat_lt).decoded, Except.map, UInt8.ofNat_toNat]

theorem word32 (w : UInt32) : Encodes Decoder.word32 (ofNat w.toNat) w where
  sound := .ofNat _
  decoded path := by rw [Decoder.word32, (nat w.toNat_lt).decoded, Except.map, UInt32.ofNat_toNat]

theorem word64 (w : UInt64) : Encodes Decoder.word64 (ofNat w.toNat) w where
  sound := .ofNat _
  decoded path := by rw [Decoder.word64, (nat w.toNat_lt).decoded, Except.map, UInt64.ofNat_toNat]

/-- A value that is left out is told from one that is encoded by anything but null. -/
theorem ofOption {d : Decoder α} {f : α → Json} {o : Option α} (h : ∀ a ∈ o, Encodes d (f a) a)
    (hnull : ∀ a, f a ≠ .null) : Encodes d.orNull (ofOption f o) o := by
  cases o with
  | none => exact ⟨.null, fun _ => rfl⟩
  | some a =>
    obtain ⟨hsound, hdecoded⟩ := h a rfl
    refine ⟨hsound, fun path => ?_⟩
    have hsome : d.orNull path (f a) = (d path (f a)).map some := by
      unfold Decoder.orNull
      split
      · rename_i hn
        exact absurd hn (hnull a)
      · rfl
    rw [Json.ofOption, hsome, hdecoded, Except.map]

/-- A list is encoded item by item. -/
theorem ofList {d : Decoder α} {f : α → Json} {as : List α} (h : ∀ a ∈ as, Encodes d (f a) a) :
    Encodes (Decoder.list d) (ofList (as.map f)) as where
  sound := .ofList (List.forall_mem_map.2 fun a ha => (h a ha).sound)
  decoded path := by
    have hitems (n : Nat) : Decoder.items d path n (as.map f) true = .ok as := by
      induction as generalizing n with
      | nil => rfl
      | cons a as ih =>
        obtain ⟨ha, has⟩ := List.forall_mem_cons.1 h
        rw [List.map_cons, Decoder.items, ha.decoded, ih has]
        rfl
    exact hitems 0

end Encodes

/-! ## Fields -/

namespace Fields

/-- The members have the names of the fields, each can be written and passes the check of its field, and all together make `a`. -/
structure Encodes (f : Fields α) (ms : List (String × Json)) (a : α) : Prop where
  names : f.members.map (·.name) = ms.map (·.1)
  sound : ∀ m ∈ ms, Sound m.2
  checked : ∀ field ∈ f.members, ∃ j, (field.name, j) ∈ ms ∧ ∀ path, field.check path j = .ok ()
  built : ∀ path value, (∀ m ∈ ms, value m.1 = some m.2) → f.build path value = .ok a

namespace Encodes

variable {ms ns : List (String × Json)} {a : α} {j : Json} {d : Decoder α}

/-- No fields encode a constant. -/
theorem const (a : α) : Encodes (const a) [] a where
  names := rfl
  sound _ h := absurd h List.not_mem_nil
  checked _ h := absurd h List.not_mem_nil
  built _ _ _ := rfl

/-- The members of two groups of fields encode what both make together. -/
theorem and {f : Fields (α → β)} {g : Fields α} {h : α → β} (hf : Encodes f ms h) (hg : Encodes g ns a) :
    Encodes (f.and g) (ms ++ ns) (h a) where
  names := by rw [Fields.and, List.map_append, List.map_append, hf.names, hg.names]
  sound := List.forall_mem_append.2 ⟨hf.sound, hg.sound⟩
  checked field hfield := by
    rcases List.mem_append.1 hfield with hfield | hfield
    · obtain ⟨j, hj, hcheck⟩ := hf.checked field hfield
      exact ⟨j, List.mem_append_left _ hj, hcheck⟩
    · obtain ⟨j, hj, hcheck⟩ := hg.checked field hfield
      exact ⟨j, List.mem_append_right _ hj, hcheck⟩
  built path value hvalue := by
    have hh := hf.built path value fun m hm => hvalue m (List.mem_append_left _ hm)
    have ha := hg.built path value fun m hm => hvalue m (List.mem_append_right _ hm)
    simp only [Fields.and, hh, ha]
    rfl

/-- A field that is decoded by its value, if there is one. -/
theorem single {name : String} {omissible : Bool} {build : Path → (String → Option Json) → Except Path α}
    (hd : Json.Encodes d j a) (hbuild : ∀ path value, value name = some j → build path value = d (.name name :: path) j) :
    Encodes ⟨[⟨name, fun path j => discard (d path j), omissible⟩], build⟩ [(name, j)] a where
  names := rfl
  sound _ hm := List.mem_singleton.1 hm ▸ hd.sound
  checked field hfield := by
    obtain rfl := List.mem_singleton.1 hfield
    refine ⟨j, List.mem_cons_self, fun path => ?_⟩
    simp only [hd.decoded]
    rfl
  built path value hvalue := (hbuild path value (hvalue _ List.mem_cons_self)).trans (hd.decoded _)

theorem required (name : String) (hd : Json.Encodes d j a) : Encodes (required name d) [(name, j)] a :=
  single hd fun path value h => by simp only [h]

theorem optional (name : String) (hd : Json.Encodes d j a) (default : α) : Encodes (optional name d default) [(name, j)] a :=
  single hd fun path value h => by simp only [h]

theorem nullable (name : String) {o : Option α} (hd : Json.Encodes d.orNull j o) : Encodes (nullable name d) [(name, j)] o :=
  single hd fun path value h => by simp only [h]

end Encodes

/-! ## Objects -/

variable {ms : List (String × Json)}

/-- The value under a name is found among members whose names differ. -/
theorem value?_eq_some (hnodup : (ms.map (·.1)).Nodup) {m : String × Json} (hm : m ∈ ms) :
    value? (named ms) m.1 = some m.2 := by
  induction ms with
  | nil => cases hm
  | cons m' ms ih =>
    rw [List.map_cons, List.nodup_cons] at hnodup
    rcases List.mem_cons.1 hm with rfl | hm
    · simp [value?, named_cons]
    · have hne : m'.1 ≠ m.1 := fun h => hnodup.1 (h ▸ List.mem_map_of_mem hm)
      have := ih hnodup.2 hm
      rw [value?] at this ⊢
      rwa [named_cons, List.find?_cons_of_neg (by simpa using hne)]

/-- Members whose names differ are passed if each has a value that the field of its name checks or, where there is no such field,
`other`. -/
theorem check_eq_ok {fields : List Member} {other : Decoder Unit} (hnodup : (ms.map (·.1)).Nodup)
    (hfield : ∀ m ∈ ms, ∀ field ∈ fields, field.name = m.1 → ∀ path, field.check path m.2 = .ok ())
    (hother : ∀ m ∈ ms, m.1 ∉ fields.map (·.name) → ∀ path, other path m.2 = .ok ()) {seen : List String}
    (hseen : ∀ m ∈ ms, m.1 ∉ seen) (path : Path) :
    check fields other path seen (named ms) .closed = .ok () := by
  induction ms generalizing seen with
  | nil => rfl
  | cons m ms ih =>
    rw [List.map_cons, List.nodup_cons] at hnodup
    obtain ⟨hm, hms⟩ := List.forall_mem_cons.1 hseen
    obtain ⟨hmField, hmsField⟩ := List.forall_mem_cons.1 hfield
    obtain ⟨hmOther, hmsOther⟩ := List.forall_mem_cons.1 hother
    have hfresh : ∀ m' ∈ ms, m'.1 ∉ m.1 :: seen := by
      intro m' hm'
      rw [List.mem_cons, not_or]
      exact ⟨fun h => hnodup.1 (h ▸ List.mem_map_of_mem hm'), hms m' hm'⟩
    have hlater := ih hnodup.2 hmsField hmsOther hfresh
    rw [named_cons, check]
    split
    · rename_i field hfind
      have hname : field.name = m.1 := by simpa using List.find?_some hfind
      simp only [List.contains_iff_mem, hm, if_false, hmField field (List.mem_of_find?_eq_some hfind) hname]
      exact hlater
    · rename_i hfind
      have hnone : m.1 ∉ fields.map (·.name) := by
        intro h
        obtain ⟨field, hmem, hname⟩ := List.mem_map.1 h
        exact List.find?_eq_none.1 hfind field hmem (by simpa using hname)
      simp only [hmOther hnone]
      exact hlater

namespace Encodes

variable {f : Fields α} {a : α}

/-- Among members whose names differ, one with the name of a field is the one that the field checks. -/
theorem check_of_mem (h : Encodes f ms a) {all : List (String × Json)} (hsub : ms ⊆ all) (hnodup : (all.map (·.1)).Nodup)
    {m : String × Json} (hm : m ∈ all) {field : Member} (hfield : field ∈ f.members) (hname : field.name = m.1)
    (path : Path) : field.check path m.2 = .ok () := by
  obtain ⟨j, hj, hcheck⟩ := h.checked field hfield
  have hone := value?_eq_some hnodup (hsub hj)
  rw [hname, value?_eq_some hnodup hm] at hone
  rw [Option.some.inj hone, hcheck]

/-- Fields are built from any members with distinct names among which their own are. -/
theorem built_of_subset (h : Encodes f ms a) {all : List (String × Json)} (hsub : ms ⊆ all) (hnodup : (all.map (·.1)).Nodup)
    (path : Path) : f.build path (value? (named all)) = .ok a :=
  h.built path _ fun _ hm => value?_eq_some hnodup (hsub hm)

/-- An object of just these members. -/
theorem object (h : Encodes f ms a) (hnodup : (f.members.map (·.name)).Nodup) : Json.Encodes f.object (ofMembers ms) a where
  sound := .ofMembers h.sound
  decoded path := by
    have hms : (ms.map (·.1)).Nodup := h.names ▸ hnodup
    have hcheck : check f.members skip path [] (named ms) .closed = .ok () :=
      check_eq_ok hms (fun m hm field hfield hname => h.check_of_mem (List.Subset.refl ms) hms hm hfield hname)
        (fun m hm hnone => absurd (h.names ▸ List.mem_map_of_mem hm) hnone) (fun _ _ => List.not_mem_nil) path
    rw [ofMembers_eq, Fields.object, hcheck]
    exact h.built_of_subset (List.Subset.refl ms) hms path

/-- An object with the members of the fields encodes what the fields make, if their names are distinct. -/
theorem objectOrArray (h : Encodes f ms a) (hnodup : (f.members.map (·.name)).Nodup) :
    Json.Encodes f.objectOrArray (ofMembers ms) a :=
  ⟨(h.object hnodup).sound, (h.object hnodup).decoded⟩

end Encodes

end Fields

/-! ## Values that are not decoded -/

/-- The value is passed over, wherever it stands, if values may be nested `depth` deep. -/
def Admitted (depth : Nat) (j : Json) : Prop := ∀ path, checkContent depth path j = .ok ()

namespace Admitted

variable {depth : Nat}

theorem string (depth : Nat) (s : String) : Admitted depth (.string s) := fun _ => rfl

/-- A number that doubles hold exactly is passed over at any depth. -/
theorem ofNat (depth : Nat) {n : Nat} (h : n < 2 ^ 53) : Admitted depth (ofNat n) := by
  intro path
  rw [Json.ofNat, checkContent, beyondDouble_digits h]
  rfl

/-- An optional value is passed over where values of its kind are. -/
theorem ofOption {f : α → Json} (h : ∀ a, Admitted depth (f a)) (o : Option α) : Admitted depth (ofOption f o) := by
  cases o with
  | none => exact fun _ => rfl
  | some a => exact h a

/-- An object is passed over one level above its members. -/
theorem ofMembers {ms : List (String × Json)} (h : ∀ m ∈ ms, Admitted depth m.2) : Admitted (depth + 1) (ofMembers ms) := by
  intro path
  have hms : checkMembers depth path (named ms) .closed = .ok () := by
    induction ms with
    | nil => rfl
    | cons m ms ih =>
      obtain ⟨hm, hms⟩ := List.forall_mem_cons.1 h
      rw [named_cons, checkMembers, hm]
      exact ih hms
  rw [ofMembers_eq, checkContent, if_neg (Nat.succ_ne_zero depth)]
  exact hms

/-- An array is passed over one level above its items. -/
theorem ofList {items : List Json} (h : ∀ j ∈ items, Admitted depth j) : Admitted (depth + 1) (ofList items) := by
  intro path
  have hitems (n : Nat) : checkItems depth path n items true = .ok () := by
    induction items generalizing n with
    | nil => rfl
    | cons item items ih =>
      obtain ⟨hitem, hitems⟩ := List.forall_mem_cons.1 h
      rw [checkItems, hitem]
      exact ih hitems (n + 1)
  rw [Json.ofList, checkContent, if_neg (Nat.succ_ne_zero depth)]
  exact hitems 0

end Admitted

end AddressSpace.Json
