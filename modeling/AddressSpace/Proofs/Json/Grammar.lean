import Mathlib.Tactic.SplitIfs
import AddressSpace.Proofs.Json.Literals
/-!
# The grammar of JSON

`Grammar` says which texts are JSON, without saying how they are read: a value, or an element, which is a value between blanks. String
literals and numbers are read just when they follow the grammar, up to where they end (`readUnits_sound`, `exists_readUnits`,
`readNumber_sound`, `readNumber_of_ends`).
-/

namespace AddressSpace.Json

open Text

/-! ## Texts -/

/-- Nothing but blanks. -/
def Space (cs : List Char) : Prop := ∀ c ∈ cs, isSpace c = true

/-- A decimal or a hexadecimal digit. -/
def HexDigit (c : Char) : Prop := '0' ≤ c ∧ c ≤ '9' ∨ 'a' ≤ c ∧ c ≤ 'f' ∨ 'A' ≤ c ∧ c ≤ 'F'

/-- What stands for one character in a string literal. -/
inductive StringChar : List Char → Prop where
  | plain {c : Char} (hquote : c ≠ '"') (hslash : c ≠ '\\') (hcontrol : ¬c.toNat < 0x20) : StringChar [c]
  | escape {c : Char} (h : c ∈ ['"', '\\', '/', 'b', 'f', 'n', 'r', 't']) : StringChar ['\\', c]
  | hex {a b c d : Char} (h : ∀ x ∈ [a, b, c, d], HexDigit x) : StringChar ['\\', 'u', a, b, c, d]

/-- What stands between the quotes of a string literal. -/
inductive StringBody : List Char → Prop where
  | nil : StringBody []
  | append {unit cs : List Char} (hunit : StringChar unit) (h : StringBody cs) : StringBody (unit ++ cs)

/-- One or more digits. -/
def Digits (cs : List Char) : Prop := cs ≠ [] ∧ ∀ c ∈ cs, isDigit c = true

/-- Digits that start with a zero only if it stands alone. -/
def Whole (cs : List Char) : Prop := Digits cs ∧ (cs.length = 1 ∨ cs.head? ≠ some '0')

/-- A point with digits behind it, or nothing. -/
inductive Fraction : List Char → Prop where
  | none : Fraction []
  | point {cs : List Char} (h : Digits cs) : Fraction ('.' :: cs)

/-- The letter of an exponent with digits behind it, before which a sign may stand, or nothing. -/
inductive Exponent : List Char → Prop where
  | none : Exponent []
  | plain {e : Char} {cs : List Char} (he : e = 'e' ∨ e = 'E') (h : Digits cs) : Exponent (e :: cs)
  | signed {e s : Char} {cs : List Char} (he : e = 'e' ∨ e = 'E') (hs : s = '+' ∨ s = '-') (h : Digits cs) :
    Exponent (e :: s :: cs)

/-- A number without its sign. -/
inductive Number : List Char → Prop where
  | parts {whole fraction exponent : List Char} (hw : Whole whole) (hf : Fraction fraction) (he : Exponent exponent) :
    Number (whole ++ (fraction ++ exponent))

/-- The parts of a JSON text. -/
inductive Part where
  | value
  /-- A value with blanks around it. -/
  | element
  /-- One or more elements with commas between them. -/
  | elements
  /-- A name and an element. -/
  | member
  /-- One or more members with commas between them. -/
  | members

/-- The texts that are JSON, by their part. -/
inductive Grammar : Part → List Char → Prop where
  | word {w : String} (h : w ∈ ["null", "true", "false"]) : Grammar .value w.toList
  | number {cs : List Char} (h : Number cs) : Grammar .value cs
  | negative {cs : List Char} (h : Number cs) : Grammar .value ('-' :: cs)
  | string {cs : List Char} (h : StringBody cs) : Grammar .value ('"' :: (cs ++ ['"']))
  | emptyArray {cs : List Char} (h : Space cs) : Grammar .value ('[' :: (cs ++ [']']))
  | array {cs : List Char} (h : Grammar .elements cs) : Grammar .value ('[' :: (cs ++ [']']))
  | emptyObject {cs : List Char} (h : Space cs) : Grammar .value ('\x7b' :: (cs ++ ['\x7d']))
  | object {cs : List Char} (h : Grammar .members cs) : Grammar .value ('\x7b' :: (cs ++ ['\x7d']))
  | element {front cs back : List Char} (hfront : Space front) (h : Grammar .value cs) (hback : Space back) :
    Grammar .element (front ++ (cs ++ back))
  | last {cs : List Char} (h : Grammar .element cs) : Grammar .elements cs
  | more {cs ds : List Char} (h : Grammar .element cs) (hs : Grammar .elements ds) : Grammar .elements (cs ++ ',' :: ds)
  | member {front name gap cs : List Char} (hfront : Space front) (hname : StringBody name) (hgap : Space gap)
    (h : Grammar .element cs) : Grammar .member (front ++ '"' :: (name ++ '"' :: (gap ++ ':' :: cs)))
  | lastMember {cs : List Char} (h : Grammar .member cs) : Grammar .members cs
  | moreMembers {cs ds : List Char} (h : Grammar .member cs) (hs : Grammar .members ds) :
    Grammar .members (cs ++ ',' :: ds)

variable {c : Char} {cs ds rest : List Char}

/-! ## Strings -/

/-- The hexadecimal digits of the grammar are those that the reader knows. -/
theorem hexDigit_iff : HexDigit c ↔ ∃ n, digitIn? 16 c = some n := by
  have hin (n : Nat) : digitIn? 16 c = some n ↔ digitValue? c = some n ∧ n < 16 := by
    rw [digitIn?, Option.filter_eq_some_iff, decide_eq_true_eq]
  simp only [hin, digitValue?, HexDigit]
  split_ifs with hdigit hlower hupper
  · refine iff_of_true (.inl hdigit) ⟨_, rfl, ?_⟩
    have : c.toNat ≤ '9'.toNat := hdigit.2
    have : '9'.toNat = 57 := rfl
    have : '0'.toNat = 48 := rfl
    omega
  · refine iff_of_true (.inr (.inl hlower)) ⟨_, rfl, ?_⟩
    have : c.toNat ≤ 'f'.toNat := hlower.2
    have : 'f'.toNat = 102 := rfl
    have : 'a'.toNat = 97 := rfl
    omega
  · refine iff_of_true (.inr (.inr hupper)) ⟨_, rfl, ?_⟩
    have : c.toNat ≤ 'F'.toNat := hupper.2
    have : 'F'.toNat = 70 := rfl
    have : 'A'.toNat = 65 := rfl
    omega
  · refine iff_of_false ?_ (by rintro ⟨_, ⟨⟩, _⟩)
    rintro (h | h | h)
    · exact hdigit h
    · exact hlower h
    · exact hupper h

/-- Four characters are read as a number when all of them are hexadecimal digits. -/
theorem exists_hex4?_iff {a b c d : Char} : (∃ u, hex4? a b c d = some u) ↔ ∀ x ∈ [a, b, c, d], HexDigit x := by
  have hread (cs : List Char) : ∀ acc, (∃ u, readDigits 16 acc cs = some u) ↔ ∀ x ∈ cs, HexDigit x := by
    induction cs with
    | nil => exact fun acc => iff_of_true ⟨acc, rfl⟩ nofun
    | cons x cs ih =>
      intro acc
      simp only [readDigits, List.forall_mem_cons, hexDigit_iff (c := x)]
      cases hx : digitIn? 16 x with
      | none => simp
      | some n => simpa using ih _
  exact hread [a, b, c, d] 0

/-- The characters that may follow a backslash, other than the one in front of four digits. -/
theorem exists_unescape?_iff : (∃ u, unescape? c = some u) ↔ c ∈ ['"', '\\', '/', 'b', 'f', 'n', 'r', 't'] := by
  unfold unescape?
  split_ifs <;> simp_all

/-- What is read as a string literal is one. -/
theorem readUnits_sound {us : List Nat} (h : readUnits cs = some (us, rest)) :
    ∃ body, StringBody body ∧ cs = body ++ '"' :: rest := by
  fun_induction readUnits cs generalizing us with
  | case1 => cases h
  | case2 rest' =>
    cases h
    exact ⟨[], .nil, rfl⟩
  | case3 a b c d rest' ih =>
    obtain ⟨u, hu, hrest⟩ := Option.bind_eq_some_iff.1 h
    obtain ⟨⟨us', rest''⟩, hread, hpair⟩ := Option.map_eq_some_iff.1 hrest
    cases hpair
    obtain ⟨body, hbody, rfl⟩ := ih hread
    exact ⟨_, .append (.hex (exists_hex4?_iff.1 ⟨u, hu⟩)) hbody, rfl⟩
  | case4 c rest' _ ih =>
    obtain ⟨u, hu, hrest⟩ := Option.bind_eq_some_iff.1 h
    obtain ⟨⟨us', rest''⟩, hread, hpair⟩ := Option.map_eq_some_iff.1 hrest
    cases hpair
    obtain ⟨body, hbody, rfl⟩ := ih hread
    exact ⟨_, .append (.escape (exists_unescape?_iff.1 ⟨u, hu⟩)) hbody, rfl⟩
  | case5 => cases h
  | case6 c rest' hquote _ hslash hcontrol ih =>
    obtain ⟨⟨us', rest''⟩, hread, hpair⟩ := Option.map_eq_some_iff.1 h
    cases hpair
    obtain ⟨body, hbody, rfl⟩ := ih hread
    -- a backslash has something behind it here, and would have been read with it
    have hplain : c ≠ '\\' := by
      rintro rfl
      cases body with
      | nil => exact hslash _ _ rfl rfl
      | cons d body => exact hslash _ _ rfl rfl
    exact ⟨_, .append (.plain hquote hplain hcontrol) hbody, rfl⟩

/-- What stands for one character is read, whatever stands behind it. -/
theorem exists_readUnits_char {unit : List Char} (h : StringChar unit) :
    ∃ u, ∀ rest, readUnits (unit ++ rest) = (readUnits rest).map fun p => (u :: p.1, p.2) := by
  cases h with
  | @plain c hquote hslash hcontrol =>
    refine ⟨c.toNat, fun rest => ?_⟩
    rw [List.singleton_append, readUnits.eq_5 _ _ hquote (fun _ _ _ _ _ h _ => hslash h) (fun _ _ h _ => hslash h),
      if_neg hcontrol]
  | escape h =>
    obtain ⟨u, hu⟩ := exists_unescape?_iff.2 h
    exact ⟨u, readUnits_unescape hu⟩
  | hex h =>
    obtain ⟨u, hu⟩ := exists_hex4?_iff.2 h
    refine ⟨u, fun rest => ?_⟩
    simp only [List.cons_append, List.nil_append]
    rw [readUnits.eq_3, hu, Option.bind_some]

/-- A string literal is read up to its closing quote. -/
theorem exists_readUnits {body : List Char} (h : StringBody body) :
    ∃ us, ∀ rest, readUnits (body ++ '"' :: rest) = some (us, rest) := by
  induction h with
  | nil => exact ⟨[], fun _ => rfl⟩
  | append hunit _ ih =>
    obtain ⟨u, hu⟩ := exists_readUnits_char hunit
    obtain ⟨us, hus⟩ := ih
    exact ⟨u :: us, fun rest => by rw [List.append_assoc, hu, hus, Option.map_some]⟩

/-! ## Numbers -/

/-- Nothing that digits could go on with. -/
def EndsDigits (rest : List Char) : Prop := ∀ c ∈ rest.head?, isDigit c = false

/-- Nothing that a number could go on with. -/
def Ends (rest : List Char) : Prop := ∀ c ∈ rest.head?, isDigit c = false ∧ c ≠ '.' ∧ c ≠ 'e' ∧ c ≠ 'E'

theorem ends_nil : Ends [] := fun c hc => (Option.some_ne_none c hc.symm).elim

/-- A number may end in front of a character that cannot go on with it. -/
theorem ends_cons (hc : isDigit c = false ∧ c ≠ '.' ∧ c ≠ 'e' ∧ c ≠ 'E') (cs : List Char) : Ends (c :: cs) := by
  rintro d ⟨⟩
  exact hc

theorem Ends.endsDigits (h : Ends rest) : EndsDigits rest := fun c hc => (h c hc).1

theorem endsDigits_cons (hc : isDigit c = false) (cs : List Char) : EndsDigits (c :: cs) := by
  rintro d ⟨⟩
  exact hc

/-- What is read as digits are digits, and the rest follows them. -/
theorem digits1_sound (h : digits1 cs = some (ds, rest)) : cs = ds ++ rest ∧ Digits ds := by
  unfold digits1 at h
  simp only at h
  split at h
  · cases h
  · rename_i hne
    obtain ⟨rfl, rfl⟩ := Prod.mk.inj (Option.some.inj h)
    exact ⟨List.takeWhile_append_dropWhile.symm, by simpa using hne, fun c hc => List.mem_takeWhile_imp hc⟩

/-- Digits are read as far as they go. -/
theorem digits1_of_ends (h : Digits ds) (hrest : EndsDigits rest) : digits1 (ds ++ rest) = some (ds, rest) := by
  have hstop : rest.takeWhile isDigit = [] ∧ rest.dropWhile isDigit = rest := by
    cases rest with
    | nil => exact ⟨rfl, rfl⟩
    | cons c rest =>
      have hc : ¬isDigit c = true := by simp [hrest c rfl]
      exact ⟨List.takeWhile_cons_of_neg hc, List.dropWhile_cons_of_neg hc⟩
  unfold digits1
  rw [List.takeWhile_append_of_pos h.2, List.dropWhile_append_of_pos h.2, hstop.1, hstop.2, List.append_nil]
  simp [h.1]

/-- What is read as a whole part is one, and the rest follows it. -/
theorem wholePart_sound (h : wholePart cs = some (ds, rest)) : cs = ds ++ rest ∧ Whole ds := by
  obtain ⟨hread, hzero⟩ := Option.filter_eq_some_iff.1 h
  obtain ⟨hcs, hdigits⟩ := digits1_sound hread
  exact ⟨hcs, hdigits, by simpa using hzero⟩

/-- A whole part is read as far as it goes. -/
theorem wholePart_of_ends (h : Whole ds) (hrest : EndsDigits rest) : wholePart (ds ++ rest) = some (ds, rest) := by
  rw [wholePart, digits1_of_ends h.1 hrest, Option.filter_some, if_pos]
  simpa using h.2

/-- What is read as a fraction is one, and the rest follows it. -/
theorem pointPart_sound (h : pointPart cs = some (ds, rest)) : cs = ds ++ rest ∧ Fraction ds := by
  unfold pointPart at h
  split at h
  · obtain ⟨⟨ds', rest'⟩, hread, hpair⟩ := Option.map_eq_some_iff.1 h
    cases hpair
    obtain ⟨rfl, hdigits⟩ := digits1_sound hread
    exact ⟨rfl, .point hdigits⟩
  · cases h
    exact ⟨rfl, .none⟩

/-- A fraction is read as far as it goes. -/
theorem pointPart_of_ends (h : Fraction ds) (hrest : EndsDigits rest) (hpoint : ∀ c ∈ rest.head?, c ≠ '.') :
    pointPart (ds ++ rest) = some (ds, rest) := by
  cases h with
  | none =>
    rw [List.nil_append]
    unfold pointPart
    split
    · exact absurd rfl (hpoint '.' rfl)
    · rfl
  | point h => rw [List.cons_append, pointPart, digits1_of_ends h hrest, Option.map_some]

/-- What is read as an exponent is one, and the rest follows it. -/
theorem exponentPart_sound (h : exponentPart cs = some (ds, rest)) : cs = ds ++ rest ∧ Exponent ds := by
  unfold exponentPart at h
  split at h
  · split at h
    · rename_i he
      split at h
      · split at h
        · rename_i hs
          obtain ⟨⟨ds', rest'⟩, hread, hpair⟩ := Option.map_eq_some_iff.1 h
          cases hpair
          obtain ⟨rfl, hdigits⟩ := digits1_sound hread
          exact ⟨rfl, .signed he hs hdigits⟩
        · obtain ⟨⟨ds', rest'⟩, hread, hpair⟩ := Option.map_eq_some_iff.1 h
          cases hpair
          obtain ⟨hcs, hdigits⟩ := digits1_sound hread
          exact ⟨congrArg _ hcs, .plain he hdigits⟩
      · cases h
    · cases h
      exact ⟨rfl, .none⟩
  · cases h
    exact ⟨rfl, .none⟩

/-- An exponent is read as far as it goes. -/
theorem exponentPart_of_ends (h : Exponent ds) (hrest : Ends rest) : exponentPart (ds ++ rest) = some (ds, rest) := by
  cases h with
  | none =>
    cases rest with
    | nil => rfl
    | cons c rest =>
      obtain ⟨-, -, hlower, hupper⟩ := hrest c rfl
      exact if_neg (not_or.2 ⟨hlower, hupper⟩)
  | @plain e cs he h =>
    obtain ⟨d, cs, rfl⟩ := List.exists_cons_of_ne_nil h.1
    have hd := h.2 d List.mem_cons_self
    have hsign : ¬(d = '+' ∨ d = '-') := by
      rintro (rfl | rfl)
      · exact absurd hd (by decide)
      · exact absurd hd (by decide)
    have hread := digits1_of_ends h hrest.endsDigits
    rw [List.cons_append] at hread
    rw [List.cons_append, List.cons_append, exponentPart, if_pos he]
    simp only [if_neg hsign, hread, Option.map_some]
  | signed he hs h =>
    rw [List.cons_append, List.cons_append, exponentPart, if_pos he]
    simp only [if_pos hs, digits1_of_ends h hrest.endsDigits, Option.map_some]

/-- What is read as a number is one. -/
theorem readNumber_sound (h : readNumber cs = some (ds, rest)) : cs = ds ++ rest ∧ Number ds := by
  obtain ⟨⟨whole, behindWhole⟩, hwhole, hread⟩ := Option.bind_eq_some_iff.1 h
  obtain ⟨⟨fraction, behindFraction⟩, hfraction, hread⟩ := Option.bind_eq_some_iff.1 hread
  obtain ⟨⟨exponent, behind⟩, hexponent, hread⟩ := Option.bind_eq_some_iff.1 hread
  obtain ⟨rfl, rfl⟩ := Prod.mk.inj (Option.some.inj hread)
  obtain ⟨rfl, hw⟩ := wholePart_sound hwhole
  obtain ⟨rfl, hf⟩ := pointPart_sound hfraction
  obtain ⟨rfl, he⟩ := exponentPart_sound hexponent
  simp only [List.append_assoc]
  exact ⟨trivial, .parts hw hf he⟩

/-- A number is read up to where it ends. -/
theorem readNumber_of_ends (h : Number ds) (hrest : Ends rest) : readNumber (ds ++ rest) = some (ds, rest) := by
  obtain @⟨whole, fraction, exponent, hw, hf, he⟩ := h
  have hexponent : EndsDigits (exponent ++ rest) ∧ ∀ c ∈ (exponent ++ rest).head?, c ≠ '.' := by
    have hletter {e : Char} (he : e = 'e' ∨ e = 'E') (cs : List Char) : EndsDigits (e :: cs) ∧ ∀ c ∈ (e :: cs).head?, c ≠ '.' := by
      rcases he with rfl | rfl
      · exact ⟨endsDigits_cons (by decide) cs, by rintro c ⟨⟩; decide⟩
      · exact ⟨endsDigits_cons (by decide) cs, by rintro c ⟨⟩; decide⟩
    cases he with
    | none => exact ⟨hrest.endsDigits, fun c hc => (hrest c hc).2.1⟩
    | plain he => exact hletter he _
    | signed he => exact hletter he _
  have hfraction : EndsDigits (fraction ++ (exponent ++ rest)) := by
    cases hf with
    | none => exact hexponent.1
    | point => exact endsDigits_cons (by decide) _
  simp only [List.append_assoc]
  rw [readNumber, wholePart_of_ends hw hfraction]
  simp only [Option.bind_eq_bind, Option.bind_some, pointPart_of_ends hf hexponent.1 hexponent.2, exponentPart_of_ends he hrest,
    Option.pure_def, List.append_assoc]

end AddressSpace.Json
