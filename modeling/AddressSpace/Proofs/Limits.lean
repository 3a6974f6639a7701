import AddressSpace.Limits
import AddressSpace.Proofs.Text.Blank
/-!
# Limits that an environment sets

A setting is a number by the syntax for numbers from outside: decimal digits, with a plus sign before them or not
(`Text.unsigned?_eq_some_iff`). Its limit is the number if that is in range and its text has another character than zeros, and the
default otherwise (`Limits.positive?_eq_some_iff`). A plus sign is such a character, so that a limit can still be set to zero: with a
plus sign before the zeros, and in no other way (`Limits.limits_settled`).
-/

namespace AddressSpace

namespace Text

variable {bound n : Nat} {c : Char} {cs : List Char}

/-- One or more decimal digits, and the number that they stand for. -/
inductive Decimal : List Char → Nat → Prop where
  | digit {d : Nat} (hd : d < 10) : Decimal [digitChar d] d
  | snoc {cs : List Char} {n d : Nat} (h : Decimal cs n) (hd : d < 10) : Decimal (cs ++ [digitChar d]) (n * 10 + d)

/-- A number from outside: decimal digits, with a plus sign before them or not. -/
inductive Numeral : List Char → Nat → Prop where
  | plain {cs : List Char} {n : Nat} (h : Decimal cs n) : Numeral cs n
  | signed {cs : List Char} {n : Nat} (h : Decimal cs n) : Numeral ('+' :: cs) n

/-! ## Decimal digits -/

/-- The decimal digits are the characters that are written for the numbers below ten. -/
theorem digitIn?_eq_some_iff {d : Nat} : digitIn? 10 c = some d ↔ d < 10 ∧ c = digitChar d := by
  constructor
  · intro h
    obtain ⟨hvalue, hlt⟩ := Option.filter_eq_some_iff.1 h
    have hd : d < 10 := of_decide_eq_true hlt
    refine ⟨hd, ?_⟩
    unfold digitValue? at hvalue
    split at hvalue
    · rename_i hdigit
      have hc : '0'.toNat ≤ c.toNat := hdigit.1
      obtain rfl := Option.some.inj hvalue
      rw [digitChar, if_pos hd, Nat.add_sub_cancel' hc, Char.ofNat_toNat]
    -- letters stand for more than nine
    · split at hvalue
      · obtain rfl := Option.some.inj hvalue
        omega
      · split at hvalue
        · obtain rfl := Option.some.inj hvalue
          omega
        · cases hvalue
  · rintro ⟨hd, rfl⟩
    exact digitIn?_digitChar hd (by decide)

/-- Digits that are read on top of others stand behind these. -/
theorem Decimal.append {pre : List Char} {acc : Nat} (hpre : Decimal pre acc) (h : readDigits 10 acc cs = some n) :
    Decimal (pre ++ cs) n := by
  induction cs generalizing pre acc with
  | nil =>
    obtain rfl : acc = n := Option.some.inj h
    rwa [List.append_nil]
  | cons c cs ih =>
    obtain ⟨d, hd, hrest⟩ := Option.bind_eq_some_iff.1 h
    obtain ⟨hlt, rfl⟩ := digitIn?_eq_some_iff.1 hd
    have := ih (hpre.snoc hlt) hrest
    rwa [List.append_assoc] at this

/-- A decimal numeral has a digit. -/
theorem Decimal.ne_nil (h : Decimal cs n) : cs ≠ [] := by
  cases h with
  | digit => exact List.cons_ne_nil _ _
  | snoc => exact List.append_ne_nil_of_right_ne_nil _ (List.cons_ne_nil _ _)

/-- A decimal numeral is read as its value. -/
theorem Decimal.readDigits (h : Decimal cs n) : readDigits 10 0 cs = some n := by
  induction h with
  | digit hd =>
    rw [Text.readDigits, digitIn?_eq_some_iff.2 ⟨hd, rfl⟩, Option.bind_some, Text.readDigits, Nat.zero_mul, Nat.zero_add]
  | snoc _ hd ih => rw [readDigits_append, ih, Option.bind_some, Text.readDigits, digitIn?_eq_some_iff.2 ⟨hd, rfl⟩]; rfl

/-- Digits are read as a number just when they are a decimal numeral for it, with at least one digit. -/
theorem value?_eq_some_iff : value? 10 cs = some n ↔ Decimal cs n := by
  constructor
  · intro h
    cases cs with
    | nil => cases h
    | cons c cs =>
      obtain ⟨d, hd, hrest⟩ := Option.bind_eq_some_iff.1 h
      obtain ⟨hlt, rfl⟩ := digitIn?_eq_some_iff.1 hd
      rw [Nat.zero_mul, Nat.zero_add] at hrest
      exact (Decimal.digit hlt).append hrest
  · intro h
    have hne : cs.isEmpty = false := by simpa using h.ne_nil
    rw [value?, hne]
    exact h.readDigits

/-- Digits stand for zero when they are zeros. -/
theorem Decimal.eq_zero_iff (h : Decimal cs n) : n = 0 ↔ ∀ c ∈ cs, c = '0' := by
  induction h with
  | digit hd => simp [digitChar_eq_zero_iff (Nat.lt_of_lt_of_le hd (by decide))]
  | @snoc cs n d _ hd ih =>
    have hzero : n * 10 + d = 0 ↔ n = 0 ∧ d = 0 := by omega
    rw [hzero, ih, List.forall_mem_append, List.forall_mem_singleton,
      digitChar_eq_zero_iff (Nat.lt_of_lt_of_le hd (by decide))]

/-! ## Numbers from outside -/

/-- A plus sign is no digit. -/
theorem not_decimal_plus : ¬Decimal ('+' :: cs) n := by
  intro h
  cases h.readDigits

/-- A text is read as a number without a sign just when it is a numeral for it, with a plus sign or without, and the number is in
bounds. -/
theorem unsigned?_eq_some_iff : unsigned? bound cs = some n ↔ Numeral cs n ∧ n < bound := by
  have hbody (ds : List Char) : (value? 10 ds).filter (· < bound) = some n ↔ Decimal ds n ∧ n < bound := by
    rw [Option.filter_eq_some_iff, value?_eq_some_iff, decide_eq_true_eq]
  unfold unsigned?
  rw [hbody]
  refine and_congr_left fun _ => ⟨fun h => ?_, fun h => ?_⟩
  · split at h
    · exact .signed h
    · exact .plain h
  · cases h with
    | signed h => exact h
    | plain h =>
      split
      · exact absurd h not_decimal_plus
      · exact h

/-- Zeros with a plus sign before them are the only number zero with another character than zeros. -/
theorem numeral_zero_iff : (Numeral cs 0 ∧ ∃ c ∈ cs, c ≠ '0') ↔ ∃ k, cs = '+' :: List.replicate (k + 1) '0' := by
  constructor
  · rintro ⟨h, c, hc, hne⟩
    cases h with
    | plain h => exact absurd (h.eq_zero_iff.1 rfl c hc) hne
    | signed h =>
      obtain ⟨d, ds, rfl⟩ := List.exists_cons_of_ne_nil h.ne_nil
      exact ⟨ds.length, congrArg _ (List.eq_replicate_of_mem (h.eq_zero_iff.1 rfl))⟩
  · rintro ⟨k, rfl⟩
    refine ⟨.signed ?_, '+', List.mem_cons_self, by decide⟩
    induction k with
    | zero => exact .digit (d := 0) (by decide)
    | succ k ih =>
      rw [List.replicate_succ']
      exact ih.snoc (d := 0) (by decide)

end Text

namespace Limits

open Text (Numeral trimChars)

/-- The numbers that a setting may have. -/
def Setting.bound : Setting → Nat
  | splitDepth => UInt8.size
  | planEntriesV4 => UInt64.size
  | planEntriesV6 => UInt64.size
  | mergeMembers => UInt64.size

/-- The limit that a setting is for. -/
def value (l : Limits) : Setting → Nat
  | .splitDepth => l.splitDepth.toNat
  | .planEntriesV4 => l.planEntriesV4.toNat
  | .planEntriesV6 => l.planEntriesV6.toNat
  | .mergeMembers => l.mergeMembers.toNat

/-- The text sets the limit to `n`: without the blanks around it, it is the numeral of `n`, which is in range, and not all zeros. -/
structure Sets (s : Setting) (text : String) (n : Nat) : Prop where
  numeral : Numeral (trimChars text.toList) n
  lt : n < s.bound
  other : ∃ c ∈ trimChars text.toList, c ≠ '0'

variable {s : Setting} {text : String} {n : Nat}

/-- A text is read as a limit just when it sets the limit. -/
theorem positive?_eq_some_iff : positive? s.bound text = some n ↔ Sets s text n := by
  unfold positive?
  simp only [List.all_eq_true, beq_iff_eq]
  split
  · rename_i hzeros
    exact iff_of_false nofun fun h => h.other.elim fun c hc => hc.2 (hzeros c hc.1)
  · rename_i hzeros
    rw [Text.unsigned?_eq_some_iff]
    push Not at hzeros
    exact ⟨fun h => ⟨h.1, h.2, hzeros⟩, fun h => ⟨h.numeral, h.lt⟩⟩

/-- What is read of a setting is in range. -/
theorem lt_of_mem_setting {env : String → Option String} (h : n ∈ (env s.variable).bind (positive? s.bound)) : n < s.bound := by
  obtain ⟨text, -, htext⟩ := Option.bind_eq_some_iff.1 h
  exact (positive?_eq_some_iff.1 htext).lt

/-- A limit is what its setting says, or the default. -/
theorem value_ofEnvironment (env : String → Option String) (s : Setting) :
    (ofEnvironment env).value s = ((env s.variable).bind (positive? s.bound)).getD (standard.value s) := by
  cases hread : (env s.variable).bind (positive? s.bound) with
  | none => cases s <;> simp only [Setting.bound] at hread <;> simp only [value, ofEnvironment, hread, Option.getD_none]
  | some n =>
    have hn : n < s.bound := lt_of_mem_setting hread
    rw [Option.getD_some]
    cases s with
    | splitDepth =>
      simp only [Setting.bound] at hread hn
      simp only [value, ofEnvironment, hread, UInt8.toNat_ofNat_of_lt' hn]
    | _ =>
      simp only [Setting.bound] at hread hn
      simp only [value, ofEnvironment, hread, UInt64.toNat_ofNat_of_lt' hn]

/-- Where a limit comes from: the text of its setting, or the defaults if there is none that sets it. -/
inductive Settled (env : String → Option String) (s : Setting) (n : Nat) : Prop where
  | set {text : String} (given : env s.variable = some text) (sets : Sets s text n)
  | unset (nothing : ∀ text m, env s.variable = some text → ¬Sets s text m) (default : n = standard.value s)

/-- A limit that is read from the environment is settled by it, as its own setting says. -/
theorem settled_ofEnvironment (env : String → Option String) (s : Setting) :
    Settled env s ((ofEnvironment env).value s) := by
  rw [value_ofEnvironment]
  cases hread : (env s.variable).bind (positive? s.bound) with
  | none =>
    refine .unset (fun text m hgiven hsets => ?_) rfl
    rw [hgiven, Option.bind_some, positive?_eq_some_iff.2 hsets] at hread
    cases hread
  | some n =>
    obtain ⟨text, hgiven, htext⟩ := Option.bind_eq_some_iff.1 hread
    exact .set hgiven (positive?_eq_some_iff.1 htext)

/-- In every environment each limit is the number that its setting is the numeral of, if that is in range and not written with zeros
alone, and the default otherwise. It is zero just when the setting is zeros with a plus sign before them. -/
theorem limits_settled (env : String → Option String) (s : Setting) :
    Settled env s ((ofEnvironment env).value s) ∧
      ((ofEnvironment env).value s = 0 ↔
        ∃ text k, env s.variable = some text ∧ trimChars text.toList = '+' :: List.replicate (k + 1) '0') := by
  have hsettled := settled_ofEnvironment env s
  refine ⟨hsettled, fun hzero => ?_, ?_⟩
  · rw [hzero] at hsettled
    cases hsettled with
    | set hgiven hsets =>
      obtain ⟨k, hk⟩ := Text.numeral_zero_iff.1 ⟨hsets.numeral, hsets.other⟩
      exact ⟨_, k, hgiven, hk⟩
    | unset _ hdefault => cases s <;> cases hdefault
  · rintro ⟨text, k, hgiven, htext⟩
    obtain ⟨hnumeral, hother⟩ := Text.numeral_zero_iff.2 ⟨k, htext⟩
    have hbound : 0 < s.bound := by cases s <;> decide
    rw [value_ofEnvironment, hgiven, Option.bind_some, positive?_eq_some_iff.2 ⟨hnumeral, hbound, hother⟩]
    rfl

/-- A limit may be zero, although a setting of zeros is refused. -/
theorem limits_not_always_positive :
    ¬∀ (env : String → Option String) (s : Setting), 1 ≤ (ofEnvironment env).value s := by
  intro hpositive
  let env : String → Option String := fun v => if v = "IPAM_MERGE_MEMBERS" then some "+0" else none
  have hzero : (ofEnvironment env).value .mergeMembers = 0 := by decide +kernel
  exact Nat.not_lt_zero 0 (hzero ▸ hpositive env .mergeMembers)

end Limits

end AddressSpace
