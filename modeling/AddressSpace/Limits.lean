import AddressSpace.Family
import AddressSpace.Text.Blank
import AddressSpace.Text.Numeral
/-!
# Limits

How large an operation may get. Each limit has a default, which the environment may override with a positive number.
-/

namespace AddressSpace

/-- The largest operations that are allowed. -/
structure Limits where
  /-- By how many bits a uniform split may lengthen. -/
  splitDepth : UInt8
  /-- The entries of an explicit plan in the 32-bit family. -/
  planEntriesV4 : UInt64
  /-- The entries of an explicit plan in the 128-bit family. -/
  planEntriesV6 : UInt64
  /-- The members of a merge. -/
  mergeMembers : UInt64
  deriving DecidableEq

namespace Limits

open Text

/-- The limits where nothing is set. -/
def standard : Limits := ⟨8, 1024, 256, 256⟩

/-- The entries of an explicit plan. -/
def planEntries (l : Limits) : Family → Nat
  | .v4 => l.planEntriesV4.toNat
  | .v6 => l.planEntriesV6.toNat

/-- The number below `bound` that a setting stands for, blanks around it aside. A setting of nothing but zeros would
forbid the operation altogether, so it counts as no number. -/
def positive? (bound : Nat) (s : String) : Option Nat :=
  let cs := trimChars s.toList
  if cs.all (· == '0') then none else unsigned? bound cs

/-- The settings that the environment may hold. -/
inductive Setting where
  | splitDepth
  | planEntriesV4
  | planEntriesV6
  | mergeMembers
  deriving DecidableEq

/-- The environment variable of a setting. -/
def Setting.variable : Setting → String
  | splitDepth => "IPAM_SPLIT_PREFIX_DIFF"
  | planEntriesV4 => "IPAM_PLAN_ENTRIES_V4"
  | planEntriesV6 => "IPAM_PLAN_ENTRIES_V6"
  | mergeMembers => "IPAM_MERGE_MEMBERS"

/-- The limits in an environment, which gives the text of a variable if it is set. -/
def ofEnvironment (env : String → Option String) : Limits :=
  let word (s : Setting) (default : UInt64) :=
    match (env s.variable).bind (positive? UInt64.size) with
    | some n => UInt64.ofNat n
    | none => default
  let octet (s : Setting) (default : UInt8) :=
    match (env s.variable).bind (positive? UInt8.size) with
    | some n => UInt8.ofNat n
    | none => default
  ⟨octet .splitDepth standard.splitDepth, word .planEntriesV4 standard.planEntriesV4,
    word .planEntriesV6 standard.planEntriesV6, word .mergeMembers standard.mergeMembers⟩

end Limits

end AddressSpace
