/-!
# Splitting a text at a separator

`split` cuts at every occurrence of a character, so a text without it is one part; `splitFirst?` cuts at the first one
only; `join` is the way back (`join_split`, `split_join`).
-/

namespace AddressSpace.Text

/-- The parts between the occurrences of `sep`. There is always at least one. -/
def split (sep : Char) : List Char → List (List Char)
  | [] => [[]]
  | c :: cs =>
    if c = sep then [] :: split sep cs
    else match split sep cs with
      | [] => [[c]]
      | part :: parts => (c :: part) :: parts

/-- What stands before and after the first `sep`. -/
def splitFirst? (sep : Char) : List Char → Option (List Char × List Char)
  | [] => none
  | c :: cs =>
    if c = sep then some ([], cs) else (splitFirst? sep cs).map fun p => (c :: p.1, p.2)

/-- What stands before and after the first doubled `sep`. -/
def splitDouble? (sep : Char) : List Char → Option (List Char × List Char)
  | [] => none
  | c :: cs =>
    if c = sep ∧ cs.head? = some sep then some ([], cs.tail)
    else (splitDouble? sep cs).map fun p => (c :: p.1, p.2)

/-- The parts with `sep` between them. -/
def join (sep : Char) : List (List Char) → List Char
  | [] => []
  | [part] => part
  | part :: parts => part ++ sep :: join sep parts

/-- A text without the separator is one part. -/
theorem split_of_not_mem {sep : Char} {cs : List Char} (h : sep ∉ cs) : split sep cs = [cs] := by
  induction cs with
  | nil => rfl
  | cons c cs ih =>
    rw [List.mem_cons, not_or] at h
    rw [split, if_neg (Ne.symm h.1), ih h.2]

/-- The first part ends at the first separator. -/
theorem split_append {sep : Char} {part : List Char} (h : sep ∉ part) (cs : List Char) :
    split sep (part ++ sep :: cs) = part :: split sep cs := by
  induction part with
  | nil => simp [split]
  | cons c part ih =>
    rw [List.mem_cons, not_or] at h
    rw [List.cons_append, split, if_neg (Ne.symm h.1), ih h.2]

/-- Splitting gives back parts that were joined, if none of them holds the separator. -/
theorem split_join {sep : Char} {parts : List (List Char)} (hne : parts ≠ []) (h : ∀ part ∈ parts, sep ∉ part) :
    split sep (join sep parts) = parts := by
  induction parts with
  | nil => exact absurd rfl hne
  | cons part rest ih =>
    have hp : sep ∉ part := h part List.mem_cons_self
    cases rest with
    | nil => exact split_of_not_mem hp
    | cons q qs =>
      rw [join, split_append hp, ih (List.cons_ne_nil q qs) fun r hr => h r (List.mem_cons_of_mem part hr)]
      exact List.cons_ne_nil q qs

/-- A text has at least one part. -/
theorem split_ne_nil (sep : Char) (cs : List Char) : split sep cs ≠ [] := by
  cases cs with
  | nil => simp [split]
  | cons c cs =>
    rw [split]
    split
    · simp
    · split <;> simp

/-- Joining the parts gives the text back. -/
theorem join_split (sep : Char) (cs : List Char) : join sep (split sep cs) = cs := by
  induction cs with
  | nil => rfl
  | cons c cs ih =>
    rw [split]
    split
    · rename_i h
      cases hs : split sep cs with
      | nil => exact absurd hs (split_ne_nil sep cs)
      | cons part parts => rw [join, ← hs, ih, h]; rfl; simp
    · cases hs : split sep cs with
      | nil => exact absurd hs (split_ne_nil sep cs)
      | cons part parts =>
        rw [hs] at ih
        cases parts with
        | nil => simp_all [join]
        | cons q qs => simp only [join] at *; rw [← ih]; rfl

end AddressSpace.Text
