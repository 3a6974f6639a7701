import AddressSpace.Proofs.Text.Blank
import AddressSpace.Text.Search
/-!
# Lower case inside a text

The lower-case form of a text is that of its parts, one after the other, when each part is looked at where it stands
(`lowerAfter_append`): what comes before and after it matters to a capital sigma, which may end a word, and to nothing else
(`lowerBetween_congr`). So a part has the form that it has on its own when its capital sigmas keep theirs, as they do between
blanks (`undisturbed_of_blank`). A term matches every text that it occurs in in this way (`matches_of_occurs`).
-/

namespace AddressSpace.Text

variable {part cs ds before after before' after' : List Char} {c : Char}

/-! ## Occurrences -/

/-- A text occurs in another just when it is a part of it without gaps. -/
theorem occursIn_iff : occursIn part cs = true ↔ part <:+: cs := by
  induction cs with
  | nil => rw [occursIn, List.isEmpty_iff, List.infix_nil]
  | cons c cs ih => rw [occursIn, Bool.or_eq_true, List.isPrefixOf_iff_prefix, ih, List.infix_cons_iff]

/-! ## Parts of a text -/

/-- Whether a sigma ends a word, with the characters `before` it, nearest first, and those after it. -/
def endsWord (before after : List Char) : Bool := meetsCased before && !meetsCased after

/-- The lower-case form of a character with the characters before it, nearest first, and after it. -/
def lowerAt (before : List Char) (c : Char) (after : List Char) : List Char :=
  if c.toNat = 0x3A3 then [Char.ofNat (if endsWord before after then 0x3C2 else 0x3C3)] else lowerChar c

/-- The lower-case form of a part with the characters before it, nearest first, and after it. -/
def lowerBetween (before after : List Char) : List Char → List Char
  | [] => []
  | c :: cs => lowerAt before c (cs ++ after) ++ lowerBetween (c :: before) after cs

/-- Lowering a text goes on behind its first part with that part in front. -/
theorem lowerAfter_append (before cs ds : List Char) :
    lowerAfter before (cs ++ ds) = lowerBetween before ds cs ++ lowerAfter (cs.reverse ++ before) ds := by
  induction cs generalizing before with
  | nil => rfl
  | cons c cs ih =>
    have hcons : lowerAfter before (c :: (cs ++ ds)) = lowerAt before c (cs ++ ds) ++ lowerAfter (c :: before) (cs ++ ds) := rfl
    rw [List.cons_append, hcons, ih, lowerBetween, List.append_assoc, List.reverse_cons, List.append_assoc]
    rfl

/-- The form of a part depends on what is around it only by the capital sigmas that end a word there. -/
theorem lowerBetween_congr (h : ∀ us c vs, cs = us ++ c :: vs → c.toNat = 0x3A3 →
      endsWord (us.reverse ++ before) (vs ++ after) = endsWord (us.reverse ++ before') (vs ++ after')) :
    lowerBetween before after cs = lowerBetween before' after' cs := by
  induction cs generalizing before before' with
  | nil => rfl
  | cons c cs ih =>
    have hhead : lowerAt before c (cs ++ after) = lowerAt before' c (cs ++ after') := by
      unfold lowerAt
      split
      · rename_i hc
        rw [show endsWord before (cs ++ after) = endsWord before' (cs ++ after') from h [] c cs rfl hc]
      · rfl
    rw [lowerBetween, lowerBetween, hhead, ih fun us d vs hcs hd => ?_]
    have := h (c :: us) d vs (by rw [hcs]; rfl) hd
    rwa [List.reverse_cons, List.append_assoc, List.append_assoc] at this

/-! ## Blanks -/

/-- A character in one of the ranges is in none of the ranges that lie apart from these. -/
theorem inRanges_of_apart {rs ss : List (Nat × Nat)} (h : ∀ r ∈ rs, ∀ s ∈ ss, r.2 < s.1 ∨ s.2 < r.1)
    (hc : inRanges rs c = true) : inRanges ss c = false := by
  simp only [inRanges, List.any_eq_true, Bool.and_eq_true, decide_eq_true_eq] at hc
  obtain ⟨r, hr, hc⟩ := hc
  simp only [inRanges, List.any_eq_false, Bool.and_eq_true, decide_eq_true_eq]
  intro s hs
  have := h r hr s hs
  omega

/-- A blank is neither cased nor passed over. -/
theorem case_of_blank (h : isBlank c = true) : isCased c = false ∧ isCaseIgnorable c = false :=
  ⟨inRanges_of_apart (by decide +kernel) h, inRanges_of_apart (by decide +kernel) h⟩

/-- Whether a cased letter is next depends on the first character that is not passed over. -/
theorem meetsCased_cons (c : Char) (cs : List Char) :
    meetsCased (c :: cs) = if isCaseIgnorable c then meetsCased cs else isCased c := by
  rw [meetsCased, List.dropWhile_cons]
  cases isCaseIgnorable c <;> rfl

/-- What follows a blank makes no difference, nor does the blank. -/
theorem meetsCased_append (h : ∀ d ∈ ds.head?, isBlank d = true) (cs : List Char) : meetsCased (cs ++ ds) = meetsCased cs := by
  induction cs with
  | nil =>
    cases ds with
    | nil => rfl
    | cons d ds =>
      obtain ⟨hcased, hignorable⟩ := case_of_blank (h d rfl)
      rw [List.nil_append, meetsCased_cons, hignorable, hcased]
      rfl
  | cons c cs ih => rw [List.cons_append, meetsCased_cons, meetsCased_cons, ih]

/-! ## Parts that are left as they are -/

/-- Each capital sigma of a part ends a word where the part stands just when it ends one in the part on its own. -/
def Undisturbed (before cs after : List Char) : Prop :=
  ∀ us c vs, cs = us ++ c :: vs → c.toNat = 0x3A3 → endsWord (us.reverse ++ before) (vs ++ after) = endsWord us.reverse vs

/-- A part without a capital sigma cannot be disturbed. -/
theorem undisturbed_of_notMem (h : 'Σ' ∉ cs) (before after : List Char) : Undisturbed before cs after := by
  intro us c vs hcs hc
  have hsigma : c = 'Σ' := Char.toNat_inj.1 hc
  exact absurd (by simp [hcs, hsigma]) h

/-- Nor can one that stands between blanks, or between the ends of the text. -/
theorem undisturbed_of_blank (hbefore : ∀ c ∈ before.head?, isBlank c = true) (hafter : ∀ c ∈ after.head?, isBlank c = true) :
    Undisturbed before cs after := by
  intro us c vs _ _
  rw [endsWord, meetsCased_append hbefore, meetsCased_append hafter, endsWord]

/-- A part with blanks around it is left as it is when it is so together with these. -/
theorem Undisturbed.trimmed {front back : List Char} (h : Undisturbed before (front ++ cs ++ back) after)
    (hfront : ∀ c ∈ front, isBlank c = true) (hback : ∀ c ∈ back, isBlank c = true) :
    Undisturbed (front.reverse ++ before) cs (back ++ after) := by
  intro us c vs hcs hc
  have hwhole := h (front ++ us) c (vs ++ back) (by simp [hcs]) hc
  have hown : Undisturbed front.reverse cs back :=
    undisturbed_of_blank (fun c hc => hfront c (List.mem_reverse.1 (List.mem_of_mem_head? hc)))
      fun c hc => hback c (List.mem_of_mem_head? hc)
  rw [List.reverse_append, hown us c vs hcs hc] at hwhole
  rwa [← List.append_assoc, ← List.append_assoc]

/-- A text that nothing around it disturbs is lowered as it is on its own. -/
theorem lowerBetween_eq_lowerChars (h : Undisturbed before cs after) : lowerBetween before after cs = lowerChars cs := by
  have hown : lowerChars cs = lowerBetween [] [] cs := by
    have happend := lowerAfter_append [] cs []
    rwa [List.append_nil, lowerAfter, List.append_nil] at happend
  rw [hown]
  refine lowerBetween_congr fun us c vs hcs hc => ?_
  rw [List.append_nil, List.append_nil]
  exact h us c vs hcs hc

/-- The lower-case form of a text holds that of a part that is left as it is. -/
theorem lowerChars_infix (h : Undisturbed before.reverse cs after) : lowerChars cs <:+: lowerChars (before ++ cs ++ after) := by
  have hparts : lowerChars (before ++ cs ++ after) =
      lowerBetween [] (cs ++ after) before ++ (lowerChars cs ++ lowerAfter (cs.reverse ++ (before.reverse ++ [])) after) := by
    rw [lowerChars, List.append_assoc, lowerAfter_append, lowerAfter_append, List.append_nil, lowerBetween_eq_lowerChars h]
  exact ⟨_, _, (hparts.trans (List.append_assoc ..).symm).symm⟩

/-- No character vanishes when it is lowered. -/
theorem lowerAt_ne_nil (before : List Char) (c : Char) (after : List Char) : lowerAt before c after ≠ [] := by
  unfold lowerAt lowerChar
  split
  · exact List.cons_ne_nil _ _
  · split
    · exact List.cons_ne_nil _ _
    · split
      · exact List.cons_ne_nil _ _
      · exact List.cons_ne_nil _ _

/-- No character is lost. -/
theorem lowerChars_eq_nil_iff : lowerChars cs = [] ↔ cs = [] := by
  cases cs with
  | nil => exact ⟨fun _ => rfl, fun _ => rfl⟩
  | cons c cs =>
    refine ⟨fun h => ?_, fun h => absurd h (List.cons_ne_nil c cs)⟩
    exact absurd (List.append_eq_nil_iff.1 h).1 (lowerAt_ne_nil [] c cs)

/-! ## Search terms -/

/-- The term without the blanks around it stands in the text when both are in lower case. -/
def Matches (term field : String) : Prop := lowerChars (trimChars term.toList) <:+: lowerChars field.toList

/-- The term stands in the text, and its capital sigmas end words there just as they do in the term. -/
def Occurs (term field : String) : Prop :=
  ∃ before after, field.toList = before ++ term.toList ++ after ∧ Undisturbed before.reverse term.toList after

variable {term field : String}

/-- A term without a capital sigma occurs in a text wherever it stands. -/
theorem occurs_of_infix (h : 'Σ' ∉ term.toList) (hin : term.toList <:+: field.toList) : Occurs term field := by
  obtain ⟨before, after, hfield⟩ := hin
  exact ⟨before, after, hfield.symm, undisturbed_of_notMem h _ _⟩

/-- A term of whole words occurs in a text wherever it stands as such. -/
theorem occurs_of_blank (hfield : field.toList = before ++ term.toList ++ after)
    (hbefore : ∀ c ∈ before.getLast?, isBlank c = true) (hafter : ∀ c ∈ after.head?, isBlank c = true) : Occurs term field :=
  ⟨before, after, hfield, undisturbed_of_blank (by rwa [List.head?_reverse]) hafter⟩

/-- A term matches what it occurs in. -/
theorem matches_of_occurs (h : Occurs term field) : Matches term field := by
  obtain ⟨before, after, hfield, hundisturbed⟩ := h
  obtain ⟨front, back, hterm, hfront, hback⟩ := exists_trimmed term.toList
  rw [hterm] at hundisturbed
  have htrimmed := hundisturbed.trimmed hfront hback
  rw [← List.reverse_append] at htrimmed
  have hplace : field.toList = before ++ front ++ trimChars term.toList ++ (back ++ after) := by
    rw [hfield]
    conv_lhs => rw [hterm]
    simp only [List.append_assoc]
  rw [Matches, hplace]
  exact lowerChars_infix htrimmed

/-- A blank term matches everything. -/
theorem matches_of_trimmed_eq_nil (h : trimChars term.toList = []) (field : String) : Matches term field := by
  rw [Matches, h]
  exact List.nil_infix

/-- Any other term matches no empty text. -/
theorem Matches.ne_empty (h : Matches term field) (hterm : trimChars term.toList ≠ []) : field ≠ "" := by
  rintro rfl
  exact hterm (lowerChars_eq_nil_iff.1 (List.infix_nil.1 h))

/-- A field holds a needle just when it matches the term. -/
theorem holds_iff : holds (needle term) field = true ↔ Matches term field := occursIn_iff

/-- A search finds the texts of which the term matches one. -/
theorem found_iff {fields : List String} (hne : fields ≠ []) : found term fields = true ↔ ∃ field ∈ fields, Matches term field := by
  unfold found
  split
  · rename_i hterm
    obtain ⟨field, hfield⟩ := List.exists_mem_of_ne_nil fields hne
    exact iff_of_true rfl ⟨field, hfield, matches_of_trimmed_eq_nil hterm field⟩
  · simp only [List.any_eq_true, holds_iff]

end AddressSpace.Text
