import AddressSpace.Proofs.Json.Literals
/-!
# Values that are written are read

A `Sound` value is one that can be written: it has no gaps, and its numbers are natural ones. Its text is read as the value, whatever
is written behind it (`Sound.reads`), with less fuel than there is for a text of this length (`Sound.ofText_eq_self`).
-/

namespace AddressSpace.Json

open Text

/-- A value without gaps, in which every number is a natural one. -/
inductive Sound : Json → Prop
  | null : Sound .null
  | bool (b : Bool) : Sound (.bool b)
  | ofNat (n : Nat) : Sound (ofNat n)
  | string (s : String) : Sound (.string s)
  | ofList {items : List Json} (h : ∀ j ∈ items, Sound j) : Sound (ofList items)
  | ofMembers {ms : List (String × Json)} (h : ∀ m ∈ ms, Sound m.2) : Sound (ofMembers ms)

/-- The members of an object with these names. -/
def named (ms : List (String × Json)) : List (Option String × Json) := ms.map fun m => (some m.1, m.2)

theorem named_cons (m : String × Json) (ms : List (String × Json)) : named (m :: ms) = (some m.1, m.2) :: named ms := rfl

theorem ofMembers_eq (ms : List (String × Json)) : ofMembers ms = .object (named ms) .closed := rfl

variable {c : Char} {cs rest : List Char} {fuel level : Nat} {j : Json}

/-! ## Blanks -/

/-- A new line and its indentation are skipped. -/
theorem skipSpace_newLine (level : Nat) (cs : List Char) : skipSpace (newLine level ++ cs) = skipSpace cs := by
  have hspace : ∀ c ∈ newLine level, isSpace c = true := by
    intro c hc
    rcases List.mem_cons.1 hc with rfl | hc
    · rfl
    · rw [List.eq_of_mem_replicate hc]
      rfl
  exact List.dropWhile_append_of_pos hspace

theorem skipSpace_cons (hc : isSpace c = false) (cs : List Char) : skipSpace (c :: cs) = c :: cs := by
  rw [skipSpace, List.dropWhile_cons_of_neg (by simp [hc])]

/-- A value is read from where the blanks in front of it end. -/
theorem readValue_of_skipSpace {ds : List Char} (h : skipSpace cs = skipSpace ds) (fuel : Nat) :
    readValue fuel cs = readValue fuel ds := by
  cases fuel with
  | zero => rfl
  | succ fuel =>
    rw [readValue.eq_def, readValue.eq_def]
    simp only [h]

theorem readValue_newLine (fuel level : Nat) (cs : List Char) : readValue fuel (newLine level ++ cs) = readValue fuel cs :=
  readValue_of_skipSpace (skipSpace_newLine level cs) fuel

theorem readValue_blank (fuel : Nat) (cs : List Char) : readValue fuel (' ' :: cs) = readValue fuel cs :=
  readValue_of_skipSpace (by rw [skipSpace, List.dropWhile_cons_of_pos rfl, skipSpace]) fuel

theorem behind_newLine (level : Nat) (cs : List Char) : Behind (newLine level ++ cs) := by
  rintro c ⟨⟩
  exact .inr rfl

theorem behind_comma (cs : List Char) : Behind (',' :: cs) := by
  rintro c ⟨⟩
  exact .inl rfl

/-! ## Simple values -/

theorem quote_append (s : String) (rest : List Char) : quote s ++ rest = '"' :: (s.toList.flatMap escape ++ '"' :: rest) := by
  simp [quote]

/-- A written string is read, whatever follows. -/
theorem readValue_quote (s : String) (fuel : Nat) (rest : List Char) :
    readValue (fuel + 1) (quote s ++ rest) = (.string s, some rest) := by
  rw [quote_append, readValue.eq_def]
  simp only [skipSpace_cons (c := '"') rfl, readString_quote, if_pos]

/-- A numeral starts with neither a blank nor anything else that is no digit. -/
theorem digits_eq_cons (n : Nat) :
    ∃ c cs, digits 10 n = c :: cs ∧ isSpace c = false ∧ ∀ d, isDigit d = false → c ≠ d := by
  obtain ⟨c, cs, hcs⟩ := List.exists_cons_of_ne_nil (digits_ne_nil 10 n)
  have hne : ∀ d, isDigit d = false → c ≠ d := fun d hd => ne_of_mem_digits hd (hcs ▸ List.mem_cons_self)
  refine ⟨c, cs, hcs, ?_, hne⟩
  simp [isSpace, hne ' ' rfl, hne '\n' rfl, hne '\t' rfl, hne '\r' rfl]

/-- Where a text begins as a number and is read as one, it is read as that value. -/
theorem readValue_number {literal : List Char} (hspace : isSpace c = false) (hne : ∀ d, isDigit d = false → c ≠ d)
    (h : readNumber (c :: cs) = some (literal, rest)) (fuel : Nat) :
    readValue (fuel + 1) (c :: cs) = (.number literal, some rest) := by
  rw [readValue.eq_def]
  simp only [skipSpace_cons hspace]
  rw [if_neg (hne _ rfl), if_neg (hne _ rfl), if_neg (hne _ rfl), if_neg (hne _ rfl), if_neg (hne _ rfl), if_neg (hne _ rfl),
    if_neg (hne _ rfl), h]

/-- A written number is read, if what follows is nothing of a number. -/
theorem readValue_digits (n : Nat) (h : Behind rest) (fuel : Nat) :
    readValue (fuel + 1) (digits 10 n ++ rest) = (ofNat n, some rest) := by
  obtain ⟨c, cs, hcs, hspace, hne⟩ := digits_eq_cons n
  have hread := readNumber_digits n h
  rw [hcs, List.cons_append] at hread
  rw [hcs, List.cons_append, readValue_number hspace hne hread, ← hcs]
  rfl

/-- No value starts with a blank or a closing bracket. -/
theorem Sound.write_eq_cons (h : Sound j) (level : Nat) :
    ∃ c cs, write level j = c :: cs ∧ isSpace c = false ∧ c ≠ ']' := by
  cases h with
  | null => exact ⟨'n', _, rfl, by decide⟩
  | bool b => cases b with
    | true => exact ⟨'t', _, rfl, by decide⟩
    | false => exact ⟨'f', _, rfl, by decide⟩
  | ofNat n =>
    obtain ⟨c, cs, hcs, hspace, hne⟩ := digits_eq_cons n
    exact ⟨c, cs, hcs, hspace, hne _ rfl⟩
  | string s => exact ⟨'"', _, rfl, by decide⟩
  | @ofList items _ => cases items with
    | nil => exact ⟨'[', _, rfl, by decide⟩
    | cons item items => exact ⟨'[', _, rfl, by decide⟩
  | @ofMembers ms _ => cases ms with
    | nil => exact ⟨'\x7b', _, rfl, by decide⟩
    | cons m ms => exact ⟨'\x7b', _, rfl, by decide⟩

/-! ## Arrays -/

/-- Something stands there, after blanks, that is no closing bracket. -/
def Opens (cs : List Char) : Prop := ∃ c ds, skipSpace cs = c :: ds ∧ c ≠ ']'

/-- A sound value on a new line does not begin with a closing bracket. -/
theorem Sound.opens (h : Sound j) (level : Nat) (rest : List Char) : Opens (newLine level ++ (write level j ++ rest)) := by
  obtain ⟨c, cs, hcs, hspace, hne⟩ := h.write_eq_cons level
  exact ⟨c, cs ++ rest, by rw [skipSpace_newLine, hcs, List.cons_append, skipSpace_cons hspace], hne⟩

/-- Behind an opening bracket with an item, an array is what is read as its items. -/
theorem readValue_array (h : Opens rest) (fuel : Nat) :
    readValue (fuel + 1) ('[' :: rest) =
      (.array (readItems fuel rest).1 (readItems fuel rest).2.isSome, (readItems fuel rest).2) := by
  obtain ⟨c, cs, hc, hne⟩ := h
  rw [readValue.eq_def]
  simp only [skipSpace_cons (c := '[') rfl]
  rw [if_neg (by decide), if_pos trivial, hc]
  split
  · rename_i h
    cases h
  · rename_i h
    exact absurd (List.cons.inj h).1 hne
  · rfl

/-- The last item, with the closing bracket behind it. -/
theorem readItems_last {behind : List Char} (h : readValue fuel cs = (j, some behind)) (hclose : skipSpace behind = ']' :: rest) :
    readItems (fuel + 1) cs = ([j], some rest) := by
  rw [readItems.eq_def]
  simp only [h, hclose]

/-- An item with another behind it. -/
theorem readItems_more {behind : List Char} (h : readValue fuel cs = (j, some behind)) (hcomma : skipSpace behind = ',' :: rest)
    (hrest : Opens rest) : readItems (fuel + 1) cs = (j :: (readItems fuel rest).1, (readItems fuel rest).2) := by
  obtain ⟨c, ds, hc, hne⟩ := hrest
  rw [readItems.eq_def]
  simp only [h, hcomma, hc]
  split
  · rename_i h
    cases h
  · rename_i h
    exact absurd (List.cons.inj h).1 hne
  · rfl

/-- The text of the value is read as the value, whatever is written behind it. -/
def Reads (j : Json) : Prop :=
  ∀ level fuel rest, Behind rest → 2 * (write level j).length ≤ fuel →
    readValue fuel (write level j ++ rest) = (j, some rest)

/-- Items are read up to their closing bracket. -/
theorem readItems_write {item : Json} {items : List Json} (h : ∀ j ∈ item :: items, Sound j ∧ Reads j) (level outer : Nat)
    (rest : List Char) (hfuel : 2 * (write level item ++ writeItems level items).length < fuel) :
    readItems fuel (newLine level ++ (write level item ++ (writeItems level items ++ (newLine outer ++ ']' :: rest)))) =
      (item :: items, some rest) := by
  induction items generalizing item fuel with
  | nil =>
    obtain _ | fuel := fuel
    · omega
    simp only [writeItems, List.append_nil] at hfuel
    have hread := (h item List.mem_cons_self).2 level fuel _ (behind_newLine outer (']' :: rest)) (by omega)
    exact readItems_last ((readValue_newLine fuel level _).trans hread)
      ((skipSpace_newLine outer _).trans (skipSpace_cons (c := ']') rfl rest))
  | cons next items ih =>
    obtain _ | fuel := fuel
    · omega
    obtain ⟨⟨-, hitem⟩, hitems⟩ := List.forall_mem_cons.1 h
    simp only [writeItems, List.cons_append, List.append_assoc, List.length_append, List.length_cons] at hfuel ⊢
    have hmore : 2 * (write level next ++ writeItems level items).length < fuel := by
      rw [List.length_append]
      omega
    have hlater := ih hitems hmore
    have hopens := (hitems next List.mem_cons_self).1.opens level (writeItems level items ++ (newLine outer ++ ']' :: rest))
    -- what stands behind the comma is the same text in the induction hypothesis
    generalize newLine level ++ (write level next ++ (writeItems level items ++ (newLine outer ++ ']' :: rest))) = more
      at hlater hopens ⊢
    have hread := hitem level fuel _ (behind_comma more) (by omega)
    rw [readItems_more ((readValue_newLine fuel level _).trans hread) (skipSpace_cons (c := ',') rfl more) hopens, hlater]

/-- Every value needs some fuel. -/
theorem Sound.reads_of_succ (hj : Sound j)
    (h : ∀ level fuel rest, Behind rest → 2 * (write level j).length ≤ fuel + 1 →
      readValue (fuel + 1) (write level j ++ rest) = (j, some rest)) : Reads j := by
  intro level fuel rest hrest hfuel
  obtain ⟨c, cs, hcs, -⟩ := hj.write_eq_cons level
  obtain _ | fuel := fuel
  · simp [hcs] at hfuel
  · exact h level fuel rest hrest hfuel

/-- A written array is read when its items are. -/
theorem reads_ofList {items : List Json} (h : ∀ j ∈ items, Sound j ∧ Reads j) : Reads (ofList items) := by
  refine (Sound.ofList fun j hj => (h j hj).1).reads_of_succ fun level fuel rest hrest hfuel => ?_
  cases items with
  | nil => rfl
  | cons item items =>
    simp only [ofList, write, List.cons_append, List.append_assoc, List.nil_append, List.length_cons, List.length_append]
      at hfuel ⊢
    have hfuel' : 2 * (write (level + 1) item ++ writeItems (level + 1) items).length < fuel := by
      rw [List.length_append]
      omega
    have hitems := readItems_write h (level + 1) level rest hfuel'
    rw [readValue_array ((h item List.mem_cons_self).1.opens _ _), hitems]
    rfl

/-! ## Objects -/

/-- Behind an opening brace with a member, an object is what is read as its members. -/
theorem readValue_object (hc : skipSpace rest = c :: cs) (hne : c ≠ '\x7d') (fuel : Nat) :
    readValue (fuel + 1) ('\x7b' :: rest) =
      (.object (readMembers fuel rest).1 (readMembers fuel rest).2.1, (readMembers fuel rest).2.2) := by
  rw [readValue.eq_def]
  simp only [skipSpace_cons (c := '\x7b') rfl]
  rw [if_neg (by decide), if_neg (by decide), if_pos trivial, hc]
  split
  · rename_i h
    exact absurd (List.cons.inj h).1 hne
  · rfl

/-- A name, a colon and a value are read, in front of `behind`. -/
inductive ReadsMember (fuel : Nat) (cs : List Char) (name : Option String) (j : Json) (behind : List Char) : Prop where
  | intro {body gap value : List Char} (hopen : skipSpace cs = '"' :: body) (hname : readString body = some (name, gap))
    (hcolon : skipSpace gap = ':' :: value) (hvalue : readValue fuel value = (j, some behind))

section

variable {name : Option String} {behind : List Char}

/-- The last member, with the closing brace behind it. -/
theorem readMembers_last (h : ReadsMember fuel cs name j behind) (hclose : skipSpace behind = '\x7d' :: rest) :
    readMembers (fuel + 1) cs = ([(name, j)], .closed, some rest) := by
  obtain ⟨hopen, hname, hcolon, hvalue⟩ := h
  rw [readMembers.eq_def]
  simp only [hopen, hname, hcolon, hvalue, hclose]

/-- A member with another behind it. -/
theorem readMembers_more (h : ReadsMember fuel cs name j behind) (hcomma : skipSpace behind = ',' :: rest) :
    readMembers (fuel + 1) cs = ((name, j) :: (readMembers fuel rest).1, (readMembers fuel rest).2) := by
  obtain ⟨hopen, hname, hcolon, hvalue⟩ := h
  rw [readMembers.eq_def]
  simp only [hopen, hname, hcolon, hvalue, hcomma]

/-- A written member is read when its value is. -/
theorem readsMember_quote (name : String) (h : readValue fuel cs = (j, some behind)) (level : Nat) :
    ReadsMember fuel (newLine level ++ (quote name ++ ':' :: cs)) (some name) j behind := by
  refine .intro ?_ (readString_quote name _) (skipSpace_cons (c := ':') rfl cs) h
  rw [skipSpace_newLine, quote_append, skipSpace_cons (c := '"') rfl]

end

/-- Members are read up to their closing brace. -/
theorem readMembers_write {m : String × Json} {ms : List (String × Json)} (h : ∀ m' ∈ m :: ms, Reads m'.2) (level outer : Nat)
    (rest : List Char) (hfuel : 2 * (writeMember level (some m.1, m.2) ++ writeMembers level (named ms)).length < fuel) :
    readMembers fuel (newLine level ++ (writeMember level (some m.1, m.2) ++ (writeMembers level (named ms) ++
      (newLine outer ++ '\x7d' :: rest)))) = (named (m :: ms), .closed, some rest) := by
  induction ms generalizing m fuel with
  | nil =>
    obtain _ | fuel := fuel
    · omega
    obtain ⟨hvalue, -⟩ := List.forall_mem_cons.1 h
    simp only [named, List.map_nil, writeMember, writeMembers, Option.getD_some, List.append_nil, List.append_assoc,
      List.cons_append, List.nil_append, List.length_append, List.length_cons] at hfuel ⊢
    have hread := hvalue level fuel _ (behind_newLine outer ('\x7d' :: rest)) (by omega)
    exact readMembers_last (readsMember_quote m.1 ((readValue_blank fuel _).trans hread) level)
      ((skipSpace_newLine outer _).trans (skipSpace_cons (c := '\x7d') rfl rest))
  | cons next ms ih =>
    obtain _ | fuel := fuel
    · omega
    obtain ⟨hvalue, hms⟩ := List.forall_mem_cons.1 h
    simp only [named_cons, writeMembers, List.cons_append, List.append_assoc, List.length_append, List.length_cons] at hfuel ⊢
    have hmore : 2 * (writeMember level (some next.1, next.2) ++ writeMembers level (named ms)).length < fuel := by
      rw [List.length_append]
      omega
    have hlater := ih hms hmore
    generalize newLine level ++ (writeMember level (some next.1, next.2) ++ (writeMembers level (named ms) ++
      (newLine outer ++ '\x7d' :: rest))) = more at hlater ⊢
    simp only [writeMember, Option.getD_some, List.cons_append, List.append_assoc, List.length_append, List.length_cons]
      at hfuel ⊢
    have hread := hvalue level fuel _ (behind_comma more) (by omega)
    rw [readMembers_more (readsMember_quote m.1 ((readValue_blank fuel _).trans hread) level) (skipSpace_cons (c := ',') rfl more),
      hlater]
    rfl

/-- A written object is read when its members are. -/
theorem reads_ofMembers {ms : List (String × Json)} (h : ∀ m ∈ ms, Sound m.2 ∧ Reads m.2) : Reads (ofMembers ms) := by
  refine (Sound.ofMembers fun m hm => (h m hm).1).reads_of_succ fun level fuel rest hrest hfuel => ?_
  rw [ofMembers_eq] at hfuel ⊢
  cases ms with
  | nil => rfl
  | cons m ms =>
    simp only [named_cons, write, List.cons_append, List.append_assoc, List.nil_append, List.length_cons, List.length_append]
      at hfuel ⊢
    have hfuel' : 2 * (writeMember (level + 1) (some m.1, m.2) ++ writeMembers (level + 1) (named ms)).length < fuel := by
      rw [List.length_append]
      omega
    have hms := readMembers_write (fun m hm => (h m hm).2) (level + 1) level rest hfuel'
    have hskip (tail : List Char) : skipSpace (newLine (level + 1) ++ (writeMember (level + 1) (some m.1, m.2) ++ tail)) =
        writeMember (level + 1) (some m.1, m.2) ++ tail := by
      rw [skipSpace_newLine, writeMember, quote]
      exact skipSpace_cons rfl _
    rw [readValue_object (hskip _) (by decide), hms]
    rfl

/-! ## All values -/

/-- The text of a sound value is read as the value, whatever is written behind it. -/
theorem Sound.reads (h : Sound j) : Reads j := by
  induction h with
  | null => exact Sound.null.reads_of_succ fun _ _ _ _ _ => rfl
  | bool b => exact (Sound.bool b).reads_of_succ fun _ _ _ _ _ => by cases b <;> rfl
  | ofNat n => exact (Sound.ofNat n).reads_of_succ fun _ fuel _ hrest _ => readValue_digits n hrest fuel
  | string s => exact (Sound.string s).reads_of_succ fun _ fuel rest _ _ => readValue_quote s fuel rest
  | ofList h ih => exact reads_ofList fun j hj => ⟨h j hj, ih j hj⟩
  | ofMembers h ih => exact reads_ofMembers fun m hm => ⟨h m hm, ih m hm⟩

/-- The text of a sound value is read as the value. -/
theorem Sound.ofText_eq_self (h : Sound j) : Json.ofText j.text = j := by
  have hread := h.reads 0 (2 * (write 0 j).length + 1) [] (by rintro c ⟨⟩) (by omega)
  rw [List.append_nil] at hread
  rw [Json.ofText, Json.text, String.toList_ofList, Json.ofChars, hread]

end AddressSpace.Json
