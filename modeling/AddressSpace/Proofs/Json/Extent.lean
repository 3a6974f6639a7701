import AddressSpace.Proofs.Json.Grammar
import AddressSpace.Proofs.Json.Text
/-!
# How far a value reaches

A reader that finds the end of a value has read a text that follows the grammar, behind blanks (`readValue_sound`), and every text
that follows the grammar is read up to its end (`Grammar.accepted`), whatever stands behind it.
-/

namespace AddressSpace.Json

variable {c : Char} {cs rest : List Char} {fuel : Nat} {j : Json}

/-! ## Blanks -/

/-- A text is its blanks in front and what is left behind them. -/
theorem exists_skipSpace (cs : List Char) : ∃ front, Space front ∧ cs = front ++ skipSpace cs :=
  ⟨cs.takeWhile isSpace, fun _ => List.mem_takeWhile_imp, List.takeWhile_append_dropWhile.symm⟩

theorem Space.skipSpace_append {front : List Char} (h : Space front) (cs : List Char) : skipSpace (front ++ cs) = skipSpace cs :=
  List.dropWhile_append_of_pos h

/-! ## What is read follows the grammar -/

/-- What stands in front of the end of a value is the value. -/
def ValueSound (fuel : Nat) : Prop :=
  ∀ {cs rest j}, readValue fuel cs = (j, some rest) → ∃ front text, Space front ∧ Grammar .value text ∧ cs = front ++ (text ++ rest)

/-- What stands in front of the end of an array are its items. -/
def ItemsSound (fuel : Nat) : Prop :=
  ∀ {cs rest js}, readItems fuel cs = (js, some rest) → ∃ text, Grammar .elements text ∧ cs = text ++ ']' :: rest

/-- What stands in front of the end of an object are its members. -/
def MembersSound (fuel : Nat) : Prop :=
  ∀ {cs rest ms ending}, readMembers fuel cs = (ms, ending, some rest) →
    ∃ text, Grammar .members text ∧ cs = text ++ '\x7d' :: rest

/-- What is read as a word is that word. -/
theorem readWord_sound {w : String} (hw : w ∈ ["null", "true", "false"]) {value : Json}
    (h : readWord w value cs = (j, some rest)) : ∃ text, Grammar .value text ∧ cs = text ++ rest := by
  unfold readWord at h
  split at h
  · rename_i hprefix
    obtain ⟨more, rfl⟩ := List.isPrefixOf_iff_prefix.1 hprefix
    obtain ⟨-, hrest⟩ := Prod.mk.inj h
    obtain rfl : more = rest := by
      rw [← Option.some.inj hrest, ← String.length_toList, List.drop_left]
    exact ⟨_, .word hw, rfl⟩
  · cases h

/-- An element is a value with the blanks before and after it. -/
theorem ValueSound.element (hv : ValueSound fuel) {behind more : List Char} (h : readValue fuel cs = (j, some behind))
    (hmore : skipSpace behind = more) : ∃ text, Grammar .element text ∧ cs = text ++ more := by
  obtain ⟨front, text, hfront, htext, rfl⟩ := hv h
  obtain ⟨back, hback, hbehind⟩ := exists_skipSpace behind
  refine ⟨_, .element hfront htext hback, ?_⟩
  conv_lhs => rw [hbehind, hmore]
  simp only [List.append_assoc]

/-- What is read as the rest of a string ends with the first quote that is not escaped. -/
theorem readString_sound {name : Option String} (h : readString cs = some (name, rest)) :
    ∃ body, StringBody body ∧ cs = body ++ '"' :: rest := by
  obtain ⟨⟨us, behind⟩, hread, hpair⟩ := Option.map_eq_some_iff.1 h
  cases hpair
  exact readUnits_sound hread

/-- What is read as a member is one, with the blanks around its value. -/
theorem ValueSound.member (hv : ValueSound fuel) {name : Option String} {behind more : List Char}
    (h : ReadsMember fuel cs name j behind) (hmore : skipSpace behind = more) : ∃ text, Grammar .member text ∧ cs = text ++ more := by
  obtain @⟨body, gap, value, hopen, hread, hcolon, hvalue⟩ := h
  obtain ⟨front, hfront, hcs⟩ := exists_skipSpace cs
  obtain ⟨literal, hname, rfl⟩ := readString_sound hread
  obtain ⟨blank, hblank, hgap⟩ := exists_skipSpace gap
  obtain ⟨text, htext, rfl⟩ := hv.element hvalue hmore
  refine ⟨_, .member hfront hname hblank htext, ?_⟩
  rw [hcs, hopen, List.append_assoc, List.cons_append, List.append_assoc, List.cons_append, List.append_assoc, List.cons_append,
    ← hcolon, ← hgap]

/-- With one more step of fuel, what stands in front of the end of an array are still its items. -/
theorem itemsSound_succ (hv : ValueSound fuel) (hi : ItemsSound fuel) : ItemsSound (fuel + 1) := by
  intro cs rest js h
  rw [readItems.eq_def] at h
  simp only at h
  split at h
  · cases h
  · rename_i item behind hitem
    split at h
    · rename_i more hcomma
      obtain ⟨text, htext, rfl⟩ := hv.element hitem hcomma
      split at h
      · cases h
      · cases h
      · obtain ⟨-, hbehind⟩ := Prod.mk.inj h
        obtain ⟨texts, htexts, rfl⟩ := hi (Prod.ext rfl hbehind)
        exact ⟨_, .more htext htexts, by simp only [List.append_assoc, List.cons_append]⟩
    · rename_i more hclose
      obtain ⟨text, htext, rfl⟩ := hv.element hitem hclose
      cases h
      exact ⟨text, .last htext, rfl⟩
    · cases h

/-- With one more step of fuel, what stands in front of the end of an object are still its members. -/
theorem membersSound_succ (hv : ValueSound fuel) (hm : MembersSound fuel) : MembersSound (fuel + 1) := by
  intro cs rest ms ending h
  rw [readMembers.eq_def] at h
  simp only at h
  split at h
  · rename_i body hopen
    split at h
    · cases h
    · rename_i name gap hname
      split at h
      · rename_i value hcolon
        split at h
        · cases h
        · rename_i j behind hvalue
          have hmember : ReadsMember fuel cs name j behind := .intro hopen hname hcolon hvalue
          split at h
          · rename_i more hcomma
            obtain ⟨text, htext, rfl⟩ := hv.member hmember hcomma
            obtain ⟨-, hbehind⟩ := Prod.mk.inj h
            obtain ⟨texts, htexts, rfl⟩ := hm (Prod.ext rfl hbehind)
            exact ⟨_, .moreMembers htext htexts, by simp only [List.append_assoc, List.cons_append]⟩
          · rename_i more hclose
            obtain ⟨text, htext, rfl⟩ := hv.member hmember hclose
            cases h
            exact ⟨text, .lastMember htext, rfl⟩
          · cases h
      · cases h
  · cases h

/-- What stands between two characters, with the rest behind them. -/
theorem enclosed (a b : Char) (text rest : List Char) : a :: (text ++ b :: rest) = a :: (text ++ [b]) ++ rest := by
  simp only [List.append_assoc, List.cons_append, List.nil_append]

/-- What is read behind a quote is a string. -/
theorem quoted_sound {name : Option String} (h : readString cs = some (name, rest)) :
    ∃ text, Grammar .value text ∧ '"' :: cs = text ++ rest := by
  obtain ⟨text, htext, rfl⟩ := readString_sound h
  exact ⟨_, .string htext, enclosed ..⟩

/-- The first character of a value tells what it is. -/
theorem valueSound_succ (hi : ItemsSound fuel) (hm : MembersSound fuel) : ValueSound (fuel + 1) := by
  intro cs rest j h
  obtain ⟨front, hfront, hcs⟩ := exists_skipSpace cs
  suffices ∃ text, Grammar .value text ∧ skipSpace cs = text ++ rest by
    obtain ⟨text, htext, hskip⟩ := this
    exact ⟨front, text, hfront, htext, hskip ▸ hcs⟩
  rw [readValue.eq_def] at h
  simp only at h
  split at h
  · cases h
  · rename_i c body hskip
    rw [hskip]
    split_ifs at h with hquote hbracket hbrace hn ht hf hminus
    · rw [hquote]
      split at h
      · rename_i hname
        cases h
        exact quoted_sound hname
      · rename_i hname
        cases h
        exact quoted_sound hname
      · cases h
    · rw [hbracket]
      obtain ⟨blank, hblank, hbody⟩ := exists_skipSpace body
      split at h
      · cases h
      · rename_i more hclose
        cases h
        rw [hbody, hclose]
        exact ⟨_, .emptyArray hblank, enclosed ..⟩
      · obtain ⟨-, hbehind⟩ := Prod.mk.inj h
        obtain ⟨texts, htexts, rfl⟩ := hi (Prod.ext rfl hbehind)
        exact ⟨_, .array htexts, enclosed ..⟩
    · rw [hbrace]
      obtain ⟨blank, hblank, hbody⟩ := exists_skipSpace body
      split at h
      · rename_i more hclose
        cases h
        rw [hbody, hclose]
        exact ⟨_, .emptyObject hblank, enclosed ..⟩
      · obtain ⟨-, hbehind⟩ := Prod.mk.inj h
        obtain ⟨texts, htexts, rfl⟩ := hm (Prod.ext rfl (Prod.ext rfl hbehind))
        exact ⟨_, .object htexts, enclosed ..⟩
    · exact readWord_sound (by simp) h
    · exact readWord_sound (by simp) h
    · exact readWord_sound (by simp) h
    · rw [hminus]
      split at h
      · rename_i literal more hnumber
        cases h
        obtain ⟨rfl, hliteral⟩ := readNumber_sound hnumber
        exact ⟨_, .negative hliteral, rfl⟩
      · cases h
    · split at h
      · rename_i literal more hnumber
        cases h
        obtain ⟨hbody, hliteral⟩ := readNumber_sound hnumber
        exact ⟨_, .number hliteral, hbody⟩
      · cases h

/-- Whatever the fuel, values, items and members are read as the grammar has them, by induction on the fuel. -/
theorem sound (fuel : Nat) : ValueSound fuel ∧ ItemsSound fuel ∧ MembersSound fuel := by
  induction fuel with
  | zero => exact ⟨fun h => (nomatch h), fun h => (nomatch h), fun h => (nomatch h)⟩
  | succ fuel ih =>
    obtain ⟨hv, hi, hm⟩ := ih
    exact ⟨valueSound_succ hi hm, itemsSound_succ hv hi, membersSound_succ hv hm⟩

/-- A reader that finds the end of a value has read a text that follows the grammar. -/
theorem readValue_sound (h : readValue fuel cs = (j, some rest)) :
    ∃ front text, Space front ∧ Grammar .value text ∧ cs = front ++ (text ++ rest) :=
  (sound fuel).1 h

/-! ## What follows the grammar is read -/

/-- A text is read up to its end. A number must end where it ends, as it does in an array or an object. Each value needs some fuel. -/
def Accepted : Part → List Char → Prop
  | .value, cs => (∃ c ds, cs = c :: ds ∧ isSpace c = false ∧ c ≠ ']') ∧
    ∃ j, ∀ fuel rest, 2 * cs.length ≤ fuel → (∀ literal, j = .number literal → Ends rest) →
      readValue fuel (cs ++ rest) = (j, some rest)
  | .element, cs => (∀ rest, Opens (cs ++ rest)) ∧
    ∃ j back, Space back ∧ ∀ fuel rest, 2 * cs.length ≤ fuel → Ends rest → readValue fuel (cs ++ rest) = (j, some (back ++ rest))
  | .elements, cs => (∀ rest, Opens (cs ++ rest)) ∧
    ∃ js, ∀ fuel rest, 2 * cs.length < fuel → readItems fuel (cs ++ ']' :: rest) = (js, some rest)
  | .member, cs => (∀ rest, ∃ ds, skipSpace (cs ++ rest) = '"' :: ds) ∧
    ∃ name j back, Space back ∧
      ∀ fuel rest, 2 * cs.length ≤ fuel → Ends rest → ReadsMember fuel (cs ++ rest) name j (back ++ rest)
  | .members, cs => (∀ rest, ∃ ds, skipSpace (cs ++ rest) = '"' :: ds) ∧
    ∃ ms, ∀ fuel rest, 2 * cs.length < fuel → readMembers fuel (cs ++ '\x7d' :: rest) = (ms, .closed, some rest)

/-- A blank ends a number, too. -/
theorem Ends.space {back : List Char} (hback : Space back) (h : Ends rest) : Ends (back ++ rest) := by
  cases back with
  | nil => exact h
  | cons c back =>
    have hc := hback c List.mem_cons_self
    simp only [isSpace, Bool.or_eq_true, beq_iff_eq] at hc
    rcases hc with ((rfl | rfl) | rfl) | rfl
    all_goals exact ends_cons (by decide) _

/-- The fuel that a value needs is there. -/
theorem accepted_value {ds : List Char} (hspace : isSpace c = false) (hne : c ≠ ']') (j : Json)
    (h : ∀ fuel rest, 2 * ds.length ≤ fuel → (∀ literal, j = .number literal → Ends rest) →
      readValue (fuel + 1) (c :: (ds ++ rest)) = (j, some rest)) : Accepted .value (c :: ds) := by
  refine ⟨⟨c, ds, rfl, hspace, hne⟩, j, fun fuel rest hfuel hends => ?_⟩
  obtain _ | fuel := fuel
  · cases hfuel
  · rw [List.length_cons] at hfuel
    exact h fuel rest (by omega) hends

/-- Each of the words is read up to its end. -/
theorem accepted_word {w : String} (hw : w ∈ ["null", "true", "false"]) : Accepted .value w.toList := by
  simp only [List.mem_cons, List.not_mem_nil, or_false] at hw
  rcases hw with rfl | rfl | rfl
  · exact accepted_value (by decide) (by decide) .null fun _ _ _ _ => rfl
  · exact accepted_value (by decide) (by decide) (.bool true) fun _ _ _ _ => rfl
  · exact accepted_value (by decide) (by decide) (.bool false) fun _ _ _ _ => rfl

/-- A number starts with a digit. -/
theorem Number.eq_cons (h : Number cs) : ∃ c ds, cs = c :: ds ∧ isDigit c = true := by
  obtain @⟨whole, fraction, exponent, ⟨hwhole, -⟩, -, -⟩ := h
  obtain ⟨c, ds, rfl⟩ := List.exists_cons_of_ne_nil hwhole.1
  exact ⟨c, _, rfl, hwhole.2 c List.mem_cons_self⟩

/-- A number is read up to its end. -/
theorem accepted_number (h : Number cs) : Accepted .value cs := by
  obtain ⟨c, ds, rfl, hc⟩ := h.eq_cons
  have hne : ∀ d, isDigit d = false → c ≠ d := by
    rintro d hd rfl
    exact absurd (hc.symm.trans hd) (by decide)
  have hspace : isSpace c = false := by simp [isSpace, hne ' ' rfl, hne '\n' rfl, hne '\t' rfl, hne '\r' rfl]
  exact accepted_value hspace (hne _ rfl) _ fun fuel rest _ hends =>
    readValue_number hspace hne (readNumber_of_ends h (hends _ rfl)) fuel

theorem accepted_negative (h : Number cs) : Accepted .value ('-' :: cs) := by
  refine accepted_value (by decide) (by decide) (.number ('-' :: cs)) fun fuel rest _ hends => ?_
  rw [readValue.eq_def]
  simp only [skipSpace_cons (c := '-') rfl, readNumber_of_ends h (hends _ rfl)]
  rfl

/-- A string is read up to its closing quote, whatever follows. -/
theorem exists_readString {body : List Char} (h : StringBody body) :
    ∃ name, ∀ rest, readString (body ++ '"' :: rest) = some (name, rest) := by
  obtain ⟨us, hus⟩ := exists_readUnits h
  exact ⟨(joinHalves us).map String.ofList, fun rest => by rw [readString, hus, Option.map_some]⟩

/-- A string is read up to its end. -/
theorem accepted_string (h : StringBody cs) : Accepted .value ('"' :: (cs ++ ['"'])) := by
  obtain ⟨name, hname⟩ := exists_readString h
  refine accepted_value (by decide) (by decide) (name.elim .garbled .string) fun fuel rest _ _ => ?_
  rw [List.append_assoc, List.singleton_append, readValue.eq_def]
  simp only [skipSpace_cons (c := '"') rfl, hname, if_pos]
  cases name with
  | none => rfl
  | some s => rfl

/-- An empty array is read up to its end. -/
theorem accepted_emptyArray (h : Space cs) : Accepted .value ('[' :: (cs ++ [']'])) := by
  refine accepted_value (by decide) (by decide) (.array [] true) fun fuel rest _ _ => ?_
  rw [List.append_assoc, List.singleton_append, readValue.eq_def]
  simp only [skipSpace_cons (c := '[') rfl, h.skipSpace_append, skipSpace_cons (c := ']') rfl]
  rfl

/-- An array is read up to its end when its items are. -/
theorem accepted_array (h : Accepted .elements cs) : Accepted .value ('[' :: (cs ++ [']'])) := by
  obtain ⟨hopens, js, hread⟩ := h
  refine accepted_value (by decide) (by decide) (.array js true) fun fuel rest hfuel _ => ?_
  rw [List.length_append, List.length_singleton] at hfuel
  rw [List.append_assoc, List.singleton_append, readValue_array (hopens _), hread fuel rest (by omega)]
  rfl

/-- An empty object is read up to its end. -/
theorem accepted_emptyObject (h : Space cs) : Accepted .value ('\x7b' :: (cs ++ ['\x7d'])) := by
  refine accepted_value (by decide) (by decide) (.object [] .closed) fun fuel rest _ _ => ?_
  rw [List.append_assoc, List.singleton_append, readValue.eq_def]
  simp only [skipSpace_cons (c := '\x7b') rfl, h.skipSpace_append, skipSpace_cons (c := '\x7d') rfl]
  rfl

/-- An object is read up to its end when its members are. -/
theorem accepted_object (h : Accepted .members cs) : Accepted .value ('\x7b' :: (cs ++ ['\x7d'])) := by
  obtain ⟨hopens, ms, hread⟩ := h
  refine accepted_value (by decide) (by decide) (.object ms .closed) fun fuel rest hfuel _ => ?_
  obtain ⟨body, hbody⟩ := hopens ('\x7d' :: rest)
  rw [List.length_append, List.length_singleton] at hfuel
  rw [List.append_assoc, List.singleton_append, readValue_object hbody (by decide), hread fuel rest (by omega)]

/-- The blanks around a value do not matter. -/
theorem accepted_element {front back : List Char} (hfront : Space front) (h : Accepted .value cs) (hback : Space back) :
    Accepted .element (front ++ (cs ++ back)) := by
  obtain ⟨⟨c, ds, rfl, hspace, hne⟩, j, hread⟩ := h
  refine ⟨fun rest => ⟨c, ds ++ back ++ rest, ?_, hne⟩, j, back, hback, fun fuel rest hfuel hends => ?_⟩
  · rw [List.append_assoc, hfront.skipSpace_append]
    exact skipSpace_cons hspace _
  · simp only [List.length_append] at hfuel
    rw [List.append_assoc, List.append_assoc, readValue_of_skipSpace (hfront.skipSpace_append _)]
    exact hread fuel _ (by omega) fun _ _ => hends.space hback

/-- A last item is read up to the end of its array. -/
theorem accepted_last (h : Accepted .element cs) : Accepted .elements cs := by
  obtain ⟨hopens, j, back, hback, hread⟩ := h
  refine ⟨hopens, [j], fun fuel rest hfuel => ?_⟩
  obtain _ | fuel := fuel
  · cases hfuel
  · refine readItems_last (hread fuel (']' :: rest) (by omega) (ends_cons (by decide) rest)) ?_
    rw [hback.skipSpace_append]
    exact skipSpace_cons rfl rest

/-- An item and those behind the comma are read up to the end of their array. -/
theorem accepted_more {ds : List Char} (h : Accepted .element cs) (hs : Accepted .elements ds) :
    Accepted .elements (cs ++ ',' :: ds) := by
  obtain ⟨hopens, j, back, hback, hread⟩ := h
  obtain ⟨hopens', js, hreads⟩ := hs
  refine ⟨fun rest => by rw [List.append_assoc]; exact hopens _, j :: js, fun fuel rest hfuel => ?_⟩
  rw [List.length_append, List.length_cons] at hfuel
  obtain _ | fuel := fuel
  · cases hfuel
  · rw [List.append_assoc, List.cons_append,
      readItems_more (hread fuel _ (by omega) (ends_cons (by decide) _)) ?_ (hopens' (']' :: rest)), hreads fuel rest (by omega)]
    rw [hback.skipSpace_append]
    exact skipSpace_cons rfl _

/-- A member is read up to its end when its value is. -/
theorem accepted_member {front name gap : List Char} (hfront : Space front) (hname : StringBody name) (hgap : Space gap)
    (h : Accepted .element cs) : Accepted .member (front ++ '"' :: (name ++ '"' :: (gap ++ ':' :: cs))) := by
  obtain ⟨-, j, back, hback, hread⟩ := h
  obtain ⟨s, hs⟩ := exists_readString hname
  have hopen (rest : List Char) : skipSpace (front ++ '"' :: (name ++ '"' :: (gap ++ ':' :: cs)) ++ rest) =
      '"' :: (name ++ '"' :: (gap ++ ':' :: (cs ++ rest))) := by
    simp only [List.append_assoc, List.cons_append, hfront.skipSpace_append]
    exact skipSpace_cons rfl _
  have hcolon (rest : List Char) : skipSpace (gap ++ ':' :: (cs ++ rest)) = ':' :: (cs ++ rest) := by
    rw [hgap.skipSpace_append]
    exact skipSpace_cons rfl _
  refine ⟨fun rest => ⟨_, hopen rest⟩, s, j, back, hback, fun fuel rest hfuel hends => .intro (hopen rest) (hs _) (hcolon rest) ?_⟩
  simp only [List.length_append, List.length_cons] at hfuel
  exact hread fuel rest (by omega) hends

/-- A last member is read up to the end of its object. -/
theorem accepted_lastMember (h : Accepted .member cs) : Accepted .members cs := by
  obtain ⟨hopens, name, j, back, hback, hread⟩ := h
  refine ⟨hopens, [(name, j)], fun fuel rest hfuel => ?_⟩
  obtain _ | fuel := fuel
  · cases hfuel
  · refine readMembers_last (hread fuel _ (by omega) (ends_cons (by decide) rest)) ?_
    rw [hback.skipSpace_append]
    exact skipSpace_cons rfl rest

/-- A member and those behind the comma are read up to the end of their object. -/
theorem accepted_moreMembers {ds : List Char} (h : Accepted .member cs) (hs : Accepted .members ds) :
    Accepted .members (cs ++ ',' :: ds) := by
  obtain ⟨hopens, name, j, back, hback, hread⟩ := h
  obtain ⟨-, ms, hreads⟩ := hs
  refine ⟨fun rest => by rw [List.append_assoc]; exact hopens _, (name, j) :: ms, fun fuel rest hfuel => ?_⟩
  rw [List.length_append, List.length_cons] at hfuel
  obtain _ | fuel := fuel
  · cases hfuel
  · rw [List.append_assoc, List.cons_append,
      readMembers_more (hread fuel _ (by omega) (ends_cons (by decide) _)) ?_, hreads fuel rest (by omega)]
    rw [hback.skipSpace_append]
    exact skipSpace_cons rfl _

/-- Every text that follows the grammar is read up to its end. -/
theorem Grammar.accepted {part : Part} (h : Grammar part cs) : Accepted part cs := by
  induction h with
  | word h => exact accepted_word h
  | number h => exact accepted_number h
  | negative h => exact accepted_negative h
  | string h => exact accepted_string h
  | emptyArray h => exact accepted_emptyArray h
  | array _ ih => exact accepted_array ih
  | emptyObject h => exact accepted_emptyObject h
  | object _ ih => exact accepted_object ih
  | element hfront _ hback ih => exact accepted_element hfront ih hback
  | last _ ih => exact accepted_last ih
  | more _ _ ih ihs => exact accepted_more ih ihs
  | member hfront hname hgap _ ih => exact accepted_member hfront hname hgap ih
  | lastMember _ ih => exact accepted_lastMember ih
  | moreMembers _ _ ih ihs => exact accepted_moreMembers ih ihs

end AddressSpace.Json
