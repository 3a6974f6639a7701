import AddressSpace.Listing.Csv
import AddressSpace.Proofs.Address.Spelling
import AddressSpace.Proofs.Engine.Operation
import AddressSpace.Proofs.Listing
/-!
# What the line of a row tells

A line is made of ten quoted texts with commas between them. Texts that hold no quote with a comma behind it can be told from the
line (`values_inj`), and but for three free texts the columns of a listing hold neither quotes nor anything that does not print
(`columns_of_rowsFrom`). So lines and whole listings determine their rows if the free texts allow it (`lines_determine_rows`).
Quotes are not escaped, so with other texts they need not (`lines_not_always_different`).
-/

namespace AddressSpace

namespace Csv

open Text (decimal digitChar)

variable {F : Family} {c : Char} {s : String} {cs ds rest rest' v w : List Char}

/-! ## Quoted texts -/

/-- A text in which no comma follows on a quote. -/
def Separable (s : String) : Prop := ¬['"', ','] <:+: s.toList

instance (s : String) : Decidable (Separable s) := inferInstanceAs (Decidable (¬_))

/-- A character of a terminal's line. -/
def Printable (c : Char) : Prop := 0x20 ≤ c.toNat ∧ c.toNat < 0x7f

instance (c : Char) : Decidable (Printable c) := inferInstanceAs (Decidable (_ ∧ _))

/-- A text without quotes and without anything that does not print. -/
def Plain (s : String) : Prop := ∀ c ∈ s.toList, Printable c ∧ c ≠ '"'

instance (s : String) : Decidable (Plain s) := List.decidableBAll (fun c => Printable c ∧ c ≠ '"') s.toList

theorem Plain.separable (h : Plain s) : Separable s := fun hin => (h '"' (hin.subset List.mem_cons_self)).2 rfl

theorem Plain.append {t : String} (hs : Plain s) (ht : Plain t) : Plain (s ++ t) := by
  intro c hc
  rw [String.toList_append, List.mem_append] at hc
  rcases hc with hc | hc
  · exact hs c hc
  · exact ht c hc

/-- A separable text ends where the first quote with a comma behind it stands. -/
theorem eq_nil_of_separable {more : List Char} (hw : ¬['"', ','] <:+: v ++ more)
    (h : '"' :: ',' :: rest = more ++ '"' :: ',' :: rest') : more = [] := by
  match more with
  | [] => rfl
  | [a] => simp at h
  | a :: b :: more =>
    simp only [List.cons_append, List.cons.injEq] at h
    obtain ⟨rfl, rfl, -⟩ := h
    exact absurd ⟨v, more, by rw [List.append_assoc]; rfl⟩ hw

/-- What stands before and behind the first quote with a comma is told from the whole. -/
theorem append_inj_of_separable (hv : ¬['"', ','] <:+: v) (hw : ¬['"', ','] <:+: w)
    (h : v ++ '"' :: ',' :: rest = w ++ '"' :: ',' :: rest') : v = w ∧ rest = rest' := by
  have hvw : v = w := by
    rcases List.append_eq_append_iff.1 h with ⟨more, rfl, hmore⟩ | ⟨more, rfl, hmore⟩
    · rw [eq_nil_of_separable hw hmore, List.append_nil]
    · rw [eq_nil_of_separable hv hmore, List.append_nil]
  subst hvw
  simpa using h

/-- Blanks in front of a quote do not matter. -/
theorem cons_inj_of_padding {m n : Nat} (h : List.replicate m ' ' ++ '"' :: cs = List.replicate n ' ' ++ '"' :: ds) : cs = ds := by
  have hdrop (k : Nat) (cs : List Char) : (List.replicate k ' ' ++ '"' :: cs).dropWhile (· == ' ') = '"' :: cs := by
    rw [List.dropWhile_append_of_pos fun c hc => by simp [List.eq_of_mem_replicate hc], List.dropWhile_cons_of_neg (by decide)]
  have hquote := congrArg (List.dropWhile (· == ' ')) h
  rw [hdrop, hdrop] at hquote
  exact (List.cons.inj hquote).2

/-- A field is its text in quotes, behind as many blanks as are missing to its width. -/
theorem toList_field (s : String) (width : Nat) :
    (field s width).toList = List.replicate (width - (s.length + 2)) ' ' ++ '"' :: (s.toList ++ ['"']) := by
  simp [field, padding]

/-- The line of some texts, each in a column of its own width. -/
def line (values : List String) (widths : List Nat) : String := ",".intercalate (List.zipWith field values widths)

/-- A line of one value is its field. -/
theorem line_singleton (s : String) (n : Nat) (widths : List Nat) : line [s] (n :: widths) = field s n := by
  simp [line]

/-- A line is its first field, a comma and the line of the other values. -/
theorem line_cons (s t : String) (values : List String) (n m : Nat) (widths : List Nat) :
    line (s :: t :: values) (n :: m :: widths) = field s n ++ "," ++ line (t :: values) (m :: widths) := by
  simp only [line, List.zipWith_cons_cons, String.intercalate_cons_cons]

/-- The texts are told from the line, if all but the last can be told from what follows on them. -/
theorem values_inj {values others : List String} {widths : List Nat} (hlength : values.length = widths.length)
    (hlength' : others.length = widths.length) (hvalues : ∀ s ∈ values.dropLast, Separable s)
    (hothers : ∀ s ∈ others.dropLast, Separable s) (h : line values widths = line others widths) : values = others := by
  induction widths generalizing values others with
  | nil => rw [List.length_eq_zero_iff.1 hlength, List.length_eq_zero_iff.1 hlength']
  | cons n widths ih =>
    obtain ⟨s, values, rfl⟩ := List.exists_cons_of_length_eq_add_one hlength
    obtain ⟨t, others, rfl⟩ := List.exists_cons_of_length_eq_add_one hlength'
    rw [List.length_cons, List.length_cons, Nat.add_right_cancel_iff] at hlength hlength'
    cases widths with
    | nil =>
      obtain rfl := List.length_eq_zero_iff.1 hlength
      obtain rfl := List.length_eq_zero_iff.1 hlength'
      rw [line_singleton, line_singleton, ← String.toList_inj, toList_field, toList_field] at h
      rw [String.toList_inj.1 (List.append_cancel_right (cons_inj_of_padding h))]
    | cons m widths =>
      obtain ⟨s', values, rfl⟩ := List.exists_cons_of_length_eq_add_one hlength
      obtain ⟨t', others, rfl⟩ := List.exists_cons_of_length_eq_add_one hlength'
      rw [List.dropLast_cons_cons, List.forall_mem_cons] at hvalues hothers
      rw [line_cons, line_cons, ← String.toList_inj] at h
      simp only [String.toList_append, toList_field, List.append_assoc, List.cons_append, List.nil_append] at h
      obtain ⟨hst, hrest⟩ := append_inj_of_separable hvalues.1 hothers.1 (cons_inj_of_padding h)
      rw [String.toList_inj.1 hst, ih hlength hlength' hvalues.2 hothers.2 (String.toList_inj.1 hrest)]

/-- A line adds nothing to its texts but what prints. -/
theorem mem_line (hc : ¬Printable c) {values : List String} {widths : List Nat} (hlength : values.length = widths.length) :
    c ∈ (line values widths).toList ↔ ∃ s ∈ values, c ∈ s.toList := by
  have hne {d : Char} (hd : Printable d) : c ≠ d := fun h => hc (h ▸ hd)
  have hfield (s : String) (n : Nat) : c ∈ (field s n).toList ↔ c ∈ s.toList := by
    simp [toList_field, hne (d := ' ') (by decide), hne (d := '"') (by decide)]
  induction widths generalizing values with
  | nil =>
    obtain rfl := List.length_eq_zero_iff.1 hlength
    exact iff_of_false nofun nofun
  | cons n widths ih =>
    obtain ⟨s, values, rfl⟩ := List.exists_cons_of_length_eq_add_one hlength
    rw [List.length_cons, List.length_cons, Nat.add_right_cancel_iff] at hlength
    cases widths with
    | nil =>
      obtain rfl := List.length_eq_zero_iff.1 hlength
      simp [line_singleton, hfield]
    | cons m widths =>
      have hmore := ih hlength
      obtain ⟨t, values, rfl⟩ := List.exists_cons_of_length_eq_add_one hlength
      simp only [line_cons, String.toList_append, List.mem_append, hfield, hmore, List.exists_mem_cons_iff]
      have hcomma : c ∉ ",".toList := fun h => hne (by decide) (List.mem_singleton.1 h)
      simp only [hcomma, or_false]

/-! ## Columns that are plain -/

theorem plain_ofList {cs : List Char} (h : ∀ c ∈ cs, Printable c ∧ c ≠ '"') : Plain (String.ofList cs) := by
  rwa [Plain, String.toList_ofList]

/-- The digits that are written are plain. -/
theorem plain_digitChar : ∀ d < 16, Printable (digitChar d) ∧ digitChar d ≠ '"' := by decide

theorem plain_digits {n : Nat} (h : c ∈ Text.digits 10 n) : Printable c ∧ c ≠ '"' := by
  obtain ⟨d, hd, rfl⟩ := Text.mem_digits (by decide) h
  exact plain_digitChar d (by omega)

theorem plain_decimal (n : Nat) : Plain (decimal n) := plain_ofList fun _ => plain_digits

/-- The characters of an address are plain. -/
theorem plain_chars {a : Address F} (h : c ∈ a.chars) : Printable c ∧ c ≠ '"' := by
  rcases Address.mem_chars h with rfl | rfl | ⟨d, hd, rfl⟩
  · decide
  · decide
  · exact plain_digitChar d hd

theorem plain_address (a : Address F) : Plain a.text := plain_ofList fun _ => plain_chars

/-- The text of an address with a length is plain. -/
theorem plain_charsWithLength (a : Address F) (plen : Nat) : Plain (String.ofList (a.charsWithLength plen)) := by
  refine plain_ofList fun d hd => ?_
  rcases List.mem_append.1 hd with hd | hd
  · exact plain_chars hd
  · rcases List.mem_cons.1 hd with rfl | hd
    · decide
    · exact plain_digits hd

/-- The text of a network is plain. -/
theorem plain_cidr (c : Cidr F) : Plain c.text := plain_charsWithLength c.addr c.plen

/-- The name that a span gives is plain. -/
theorem plain_name (s : Span F) : Plain s.name := by
  unfold Span.name
  split
  · exact plain_cidr _
  · exact plain_charsWithLength _ _

theorem plain_sizeText (s : Span F) : Plain s.sizeText := by
  unfold Span.sizeText
  split
  · decide
  · exact plain_decimal _

theorem plain_status (s : Status) : Plain s.text := by cases s <;> decide

/-! ## Rows -/

/-- The texts of a row, column by column. -/
def values (r : ListingRow) : List String :=
  [decimal r.number, r.state, r.cidr, r.start, r.stop, r.hosts, r.name, r.asn, r.org, r.remark]

/-- The widths of the columns. -/
def widths : List Nat := [6, 10, 20, 16, 16, 8, 20, 9, 8, 0]

/-- The texts of a row that are written by the caller. -/
def freeTexts (r : ListingRow) : List String := [r.name, r.org, r.remark]

/-- The line of a row is that of its values in the widths of their columns. -/
theorem rangeLine_eq (r : ListingRow) : rangeLine r = line (values r) widths := by
  have hstatus : statusField false r.state 10 = field r.state 10 := by
    have hlabel : statusLabel false r.state = r.state := by
      unfold statusLabel
      split <;> rfl
    rw [statusField, field, hlabel]
  rw [rangeLine, hstatus, ite_self]
  rfl

/-- A row is determined by the texts in its columns. -/
theorem values_injective {r r' : ListingRow} (h : values r = values r') : r = r' := by
  simp only [values, List.cons.injEq, and_true] at h
  obtain ⟨hnumber, hrest⟩ := h
  have hvalue (n : Nat) : Text.value? 10 (decimal n).toList = some n := by
    rw [decimal, String.toList_ofList, Text.value_digits (by decide) (by decide)]
  have hn : some r.number = some r'.number := by rw [← hvalue, hnumber, hvalue]
  cases r
  cases r'
  simp_all

/-- All columns but for the free texts are plain. -/
structure Columns (r : ListingRow) : Prop where
  state : Plain r.state
  cidr : Plain r.cidr
  start : Plain r.start
  stop : Plain r.stop
  hosts : Plain r.hosts
  asn : Plain r.asn

/-- The columns of a gap other than the free ones are plain. -/
theorem columns_gapRow (c : Cidr F) : Columns (Listing.gapRow c) where
  state := show Plain "-gap-" by decide
  cidr := plain_cidr c
  start := plain_address _
  stop := plain_address _
  hosts := plain_sizeText _
  asn := show Plain "None" by decide

/-- The columns of a range other than the free ones are plain. -/
theorem columns_rangeRow (n : Nat) (r : Range F) : Columns (Listing.rangeRow n r) where
  state := plain_status _
  cidr := plain_name _
  start := plain_address _
  stop := plain_address _
  hosts := plain_sizeText _
  asn := Plain.append (by decide) (plain_decimal _)

/-- Rows are those of the gap before the first range, its own and those behind it. -/
theorem exists_of_rowsFrom_cons {n : Nat} {before : Option (Address F)} {r : Range F} {ranges : List (Range F)}
    {rows : List ListingRow} (h : Listing.rowsFrom n before (r :: ranges) = .ok rows) :
    ∃ (cs : List (Cidr F)) (later : List ListingRow), rows = cs.map Listing.gapRow ++ Listing.rangeRow n r :: later ∧
      Listing.rowsFrom (n + 1) (some r.span.stop) ranges = .ok later := by
  cases before with
  | none =>
    obtain ⟨gaps, hgaps, h⟩ := bind_eq_ok_iff.1 h
    obtain ⟨later, hlater, h⟩ := bind_eq_ok_iff.1 h
    cases hgaps
    exact ⟨[], later, (Except.ok.inj h).symm, hlater⟩
  | some before =>
    obtain ⟨gaps, hgaps, h⟩ := bind_eq_ok_iff.1 h
    obtain ⟨later, hlater, h⟩ := bind_eq_ok_iff.1 h
    obtain ⟨cs, hcs, -⟩ := Listing.gapRows_fill before r.span.start
    obtain rfl := Except.ok.inj (hcs.symm.trans hgaps)
    exact ⟨cs, later, (Except.ok.inj h).symm, hlater⟩

/-- In all rows of a listing the columns other than the free ones are plain. -/
theorem columns_of_rowsFrom {n : Nat} {before : Option (Address F)} {ranges : List (Range F)} {rows : List ListingRow}
    (h : Listing.rowsFrom n before ranges = .ok rows) : ∀ row ∈ rows, Columns row := by
  induction ranges generalizing n before rows with
  | nil =>
    cases h
    nofun
  | cons r ranges ih =>
    obtain ⟨cs, later, rfl, hlater⟩ := exists_of_rowsFrom_cons h
    have hgaps : ∀ row ∈ cs.map Listing.gapRow, Columns row := List.forall_mem_map.2 fun c _ => columns_gapRow c
    exact List.forall_mem_append.2 ⟨hgaps, List.forall_mem_cons.2 ⟨columns_rangeRow n r, ih hlater⟩⟩

variable {r r' : ListingRow}

/-- A row whose name and consumer are separable. The remark stands last, and may be any text. -/
def Separated (r : ListingRow) : Prop := Separable r.name ∧ Separable r.org

instance (r : ListingRow) : Decidable (Separated r) := inferInstanceAs (Decidable (_ ∧ _))

/-- In a row without a delimiter in its free columns, all columns but the last can be told apart from what follows. -/
theorem Columns.separable (h : Columns r) (hr : Separated r) : ∀ s ∈ (values r).dropLast, Separable s := by
  have hvalues : (values r).dropLast = [decimal r.number, r.state, r.cidr, r.start, r.stop, r.hosts, r.name, r.asn, r.org] := rfl
  simp only [hvalues, List.forall_mem_cons]
  exact ⟨(plain_decimal _).separable, h.state.separable, h.cidr.separable, h.start.separable, h.stop.separable, h.hosts.separable,
    hr.1, h.asn.separable, hr.2, nofun⟩

/-- The line of a row tells the row. -/
theorem Columns.rangeLine_inj (h : Columns r) (h' : Columns r') (hr : Separated r) (hr' : Separated r')
    (heq : rangeLine r = rangeLine r') : r = r' := by
  rw [rangeLine_eq, rangeLine_eq] at heq
  exact values_injective (values_inj rfl rfl (h.separable hr) (h'.separable hr') heq)

/-- What does not print stands in a line just if it stands in one of the free texts. -/
theorem Columns.mem_rangeLine (h : Columns r) (hc : ¬Printable c) :
    c ∈ (rangeLine r).toList ↔ ∃ s ∈ freeTexts r, c ∈ s.toList := by
  have hplain {s : String} (hs : Plain s) : c ∉ s.toList := fun hin => hc (hs c hin).1
  rw [rangeLine_eq, mem_line hc rfl]
  simp [values, freeTexts, hplain (plain_decimal _), hplain h.state, hplain h.cidr, hplain h.start, hplain h.stop, hplain h.hosts,
    hplain h.asn]

/-! ## Listings -/

/-- Lines are told from a text if none of them holds a line break. -/
theorem unlines_inj {ls ls' : List String} (h : ∀ l ∈ ls, '\n' ∉ l.toList) (h' : ∀ l ∈ ls', '\n' ∉ l.toList)
    (heq : unlines ls = unlines ls') : ls = ls' := by
  have hcons (l : String) (ls : List String) : (unlines (l :: ls)).toList = l.toList ++ '\n' :: (unlines ls).toList := by
    simp [unlines]
  have hne (l : String) (ls : List String) : unlines (l :: ls) ≠ unlines [] := by
    intro hnil
    have := congrArg String.toList hnil
    rw [hcons] at this
    simp [unlines] at this
  induction ls generalizing ls' with
  | nil =>
    cases ls' with
    | nil => rfl
    | cons l ls' => exact absurd heq.symm (hne l ls')
  | cons l ls ih =>
    cases ls' with
    | nil => exact absurd heq (hne l ls)
    | cons l' ls' =>
      obtain ⟨hl, hls⟩ := List.forall_mem_cons.1 h
      obtain ⟨hl', hls'⟩ := List.forall_mem_cons.1 h'
      have hsplit := Text.splitFirst?_append hl (unlines ls).toList
      rw [← hcons, heq, hcons, Text.splitFirst?_append hl', Option.some.injEq, Prod.mk.injEq] at hsplit
      rw [String.toList_inj.1 hsplit.1, ih hls hls' (String.toList_inj.1 hsplit.2.symm)]

/-- The lines of a listing: those of its rows under the header, and a note. -/
theorem exists_ranges {ranges : List (Range F)} {rows : List ListingRow} (h : Listing.rows ranges = .ok rows) :
    ∃ note, Plain note ∧ Csv.ranges ranges = .ok (unlines (rangeHeader :: (rows.map rangeLine ++ [note]))) := by
  have hlabel : Plain F.label := by cases F <;> decide
  unfold Csv.ranges
  rw [h]
  refine ⟨_, ?_, rfl⟩
  refine .append (.append (.append (.append (.append (.append ?_ (plain_decimal _)) ?_) hlabel) ?_) (plain_decimal _)) ?_
  all_goals decide

/-- Rows are told from their lines. -/
theorem rows_inj {rows rows' : List ListingRow} (h : ∀ r ∈ rows, Columns r ∧ Separated r)
    (h' : ∀ r ∈ rows', Columns r ∧ Separated r) (heq : rows.map rangeLine = rows'.map rangeLine) : rows = rows' := by
  induction rows generalizing rows' with
  | nil => exact (List.map_eq_nil_iff.1 heq.symm).symm
  | cons r rows ih =>
    obtain ⟨r', later, rfl, hline, hlines⟩ := List.map_eq_cons_iff.1 heq.symm
    obtain ⟨hr, hrows⟩ := List.forall_mem_cons.1 h
    obtain ⟨hr', hrows'⟩ := List.forall_mem_cons.1 h'
    rw [hr.1.rangeLine_inj hr'.1 hr.2 hr'.2 hline.symm, ih hrows hrows' hlines.symm]

/-- The lines of a listing without line breaks in its free texts hold none. -/
theorem notMem_of_lines {rows : List ListingRow} {note : String} (hcolumns : ∀ r ∈ rows, Columns r) (hnote : Plain note)
    (hfree : ∀ r ∈ rows, ∀ s ∈ freeTexts r, '\n' ∉ s.toList) :
    ∀ l ∈ rangeHeader :: (rows.map rangeLine ++ [note]), '\n' ∉ l.toList := by
  have hbreak : ¬Printable '\n' := by decide
  refine List.forall_mem_cons.2 ⟨by decide +kernel, List.forall_mem_append.2 ⟨List.forall_mem_map.2 fun r hr hin => ?_, ?_⟩⟩
  · obtain ⟨s, hs, hin⟩ := ((hcolumns r hr).mem_rangeLine hbreak).1 hin
    exact hfree r hr s hs hin
  · exact List.forall_mem_singleton.2 fun hin => hbreak (hnote _ hin).1

/-- The line of a row tells the row if its name and its consumer are separable, a line holds nothing that does not print but for what
stands in its free texts, and so a listing without line breaks there tells its rows. -/
theorem lines_determine_rows {F G : Family} {ranges : List (Range F)} {others : List (Range G)} {rows rows' : List ListingRow}
    (h : Listing.rows ranges = .ok rows) (h' : Listing.rows others = .ok rows') :
    (∀ r ∈ rows, ∀ r' ∈ rows', Separated r → Separated r' → rangeLine r = rangeLine r' → r = r') ∧
    (∀ r ∈ rows, ∀ c, ¬Printable c → (c ∈ (rangeLine r).toList ↔ ∃ s ∈ freeTexts r, c ∈ s.toList)) ∧
    ((∀ r ∈ rows ++ rows', Separated r ∧ ∀ s ∈ freeTexts r, '\n' ∉ s.toList) →
      Csv.ranges ranges = Csv.ranges others → rows = rows') := by
  have hcolumns := columns_of_rowsFrom h
  have hcolumns' := columns_of_rowsFrom h'
  refine ⟨fun r hr r' hr' => (hcolumns r hr).rangeLine_inj (hcolumns' r' hr'), fun r hr c => (hcolumns r hr).mem_rangeLine, ?_⟩
  intro hfree heq
  obtain ⟨hrows, hrows'⟩ := List.forall_mem_append.1 hfree
  obtain ⟨note, hnote, htext⟩ := exists_ranges h
  obtain ⟨note', hnote', htext'⟩ := exists_ranges h'
  rw [htext, htext'] at heq
  have hlines := unlines_inj (notMem_of_lines hcolumns hnote fun r hr => (hrows r hr).2)
    (notMem_of_lines hcolumns' hnote' fun r hr => (hrows' r hr).2) (Except.ok.inj heq)
  obtain ⟨-, hlines⟩ := List.cons.inj hlines
  exact rows_inj (fun r hr => ⟨hcolumns r hr, (hrows r hr).1⟩) (fun r hr => ⟨hcolumns' r hr, (hrows' r hr).1⟩)
    (List.append_inj_left' hlines rfl)

/-- Two ranges whose names differ in a quote only. -/
theorem lines_determine_rows_quoted :
    let lab (name : String) : Range .v4 :=
      .build (.ofBits 1) name ⟨.ofBits .v4 256, .ofBits .v4 511, 24⟩ ⟨1, 64512, "as"⟩ default
    let quoted := Listing.rangeRow 1 (lab "\"lab\"")
    let half := Listing.rangeRow 1 (lab "lab\"")
    Listing.rows [lab "\"lab\""] = .ok [quoted] ∧ Listing.rows [lab "lab\""] = .ok [half] ∧
      (∀ r ∈ [quoted] ++ [half], Separated r ∧ ∀ s ∈ freeTexts r, '\n' ∉ s.toList) ∧
      rangeLine quoted ≠ rangeLine half ∧ Csv.ranges [lab "\"lab\""] ≠ Csv.ranges [lab "lab\""] := by
  intro lab quoted half
  have hfree : ∀ r ∈ [quoted] ++ [half], Separated r ∧ ∀ s ∈ freeTexts r, '\n' ∉ s.toList := by decide +kernel
  have hne : quoted ≠ half := by decide +kernel
  have hrows : Listing.rows [lab "\"lab\""] = .ok [quoted] := rfl
  have hrows' : Listing.rows [lab "lab\""] = .ok [half] := rfl
  obtain ⟨hlines, -, hlistings⟩ := lines_determine_rows hrows hrows'
  refine ⟨hrows, hrows', hfree, fun h => hne ?_, fun h => hne ?_⟩
  · exact hlines _ List.mem_cons_self _ List.mem_cons_self (hfree _ (by simp)).1 (hfree _ (by simp)).1 h
  · exact (List.cons.inj (hlistings hfree h)).1

/-- A range that is reserved for a consumer. -/
def reserved (org remark : String) : Engine :=
  let network : Span .v4 := ⟨.ofBits .v4 0x0a000000, .ofBits .v4 0x0a0000ff, 24⟩
  Operation.afterAll
    [.onRanges .v4 (.counting 1) none (.create ⟨"lab", network, ⟨1, 64512, "AS64512"⟩, remark, ""⟩),
      .onRanges .v4 (.counting 2) none (.reserve (.ofBits 1) ⟨"vo", org⟩)] (Engine.empty .standard)

/-- Quotes are not escaped, so a consumer and a remark can be taken for others. -/
theorem lines_not_always_different :
    ¬∀ (e e' : Engine) (rows rows' : List ListingRow), Reached Operation.ordinary (Engine.empty .standard) e →
      Reached Operation.ordinary (Engine.empty .standard) e' → Listing.rows e.v4.store.toList = .ok rows →
      Listing.rows e'.v4.store.toList = .ok rows' → ∀ r ∈ rows, ∀ r' ∈ rows', rangeLine r = rangeLine r' →
        r = r' ∧ '\n' ∉ (rangeLine r).toList := by
  intro h
  let row (org remark : String) : ListingRow :=
    ⟨1, "reserved", "10.0.0.0/24", "10.0.0.0", "10.0.0.255", "256", "lab", "AS64512", org, remark⟩
  have hrows : Listing.rows (reserved "org-123" "x\",\"y").v4.store.toList = .ok [row "org-123" "x\",\"y"] := by decide +kernel
  have hrows' : Listing.rows (reserved "org-123\",\"x" "y").v4.store.toList = .ok [row "org-123\",\"x" "y"] := by decide +kernel
  have hline : rangeLine (row "org-123" "x\",\"y") = rangeLine (row "org-123\",\"x" "y") := by decide +kernel
  have hsame := h _ _ _ _ (reached_afterAll _ rfl) (reached_afterAll _ rfl) hrows hrows' _ List.mem_cons_self _
    List.mem_cons_self hline
  exact absurd (congrArg ListingRow.remark hsame.1) (by decide)

end Csv

end AddressSpace
