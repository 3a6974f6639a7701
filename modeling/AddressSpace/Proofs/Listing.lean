import AddressSpace.Listing
import AddressSpace.Proofs.Address.Text
import AddressSpace.Proofs.Cidr.Text
import AddressSpace.Proofs.Span.Free
import AddressSpace.Proofs.Span.Tiling
/-!
# A listing leaves nothing out

The rows of a listing with gaps tile the run from the start of the first range to the end of the last. Between two ranges stand
the largest networks of the addresses between them (`gapRows_between`), and what holds of the rows behind one range holds of those
behind the range before it (`rowsFrom_follows`). So every listing is as `Listed` says (`rows_listed`).
-/

namespace AddressSpace.Listing

variable {F : Family} {ranges : List (Range F)} {rows : List ListingRow}

/-- The bounds that a row shows. -/
def bounds? (F : Family) (row : ListingRow) : Option Interval := do
  let start ← Address.ofText? F row.start
  let stop ← Address.ofText? F row.stop
  return ⟨start.bits, stop.bits⟩

/-- A network between ranges that meets none of them, as its parent does. -/
structure Between (ranges : List (Range F)) (c : Cidr F) : Prop where
  network : c.network = c
  plen_pos : 0 < c.plen
  apart : ∀ r ∈ ranges, ∀ a, c.contains a = true → r.span.contains a = false
  largest : ∃ r ∈ ranges, ∃ a, c.parent.contains a = true ∧ r.span.contains a = true

/-- The row of a gap shows a network, by its first address and its length, and how many addresses that has. -/
structure Shows (row : ListingRow) (c : Cidr F) : Prop where
  row_eq : row = gapRow c
  cidr : row.cidr = row.start ++ "/" ++ Text.decimal c.plen
  hosts : row.hosts = Text.decimal c.size

/-- The rows are those of the ranges in order, with the largest networks between one range and the next. -/
structure Listed (ranges : List (Range F)) (rows : List ListingRow) : Prop where
  numbered : rows.filter (0 < ·.number) = (ranges.zipIdx 1).map fun r => rangeRow r.2 r.1
  tiles : ∀ first last, ranges.head? = some first → ranges.getLast? = some last →
    ∃ is, rows.map (bounds? F) = is.map some ∧ Interval.Tiles first.span.start.bits (last.span.stop.bits + 1) is
  gaps : ∀ row ∈ rows, row.number = 0 → ∃ c : Cidr F, Shows row c ∧ Between ranges c
  /-- No gap precedes the first range. -/
  first : ∀ row ∈ rows.head?, 0 < row.number
  /-- No gap follows the last range. -/
  last : ∀ row ∈ rows.getLast?, 0 < row.number

/-! ## Single rows -/

/-- The row of a range shows the bounds of the range. -/
theorem bounds_rangeRow (n : Nat) (r : Range F) : bounds? F (rangeRow n r) = some r.span.interval := by
  simp only [bounds?, rangeRow, Address.ofText?_text]
  rfl

/-- The row of a range stays when the rows of gaps are left out. -/
theorem filter_rangeRow {n : Nat} (hn : 0 < n) (r : Range F) (rows : List ListingRow) :
    (rangeRow n r :: rows).filter (0 < ·.number) = rangeRow n r :: rows.filter (0 < ·.number) :=
  List.filter_cons_of_pos (decide_eq_true hn)

/-- The row of a gap shows the bounds of its network. -/
theorem bounds_gapRow (c : Cidr F) : bounds? F (gapRow c) = some ⟨c.lo.bits, c.hi.bits⟩ := by
  simp only [bounds?, gapRow, Address.ofText?_text]
  rfl

/-- The row of a gap shows its network, and says so in all of its columns. -/
theorem shows_gapRow {c : Cidr F} (hc : c.network = c) (hpos : 0 < c.plen) : Shows (gapRow c) c where
  row_eq := rfl
  cidr := by
    show c.text = c.lo.text ++ "/" ++ Text.decimal c.plen
    rw [Cidr.text_eq, Cidr.network_eq_self_iff.1 hc]
  hosts := by
    have hsize : (Span.ofCidr c).size = c.size := by
      have hhi := c.hi_bits
      have := c.size_pos
      show c.hi.bits + 1 - c.lo.bits = c.size
      omega
    -- a network that is not the whole space is smaller than the larger space
    have hlt : c.size < Family.v6.size := by
      rw [Cidr.size, Family.size, Nat.one_shiftLeft, Nat.one_shiftLeft]
      refine Nat.pow_lt_pow_right (by decide) ?_
      have := F.width_le
      show F.width - c.plen < 128
      omega
    show (Span.ofCidr c).sizeText = Text.decimal c.size
    rw [Span.sizeText, hsize, if_neg (Nat.ne_of_lt hlt)]

/-! ## One gap -/

variable {before start : Address F} {cs : List (Cidr F)}

/-- A gap is listed as the networks that fill it. -/
theorem gapRows_fill (before start : Address F) :
    ∃ cs : List (Cidr F), gapRows before start = .ok (cs.map gapRow) ∧ Span.Fill 0 (fun a => before < a ∧ a < start) cs := by
  unfold gapRows
  by_cases hgap : before.bits + 1 < start.bits
  · have hstart := start.isLt
    have hfirst : (Address.ofBits F (before.bits + 1)).bits = before.bits + 1 := Nat.mod_eq_of_lt (by omega)
    have hlast : (Address.ofBits F (start.bits - 1)).bits = start.bits - 1 := Nat.mod_eq_of_lt (by omega)
    rw [if_pos hgap]
    generalize Address.ofBits F (before.bits + 1) = first at hfirst
    generalize Address.ofBits F (start.bits - 1) = last at hlast
    have hle : first.bits ≤ last.bits := by omega
    have hshaped : (⟨first, last, 0⟩ : Span F).Shaped := ⟨Nat.zero_le _, hle, first.cut_zero last⟩
    obtain ⟨cs, hcs, hfill⟩ := @Span.exists_free_fill F _ [] hshaped nofun .nil
    refine ⟨cs, ?_, hfill.congr fun a => ?_⟩
    · simp only [hcs]
      rfl
    · rw [Span.Unoccupied, Span.contains_iff, hfirst, hlast]
      show (_ ≤ a.bits ∧ a.bits ≤ _) ∧ _ ↔ before.bits < a.bits ∧ a.bits < start.bits
      simp only [List.not_mem_nil, false_imp_iff, implies_true, and_true]
      omega
  · rw [if_neg hgap]
    refine ⟨[], rfl, .nil fun a ha => hgap ?_⟩
    exact Nat.lt_of_le_of_lt ha.1 ha.2

/-- The networks that fill a gap tile it. -/
theorem tiles_of_fill (h : before < start) (hfill : Span.Fill 0 (fun a => before < a ∧ a < start) cs) :
    Interval.Tiles (before.bits + 1) start.bits (cs.map fun c => ⟨c.lo.bits, c.hi.bits⟩) := by
  refine Interval.tiles_of_contains_iff h ?_ ?_ fun n => ?_
  · exact List.forall_mem_map.2 fun c _ => c.lo_le_hi
  · rw [List.pairwise_map]
    exact hfill.ascending
  · simp only [List.mem_map, exists_exists_and_eq_and, Interval.contains, Bool.and_eq_true, decide_eq_true_eq]
    constructor
    · rintro ⟨c, hc, hn⟩
      have hlt : n < F.size := Nat.lt_of_le_of_lt hn.2 c.hi.isLt
      exact hfill.free_of_mem hc (a := ⟨n, hlt⟩) (Cidr.contains_eq_true.2 hn)
    · intro hn
      have hlt : n < F.size := Nat.lt_trans hn.2 start.isLt
      obtain ⟨c, hc, hin⟩ := (hfill.free_iff ⟨n, hlt⟩).2 hn
      exact ⟨c, hc, Cidr.contains_eq_true.1 hin⟩

/-- The parent of a network that fills a gap holds one of the addresses around the gap. -/
theorem contains_around (hfill : Span.Fill 0 (fun a => before < a ∧ a < start) cs) {c : Cidr F} (hc : c ∈ cs) :
    0 < c.plen ∧ (c.parent.contains before = true ∨ c.parent.contains start = true) := by
  have hpos : 0 < c.plen := by
    refine Nat.pos_of_ne_zero fun hzero => ?_
    have hall : c.contains before = true := by
      rw [Cidr.contains_iff, hzero, Cidr.lo, hzero]
      exact Address.cut_zero ..
    exact Nat.lt_irrefl _ (hfill.free_of_mem hc hall).1
  have hlo := hfill.free_of_mem hc c.contains_lo
  have hin := Cidr.contains_eq_true.1 (Cidr.contains_parent c.contains_lo)
  obtain ⟨a, hreach⟩ := not_forall.1 (hfill.not_parent_free hc hpos (Nat.zero_le _))
  obtain ⟨ha, hout⟩ := Classical.not_imp.1 hreach
  obtain ⟨hfirst, hlast⟩ := Cidr.contains_eq_true.1 ha
  -- the parent reaches from the gap to an address outside, and so across one of the two
  refine ⟨hpos, (Nat.lt_or_ge before.bits a.bits).symm.imp (fun hle => ?_) fun hlt => ?_⟩
  · exact Cidr.contains_eq_true.2 ⟨Nat.le_trans hfirst hle, Nat.le_trans (Nat.le_of_lt hlo.1) hin.2⟩
  · have hge : start.bits ≤ a.bits := Nat.not_lt.1 fun hlt' => hout ⟨hlt, hlt'⟩
    exact Cidr.contains_eq_true.2 ⟨Nat.le_trans hin.1 (Nat.le_of_lt hlo.2), Nat.le_trans hge hlast⟩

/-! ## The rows behind a range -/

/-- The rows of ranges that follow on another one, with the gap in front of the first of them. -/
structure Follows (before : Range F) (n : Nat) (ranges : List (Range F)) (rows : List ListingRow) : Prop where
  numbered : rows.filter (0 < ·.number) = (ranges.zipIdx n).map fun r => rangeRow r.2 r.1
  tiles : ∃ is, rows.map (bounds? F) = is.map some ∧
    Interval.Tiles (before.span.stop.bits + 1) (((before :: ranges).getLast (List.cons_ne_nil _ _)).span.stop.bits + 1) is
  gaps : ∀ row ∈ rows, row.number = 0 →
    ∃ c : Cidr F, Shows row c ∧ before.span.stop < c.lo ∧ Between (before :: ranges) c
  last : ∀ row ∈ rows.getLast?, 0 < row.number

/-- Ranges in ascending order: each ends at its start or later, and before any later one starts. -/
structure Ascending (ranges : List (Range F)) : Prop where
  ordered : ∀ r ∈ ranges, r.span.start ≤ r.span.stop
  apart : ranges.Pairwise fun r s => r.span.stop < s.span.start

theorem Ascending.tail {r : Range F} (h : Ascending (r :: ranges)) : Ascending ranges :=
  ⟨(List.forall_mem_cons.1 h.ordered).2, (List.pairwise_cons.1 h.apart).2⟩

section

variable {before r : Range F} {c : Cidr F}

/-- All ranges behind the first start after its end. -/
theorem Ascending.stop_lt (h : Ascending (before :: ranges)) (hr : r ∈ ranges) : before.span.stop < r.span.start :=
  (List.pairwise_cons.1 h.apart).1 r hr

/-- A network between two ranges stays one with ranges behind them. -/
theorem between_of_around (h : Ascending (before :: r :: ranges)) (hnetwork : c.network = c) (hpos : 0 < c.plen)
    (hlo : before.span.stop < c.lo) (hhi : c.hi < r.span.start)
    (hparent : c.parent.contains before.span.stop = true ∨ c.parent.contains r.span.start = true) :
    Between (before :: r :: ranges) c where
  network := hnetwork
  plen_pos := hpos
  apart := by
    intro s hs a ha
    obtain ⟨hfirst, hlast⟩ := Cidr.contains_eq_true.1 ha
    have hstart : a < r.span.start := Nat.lt_of_le_of_lt hlast hhi
    refine Span.contains_eq_false.2 ?_
    rcases List.mem_cons.1 hs with rfl | hs
    · exact .inr (Nat.lt_of_lt_of_le hlo hfirst)
    · rcases List.mem_cons.1 hs with rfl | hs
      · exact .inl hstart
      · have hle : r.span.start ≤ r.span.stop := h.ordered r (by simp)
        exact .inl (Nat.lt_trans hstart (Nat.lt_of_le_of_lt hle (h.tail.stop_lt hs)))
  largest := by
    have hbefore : before.span.contains before.span.stop = true :=
      Span.contains_iff.2 ⟨h.ordered before (by simp), Nat.le_refl _⟩
    have hr : r.span.contains r.span.start = true := Span.contains_iff.2 ⟨Nat.le_refl _, h.ordered r (by simp)⟩
    rcases hparent with hparent | hparent
    · exact ⟨before, by simp, _, hparent, hbefore⟩
    · exact ⟨r, by simp, _, hparent, hr⟩

/-- A network behind a range stays one with a range before it. -/
theorem Between.cons (hc : Between (r :: ranges) c) (h : Ascending (before :: r :: ranges)) (hlo : r.span.stop < c.lo) :
    before.span.stop < c.lo ∧ Between (before :: r :: ranges) c := by
  have hle : r.span.start ≤ r.span.stop := h.ordered r (by simp)
  have hbefore : before.span.stop < c.lo :=
    Nat.lt_trans (h.stop_lt List.mem_cons_self) (Nat.lt_of_le_of_lt hle hlo)
  obtain ⟨s, hs, hmeets⟩ := hc.largest
  refine ⟨hbefore, hc.network, hc.plen_pos, List.forall_mem_cons.2 ⟨fun a ha => ?_, hc.apart⟩, s, List.mem_cons_of_mem _ hs, hmeets⟩
  exact Span.contains_eq_false.2 (.inr (Nat.lt_of_lt_of_le hbefore (Cidr.contains_eq_true.1 ha).1))

/-- What follows on a range is its row and what follows behind it, with a gap in front. -/
theorem Follows.cons {n : Nat} (hn : 0 < n) (h : Ascending (before :: r :: ranges)) (hrest : Follows r (n + 1) ranges rows)
    {cs : List (Cidr F)} (hfill : Span.Fill 0 (fun a => before.span.stop < a ∧ a < r.span.start) cs) :
    Follows before n (r :: ranges) (cs.map gapRow ++ rangeRow n r :: rows) where
  numbered := by
    have hgaps : (cs.map gapRow).filter (0 < ·.number) = [] := by simp [gapRow]
    rw [List.filter_append, hgaps, List.nil_append, filter_rangeRow hn, hrest.numbered, List.zipIdx_cons, List.map_cons]
  tiles := by
    obtain ⟨is, his, htiles⟩ := hrest.tiles
    refine ⟨cs.map (fun c => ⟨c.lo.bits, c.hi.bits⟩) ++ r.span.interval :: is, ?_, ?_⟩
    · simp only [List.map_append, List.map_cons, List.map_map, his, bounds_rangeRow]
      congr 1
      exact List.map_congr_left fun c _ => bounds_gapRow c
    · refine Interval.tiles_append.2 ⟨_, tiles_of_fill (h.stop_lt List.mem_cons_self) hfill, rfl, h.ordered r (by simp), ?_⟩
      rwa [List.getLast_cons (List.cons_ne_nil r ranges)]
  gaps := by
    intro row hrow hzero
    rcases List.mem_append.1 hrow with hrow | hrow
    · obtain ⟨c, hc, rfl⟩ := List.mem_map.1 hrow
      obtain ⟨hpos, hparent⟩ := contains_around hfill hc
      have hlo := (hfill.free_of_mem hc c.contains_lo).1
      have hhi := (hfill.free_of_mem hc c.contains_hi).2
      exact ⟨c, shows_gapRow (hfill.network c hc) hpos, hlo, between_of_around h (hfill.network c hc) hpos hlo hhi hparent⟩
    · rcases List.mem_cons.1 hrow with rfl | hrow
      · exact absurd hzero (Nat.ne_of_gt hn)
      · obtain ⟨c, hshows, hlo, hc⟩ := hrest.gaps row hrow hzero
        exact ⟨c, hshows, hc.cons h hlo⟩
  last := by
    intro row hrow
    rw [List.getLast?_append_cons] at hrow
    cases rows with
    | nil =>
      obtain rfl := Option.some.inj hrow
      exact hn
    | cons row' rows => exact hrest.last row (by rwa [List.getLast?_cons_cons] at hrow)

end

/-- What stands behind a range is listed in order, up to the end of the last range. -/
theorem rowsFrom_follows (before : Range F) (n : Nat) (hn : 0 < n) (h : Ascending (before :: ranges)) :
    ∃ rows, rowsFrom n (some before.span.stop) ranges = .ok rows ∧ Follows before n ranges rows := by
  induction ranges generalizing before n with
  | nil => exact ⟨[], rfl, rfl, ⟨[], rfl, rfl⟩, nofun, nofun⟩
  | cons r ranges ih =>
    obtain ⟨cs, hcs, hfill⟩ := gapRows_fill before.span.stop r.span.start
    obtain ⟨rows, hrows, hrest⟩ := ih r (n + 1) (Nat.succ_pos n) h.tail
    refine ⟨cs.map gapRow ++ rangeRow n r :: rows, ?_, hrest.cons hn h hfill⟩
    rw [rowsFrom]
    simp only [hcs, hrows, ok_bind]
    rfl

/-! ## The whole listing -/

/-- Ranges in ascending order that do not meet are listed, and the listing leaves nothing out. -/
theorem rows_listed (hordered : ∀ r ∈ ranges, r.span.start ≤ r.span.stop)
    (hsorted : ranges.Pairwise fun r s => r.span.start ≤ s.span.start ∧ r.span.meets s.span = false) :
    ∃ rows, Listing.rows ranges = .ok rows ∧ Listed ranges rows := by
  have h : Ascending ranges :=
    ⟨hordered, hsorted.imp_of_mem fun _ hs ⟨hle, hmeets⟩ => Span.stop_lt_of_apart hle (hordered _ hs) hmeets⟩
  cases ranges with
  | nil =>
    exact ⟨[], rfl, rfl, fun _ _ h => (Option.some_ne_none _ h.symm).elim, nofun, nofun, nofun⟩
  | cons r ranges =>
    obtain ⟨rows, hrows, hrest⟩ := rowsFrom_follows r 2 (by decide) h
    refine ⟨rangeRow 1 r :: rows, ?_, ?_⟩
    · rw [Listing.rows, rowsFrom, hrows]
      rfl
    · exact {
        numbered := by
          rw [filter_rangeRow Nat.one_pos, hrest.numbered, List.zipIdx_cons, List.map_cons]
        tiles := by
          rintro first last hfirst hlast
          obtain rfl := Option.some.inj hfirst
          obtain ⟨is, his, htiles⟩ := hrest.tiles
          refine ⟨r.span.interval :: is, by rw [List.map_cons, his, bounds_rangeRow, List.map_cons], rfl, hordered r (by simp), ?_⟩
          rw [List.getLast?_eq_some_getLast (List.cons_ne_nil _ _)] at hlast
          rwa [← Option.some.inj hlast]
        gaps := by
          intro row hrow hzero
          rcases List.mem_cons.1 hrow with rfl | hrow
          · cases hzero
          · obtain ⟨c, hshows, -, hc⟩ := hrest.gaps row hrow hzero
            exact ⟨c, hshows, hc⟩
        first := by
          rintro row hrow
          obtain rfl := Option.some.inj hrow
          exact Nat.one_pos
        last := by
          intro row hrow
          cases rows with
          | nil =>
            obtain rfl := Option.some.inj hrow
            exact Nat.one_pos
          | cons row' rows => exact hrest.last row (by rwa [List.getLast?_cons_cons] at hrow) }

/-- Two ranges up to the last address, neither of which starts or ends with the network it is named after: the gap between them
takes four networks. -/
theorem rows_listed_top :
    let low : Range .v4 :=
      .build (.ofBits 1) "low" ⟨.ofBits .v4 0xfffffff0, .ofBits .v4 0xfffffff2, 28⟩ ⟨1, 64512, "as"⟩ default
    let high : Range .v4 :=
      .build (.ofBits 2) "high" ⟨.ofBits .v4 0xfffffffb, .ofBits .v4 0xffffffff, 29⟩ ⟨1, 64512, "as"⟩ default
    (∀ r ∈ [low, high], r.span.start ≤ r.span.stop) ∧
      [low, high].Pairwise (fun r s => r.span.start ≤ s.span.start ∧ r.span.meets s.span = false) ∧
      ∃ rows, Listing.rows [low, high] = .ok rows ∧ Listed [low, high] rows ∧ rows.map (·.cidr) =
        ["255.255.255.240/28", "255.255.255.243/32", "255.255.255.244/30", "255.255.255.248/31", "255.255.255.250/32",
          "255.255.255.248/29"] := by
  intro low high
  have hordered : ∀ r ∈ [low, high], r.span.start ≤ r.span.stop := by decide +kernel
  have hsorted : [low, high].Pairwise fun r s => r.span.start ≤ s.span.start ∧ r.span.meets s.span = false := by decide +kernel
  obtain ⟨rows, hrows, hlisted⟩ := rows_listed hordered hsorted
  have hcidrs : (Listing.rows [low, high]).map (·.map (·.cidr)) =
      .ok ["255.255.255.240/28", "255.255.255.243/32", "255.255.255.244/30", "255.255.255.248/31", "255.255.255.250/32",
        "255.255.255.248/29"] := by decide +kernel
  rw [hrows] at hcidrs
  exact ⟨hordered, hsorted, rows, hrows, hlisted, Except.ok.inj hcidrs⟩

end AddressSpace.Listing
