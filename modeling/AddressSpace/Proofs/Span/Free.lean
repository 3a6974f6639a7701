import Mathlib.Data.List.Pairwise
import AddressSpace.Proofs.Cidr
import AddressSpace.Proofs.Span.Networks
import AddressSpace.Span.Free
/-!
# Free blocks are the maximal free networks

`Fill least free cs` says that the networks `cs` hold just the addresses that are `free` and that every network of free addresses
lies in one of them, unless its length is shorter than `least`. A gap is filled in this way since each network that is taken is the
largest that starts where it does, so that a larger one could only start below it, in a network that has been taken before
(`Fill.cons`, `fillGap_fill`). Fills of two gaps with an occupied address in between make one of both (`Fill.append`), and so the
walk from gap to gap fills all of them (`freeFrom_fill`). No network with a shorter length than a span lies in the span, and the
free blocks of a span are hence the maximal networks of its unoccupied addresses (`free_maximal`).
-/

namespace AddressSpace.Span

variable {F : Family} {least : Nat} {free free' : Address F → Prop} {cs ds : List (Cidr F)} {c d : Cidr F}

/-- The networks `cs` hold the addresses that are `free` and no others, and they are as large as they can be. -/
structure Fill (least : Nat) (free : Address F → Prop) (cs : List (Cidr F)) : Prop where
  ascending : cs.Pairwise fun c d => c.hi < d.lo
  network : ∀ c ∈ cs, c.network = c
  least_le : ∀ c ∈ cs, least ≤ c.plen
  free_iff : ∀ a, (∃ c ∈ cs, c.contains a = true) ↔ free a
  /-- A network of free addresses lies in one of them. -/
  largest : ∀ d : Cidr F, least ≤ d.plen → (∀ a, d.contains a = true → free a) →
    ∃ c ∈ cs, c.plen ≤ d.plen ∧ c.contains d.lo = true

namespace Fill

/-- A gap stays filled when the same addresses are free. -/
theorem congr (h : Fill least free cs) (hfree : ∀ a, free a ↔ free' a) : Fill least free' cs := by
  have : free = free' := funext fun a => propext (hfree a)
  exact this ▸ h

/-- Where nothing is free there is nothing to fill. -/
theorem nil (h : ∀ a, ¬free a) : Fill least free [] where
  ascending := .nil
  network := nofun
  least_le := nofun
  free_iff := fun a => ⟨fun ⟨_, hc, _⟩ => (List.not_mem_nil hc).elim, fun ha => absurd ha (h a)⟩
  largest := fun d _ hd => absurd (hd _ d.contains_lo) (h _)

/-- The networks that fill a gap hold free addresses only. -/
theorem free_of_mem (h : Fill least free cs) (hc : c ∈ cs) {a : Address F} (ha : c.contains a = true) : free a :=
  (h.free_iff a).1 ⟨c, hc, ha⟩

/-- A network below a fill is added when no larger one starts in it. -/
theorem cons (h : Fill least free cs) (hnetwork : c.network = c) (hleast : least ≤ c.plen) (habove : ∀ a, free a → c.hi < a)
    (hlargest : ∀ d : Cidr F, least ≤ d.plen → (∀ a, d.contains a = true → c.contains a = true ∨ free a) → d.lo ≤ c.hi →
      c.plen ≤ d.plen) : Fill least (fun a => c.contains a = true ∨ free a) (c :: cs) where
  ascending := List.pairwise_cons.2 ⟨fun d hd => habove _ (h.free_of_mem hd d.contains_lo), h.ascending⟩
  network := List.forall_mem_cons.2 ⟨hnetwork, h.network⟩
  least_le := List.forall_mem_cons.2 ⟨hleast, h.least_le⟩
  free_iff := fun a => by simp only [List.mem_cons, or_and_right, exists_or, exists_eq_left, h.free_iff]
  largest := by
    intro d hd hfree
    by_cases hlo : d.lo ≤ c.hi
    · have hin : c.contains d.lo = true := (hfree _ d.contains_lo).resolve_right fun hf => Nat.not_le.2 (habove _ hf) hlo
      exact ⟨c, List.mem_cons_self, hlargest d hd hfree hlo, hin⟩
    · -- then all of the network lies behind the one that is added
      have hrest : ∀ a, d.contains a = true → free a := by
        intro a ha
        refine (hfree a ha).resolve_left fun hin => hlo ?_
        exact Nat.le_trans (Cidr.contains_eq_true.1 ha).1 (Cidr.contains_eq_true.1 hin).2
      obtain ⟨e, he, hle⟩ := h.largest d hd hrest
      exact ⟨e, List.mem_cons_of_mem _ he, hle⟩

/-- Two fills with an address in between that is not free make one. -/
theorem append (h : Fill least free cs) (h' : Fill least free' ds) {m : Address F} (hbelow : ∀ a, free a → a < m)
    (habove : ∀ a, free' a → m < a) : Fill least (fun a => free a ∨ free' a) (cs ++ ds) where
  ascending := List.pairwise_append.2 ⟨h.ascending, h'.ascending, fun c hc d hd =>
    Nat.lt_trans (hbelow _ (h.free_of_mem hc c.contains_hi)) (habove _ (h'.free_of_mem hd d.contains_lo))⟩
  network := fun c hc => (List.mem_append.1 hc).elim (h.network c) (h'.network c)
  least_le := fun c hc => (List.mem_append.1 hc).elim (h.least_le c) (h'.least_le c)
  free_iff := fun a => by simp only [List.mem_append, or_and_right, exists_or, h.free_iff, h'.free_iff]
  largest := by
    intro d hd hfree
    have hm : ¬d.contains m = true := fun hm =>
      (hfree m hm).elim (fun hf => Nat.lt_irrefl _ (hbelow m hf)) fun hf => Nat.lt_irrefl _ (habove m hf)
    -- a network that holds an address on each side holds the one in between
    rcases hfree _ d.contains_lo with hlo | hlo
    · have hall : ∀ a, d.contains a = true → free a := by
        intro a ha
        refine (hfree a ha).resolve_right fun hf => hm (Cidr.contains_eq_true.2 ⟨Nat.le_of_lt (hbelow _ hlo), ?_⟩)
        exact Nat.le_trans (Nat.le_of_lt (habove a hf)) (Cidr.contains_eq_true.1 ha).2
      obtain ⟨c, hc, hle⟩ := h.largest d hd hall
      exact ⟨c, List.mem_append_left _ hc, hle⟩
    · have hall : ∀ a, d.contains a = true → free' a := by
        intro a ha
        refine (hfree a ha).resolve_left fun hf => Nat.lt_irrefl _ (Nat.lt_trans (habove _ hlo) ?_)
        exact Nat.lt_of_le_of_lt (Cidr.contains_eq_true.1 ha).1 (hbelow a hf)
      obtain ⟨c, hc, hle⟩ := h'.largest d hd hall
      exact ⟨c, List.mem_append_right _ hc, hle⟩

end Fill

/-! ## One gap -/

variable {start stop limit : Address F} {plen : Nat}

/-- The least length that fits is found, since the network of the full length always fits. -/
theorem exists_fittingLength (hle : start ≤ limit) (hplen : plen ≤ F.width) :
    ∃ q, fittingLength start limit plen = .ok q ∧ plen ≤ q ∧ q ≤ F.width ∧ start.last q ≤ limit ∧
      ∀ m, plen ≤ m → start.last m ≤ limit → q ≤ m := by
  fun_induction fittingLength start limit plen with
  | case1 plen hlong => exact absurd hplen (Nat.not_le.2 hlong)
  | case2 plen _ hfits => exact ⟨plen, rfl, Nat.le_refl _, hplen, hfits, fun m hm _ => hm⟩
  | case3 plen _ hover ih =>
    have hne : plen ≠ F.width := fun he => hover (by rwa [he, Address.last_width])
    obtain ⟨q, hq, hlow, hwidth, hfits, hleast⟩ := ih (by omega)
    refine ⟨q, hq, by omega, hwidth, hfits, fun m hm hmfits => hleast m ?_ hmfits⟩
    have : m ≠ plen := fun he => hover (he ▸ hmfits)
    omega

/-- The network of the least length that fits is the largest in the gap that starts in it. -/
theorem plen_le_of_fitting (hc : c.network = c)
    (hleast : ∀ m, max least (Mask.shortest c.addr.bits F.width) ≤ m → c.addr.last m ≤ stop → c.plen ≤ m)
    (hd : least ≤ d.plen) (hfree : ∀ a, d.contains a = true → c.addr ≤ a ∧ a ≤ stop) (hlo : d.lo ≤ c.hi) : c.plen ≤ d.plen := by
  refine Nat.not_lt.1 fun hlt => Nat.not_le.2 hlt ?_
  have hstart := Cidr.network_eq_self_iff.1 hc
  have hin : c.contains d.lo = true := Cidr.contains_eq_true.2 ⟨hstart ▸ (hfree _ d.contains_lo).1, hlo⟩
  -- a larger network would hold all of this one, and so start at the same address
  have haddr : d.contains c.addr = true :=
    Cidr.contains_of_le (Nat.le_of_lt hlt) hin d.contains_lo (hstart ▸ c.contains_lo)
  have hsame : d.lo = c.addr := Address.ext_bits
    (Nat.le_antisymm (Cidr.contains_eq_true.1 haddr).1 (hfree _ d.contains_lo).1)
  have hshortest : Mask.shortest c.addr.bits F.width ≤ d.plen :=
    hsame ▸ Cidr.network_eq_self_iff_shortest.1 d.network_network
  refine hleast d.plen (Nat.max_le.2 ⟨hd, hshortest⟩) ?_
  rw [Cidr.last_eq_hi haddr]
  exact (hfree _ d.contains_hi).2

/-- What is left of a gap behind such a network is filled on its own. -/
theorem Fill.cons_fitting (hc : c.network = c) (hle : least ≤ c.plen) (hfits : c.hi ≤ stop)
    (hleast : ∀ m, max least (Mask.shortest c.addr.bits F.width) ≤ m → c.addr.last m ≤ stop → c.plen ≤ m)
    (h : Fill least (fun a => c.hi < a ∧ a ≤ stop) cs) : Fill least (fun a => c.addr ≤ a ∧ a ≤ stop) (c :: cs) := by
  have hfree : ∀ a, c.contains a = true ∨ c.hi < a ∧ a ≤ stop ↔ c.addr ≤ a ∧ a ≤ stop := by
    intro a
    have hstart : c.addr.bits ≤ c.hi.bits := c.hi_eq_last ▸ c.addr.le_last c.plen
    have hfits' : c.hi.bits ≤ stop.bits := hfits
    rw [Cidr.contains_eq_true, Cidr.network_eq_self_iff.1 hc]
    show (c.addr.bits ≤ a.bits ∧ a.bits ≤ c.hi.bits) ∨ c.hi.bits < a.bits ∧ a.bits ≤ stop.bits ↔
      c.addr.bits ≤ a.bits ∧ a.bits ≤ stop.bits
    omega
  refine (h.cons hc hle (fun _ ha => ha.1) fun d hd hin hlo => ?_).congr hfree
  exact plen_le_of_fitting hc hleast hd (fun a ha => (hfree a).1 (hin a ha)) hlo

/-- A gap is filled. -/
theorem fillGap_fill (hwidth : least ≤ F.width) (hle : start ≤ stop) :
    ∃ cs, fillGap least stop start = .ok cs ∧ Fill least (fun a => start ≤ a ∧ a ≤ stop) cs := by
  fun_induction fillGap least stop start with
  | case1 start ih =>
    have hshortest : Mask.shortest start.bits F.width ≤ F.width :=
      (Mask.shortest_le_iff F.width_le start.isLt (Nat.le_refl _)).2 (by simp)
    obtain ⟨plen, hplen, hlow, hplenWidth, hfits, hleast⟩ := exists_fittingLength hle (Nat.max_le.2 ⟨hwidth, hshortest⟩)
    obtain ⟨hlow, hnetwork⟩ := Nat.max_le.1 hlow
    let c : Cidr F := ⟨start, plen, hplenWidth⟩
    have hparts : Cidr.ofParts start plen = .ok c := dif_pos hplenWidth
    have hc : c.network = c := Cidr.network_eq_self_iff_shortest.2 hnetwork
    have hhi : c.hi = start.last plen := c.hi_eq_last
    have hfits' : c.hi ≤ stop := hhi ▸ hfits
    rw [hplen, ok_bind, hparts, ok_bind]
    by_cases hmore : start.last plen < stop
    · obtain ⟨others, hothers, hfill⟩ := ih plen hmore hmore
      rw [dif_pos hmore, hothers]
      have hbehind : Fill least (fun a => c.hi < a ∧ a ≤ stop) others := hhi ▸ hfill
      exact ⟨c :: others, rfl, hbehind.cons_fitting hc hlow hfits' hleast⟩
    · rw [dif_neg hmore]
      refine ⟨[c], rfl, .cons_fitting hc hlow hfits' hleast (.nil fun a ha => hmore ?_)⟩
      exact hhi ▸ Nat.lt_of_lt_of_le ha.1 ha.2

/-! ## All gaps -/

/-- A span does not hold the addresses before its start and after its end. -/
theorem contains_eq_false {s : Span F} {a : Address F} : s.contains a = false ↔ a < s.start ∨ s.stop < a := by
  rw [contains, Bool.and_eq_false_iff, decide_eq_false_iff_not, decide_eq_false_iff_not]
  exact or_congr Nat.not_le Nat.not_le

/-- The address is free and lies in the span from `cursor` on. -/
structure Ahead (outer : Span F) (cursor : Option (Address F)) (occupied : List (Span F)) (a : Address F) : Prop where
  from_cursor : ∃ c ∈ cursor, c ≤ a
  le_stop : a ≤ outer.stop
  free : ∀ o ∈ occupied, o.contains a = false

variable {outer taken : Span F} {occupied : List (Span F)} {cursor a : Address F}

/-- Without a cursor nothing is ahead. -/
theorem not_ahead_none : ¬outer.Ahead none occupied a := fun ⟨⟨_, hc, _⟩, _, _⟩ => nomatch hc

/-- With a cursor, what is ahead begins there and ends with the span. -/
theorem ahead_some : outer.Ahead (some cursor) occupied a ↔
    cursor ≤ a ∧ a ≤ outer.stop ∧ ∀ o ∈ occupied, o.contains a = false :=
  ⟨fun ⟨⟨_, hc, hle⟩, hstop, hfree⟩ => ⟨Option.some.inj hc ▸ hle, hstop, hfree⟩,
    fun ⟨hle, hstop, hfree⟩ => ⟨⟨cursor, rfl, hle⟩, hstop, hfree⟩⟩

/-- Behind a span are the addresses after its last one. -/
theorem ahead_behind : outer.Ahead (outer.behind? taken) occupied a ↔
    taken.stop < a ∧ a ≤ outer.stop ∧ ∀ o ∈ occupied, o.contains a = false := by
  unfold behind?
  by_cases hmore : taken.stop < outer.stop
  · rw [dif_pos hmore]
    exact ahead_some
  · rw [dif_neg hmore]
    exact iff_of_false not_ahead_none fun h => hmore (Nat.lt_of_lt_of_le h.1 h.2.1)

/-- A span behind the cursor or after the end does not matter. -/
theorem ahead_skip (h : taken.stop < cursor ∨ outer.stop < taken.start) :
    outer.Ahead (some cursor) occupied a ↔ outer.Ahead (some cursor) (taken :: occupied) a := by
  rw [ahead_some, ahead_some, List.forall_mem_cons, contains_eq_false]
  refine and_congr_right fun hcursor => and_congr_right fun hstop => (and_iff_right (h.symm.imp ?_ ?_)).symm
  · exact fun h => Nat.lt_of_le_of_lt hstop h
  · exact fun h => Nat.lt_of_lt_of_le h hcursor

/-- What is free lies in front of the next span or behind it. -/
theorem ahead_cons (htaken : taken.start ≤ taken.stop) (hnext : ∀ o ∈ occupied, taken.stop < o.start) (hcursor : cursor ≤ taken.stop)
    (hstop : taken.start ≤ outer.stop) :
    (cursor ≤ a ∧ a < taken.start) ∨ outer.Ahead (outer.behind? taken) occupied a ↔
      outer.Ahead (some cursor) (taken :: occupied) a := by
  rw [ahead_behind, ahead_some, List.forall_mem_cons, contains_eq_false]
  constructor
  · rintro (⟨hfirst, hlt⟩ | ⟨hlt, hlast, hfree⟩)
    · refine ⟨hfirst, Nat.le_of_lt (Nat.lt_of_lt_of_le hlt hstop), .inl hlt, fun o ho => contains_eq_false.2 (.inl ?_)⟩
      exact Nat.lt_trans (Nat.lt_of_lt_of_le hlt htaken) (hnext o ho)
    · exact ⟨Nat.le_of_lt (Nat.lt_of_le_of_lt hcursor hlt), hlast, .inr hlt, hfree⟩
  · rintro ⟨hfirst, hlast, hlt | hlt, hfree⟩
    · exact .inl ⟨hfirst, hlt⟩
    · exact .inr ⟨hlt, hlast, hfree⟩

/-- The gap in front of a span is filled. -/
theorem gapBefore_fill (hwidth : outer.plen.toNat ≤ F.width) (taken : Span F) (cursor : Address F) :
    ∃ cs, outer.gapBefore taken cursor = .ok cs ∧ Fill outer.plen.toNat (fun a => cursor ≤ a ∧ a < taken.start) cs := by
  unfold gapBefore
  by_cases hgap : cursor < taken.start
  · rw [dif_pos hgap]
    have hgap' : cursor.bits < taken.start.bits := hgap
    obtain ⟨cs, hcs, hfill⟩ := fillGap_fill hwidth (show cursor ≤ Address.previous hgap from Nat.le_sub_one_of_lt hgap)
    refine ⟨cs, hcs, hfill.congr fun a => and_congr_right fun _ => ?_⟩
    exact Nat.le_sub_one_iff_lt (Nat.zero_lt_of_lt hgap')
  · rw [dif_neg hgap]
    exact ⟨[], rfl, .nil fun a ha => hgap (Nat.lt_of_le_of_lt ha.1 ha.2)⟩

/-- The gaps between spans in ascending order are filled, from an address to the end of the outer span. -/
theorem freeFrom_fill (hwidth : outer.plen.toNat ≤ F.width) (hordered : ∀ o ∈ occupied, o.start ≤ o.stop)
    (hsorted : occupied.Pairwise fun o p => o.stop < p.start) :
    ∀ cursor : Option (Address F), (∀ c ∈ cursor, c ≤ outer.stop) →
      ∃ cs, outer.freeFrom cursor occupied = .ok cs ∧ Fill outer.plen.toNat (outer.Ahead cursor occupied) cs := by
  induction occupied with
  | nil =>
    rintro (_ | cursor) hcursor
    · exact ⟨[], rfl, .nil fun _ => not_ahead_none⟩
    · obtain ⟨cs, hcs, hfill⟩ := fillGap_fill hwidth (hcursor cursor rfl)
      exact ⟨cs, hcs, hfill.congr fun a => by simp [ahead_some]⟩
  | cons taken occupied ih =>
    obtain ⟨htaken, hordered⟩ := List.forall_mem_cons.1 hordered
    obtain ⟨hnext, hsorted⟩ := List.pairwise_cons.1 hsorted
    rintro (_ | cursor) hcursor
    · exact ⟨[], rfl, .nil fun _ => not_ahead_none⟩
    rw [freeFrom]
    by_cases hskip : taken.stop < cursor ∨ outer.stop < taken.start
    · rw [if_pos hskip]
      obtain ⟨cs, hcs, hfill⟩ := ih hordered hsorted (some cursor) hcursor
      exact ⟨cs, hcs, hfill.congr fun a => ahead_skip hskip⟩
    · rw [if_neg hskip]
      obtain ⟨hreach, hin⟩ := not_or.1 hskip
      have hresume : ∀ c ∈ outer.behind? taken, c ≤ outer.stop := by
        unfold behind?
        split
        · rename_i hmore
          rintro _ ⟨⟩
          exact hmore
        · nofun
      obtain ⟨before, hbefore, hfill⟩ := gapBefore_fill hwidth taken cursor
      obtain ⟨behind, hbehind, hfill'⟩ := ih hordered hsorted (outer.behind? taken) hresume
      rw [hbefore, ok_bind, hbehind]
      -- the first address of the span lies in between
      have happend := hfill.append hfill' (m := taken.start) (fun _ ha => ha.2) fun a ha =>
        Nat.lt_of_le_of_lt htaken (ahead_behind.1 ha).1
      exact ⟨before ++ behind, rfl, happend.congr fun a => ahead_cons htaken hnext (Nat.not_lt.1 hreach) (Nat.not_lt.1 hin)⟩

/-! ## Maximal networks -/

/-- The address lies in the span, and none of the spans `occupied` holds it. -/
def Unoccupied (outer : Span F) (occupied : List (Span F)) (a : Address F) : Prop :=
  outer.contains a = true ∧ ∀ o ∈ occupied, o.contains a = false

/-- Spans that do not meet the outer one occupy none of it. -/
theorem unoccupied_filter : outer.Unoccupied (occupied.filter (·.meets outer)) a ↔ outer.Unoccupied occupied a := by
  refine and_congr_right fun ha => ⟨fun h o ho => ?_, fun h o ho => h o (List.mem_of_mem_filter ho)⟩
  cases hin : o.contains a with
  | false => rfl
  | true =>
    have hmeets : o.meets outer = true := Interval.meets_of_contains (i := o.interval) (j := outer.interval) hin ha
    rw [← hin, h o (List.mem_filter.2 ⟨ho, hmeets⟩)]

/-- A network of unoccupied addresses, written with its first address, whose parent holds an address that is not unoccupied. -/
structure MaximalFree (outer : Span F) (occupied : List (Span F)) (c : Cidr F) : Prop where
  network : c.network = c
  free : ∀ a, c.contains a = true → outer.Unoccupied occupied a
  maximal : 0 < c.plen → ∃ a, c.parent.contains a = true ∧ ¬outer.Unoccupied occupied a

/-- A network that lies in a span of the right shape has no shorter length than the span. -/
theorem Shaped.plen_le_of_subset (h : outer.Shaped) (hc : ∀ a, c.contains a = true → outer.contains a = true) :
    outer.plen.toNat ≤ c.plen := by
  have hsub : ∀ a, c.contains a = true → (⟨outer.start, outer.plen.toNat, h.plen_le⟩ : Cidr F).contains a = true := by
    intro a ha
    obtain ⟨hstart, hstop⟩ := contains_iff.1 (hc a ha)
    exact Cidr.contains_iff.2 (h.cut_eq_of_between hstart hstop).symm
  exact Cidr.plen_le_of_subset hsub

/-- The networks of a fill that start in the same network are the same. -/
theorem Fill.eq_of_contains_lo (h : Fill least free cs) (hc : c ∈ cs) (hd : d ∈ cs) (hlo : c.contains d.lo = true) : c = d := by
  by_contra hne
  obtain ⟨hstart, hstop⟩ := Cidr.contains_eq_true.1 hlo
  have hapart : cs.Pairwise fun c d => c.hi < d.lo ∨ d.hi < c.lo := h.ascending.imp .inl
  have : Std.Symm fun c d : Cidr F => c.hi < d.lo ∨ d.hi < c.lo := ⟨fun _ _ => Or.symm⟩
  rcases hapart.forall hc hd hne with hbelow | habove
  · exact Nat.not_le.2 hbelow hstop
  · exact Nat.not_le.2 habove (Nat.le_trans hstart d.lo_le_hi)

/-- The parent of a network of a fill does not only hold free addresses. -/
theorem Fill.not_parent_free (h : Fill least free cs) (hc : c ∈ cs) (hpos : 0 < c.plen) (hleast : least ≤ c.parent.plen) :
    ¬∀ a, c.parent.contains a = true → free a := by
  intro hparent
  -- the network that holds the parent is another one of the fill
  obtain ⟨d, hd, hle, hlo⟩ := h.largest c.parent hleast hparent
  have hin : d.contains c.lo = true := Cidr.contains_of_le hle c.parent.contains_lo hlo (Cidr.contains_parent c.contains_lo)
  have hplen := Cidr.parent_plen c
  have hsame : d = c := h.eq_of_contains_lo hd hc hin
  rw [hsame] at hle
  omega

/-- The networks that fill what is unoccupied in a span are the maximal ones. -/
theorem Fill.mem_iff (hshaped : outer.Shaped) (h : Fill outer.plen.toNat (outer.Unoccupied occupied) cs) :
    c ∈ cs ↔ outer.MaximalFree occupied c := by
  constructor
  · intro hc
    refine ⟨h.network c hc, fun a ha => h.free_of_mem hc ha, fun hpos => ?_⟩
    by_contra hall
    have hparent : ∀ a, c.parent.contains a = true → outer.Unoccupied occupied a := by
      intro a ha
      by_contra hnot
      exact hall ⟨a, ha, hnot⟩
    exact h.not_parent_free hc hpos (hshaped.plen_le_of_subset fun a ha => (hparent a ha).1) hparent
  · intro hc
    have hleast := hshaped.plen_le_of_subset fun a ha => (hc.free a ha).1
    obtain ⟨d, hd, hle, hlo⟩ := h.largest c hleast hc.free
    rcases Nat.eq_or_lt_of_le hle with heq | hlt
    · exact Cidr.eq_of_contains (h.network d hd) hc.network heq hlo c.contains_lo ▸ hd
    -- a network that is larger would hold the parent
    · obtain ⟨a, ha, hnot⟩ := hc.maximal (Nat.zero_lt_of_lt hlt)
      refine absurd (h.free_of_mem hd (Cidr.contains_of_le (Nat.le_sub_one_of_lt hlt) ?_ hlo ha)) hnot
      exact Cidr.contains_parent c.contains_lo

/-- Of two spans that do not meet, the one that starts first ends before the other starts. -/
theorem stop_lt_of_apart {s t : Span F} (hle : s.start ≤ t.start) (ht : t.start ≤ t.stop) (h : s.meets t = false) :
    s.stop < t.start := by
  refine Nat.not_le.1 fun (hreach : t.start ≤ s.stop) => ?_
  have hends : s.start ≤ t.stop := Nat.le_trans hle ht
  have hmeets : s.meets t = true := by simpa [meets] using And.intro hends hreach
  exact Bool.false_ne_true (h.symm.trans hmeets)

/-- The free blocks of a span of the right shape, around spans in ascending order that do not meet, fill what is unoccupied. -/
theorem exists_free_fill (hshaped : outer.Shaped) (hordered : ∀ o ∈ occupied, o.start ≤ o.stop)
    (hsorted : occupied.Pairwise fun o p => o.start ≤ p.start ∧ o.meets p = false) :
    ∃ blocks, outer.free occupied = .ok blocks ∧ Fill outer.plen.toNat (outer.Unoccupied occupied) blocks := by
  have hapart : occupied.Pairwise fun o p => o.stop < p.start :=
    hsorted.imp_of_mem fun _ hp ⟨hle, hmeets⟩ => stop_lt_of_apart hle (hordered _ hp) hmeets
  obtain ⟨blocks, hblocks, hfill⟩ := freeFrom_fill hshaped.plen_le hordered hapart (some outer.start)
    fun c hc => Option.some.inj hc ▸ hshaped.start_le
  refine ⟨blocks, ?_, hfill.congr fun a => ?_⟩
  · rw [free, checkShape_eq_ok_iff (u := ()).2 hshaped, ok_bind, hblocks]
  · simp [ahead_some, Unoccupied, contains, and_assoc]

/-- The free blocks of a span of the right shape, around spans in ascending order that do not meet, are found. They hold just the
unoccupied addresses, and they are the maximal networks of these, in ascending order. -/
theorem free_maximal (hshaped : outer.Shaped) (hordered : ∀ o ∈ occupied, o.start ≤ o.stop)
    (hsorted : occupied.Pairwise fun o p => o.start ≤ p.start ∧ o.meets p = false) :
    ∃ blocks, outer.free occupied = .ok blocks ∧ blocks.Pairwise (fun c d => c.hi < d.lo) ∧
      (∀ c ∈ blocks, c.network = c ∧ outer.plen.toNat ≤ c.plen) ∧
      (∀ a, (∃ c ∈ blocks, c.contains a = true) ↔ outer.contains a = true ∧ ∀ o ∈ occupied, o.contains a = false) ∧
      ∀ c, c ∈ blocks ↔ outer.MaximalFree occupied c := by
  obtain ⟨blocks, hblocks, hfill⟩ := exists_free_fill hshaped hordered hsorted
  refine ⟨blocks, hblocks, hfill.ascending, ?_, hfill.free_iff, ?_⟩
  · intro c hc
    exact ⟨hfill.network c hc, hfill.least_le c hc⟩
  · intro c
    exact hfill.mem_iff hshaped

/-- A span that ends with the last address and does not start on the boundary of its length: around a span in front of it, one
that sticks out of it and one in its middle, five networks are free. -/
theorem free_maximal_top :
    let outer : Span .v4 := ⟨.ofBits .v4 0xfffffff3, .ofBits .v4 0xffffffff, 28⟩
    let occupied : List (Span .v4) :=
      [⟨.ofBits .v4 0xffffffe0, .ofBits .v4 0xffffffe7, 29⟩, ⟨.ofBits .v4 0xfffffff0, .ofBits .v4 0xfffffff4, 29⟩,
        ⟨.ofBits .v4 0xfffffff9, .ofBits .v4 0xfffffffa, 30⟩]
    let blocks : List (Cidr .v4) :=
      [⟨.ofBits .v4 0xfffffff5, 32, by decide⟩, ⟨.ofBits .v4 0xfffffff6, 31, by decide⟩, ⟨.ofBits .v4 0xfffffff8, 32, by decide⟩,
        ⟨.ofBits .v4 0xfffffffb, 32, by decide⟩, ⟨.ofBits .v4 0xfffffffc, 30, by decide⟩]
    outer.Shaped ∧ (∀ o ∈ occupied, o.start ≤ o.stop) ∧
      occupied.Pairwise (fun o p => o.start ≤ p.start ∧ o.meets p = false) ∧
      outer.free occupied = .ok blocks ∧ ∀ c, c ∈ blocks ↔ outer.MaximalFree occupied c := by
  intro outer occupied blocks
  have hshaped : outer.Shaped := checkShape_eq_ok_iff (u := ()).1 (by decide +kernel)
  have hordered : ∀ o ∈ occupied, o.start ≤ o.stop := by decide +kernel
  have hsorted : occupied.Pairwise fun o p => o.start ≤ p.start ∧ o.meets p = false := by decide +kernel
  obtain ⟨found, hfound, -, -, -, hmaximal⟩ := free_maximal hshaped hordered hsorted
  have hblocks : outer.free occupied = .ok blocks := by decide +kernel
  cases hfound.symm.trans hblocks
  exact ⟨hshaped, hordered, hsorted, hblocks, hmaximal⟩

end AddressSpace.Span
