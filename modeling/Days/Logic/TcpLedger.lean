/-
  Days.Logic.TcpLedger — the retransmission ledger tiles what is in flight.

  Per flow the ledger maps a sequence number to the segment that starts there.
  Sending appends a segment or repeats one, an acknowledgment cuts the segments
  at its position; neither fails on segments that tile the unacknowledged bytes.
-/
import Days.Logic.Ledger
import Days.Exec.Scalar
import Days.Lib.Tiling

namespace Days

open Function List Option Std.ExtTreeMap

open Tiling (Tiles Clear below below_of_lt below_of_le)

variable {ledger : TcpSegmentLedger} {segments : Std.ExtTreeMap Nat PacketDescriptor}
  {acknowledgment : Nat}

namespace TcpSegmentLedger

/-! ## §1. The blocks of a flow. -/

/-- The size of the segment of a flow that starts at a sequence number. -/
def block (ledger : TcpSegmentLedger) (flow : FlowId) (sequence : Nat) : Option Nat :=
  (ledger.segment flow sequence).map (·.sizeBytes)

/-- The blocks of one flow's segments. -/
def blockOf (segments : Std.ExtTreeMap Nat PacketDescriptor) (sequence : Nat) : Option Nat :=
  (segments[sequence]?).map (·.sizeBytes)

theorem block_insert (ledger : TcpSegmentLedger) (flow other : FlowId)
    (segments : Std.ExtTreeMap Nat PacketDescriptor) (sequence : Nat) :
    block (ledger.insert flow segments) other sequence =
      if flow = other then blockOf segments sequence else ledger.block other sequence := by
  unfold block
  rw [segment_insert]
  by_cases h : flow = other
  · rw [if_pos h, if_pos h, blockOf]
  · rw [if_neg h, if_neg h]

theorem block_erase (ledger : TcpSegmentLedger) (flow other : FlowId) (sequence : Nat) :
    block (ledger.erase flow) other sequence =
      if flow = other then none else ledger.block other sequence := by
  unfold block
  rw [segment_erase]
  by_cases h : flow = other
  · rw [if_pos h, if_pos h, map_none]
  · rw [if_neg h, if_neg h]

theorem blockOf_insert (segments : Std.ExtTreeMap Nat PacketDescriptor) (sequence : Nat)
    (p : PacketDescriptor) :
    blockOf (segments.insert sequence p) =
      update (blockOf segments) sequence (some p.sizeBytes) := by
  funext s
  unfold blockOf
  rw [Std.ExtTreeMap.getElem?_insert]
  by_cases h : sequence = s
  · subst h
    simp
  · rw [if_neg (by simpa using h), update_of_ne (Ne.symm h)]

theorem block_getD (ledger : TcpSegmentLedger) (flow : FlowId) :
    blockOf ((ledger[flow]?).getD ∅) = ledger.block flow := by
  funext s
  unfold blockOf block
  rw [segment_getD]

/-! ## §2. Sending. -/

/-- Remembering a segment that is new, or a copy of the one it repeats. -/
theorem seed_block (ledger : TcpSegmentLedger) {p : PacketDescriptor} {header : TcpDataHeader}
    (hp : p.kind = .tcpData header)
    (hfits : ∀ n, ledger.block p.flow header.sequence = some n → n = p.sizeBytes) :
    ∃ ledger', ledger.seed p = .ok ledger' ∧
      ledger'.block p.flow =
        update (ledger.block p.flow) header.sequence (some p.sizeBytes) ∧
      ∀ other, other ≠ p.flow → ledger'.block other = ledger.block other := by
  refine ⟨ledger.insert p.flow (((ledger[p.flow]?).getD ∅).insert header.sequence p), ?_, ?_, ?_⟩
  · unfold seed
    rw [hp]
    dsimp only
    split
    · next original horiginal =>
      have hblock : ledger.block p.flow header.sequence = some original.sizeBytes := by
        unfold block
        rw [← segment_getD, horiginal, map_some]
      rw [if_neg (by rw [hfits _ hblock]; simp)]
    · rfl
  · funext s
    rw [block_insert, if_pos rfl, blockOf_insert, block_getD]
  · intro other hne
    funext s
    rw [block_insert, if_neg (Ne.symm hne)]

/-- Packets sent in one go: each repeats a segment or continues the stream. -/
inductive Sends (flow : FlowId) : (Nat → Option Nat) → Nat → List PacketDescriptor →
    (Nat → Option Nat) → Nat → Prop
  | nil {block : Nat → Option Nat} {hi : Nat} : Sends flow block hi [] block hi
  | again {block block' : Nat → Option Nat} {hi hi' : Nat} {p : PacketDescriptor}
    {rest : List PacketDescriptor} {header : TcpDataHeader} :
    p.flow = flow → p.kind = .tcpData header → header.sequence < hi →
    block header.sequence = some p.sizeBytes → Sends flow block hi rest block' hi' →
    Sends flow block hi (p :: rest) block' hi'
  | more {block block' : Nat → Option Nat} {hi hi' : Nat} {p : PacketDescriptor}
    {rest : List PacketDescriptor} {header : TcpDataHeader} :
    p.flow = flow → p.kind = .tcpData header → header.sequence = hi → 0 < p.sizeBytes →
    Sends flow (Function.update block hi (some p.sizeBytes)) (hi + p.sizeBytes) rest block' hi' →
    Sends flow block hi (p :: rest) block' hi'

namespace Sends

variable {flow : FlowId} {block block' : Nat → Option Nat} {lo hi hi' : Nat}
  {packets more : List PacketDescriptor}

section

variable (h : Sends flow block hi packets block' hi')

include h

theorem tiles (ht : Tiles block lo hi) : Tiles block' lo hi' := by
  induction h with
  | nil => exact ht
  | again _ _ _ _ _ ih => exact ih ht
  | more _ _ _ hpos _ ih => exact ih (ht.snoc hpos)

theorem hi_le : hi ≤ hi' := by
  induction h with
  | nil => exact Nat.le_refl _
  | again _ _ _ _ _ ih => exact ih
  | more _ _ _ _ _ ih => exact Nat.le_trans (Nat.le_add_right _ _) ih

/-- What was sent lies below the new end of the stream. -/
theorem ends_le (ht : Tiles block lo hi) :
    ∀ p ∈ packets, p.flow = flow ∧ ∃ header, p.kind = .tcpData header ∧
      header.sequence + p.sizeBytes ≤ hi' := by
  induction h with
  | nil => simp
  | again hflow hkind _ hblock hrest ih =>
    intro q hq
    rcases mem_cons.1 hq with rfl | hq
    · exact ⟨hflow, _, hkind, Nat.le_trans (ht.inside _ _ hblock).2.2 hrest.hi_le⟩
    · exact ih ht q hq
  | more hflow hkind hseq hpos hrest ih =>
    intro q hq
    rcases mem_cons.1 hq with rfl | hq
    · exact ⟨hflow, _, hkind, by rw [hseq]; exact hrest.hi_le⟩
    · exact ih (ht.snoc hpos) q hq

theorem starts_lt :
    ∀ p ∈ packets, p.flow = flow ∧ ∃ header, p.kind = .tcpData header ∧ header.sequence < hi' := by
  induction h with
  | nil => simp
  | again hflow hkind hlt _ hrest ih =>
    intro q hq
    rcases mem_cons.1 hq with rfl | hq
    · exact ⟨hflow, _, hkind, Nat.lt_of_lt_of_le hlt hrest.hi_le⟩
    · exact ih q hq
  | more hflow hkind hseq hpos hrest ih =>
    intro q hq
    rcases mem_cons.1 hq with rfl | hq
    · have := hrest.hi_le
      exact ⟨hflow, _, hkind, by omega⟩
    · exact ih q hq

/-- Packets that do not extend the stream only repeat segments. -/
theorem still (heq : hi' = hi) :
    block' = block ∧ ∀ p ∈ packets, p.flow = flow ∧ ∃ header, p.kind = .tcpData header ∧
      header.sequence < hi ∧ block header.sequence = some p.sizeBytes := by
  induction h with
  | nil => exact ⟨rfl, by simp⟩
  | again hflow hkind hlt hblock _ ih =>
    obtain ⟨hsame, hrest⟩ := ih heq
    refine ⟨hsame, fun q hq => ?_⟩
    rcases mem_cons.1 hq with rfl | hq
    · exact ⟨hflow, _, hkind, hlt, hblock⟩
    · exact hrest q hq
  | more _ _ _ hpos hrest _ =>
    have := hrest.hi_le
    omega

theorem append {block'' : Nat → Option Nat} {hi'' : Nat} (h' : Sends flow block' hi' more block'' hi'') :
    Sends flow block hi (packets ++ more) block'' hi'' := by
  induction h with
  | nil => exact h'
  | again hflow hkind hlt hblock _ ih => exact .again hflow hkind hlt hblock (ih h')
  | more hflow hkind hseq hpos _ ih => exact .more hflow hkind hseq hpos (ih h')

end

end Sends

/-- Seeding copies of segments leaves the blocks as they are. -/
theorem seedAll_resends {flow : FlowId} {packets : List PacketDescriptor}
    (h : ∀ p ∈ packets, p.flow = flow ∧ ∃ header, p.kind = .tcpData header ∧
      ledger.block flow header.sequence = some p.sizeBytes) :
    ∃ ledger', ledger.seedAll packets = .ok ledger' ∧
      ∀ other, ledger'.block other = ledger.block other := by
  induction packets generalizing ledger with
  | nil => exact ⟨ledger, rfl, fun _ => rfl⟩
  | cons p rest ih =>
    obtain ⟨rfl, header, hkind, hsize⟩ := h p mem_cons_self
    obtain ⟨ledger₁, hseed, hblock, hother⟩ := seed_block ledger hkind (by rw [hsize]; simp)
    have hsame : ∀ other, ledger₁.block other = ledger.block other := by
      intro other
      by_cases heq : other = p.flow
      · subst heq
        rw [hblock, ← hsize, update_eq_self]
      · exact hother other heq
    obtain ⟨ledger', hall, hrest⟩ := @ih ledger₁ fun q hq => by
      rw [hsame]
      exact h q (mem_cons_of_mem _ hq)
    refine ⟨ledger', ?_, fun other => (hrest other).trans (hsame other)⟩
    rw [seedAll, hseed]
    exact hall

/-- Seeding what was sent never finds an inconsistent segment. -/
theorem seedAll_sends {flow : FlowId} {packets : List PacketDescriptor} {block' : Nat → Option Nat}
    {lo hi hi' : Nat} (h : Sends flow (ledger.block flow) hi packets block' hi')
    (ht : Tiles (ledger.block flow) lo hi) :
    ∃ ledger', ledger.seedAll packets = .ok ledger' ∧ ledger'.block flow = block' ∧
      ∀ other, other ≠ flow → ledger'.block other = ledger.block other := by
  generalize hblock : ledger.block flow = block at h ht
  induction h generalizing ledger with
  | nil => exact ⟨ledger, rfl, hblock, fun _ _ => rfl⟩
  | again hflow hkind _ hsize hrest ih =>
    subst hflow
    obtain ⟨ledger₁, hseed, hblock₁, hother₁⟩ := seed_block ledger hkind
      (by rw [hblock, hsize]; simp)
    -- The copy replaces the segment by one of the same size.
    have hsame : ledger₁.block _ = _ := hblock₁.trans (by
      rw [hblock, ← hsize, update_eq_self])
    obtain ⟨ledger', hall, hblock', hother⟩ := ih hsame ht
    refine ⟨ledger', ?_, hblock', fun other hne => (hother other hne).trans (hother₁ other hne)⟩
    rw [seedAll, hseed]
    exact hall
  | more hflow hkind hseq hpos hrest ih =>
    subst hflow hseq
    obtain ⟨ledger₁, hseed, hblock₁, hother₁⟩ := seed_block ledger hkind
      (by rw [hblock, ht.clear _ (Nat.le_refl _)]; simp)
    obtain ⟨ledger', hall, hblock', hother⟩ := ih (hblock₁.trans (by rw [hblock])) (ht.snoc hpos)
    refine ⟨ledger', ?_, hblock', fun other hne => (hother other hne).trans (hother₁ other hne)⟩
    rw [seedAll, hseed]
    exact hall

/-! ## §3. Acknowledging. -/

/-- The last entry of a map has its greatest key. -/
theorem getLast?_greatest {last : Nat} {p : PacketDescriptor}
    (h : segments.toList.getLast? = some (last, p)) {sequence : Nat} {q : PacketDescriptor}
    (hq : segments[sequence]? = some q) : sequence ≤ last := by
  obtain ⟨init, hinit⟩ := getLast?_eq_some_iff.1 h
  have hsorted : segments.toList.Pairwise fun a b => compare a.1 b.1 = .lt :=
    ordered_keys_toList
  have hmem := mem_toList_iff_getElem?_eq_some.2 hq
  rw [hinit] at hsorted hmem
  rcases mem_append.1 hmem with hmem | hmem
  · have hlt := (pairwise_append.1 hsorted).2.2 _ hmem (last, p) (by simp)
    exact Nat.le_of_lt (Nat.compare_eq_lt.1 hlt)
  · rw [mem_singleton] at hmem
    cases hmem
    exact Nat.le_refl _

theorem filter_blockOf (sequence : Nat) :
    blockOf (segments.filter fun sequence _ => decide (acknowledgment ≤ sequence)) sequence =
      if sequence < acknowledgment then none else blockOf segments sequence := by
  unfold blockOf
  rw [getElem?_filter']
  by_cases h : sequence < acknowledgment
  · rw [if_pos h]
    have hno : decide (acknowledgment ≤ sequence) = false := by simpa using h
    cases segments[sequence]? <;> simp [hno]
  · rw [if_neg h]
    have hyes : decide (acknowledgment ≤ sequence) = true := by simpa using h
    cases segments[sequence]? <;> simp [hyes]

/-- Tiling segments are cut at the acknowledgment, and the cut fits.  What starts at or
beyond the end of the tiling stays. -/
theorem remaining_tiles (flow : FlowId) {lo hi : Nat}
    (h : Tiles (below hi (blockOf segments)) lo hi) (hlo : lo ≤ acknowledgment)
    (hhi : acknowledgment ≤ hi) :
    ∃ kept, remaining flow acknowledgment segments = .ok kept ∧
      Tiles (below hi (blockOf kept)) acknowledgment hi ∧
      ∀ s, hi ≤ s → blockOf kept s = blockOf segments s := by
  unfold remaining
  dsimp only
  generalize hunack : segments.filter (fun sequence _ => decide (acknowledgment ≤ sequence)) = unack
  have hblock : ∀ s, blockOf unack s =
      if s < acknowledgment then none else blockOf segments s := by
    intro s
    rw [← hunack, filter_blockOf]
  have hbeyond : ∀ s, hi ≤ s → blockOf unack s = blockOf segments s := by
    intro s hs
    rw [hblock, if_neg (by omega)]
  have hbelow : ∀ s, below hi (blockOf unack) s =
      if s < acknowledgment then none else below hi (blockOf segments) s := by
    intro s
    unfold below
    rw [hblock]
    split <;> split <;> rfl
  -- Keeping the unacknowledged segments is the cut when none straddles it.
  have hkeep : (∀ s m, below hi (blockOf segments) s = some m → s < acknowledgment →
        s + m ≤ acknowledgment) →
      Tiles (below hi (blockOf unack)) acknowledgment hi := by
    intro hnone
    refine h.cut hlo hhi (fun s hs => by rw [hbelow, if_pos hs]) (fun n => ?_)
      (fun s hs => by rw [hbelow, if_neg (by omega)])
    rw [hbelow, if_neg (Nat.lt_irrefl _)]
    constructor
    · intro hn
      exact ⟨(h.inside _ _ hn).2.1, acknowledgment, n, hn, Nat.le_refl _, rfl⟩
    · rintro ⟨hn, s, m, hs, hle, hend⟩
      rcases Nat.lt_or_eq_of_le hle with hlt | rfl
      · have := hnone s m hs hlt
        omega
      · obtain rfl : m = n := by omega
        exact hs
  -- The code looks for a straddling segment among those that start below the cut.
  have hentry : ∀ s m, below hi (blockOf segments) s = some m → s < acknowledgment →
      ∃ q, (segments.filter fun sequence _ => decide (sequence < acknowledgment))[s]? = some q := by
    intro s m hs hlt
    rw [below_of_lt (by omega)] at hs
    obtain ⟨q, hq, -⟩ := map_eq_some_iff.1 hs
    refine ⟨q, ?_⟩
    rw [getElem?_filter', hq]
    simp [hlt]
  cases hlast : (segments.filter fun sequence _ =>
      decide (sequence < acknowledgment)).toList.getLast? with
  | none =>
    refine ⟨unack, rfl, hkeep fun s m hs hlt => ?_, hbeyond⟩
    obtain ⟨q, hq⟩ := hentry s m hs hlt
    have hmem := mem_toList_iff_getElem?_eq_some.2 hq
    rw [getLast?_eq_none_iff.1 hlast] at hmem
    cases hmem
  | some last =>
    obtain ⟨sent, p⟩ := last
    have hsent : sent < acknowledgment ∧ segments[sent]? = some p := by
      have hmem := mem_of_getLast? hlast
      rw [mem_toList_iff_getElem?_eq_some, getElem?_filter'] at hmem
      obtain ⟨hp, hlt⟩ := filter_eq_some_iff.1 hmem
      exact ⟨by simpa using hlt, hp⟩
    have hsize : below hi (blockOf segments) sent = some p.sizeBytes := by
      rw [below_of_lt (by omega)]
      unfold blockOf
      rw [hsent.2, map_some]
    have hgreatest : ∀ s m, below hi (blockOf segments) s = some m → s < acknowledgment →
        s ≤ sent := by
      intro s m hs hlt
      obtain ⟨q, hq⟩ := hentry s m hs hlt
      exact getLast?_greatest hlast hq
    dsimp only
    by_cases hstraddle : acknowledgment - sent < p.sizeBytes
    · -- The last acknowledged segment reaches over the cut, so none starts at it.
      have hinside := h.inside _ _ hsize
      have hlt : acknowledgment < hi := by omega
      have hat : below hi (blockOf segments) acknowledgment = none := by
        cases hn : below hi (blockOf segments) acknowledgment with
        | none => rfl
        | some n =>
          have := h.apart _ _ _ _ hsize hn hsent.1
          omega
      have hfree : unack[acknowledgment]? = none := by
        have := hbelow acknowledgment
        rw [if_neg (Nat.lt_irrefl _), hat, below_of_lt hlt] at this
        exact map_eq_none_iff.1 this
      rw [if_pos hstraddle, hfree]
      refine ⟨_, rfl, ?_, ?_⟩
      · rw [blockOf_insert]
        refine h.cut hlo hhi (fun s hs => ?_) (fun n => ?_) (fun s hs => ?_)
        · rw [below_of_lt (by omega), update_of_ne (Nat.ne_of_lt hs), hblock, if_pos hs]
        · rw [below_of_lt hlt, update_self]
          show some (p.sizeBytes - (acknowledgment - sent)) = some n ↔ _
          constructor
          · rintro ⟨rfl⟩
            have := hsent.1
            exact ⟨by omega, sent, p.sizeBytes, hsize, by omega, by omega⟩
          · rintro ⟨hn, s, m, hs, hle, hend⟩
            have hsame := h.unique hs hsize hle (by omega) (Nat.le_of_lt hsent.1) (by omega)
            subst hsame
            rw [hsize] at hs
            cases hs
            congr 1
            omega
        · have := hbelow s
          rw [if_neg (by omega)] at this
          rw [← this]
          unfold below
          rw [update_of_ne (Nat.ne_of_gt hs)]
      · intro s hs
        rw [blockOf_insert, update_of_ne (by omega), hbeyond s hs]
    · rw [if_neg hstraddle]
      refine ⟨unack, rfl, hkeep fun s m hs hlt => ?_, hbeyond⟩
      have hle := hgreatest s m hs hlt
      rcases Nat.lt_or_eq_of_le hle with hss | rfl
      · have := h.apart _ _ _ _ hs hsize hss
        omega
      · rw [hsize] at hs
        cases hs
        omega

/-- An acknowledgment fails as `remaining` fails, and otherwise leaves the flow what it keeps. -/
theorem acknowledge_remaining (ledger : TcpSegmentLedger) (flow : FlowId) (acknowledgment : Nat) :
    match remaining flow acknowledgment ((ledger[flow]?).getD ∅) with
    | .error e => ledger.acknowledge flow acknowledgment = .error e
    | .ok kept => ∃ ledger', ledger.acknowledge flow acknowledgment = .ok ledger' ∧
        ledger'.block flow = blockOf kept ∧
        ∀ other, other ≠ flow → ledger'.block other = ledger.block other := by
  unfold acknowledge
  cases hsegments : ledger[flow]? with
  | none =>
    have hblock := block_getD ledger flow
    rw [hsegments] at hblock
    exact ⟨ledger, rfl, hblock.symm, fun _ _ => rfl⟩
  | some segments =>
    rw [getD_some]
    dsimp only
    cases hkept : remaining flow acknowledgment segments with
    | error e => rfl
    | ok kept =>
      dsimp only [bind, Except.bind]
      split
      · -- A flow with nothing left is taken out of the map.
        next hempty =>
        refine ⟨ledger.erase flow, rfl, ?_, fun other hne => ?_⟩
        · funext s
          rw [block_erase, if_pos rfl, Std.ExtTreeMap.isEmpty_iff.1 hempty]
          simp [blockOf]
        · funext s
          rw [block_erase, if_neg (Ne.symm hne)]
      · refine ⟨ledger.insert flow kept, rfl, ?_, fun other hne => ?_⟩
        · funext s
          rw [block_insert, if_pos rfl]
        · funext s
          rw [block_insert, if_neg (Ne.symm hne)]

/-- Acknowledging up to a position of the tiled interval succeeds and leaves the rest
tiled; what lies beyond and other flows are untouched. -/
theorem acknowledge_tiles {flow : FlowId} {lo hi : Nat}
    (h : Tiles (below hi (ledger.block flow)) lo hi) (hlo : lo ≤ acknowledgment)
    (hhi : acknowledgment ≤ hi) :
    ∃ ledger', ledger.acknowledge flow acknowledgment = .ok ledger' ∧
      Tiles (below hi (ledger'.block flow)) acknowledgment hi ∧
      (∀ s, hi ≤ s → ledger'.block flow s = ledger.block flow s) ∧
      ∀ other, other ≠ flow → ledger'.block other = ledger.block other := by
  rw [← block_getD] at h
  obtain ⟨kept, hkept, htiles, hbeyond⟩ := remaining_tiles flow h hlo hhi
  have hack := ledger.acknowledge_remaining flow acknowledgment
  rw [hkept] at hack
  obtain ⟨ledger', hok, hblock, hother⟩ := hack
  rw [block_getD] at hbeyond
  refine ⟨ledger', hok, ?_, ?_, hother⟩
  · rw [hblock]
    exact htiles
  · rw [hblock]
    exact hbeyond

end TcpSegmentLedger

end Days
