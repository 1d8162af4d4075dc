/-
  Days.Logic.PacketStore — the packet store refines a finite map.

  The slab keeps its slots and its free list consistent with the index, which
  never fills up.  Under these invariants every operation answers as the map from
  payload identities to packets does, until a new packet finds all slot numbers
  taken.
-/
import Days.Logic.PacketIndex
import Days.Lib.Keyed

namespace Days

open List Option Std.ExtTreeMap

variable {i t : Nat}

/-! ## §1. The slab. -/

section Slots

variable {V : Type}

/-- A slot is set: one member of the list is exchanged. -/
theorem exists_perm_set {α : Type} {l : List α} {a : α} (h : l[i]? = some a) :
    ∃ rest, l.Perm (a :: rest) ∧ ∀ b, (l.set i b).Perm (b :: rest) := by
  obtain ⟨hi, rfl⟩ := List.getElem?_eq_some_iff.1 h
  exact ⟨l.eraseIdx i, (getElem_cons_eraseIdx_perm hi).symm, set_perm_cons_eraseIdx hi⟩

/-- The free list: vacant slots, each with the next. -/
def FreeChain (slots : List (Slot V)) : Nat → List Nat → Prop
  | free, [] => free = noSlot
  | free, t :: rest => free = t ∧ ∃ next, slots[t]? = some (.vacant next) ∧ FreeChain slots next rest

namespace FreeChain

variable {slots : List (Slot V)}

theorem vacant {free : Nat} {l : List Nat} (h : FreeChain slots free l) (ht : t ∈ l) :
    ∃ next, slots[t]? = some (.vacant next) := by
  induction l generalizing free with
  | nil => cases ht
  | cons u rest ih =>
    obtain ⟨-, next, hat, hrest⟩ := h
    rcases mem_cons.1 ht with rfl | ht
    · exact ⟨next, hat⟩
    · exact ih hrest ht

/-- Slots off the free list may change. -/
theorem congr {free : Nat} {l : List Nat} {slots' : List (Slot V)} (h : FreeChain slots free l)
    (hsame : ∀ t ∈ l, slots'[t]? = slots[t]?) : FreeChain slots' free l := by
  induction l generalizing free with
  | nil => exact h
  | cons u rest ih =>
    obtain ⟨rfl, next, hat, hrest⟩ := h
    refine ⟨rfl, next, ?_, ih hrest fun t ht => hsame t (mem_cons_of_mem _ ht)⟩
    rw [hsame _ mem_cons_self, hat]

end FreeChain

end Slots

namespace Slab

variable {V : Type}

/-- The packets in the slots. -/
def packets (s : Slab V) : List V := s.slots.filterMap Slot.full?

/-- A packet lies in a slot. -/
def FullAt (s : Slab V) (t : Nat) (v : V) : Prop := s.slots[t]? = some (Slot.full v)

theorem mem_packets {s : Slab V} {v : V} : v ∈ s.packets ↔ ∃ t, s.FullAt t v := by
  unfold packets FullAt
  rw [mem_filterMap]
  constructor
  · rintro ⟨slot, hmem, hfull⟩
    obtain ⟨t, ht⟩ := mem_iff_getElem?.1 hmem
    cases slot with
    | full value =>
      cases hfull
      exact ⟨t, ht⟩
    | vacant next => cases hfull
  · rintro ⟨t, ht⟩
    exact ⟨_, mem_of_getElem? ht, rfl⟩

/-- The slots and the free list account for each other. -/
structure SlotsOk (s : Slab V) : Prop where
  free : ∃ l, FreeChain s.slots s.free l ∧ l.Nodup ∧ s.packets.length + l.length = s.slots.length
  bound : s.slots.length ≤ emptySlot

/-- A packet in a slot is exchanged. -/
theorem SlotsOk.overwrite {s : Slab V} (h : s.SlotsOk) (s' : Slab V) {v : V} (hv : s.FullAt t v)
    (w : V) (hslots : s'.slots = s.slots.set t (.full w)) (hfree : s'.free = s.free) :
    s'.SlotsOk ∧ (∃ rest, s.packets.Perm (v :: rest) ∧ s'.packets.Perm (w :: rest)) ∧
      ∀ u x, s'.FullAt u x ↔ if t = u then x = w else s.FullAt u x := by
  obtain ⟨rest, hold, hnew⟩ := exists_perm_set hv
  have hpackets : s.packets.Perm (v :: rest.filterMap Slot.full?) := hold.filterMap _
  have hpackets' : s'.packets.Perm (w :: rest.filterMap Slot.full?) := by
    rw [packets, hslots]
    exact (hnew (.full w)).filterMap _
  have hat (u : Nat) : s'.slots[u]? = if t = u then some (.full w) else s.slots[u]? := by
    rw [hslots, getElem?_set, if_pos (List.getElem?_eq_some_iff.1 hv).1]
  refine ⟨⟨?_, by simpa [hslots] using h.bound⟩, ⟨_, hpackets, hpackets'⟩, fun u x => ?_⟩
  · obtain ⟨l, hchain, hnodup, hcount⟩ := h.free
    refine ⟨l, ?_, hnodup, ?_⟩
    · rw [hfree]
      refine hchain.congr fun u hu => ?_
      rw [hat, if_neg]
      rintro rfl
      obtain ⟨next, hvacant⟩ := hchain.vacant hu
      cases hv.symm.trans hvacant
    · rw [hpackets'.length_eq, hslots, length_set, ← hcount, hpackets.length_eq]
      rfl
  · rw [FullAt, hat]
    split
    · rw [some.injEq, Slot.full.injEq, eq_comm]
    · rfl

/-- A packet leaves its slot, which becomes the first free one. -/
theorem SlotsOk.vacate {s : Slab V} (h : s.SlotsOk) (s' : Slab V) {v : V} (hv : s.FullAt t v)
    (hslots : s'.slots = s.slots.set t (.vacant s.free)) (hfree : s'.free = t) :
    s'.SlotsOk ∧ s.packets.Perm (v :: s'.packets) ∧
      ∀ u x, s'.FullAt u x ↔ t ≠ u ∧ s.FullAt u x := by
  obtain ⟨rest, hold, hnew⟩ := exists_perm_set hv
  have hpackets : s.packets.Perm (v :: rest.filterMap Slot.full?) := hold.filterMap _
  have hpackets' : s'.packets.Perm (rest.filterMap Slot.full?) := by
    rw [packets, hslots]
    exact (hnew (.vacant s.free)).filterMap _
  have hat (u : Nat) : s'.slots[u]? = if t = u then some (.vacant s.free) else s.slots[u]? := by
    rw [hslots, getElem?_set, if_pos (List.getElem?_eq_some_iff.1 hv).1]
  refine ⟨⟨?_, by simpa [hslots] using h.bound⟩, hpackets.trans (hpackets'.symm.cons v),
    fun u x => ?_⟩
  · obtain ⟨l, hchain, hnodup, hcount⟩ := h.free
    have hnot : t ∉ l := by
      intro hmem
      obtain ⟨next, hvacant⟩ := hchain.vacant hmem
      cases hv.symm.trans hvacant
    refine ⟨t :: l, ⟨hfree, s.free, by rw [hat, if_pos rfl], hchain.congr fun u hu => ?_⟩,
      nodup_cons.2 ⟨hnot, hnodup⟩, ?_⟩
    · rw [hat, if_neg]
      rintro rfl
      exact hnot hu
    · have hlen := hpackets.length_eq
      rw [length_cons] at hlen
      rw [hpackets'.length_eq, hslots, length_set, length_cons, ← hcount]
      omega
  · rw [FullAt, hat]
    split
    · next heq => simp [heq]
    · next hne => simp [hne, FullAt]

/-- A new packet finds a slot, unless all slot numbers are taken. -/
theorem SlotsOk.takeSlot {s : Slab V} (h : s.SlotsOk) (value : V) :
    (s.packets.length = emptySlot ∧ s.takeSlot value = none) ∨
      ∃ t slots free, s.takeSlot value = some (t, { s with slots, free }) ∧ t ≠ emptySlot ∧
        ∀ s' : Slab V, s'.slots = slots → s'.free = free →
          s'.SlotsOk ∧ s'.packets.Perm (value :: s.packets) ∧ (∀ x, ¬ s.FullAt t x) ∧
          ∀ u x, s'.FullAt u x ↔ if t = u then x = value else s.FullAt u x := by
  obtain ⟨l, hchain, hnodup, hcount⟩ := h.free
  have hbound := h.bound
  cases l with
  | nil =>
    -- Nothing is free: the packet takes a fresh slot at the end.
    have hfree : s.free = noSlot := hchain
    rw [length_nil, Nat.add_zero] at hcount
    by_cases hfull : s.slots.length < emptySlot
    · refine .inr ⟨s.slots.length, s.slots ++ [.full value], s.free, ?_, hfull.ne, ?_⟩
      · rw [Slab.takeSlot, if_pos hfree, if_pos hfull]
      · intro s' hslots hfree'
        have hat (u : Nat) : s'.slots[u]? =
            if s.slots.length = u then some (.full value) else s.slots[u]? := by
          rw [hslots]
          rcases lt_trichotomy u s.slots.length with hlt | rfl | hgt
          · rw [getElem?_append_left hlt, if_neg hlt.ne']
          · simp
          · rw [if_neg hgt.ne, getElem?_append_right hgt.le, getElem?_eq_none hgt.le]
            exact getElem?_eq_none (by simp only [length_singleton]; omega)
        have hpackets : s'.packets = s.packets ++ [value] := by
          rw [packets, hslots, filterMap_append]
          rfl
        refine ⟨⟨⟨[], by rw [hfree']; exact hfree, nodup_nil, ?_⟩, ?_⟩, ?_, ?_, fun u x => ?_⟩
        · simp [hpackets, hslots, hcount]
        · rw [hslots, length_append, length_singleton]
          omega
        · rw [hpackets]
          exact perm_append_comm
        · intro x hx
          rw [FullAt, getElem?_eq_none le_rfl] at hx
          cases hx
        · rw [FullAt, hat]
          split
          · rw [some.injEq, Slot.full.injEq, eq_comm]
          · rfl
    · refine .inl ⟨by omega, ?_⟩
      rw [Slab.takeSlot, if_pos hfree, if_neg hfull]
  | cons t l =>
    -- The first free slot is taken.
    obtain ⟨hfree, next, hvacant, hrest⟩ := hchain
    have hlt : t < s.slots.length := (List.getElem?_eq_some_iff.1 hvacant).1
    rw [nodup_cons] at hnodup
    have hne : s.free ≠ noSlot := by
      have hempty : emptySlot = noSlot := rfl
      omega
    refine .inr ⟨t, s.slots.set t (.full value), next, ?_, by omega, ?_⟩
    · rw [Slab.takeSlot, if_neg hne, hfree]
      simp only [hvacant]
    · intro s' hslots hfree'
      obtain ⟨rest, hold, hnew⟩ := exists_perm_set hvacant
      have hpackets : s.packets.Perm (rest.filterMap Slot.full?) := hold.filterMap _
      have hpackets' : s'.packets.Perm (value :: rest.filterMap Slot.full?) := by
        rw [packets, hslots]
        exact (hnew (.full value)).filterMap _
      have hperm := hpackets'.trans (hpackets.symm.cons value)
      have hat (u : Nat) : s'.slots[u]? = if t = u then some (.full value) else s.slots[u]? := by
        rw [hslots, getElem?_set, if_pos hlt]
      refine ⟨⟨⟨l, ?_, hnodup.2, ?_⟩, by simpa [hslots] using hbound⟩, hperm, ?_, fun u x => ?_⟩
      · rw [hfree']
        refine hrest.congr fun u hu => ?_
        rw [hat, if_neg]
        rintro rfl
        exact hnodup.1 hu
      · rw [length_cons] at hcount
        rw [hperm.length_eq, hslots, length_set, length_cons]
        omega
      · intro x hx
        cases hx.symm.trans hvacant
      · rw [FullAt, hat]
        split
        · rw [some.injEq, Slot.full.injEq, eq_comm]
        · rfl

/-! ## §2. The slab behind its index. -/

variable [Resident V]

structure Ok (s : Slab V) : Prop where
  index : IndexOk s.buckets s.shift
  slots : s.SlotsOk
  indexed : ∀ p t, Indexed s.buckets p t ↔ ∃ v, s.FullAt t v ∧ payload v = p
  occupied : occupied s.buckets = s.packets.length
  len : s.len = s.packets.length
  load : s.len * 8 ≤ s.buckets.length * 7

namespace Ok

variable {s : Slab V}

section

variable (h : s.Ok)

include h

/-- The index always has an empty bucket. -/
theorem room : Days.occupied s.buckets < s.buckets.length := by
  have hpos := length_pos_of_size h.index.size
  have hload := h.load
  have hlen := h.len
  rw [h.occupied]
  omega

theorem slot_unique {u : Nat} {v w : V} (hv : s.FullAt t v) (hw : s.FullAt u w)
    (hkey : payload v = payload w) : t = u := by
  obtain ⟨i, hi, hat⟩ := (h.indexed _ t).2 ⟨v, hv, rfl⟩
  obtain ⟨j, hj, hat'⟩ := (h.indexed _ u).2 ⟨w, hw, rfl⟩
  obtain rfl := h.index.distinct i hi j hj _ _ hat hat' hkey
  exact congrArg Prod.snd (some.inj (hat.symm.trans hat'))

/-- A lookup ends, with the packet or without one. -/
theorem find (p : Nat) :
    (s.find p = some none ∧ ∀ v ∈ s.packets, payload v ≠ p) ∨
      ∃ i t v, s.find p = some (some i) ∧ i < s.buckets.length ∧ cells s.buckets i = some (p, t) ∧
        s.packetAt i = some (t, v) ∧ s.FullAt t v ∧ payload v = p := by
  obtain ⟨index, hlt, hprobe, hcases⟩ := h.index.find h.room p
  have hfind : s.find p = some (if (bucketAt s.buckets index).slot = emptySlot then none
      else some index) := by
    rw [Slab.find, hprobe]
    rfl
  rcases hcases with ⟨hnone, habsent⟩ | ⟨t, hat⟩
  · refine .inl ⟨by rw [hfind, if_pos (Bucket.entry_eq_none.1 hnone)], fun v hv heq => ?_⟩
    obtain ⟨t, ht⟩ := mem_packets.1 hv
    exact habsent t ((h.indexed p t).2 ⟨v, ht, heq⟩)
  · obtain ⟨v, hv, hkey⟩ := (h.indexed p t).1 ⟨index, hlt, hat⟩
    obtain ⟨-, hslot, hne⟩ := Bucket.entry_eq_some.1 hat
    refine .inr ⟨index, t, v, by rw [hfind, if_neg (hslot ▸ hne)], hlt, hat, ?_, hv, hkey⟩
    rw [FullAt] at hv
    simp [packetAt, hslot, hv, Slot.full?]

/-- A packet is exchanged for one of the same identity. -/
theorem overwrite {v w : V} (hv : s.FullAt t v) (hkey : payload w = payload v) :
    Ok { s with slots := s.slots.set t (.full w) } ∧
      ∃ rest, s.packets.Perm (v :: rest) ∧
        (packets { s with slots := s.slots.set t (.full w) }).Perm (w :: rest) := by
  obtain ⟨hslots, ⟨rest, hold, hnew⟩, hfull⟩ :=
    h.slots.overwrite { s with slots := s.slots.set t (.full w) } hv w rfl rfl
  have hlength := hnew.length_eq.trans hold.length_eq.symm
  refine ⟨⟨h.index, hslots, fun p u => ?_, h.occupied.trans hlength.symm, h.len.trans hlength.symm,
    h.load⟩, rest, hold, hnew⟩
  rw [h.indexed]
  by_cases heq : t = u
  · subst heq
    have hold : (∃ x, s.FullAt t x ∧ payload x = p) ↔ payload v = p := by
      constructor
      · rintro ⟨x, hx, hp⟩
        obtain rfl : v = x := by simpa using hv.symm.trans hx
        exact hp
      · exact fun hp => ⟨v, hv, hp⟩
    simp only [hold, hfull, if_true, exists_eq_left, hkey]
  · simp only [hfull, if_neg heq]

/-- The index is doubled, the slab stays. -/
theorem grow :
    ∃ buckets shift, s.grow = some { s with buckets, shift } ∧ Ok { s with buckets, shift } ∧
      buckets.length = s.buckets.length * 2 := by
  obtain ⟨k, hk, hlength, hshift⟩ := h.index.size
  have hsize : s.buckets.length * 2 = 2 ^ (k + 1) := by rw [hlength, pow_succ]
  have hfresh := IndexOk.empty (k + 1) (by omega)
  have hnone {p t : Nat} : ¬ Indexed (replicate (2 ^ (k + 1)) emptyBucket) p t := by
    rintro ⟨i, -, he⟩
    simp [cells_replicate] at he
  have hzero : Days.occupied (replicate (2 ^ (k + 1)) emptyBucket) = 0 := by
    simp [Days.occupied, countP_replicate, emptyBucket]
  have hpos := length_pos_of_size h.index.size
  obtain ⟨buckets, hall, hok, hlength', hcount, hindexed⟩ :=
    hfresh.placeAll s.buckets (by rw [hzero, length_replicate]; omega) h.index.pairwise_apart
      fun _ _ _ _ _ _ => hnone
  rw [length_replicate] at hlength'
  refine ⟨buckets, _, ?_, ⟨hok, ⟨h.slots.free, h.slots.bound⟩, fun p t => ?_, ?_, h.len, ?_⟩,
    hlength'.trans hsize.symm⟩
  · rw [Slab.grow, hsize, hall]
    rfl
  · rw [hindexed]
    exact (or_iff_right hnone).trans (h.indexed p t)
  · rw [hcount, hzero, Nat.zero_add]
    exact h.occupied
  · have := h.load
    show s.len * 8 ≤ buckets.length * 7
    omega

/-- The index has room for one more, after growing if it must. -/
theorem reserve :
    ∃ buckets shift, s.reserve = some { s with buckets, shift } ∧ Ok { s with buckets, shift } ∧
      (s.len + 1) * 8 ≤ buckets.length * 7 := by
  by_cases hfull : (s.len + 1) * 8 > s.buckets.length * 7
  · obtain ⟨buckets, shift, hgrow, hok, hlength⟩ := h.grow
    refine ⟨buckets, shift, by rw [Slab.reserve, if_pos hfull, hgrow], hok, ?_⟩
    obtain ⟨k, hk, hsize, -⟩ := h.index.size
    have htwo : 2 ^ 1 ≤ 2 ^ k := Nat.pow_le_pow_right (by decide) hk
    have := h.load
    omega
  · exact ⟨s.buckets, s.shift, if_neg hfull, h, by omega⟩

/-- A packet with a new identity is stored, unless all slot numbers are taken. -/
theorem insert_new {value : V} (hfind : s.find (payload value) = some none)
    (hnew : ∀ v ∈ s.packets, payload v ≠ payload value) :
    (s.packets.length = emptySlot ∧ s.insert (payload value) value = none) ∨
      ∃ s', s.insert (payload value) value = some (none, s') ∧ s'.Ok ∧
        s'.packets.Perm (value :: s.packets) := by
  obtain ⟨buckets, shift, hreserve, hok, hload⟩ := h.reserve
  have hinsert : s.insert (payload value) value =
      (takeSlot { s with buckets, shift } value).bind fun taken =>
        (Days.place taken.2.buckets taken.2.shift (payload value) taken.1).bind fun placed =>
          some (none, { taken.2 with buckets := placed, len := taken.2.len + 1 }) := by
    simp only [Slab.insert, hfind, hreserve, bind_eq_bind, bind_some]
    rfl
  rcases hok.slots.takeSlot value with ⟨hcount, htake⟩ | ⟨t, slots, free, htake, ht, htook⟩
  · exact .inl ⟨hcount, by rw [hinsert, htake]; rfl⟩
  · have habsent (u : Nat) : ¬ Indexed buckets (payload value) u := by
      intro hin
      obtain ⟨v, hv, hkey⟩ := (hok.indexed _ u).1 hin
      exact hnew v (mem_packets.2 ⟨u, hv⟩) hkey
    obtain ⟨placed, hplace, hindex, hlength, hoccupied, hindexed⟩ :=
      hok.index.place hok.room habsent ht
    obtain ⟨hslots, hperm, hvacant, hfull⟩ := htook
      { s with buckets := placed, shift, slots, free, len := s.len + 1 } rfl rfl
    refine .inr ⟨{ s with buckets := placed, shift, slots, free, len := s.len + 1 }, ?_,
      ⟨hindex, hslots, fun p u => ?_, ?_, ?_, ?_⟩, hperm⟩
    · rw [hinsert, htake]
      show (Days.place buckets shift (payload value) t).bind _ = _
      rw [hplace]
      rfl
    · rw [hindexed, hok.indexed]
      simp only [hfull]
      by_cases heq : t = u
      · subst heq
        simp only [if_true, exists_eq_left]
        constructor
        · rintro (⟨v, hv, -⟩ | ⟨rfl, -⟩)
          · exact absurd hv (hvacant v)
          · rfl
        · rintro rfl
          exact .inr ⟨rfl, trivial⟩
      · simp [heq, Ne.symm heq]
    · rw [hoccupied, hok.occupied, hperm.length_eq]
      rfl
    · rw [hperm.length_eq, length_cons]
      exact congrArg (· + 1) h.len
    · show (s.len + 1) * 8 ≤ placed.length * 7
      rw [hlength]
      exact hload

/-- Below the limit a packet with a new identity is stored. -/
theorem insert_fresh {value : V} (hnew : ∀ v ∈ s.packets, payload v ≠ payload value)
    (hroom : s.packets.length < emptySlot) :
    ∃ s', s.insert (payload value) value = some (none, s') ∧ s'.Ok ∧
      s'.packets.Perm (value :: s.packets) := by
  rcases h.find (payload value) with ⟨hfind, -⟩ | ⟨-, t, v, -, -, -, -, hv, hkey⟩
  · rcases h.insert_new hfind hnew with ⟨hfull, -⟩ | hstored
    · omega
    · exact hstored
  · exact absurd hkey (hnew v (mem_packets.2 ⟨t, hv⟩))

/-- A packet is taken out. -/
theorem remove_found {p : Nat} {v : V} (hfind : s.find p = some (some i))
    (hi : i < s.buckets.length) (hcell : cells s.buckets i = some (p, t))
    (hat : s.packetAt i = some (t, v)) (hv : s.FullAt t v) (hkey : payload v = p) :
    ∃ s', s.remove p = some (some v, s') ∧ s'.Ok ∧ s.packets.Perm (v :: s'.packets) := by
  obtain ⟨buckets, hshift, hindex, hlength, hoccupied, hindexed⟩ := h.index.remove h.room hi hcell
  obtain ⟨hslots, hperm, hfull⟩ := h.slots.vacate
    { s with buckets, slots := s.slots.set t (.vacant s.free), free := t, len := s.len - 1 } hv rfl rfl
  have hcount := hperm.length_eq
  rw [length_cons] at hcount
  have hlen := h.len
  refine ⟨_, ?_, ⟨hindex, hslots, fun q u => ?_, ?_, ?_, ?_⟩, hperm⟩
  · simp only [Slab.remove, hfind, hat, hshift, bind_eq_bind, bind_some]
    rfl
  · rw [hindexed, h.indexed]
    simp only [hfull]
    constructor
    · rintro ⟨⟨w, hw, rfl⟩, hne⟩
      refine ⟨w, ⟨?_, hw⟩, rfl⟩
      rintro rfl
      obtain rfl : v = w := by simpa using hv.symm.trans hw
      exact hne hkey
    · rintro ⟨w, ⟨hne, hw⟩, rfl⟩
      refine ⟨⟨w, hw, rfl⟩, fun heq => hne (h.slot_unique hv hw (hkey.trans heq.symm))⟩
  · have := h.occupied
    show Days.occupied buckets = _
    omega
  · show s.len - 1 = _
    omega
  · have := h.load
    show (s.len - 1) * 8 ≤ buckets.length * 7
    omega

end

end Ok

/-- The first slab of a store. -/
theorem ok_withBuckets (k : Nat) (hk : 0 < k) : Ok (withBuckets (2 ^ k) : Slab V) := by
  refine ⟨IndexOk.empty k hk, ⟨⟨[], rfl, nodup_nil, rfl⟩, by simp [withBuckets]⟩, fun p t => ?_, ?_,
    rfl, by simp [withBuckets]⟩
  · constructor
    · rintro ⟨i, -, he⟩
      simp [withBuckets, cells_replicate] at he
    · rintro ⟨v, hv, -⟩
      simp [FullAt, withBuckets] at hv
  · simp [withBuckets, Days.occupied, countP_replicate, emptyBucket, packets]

end Slab

/-! ## §3. The store. -/

/-- `swap_remove` takes out one member. -/
theorem swapRemove_perm {V : Type} {packets : List V} {v : V} (h : packets[i]? = some v) :
    packets.Perm (v :: swapRemove packets i) := by
  obtain ⟨rest, hold, hnew⟩ := exists_perm_set h
  obtain ⟨hi, -⟩ := List.getElem?_eq_some_iff.1 h
  have hne : packets ≠ [] := by
    rintro rfl
    simp at hi
  have hlast : packets.getLast? = some (packets.getLast hne) := getLast?_eq_some_getLast hne
  refine hold.trans (Perm.cons v ?_)
  -- The last member stands at the end also after it has been copied to the position.
  have hkept : (packets.set i (packets.getLast hne)).getLast? = some (packets.getLast hne) := by
    rw [getLast?_eq_getElem?, length_set, getElem?_set]
    split
    · simp
    · rw [← getLast?_eq_getElem?, hlast]
  have hsplit := dropLast_append_getLast? _ hkept
  have hperm : (rest ++ [packets.getLast hne]).Perm
      (swapRemove packets i ++ [packets.getLast hne]) := by
    rw [swapRemove, hlast]
    rw [hsplit]
    exact perm_append_comm.trans (hnew _).symm
  exact (perm_append_right_iff _).1 hperm

namespace PacketStore

variable {V : Type} [Resident V]

theorem position_cases (packets : List V) (id : PayloadId) :
    (position packets id = none ∧ ∀ v ∈ packets, payload v ≠ id) ∨
      ∃ i v, position packets id = some i ∧ packets[i]? = some v ∧ payload v = id := by
  cases hposition : position packets id with
  | none =>
    refine .inl ⟨rfl, fun v hv heq => ?_⟩
    have := findIdx?_eq_none_iff.1 hposition v hv
    simp [heq] at this
  | some i =>
    obtain ⟨hi, hat, -⟩ := findIdx?_eq_some_iff_getElem.1 hposition
    exact .inr ⟨i, packets[i], rfl, getElem?_eq_getElem hi, by simpa using hat⟩

/-- The invariant of either form. -/
def Ok : PacketStore V → Prop
  | .small packets => packets.length ≤ smallLimit
  | .large slab => slab.Ok

/-- The map holds the packets of the store. -/
structure Represents (s : PacketStore V) (m : PacketMap V) : Prop where
  ok : s.Ok
  lists : Lib.Lists payload s.contents m

variable {m : PacketMap V}

theorem represents_new : Represents (new : PacketStore V) ∅ := ⟨Nat.zero_le _, .nil⟩

/-- The packet with an identity, if any, and what changing or removing it does. -/
theorem Represents.get {s : PacketStore V} (h : s.Represents m) (id : PayloadId) :
    s.get id = some m[id]? := by
  cases s with
  | small packets =>
    refine congrArg some (ext fun v => ?_)
    rw [h.lists.lookup]
    constructor
    · intro hfind
      exact ⟨mem_of_find?_eq_some hfind, by simpa using find?_some hfind⟩
    · rintro ⟨hmem, hkey⟩
      cases hfind : packets.find? fun packet => payload packet == id with
      | none =>
        have := find?_eq_none.1 hfind v hmem
        simp [hkey] at this
      | some w =>
        have hw : payload w = id := by simpa using find?_some hfind
        rw [h.lists.unique (mem_of_find?_eq_some hfind) hmem (hw.trans hkey.symm)]
  | large slab =>
    have hok : slab.Ok := h.ok
    show slab.get id = _
    rcases hok.find id with ⟨hfind, habsent⟩ | ⟨i, t, v, hfind, -, -, hat, hv, rfl⟩
    · rw [h.lists.eq_none_iff.2 habsent]
      simp only [Slab.get, hfind, bind_eq_bind, bind_some]
      rfl
    · rw [h.lists.eq_some (Slab.mem_packets.2 ⟨t, hv⟩)]
      simp only [Slab.get, hfind, hat, bind_eq_bind, bind_some]
      rfl

theorem Represents.getMut {s : PacketStore V} (h : s.Represents m) (id : PayloadId)
    (update : PacketWrite V) :
    ∃ s', s.getMut id update.write = some (m[id]?, s') ∧
      s'.Represents (m.step (.getMut id update)).2 := by
  cases s with
  | small packets =>
    rcases position_cases packets id with ⟨hposition, habsent⟩ | ⟨i, v, hposition, hat, rfl⟩
    · have hnone := h.lists.eq_none_iff.2 habsent
      refine ⟨.small packets, by rw [PacketStore.getMut, hposition, hnone], ?_⟩
      simp only [PacketMap.step, hnone]
      exact h
    · have hsome := h.lists.eq_some (mem_of_getElem? hat)
      obtain ⟨rest, hold, hnew⟩ := exists_perm_set hat
      refine ⟨.small (packets.set i (update.write v)), ?_, ?_⟩
      · simp only [PacketStore.getMut, hposition, hat, hsome, bind_eq_bind, bind_some]
        rfl
      · simp only [PacketMap.step, hsome]
        refine ⟨by simpa [Ok] using h.ok, ?_⟩
        rw [← update.keeps v]
        exact ((h.lists.perm hold).replace (update.keeps v)).perm (hnew _).symm
  | large slab =>
    have hok : slab.Ok := h.ok
    rcases hok.find id with ⟨hfind, habsent⟩ | ⟨i, t, v, hfind, -, -, hat, hv, rfl⟩
    · have hnone := h.lists.eq_none_iff.2 habsent
      refine ⟨.large slab, ?_, ?_⟩
      · simp only [PacketStore.getMut, Slab.getMut, hfind, hnone, bind_eq_bind,
          bind_some]
        rfl
      · simp only [PacketMap.step, hnone]
        exact h
    · have hsome := h.lists.eq_some (Slab.mem_packets.2 ⟨t, hv⟩)
      obtain ⟨hok', rest, hold, hnew⟩ := hok.overwrite hv (update.keeps v)
      refine ⟨.large { slab with slots := slab.slots.set t (.full (update.write v)) }, ?_, ?_⟩
      · simp only [PacketStore.getMut, Slab.getMut, hfind, hat, hsome, bind_eq_bind,
          bind_some]
        rfl
      · simp only [PacketMap.step, hsome]
        refine ⟨hok', ?_⟩
        rw [← update.keeps v]
        exact ((h.lists.perm hold).replace (update.keeps v)).perm hnew.symm

theorem Represents.remove {s : PacketStore V} (h : s.Represents m) (id : PayloadId) :
    ∃ s', s.remove id = some (m[id]?, s') ∧ s'.Represents (m.erase id) := by
  cases s with
  | small packets =>
    rcases position_cases packets id with ⟨hposition, habsent⟩ | ⟨i, v, hposition, hat, rfl⟩
    · refine ⟨.small packets, ?_, h.ok, h.lists.erase_absent habsent⟩
      rw [PacketStore.remove, hposition, h.lists.eq_none_iff.2 habsent]
    · have hperm := swapRemove_perm hat
      refine ⟨.small (swapRemove packets i), ?_, ?_, (h.lists.perm hperm).tail⟩
      · simp only [PacketStore.remove, hposition, hat, h.lists.eq_some (mem_of_getElem? hat),
          bind_eq_bind, bind_some]
        rfl
      · have hok : packets.length ≤ smallLimit := h.ok
        have hlength := hperm.length_eq
        rw [length_cons] at hlength
        show (swapRemove packets i).length ≤ smallLimit
        omega
  | large slab =>
    have hok : slab.Ok := h.ok
    -- A store that has emptied is a small one again.
    have hshrink (slab' : Slab V) (hok' : slab'.Ok) (hlists : Lib.Lists payload slab'.packets (m.erase id)) :
        Represents (if slab'.len = 0 then .small [] else .large slab' : PacketStore V)
          (m.erase id) := by
      split
      · next hzero =>
        have hnil : slab'.packets = [] := length_eq_zero_iff.1 (hok'.len.symm.trans hzero)
        rw [hnil] at hlists
        exact ⟨Nat.zero_le _, hlists⟩
      · exact ⟨hok', hlists⟩
    rcases hok.find id with ⟨hfind, habsent⟩ | ⟨i, t, v, hfind, hi, hcell, hat, hv, rfl⟩
    · refine ⟨_, ?_, hshrink slab hok (h.lists.erase_absent habsent)⟩
      simp only [PacketStore.remove, Slab.remove, hfind, h.lists.eq_none_iff.2 habsent,
        bind_eq_bind, bind_some]
      rfl
    · obtain ⟨slab', hremove, hok', hperm⟩ := hok.remove_found hfind hi hcell hat hv rfl
      refine ⟨_, ?_, hshrink slab' hok' (h.lists.perm hperm).tail⟩
      simp only [PacketStore.remove, hremove, h.lists.eq_some (Slab.mem_packets.2 ⟨t, hv⟩),
        bind_eq_bind, bind_some]
      rfl

/-- The packets of a small store fit into its first slab. -/
theorem insertAll_ok (packets : List V) {slab : Slab V} (hok : slab.Ok)
    (hnodup : ((packets ++ slab.packets).map payload).Nodup)
    (hroom : packets.length + slab.packets.length ≤ emptySlot) :
    ∃ slab', insertAll slab packets = some slab' ∧ slab'.Ok ∧
      slab'.packets.Perm (packets ++ slab.packets) := by
  induction packets generalizing slab with
  | nil => exact ⟨slab, rfl, hok, .refl _⟩
  | cons packet rest ih =>
    rw [length_cons] at hroom
    rw [cons_append, map_cons, nodup_cons] at hnodup
    have hnew (v : V) (hv : v ∈ slab.packets) : payload v ≠ payload packet := by
      intro heq
      exact hnodup.1 (mem_map.2 ⟨v, mem_append_right _ hv, heq⟩)
    obtain ⟨slab', hinsert, hok', hperm⟩ := hok.insert_fresh hnew (by omega)
    have hmiddle : (rest ++ slab'.packets).Perm (packet :: (rest ++ slab.packets)) :=
      (hperm.append_left rest).trans perm_middle
    obtain ⟨slab'', hall, hok'', hperm'⟩ := ih hok'
      ((hmiddle.map payload).nodup_iff.2 (nodup_cons.2 hnodup))
      (by rw [hperm.length_eq, length_cons]; omega)
    refine ⟨slab'', ?_, hok'', hperm'.trans hmiddle⟩
    simp only [insertAll, hinsert, bind_eq_bind, bind_some]
    exact hall

/-- An insertion has room: the identity is there already, or a slot number is left. -/
def Room (m : PacketMap V) : StoreOp V → Prop
  | .insert packet => payload packet ∈ m ∨ m.size < 2 ^ 32 - 1
  | _ => True

/-- The seventeenth packet moves a small store into a slab. -/
theorem insert_into_slab {packets : List V} {packet : V} (hlength : packets.length ≤ smallLimit)
    (hnodup : (packets.map payload).Nodup) (habsent : ∀ v ∈ packets, payload v ≠ payload packet) :
    ∃ slab slab', insertAll (.withBuckets firstBuckets) packets = some slab ∧
      slab.insert (payload packet) packet = some (none, slab') ∧ slab'.Ok ∧
      slab'.packets.Perm (packet :: packets) := by
  have hlimit : smallLimit < emptySlot := by decide
  have hempty : (Slab.withBuckets (2 ^ 6) : Slab V).packets = [] := rfl
  obtain ⟨slab, hall, hslab, hperm⟩ := insertAll_ok packets
    (Slab.ok_withBuckets 6 (by decide)) (by rwa [hempty, append_nil])
    (by rw [hempty, length_nil]; omega)
  rw [hempty, append_nil] at hperm
  have hnew (v : V) (hv : v ∈ slab.packets) : payload v ≠ payload packet :=
    habsent v (hperm.mem_iff.1 hv)
  obtain ⟨slab', hinsert, hok, hperm'⟩ :=
    hslab.insert_fresh hnew (by rw [hperm.length_eq]; omega)
  exact ⟨slab, slab', hall, hinsert, hok, hperm'.trans (hperm.cons packet)⟩

theorem Represents.insert {s : PacketStore V} (h : s.Represents m) (packet : V)
    (hroom : Room m (.insert packet)) :
    ∃ s', s.insert packet = some (m[payload packet]?, s') ∧
      s'.Represents (m.insert (payload packet) packet) := by
  have hfresh (habsent : ∀ v ∈ s.contents, payload v ≠ payload packet) :
      payload packet ∉ s.contents.map payload := by
    intro hmem
    obtain ⟨v, hv, hkey⟩ := mem_map.1 hmem
    exact habsent v hv hkey
  cases s with
  | small packets =>
    rcases position_cases packets (payload packet) with
      ⟨hposition, habsent⟩ | ⟨i, v, hposition, hat, hkey⟩
    · have hnone := h.lists.eq_none_iff.2 habsent
      have hlists := h.lists.cons (hfresh habsent)
      by_cases hsmall : packets.length < smallLimit
      · refine ⟨.small (packets ++ [packet]), ?_, ?_, hlists.perm ?_⟩
        · simp only [PacketStore.insert, hposition, if_pos hsmall, hnone]
        · rw [Ok, length_append]
          exact hsmall
        · exact (perm_append_singleton packet packets).symm
      · obtain ⟨slab, slab', hall, hinsert, hok, hperm⟩ :=
          insert_into_slab h.ok h.lists.nodup habsent
        refine ⟨.large slab', ?_, hok, hlists.perm hperm.symm⟩
        simp only [PacketStore.insert, hposition, if_neg hsmall, hall, hinsert, hnone,
          bind_eq_bind, bind_some]
        rfl
    · have hsome : m[payload packet]? = some v := hkey ▸ h.lists.eq_some (mem_of_getElem? hat)
      obtain ⟨rest, hold, hnew⟩ := exists_perm_set hat
      refine ⟨.small (packets.set i packet), ?_, by simpa [Ok] using h.ok, ?_⟩
      · simp only [PacketStore.insert, hposition, hat, hsome, bind_eq_bind, bind_some]
        rfl
      · exact ((h.lists.perm hold).replace hkey.symm).perm (hnew _).symm
  | large slab =>
    have hok : slab.Ok := h.ok
    rcases hok.find (payload packet) with ⟨-, habsent⟩ | ⟨i, t, v, hfind, -, -, hat, hv, hkey⟩
    · have hnone := h.lists.eq_none_iff.2 habsent
      have hlt : slab.packets.length < emptySlot := by
        rcases hroom with hmem | hlt
        · rw [mem_iff_isSome_getElem?, hnone] at hmem
          cases hmem
        · rwa [h.lists.size_eq] at hlt
      obtain ⟨slab', hinsert, hok', hperm⟩ := hok.insert_fresh habsent hlt
      refine ⟨.large slab', ?_, hok', (h.lists.cons (hfresh habsent)).perm hperm.symm⟩
      simp only [PacketStore.insert, hinsert, hnone, map_some]
    · have hsome : m[payload packet]? = some v :=
        hkey ▸ h.lists.eq_some (Slab.mem_packets.2 ⟨t, hv⟩)
      obtain ⟨hok', rest, hold, hnew⟩ := hok.overwrite hv hkey.symm
      refine ⟨.large { slab with slots := slab.slots.set t (.full packet) }, ?_, hok', ?_⟩
      · simp only [PacketStore.insert, Slab.insert, hfind, hat, hsome, bind_eq_bind,
          bind_some]
        rfl
      · exact ((h.lists.perm hold).replace hkey.symm).perm hnew.symm

/-! ## §4. Every sequence of operations. -/

theorem Represents.step {s : PacketStore V} (h : s.Represents m) (o : StoreOp V) (hroom : Room m o) :
    ∃ s', (run (some s) o) = ((m.step o).1, some s') ∧ s'.Represents (m.step o).2 := by
  have hrun {found : Option V} {s' : PacketStore V} (hstep : s.step o = some (found, s')) :
      run (some s) o = (some found, some s') := by
    simp only [run, bind_some, hstep]
  cases o with
  | insert packet =>
    obtain ⟨s', hinsert, hs'⟩ := h.insert packet hroom
    exact ⟨s', hrun hinsert, hs'⟩
  | get id =>
    have hget : s.step (.get id) = some (m[id]?, s) := by rw [PacketStore.step, h.get id]; rfl
    exact ⟨s, hrun hget, h⟩
  | getMut id update =>
    obtain ⟨s', hgetMut, hs'⟩ := h.getMut id update
    exact ⟨s', hrun hgetMut, hs'⟩
  | remove id =>
    obtain ⟨s', hremove, hs'⟩ := h.remove id
    exact ⟨s', hrun hremove, hs'⟩

/-- A run that has not panicked stands for the map. -/
def RepresentsRun (s : Option (PacketStore V)) (m : PacketMap V) : Prop :=
  ∃ store, s = some store ∧ store.Represents m

theorem perform_represents (ops : List (StoreOp V))
    (hroom : Lib.Allowed PacketMap.step Room ops (∅ : PacketMap V)) :
    (Lib.perform run ops (some new)).1 = (Lib.perform PacketMap.step ops (∅ : PacketMap V)).1 ∧
      RepresentsRun (Lib.perform run ops (some new)).2
        (Lib.perform PacketMap.step ops (∅ : PacketMap V)).2 := by
  refine Lib.perform_refines ?_ ops ⟨new, rfl, represents_new⟩ hroom
  rintro s m o ⟨store, rfl, h⟩ ho
  obtain ⟨s', hrun, hs'⟩ := h.step o ho
  rw [hrun]
  exact ⟨rfl, s', rfl, hs'⟩

/-! ## §5. The last slot number. -/

/-- With every slot number taken, a packet with a new identity makes the store panic. -/
theorem Represents.insert_full {s : PacketStore V} (h : s.Represents m) {packet : V}
    (hsize : m.size = 2 ^ 32 - 1) (hnew : payload packet ∉ m) : s.insert packet = none := by
  have hlength : s.contents.length = emptySlot := h.lists.size_eq.symm.trans hsize
  cases s with
  | small packets =>
    have hok : packets.length ≤ smallLimit := h.ok
    have hlimit : smallLimit < emptySlot := by decide
    exact absurd hlength (hok.trans_lt hlimit).ne
  | large slab =>
    have hok : slab.Ok := h.ok
    have habsent (v : V) (hv : v ∈ slab.packets) : payload v ≠ payload packet := by
      intro heq
      exact hnew (h.lists.mem_iff.2 (mem_map.2 ⟨v, hv, heq⟩))
    rcases hok.find (payload packet) with ⟨hfind, -⟩ | ⟨-, t, v, -, -, -, -, hv, hkey⟩
    · rcases hok.insert_new hfind habsent with ⟨-, hnone⟩ | ⟨slab', -, hok', hperm⟩
      · rw [PacketStore.insert, hnone]
        rfl
      · -- A stored packet would need one slot more than there are numbers.
        obtain ⟨l, -, -, hcount⟩ := hok'.slots.free
        have hbound := hok'.slots.bound
        rw [hperm.length_eq, length_cons] at hcount
        have hlength' : slab.packets.length = emptySlot := hlength
        omega
    · exact absurd hkey (habsent v (Slab.mem_packets.2 ⟨t, hv⟩))

/-- An operation adds one packet at most. -/
theorem size_step_le (o : StoreOp V) : (PacketMap.step m o).2.size ≤ m.size + 1 := by
  cases o with
  | insert packet => exact size_insert_le
  | get id => exact Nat.le_succ _
  | getMut id update =>
    simp only [PacketMap.step]
    split
    · exact size_insert_le
    · exact Nat.le_succ _
  | remove id => exact size_erase_le.trans (Nat.le_succ _)

/-- Up to `2 ^ 32 - 1` operations always have room. -/
theorem allowed_of_length (ops : List (StoreOp V)) (hsize : m.size + ops.length ≤ 2 ^ 32 - 1) :
    Lib.Allowed PacketMap.step Room ops m := by
  induction ops generalizing m with
  | nil => trivial
  | cons o rest ih =>
    rw [length_cons] at hsize
    have hle := size_step_le (m := m) o
    refine ⟨?_, ih (by omega)⟩
    cases o with
    | insert packet => exact .inr (by omega)
    | get _ | getMut _ _ | remove _ => trivial

theorem perform_inserts (packets : List V) (hnodup : (packets.map payload).Nodup)
    (hnew : ∀ packet ∈ packets, payload packet ∉ m) :
    (Lib.perform PacketMap.step (packets.map .insert) m).2.size = m.size + packets.length ∧
      ∀ id, id ∈ (Lib.perform PacketMap.step (packets.map .insert) m).2 ↔
        id ∈ m ∨ id ∈ packets.map payload := by
  induction packets generalizing m with
  | nil => exact ⟨rfl, fun id => by simp⟩
  | cons packet rest ih =>
    rw [map_cons, nodup_cons] at hnodup
    have hmem (id : PayloadId) : id ∈ m.insert (payload packet) packet ↔
        payload packet = id ∨ id ∈ m := by
      rw [mem_insert, compare_eq_iff_eq]
    obtain ⟨hsize, hkeys⟩ := ih hnodup.2 (m := m.insert (payload packet) packet) fun other hother => by
      rw [hmem]
      rintro (heq | hin)
      · exact hnodup.1 (mem_map.2 ⟨other, hother, heq.symm⟩)
      · exact hnew other (mem_cons_of_mem _ hother) hin
    refine ⟨?_, fun id => ?_⟩
    · rw [map_cons, Lib.perform_cons, length_cons]
      refine hsize.trans ?_
      have habsent := hnew packet List.mem_cons_self
      rw [Std.ExtTreeMap.size_insert, if_neg (by rwa [Std.ExtTreeMap.contains_iff_mem])]
      omega
    · rw [List.map_cons, Lib.perform_cons, List.map_cons, List.mem_cons]
      refine (hkeys id).trans ?_
      rw [hmem]
      constructor
      · rintro ((rfl | hin) | hin)
        · exact .inr (.inl rfl)
        · exact .inl hin
        · exact .inr (.inr hin)
      · rintro (hin | rfl | hin)
        · exact .inl (.inr hin)
        · exact .inl (.inl rfl)
        · exact .inr hin

/-- The insertion after `2 ^ 32 - 1` others panics. -/
theorem perform_inserts_full (packets : List V) (last : V)
    (hnodup : ((packets ++ [last]).map payload).Nodup) (hlength : packets.length = 2 ^ 32 - 1) :
    (Lib.perform run ((packets ++ [last]).map .insert) (some new)).1 ≠
      (Lib.perform PacketMap.step ((packets ++ [last]).map .insert) (∅ : PacketMap V)).1 := by
  rw [map_append, nodup_append] at hnodup
  obtain ⟨hnodup, -, hapart⟩ := hnodup
  obtain ⟨hsize, hkeys⟩ := perform_inserts packets hnodup (m := (∅ : PacketMap V)) (by simp)
  obtain ⟨-, store, hstore, hrep⟩ := perform_represents (packets.map .insert)
    (allowed_of_length _ (m := (∅ : PacketMap V)) (by simp [hlength]))
  have hlast : payload last ∉ (Lib.perform PacketMap.step (packets.map .insert) (∅ : PacketMap V)).2 := by
    rw [hkeys]
    rintro (hin | hin)
    · simp at hin
    · exact hapart _ hin _ (by simp) rfl
  have hpanic : store.insert last = none := hrep.insert_full (by simpa [hlength] using hsize) hlast
  have hrun : (Lib.perform run [.insert last] (Lib.perform run (packets.map .insert) (some new)).2).1 =
      [none] := by
    rw [hstore, Lib.perform_cons]
    simp only [run, bind_some, PacketStore.step, hpanic]
    rfl
  intro heq
  rw [map_append, Lib.perform_append, Lib.perform_append] at heq
  have hlasts := (append_inj_right' heq rfl)
  rw [map_singleton, hrun, Lib.perform_cons, PacketMap.step] at hlasts
  simp at hlasts

end PacketStore

open PacketStore in
/-- Every operation of the store answers as the map from payload identities to packets does, and
    the drain gives the packets of the map in ascending order, as long as fewer than `2 ^ 32 - 1`
    packets are resident whenever a packet with a new identity is inserted. -/
theorem packetStore_refines_map {V : Type} [Resident V] (ops : List (StoreOp V))
    (hroom : Lib.Allowed PacketMap.step Room ops (∅ : PacketMap V)) :
    (Lib.perform run ops (some .new)).1 = (Lib.perform PacketMap.step ops (∅ : PacketMap V)).1 ∧
      ∃ store, (Lib.perform run ops (some .new)).2 = some store ∧
        store.intoSorted = (Lib.perform PacketMap.step ops (∅ : PacketMap V)).2.sorted := by
  obtain ⟨hanswers, store, hstore, hrep⟩ := perform_represents ops hroom
  exact ⟨hanswers, store, hstore, hrep.lists.insertionSort_eq⟩

/-- A data packet that has not left its source. -/
def packetWithId (id : PayloadId) : ResidentPacket := ⟨⟨id, 0, 1000, false, .data⟩, none, 0, false⟩

/-- Seventeen packets, one of which leaves and comes back after another took its slot. -/
def reinsertion : List (StoreOp ResidentPacket) :=
  ((List.range 17).map packetWithId).map .insert ++
    [.remove 3, .get 3, .insert (packetWithId 40), .insert (packetWithId 3), .get 3, .get 40]

open PacketStore in
/-- The packets of `reinsertion` are in a slab, and each is found as in the map. -/
theorem packetStore_refines_map_run :
    (∃ slab, (Lib.perform run reinsertion (some .new)).2 = some (.large slab)) ∧
      (Lib.perform run reinsertion (some .new)).1 =
        (Lib.perform PacketMap.step reinsertion (∅ : PacketMap ResidentPacket)).1 := by
  refine ⟨⟨_, rfl⟩, (packetStore_refines_map _ ?_).1⟩
  exact allowed_of_length _ (by simp [reinsertion])

open PacketStore in
/-- The store does not follow the map through `2 ^ 32` insertions, of which the last panics, nor
    through a write that renames a packet, which the old identity no longer finds. -/
theorem packetStore_panics_when_full :
    (Lib.perform run (((List.range (2 ^ 32 - 1)).map packetWithId ++
        [packetWithId (2 ^ 32 - 1)]).map .insert) (some .new)).1 ≠
      (Lib.perform PacketMap.step (((List.range (2 ^ 32 - 1)).map packetWithId ++
        [packetWithId (2 ^ 32 - 1)]).map .insert) (∅ : PacketMap ResidentPacket)).1 ∧
      (((small [packetWithId 7]).getMut 7 fun _ => packetWithId 8).bind fun written => written.2.get 7) ≠
        some ((∅ : PacketMap ResidentPacket).insert 7 (packetWithId 8))[7]? := by
  have hpayload (n : Nat) : ((range n).map packetWithId ++ [packetWithId n]).map payload =
      range (n + 1) := by
    rw [List.map_append, List.map_map, List.range_succ]
    congr 1
    exact map_id _
  have hrenamed : (((small [packetWithId 7]).getMut 7 fun _ => packetWithId 8).bind
      fun written => written.2.get 7) = some none := rfl
  refine ⟨perform_inserts_full _ _ ?_ ?_, by simp [hrenamed]⟩
  · rw [hpayload]
    exact nodup_range
  · rw [length_map, length_range]

end Days
