/-
  Days.Logic.PacketIndex — the index of the packet store.

  The buckets form a ring in which every entry is reachable from its home bucket
  and every payload occurs once.  Lookups end, placing and doubling keep the
  entries, and the backward shift of a deletion takes out exactly one.
-/
import Days.Exec.PacketStore

namespace Days

open List Function

variable {buckets : List Bucket} {shift : Nat}

variable {bucket : Bucket} {p t : Nat}

/-! ## §1. The index as a ring of cells. -/

/-- What a bucket holds: a payload and its slot. -/
def Bucket.entry (bucket : Bucket) : Option (Nat × Nat) :=
  if bucket.slot = emptySlot then none else some (bucket.payload, bucket.slot)

def cells (buckets : List Bucket) (index : Nat) : Option (Nat × Nat) := (bucketAt buckets index).entry

/-- The home of an entry. -/
def homeOf (shift : Nat) (entry : Nat × Nat) : Nat := bucketOf entry.1 shift

/-- The number of buckets that hold a packet. -/
def occupied (buckets : List Bucket) : Nat := buckets.countP (·.slot != emptySlot)

theorem Bucket.entry_eq_none : bucket.entry = none ↔ bucket.slot = emptySlot := by
  unfold Bucket.entry
  split <;> simp_all

theorem Bucket.entry_eq_some :
    bucket.entry = some (p, t) ↔ bucket.payload = p ∧ bucket.slot = t ∧ t ≠ emptySlot := by
  unfold Bucket.entry
  split
  · next heq =>
    simp only [reduceCtorEq, false_iff]
    rintro ⟨-, rfl, hne⟩
    exact hne heq
  · next hne =>
    simp only [Option.some.injEq, Prod.mk.injEq]
    constructor
    · rintro ⟨rfl, rfl⟩
      exact ⟨rfl, rfl, hne⟩
    · rintro ⟨rfl, rfl, -⟩
      exact ⟨rfl, rfl⟩

theorem cells_set {i : Nat} (hi : i < buckets.length) (bucket : Bucket) :
    cells (buckets.set i bucket) = update (cells buckets) i bucket.entry := by
  funext j
  unfold cells bucketAt
  by_cases hj : j = i
  · subst hj
    simp [getD_eq_getElem?_getD, hi]
  · rw [update_of_ne hj, getD_eq_getElem?_getD, getD_eq_getElem?_getD,
      getElem?_set_ne (Ne.symm hj)]

theorem cells_replicate (n : Nat) : cells (replicate n emptyBucket) = fun _ => none := by
  funext i
  unfold cells bucketAt
  rw [getD_eq_getElem?_getD, getElem?_replicate]
  split <;> rfl

theorem occupied_set {i : Nat} (hi : i < buckets.length) (bucket : Bucket) :
    occupied (buckets.set i bucket) + (if cells buckets i = none then 0 else 1) =
      occupied buckets + (if bucket.entry = none then 0 else 1) := by
  have hat : bucketAt buckets i = buckets[i] := by simp [bucketAt, hi]
  have hpos : buckets[i].slot ≠ emptySlot → 0 < buckets.countP (·.slot != emptySlot) := by
    intro hne
    exact countP_pos_iff.2 ⟨buckets[i], getElem_mem hi, by simpa using hne⟩
  simp only [occupied, countP_set hi, cells, Bucket.entry_eq_none, hat, bne_iff_ne]
  by_cases hold : buckets[i].slot = emptySlot <;> by_cases hnew : bucket.slot = emptySlot
  · simp [hold, hnew]
  · simp [hold, hnew]
  · simp only [ne_eq, hold, hnew, not_true, not_false_eq_true, if_true, if_false]
    have := hpos hold
    omega
  · simp only [ne_eq, hold, hnew, not_false_eq_true, if_true, if_false]
    have := hpos hold
    omega

/-- A table that is not full has an empty bucket. -/
theorem exists_empty (h : occupied buckets < buckets.length) :
    ∃ z < buckets.length, cells buckets z = none := by
  by_contra hall
  push Not at hall
  refine h.ne (countP_eq_length.2 fun bucket hmem => ?_)
  obtain ⟨i, hi, rfl⟩ := getElem_of_mem hmem
  have hne := hall i hi
  have hat : bucketAt buckets i = buckets[i] := by simp [bucketAt, hi]
  simpa [cells, hat, Bucket.entry_eq_none] using hne

/-! ## §2. The invariant of the index. -/

structure IndexOk (buckets : List Bucket) (shift : Nat) : Prop where
  size : ∃ k, 0 < k ∧ buckets.length = 2 ^ k ∧ shift = 64 - k
  reach : Lib.Reachable buckets.length (homeOf shift) (cells buckets)
  distinct : ∀ i < buckets.length, ∀ j < buckets.length, ∀ e e', cells buckets i = some e →
    cells buckets j = some e' → e.1 = e'.1 → i = j

/-- The payload is in the index. -/
def Indexed (buckets : List Bucket) (p t : Nat) : Prop :=
  ∃ i < buckets.length, cells buckets i = some (p, t)

section Size

variable {buckets : List Bucket} {shift : Nat}
  (hsize : ∃ k, 0 < k ∧ buckets.length = 2 ^ k ∧ shift = 64 - k)

include hsize

theorem length_pos_of_size : 0 < buckets.length := by
  obtain ⟨k, -, hlength, -⟩ := hsize
  rw [hlength]
  exact Nat.two_pow_pos k

theorem bucketOf_lt (p : Nat) : bucketOf p shift < buckets.length := by
  obtain ⟨k, -, hlength, rfl⟩ := hsize
  have hlt : p * fibonacci % 2 ^ 64 < 2 ^ 64 := Nat.mod_lt _ (Nat.two_pow_pos 64)
  rw [bucketOf, Nat.shiftRight_eq_div_pow, hlength]
  refine Nat.div_lt_of_lt_mul (hlt.trans_le ?_)
  rw [← pow_add]
  exact Nat.pow_le_pow_right (by decide) (by omega)

theorem nextIndex_eq (i : Nat) : nextIndex buckets i = (i + 1) % buckets.length := by
  obtain ⟨k, -, hlength, -⟩ := hsize
  rw [nextIndex, hlength, Nat.and_two_pow_sub_one_eq_mod]

end Size

namespace IndexOk

variable {buckets : List Bucket} {shift : Nat}

section

variable (h : IndexOk buckets shift) (hroom : occupied buckets < buckets.length)

include h hroom

/-- The walk from a home bucket ends at the payload or at an empty bucket. -/
theorem probe (p : Nat)
    (stop : Bucket → Bool) (hstop : ∀ bucket, bucket.entry = none → stop bucket = true) :
    ∃ d < buckets.length,
      probeBuckets buckets stop (bucketOf p shift) =
        some ((bucketOf p shift + d) % buckets.length) ∧
      stop (bucketAt buckets ((bucketOf p shift + d) % buckets.length)) = true ∧
      ∀ j < d, stop (bucketAt buckets ((bucketOf p shift + j) % buckets.length)) = false := by
  have hhome := bucketOf_lt h.size p
  obtain ⟨z, hz, hempty⟩ := exists_empty hroom
  obtain ⟨d, hd, rfl⟩ := Lib.exists_add_mod_eq hhome hz
  exact Lib.probe_eq_some (fun i _ => nextIndex_eq h.size i) hhome ⟨d, hd, hstop _ hempty⟩

theorem find (p : Nat) :
    ∃ index < buckets.length,
      probeBuckets buckets (fun bucket => bucket.slot == emptySlot || bucket.payload == p)
        (bucketOf p shift) = some index ∧
      ((cells buckets index = none ∧ ∀ t, ¬ Indexed buckets p t) ∨
        ∃ t, cells buckets index = some (p, t)) := by
  obtain ⟨d, hd, hprobe, hstop, hbefore⟩ := h.probe hroom p
    (fun bucket => bucket.slot == emptySlot || bucket.payload == p)
    (fun bucket hb => by simp [Bucket.entry_eq_none.1 hb])
  refine ⟨_, Nat.mod_lt _ (length_pos_of_size h.size), hprobe, ?_⟩
  by_cases hempty : cells buckets ((bucketOf p shift + d) % buckets.length) = none
  · refine .inl ⟨hempty, ?_⟩
    rintro t ⟨i, hi, hat⟩
    obtain ⟨k, hk, rfl, hpath⟩ := h.reach i hi _ hat
    -- The entry would lie before, at or behind the empty bucket where the walk ended.
    rcases lt_trichotomy k d with hlt | rfl | hgt
    · have hpass := hbefore k hlt
      have hpayload := (Bucket.entry_eq_some.1 hat).1
      simp only [homeOf] at hpayload
      simp [hpayload] at hpass
    · cases hempty.symm.trans hat
    · exact hpath d hgt hempty
  · have hslot : (bucketAt buckets ((bucketOf p shift + d) % buckets.length)).slot ≠ emptySlot :=
      fun heq => hempty (Bucket.entry_eq_none.2 heq)
    have hpayload : (bucketAt buckets ((bucketOf p shift + d) % buckets.length)).payload = p := by
      simpa [hslot] using hstop
    exact .inr ⟨_, Bucket.entry_eq_some.2 ⟨hpayload, rfl, hslot⟩⟩

theorem place (hnew : ∀ t', ¬ Indexed buckets p t') (ht : t ≠ emptySlot) :
    ∃ buckets', Days.place buckets shift p t = some buckets' ∧ IndexOk buckets' shift ∧
      buckets'.length = buckets.length ∧ occupied buckets' = occupied buckets + 1 ∧
      ∀ q u, Indexed buckets' q u ↔ Indexed buckets q u ∨ (q = p ∧ u = t) := by
  obtain ⟨d, hd, hprobe, hstop, hbefore⟩ := h.probe hroom p (fun bucket => bucket.slot == emptySlot)
    (fun bucket hb => by simp [Bucket.entry_eq_none.1 hb])
  have hhome : bucketOf p shift = homeOf shift (p, t) := rfl
  rw [hhome] at hprobe hstop hbefore
  set i := (homeOf shift (p, t) + d) % buckets.length with hi
  have hlt : i < buckets.length := Nat.mod_lt _ (length_pos_of_size h.size)
  have hempty : cells buckets i = none := Bucket.entry_eq_none.2 (by simpa using hstop)
  have hentry : (Bucket.mk p t).entry = some (p, t) := Bucket.entry_eq_some.2 ⟨rfl, rfl, ht⟩
  have hcells : cells (buckets.set i ⟨p, t⟩) = update (cells buckets) i (some (p, t)) := by
    rw [cells_set hlt, hentry]
  have hcases {j : Nat} {e : Nat × Nat} (he : cells (buckets.set i ⟨p, t⟩) j = some e) :
      (j = i ∧ e = (p, t)) ∨ (j ≠ i ∧ cells buckets j = some e) := by
    rw [hcells] at he
    by_cases hj : j = i
    · subst hj
      rw [update_self] at he
      exact .inl ⟨rfl, (Option.some.inj he).symm⟩
    · rw [update_of_ne hj] at he
      exact .inr ⟨hj, he⟩
  refine ⟨buckets.set i ⟨p, t⟩, ?_, ⟨?_, ?_, ?_⟩, by simp, ?_, ?_⟩
  · rw [Days.place, hhome, hprobe]
    rfl
  · simpa using h.size
  · rw [length_set, hcells]
    refine h.reach.place hd fun j hj heq => ?_
    have hpass := hbefore j hj
    rw [cells, Bucket.entry_eq_none] at heq
    simp [heq] at hpass
  · intro a ha b hb e e' he he' hkey
    rw [length_set] at ha hb
    rcases hcases he with ⟨rfl, rfl⟩ | ⟨hne, he⟩ <;> rcases hcases he' with ⟨rfl, rfl⟩ | ⟨hne', he'⟩
    · rfl
    · exact absurd ⟨b, hb, by rw [he', ← Prod.mk.eta (p := e'), ← hkey]⟩ (hnew e'.2)
    · exact absurd ⟨a, ha, by rw [he, ← Prod.mk.eta (p := e), hkey]⟩ (hnew e.2)
    · exact h.distinct a ha b hb e e' he he' hkey
  · have hcount := occupied_set hlt ⟨p, t⟩
    simpa [hempty, hentry] using hcount
  · intro q u
    unfold Indexed
    rw [length_set]
    constructor
    · rintro ⟨j, hj, he⟩
      rcases hcases he with ⟨-, heq⟩ | ⟨-, he⟩
      · exact .inr (by simpa using heq)
      · exact .inl ⟨j, hj, he⟩
    · rintro (⟨j, hj, he⟩ | ⟨rfl, rfl⟩)
      · have hne : j ≠ i := by
          rintro rfl
          simp [hempty] at he
        exact ⟨j, hj, by rw [hcells, update_of_ne hne, he]⟩
      · exact ⟨i, hlt, by rw [hcells, update_self]⟩

end

/-- An empty index. -/
theorem empty (k : Nat) (hk : 0 < k) :
    IndexOk (replicate (2 ^ k) emptyBucket) (64 - (2 ^ k).log2) := by
  refine ⟨⟨k, hk, by simp, by rw [Nat.log2_two_pow]⟩, ?_, ?_⟩
  · rw [cells_replicate]
    exact Lib.reachable_empty
  · intro i _ j _ e e' he
    simp [cells_replicate] at he

end IndexOk

/-! ## §3. Growing. -/

theorem indexed_iff_mem (buckets : List Bucket) :
    Indexed buckets p t ↔ ∃ bucket ∈ buckets, bucket.entry = some (p, t) := by
  have hat {i : Nat} (hi : i < buckets.length) : bucketAt buckets i = buckets[i] := by
    simp [bucketAt, hi]
  constructor
  · rintro ⟨i, hi, he⟩
    exact ⟨buckets[i], getElem_mem hi, by rwa [cells, hat hi] at he⟩
  · rintro ⟨bucket, hmem, he⟩
    obtain ⟨i, hi, rfl⟩ := getElem_of_mem hmem
    exact ⟨i, hi, by rwa [cells, hat hi]⟩

/-- Two buckets hold different payloads. -/
def Apart (a b : Bucket) : Prop :=
  ∀ p t u, a.entry = some (p, t) → b.entry ≠ some (p, u)

theorem IndexOk.pairwise_apart (h : IndexOk buckets shift) : buckets.Pairwise Apart := by
  rw [pairwise_iff_getElem]
  intro i j hi hj hij p t u ha hb
  have hat {i : Nat} (hi : i < buckets.length) : bucketAt buckets i = buckets[i] := by
    simp [bucketAt, hi]
  refine hij.ne (h.distinct i hi j hj (p, t) (p, u) ?_ ?_ rfl)
  · rw [cells, hat hi, ha]
  · rw [cells, hat hj, hb]

/-- Every old bucket finds a place. -/
theorem IndexOk.placeAll (old : List Bucket)
    (h : IndexOk buckets shift) (hroom : occupied buckets + old.length < buckets.length)
    (hold : old.Pairwise Apart)
    (hnew : ∀ bucket ∈ old, ∀ p t u, bucket.entry = some (p, t) → ¬ Indexed buckets p u) :
    ∃ buckets', Days.placeAll shift buckets old = some buckets' ∧ IndexOk buckets' shift ∧
      buckets'.length = buckets.length ∧ occupied buckets' = occupied buckets + occupied old ∧
      ∀ q u, Indexed buckets' q u ↔ Indexed buckets q u ∨ Indexed old q u := by
  induction old generalizing buckets with
  | nil =>
    refine ⟨buckets, rfl, h, rfl, rfl, fun q u => ?_⟩
    rw [indexed_iff_mem []]
    simp
  | cons bucket old ih =>
    rw [pairwise_cons] at hold
    rw [length_cons] at hroom
    by_cases hslot : bucket.slot = emptySlot
    · have hentry := Bucket.entry_eq_none.2 hslot
      obtain ⟨buckets', hall, hok, hlength, hcount, hindexed⟩ := ih h (by omega) hold.2
        fun b hb => hnew b (mem_cons_of_mem _ hb)
      refine ⟨buckets', ?_, hok, hlength, ?_, fun q u => ?_⟩
      · rw [Days.placeAll, if_pos hslot, hall]
      · rw [hcount, occupied, occupied, occupied, countP_cons]
        simp [hslot]
      · rw [hindexed, indexed_iff_mem (bucket :: old), indexed_iff_mem old]
        simp [hentry]
    · have hentry : bucket.entry = some (bucket.payload, bucket.slot) :=
        Bucket.entry_eq_some.2 ⟨rfl, rfl, hslot⟩
      obtain ⟨placed, hplace, hok, hlength, hcount, hindexed⟩ := h.place (by omega)
        (fun u => hnew bucket mem_cons_self _ _ u hentry) hslot
      obtain ⟨buckets', hall, hok', hlength', hcount', hindexed'⟩ := ih hok (by omega) hold.2
        (by
          intro b hb p t u he
          rw [hindexed]
          rintro (hin | ⟨rfl, rfl⟩)
          · exact hnew b (mem_cons_of_mem _ hb) p t u he hin
          · exact hold.1 b hb _ _ t hentry he)
      refine ⟨buckets', ?_, hok', hlength'.trans hlength, ?_, fun q u => ?_⟩
      · rw [Days.placeAll, if_neg hslot, hplace]
        exact hall
      · rw [hcount', hcount, occupied, occupied, occupied, countP_cons]
        simp [hslot]
        omega
      · rw [hindexed', hindexed, indexed_iff_mem (bucket :: old),
          indexed_iff_mem old]
        simp only [mem_cons, exists_eq_or_imp, hentry, Option.some.injEq, Prod.mk.injEq]
        tauto

/-! ## §4. Shifting back. -/

/-- The source's test for a home in `(hole, next]`, around the end of the table. -/
theorem stays_iff {n hole d home : Nat} (hhole : hole < n) (hd : d < n) (hhome : home < n) :
    (if hole ≤ (hole + d) % n then hole < home ∧ home ≤ (hole + d) % n
      else hole < home ∨ home ≤ (hole + d) % n) ↔
    ∃ t, 0 < t ∧ t ≤ d ∧ home = (hole + t) % n := by
  have hmod {x : Nat} (hx : x < n) : (hole + x) % n = if hole + x < n then hole + x else hole + x - n := by
    split
    · next hlt => exact Nat.mod_eq_of_lt hlt
    · next hge =>
      rw [Nat.mod_eq_sub_mod (by omega), Nat.mod_eq_of_lt (by omega)]
  rw [hmod hd]
  constructor
  · intro hstays
    refine ⟨if hole < home then home - hole else home + n - hole, ?_⟩
    split at hstays <;> split at hstays <;> split <;> first
      | omega
      | (refine ⟨by omega, by omega, ?_⟩
         rw [hmod (by omega)]
         split <;> omega)
  · rintro ⟨t, ht, htd, rfl⟩
    rw [hmod (by omega)]
    split <;> split <;> split <;> omega

/-- The payload is in a bucket other than the hole. -/
def IndexedOff (buckets : List Bucket) (hole p t : Nat) : Prop :=
  ∃ i < buckets.length, i ≠ hole ∧ cells buckets i = some (p, t)

/-- The loop with its hole, the bucket `d` steps ahead of it to look at, and an empty bucket `z`
    steps ahead. -/
structure Shifting (buckets : List Bucket) (shift hole d z : Nat) : Prop where
  size : ∃ k, 0 < k ∧ buckets.length = 2 ^ k ∧ shift = 64 - k
  gap : Lib.Gap buckets.length (homeOf shift) (cells buckets) hole d
  distinct : ∀ i < buckets.length, ∀ j < buckets.length, i ≠ hole → j ≠ hole → ∀ e e',
    cells buckets i = some e → cells buckets j = some e' → e.1 = e'.1 → i = j
  full : cells buckets hole ≠ none
  ends : cells buckets ((hole + z) % buckets.length) = none
  le : d ≤ z
  lt : z < buckets.length

namespace Shifting

variable {buckets : List Bucket} {shift hole d z : Nat}

section

variable (h : Shifting buckets shift hole d z)

include h

theorem ahead_lt : (hole + d) % buckets.length < buckets.length :=
  Nat.mod_lt _ (length_pos_of_size h.size)

theorem ahead_ne : (hole + d) % buckets.length ≠ hole :=
  h.gap.ahead_ne (h.le.trans_lt h.lt)

/-- The run ends here: the hole becomes an empty bucket. -/
theorem finish (hnone : cells buckets ((hole + d) % buckets.length) = none) :
    IndexOk (buckets.set hole emptyBucket) shift ∧
      occupied (buckets.set hole emptyBucket) + 1 = occupied buckets ∧
      ∀ p t, Indexed (buckets.set hole emptyBucket) p t ↔ IndexedOff buckets hole p t := by
  have hcells : cells (buckets.set hole emptyBucket) = update (cells buckets) hole none := by
    rw [cells_set h.gap.lt]
    rfl
  have hcases {j : Nat} {e : Nat × Nat} (he : cells (buckets.set hole emptyBucket) j = some e) :
      j ≠ hole ∧ cells buckets j = some e := by
    rw [hcells] at he
    have hj : j ≠ hole := by
      rintro rfl
      simp at he
    exact ⟨hj, by rwa [update_of_ne hj] at he⟩
  refine ⟨⟨by simpa using h.size, ?_, ?_⟩, ?_, fun p t => ?_⟩
  · rw [length_set, hcells]
    exact h.gap.finish (h.le.trans_lt h.lt) hnone
  · intro i hi j hj e e' he he' hkey
    rw [length_set] at hi hj
    exact h.distinct i hi j hj (hcases he).1 (hcases he').1 e e' (hcases he).2 (hcases he').2 hkey
  · have hcount := occupied_set h.gap.lt emptyBucket
    simpa [h.full, emptyBucket, Bucket.entry] using hcount
  · unfold Indexed IndexedOff
    rw [length_set]
    constructor
    · rintro ⟨i, hi, he⟩
      exact ⟨i, hi, hcases he⟩
    · rintro ⟨i, hi, hne, he⟩
      exact ⟨i, hi, by rw [hcells, update_of_ne hne, he]⟩

/-- The bucket ahead moves into the hole and leaves one behind. -/
theorem move (hdz : d < z) (hentry : bucket.entry = some (p, t))
    (hat : cells buckets ((hole + d) % buckets.length) = some (p, t))
    (hhome : ∀ t, 0 < t → t ≤ d → (hole + t) % buckets.length ≠ bucketOf p shift) :
    Shifting (buckets.set hole bucket) shift ((hole + d) % buckets.length) 1 (z - d) ∧
      occupied (buckets.set hole bucket) = occupied buckets ∧
      ∀ q u, IndexedOff (buckets.set hole bucket) ((hole + d) % buckets.length) q u ↔
        IndexedOff buckets hole q u := by
  have hcells : cells (buckets.set hole bucket) = update (cells buckets) hole (some (p, t)) := by
    rw [cells_set h.gap.lt, hentry]
  have hcases {j : Nat} {e : Nat × Nat} (he : cells (buckets.set hole bucket) j = some e) :
      (j = hole ∧ cells buckets ((hole + d) % buckets.length) = some e) ∨
        (j ≠ hole ∧ cells buckets j = some e) := by
    rw [hcells] at he
    by_cases hjh : j = hole
    · subst hjh
      rw [update_self] at he
      exact .inl ⟨rfl, hat.trans he⟩
    · rw [update_of_ne hjh] at he
      exact .inr ⟨hjh, he⟩
  refine ⟨⟨by simpa using h.size, ?_, ?_, ?_, ?_, by omega, ?_⟩, ?_, fun q u => ?_⟩
  · rw [length_set, hcells]
    exact h.gap.move (hdz.trans h.lt) hat hhome (bucketOf_lt h.size p)
  · intro i hi j hj hi' hj' e e' he he' hkey
    rw [length_set] at hi hj
    rcases hcases he with ⟨hih, hold⟩ | ⟨hih, hold⟩ <;> rcases hcases he' with ⟨hjh, hold'⟩ | ⟨hjh, hold'⟩
    · exact hih.trans hjh.symm
    · exact absurd (h.distinct _ h.ahead_lt j hj h.ahead_ne hjh e e' hold hold' hkey).symm hj'
    · exact absurd (h.distinct i hi _ h.ahead_lt hih h.ahead_ne e e' hold hold' hkey) hi'
    · exact h.distinct i hi j hj hih hjh e e' hold hold' hkey
  · rw [hcells, update_of_ne h.ahead_ne, hat]
    simp
  · have hzhole : ((hole + d) % buckets.length + (z - d)) % buckets.length =
        (hole + z) % buckets.length := by
      rw [Nat.mod_add_mod]
      congr 1
      omega
    have hzne : (hole + z) % buckets.length ≠ hole := fun heq => h.full (heq ▸ h.ends)
    rw [length_set, hzhole, hcells, update_of_ne hzne, h.ends]
  · have := h.lt
    rw [length_set]
    omega
  · have hset := occupied_set h.gap.lt bucket
    rw [if_neg h.full, if_neg (by simp [hentry])] at hset
    omega
  · unfold IndexedOff
    rw [length_set]
    constructor
    · rintro ⟨i, hi, hne, he⟩
      rcases hcases he with ⟨-, hold⟩ | ⟨hih, hold⟩
      · exact ⟨_, h.ahead_lt, h.ahead_ne, hold⟩
      · exact ⟨i, hi, hih, hold⟩
    · rintro ⟨i, hi, hih, he⟩
      by_cases hi' : i = (hole + d) % buckets.length
      · subst hi'
        refine ⟨hole, h.gap.lt, h.ahead_ne.symm, ?_⟩
        rw [hcells, update_self, ← hat, he]
      · exact ⟨i, hi, hi', by rw [hcells, update_of_ne hih, he]⟩

/-- The hole travels to the end of its probe run. -/
theorem shiftBack {fuel : Nat} (hfuel : z - d < fuel) :
    ∃ buckets', Days.shiftBack shift fuel buckets hole ((hole + d) % buckets.length) = some buckets' ∧
      IndexOk buckets' shift ∧ buckets'.length = buckets.length ∧
      occupied buckets' + 1 = occupied buckets ∧
      ∀ p t, Indexed buckets' p t ↔ IndexedOff buckets hole p t := by
  induction fuel generalizing buckets hole d z with
  | zero => omega
  | succ fuel ih =>
    have hnext : nextIndex buckets ((hole + d) % buckets.length) =
        (hole + (d + 1)) % buckets.length := by
      rw [nextIndex_eq h.size, Nat.mod_add_mod]
      rfl
    rw [Days.shiftBack]
    by_cases hempty : (bucketAt buckets ((hole + d) % buckets.length)).slot = emptySlot
    · obtain ⟨hok, hcount, hindexed⟩ := h.finish (Bucket.entry_eq_none.2 hempty)
      exact ⟨_, if_pos hempty, hok, by simp, hcount, hindexed⟩
    · rw [if_neg hempty]
      have hentry : (bucketAt buckets ((hole + d) % buckets.length)).entry = some (_, _) :=
        Bucket.entry_eq_some.2 ⟨rfl, rfl, hempty⟩
      have hdz : d < z := by
        refine lt_of_le_of_ne h.le ?_
        rintro rfl
        cases h.ends.symm.trans hentry
      have hstays := stays_iff h.gap.lt (hdz.trans h.lt)
        (bucketOf_lt h.size (bucketAt buckets ((hole + d) % buckets.length)).payload)
      by_cases hhome : ∃ t, 0 < t ∧ t ≤ d ∧
          bucketOf (bucketAt buckets ((hole + d) % buckets.length)).payload shift =
            (hole + t) % buckets.length
      · have hif := hstays.2 hhome
        obtain ⟨t, ht, htd, heq⟩ := hhome
        have hgap := h.gap.stay (hdz.trans h.lt) ht htd hentry heq
        obtain ⟨buckets', hrun, hrest⟩ :=
          ih ⟨h.size, hgap, h.distinct, h.full, h.ends, hdz, h.lt⟩ (by omega)
        exact ⟨buckets', (if_pos hif).trans (by rw [hnext, hrun]), hrest⟩
      · have hif := fun hstay => hhome (hstays.1 hstay)
        obtain ⟨hmoved, hcount, hoff⟩ := h.move hdz hentry hentry
          fun t ht htd heq => hhome ⟨t, ht, htd, heq.symm⟩
        obtain ⟨buckets', hrun, hok, hlength, hcount', hindexed⟩ := ih hmoved (by omega)
        rw [length_set] at hlength
        refine ⟨buckets', (if_neg hif).trans ?_, hok, hlength, by omega, fun p t => ?_⟩
        · rw [length_set, Nat.mod_add_mod] at hrun
          rw [hnext]
          exact hrun
        · rw [hindexed, hoff]

end

end Shifting

/-- An entry is taken out of the index. -/
theorem IndexOk.remove {hole : Nat} (h : IndexOk buckets shift)
    (hroom : occupied buckets < buckets.length) (hlt : hole < buckets.length)
    (hhole : cells buckets hole = some (p, t)) :
    ∃ buckets', shiftBack shift buckets.length buckets hole (nextIndex buckets hole) = some buckets' ∧
      IndexOk buckets' shift ∧ buckets'.length = buckets.length ∧
      occupied buckets' + 1 = occupied buckets ∧
      ∀ q u, Indexed buckets' q u ↔ Indexed buckets q u ∧ q ≠ p := by
  obtain ⟨e, he, hempty⟩ := exists_empty hroom
  obtain ⟨z, hz, rfl⟩ := Lib.exists_add_mod_eq hlt he
  have hpos : 1 ≤ z := by
    by_contra hzero
    obtain rfl : z = 0 := by omega
    rw [Nat.add_zero, Nat.mod_eq_of_lt hlt, hhole] at hempty
    cases hempty
  have hstart : Shifting buckets shift hole 1 z :=
    ⟨h.size, .start h.reach hlt, fun i hi j hj _ _ => h.distinct i hi j hj, by simp [hhole], hempty,
      hpos, hz⟩
  have hfuel : z - 1 < buckets.length := by omega
  obtain ⟨buckets', hrun, hok, hlength, hcount, hindexed⟩ := hstart.shiftBack hfuel
  refine ⟨buckets', by rw [nextIndex_eq h.size, hrun], hok, hlength, hcount, fun q u => ?_⟩
  rw [hindexed]
  constructor
  · rintro ⟨i, hi, hne, hat⟩
    refine ⟨⟨i, hi, hat⟩, ?_⟩
    rintro rfl
    exact hne (h.distinct i hi hole hlt _ _ hat hhole rfl)
  · rintro ⟨⟨i, hi, hat⟩, hne⟩
    refine ⟨i, hi, ?_, hat⟩
    rintro rfl
    rw [hhole] at hat
    cases hat
    exact hne rfl

end Days
