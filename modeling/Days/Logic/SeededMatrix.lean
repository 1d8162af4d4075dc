/-
  Days.Logic.SeededMatrix — what the seeded routing matrix accounts for.

  The shuffle permutes the experts, so the weights have a positive total and every draw
  finds an expert; each source's row and its own copies are then all of its copies.
  Main result: `seeded_matrix_accounts`.
-/
import Days.Exec.SeededMatrix
import Days.Lib.Digits
import Mathlib.Algebra.Order.BigOperators.Group.Finset
import Mathlib.Algebra.BigOperators.Ring.Finset
import Mathlib.Data.List.TakeWhile
import Mathlib.Tactic.Ring

namespace Days

open List Option Finset SeededAllToAll Lib

variable {cumulative : List Nat} {a : SeededAllToAll}

/-! ## §1. Lists of answers. -/

/-- A traversal that answers answers for every element. -/
theorem mapM_eq_some_iff {α β : Type} {f : α → Option β} {l : List α} {out : List β} :
    l.mapM f = some out ↔ l.map f = out.map some := by
  induction l generalizing out with
  | nil =>
    constructor
    · intro h
      cases h
      rfl
    · intro h
      rw [map_nil, eq_comm, map_eq_nil_iff] at h
      rw [h]
      rfl
  | cons a l ih =>
    rw [mapM_cons]
    cases ha : f a with
    | none => cases out <;> simp [ha]
    | some b =>
      simp only [Option.bind_eq_bind, Option.bind_some, Option.pure_def, Option.bind_eq_some_iff,
        Option.some.injEq, List.map_cons, ha]
      cases out with
      | nil => simp
      | cons c out =>
        rw [List.map_cons, List.cons.injEq, Option.some.injEq, ← ih]
        constructor
        · rintro ⟨rest, hrest, heq⟩
          cases heq
          exact ⟨rfl, hrest⟩
        · rintro ⟨rfl, hrest⟩
          exact ⟨out, hrest, rfl⟩

/-! ## §2. Popularity. -/

/-- The shuffle permutes. -/
theorem shuffle_perm (index state : Nat) (order : Array Nat) :
    (shuffle index state order).Perm order := by
  induction index generalizing state order with
  | zero => exact .refl order
  | succ index ih =>
    refine (ih _ _).trans ?_
    unfold Array.swapIfInBounds
    split
    · split
      · exact Array.swap_perm _ _
      · exact .refl order
    · exact .refl order

theorem SeededAllToAll.order_perm (a : SeededAllToAll) : a.order.toList.Perm (range a.experts) := by
  have h := (shuffle_perm (a.experts - 1) (mix (Nat.xor a.key 0x5045524d))
    (Array.range a.experts)).toList
  rwa [Array.toList_range] at h

theorem weight_zero_pos (skew : RoutingSkew) : 0 < skew.weight 0 := by
  cases skew <;> decide

/-- One bound an expert, the total last, and every weight counted. -/
theorem cumulate_spec {skew : RoutingSkew} {popularities : List Nat} {total last : Nat}
    (h : cumulate skew popularities total = some (cumulative, last)) :
    cumulative.length = popularities.length ∧ (popularities ≠ [] → last ∈ cumulative) ∧
      total ≤ last ∧ ∀ p ∈ popularities, skew.weight p ≤ last := by
  induction popularities generalizing total cumulative last with
  | nil =>
    cases h
    simp
  | cons p rest ih =>
    unfold cumulate at h
    simp only [Option.bind_eq_bind, Option.bind_eq_some_iff, Option.pure_def, Option.some.injEq,
      Prod.exists, Prod.mk.injEq] at h
    obtain ⟨sum, hsum, tail, last', htail, rfl, rfl⟩ := h
    obtain ⟨rfl, -⟩ := checkedAdd_eq_some hsum
    obtain ⟨hlength, hlast, hle, hweights⟩ := ih htail
    refine ⟨by simp [hlength], fun _ => ?_, by omega, ?_⟩
    · cases rest with
      | nil =>
        cases htail
        simp
      | cons q rest => exact mem_cons_of_mem _ (hlast (by simp))
    · intro q hq
      rcases mem_cons.1 hq with rfl | hq
      · omega
      · exact hweights q hq

/-- A draw below the total finds a bound above it. -/
theorem partitionPoint_lt {draw last : Nat} (hlast : last ∈ cumulative) (hdraw : draw < last) :
    partitionPoint cumulative draw < cumulative.length := by
  refine lt_of_le_of_ne ( takeWhile_prefix _).length_le fun heq => ?_
  have hall : cumulative.takeWhile (· ≤ draw) = cumulative :=
    ( takeWhile_prefix _).eq_of_length heq
  rw [← hall] at hlast
  have hle := mem_takeWhile_imp hlast
  simp only [decide_eq_true_eq] at hle
  omega

theorem drawExperts_lt {total : Nat} (hlast : total ∈ cumulative) (htotal : 0 < total)
    (copies state : Nat) :
    ∀ expert ∈ drawExperts cumulative total copies state, expert < cumulative.length := by
  induction copies generalizing state with
  | zero => simp [drawExperts]
  | succ copies ih =>
    intro expert hexpert
    rcases mem_cons.1 hexpert with rfl | hexpert
    · exact partitionPoint_lt hlast (Nat.mod_lt _ htotal)
    · exact ih _ expert hexpert

theorem drawExperts_length (cumulative : List Nat) (total copies state : Nat) :
    (drawExperts cumulative total copies state).length = copies := by
  induction copies generalizing state with
  | zero => rfl
  | succ copies ih => exact congrArg (· + 1) (ih _)

/-- Every expert a source draws is one of the experts. -/
theorem SeededAllToAll.drawn_lt (hexperts : 0 < a.experts) {weights : List Nat × Nat}
    (hweights : cumulate a.skew a.order.toList 0 = some weights) (copies source : Nat) :
    ∀ expert ∈ a.drawn weights copies source, expert < a.experts := by
  obtain ⟨cumulative, last⟩ := weights
  obtain ⟨hlength, hlast, -, hpositive⟩ := cumulate_spec hweights
  have horder := a.order_perm
  have hzero : 0 ∈ a.order.toList := horder.mem_iff.2 (List.mem_range.2 hexperts)
  have htotal : 0 < last := (weight_zero_pos a.skew).trans_le (hpositive 0 hzero)
  rw [horder.length_eq, length_range] at hlength
  rw [← hlength]
  exact drawExperts_lt (hlast (ne_nil_of_mem hzero)) htotal copies _

/-! ## §3. The counts. -/

/-- The copies of a list of experts that land on a rank. -/
def landed (perRank : Nat) (experts : List Nat) (target : Nat) : Nat :=
  (experts.map (· / perRank)).count target

section Counts

variable {perRank ranks source : Nat}

theorem tally_length (counts : List Nat) (experts : List Nat) :
    (experts.foldl (tally perRank ranks source) counts).length = counts.length := by
  induction experts generalizing counts with
  | nil => rfl
  | cons expert experts ih =>
    rw [foldl_cons, ih]
    unfold tally
    dsimp only
    split
    · rw [length_modify]
    · rfl

/-- The draws of one source add to its own row only, off the diagonal. -/
theorem tally_getD {counts : List Nat} (hlength : counts.length = ranks * ranks)
    (hsource : source < ranks) (experts : List Nat) (hexperts : ∀ e ∈ experts, e / perRank < ranks)
    {s t : Nat} (hs : s < ranks) (ht : t < ranks) :
    (experts.foldl (tally perRank ranks source) counts).getD (s * ranks + t) 0 =
      counts.getD (s * ranks + t) 0 +
        if s = source ∧ t ≠ source then landed perRank experts t else 0 := by
  induction experts generalizing counts with
  | nil => simp [landed]
  | cons expert experts ih =>
    have htarget := hexperts expert mem_cons_self
    have hcell : s * ranks + t < counts.length := hlength ▸ digits_lt hs ht
    have hstep : (tally perRank ranks source counts expert).getD (s * ranks + t) 0 =
        counts.getD (s * ranks + t) 0 +
          if s = source ∧ t ≠ source ∧ expert / perRank = t then 1 else 0 := by
      unfold tally
      by_cases hself : expert / perRank = source
      · rw [if_neg (by simpa using hself), if_neg (by omega), Nat.add_zero]
      · rw [if_pos hself, getD_eq_getElem?_getD, getElem?_modify,
          getElem?_eq_getElem hcell, getD_eq_getElem?_getD, getElem?_eq_getElem hcell]
        simp only [Option.map_eq_map, Option.map_some, Option.getD_some]
        by_cases hhit : source * ranks + expert / perRank = s * ranks + t
        · obtain ⟨rfl, rfl⟩ := digits_inj htarget ht hhit
          simp [hself]
        · have hmiss : ¬ (s = source ∧ t ≠ source ∧ expert / perRank = t) := by
            rintro ⟨rfl, -, rfl⟩
            exact hhit rfl
          rw [if_neg hhit, if_neg hmiss, Nat.add_zero]
    have hlength' : (SeededAllToAll.tally perRank ranks source counts expert).length =
        ranks * ranks := (tally_length counts [expert]).trans hlength
    rw [foldl_cons, ih hlength' fun e he => hexperts e (mem_cons_of_mem _ he), hstep]
    have hcons : landed perRank (expert :: experts) t =
        landed perRank experts t + if expert / perRank = t then 1 else 0 := by
      simp [landed, count_cons]
    rw [hcons]
    by_cases hrow : s = source ∧ t ≠ source
    · rw [if_pos hrow, if_pos hrow]
      by_cases hhit : expert / perRank = t
      · rw [if_pos ⟨hrow.1, hrow.2, hhit⟩, if_pos hhit]
        omega
      · rw [if_neg fun h => hhit h.2.2, if_neg hhit]
        omega
    · rw [if_neg fun h => hrow ⟨h.1, h.2.1⟩, if_neg hrow, if_neg hrow]

end Counts

/-- The cells that the first `sources` rows have filled. -/
theorem rows_getD {ranks perRank sources : Nat} (drawn : Nat → List Nat) (hsources : sources ≤ ranks)
    (hdrawn : ∀ source < ranks, ∀ e ∈ drawn source, e / perRank < ranks) :
    ((List.range sources).foldl (fun counts source =>
        (drawn source).foldl (tally perRank ranks source) counts)
      (replicate (ranks * ranks) 0)).length = ranks * ranks ∧
    ∀ s < ranks, ∀ t < ranks,
      ((List.range sources).foldl (fun counts source =>
          (drawn source).foldl (tally perRank ranks source) counts)
        (replicate (ranks * ranks) 0)).getD (s * ranks + t) 0 =
        if s < sources ∧ t ≠ s then landed perRank (drawn s) t else 0 := by
  induction sources with
  | zero =>
    simp only [List.range_zero, List.foldl_nil, List.length_replicate, Nat.not_lt_zero, false_and,
      if_false, true_and, List.getD_eq_getElem?_getD, List.getElem?_replicate]
    intro s _ t _
    split <;> rfl
  | succ sources ih =>
    obtain ⟨hlength, hcells⟩ := ih (by omega)
    rw [range_succ, foldl_append, foldl_cons, foldl_nil]
    refine ⟨(tally_length _ _).trans hlength, fun s hs t ht => ?_⟩
    rw [tally_getD hlength (by omega) _ (hdrawn sources (by omega)) hs ht, hcells s hs t ht]
    by_cases hrow : s = sources
    · subst hrow
      simp
    · have hlt : s < sources + 1 ↔ s < sources := by omega
      simp [hrow, hlt]

/-- Off-diagonal cells and the source's own copies make up all of its copies. -/
theorem row_sum {ranks perRank source : Nat} {experts : List Nat} (hsource : source < ranks)
    (hexperts : ∀ e ∈ experts, e / perRank < ranks) :
    (∑ t ∈ range ranks, if t ≠ source then landed perRank experts t else 0) +
      landed perRank experts source = experts.length := by
  have hall : ∑ t ∈ range ranks, landed perRank experts t = experts.length := by
    have hcount := Multiset.sum_count_eq_card (s := Finset.range ranks)
      (m := (experts.map (· / perRank) : Multiset Nat)) (by
        intro t ht
        rw [Multiset.mem_coe, List.mem_map] at ht
        obtain ⟨e, he, rfl⟩ := ht
        exact Finset.mem_range.2 (hexperts e he))
    simpa [landed] using hcount
  have hown : ∑ t ∈ range ranks, (if t = source then landed perRank experts t else 0) =
      landed perRank experts source := by
    rw [sum_ite_eq' (range ranks) source, if_pos (Finset.mem_range.2 hsource)]
  rw [← hall, ← hown, ← sum_add_distrib]
  refine sum_congr rfl fun t _ => ?_
  by_cases h : t = source <;> simp [h]

/-! ## §4. The matrix. -/

namespace SeededAllToAll

/-- What a table of counts is: every source draws its copies among the experts, and the cell of
a target holds the copies that landed on it, with nothing on the diagonal. -/
theorem counts_spec {ranks : Nat} {counts : List Nat} (h : a.counts ranks = some counts) :
    ∃ weights, cumulate a.skew a.order.toList 0 = some weights ∧
      ∀ source < ranks,
        (∀ expert ∈ a.drawn weights (a.tokens * a.topk) source,
          expert < a.experts ∧ expert / (a.experts / ranks) < ranks) ∧
        ∀ target < ranks, counts.getD (source * ranks + target) 0 =
          if target ≠ source then
            landed (a.experts / ranks) (a.drawn weights (a.tokens * a.topk) source) target
          else 0 := by
  unfold SeededAllToAll.counts at h
  split at h
  · cases h
  · next hvalid =>
    simp only [not_or, not_not] at hvalid
    obtain ⟨-, hexperts, hmultiple⟩ := hvalid
    simp only [Option.bind_eq_bind, Option.bind_eq_some_iff, Option.pure_def,
      Option.some.injEq] at h
    obtain ⟨weights, hweights, copies, hcopies, rfl⟩ := h
    obtain ⟨rfl, -⟩ := checkedMul_eq_some hcopies
    have hsplit : a.experts = ranks * (a.experts / ranks) :=
      (Nat.mul_div_cancel' (Nat.dvd_of_mod_eq_zero hmultiple)).symm
    have hdrawn : ∀ source, ∀ expert ∈ a.drawn weights (a.tokens * a.topk) source,
        expert < a.experts ∧ expert / (a.experts / ranks) < ranks := by
      intro source expert hexpert
      have hlt := drawn_lt (Nat.pos_of_ne_zero hexperts) hweights (a.tokens * a.topk) source expert
        hexpert
      refine ⟨hlt, Nat.div_lt_of_lt_mul ?_⟩
      rw [mul_comm, ← hsplit]
      exact hlt
    have hcells := (rows_getD (a.drawn weights (a.tokens * a.topk)) le_rfl
      fun source _ expert hexpert => (hdrawn source expert hexpert).2).2
    refine ⟨weights, hweights, fun source hsource => ⟨hdrawn source, fun target htarget => ?_⟩⟩
    rw [hcells source hsource target htarget]
    simp [hsource]

/-- The bytes of a cell are its copies, read across the diagonal under the transpose flag. -/
theorem bytes_spec {ranks : Nat} {bytes : List Nat} (h : a.bytes ranks = some bytes) :
    ∃ counts, a.counts ranks = some counts ∧ bytes.length = ranks * ranks ∧
      ∀ source < ranks, ∀ target < ranks, bytes.getD (source * ranks + target) 0 =
        (if a.transpose then counts.getD (target * ranks + source) 0
          else counts.getD (source * ranks + target) 0) * a.bytesPerCopy ∧
        bytes.getD (source * ranks + target) 0 < width 64 := by
  unfold SeededAllToAll.bytes at h
  simp only [bind_eq_bind, bind_eq_some_iff] at h
  obtain ⟨counts, hcounts, hbytes⟩ := h
  rw [mapM_eq_some_iff] at hbytes
  have hlength : bytes.length = ranks * ranks := by
    have := congrArg length hbytes
    simpa using this.symm
  refine ⟨counts, hcounts, hlength, fun source hsource target htarget => ?_⟩
  have hcell := digits_lt hsource htarget
  have hat := congrArg (·[source * ranks + target]?) hbytes
  simp only [getElem?_map, getElem?_range hcell, map_some, digits_div htarget,
    digits_mod htarget] at hat
  rw [getElem?_eq_getElem (by omega), map_some, some.injEq] at hat
  rw [getD_eq_getElem?_getD, getElem?_eq_getElem (by omega), getD_some]
  exact checkedMul_eq_some hat

/-- The flag does not enter the counts. -/
theorem counts_transpose (a : SeededAllToAll) (flag : Bool) (ranks : Nat) :
    ({ a with transpose := flag } : SeededAllToAll).counts ranks = a.counts ranks := rfl

/-- The matrix answers under one flag if it answers under the other: the products are the same. -/
theorem bytes_flag {ranks : Nat} {bytes : List Nat} (h : a.bytes ranks = some bytes) (flag : Bool) :
    ∃ other, ({ a with transpose := flag } : SeededAllToAll).bytes ranks = some other := by
  obtain ⟨counts, hcounts, -, hcells⟩ := bytes_spec h
  have hfits : ∀ s < ranks, ∀ t < ranks,
      counts.getD (s * ranks + t) 0 * a.bytesPerCopy < width 64 := by
    intro s hs t ht
    cases hflag : a.transpose with
    | false =>
      obtain ⟨hcell, hlt⟩ := hcells s hs t ht
      rw [hcell, hflag] at hlt
      simpa using hlt
    | true =>
      obtain ⟨hcell, hlt⟩ := hcells t ht s hs
      rw [hcell, hflag] at hlt
      simpa using hlt
  have hanswers : ∀ i ∈ List.range (ranks * ranks), checkedMul 64
      (if flag then counts.getD (i % ranks * ranks + i / ranks) 0
        else counts.getD (i / ranks * ranks + i % ranks) 0) a.bytesPerCopy =
      some ((if flag then counts.getD (i % ranks * ranks + i / ranks) 0
        else counts.getD (i / ranks * ranks + i % ranks) 0) * a.bytesPerCopy) := by
    intro i hi
    rw [List.mem_range] at hi
    have hpos : 0 < ranks := Nat.pos_of_ne_zero fun hzero => by simp [hzero] at hi
    have hdiv : i / ranks < ranks := Nat.div_lt_of_lt_mul hi
    have hmod : i % ranks < ranks := Nat.mod_lt i hpos
    refine if_pos ?_
    split
    · exact hfits _ hmod _ hdiv
    · exact hfits _ hdiv _ hmod
  refine ⟨(List.range (ranks * ranks)).map fun i =>
    (if flag then counts.getD (i % ranks * ranks + i / ranks) 0
      else counts.getD (i / ranks * ranks + i % ranks) 0) * a.bytesPerCopy, ?_⟩
  unfold SeededAllToAll.bytes
  rw [counts_transpose, hcounts]
  simp only [Option.bind_eq_bind, Option.bind_some]
  rw [mapM_eq_some_iff, List.map_map]
  exact List.map_congr_left hanswers

end SeededAllToAll

/-- A matrix that is answered is zero on its diagonal.  Every source drew its copies among the
experts, and its row of counts with its own copies is exactly `tokens * topk`, so without the
transpose flag no row exceeds the routed bytes.  With the flag the matrix is the transpose of the
one without it. -/
theorem seeded_matrix_accounts (a : SeededAllToAll) (ranks : Nat) (bytes : List Nat)
    (h : a.bytes ranks = some bytes) :
    bytes.length = ranks * ranks ∧
    (∀ r < ranks, bytes.getD (r * ranks + r) 0 = 0) ∧
    (∃ counts weights, a.counts ranks = some counts ∧
      cumulate a.skew a.order.toList 0 = some weights ∧
      ∀ source < ranks,
        (∀ expert ∈ a.drawn weights (a.tokens * a.topk) source, expert < a.experts) ∧
        (∑ target ∈ Finset.range ranks, counts.getD (source * ranks + target) 0) +
            landed (a.experts / ranks) (a.drawn weights (a.tokens * a.topk) source) source =
          a.tokens * a.topk ∧
        (a.transpose = false →
          ∀ target < ranks, bytes.getD (source * ranks + target) 0 =
            counts.getD (source * ranks + target) 0 * a.bytesPerCopy)) ∧
    (a.transpose = false → ∀ routed, a.routedBytesPerSource = some routed → ∀ source < ranks,
      ∑ target ∈ Finset.range ranks, bytes.getD (source * ranks + target) 0 ≤ routed) ∧
    (∃ flagged plain, ({ a with transpose := true } : SeededAllToAll).bytes ranks = some flagged ∧
      ({ a with transpose := false } : SeededAllToAll).bytes ranks = some plain ∧
      ∀ source < ranks, ∀ target < ranks,
        flagged.getD (source * ranks + target) 0 = plain.getD (target * ranks + source) 0) := by
  obtain ⟨counts, hcounts, hlength, hcells⟩ := bytes_spec h
  obtain ⟨weights, hweights, hrows⟩ := counts_spec hcounts
  have hsum : ∀ source < ranks,
      (∑ target ∈ range ranks, counts.getD (source * ranks + target) 0) +
          landed (a.experts / ranks) (a.drawn weights (a.tokens * a.topk) source) source =
        a.tokens * a.topk := by
    intro source hsource
    obtain ⟨hdrawn, hcounted⟩ := hrows source hsource
    have hall := row_sum hsource fun expert hexpert => (hdrawn expert hexpert).2
    rw [drawn, drawExperts_length, ← drawn] at hall
    rw [sum_congr rfl fun target htarget => hcounted target (mem_range.1 htarget)]
    exact hall
  have hplain (hflag : a.transpose = false) : ∀ source < ranks, ∀ target < ranks,
      bytes.getD (source * ranks + target) 0 =
        counts.getD (source * ranks + target) 0 * a.bytesPerCopy := by
    intro source hsource target htarget
    rw [(hcells source hsource target htarget).1, hflag]
    simp
  refine ⟨hlength, fun r hr => ?_, ⟨counts, weights, hcounts, hweights, fun source hsource =>
    ⟨fun expert hexpert => ((hrows source hsource).1 expert hexpert).1, hsum source hsource,
      fun hflag => hplain hflag source hsource⟩⟩, fun hflag routed hrouted source hsource => ?_, ?_⟩
  · -- the diagonal cell is read as itself under either flag
    rw [(hcells r hr r hr).1, ite_self, (hrows r hr).2 r hr]
    simp
  · unfold routedBytesPerSource at hrouted
    simp only [bind_eq_bind, bind_eq_some_iff] at hrouted
    obtain ⟨copies, hcopies, hrouted⟩ := hrouted
    obtain ⟨rfl, -⟩ := checkedMul_eq_some hcopies
    obtain ⟨rfl, -⟩ := checkedMul_eq_some hrouted
    rw [sum_congr rfl fun target htarget =>
      hplain hflag source hsource target (mem_range.1 htarget), ← sum_mul]
    exact Nat.mul_le_mul_right _ (by have := hsum source hsource; omega)
  · obtain ⟨flagged, hflagged⟩ := bytes_flag h true
    obtain ⟨plain, hplain'⟩ := bytes_flag h false
    obtain ⟨counts₁, hcounts₁, -, hcells₁⟩ := bytes_spec hflagged
    obtain ⟨counts₂, hcounts₂, -, hcells₂⟩ := bytes_spec hplain'
    rw [counts_transpose, hcounts] at hcounts₁ hcounts₂
    cases hcounts₁
    cases hcounts₂
    refine ⟨flagged, plain, hflagged, hplain', fun source hsource target htarget => ?_⟩
    rw [(hcells₁ source hsource target htarget).1, (hcells₂ target htarget source hsource).1]
    simp

/-- Two ranks with two experts each and three copies a source: two of the first's copies leave it,
    and one of the second's. -/
theorem seeded_matrix_accounts_small :
    let a : SeededAllToAll := ⟨9, 1, 2, false, 4, 1, 3, 10, .zipf1⟩
    a.bytes 2 = some [0, 20, 10, 0] ∧
      ∃ counts weights, a.counts 2 = some counts ∧ cumulate a.skew a.order.toList 0 = some weights ∧
        ∀ source < 2, (∑ target ∈ Finset.range 2, counts.getD (source * 2 + target) 0) +
          landed (a.experts / 2) (a.drawn weights (a.tokens * a.topk) source) source = a.tokens * a.topk := by
  intro a
  have hbytes : a.bytes 2 = some [0, 20, 10, 0] := by decide +kernel
  obtain ⟨-, -, ⟨counts, weights, hcounts, hweights, hrows⟩, -⟩ := seeded_matrix_accounts a 2 _ hbytes
  exact ⟨hbytes, counts, weights, hcounts, hweights, fun source hsource => (hrows source hsource).2.1⟩

end Days
