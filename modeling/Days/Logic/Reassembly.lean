/-
  Days.Logic.Reassembly — TCP reassembly is the union of the received ranges.

  A receiver keeps the frontier below which every byte has arrived and, above
  it, the ranges that arrived early.  After any list of ranges the frontier is
  the first missing byte and the kept ranges are the maximal intervals of the
  received bytes above it, so neither the order of arrival nor repetition
  leaves a trace.
-/
import Days.Exec.HostTcp
import Days.Lib.Keyed

namespace Days

open List

variable {b : Nat} {range : TcpReceiveRange}

/-! ## §1. Lists of ranges as sets of bytes. -/

/-- A byte of one of the ranges. -/
def Covers (ranges : List TcpReceiveRange) (b : Nat) : Prop :=
  ∃ range ∈ ranges, range.start ≤ b ∧ b < range.stop

@[simp] theorem covers_nil (b : Nat) : ¬ Covers [] b := by simp [Covers]

@[simp] theorem covers_append {as bs : List TcpReceiveRange} :
    Covers (as ++ bs) b ↔ Covers as b ∨ Covers bs b := by
  simp only [Covers, mem_append, or_and_right, exists_or]

@[simp] theorem covers_singleton : Covers [range] b ↔ range.start ≤ b ∧ b < range.stop := by
  simp [Covers]

theorem covers_cons {ranges : List TcpReceiveRange} :
    Covers (range :: ranges) b ↔ (range.start ≤ b ∧ b < range.stop) ∨ Covers ranges b := by
  rw [← singleton_append, covers_append, covers_singleton]

theorem covers_of_perm {as bs : List TcpReceiveRange} (h : as.Perm bs) :
    Covers as b ↔ Covers bs b := by
  simp only [Covers, h.mem_iff]

/-- Nonempty ranges in ascending order, with a missing byte between neighbours. -/
structure Spaced (ranges : List TcpReceiveRange) : Prop where
  nonempty : ∀ range ∈ ranges, range.start < range.stop
  apart : ranges.Pairwise fun a b => a.stop < b.start

/-- A maximal interval of a set of bytes. -/
structure IsRun (S : Set Nat) (start stop : Nat) : Prop where
  lt : start < stop
  inside : ∀ b, start ≤ b → b < stop → b ∈ S
  left : ∀ b, b + 1 = start → b ∉ S
  right : stop ∉ S

namespace Spaced

variable {ranges others : List TcpReceiveRange}

theorem nil : Spaced [] := ⟨by simp, Pairwise.nil⟩

section

variable (h : Spaced ranges)

include h

/-- Two ranges are the same one or have a missing byte between them. -/
theorem eq_or_apart {a b : TcpReceiveRange} (ha : a ∈ ranges) (hb : b ∈ ranges) :
    a = b ∨ a.stop < b.start ∨ b.stop < a.start := by
  by_cases heq : a = b
  · exact .inl heq
  have : Std.Symm fun a b : TcpReceiveRange => a.stop < b.start ∨ b.stop < a.start :=
    ⟨fun _ _ hab => hab.symm⟩
  have happart : ranges.Pairwise fun a b => a.stop < b.start ∨ b.stop < a.start :=
    h.apart.imp .inl
  exact .inr (happart.forall ha hb heq)

theorem isRun (hmem : range ∈ ranges) : IsRun {b | Covers ranges b} range.start range.stop := by
  have hlt := h.nonempty range hmem
  refine ⟨hlt, fun b hstart hstop => ⟨range, hmem, hstart, hstop⟩, ?_, ?_⟩
  · rintro b hb ⟨other, hother, hstart, hstop⟩
    rcases h.eq_or_apart hmem hother with rfl | hafter | hbefore <;> omega
  · rintro ⟨other, hother, hstart, hstop⟩
    rcases h.eq_or_apart hmem hother with rfl | hafter | hbefore <;> omega

/-- The ranges are exactly the maximal intervals of their bytes. -/
theorem mem_iff_isRun : range ∈ ranges ↔ IsRun {b | Covers ranges b} range.start range.stop := by
  refine ⟨h.isRun, fun hrun => ?_⟩
  obtain ⟨other, hother, hstart, hstop⟩ := hrun.inside range.start (le_refl _) hrun.lt
  have hown := h.isRun hother
  have hstarts : other.start = range.start := by
    by_contra hne
    refine hrun.left (range.start - 1) (by omega) (hown.inside _ ?_ ?_) <;> omega
  have hstops : other.stop = range.stop := by
    rcases lt_trichotomy other.stop range.stop with hshort | heq | hlong
    · exact absurd (hrun.inside other.stop (by omega) hshort) hown.right
    · exact heq
    · have hlt := hrun.lt
      exact absurd (hown.inside range.stop (by omega) hlong) hrun.right
  have heq : other = range := by
    cases other
    cases range
    simp_all
  rw [← heq]
  exact hother

theorem strict : ranges.Pairwise fun a b => a.start < b.start :=
  h.apart.imp_of_mem fun ha _ hab => (h.nonempty _ ha).trans hab

/-- Only one list of spaced ranges covers a set. -/
theorem eq_of_covers (hother : Spaced others)
    (heq : ∀ b, Covers ranges b ↔ Covers others b) : ranges = others := by
  have hset : {b | Covers ranges b} = {b | Covers others b} := Set.ext heq
  have hnodup {l : List TcpReceiveRange} (hl : Spaced l) : l.Nodup :=
    hl.strict.imp fun hab => by
      rintro rfl
      exact lt_irrefl _ hab
  refine Lib.eq_of_perm_of_strict TcpReceiveRange.start ?_ h.strict hother.strict
  refine (perm_ext_iff_of_nodup (hnodup h) (hnodup hother)).2 fun range => ?_
  rw [h.mem_iff_isRun, hother.mem_iff_isRun, hset]

theorem sublist (hsub : others.Sublist ranges) : Spaced others :=
  ⟨fun range hr => h.nonempty range (hsub.subset hr), h.apart.sublist hsub⟩

end

end Spaced

/-! ## §2. The two passes of `tcp_receive_range`. -/

/-- The first pass appends one range, or joins it to the last. -/
theorem mergeRange_spec {merged : List TcpReceiveRange} (h : Spaced merged)
    (hlt : range.start < range.stop) (hle : ∀ earlier ∈ merged, earlier.start ≤ range.start) :
    Spaced (mergeRange merged range) ∧
      (∀ b, Covers (mergeRange merged range) b ↔
        Covers merged b ∨ (range.start ≤ b ∧ b < range.stop)) ∧
      ∀ earlier ∈ mergeRange merged range, earlier.start ≤ range.start := by
  rcases eq_nil_or_concat merged with rfl | ⟨init, last, rfl⟩
  · have hstep : mergeRange [] range = [range] := rfl
    rw [hstep]
    exact ⟨⟨by simp [hlt], pairwise_singleton _ _⟩, by simp, by simp⟩
  rw [concat_eq_append] at h hle ⊢
  obtain ⟨hinit, -, hbefore⟩ := pairwise_append.1 h.apart
  have hlast := h.nonempty last (by simp)
  have hinitLt : ∀ earlier ∈ init, earlier.start < earlier.stop :=
    fun earlier he => h.nonempty earlier (mem_append_left _ he)
  have hstarts := hle last (by simp)
  unfold mergeRange
  rw [getLast?_concat]
  dsimp only
  split
  · next htouch =>
    rw [dropLast_concat]
    refine ⟨⟨?_, ?_⟩, fun b => ?_, ?_⟩
    · refine forall_mem_append.2 ⟨hinitLt, forall_mem_singleton.2 ?_⟩
      dsimp only
      omega
    · refine pairwise_append.2 ⟨hinit, pairwise_singleton _ _, fun a ha b hb => ?_⟩
      rw [mem_singleton.1 hb]
      exact hbefore a ha last (by simp)
    · simp only [covers_append, covers_singleton, or_assoc]
      refine or_congr_right ?_
      omega
    · exact forall_mem_append.2
        ⟨fun r hr => hle r (mem_append_left _ hr), forall_mem_singleton.2 hstarts⟩
  · next hgap =>
    refine ⟨⟨?_, ?_⟩, fun b => ?_, ?_⟩
    · exact forall_mem_append.2 ⟨h.nonempty, forall_mem_singleton.2 hlt⟩
    · refine pairwise_append.2 ⟨h.apart, pairwise_singleton _ _, fun a ha b hb => ?_⟩
      rw [mem_singleton.1 hb]
      rcases mem_append.1 ha with ha | ha
      · have := hbefore a ha last (by simp)
        omega
      · rw [mem_singleton.1 ha]
        omega
    · rw [covers_append, covers_singleton]
    · exact forall_mem_append.2 ⟨hle, forall_mem_singleton.2 le_rfl⟩

/-- Over sorted ranges it leaves spaced ranges of the same bytes. -/
theorem foldl_mergeRange_spec {sorted merged : List TcpReceiveRange} (h : Spaced merged)
    (hlt : ∀ range ∈ sorted, range.start < range.stop)
    (hsorted : sorted.Pairwise fun a b => a.start ≤ b.start)
    (hle : ∀ earlier ∈ merged, ∀ range ∈ sorted, earlier.start ≤ range.start) :
    Spaced (sorted.foldl mergeRange merged) ∧
      ∀ b, Covers (sorted.foldl mergeRange merged) b ↔ Covers merged b ∨ Covers sorted b := by
  induction sorted generalizing merged with
  | nil => exact ⟨h, by simp⟩
  | cons range rest ih =>
    obtain ⟨hfirst, hrest⟩ := pairwise_cons.1 hsorted
    obtain ⟨hspaced, hcovers, hstarts⟩ := mergeRange_spec h (hlt range mem_cons_self)
      fun earlier he => hle earlier he range mem_cons_self
    obtain ⟨hspaced', hcovers'⟩ := ih hspaced (fun r hr => hlt r (mem_cons_of_mem _ hr)) hrest
      fun earlier he r hr => (hstarts earlier he).trans (hfirst r hr)
    refine ⟨hspaced', fun b => ?_⟩
    rw [foldl_cons, hcovers', hcovers, covers_cons, or_assoc]

/-- The second pass moves the frontier over the ranges that reach it. -/
theorem foldl_absorbRange_spec {ranges : List TcpReceiveRange} (h : Spaced ranges) (next : Nat)
    (kept : List TcpReceiveRange) :
    ∃ frontier keep, ranges.foldl absorbRange (next, kept) = (frontier, kept ++ keep) ∧
      keep.Sublist ranges ∧ (∀ range ∈ keep, frontier < range.start) ∧
      ∀ b, b < frontier ∨ Covers keep b ↔ b < next ∨ Covers ranges b := by
  induction ranges generalizing next with
  | nil => exact ⟨next, [], by simp, Sublist.refl _, by simp, by simp⟩
  | cons range rest ih =>
    obtain ⟨hfirst, -⟩ := pairwise_cons.1 h.apart
    have hlt := h.nonempty range mem_cons_self
    by_cases hreach : range.start ≤ next
    · have hstep : absorbRange (next, kept) range = (max next range.stop, kept) := by
        unfold absorbRange
        rw [if_pos hreach]
      obtain ⟨frontier, keep, heq, hsub, habove, hcovers⟩ :=
        ih (h.sublist (sublist_cons_self _ _)) (max next range.stop)
      refine ⟨frontier, keep, by rw [foldl_cons, hstep, heq],
        hsub.trans (sublist_cons_self _ _), habove, fun b => ?_⟩
      rw [hcovers, covers_cons]
      constructor
      · rintro (hb | hb)
        · by_cases hnext : b < next
          · exact .inl hnext
          · exact .inr (.inl ⟨by omega, by omega⟩)
        · exact .inr (.inr hb)
      · rintro (hb | hb | hb)
        · exact .inl (by omega)
        · exact .inl (by omega)
        · exact .inr hb
    · -- Later ranges start later still, so nothing more is absorbed.
      have hstop : ∀ (l kept : List TcpReceiveRange), (∀ r ∈ l, next < r.start) →
          l.foldl absorbRange (next, kept) = (next, kept ++ l) := by
        intro l
        induction l with
        | nil => simp
        | cons r l ihl =>
          intro kept hl
          have hr := hl r mem_cons_self
          have hstep : absorbRange (next, kept) r = (next, kept ++ [r]) := by
            unfold absorbRange
            rw [if_neg (by dsimp only; omega)]
          rw [foldl_cons, hstep, ihl _ fun x hx => hl x (mem_cons_of_mem _ hx)]
          simp
      have habove : ∀ r ∈ range :: rest, next < r.start := by
        intro r hr
        rcases mem_cons.1 hr with rfl | hr
        · omega
        · have := hfirst r hr
          omega
      exact ⟨next, range :: rest, hstop _ _ habove, Sublist.refl _, habove, fun b => .rfl⟩

/-! ## §3. Reassembly. -/

/-- The receiver holds exactly the bytes of `S`: its frontier is the first missing byte, and its
    ranges are the bytes above. -/
structure Reassembled (S : Set Nat) (receiver : TcpReceiverState) : Prop where
  below : ∀ b, b < receiver.nextExpectedSequence → b ∈ S
  frontier : receiver.nextExpectedSequence ∉ S
  spaced : Spaced receiver.outOfOrder
  covers : ∀ b, Covers receiver.outOfOrder b ↔ b ∈ S ∧ receiver.nextExpectedSequence < b

namespace Reassembled

variable {S T : Set Nat} {receiver : TcpReceiverState}

section

variable (h : Reassembled S receiver)

include h

theorem mem_iff : b ∈ S ↔ b < receiver.nextExpectedSequence ∨ Covers receiver.outOfOrder b := by
  rw [h.covers]
  constructor
  · intro hb
    rcases lt_trichotomy b receiver.nextExpectedSequence with hlt | heq | hgt
    · exact .inl hlt
    · exact absurd (heq ▸ hb) h.frontier
    · exact .inr ⟨hb, hgt⟩
  · rintro (hb | ⟨hb, -⟩)
    · exact h.below b hb
    · exact hb

theorem congr (hST : ∀ b, b ∈ S ↔ b ∈ T) : Reassembled T receiver := by
  have heq : S = T := Set.ext hST
  rw [← heq]
  exact h

/-- One arriving range adds its bytes. -/
theorem receiveRange (start stop : Nat) :
    Reassembled (S ∪ Set.Ico start stop) (tcpReceiveRange receiver start stop) := by
  unfold tcpReceiveRange
  split
  · next hnothing =>
    refine h.congr fun b => ⟨.inl, ?_⟩
    rintro (hb | ⟨hstart, hstop⟩)
    · exact hb
    · rcases hnothing with hempty | hold
      · omega
      · exact h.below b (by omega)
  · next harrived =>
    rw [not_or, not_le, not_le] at harrived
    dsimp only
    generalize hsorted : (receiver.outOfOrder ++ [(⟨start, stop⟩ : TcpReceiveRange)]).insertionSort
      (fun a b => a.start < b.start ∨ a.start = b.start ∧ a.stop ≤ b.stop) = sorted
    have hperm : sorted.Perm (receiver.outOfOrder ++ [⟨start, stop⟩]) := by
      rw [← hsorted]
      exact perm_insertionSort _ _
    have hstarts : sorted.Pairwise fun a b => a.start ≤ b.start := by
      have : Std.Total fun a b : TcpReceiveRange =>
        a.start < b.start ∨ a.start = b.start ∧ a.stop ≤ b.stop := ⟨fun a b => by omega⟩
      have : IsTrans TcpReceiveRange fun a b =>
        a.start < b.start ∨ a.start = b.start ∧ a.stop ≤ b.stop := ⟨fun a b c hab hbc => by omega⟩
      rw [← hsorted]
      exact (pairwise_insertionSort _ _).imp fun hab => by omega
    have hlt : ∀ range ∈ sorted, range.start < range.stop := by
      intro range hr
      rcases mem_append.1 (hperm.mem_iff.1 hr) with hr | hr
      · exact h.spaced.nonempty range hr
      · rw [mem_singleton.1 hr]
        exact harrived.1
    obtain ⟨hspaced, hcovers⟩ := foldl_mergeRange_spec .nil hlt hstarts (by simp)
    obtain ⟨frontier, keep, heq, hsub, habove, hbytes⟩ :=
      foldl_absorbRange_spec hspaced receiver.nextExpectedSequence []
    rw [heq]
    have hset (b : Nat) : b ∈ S ∪ Set.Ico start stop ↔ b < frontier ∨ Covers keep b := by
      rw [hbytes, hcovers, covers_of_perm hperm, covers_append, covers_singleton, Set.mem_union,
        h.mem_iff, Set.mem_Ico]
      simp only [covers_nil, false_or, or_assoc]
    refine ⟨fun b hb => (hset b).2 (.inl hb), fun hmem => ?_, hspaced.sublist hsub, fun b => ?_⟩
    · rcases (hset frontier).1 hmem with hlt | ⟨range, hr, hstart, -⟩
      · exact lt_irrefl _ hlt
      · have := habove range hr
        omega
    · refine ⟨fun hb => ⟨(hset b).2 (.inr hb), ?_⟩, fun ⟨hb, hgt⟩ => ?_⟩
      · obtain ⟨range, hr, hstart, -⟩ := hb
        exact (habove range hr).trans_le hstart
      · rcases (hset b).1 hb with hlt | hkeep
        · dsimp only at hgt
          omega
        · exact hkeep

/-- The bytes determine the receiver's frontier and ranges. -/
theorem unique {other : TcpReceiverState} (hother : Reassembled S other) :
    receiver.nextExpectedSequence = other.nextExpectedSequence ∧
      receiver.outOfOrder = other.outOfOrder := by
  have hnext : receiver.nextExpectedSequence = other.nextExpectedSequence := by
    rcases lt_trichotomy receiver.nextExpectedSequence other.nextExpectedSequence with hlt | heq | hgt
    · exact absurd (hother.below _ hlt) h.frontier
    · exact heq
    · exact absurd (h.below _ hgt) hother.frontier
  refine ⟨hnext, h.spaced.eq_of_covers hother.spaced fun b => ?_⟩
  rw [h.covers, hother.covers, hnext]

/-- The kept ranges are the maximal intervals above the frontier. -/
theorem mem_outOfOrder :
    range ∈ receiver.outOfOrder ↔
      IsRun S range.start range.stop ∧ receiver.nextExpectedSequence < range.start := by
  rw [h.spaced.mem_iff_isRun]
  constructor
  · intro hrun
    have habove := ((h.covers _).1 (hrun.inside range.start (le_refl _) hrun.lt)).2
    refine ⟨⟨hrun.lt, fun b hstart hstop => ((h.covers b).1 (hrun.inside b hstart hstop)).1, ?_, ?_⟩,
      habove⟩
    · intro b hb hmem
      rcases (h.mem_iff).1 hmem with hlt | hcovers
      · omega
      · exact hrun.left b hb hcovers
    · intro hmem
      have hlt := hrun.lt
      exact hrun.right ((h.covers _).2 ⟨hmem, by omega⟩)
  · rintro ⟨hrun, habove⟩
    refine ⟨hrun.lt, fun b hstart hstop => (h.covers b).2 ⟨hrun.inside b hstart hstop, by omega⟩, ?_, ?_⟩
    · exact fun b hb hcovers => hrun.left b hb ((h.covers b).1 hcovers).1
    · exact fun hcovers => hrun.right ((h.covers _).1 hcovers).1

end

end Reassembled

/-! ## §4. Runs. -/

/-- The ranges a receiver is given, in order. -/
def receiveRanges (receiver : TcpReceiverState) (arrivals : List TcpReceiveRange) : TcpReceiverState :=
  arrivals.foldl (fun receiver range => tcpReceiveRange receiver range.start range.stop) receiver

/-- A receiver that has received nothing. -/
def freshReceiver (flow : FlowId) (ackSizeBytes : Nat) : TcpReceiverState := ⟨flow, ackSizeBytes, 0, []⟩

theorem freshReceiver_reassembled (flow : FlowId) (ackSizeBytes : Nat) :
    Reassembled ∅ (freshReceiver flow ackSizeBytes) :=
  ⟨fun _ hb => absurd hb (Nat.not_lt_zero _), fun h => h, .nil, fun b => by simp [freshReceiver]⟩

theorem Reassembled.receiveRanges {S : Set Nat} {receiver : TcpReceiverState} (h : Reassembled S receiver)
    (arrivals : List TcpReceiveRange) :
    Reassembled (S ∪ {b | Covers arrivals b}) (receiveRanges receiver arrivals) := by
  induction arrivals generalizing S receiver with
  | nil => exact h.congr fun b => by simp
  | cons range rest ih =>
    refine (ih (h.receiveRange range.start range.stop)).congr fun b => ?_
    simp only [Set.mem_union, Set.mem_Ico, Set.mem_ofPred_eq, covers_cons, or_assoc]

theorem receiveRanges_fields (receiver : TcpReceiverState) (arrivals : List TcpReceiveRange) :
    (receiveRanges receiver arrivals).flow = receiver.flow ∧
      (receiveRanges receiver arrivals).ackSizeBytes = receiver.ackSizeBytes := by
  induction arrivals generalizing receiver with
  | nil => exact ⟨rfl, rfl⟩
  | cons range rest ih =>
    obtain ⟨hflow, hsize⟩ := ih (tcpReceiveRange receiver range.start range.stop)
    have hstep : (tcpReceiveRange receiver range.start range.stop).flow = receiver.flow ∧
        (tcpReceiveRange receiver range.start range.stop).ackSizeBytes = receiver.ackSizeBytes := by
      unfold tcpReceiveRange
      split <;> exact ⟨rfl, rfl⟩
    exact ⟨hflow.trans hstep.1, hsize.trans hstep.2⟩

/-- Reassembly is set union.  After any ranges the frontier is the largest `n` with all of `[0, n)`
    received; the kept ranges are the maximal intervals of the received bytes above it, in ascending
    order with a gap between neighbours.  Lists with the same ranges, in whatever order and however
    often, leave the same receiver. -/
theorem tcp_reassembly_is_union (flow : FlowId) (ackSizeBytes : Nat) (arrivals : List TcpReceiveRange) :
    (∀ n, n ≤ (receiveRanges (freshReceiver flow ackSizeBytes) arrivals).nextExpectedSequence ↔
        ∀ b < n, Covers arrivals b) ∧
      (∀ range, range ∈ (receiveRanges (freshReceiver flow ackSizeBytes) arrivals).outOfOrder ↔
        IsRun {b | Covers arrivals b} range.start range.stop ∧
          (receiveRanges (freshReceiver flow ackSizeBytes) arrivals).nextExpectedSequence <
            range.start) ∧
      (receiveRanges (freshReceiver flow ackSizeBytes) arrivals).outOfOrder.Pairwise
        (fun a b => a.stop < b.start) ∧
      ∀ others, (∀ range, range ∈ arrivals ↔ range ∈ others) →
        receiveRanges (freshReceiver flow ackSizeBytes) others =
          receiveRanges (freshReceiver flow ackSizeBytes) arrivals := by
  have hreassembled (l : List TcpReceiveRange) : Reassembled {b | Covers l b}
      (receiveRanges (freshReceiver flow ackSizeBytes) l) :=
    ((freshReceiver_reassembled flow ackSizeBytes).receiveRanges l).congr fun b => by simp
  have h := hreassembled arrivals
  refine ⟨fun n => ⟨fun hn b hb => h.below b (by omega), fun hall => ?_⟩, fun range => h.mem_outOfOrder,
    h.spaced.apart, fun others hsame => ?_⟩
  · by_contra hgt
    exact h.frontier (hall _ (by omega))
  · have hother : Reassembled {b | Covers arrivals b}
        (receiveRanges (freshReceiver flow ackSizeBytes) others) :=
      (hreassembled others).congr fun b => by simp only [Set.mem_ofPred_eq, Covers, hsame]
    obtain ⟨hnext, hranges⟩ := hother.unique h
    obtain ⟨hflow, hsize⟩ := receiveRanges_fields (freshReceiver flow ackSizeBytes) others
    obtain ⟨hflow', hsize'⟩ := receiveRanges_fields (freshReceiver flow ackSizeBytes) arrivals
    exact TcpReceiverState.mk.injEq .. |>.mpr
      ⟨hflow.trans hflow'.symm, hsize.trans hsize'.symm, hnext, hranges⟩

end Days
