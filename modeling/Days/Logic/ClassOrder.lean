/-
  Days.Logic.ClassOrder — the class order of a paused FIFO queue finds the
  packet a search from the head would find.

  The order gives every admitted packet the next key and lists the keys class by
  class.  What it stands for is the list of (key, class) pairs in queue order:
  keys ascend, admission appends, and service takes out the first pair of a
  class.
-/
import Mathlib.Tactic.IntervalCases
import Mathlib.Algebra.BigOperators.Group.List.Basic
import Days.Exec.State

namespace Days

open List Function

/-! ## §1. Taking the first of a class out of a list. -/

section Erase

variable {α : Type} {p : α → Bool} {l : List α} {i : Nat}

/-- Removing an element that is not selected does not change the selection. -/
theorem filter_eraseIdx_of_not {a : α} (ha : l[i]? = some a) (hp : p a = false) :
    (l.eraseIdx i).filter p = l.filter p := by
  induction l generalizing i with
  | nil => simp
  | cons b rest ih =>
    cases i with
    | zero =>
      have hb : b = a := by simpa using ha
      rw [eraseIdx_cons_zero, filter_cons_of_neg (by rw [hb, hp]; simp)]
    | succ i =>
      rw [eraseIdx_cons_succ, filter_cons, filter_cons, ih (by simpa using ha)]

/-- Removing the first selected element removes the head of the selection. -/
theorem filter_eraseIdx_of_findIdx (h : l.findIdx? p = some i) :
    (l.eraseIdx i).filter p = (l.filter p).tail := by
  induction l generalizing i with
  | nil => simp at h
  | cons b rest ih =>
    rw [findIdx?_cons] at h
    by_cases hb : p b
    · rw [if_pos hb] at h
      rw [← Option.some.inj h, eraseIdx_cons_zero, filter_cons_of_pos hb, tail_cons]
    · rw [if_neg hb] at h
      obtain ⟨j, hj, rfl⟩ := Option.map_eq_some_iff.1 h
      rw [eraseIdx_cons_succ, filter_cons_of_neg hb, filter_cons_of_neg hb, ih hj]

end Erase

/-! ## §2. What a class order stands for. -/

/-- The keys a list of (key, class) pairs gives a class. -/
def classKeys (entries : List (Nat × Nat)) (priority : Nat) : List Nat :=
  (entries.filter fun e => e.2 == priority).map (·.1)

/-- The order lists the packets of these classes, in queue order. -/
structure PfcClassOrder.Indexes (order : PfcClassOrder) (classes : List Nat) (entries : List (Nat × Nat)) :
    Prop where
  classes_eq : entries.map (·.2) = classes
  ascending : entries.Pairwise fun a b => a.1 < b.1
  below : ∀ e ∈ entries, e.1 < order.nextSeq
  keys : ∀ priority, order.classes priority = classKeys entries priority

namespace PfcClassOrder.Indexes

variable {order : PfcClassOrder} {classes : List Nat} {entries : List (Nat × Nat)}

theorem new : PfcClassOrder.new.Indexes [] [] :=
  ⟨rfl, Pairwise.nil, by simp, fun _ => rfl⟩

theorem push (h : order.Indexes classes entries) (priority : Nat) :
    (order.push priority).Indexes (classes ++ [priority]) (entries ++ [(order.nextSeq, priority)]) := by
  refine ⟨by rw [map_append, h.classes_eq]; rfl, ?_, fun e he => ?_, fun other => ?_⟩
  · refine pairwise_append.2 ⟨h.ascending, pairwise_singleton _ _, fun a ha b hb => ?_⟩
    rw [mem_singleton.1 hb]
    exact h.below a ha
  · show e.1 < order.nextSeq + 1
    rcases mem_append.1 he with he | he
    · exact (h.below e he).trans (Nat.lt_succ_self _)
    · rw [mem_singleton.1 he]
      exact Nat.lt_succ_self _
  · unfold PfcClassOrder.push classKeys
    dsimp only
    by_cases heq : other = priority
    · subst heq
      rw [update_self, h.keys]
      simp [classKeys, filter_append]
    · rw [update_of_ne heq, h.keys]
      simp [classKeys, filter_append, Ne.symm heq]

/-- Service takes out the first packet of a class. -/
theorem pop (h : order.Indexes classes entries) {priority i : Nat}
    (hi : classes.findIdx? (· == priority) = some i) :
    (order.pop priority).Indexes (classes.eraseIdx i) (entries.eraseIdx i) := by
  have hfirst : entries.findIdx? (fun e => e.2 == priority) = some i := by
    rw [← h.classes_eq, findIdx?_map] at hi
    exact hi
  obtain ⟨hlt, hclass, -⟩ := findIdx?_eq_some_iff_getElem.1 hfirst
  refine ⟨by rw [← eraseIdx_map, h.classes_eq], h.ascending.sublist (eraseIdx_sublist _ _),
    fun e he => h.below e ((eraseIdx_sublist _ _).subset he), fun other => ?_⟩
  unfold PfcClassOrder.pop classKeys
  dsimp only
  by_cases heq : other = priority
  · subst heq
    rw [update_self, h.keys, filter_eraseIdx_of_findIdx hfirst, classKeys, map_tail]
  · have hother : ((entries[i]).2 == other) = false := by
      rw [beq_eq_false_iff_ne, beq_iff_eq.1 hclass]
      exact Ne.symm heq
    rw [update_of_ne heq, h.keys,
      filter_eraseIdx_of_not (getElem?_eq_getElem hlt) hother, classKeys]

end PfcClassOrder.Indexes

/-! ## §3. The first unpaused packet. -/

/-- Counting class by class counts every entry once. -/
theorem sum_countP_classKeys {entries : List (Nat × Nat)} (h8 : ∀ e ∈ entries, e.2 < 8) (p : Nat → Bool) :
    ((range 8).map fun priority => (classKeys entries priority).countP p).sum =
      entries.countP fun e => p e.1 := by
  induction entries with
  | nil => rfl
  | cons e rest ih =>
    have he := h8 e mem_cons_self
    have hsplit (priority : Nat) : (classKeys (e :: rest) priority).countP p =
        (classKeys rest priority).countP p + (if e.2 = priority then (if p e.1 then 1 else 0) else 0) := by
      unfold classKeys
      by_cases heq : e.2 = priority
      · rw [filter_cons_of_pos (by simp [heq]), map_cons, countP_cons, if_pos heq]
      · rw [filter_cons_of_neg (by simp [heq]), if_neg heq, Nat.add_zero]
    simp only [hsplit]
    rw [sum_map_add, ih fun x hx => h8 x (mem_cons_of_mem _ hx), countP_cons]
    congr 1
    generalize (if p e.1 = true then 1 else 0) = one
    generalize e.2 = k at he
    interval_cases k <;> simp [range_succ]

/-- In an ascending list the keys below the one at a position are those before it. -/
theorem countP_lt_of_ascending {entries : List (Nat × Nat)} (h : entries.Pairwise fun a b => a.1 < b.1)
    {i : Nat} (hi : i < entries.length) :
    (entries.countP fun e => decide (e.1 < (entries[i]).1)) = i := by
  induction entries generalizing i with
  | nil => simp at hi
  | cons e rest ih =>
    obtain ⟨hfirst, hrest⟩ := pairwise_cons.1 h
    cases i with
    | zero =>
      rw [countP_eq_zero]
      intro x hx
      have : e.1 ≤ x.1 := by
        rcases mem_cons.1 hx with rfl | hx
        · exact le_refl _
        · exact (hfirst x hx).le
      simpa using this
    | succ i =>
      have hi' : i < rest.length := by simpa using hi
      have hbefore : e.1 < (rest[i]).1 := hfirst _ (getElem_mem hi')
      simp only [getElem_cons_succ]
      rw [countP_cons, ih hrest hi', if_pos (by simpa using hbefore)]

/-- The class order answers what the search from the head answers. -/
theorem PfcClassOrder.Indexes.firstUnpausedPosition {order : PfcClassOrder} {classes : List Nat}
    {entries : List (Nat × Nat)} (h : order.Indexes classes entries) (h8 : ∀ k ∈ classes, k < 8)
    (pfc : PfcQueueState) :
    order.firstUnpausedPosition pfc = classes.findIdx? fun k => !pfc.isPaused k := by
  have he8 : ∀ e ∈ entries, e.2 < 8 := fun e he =>
    h8 e.2 (by rw [← h.classes_eq]; exact mem_map_of_mem he)
  have hsearch : classes.findIdx? (fun k => !pfc.isPaused k) =
      entries.findIdx? fun e => !pfc.isPaused e.2 := by
    rw [← h.classes_eq, findIdx?_map]
    rfl
  rw [hsearch]
  unfold PfcClassOrder.firstUnpausedPosition
  simp only [h.keys]
  cases hfind : entries.findIdx? fun e => !pfc.isPaused e.2 with
  | none =>
    -- Every queued class is paused, so no unpaused class has a front.
    have hpaused : ∀ e ∈ entries, pfc.isPaused e.2 = true := by
      intro e he
      simpa using findIdx?_eq_none_iff.1 hfind e he
    have hempty : ((range 8).filter fun priority => !pfc.isPaused priority).filterMap
        (fun priority => (classKeys entries priority).head?) = [] := by
      rw [filterMap_eq_nil_iff]
      intro priority hpriority
      have hopen : pfc.isPaused priority = false := by simpa using (mem_filter.1 hpriority).2
      rw [head?_eq_none_iff, classKeys, map_eq_nil_iff, filter_eq_nil_iff]
      intro e he heq
      have hclosed := hpaused e he
      rw [beq_iff_eq.1 heq, hopen] at hclosed
      exact absurd hclosed (by simp)
    rw [hempty]
    rfl
  | some i =>
    obtain ⟨hi, hopen, hbefore⟩ := findIdx?_eq_some_iff_getElem.1 hfind
    have hfront (priority : Nat) : (classKeys entries priority).head? =
        (entries.find? fun e => e.2 == priority).map (·.1) := by
      rw [classKeys, head?_map, head?_filter]
    have hmin : (((range 8).filter fun priority => !pfc.isPaused priority).filterMap
        fun priority => (classKeys entries priority).head?).min? = some (entries[i]).1 := by
      rw [min?_eq_some_iff]
      constructor
      · refine mem_filterMap.2 ⟨(entries[i]).2, mem_filter.2
          ⟨mem_range.2 (he8 _ (getElem_mem hi)), hopen⟩, ?_⟩
        have hfound : entries.find? (fun e => e.2 == (entries[i]).2) = some entries[i] := by
          refine find?_eq_some_iff_getElem.2 ⟨by simp, i, hi, rfl, fun j hj => ?_⟩
          have hpaused := hbefore j hj
          rw [Bool.not_eq_true', beq_eq_false_iff_ne]
          intro heq
          rw [heq] at hpaused
          exact hpaused hopen
        rw [hfront, hfound]
        rfl
      · intro key hkey
        obtain ⟨priority, hpriority, hhead⟩ := mem_filterMap.1 hkey
        have hunpaused := (mem_filter.1 hpriority).2
        rw [hfront] at hhead
        obtain ⟨e, he, rfl⟩ := Option.map_eq_some_iff.1 hhead
        obtain ⟨hclass, j, hj, hej, -⟩ := find?_eq_some_iff_getElem.1 he
        -- An unpaused entry lies at the found position or behind it.
        have hle : i ≤ j := by
          by_contra hlt
          refine hbefore j (by omega) ?_
          rw [hej, beq_iff_eq.1 hclass]
          exact hunpaused
        rw [← hej]
        rcases Nat.lt_or_eq_of_le hle with hlt | rfl
        · exact (pairwise_iff_getElem.1 h.ascending i j hi hj hlt).le
        · exact le_refl _
    rw [hmin, Option.map_some, sum_countP_classKeys he8, countP_lt_of_ascending h.ascending hi]

end Days
