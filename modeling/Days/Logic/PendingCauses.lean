/-
  Days.Logic.PendingCauses — the indexed store of the causes of one event, and that it is the
  list of causes which the handlers' model passes around.

  Main result: `IndexedCauses.refines_list`.
-/
import Mathlib.Data.List.ReduceOption
import Days.Exec.Stage
import Days.Lib.Refinement

namespace Days

open List Option

/-- `PendingCauses`: a slot for each cause, and `(flow, push position)` of each cause. -/
structure IndexedCauses where
  causes : List (Option PendingCollectiveProgress) := []
  byFlow : List (FlowId × Nat) := []
  sorted : Bool := false

namespace IndexedCauses

/-! ## §1. The operations. -/

def push (t : IndexedCauses) (cause : PendingCollectiveProgress) : IndexedCauses where
  causes := t.causes ++ [some cause]
  byFlow := t.byFlow ++ [(cause.flow, t.causes.length)]
  sorted := false

def entryLe (a b : FlowId × Nat) : Bool := a.1 < b.1 || a.1 == b.1 && a.2 ≤ b.2

/-- The sort before the first `take` after a push. -/
def sortIndex (t : IndexedCauses) : IndexedCauses :=
  if t.sorted then t else { t with byFlow := t.byFlow.mergeSort entryLe, sorted := true }

/-- The loop of `take`: an entry whose slot is empty has been taken before. -/
def takeFrom (t : IndexedCauses) (flow : FlowId) :
    List (FlowId × Nat) → Option PendingCollectiveProgress × IndexedCauses
  | [] => (none, t)
  | (key, position) :: rest =>
    if key ≠ flow then (none, t)
    else match t.causes[position]?.join with
      | some cause => (some cause, { t with causes := t.causes.set position none })
      | none => takeFrom t flow rest

def take (t : IndexedCauses) (flow : FlowId) : Option PendingCollectiveProgress × IndexedCauses :=
  let t := t.sortIndex
  -- `partition_point` of the sorted index
  let start := (t.byFlow.takeWhile (·.1 < flow)).length
  t.takeFrom flow (t.byFlow.drop start)

def intoRemaining (t : IndexedCauses) : List PendingCollectiveProgress := t.causes.reduceOption

/-! ## §2. What the index says. -/

/-- A slot for causes of one flow. -/
def OfFlow (slot : Option PendingCollectiveProgress) (flow : FlowId) : Prop :=
  ∀ cause ∈ slot, cause.flow = flow

/-- The flow of every push, taken or not, is what the index lists with the push's position. -/
structure Indexes (t : IndexedCauses) (flows : List FlowId) : Prop where
  slots : Forall₂ OfFlow t.causes flows
  index : t.byFlow.Perm flows.zipIdx
  ordered : t.sorted = true → t.byFlow.Pairwise (entryLe · ·)

variable {t : IndexedCauses} {flows : List FlowId}

theorem entryLe_iff {a b : Nat × Nat} : entryLe a b ↔ a.1 < b.1 ∨ a.1 = b.1 ∧ a.2 ≤ b.2 := by
  simp [entryLe]

theorem entryLe_antisymm {a b : Nat × Nat} (hab : entryLe a b) (hba : entryLe b a) : a = b := by
  rw [entryLe_iff] at hab hba
  exact Prod.ext (by omega) (by omega)

theorem Indexes.push (h : Indexes t flows) (cause : PendingCollectiveProgress) :
    Indexes (t.push cause) (flows ++ [cause.flow]) where
  slots := rel_append h.slots (by simp [OfFlow])
  index := by
    rw [zipIdx_append]
    simpa [IndexedCauses.push, h.slots.length_eq] using h.index.append_right _
  ordered := by simp [IndexedCauses.push]

theorem Indexes.sortIndex (h : Indexes t flows) :
    Indexes t.sortIndex flows ∧ t.sortIndex.sorted = true ∧ t.sortIndex.causes = t.causes := by
  unfold IndexedCauses.sortIndex
  split
  · next hsorted => exact ⟨h, hsorted, rfl⟩
  · refine ⟨⟨h.slots, (mergeSort_perm _ _).trans h.index, fun _ => ?_⟩, rfl, rfl⟩
    refine pairwise_mergeSort (fun a b c => ?_) (fun a b => ?_) _
    · rw [entryLe_iff, entryLe_iff, entryLe_iff]
      omega
    · rw [Bool.or_eq_true, entryLe_iff, entryLe_iff]
      omega

/-- The entries of one flow in an ordered index are those of its pushes, first push first. -/
theorem Indexes.filter_flow (h : Indexes t flows) (hsorted : t.sorted = true) (flow : FlowId) :
    t.byFlow.filter (·.1 == flow) = flows.zipIdx.filter (·.1 == flow) := by
  refine Perm.eq_of_pairwise ?_ ((h.ordered hsorted).filter _) ?_ (h.index.filter _)
  · exact fun a b _ _ => entryLe_antisymm
  · have hpositions : flows.zipIdx.Pairwise (·.2 < ·.2) := by
      rw [← pairwise_map, zipIdx_map_snd]
      exact pairwise_lt_range'
    rw [pairwise_filter]
    refine hpositions.imp fun {a b} hlt ha hb => entryLe_iff.2 (Or.inr ⟨?_, hlt.le⟩)
    rw [eq_of_beq ha, eq_of_beq hb]

/-- In an ordered index the loop meets the entries of its flow and no others. -/
theorem takeFrom_dropWhile (t : IndexedCauses) (flow : Nat) {entries : List (Nat × Nat)}
    (h : entries.Pairwise (entryLe · ·)) :
    t.takeFrom flow (entries.dropWhile (·.1 < flow)) =
      t.takeFrom flow (entries.filter (·.1 == flow)) := by
  induction entries with
  | nil => rfl
  | cons entry rest ih =>
    obtain ⟨hfirst, hrest⟩ := pairwise_cons.1 h
    rcases Nat.lt_trichotomy entry.1 flow with hlt | rfl | hgt
    · rw [dropWhile_cons_of_pos (by simpa using hlt), ih hrest,
        filter_cons_of_neg (by simpa using hlt.ne)]
    · rw [dropWhile_cons_of_neg (by simp), filter_cons_of_pos (by simp)]
      simp only [takeFrom, ← ih hrest]
      -- no later entry is below the flow
      cases rest with
      | nil => rfl
      | cons next rest =>
        have hle : entry.1 ≤ next.1 := by
          rcases entryLe_iff.1 (hfirst next mem_cons_self) with h | h
          · exact h.le
          · exact h.1.le
        rw [dropWhile_cons_of_neg (by simpa using hle)]
    · have hnone : rest.filter (·.1 == flow) = [] := by
        refine filter_eq_nil_iff.2 fun next hnext => ?_
        have hle := entryLe_iff.1 (hfirst next hnext)
        simp only [beq_iff_eq]
        omega
      rw [dropWhile_cons_of_neg (by simpa using hgt.le),
        filter_cons_of_neg (by simpa using hgt.ne'), hnone]
      exact if_pos hgt.ne'

/-! ## §3. The slots as a list. -/

/-- The first cause of a flow leaves its slot. -/
def takeSlot (flow : FlowId) : List (Option PendingCollectiveProgress) →
    Option PendingCollectiveProgress × List (Option PendingCollectiveProgress)
  | [] => (none, [])
  | slot :: rest =>
    if slot.any (·.flow == flow) then (slot, none :: rest)
    else ((takeSlot flow rest).1, slot :: (takeSlot flow rest).2)

theorem takeSlot_reduceOption (flow : FlowId) (slots : List (Option PendingCollectiveProgress)) :
    (takeSlot flow slots).1 = slots.reduceOption.find? (·.flow == flow) ∧
      (takeSlot flow slots).2.reduceOption = slots.reduceOption.eraseP (·.flow == flow) := by
  induction slots with
  | nil => exact ⟨rfl, rfl⟩
  | cons slot rest ih =>
    cases slot with
    | none => simpa [takeSlot] using ih
    | some cause =>
      by_cases hflow : cause.flow = flow
      · simp [takeSlot, hflow]
      · simpa [takeSlot, hflow] using ih

/-- From the slots behind `before` on, the loop takes the first cause of the flow. -/
theorem takeFrom_zipIdx (flow : FlowId) {before slots : List (Option PendingCollectiveProgress)}
    (hcauses : t.causes = before ++ slots) (hslots : Forall₂ OfFlow slots flows) :
    t.takeFrom flow ((flows.zipIdx before.length).filter (·.1 == flow)) =
      ((takeSlot flow slots).1, { t with causes := before ++ (takeSlot flow slots).2 }) := by
  induction hslots generalizing before with
  | nil =>
    rw [zipIdx_nil, filter_nil, takeFrom, takeSlot, ← hcauses]
  | @cons slot key slots flows hslot hrest ih =>
    have hnext := @ih (before ++ [slot]) (by simp [hcauses])
    have hslotAt : t.causes[before.length]?.join = slot := by simp [hcauses]
    rw [length_append, length_singleton, append_assoc, singleton_append] at hnext
    rw [zipIdx_cons, takeSlot]
    by_cases hkey : key = flow
    · rw [filter_cons_of_pos (by simpa using hkey), takeFrom, if_neg (not_not.2 hkey), hslotAt]
      cases slot with
      | none => exact hnext
      | some cause => simp [hcauses, hslot cause rfl, hkey]
    · rw [filter_cons_of_neg (by simpa using hkey), hnext, if_neg]
      intro hany
      obtain ⟨cause, hcause, hflow⟩ := (any_eq_true _ _).1 hany
      exact hkey ((hslot cause hcause).symm.trans (eq_of_beq hflow))

theorem forall₂_takeSlot (flow : FlowId) {slots : List (Option PendingCollectiveProgress)}
    (hslots : Forall₂ OfFlow slots flows) : Forall₂ OfFlow (takeSlot flow slots).2 flows := by
  induction hslots with
  | nil => exact .nil
  | cons hslot hrest ih =>
    unfold takeSlot
    split
    · exact .cons (by simp [OfFlow]) hrest
    · exact .cons hslot ih

/-- `take` takes the first cause of the flow that is still there. -/
theorem Indexes.take (h : Indexes t flows) (flow : FlowId) :
    (t.take flow).1 = t.intoRemaining.find? (·.flow == flow) ∧
      (t.take flow).2.intoRemaining = t.intoRemaining.eraseP (·.flow == flow) ∧
      Indexes (t.take flow).2 flows := by
  obtain ⟨hindexes, hsorted, hcauses⟩ := h.sortIndex
  have hdrop (entries : List (FlowId × Nat)) :
      entries.drop (entries.takeWhile (·.1 < flow)).length = entries.dropWhile (·.1 < flow) := by
    conv_lhs => enter [2]; rw [← takeWhile_append_dropWhile (p := (·.1 < flow)) (l := entries)]
    exact drop_left
  have htake : t.take flow = ((takeSlot flow t.causes).1,
      { t.sortIndex with causes := (takeSlot flow t.causes).2 }) := by
    unfold IndexedCauses.take
    simp only [hdrop, takeFrom_dropWhile _ _ (hindexes.ordered hsorted),
      hindexes.filter_flow hsorted]
    exact @takeFrom_zipIdx _ _ flow [] _ hcauses h.slots
  rw [htake]
  obtain ⟨hfirst, hrest⟩ := takeSlot_reduceOption flow t.causes
  exact ⟨hfirst, hrest, forall₂_takeSlot flow h.slots, hindexes.index, hindexes.ordered⟩

/-! ## §4. Every sequence of operations. -/

inductive CauseOp where
  | push (cause : PendingCollectiveProgress)
  | take (flow : FlowId)

def step (t : IndexedCauses) : CauseOp → Option PendingCollectiveProgress × IndexedCauses
  | .push cause => (none, t.push cause)
  | .take flow => t.take flow

/-- The list that the store replaces. -/
def listStep (causes : PendingCauses) : CauseOp → Option PendingCollectiveProgress × PendingCauses
  | .push cause => (none, causes ++ [cause])
  | .take flow => (causes.take flow).elim (none, causes) fun taken => (some taken.1, taken.2)

theorem listStep_take (causes : PendingCauses) (flow : FlowId) :
    listStep causes (.take flow) =
      (causes.find? (·.flow == flow), causes.eraseP (·.flow == flow)) := by
  unfold listStep PendingCauses.take
  cases hfind : causes.find? (·.flow == flow) with
  | none => simp [hfind, eraseP_of_forall_not (find?_eq_none.1 hfind)]
  | some cause => simp [hfind]

/-- Over every sequence of pushes and takes the indexed store answers as the list of causes does,
and drains to it. -/
theorem refines_list (ops : List CauseOp) :
    (Lib.perform step ops {}).1 = (Lib.perform listStep ops []).1 ∧
      (Lib.perform step ops {}).2.intoRemaining = (Lib.perform listStep ops []).2 := by
  let R (t : IndexedCauses) (causes : PendingCauses) : Prop :=
    t.intoRemaining = causes ∧ ∃ flows, Indexes t flows
  have hnew : R {} [] := ⟨rfl, [], .nil, .nil, nofun⟩
  have hstep : ∀ t causes op, R t causes → True →
      (step t op).1 = (listStep causes op).1 ∧ R (step t op).2 (listStep causes op).2 := by
    rintro t _ op ⟨rfl, flows, h⟩ -
    cases op with
    | push cause =>
      refine ⟨rfl, ?_, _, h.push cause⟩
      simp [step, listStep, push, intoRemaining, reduceOption_append]
    | take flow =>
      obtain ⟨hfirst, hrest, hindexes⟩ := h.take flow
      rw [listStep_take]
      exact ⟨hfirst, hrest, flows, hindexes⟩
  obtain ⟨hanswers, hdrain, -⟩ :=
    Lib.perform_refines hstep ops hnew (Lib.allowed_of_forall (fun _ _ => trivial) ops [])
  exact ⟨hanswers, hdrain⟩

end IndexedCauses

end Days
