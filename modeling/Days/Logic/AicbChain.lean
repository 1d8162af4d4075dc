/-
  Days.Logic.AicbChain — the order along the chains of an AICB schedule.

  A chain passes through the sections of its trace: the microbatch blocks in
  order, then the blocks in reverse.  Sections and, within one, the stages in
  the direction of the pipeline order all points: a transfer comes last in its
  sender's part of the section, before its receiver's.
-/
import Mathlib.Data.Prod.Lex
import Days.Aicb.Lower
import Days.Base.Checked

namespace Days.Aicb

open List

variable {i j : Nat} {item : ChainItem}

/-! ## §1. Sections of a chain. -/

section Sections

variable (prologue length ga : Nat)

/-- Direction and section. -/
abbrev Label := Nat ×ₗ Nat

/-- The section a transfer belongs to. -/
def transferLabel (transfer : PipelineTransfer) : Label :=
  if transfer.backward then toLex (1, ga - transfer.block) else toLex (0, transfer.block + 1)

def senderStage (transfer : PipelineTransfer) : Nat :=
  if transfer.backward then transfer.boundary + 1 else transfer.boundary

def receiverStage (transfer : PipelineTransfer) : Nat :=
  if transfer.backward then transfer.boundary else transfer.boundary + 1

variable {prologue length ga}

end Sections

/-! ## §2. Labelled chains. -/

section Labelled

variable {prologue length ga : Nat}

/-- Where a chain item may stand: the labels of transfers are their own. -/
def Placed (ga stages stage : Nat) (entry : ChainItem × Label) : Prop :=
  (∀ transfer, entry.1 = .send transfer → entry.2 = transferLabel ga transfer ∧
    senderStage transfer = stage ∧ transfer.boundary + 1 < stages) ∧
  ∀ transfer, entry.1 = .receive transfer → entry.2 = transferLabel ga transfer ∧
    receiverStage transfer = stage ∧ transfer.boundary + 1 < stages

/-- Sections only grow along a chain, and strictly after a send. -/
def Before (a b : ChainItem × Label) : Prop :=
  a.2 ≤ b.2 ∧ ∀ transfer, a.1 = .send transfer → a.2 < b.2

/-- A chain with its labels. -/
structure LabelledChain (ga stages stage : Nat) (items : List ChainItem)
    (entries : List (ChainItem × Label)) : Prop where
  items : entries.map (·.1) = items
  placed : ∀ entry ∈ entries, Placed ga stages stage entry
  phase : ∀ entry ∈ entries, (ofLex entry.2).1 < 2
  sorted : entries.Pairwise Before

theorem mem_transferItems {stage stages block : Nat} {backward receive : Bool}
    (hstage : stage < stages) (h : item ∈ transferItems (some stage) stages backward block receive) :
    ∃ boundary, boundary + 1 < stages ∧
      (if backward = receive then boundary = stage else boundary + 1 = stage) ∧
      item = if receive then .receive ⟨boundary, block, backward⟩ else .send ⟨boundary, block, backward⟩ := by
  obtain ⟨boundary, hboundary, rfl⟩ := mem_map.1 h
  rw [Option.mem_toList] at hboundary
  refine ⟨boundary, ?_, ?_, rfl⟩
  · split at hboundary <;> split at hboundary <;> cases hboundary <;> omega
  · split at hboundary
    · next heq =>
      rw [if_pos heq]
      split at hboundary <;> cases hboundary
      rfl
    · next hne =>
      rw [if_neg hne]
      split at hboundary <;> cases hboundary
      omega

/-- The items of one record in one direction: what it receives, its own items, what it sends. -/
structure Parts (stage stages : Nat) (backward : Bool) (receiveAt sendAt : Nat → Prop)
    (items : List ChainItem) : Prop where
  split : ∃ receives own sends, items = receives ++ own ++ sends ∧
    (∀ item ∈ receives, ∃ m, receiveAt m ∧ item ∈ transferItems (some stage) stages backward m true) ∧
    (∀ item ∈ own, (∀ transfer, item ≠ .send transfer) ∧ ∀ transfer, item ≠ .receive transfer) ∧
    (∀ item ∈ sends, ∃ m, sendAt m ∧ item ∈ transferItems (some stage) stages backward m false) ∧
    sends.length ≤ 1

section Records

variable {blocks : List (Nat × Nat)} {stage stages index : Nat} {backward receive : Bool}

end Records

section Parts

variable {stage stages : Nat} {backward : Bool} {receiveAt sendAt : Nat → Prop} {items : List ChainItem}
  {label : Label}

section

variable (h : Parts stage stages backward receiveAt sendAt items)

include h

theorem Parts.send (hstage : stage < stages)
    {transfer : PipelineTransfer} (hsend : .send transfer ∈ items) :
    sendAt transfer.block ∧ transfer.backward = backward ∧ senderStage transfer = stage ∧
      transfer.boundary + 1 < stages := by
  obtain ⟨receives, own, sends, rfl, hreceives, hown, hsends, -⟩ := h.split
  rcases mem_append.1 hsend with hsend | hsend
  · rcases mem_append.1 hsend with hsend | hsend
    · obtain ⟨m, -, hmem⟩ := hreceives _ hsend
      obtain ⟨_, -, -, heq⟩ := mem_transferItems hstage hmem
      cases heq
    · exact absurd rfl ((hown _ hsend).1 transfer)
  · obtain ⟨m, hm, hmem⟩ := hsends _ hsend
    obtain ⟨boundary, hlt, hside, heq⟩ := mem_transferItems hstage hmem
    cases heq
    refine ⟨hm, rfl, ?_, hlt⟩
    cases backward
    · simpa [senderStage] using hside
    · simpa [senderStage] using hside

theorem Parts.receive (hstage : stage < stages)
    {transfer : PipelineTransfer} (hreceive : .receive transfer ∈ items) :
    receiveAt transfer.block ∧ transfer.backward = backward ∧ receiverStage transfer = stage ∧
      transfer.boundary + 1 < stages := by
  obtain ⟨receives, own, sends, rfl, hreceives, hown, hsends, -⟩ := h.split
  rcases mem_append.1 hreceive with hreceive | hreceive
  · rcases mem_append.1 hreceive with hreceive | hreceive
    · obtain ⟨m, hm, hmem⟩ := hreceives _ hreceive
      obtain ⟨boundary, hlt, hside, heq⟩ := mem_transferItems hstage hmem
      cases heq
      refine ⟨hm, rfl, ?_, hlt⟩
      cases backward
      · simpa [receiverStage] using hside
      · simpa [receiverStage] using hside
    · exact absurd rfl ((hown _ hreceive).2 transfer)
  · obtain ⟨m, -, hmem⟩ := hsends _ hreceive
    obtain ⟨_, -, -, heq⟩ := mem_transferItems hstage hmem
    cases heq

/-- Within a record only the last item is a send. -/
theorem Parts.sorted (hstage : stage < stages) :
    (items.map fun item => (item, label)).Pairwise Before := by
  obtain ⟨receives, own, sends, rfl, hreceives, hown, -, hshort⟩ := h.split
  rw [pairwise_map, pairwise_append]
  have hnosend : ∀ item ∈ receives ++ own, ∀ transfer, item ≠ .send transfer := by
    intro item hitem transfer heq
    subst heq
    rcases mem_append.1 hitem with hitem | hitem
    · obtain ⟨m, -, hmem⟩ := hreceives _ hitem
      obtain ⟨_, -, -, heq⟩ := mem_transferItems hstage hmem
      cases heq
    · exact (hown _ hitem).1 transfer rfl
  have hbefore {a b : ChainItem} (ha : a ∈ receives ++ own) : Before (a, label) (b, label) :=
    ⟨le_refl _, fun transfer heq => absurd heq (hnosend a ha transfer)⟩
  refine ⟨?_, ?_, fun a ha b _ => hbefore ha⟩
  · exact Pairwise.imp_of_mem (fun ha _ _ => hbefore ha) (pairwise_of_forall fun _ _ => trivial)
  · match sends, hshort with
    | [], _ => exact .nil
    | [_], _ => exact pairwise_singleton _ _

end

end Parts

section Chain

variable {stage stages : Nat}

theorem Parts.placed {items : List ChainItem} {backward : Bool} {receiveAt sendAt : Nat → Prop}
    {label : Label} (h : Parts stage stages backward receiveAt sendAt items) (hstage : stage < stages)
    (hitem : item ∈ items) (hlabel : ∀ transfer : PipelineTransfer, transfer.backward = backward →
      receiveAt transfer.block ∨ sendAt transfer.block → label = transferLabel ga transfer) :
    Placed ga stages stage (item, label) := by
  refine ⟨fun transfer heq => ?_, fun transfer heq => ?_⟩
  · dsimp only at heq
    subst heq
    obtain ⟨hat, hback, hsender, hlt⟩ := h.send hstage hitem
    exact ⟨hlabel transfer hback (.inr hat), hsender, hlt⟩
  · dsimp only at heq
    subst heq
    obtain ⟨hat, hback, hreceiver, hlt⟩ := h.receive hstage hitem
    exact ⟨hlabel transfer hback (.inl hat), hreceiver, hlt⟩

end Chain

end Labelled

/-! ## §3. Ranks. -/

section Ranks

/-- Section, stage in the direction of the pipeline, transfers last, position in the chain. -/
abbrev Rank := Label ×ₗ (Nat ×ₗ (Nat ×ₗ Nat))

variable (ga stages : Nat)

def stageOrder (label : Label) (stage : Nat) : Nat :=
  if (ofLex label).1 = 0 then stage else stages - 1 - stage

def transferRank (transfer : PipelineTransfer) : Rank :=
  toLex (transferLabel ga transfer, toLex (stageOrder stages (transferLabel ga transfer)
    (senderStage transfer), toLex (1, 0)))

variable {ga stages} {stage : Nat} {label later : Label} {position next : Nat}
  {transfer : PipelineTransfer}

end Ranks

end Days.Aicb
