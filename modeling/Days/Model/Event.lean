/-
  Days.Model.Event — identifiers, event keys and events (`event.rs`).

  An event key orders by time, then phase, then the node that emitted the
  event, then that node's own emission counter.  The phase is a function of
  the event kind: arrivals (0) before completions and timers (1) before
  service starts (2) of one instant.
-/
import Mathlib.Data.Prod.Lex
import Days.Base.Checked

namespace Days

/-! ## §1. Identifiers. -/

abbrev NodeId := Nat
abbrev LinkId := Nat
abbrev FlowId := Nat
abbrev PayloadId := Nat

/-- `PayloadId::from_node_sequence`: the node-strided payload identity. -/
def PayloadId.fromNodeSequence (source : NodeId) (nodeCount localSequence : Nat) :
    Option PayloadId :=
  (checkedAdd 64 localSequence 1).bind fun _ =>
    (checkedMul 64 localSequence nodeCount).bind fun base =>
      checkedAdd 64 base source

theorem PayloadId.fromNodeSequence_eq_some {source nodeCount localSequence id : Nat}
    (h : PayloadId.fromNodeSequence source nodeCount localSequence = some id) :
    id = localSequence * nodeCount + source := by
  unfold PayloadId.fromNodeSequence at h
  simp only [Option.bind_eq_some_iff] at h
  obtain ⟨_, _, base, hbase, hid⟩ := h
  rw [(checkedAdd_eq_some hid).1, (checkedMul_eq_some hbase).1]

/-! ## §2. Event keys. -/

/-- The canonical key of an event. -/
structure EventKey where
  timeNs : Nat
  phase : Nat
  originNode : NodeId
  originSeq : Nat
  deriving DecidableEq, Repr, Inhabited

/-- The key as a lexicographic tuple. -/
def EventKey.toTuple (k : EventKey) : ℕ ×ₗ ℕ ×ₗ ℕ ×ₗ ℕ :=
  toLex (k.timeNs, toLex (k.phase, toLex (k.originNode, k.originSeq)))

theorem EventKey.toTuple_injective : Function.Injective EventKey.toTuple := by
  intro a b h
  cases a
  cases b
  simp only [EventKey.toTuple, EmbeddingLike.apply_eq_iff_eq, Prod.mk.injEq] at h
  obtain ⟨h1, h2, h3, h4⟩ := h
  subst h1 h2 h3 h4
  rfl

instance : LinearOrder EventKey :=
  LinearOrder.lift' EventKey.toTuple EventKey.toTuple_injective

theorem EventKey.lt_iff (a b : EventKey) :
    a < b ↔ a.timeNs < b.timeNs ∨ a.timeNs = b.timeNs ∧
      (a.phase < b.phase ∨ a.phase = b.phase ∧
        (a.originNode < b.originNode ∨ a.originNode = b.originNode ∧
          a.originSeq < b.originSeq)) := by
  show a.toTuple < b.toTuple ↔ _
  simp only [EventKey.toTuple, Prod.Lex.toLex_lt_toLex]

/-! ## §3. Event kinds and events. -/

inductive EventKind where
  | packetArrival
  | txReady
  | txComplete
  | remoteArrival
  | retransmissionTimeout
  | pacingTimer
  deriving DecidableEq, Repr, Inhabited

/-- The phase of a kind within one instant. -/
def eventPhase : EventKind → Nat
  | .packetArrival | .remoteArrival => 0
  | .txComplete | .retransmissionTimeout | .pacingTimer => 1
  | .txReady => 2

/-- One scheduled event. -/
structure Event where
  key : EventKey
  target : NodeId
  kind : EventKind
  payload : PayloadId
  deriving DecidableEq, Repr, Inhabited

end Days
