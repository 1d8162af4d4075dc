/-
  Days.Exec.SeededMatrix — the seeded routing matrix of an all-to-all
  (`seeded_matrix.rs`).

  A word is a natural number below `2 ^ 64`.  The matrix is row-major.
-/
import Days.Model.Scheduler

namespace Days

inductive RoutingSkew where
  | uniform
  | zipf1
  deriving DecidableEq, Repr

structure SeededAllToAll where
  seed : Nat
  matrix : Nat
  group : Nat
  transpose : Bool
  experts : Nat
  topk : Nat
  tokens : Nat
  bytesPerCopy : Nat
  skew : RoutingSkew
  deriving DecidableEq, Repr

/-! ## §1. The stream. -/

namespace SplitMix64

/-- A draw and the state after it; the output function is that of `mix`. -/
def next (state : Nat) : Nat × Nat := (mix state, (state + 0x9e3779b97f4a7c15) % 2 ^ 64)

def below (bound state : Nat) : Nat × Nat := ((next state).1 % bound, (next state).2)

end SplitMix64

/-! ## §2. Expert popularity. -/

/-- The loop of the Fisher-Yates shuffle over the indices `index, …, 1`. -/
def shuffle : Nat → Nat → Array Nat → Array Nat
  | 0, _, order => order
  | index + 1, state, order =>
    let (other, state) := SplitMix64.below (index + 2) state
    shuffle index state (order.swapIfInBounds (index + 1) other)

def RoutingSkew.weight (skew : RoutingSkew) (popularity : Nat) : Nat :=
  match skew with
  | .uniform => 1
  | .zipf1 => 2 ^ 40 / (popularity + 1)

/-- The cumulative weights by expert, and their total. -/
def cumulate (skew : RoutingSkew) : List Nat → Nat → Option (List Nat × Nat)
  | [], total => some ([], total)
  | popularity :: rest, total => do
    let total ← checkedAdd 64 total (skew.weight popularity)
    let (cumulative, last) ← cumulate skew rest total
    return (total :: cumulative, last)

/-- `cumulative.partition_point(|&bound| bound <= draw)`. -/
def partitionPoint (cumulative : List Nat) (draw : Nat) : Nat :=
  (cumulative.takeWhile (· ≤ draw)).length

/-- The experts of the next `copies` draws of a stream. -/
def drawExperts (cumulative : List Nat) (total : Nat) : Nat → Nat → List Nat
  | 0, _ => []
  | copies + 1, state =>
    let (draw, state) := SplitMix64.below total state
    partitionPoint cumulative draw :: drawExperts cumulative total copies state

/-! ## §3. The matrix. -/

namespace SeededAllToAll

def key (a : SeededAllToAll) : Nat :=
  mix (Nat.xor (mix (Nat.xor (mix a.seed) a.matrix)) a.group)

def order (a : SeededAllToAll) : Array Nat :=
  shuffle (a.experts - 1) (mix (Nat.xor a.key 0x5045524d)) (Array.range a.experts)

/-- The experts that `source` draws for its copies. -/
def drawn (a : SeededAllToAll) (weights : List Nat × Nat) (copies source : Nat) : List Nat :=
  drawExperts weights.1 weights.2 copies (mix (Nat.xor a.key (source + 1)))

/-- Count one copy from `source`; a copy to the source itself is not sent. -/
def tally (perRank ranks source : Nat) (counts : List Nat) (expert : Nat) : List Nat :=
  let target := expert / perRank
  if target ≠ source then counts.modify (source * ranks + target) (· + 1) else counts

/-- The copies from every source to every target, with the weights they were drawn from. -/
def counts (a : SeededAllToAll) (ranks : Nat) : Option (List Nat) :=
  if ranks = 0 ∨ a.experts = 0 ∨ a.experts % ranks ≠ 0 then none
  else do
    let weights ← cumulate a.skew a.order.toList 0
    let copies ← checkedMul 64 a.tokens a.topk
    return (List.range ranks).foldl
      (fun counts source =>
        (a.drawn weights copies source).foldl (tally (a.experts / ranks) ranks source) counts)
      (List.replicate (ranks * ranks) 0)

/-- `SeededAllToAll::bytes`. -/
def bytes (a : SeededAllToAll) (ranks : Nat) : Option (List Nat) := do
  let counts ← a.counts ranks
  (List.range (ranks * ranks)).mapM fun i =>
    let source := i / ranks
    let target := i % ranks
    let count :=
      if a.transpose then counts.getD (target * ranks + source) 0
      else counts.getD (source * ranks + target) 0
    checkedMul 64 count a.bytesPerCopy

def routedBytesPerSource (a : SeededAllToAll) : Option Nat := do
  let copies ← checkedMul 64 a.tokens a.topk
  checkedMul 64 copies a.bytesPerCopy

end SeededAllToAll

end Days
