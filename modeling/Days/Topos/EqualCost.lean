/-
  Days.Topos.EqualCost — the enumeration of equal-cost paths is exact.
  (`find_equal_cost_paths_in` of `src/topos/route.rs`)

  The search keeps a stack of simple paths and extends the top one by its new neighbours
  up to the given distance.  What an entry of the stack adds to the output is `below`; the
  stack is worked off entry by entry.
-/
import Mathlib.Combinatorics.SimpleGraph.Metric

namespace Days.Topos

open List

variable {V : Type} [DecidableEq V]

/-! ## §1. The search. -/

/-- A simple undirected graph, by the order in which `neighbors` lists them. -/
structure UnGraph (V : Type) where
  neighbors : V → List V
  nodup : ∀ v, (neighbors v).Nodup
  symm : ∀ v w, w ∈ neighbors v → v ∈ neighbors w
  irrefl : ∀ v, v ∉ neighbors v

def UnGraph.simple (g : UnGraph V) : SimpleGraph V where
  Adj v w := w ∈ g.neighbors v
  symm := ⟨g.symm⟩
  loopless := ⟨g.irrefl⟩

/-- An entry of the stack: the current node, the path to it and its cost. -/
abbrev Entry (V : Type) := V × List V × Nat

/-- The entries pushed for an entry, the last pushed first. -/
def pushed (g : UnGraph V) (distance : Nat) (current : V) (path : List V) (cost : Nat) :
    List (Entry V) :=
  (((g.neighbors current).filter fun neighbor => neighbor ∉ path ∧ cost + 1 ≤ distance).map
    fun neighbor => (neighbor, path ++ [neighbor], cost + 1)).reverse

/-- The loop; `none` if it does not end within `fuel` rounds. -/
def searchLoop (g : UnGraph V) (target : V) (distance : Nat) :
    Nat → List (Entry V) → List (List V) → Option (List (List V))
  | _, [], paths => some paths
  | 0, _ :: _, _ => none
  | fuel + 1, (current, path, cost) :: stack, paths =>
    if current = target then
      searchLoop g target distance fuel stack (if cost = distance then paths ++ [path] else paths)
    else searchLoop g target distance fuel (pushed g distance current path cost ++ stack) paths

def findEqualCostPathsIn (g : UnGraph V) (start target : V) (distance fuel : Nat) :
    Option (List (List V)) :=
  searchLoop g target distance fuel [(start, [start], 0)] []

variable {g : UnGraph V} {start target current : V} {path : List V} {distance cost rest : Nat}

/-! ## §2. What an entry adds. -/

/-- The paths found from an entry that has `rest` steps left. -/
def below (g : UnGraph V) (target : V) : Nat → V → List V → List (List V)
  | 0, current, path => if current = target then [path] else []
  | rest + 1, current, path =>
    if current = target then []
    else ((g.neighbors current).filter (· ∉ path)).reverse.flatMap fun neighbor =>
      below g target rest neighbor (path ++ [neighbor])

/-- The loop works off the top entry in some number of rounds. -/
theorem searchLoop_entry (g : UnGraph V) (target : V) (rest : Nat) :
    ∀ (current : V) (path : List V) (cost : Nat), cost + rest = distance →
      ∃ rounds, ∀ fuel stack paths,
        searchLoop g target distance (fuel + rounds) ((current, path, cost) :: stack) paths =
          searchLoop g target distance fuel stack (paths ++ below g target rest current path) := by
  -- On the steps left: an entry that has none pushes nothing.
  induction rest with
  | zero =>
    intro current path cost hcost
    by_cases htarget : current = target
    · refine ⟨1, fun fuel stack paths => ?_⟩
      rw [searchLoop, if_pos htarget, if_pos (by omega), below, if_pos htarget]
    · refine ⟨1, fun fuel stack paths => ?_⟩
      have hpushed : pushed g distance current path cost = [] := by
        unfold pushed
        rw [filter_eq_nil_iff.2 fun neighbor _ => by simp only [decide_eq_true_eq]; omega]
        rfl
      rw [searchLoop, if_neg htarget, hpushed, below, if_neg htarget, append_nil,
        nil_append]
  | succ rest ih =>
    intro current path cost hcost
    by_cases htarget : current = target
    · refine ⟨1, fun fuel stack paths => ?_⟩
      rw [searchLoop, if_pos htarget, if_neg (by omega), below, if_pos htarget, append_nil]
    · -- The pushed entries are worked off one after another.
      have hentries : ∀ nodes : List V, ∃ rounds, ∀ fuel stack paths,
          searchLoop g target distance (fuel + rounds)
              (nodes.map (fun node => (node, path ++ [node], cost + 1)) ++ stack) paths =
            searchLoop g target distance fuel stack
              (paths ++ nodes.flatMap fun node => below g target rest node (path ++ [node])) := by
        intro nodes
        induction nodes with
        | nil => exact ⟨0, fun fuel stack paths => by simp⟩
        | cons node nodes ihn =>
          obtain ⟨rounds, hrounds⟩ := ihn
          obtain ⟨first, hfirst⟩ := ih node (path ++ [node]) (cost + 1) (by omega)
          refine ⟨rounds + first, fun fuel stack paths => ?_⟩
          rw [map_cons, cons_append, ← Nat.add_assoc, hfirst, hrounds,
            flatMap_cons, append_assoc]
      obtain ⟨rounds, hrounds⟩ := hentries ((g.neighbors current).filter (· ∉ path)).reverse
      refine ⟨rounds + 1, fun fuel stack paths => ?_⟩
      have hpushed : pushed g distance current path cost =
          ((g.neighbors current).filter (· ∉ path)).reverse.map
            fun node => (node, path ++ [node], cost + 1) := by
        unfold pushed
        simp only [map_reverse, show cost + 1 ≤ distance by omega, and_true]
      rw [← Nat.add_assoc, searchLoop, if_neg htarget, hpushed, hrounds, below, if_neg htarget]

/-! ## §3. Shortest paths. -/

/-- The rest of a path from `current` to the target. -/
def Completes (g : UnGraph V) (target : V) (rest : Nat) (current : V) (path tail : List V) : Prop :=
  tail.length = rest ∧ (current :: tail).IsChain g.simple.Adj ∧
    (current :: tail).getLast? = some target ∧ (path ++ tail).Nodup

theorem mem_below {l : List V} (hcurrent : current ∈ path) (hnodup : path.Nodup) :
    l ∈ below g target rest current path ↔
      ∃ tail, l = path ++ tail ∧ Completes g target rest current path tail := by
  induction rest generalizing current path with
  | zero =>
    unfold below
    constructor
    · intro hl
      split at hl
      · next htarget =>
        rw [mem_singleton] at hl
        exact ⟨[], by rw [hl, append_nil], rfl, .singleton _, by rw [htarget]; rfl,
          by rw [append_nil]; exact hnodup⟩
      · cases hl
    · rintro ⟨tail, rfl, hlength, -, hlast, -⟩
      obtain rfl := eq_nil_of_length_eq_zero hlength
      obtain rfl : current = target := Option.some.inj hlast
      rw [if_pos rfl, append_nil]
      exact mem_singleton_self _
  | succ rest ih =>
    unfold below
    by_cases htarget : current = target
    · rw [if_pos htarget]
      refine ⟨fun hl => (not_mem_nil hl).elim, ?_⟩
      -- A path that is at the target cannot come back to it.
      rintro ⟨_ | ⟨node, tail⟩, -, hlength, -, hlast, hdistinct⟩
      · cases hlength
      · rw [getLast?_cons_cons] at hlast
        exact ((nodup_append.1 hdistinct).2.2 current hcurrent target
          (mem_of_getLast? hlast) htarget).elim
    · rw [if_neg htarget]
      simp only [mem_flatMap, mem_reverse, mem_filter, decide_eq_true_eq]
      have hextend : ∀ node ∉ path, (path ++ [node]).Nodup := fun node hnode =>
        hnodup.append (nodup_singleton _) (by simpa using hnode)
      constructor
      · rintro ⟨node, ⟨hadj, hnew⟩, hl⟩
        obtain ⟨tail, rfl, hlength, hchain, hlast, hdistinct⟩ :=
          (ih (by simp) (hextend node hnew)).1 hl
        refine ⟨node :: tail, by simp, by simp [hlength], .cons_cons hadj hchain, ?_, ?_⟩
        · rw [getLast?_cons_cons, hlast]
        · rwa [append_assoc] at hdistinct
      · rintro ⟨_ | ⟨node, tail⟩, rfl, hlength, hchain, hlast, hdistinct⟩
        · cases hlength
        · have hnew : node ∉ path := fun hnode =>
            (nodup_append.1 hdistinct).2.2 node hnode node mem_cons_self rfl
          rw [isChain_cons_cons] at hchain
          rw [getLast?_cons_cons] at hlast
          refine ⟨node, ⟨hchain.1, hnew⟩, (ih (by simp) (hextend node hnew)).2
            ⟨tail, by simp, by simpa using hlength, hchain.2, hlast, ?_⟩⟩
          rwa [append_assoc]

theorem path_of_mem_below {l : List V} (h : l ∈ below g target rest current path) : path <+: l := by
  induction rest generalizing current path with
  | zero =>
    unfold below at h
    split at h
    · rw [mem_singleton.1 h]
    · cases h
  | succ rest ih =>
    unfold below at h
    split at h
    · cases h
    · obtain ⟨node, -, h⟩ := mem_flatMap.1 h
      exact (prefix_append path [node]).trans (ih h)

theorem below_nodup : (below g target rest current path).Nodup := by
  induction rest generalizing current path with
  | zero =>
    unfold below
    split
    · exact nodup_singleton _
    · exact nodup_nil
  | succ rest ih =>
    unfold below
    split
    · exact nodup_nil
    · rw [nodup_flatMap]
      refine ⟨fun node _ => ih, ?_⟩
      refine (nodup_reverse.2 ((g.nodup current).filter _)).imp fun {a b} hne => ?_
      -- Two neighbours lead to paths that differ after `path`.
      intro l ha hb
      have hsame := prefix_of_prefix_length_le (path_of_mem_below ha)
        (path_of_mem_below hb) (by simp)
      exact hne (by simpa using hsame.eq_of_length (by simp))

/-- The search ends and returns every shortest path once and nothing else. -/
theorem equal_cost_paths_exact (g : UnGraph V) (start target : V) :
    ∃ rounds paths,
      (∀ fuel, findEqualCostPathsIn g start target (g.simple.dist start target) (fuel + rounds) =
        some paths) ∧
      paths.Nodup ∧
      ∀ l, l ∈ paths ↔ ∃ w : g.simple.Walk start target,
        w.length = g.simple.dist start target ∧ w.support = l := by
  obtain ⟨rounds, hrounds⟩ := searchLoop_entry g target
    (g.simple.dist start target) start [start] 0 (Nat.zero_add _)
  refine ⟨rounds, below g target (g.simple.dist start target) start [start],
    fun fuel => (hrounds fuel [] []).trans ?_, below_nodup, fun l => ?_⟩
  · unfold searchLoop
    rfl
  rw [mem_below (mem_singleton_self _) (nodup_singleton _)]
  constructor
  · rintro ⟨tail, rfl, hlength, hchain, hlast, -⟩
    obtain ⟨w, hw⟩ : ∃ w : g.simple.Walk start target, w.support = start :: tail := by
      obtain rfl : (start :: tail).getLast (cons_ne_nil _ _) = target :=
        Option.some.inj ((getLast?_eq_some_getLast _).symm.trans hlast)
      exact ⟨_, SimpleGraph.Walk.support_ofSupport (cons_ne_nil _ _) hchain⟩
    have hcount := w.length_support
    rw [hw, length_cons, hlength] at hcount
    exact ⟨w, by omega, hw⟩
  · -- A shortest walk repeats no node, so the filter of the search lets it through.
    rintro ⟨w, hlength, rfl⟩
    have hpath := w.isPath_of_length_eq_dist hlength
    refine ⟨w.support.tail, w.cons_tail_support.symm, ?_, ?_, ?_, ?_⟩
    · rw [length_tail, w.length_support, hlength, Nat.add_sub_cancel]
    · rw [w.cons_tail_support]
      exact w.isChain_adj_support
    · rw [w.cons_tail_support, getLast?_eq_some_getLast w.support_ne_nil, w.getLast_support]
    · rw [singleton_append, w.cons_tail_support]
      exact hpath.support_nodup

end Days.Topos
