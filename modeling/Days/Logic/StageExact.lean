/-
  Days.Logic.StageExact — the cycle check of stage groups is exact.

  The check walks chains when every group follows at most one other, and
  depth first otherwise. Both walks end on every table; a table passes when
  no group comes after itself, and a refusal names a group that does; on a
  table both walks can take they give the same answer.
-/
import Days.Logic.StageCycles
import Mathlib.Algebra.Order.BigOperators.Group.Finset

namespace Days.Compile

open List Function Finset Option

variable {next a current name : String} {cursor fuel k : Nat} {names seen : List String}
  {marks : String → Mark} {stack : List (String × Nat)} {e : CompileError}
  {groups : List (String × StageGroup)}

/-! ## §1. The `after` relation. -/

/-- The group lists the other in its `after`. -/
def Follows (groups : List (String × StageGroup)) (name a : String) : Prop :=
  a ∈ afterOf groups name

/-- No group comes after itself. -/
def Acyclic (groups : List (String × StageGroup)) : Prop :=
  ∀ name, ¬ Relation.TransGen (Follows groups) name name

theorem mem_names_of_follows (h : Follows groups name a) : name ∈ groups.map (·.1) := by
  unfold Follows afterOf at h
  split at h
  · next group hgroup => exact mem_map_of_mem (mem_of_groupOf hgroup)
  · cases h

theorem Layered.acyclic (h : Layered groups) : Acyclic groups := by
  obtain ⟨depth, hdepth⟩ := h
  have hfalls : ∀ {name a}, Relation.TransGen (Follows groups) name a → depth a < depth name := by
    intro name a hpath
    induction hpath with
    | single hstep => exact hdepth _ (mem_names_of_follows hstep) _ hstep
    | tail _ hstep ih => exact (hdepth _ (mem_names_of_follows hstep) _ hstep).trans ih
  intro name hcycle
  exact Nat.lt_irrefl _ (hfalls hcycle)

theorem follows_of_afterOf_cons {rest : List String} (h : afterOf groups name = a :: rest) :
    Follows groups name a := by
  unfold Follows
  rw [h]
  exact mem_cons_self

/-- The names of a table, and those its groups list. -/
def knownNames (groups : List (String × StageGroup)) : Finset String :=
  (groups.map (·.1) ++ groups.flatMap (·.2.after)).toFinset

theorem Follows.known (h : Follows groups name a) : a ∈ knownNames groups := by
  unfold Follows afterOf at h
  split at h
  · next group hgroup =>
    have hlisted : a ∈ groups.flatMap (·.2.after) :=
      mem_flatMap.2 ⟨_, mem_of_groupOf hgroup, h⟩
    simpa [knownNames] using .inr (by simpa using hlisted)
  · cases h

theorem known_of_name (h : name ∈ groups.map (·.1)) : name ∈ knownNames groups := by
  simpa [knownNames] using .inl (by simpa using h)

/-! ## §2. The walks end. -/

/-- A chain walk sees a new known name at each step. -/
theorem walkChain_isSome (hnodup : seen.Nodup) (hseen : ∀ name ∈ seen, name ∈ knownNames groups)
    (hcurrent : current ∈ knownNames groups) (hfuel : (knownNames groups).card < fuel + seen.length) :
    (walkChain groups fuel seen current).isSome := by
  induction fuel generalizing seen current with
  | zero =>
    have hsub : seen.toFinset ⊆ knownNames groups := by
      intro name hname
      exact hseen name (mem_toFinset.1 hname)
    have hcard := card_le_card hsub
    rw [toFinset_card_of_nodup hnodup] at hcard
    omega
  | succ fuel ih =>
    unfold walkChain
    split
    · rfl
    · next hnew =>
      split
      · next next rest hafter =>
        have hfollows := follows_of_afterOf_cons hafter
        apply ih (nodup_cons.2 ⟨hnew, hnodup⟩)
        · intro name hname
          rcases mem_cons.1 hname with rfl | hname
          · exact hcurrent
          · exact hseen name hname
        · exact hfollows.known
        · rw [length_cons]
          omega
      · rfl

theorem walkChains_isSome (hnames : ∀ name ∈ names, name ∈ knownNames groups)
    (hfuel : (knownNames groups).card < fuel) : (walkChains groups fuel names).isSome := by
  induction names with
  | nil => rfl
  | cons start rest ih =>
    have hstart : (walkChain groups fuel [] start).isSome :=
      walkChain_isSome nodup_nil (by simp) (hnames start mem_cons_self) (by simpa using hfuel)
    obtain ⟨first, hfirst⟩ := isSome_iff_exists.1 hstart
    unfold walkChains
    rw [hfirst]
    cases first with
    | error _ => rfl
    | ok _ => exact ih fun name hname => hnames name (mem_cons_of_mem _ hname)

def unvisitedNames (groups : List (String × StageGroup)) (marks : String → Mark) : Finset String :=
  {name ∈ knownNames groups | marks name = .unvisited}

theorem unvisitedNames_update {mark : Mark} (h : mark ≠ .unvisited) :
    unvisitedNames groups (update marks name mark) = (unvisitedNames groups marks).erase name := by
  ext other
  by_cases heq : other = name
  · simp [unvisitedNames, heq, h]
  · simp [unvisitedNames, heq]

/-- A name costs a step for each group it lists, and one to finish. -/
def nameSteps (groups : List (String × StageGroup)) (name : String) : Nat :=
  (afterOf groups name).length + 1

/-- What a depth-first walk still has to do: the names it has not met, and the rest of its path. -/
def pendingSteps (groups : List (String × StageGroup)) (marks : String → Mark)
    (stack : List (String × Nat)) : Nat :=
  ∑ name ∈ unvisitedNames groups marks, nameSteps groups name +
    (stack.map fun entry => (afterOf groups entry.1).length - entry.2 + 1).sum

theorem pendingSteps_push (hname : name ∈ knownNames groups) (hmark : marks name = .unvisited) :
    pendingSteps groups (Function.update marks name .onPath) ((name, 0) :: stack) =
      pendingSteps groups marks stack := by
  have hmem : name ∈ unvisitedNames groups marks := Finset.mem_filter.2 ⟨hname, hmark⟩
  have hsplit := Finset.add_sum_erase (unvisitedNames groups marks) (nameSteps groups) hmem
  unfold pendingSteps
  rw [unvisitedNames_update (by decide), ← hsplit]
  simp only [List.map_cons, List.sum_cons, nameSteps]
  omega

/-- Each step of the walk leaves one step less. -/
theorem walkStack_isSome (h : pendingSteps groups marks stack < fuel) :
    (walkStack groups fuel marks stack).isSome := by
  induction fuel generalizing marks stack with
  | zero => omega
  | succ fuel ih =>
    cases stack with
    | nil => rfl
    | cons entry stack =>
      obtain ⟨current, cursor⟩ := entry
      unfold walkStack
      split
      · next next hnext =>
        obtain ⟨hcursor, -⟩ := List.getElem?_eq_some_iff.1 hnext
        -- The cursor has moved past one listed group.
        have hmoved : pendingSteps groups marks ((current, cursor + 1) :: stack) < fuel := by
          unfold pendingSteps at h ⊢
          simp only [List.map_cons, List.sum_cons] at h ⊢
          omega
        split
        · rfl
        · next hmark =>
          apply ih
          have hfollows : Follows groups current next := List.mem_of_getElem? hnext
          rw [pendingSteps_push hfollows.known hmark]
          exact hmoved
        · exact ih hmoved
      · next hnone =>
        apply ih
        have hsub : unvisitedNames groups (Function.update marks current .finished) ⊆
            unvisitedNames groups marks := by
          rw [unvisitedNames_update (by decide)]
          exact Finset.erase_subset _ _
        have hsum := Finset.sum_le_sum_of_subset (f := nameSteps groups) hsub
        unfold pendingSteps at h ⊢
        simp only [List.map_cons, List.sum_cons] at h
        omega

/-- The steps of a walk over the whole table. -/
def tableSteps (groups : List (String × StageGroup)) : Nat :=
  ∑ name ∈ knownNames groups, nameSteps groups name

theorem walkStart_isSome {start : String} (hstart : start ∈ knownNames groups)
    (hmark : marks start = .unvisited) (hfuel : tableSteps groups < fuel) :
    (walkStack groups fuel (update marks start .onPath) [(start, 0)]).isSome := by
  apply walkStack_isSome
  rw [pendingSteps_push hstart hmark]
  have hsub : unvisitedNames groups marks ⊆ knownNames groups := filter_subset _ _
  have hsum := sum_le_sum_of_subset (f := nameSteps groups) hsub
  unfold tableSteps at hfuel
  simpa [pendingSteps] using hsum.trans_lt hfuel

theorem walkStarts_isSome (hnames : ∀ name ∈ names, name ∈ knownNames groups)
    (hfuel : tableSteps groups < fuel) : (walkStarts groups fuel marks names).isSome := by
  induction names generalizing marks with
  | nil => rfl
  | cons start rest ih =>
    have hrest : ∀ name ∈ rest, name ∈ knownNames groups :=
      fun name hname => hnames name (mem_cons_of_mem _ hname)
    unfold walkStarts
    split
    · exact ih hrest
    · next hmark =>
      have hunvisited : marks start = .unvisited := by simpa using hmark
      have hwalk := walkStart_isSome (hnames start mem_cons_self) hunvisited hfuel
      obtain ⟨result, hresult⟩ := isSome_iff_exists.1 hwalk
      rw [hresult]
      cases result with
      | error _ => rfl
      | ok marks' => exact ih hrest

/-! ## §3. A refusal names a group on a cycle. -/

/-- What leads to a name leads to the names it follows. -/
theorem seen_step (hnext : Follows groups current next)
    (hseen : ∀ name ∈ seen, Relation.TransGen (Follows groups) name current) :
    ∀ name ∈ current :: seen, Relation.TransGen (Follows groups) name next := by
  intro name hname
  rcases mem_cons.1 hname with rfl | hname
  · exact .single hnext
  · exact (hseen name hname).tail hnext

theorem walkChain_error (h : walkChain groups fuel seen current = some (.error e))
    (hseen : ∀ name ∈ seen, Relation.TransGen (Follows groups) name current) :
    ∃ name, e = cycleError name ∧ Relation.ReflTransGen (Follows groups) current name ∧
      Relation.TransGen (Follows groups) name name := by
  induction fuel generalizing seen current with
  | zero => cases h
  | succ fuel ih =>
    unfold walkChain at h
    split at h
    · next hmem =>
      cases h
      exact ⟨current, rfl, .refl, hseen current hmem⟩
    · split at h
      · next next rest hafter =>
        have hfollows := follows_of_afterOf_cons hafter
        obtain ⟨name, he, hreach, hcycle⟩ := ih h (seen_step hfollows hseen)
        exact ⟨name, he, .head hfollows hreach, hcycle⟩
      · cases h

theorem walkChains_error (h : walkChains groups fuel names = some (.error e)) :
    ∃ name, e = cycleError name ∧ Relation.TransGen (Follows groups) name name := by
  induction names with
  | nil => cases h
  | cons start rest ih =>
    unfold walkChains at h
    split at h
    · exact ih h
    · obtain ⟨name, he, -, hcycle⟩ := walkChain_error h (by simp)
      exact ⟨name, he, hcycle⟩

/-- The stack of a walk from a start is a path, and holds the names marked on it. -/
structure OnTrail (groups : List (String × StageGroup)) (start : String) (marks : String → Mark)
    (stack : List (String × Nat)) : Prop where
  onPath : ∀ name, marks name = .onPath → name ∈ stack.map (·.1)
  path : (stack.map (·.1)).Pairwise fun upper lower => Relation.TransGen (Follows groups) lower upper
  reached : ∀ name ∈ stack.map (·.1), Relation.ReflTransGen (Follows groups) start name

theorem OnTrail.push {start : String} {cursor' : Nat}
    (h : OnTrail groups start marks ((current, cursor) :: stack))
    (hnext : Follows groups current next) :
    OnTrail groups start (Function.update marks next .onPath)
      ((next, 0) :: (current, cursor') :: stack) := by
  obtain ⟨honPath, hpath, hreached⟩ := h
  simp only [List.map_cons] at honPath hpath hreached
  have habove := (List.pairwise_cons.1 hpath).1
  refine ⟨?_, ?_, ?_⟩
  · intro name hname
    by_cases heq : name = next
    · simp [heq]
    · rw [Function.update_of_ne heq] at hname
      exact List.mem_cons_of_mem _ (honPath name hname)
  · simp only [List.map_cons]
    exact List.pairwise_cons.2 ⟨seen_step hnext habove, hpath⟩
  · intro name hname
    rcases List.mem_cons.1 hname with rfl | hname
    · exact (hreached current List.mem_cons_self).tail hnext
    · exact hreached name hname

theorem OnTrail.pop {start : String} (h : OnTrail groups start marks ((current, cursor) :: stack)) :
    OnTrail groups start (update marks current .finished) stack := by
  obtain ⟨honPath, hpath, hreached⟩ := h
  simp only [List.map_cons] at honPath hpath hreached
  refine ⟨?_, (List.pairwise_cons.1 hpath).2, fun name hname => hreached name (List.mem_cons_of_mem _ hname)⟩
  intro name hname
  by_cases heq : name = current
  · simp [heq] at hname
  · rw [update_of_ne heq] at hname
    rcases mem_cons.1 (honPath name hname) with hcurrent | hrest
    · exact absurd hcurrent heq
    · exact hrest

/-- A name on the path that the top lists is on a cycle. -/
theorem OnTrail.cycle {start : String} (h : OnTrail groups start marks ((current, cursor) :: stack))
    (hnext : Follows groups current next) (hmark : marks next = .onPath) :
    Relation.ReflTransGen (Follows groups) start next ∧ Relation.TransGen (Follows groups) next next := by
  have hmem := h.onPath next hmark
  refine ⟨h.reached next hmem, ?_⟩
  have hpath := h.path
  simp only [List.map_cons] at hmem hpath
  rcases List.mem_cons.1 hmem with rfl | hbelow
  · exact .single hnext
  · exact ((pairwise_cons.1 hpath).1 next hbelow).tail hnext

theorem walkStack_trail {start : String} {result : Except CompileError (String → Mark)}
    (h : walkStack groups fuel marks stack = some result) (ht : OnTrail groups start marks stack) :
    (∀ marks', result = .ok marks' → (∀ name, marks' name ≠ .onPath) ∧
        ∀ name, marks' name = .finished →
          marks name = .finished ∨ Relation.ReflTransGen (Follows groups) start name) ∧
      ∀ e, result = .error e → ∃ name, e = cycleError name ∧
        Relation.ReflTransGen (Follows groups) start name ∧
        Relation.TransGen (Follows groups) name name := by
  induction fuel generalizing marks stack with
  | zero => cases h
  | succ fuel ih =>
    cases stack with
    | nil =>
      cases h
      refine ⟨?_, fun e he => by cases he⟩
      intro marks' hmarks
      cases hmarks
      exact ⟨fun name hname => absurd (ht.onPath name hname) (by simp), fun name hname => .inl hname⟩
    | cons entry stack =>
      obtain ⟨current, cursor⟩ := entry
      unfold walkStack at h
      split at h
      · next next hnext =>
        have hfollows : Follows groups current next := mem_of_getElem? hnext
        split at h
        · next hmark =>
          cases h
          refine ⟨fun marks' hmarks => (by cases hmarks), ?_⟩
          intro e he
          cases he
          exact ⟨next, rfl, ht.cycle hfollows hmark⟩
        · next hmark =>
          obtain ⟨hok, herror⟩ := ih h (ht.push hfollows)
          refine ⟨fun marks' hmarks => ⟨(hok marks' hmarks).1, fun name hname => ?_⟩, herror⟩
          refine ((hok marks' hmarks).2 name hname).imp_left fun hfinished => ?_
          by_cases heq : name = next
          · simp [heq] at hfinished
          · rwa [update_of_ne heq] at hfinished
        · exact ih h ⟨ht.onPath, ht.path, ht.reached⟩
      · -- The name taken off the path is the only one newly finished.
        obtain ⟨hok, herror⟩ := ih h ht.pop
        refine ⟨fun marks' hmarks => ⟨(hok marks' hmarks).1, fun name hname => ?_⟩, herror⟩
        rcases (hok marks' hmarks).2 name hname with hfinished | hreach
        · by_cases heq : name = current
          · exact .inr (heq ▸ ht.reached current (by simp))
          · rw [update_of_ne heq] at hfinished
            exact .inl hfinished
        · exact .inr hreach

theorem OnTrail.start {start : String} (hmarks : ∀ name, marks name ≠ .onPath) :
    OnTrail groups start (update marks start .onPath) [(start, 0)] := by
  refine ⟨?_, by simp, ?_⟩
  · intro name hname
    by_cases heq : name = start
    · simp [heq]
    · rw [update_of_ne heq] at hname
      exact absurd hname (hmarks name)
  · intro name hname
    obtain rfl : name = start := by simpa using hname
    exact .refl

theorem walkStarts_error (h : walkStarts groups fuel marks names = some (.error e))
    (hmarks : ∀ name, marks name ≠ .onPath) :
    ∃ name, e = cycleError name ∧ Relation.TransGen (Follows groups) name name := by
  induction names generalizing marks with
  | nil => cases h
  | cons start rest ih =>
    unfold walkStarts at h
    split at h
    · exact ih h hmarks
    · cases hwalk : walkStack groups fuel (update marks start .onPath) [(start, 0)] with
      | none =>
        rw [hwalk] at h
        cases h
      | some result =>
        obtain ⟨hok, herror⟩ := walkStack_trail hwalk (OnTrail.start hmarks)
        rw [hwalk] at h
        cases result with
        | ok marks' => exact ih h (hok marks' rfl).1
        | error e' =>
          cases h
          obtain ⟨name, hname, -, hcycle⟩ := herror e rfl
          exact ⟨name, hname, hcycle⟩

/-! ## §4. A table both walks can take. -/

/-- The marks of a walk along one chain: its path, and finished names whose chains end. -/
structure ChainMarks (groups : List (String × StageGroup)) (marks : String → Mark)
    (path : List String) : Prop where
  onPath : ∀ name, marks name = .onPath ↔ name ∈ path
  finished : ∀ name, marks name = .finished → ∃ k, Ends groups name k

theorem ChainMarks.push {path : List String} (h : ChainMarks groups marks path) (next : String) :
    ChainMarks groups (update marks next .onPath) (next :: path) := by
  refine ⟨fun name => ?_, fun name hname => ?_⟩
  · by_cases heq : name = next
    · simp [heq]
    · rw [update_of_ne heq, h.onPath]
      simp [heq]
  · by_cases heq : name = next
    · simp [heq] at hname
    · rw [update_of_ne heq] at hname
      exact h.finished name hname

section Short

variable (hshort : ∀ name, (afterOf groups name).length ≤ 1)

include hshort

theorem Ends.reaches (h : Ends groups name k) (ha : Relation.TransGen (Follows groups) name a) :
    ∃ j < k, Ends groups a j := by
  induction ha with
  | single hstep =>
    obtain ⟨j, rfl, hend⟩ := h.after hshort hstep
    exact ⟨j, Nat.lt_succ_self j, hend⟩
  | tail _ hstep ih =>
    obtain ⟨i, hi, hmiddle⟩ := ih
    obtain ⟨j, rfl, hend⟩ := hmiddle.after hshort hstep
    exact ⟨j, by omega, hend⟩

theorem Ends.of_reaches (h : Ends groups name k)
    (ha : Relation.ReflTransGen (Follows groups) name a) : ∃ j, Ends groups a j := by
  rcases Relation.reflTransGen_iff_eq_or_transGen.1 ha with rfl | ha
  · exact ⟨k, h⟩
  · obtain ⟨j, -, hend⟩ := h.reaches hshort ha
    exact ⟨j, hend⟩

/-- A chain that ends leads to no cycle. -/
theorem Ends.no_cycle (h : Ends groups name k) (ha : Relation.ReflTransGen (Follows groups) name a) :
    ¬ Relation.TransGen (Follows groups) a a := by
  intro hcycle
  obtain ⟨i, hi⟩ := h.of_reaches hshort ha
  obtain ⟨j, hj, hend⟩ := hi.reaches hshort hcycle
  exact absurd (hend.unique hi) (by omega)

/-- Where a chain walk is refused, the depth-first walk along the same path is refused for the
    same name. -/
theorem walkStack_of_walkChain (stack : List (String × Nat))
    (h : walkChain groups fuel seen current = some (.error e)) (hnew : current ∉ seen)
    (hseen : ∀ name ∈ seen, Relation.TransGen (Follows groups) name current)
    (hmarks : ChainMarks groups marks (current :: seen)) :
    ∃ fuel', walkStack groups fuel' marks ((current, 0) :: stack) = some (.error e) := by
  induction fuel generalizing seen current marks stack with
  | zero => cases h
  | succ fuel ih =>
    unfold walkChain at h
    rw [if_neg hnew] at h
    cases hafter : afterOf groups current with
    | nil =>
      rw [hafter] at h
      cases h
    | cons next rest =>
      rw [hafter] at h
      have hfollows := follows_of_afterOf_cons hafter
      have hseen' := seen_step hfollows hseen
      have hat : (afterOf groups current)[0]? = some next := by simp [hafter]
      by_cases hold : next ∈ current :: seen
      · cases fuel with
        | zero => cases h
        | succ fuel =>
          unfold walkChain at h
          dsimp only at h
          rw [if_pos hold] at h
          cases h
          refine ⟨1, ?_⟩
          unfold walkStack
          simp only [hat, (hmarks.onPath next).2 hold]
      · -- A finished name would end the chain, which leads to a cycle.
        have hmark : marks next = .unvisited := by
          cases hcase : marks next with
          | unvisited => rfl
          | onPath => exact absurd ((hmarks.onPath next).1 hcase) hold
          | finished =>
            obtain ⟨k, hk⟩ := hmarks.finished next hcase
            obtain ⟨name, -, hreach, hcycle⟩ := walkChain_error h hseen'
            exact absurd hcycle (hk.no_cycle hshort hreach)
        obtain ⟨fuel', hwalk⟩ := ih ((current, 0 + 1) :: stack) h hold hseen'
          (hmarks.push next)
        refine ⟨fuel' + 1, ?_⟩
        unfold walkStack
        simp only [hat, hmark]
        exact hwalk

theorem walkChain_of_ends {start : String} (h : Ends groups start k)
    (hsome : (walkChain groups fuel [] start).isSome) :
    walkChain groups fuel [] start = some (.ok ()) := by
  obtain ⟨result, hresult⟩ := isSome_iff_exists.1 hsome
  cases result with
  | ok _ => exact hresult
  | error e =>
    obtain ⟨name, -, hreach, hcycle⟩ := walkChain_error hresult (by simp)
    exact absurd hcycle (h.no_cycle hshort hreach)

/-- The two walks give the same answer. -/
theorem walkStarts_eq_walkChains (hnames : ∀ name ∈ names, name ∈ knownNames groups)
    (hchain : (knownNames groups).card < fuel) (hfuel : tableSteps groups < fuel)
    (hmarks : ChainMarks groups marks []) :
    walkStarts groups fuel marks names = walkChains groups fuel names := by
  induction names generalizing marks with
  | nil => rfl
  | cons start rest ih =>
    have hknown := hnames start mem_cons_self
    have hrest : ∀ name ∈ rest, name ∈ knownNames groups :=
      fun name hname => hnames name (mem_cons_of_mem _ hname)
    have hsome : (walkChain groups fuel [] start).isSome :=
      walkChain_isSome nodup_nil (by simp) hknown (by simpa using hchain)
    have hnone : ∀ name, marks name ≠ .onPath :=
      fun name hname => absurd ((hmarks.onPath name).1 hname) not_mem_nil
    unfold walkStarts walkChains
    cases hmark : marks start with
    | onPath => exact absurd hmark (hnone start)
    | finished =>
      obtain ⟨k, hk⟩ := hmarks.finished start hmark
      rw [if_pos (by simp), walkChain_of_ends hshort hk hsome]
      exact ih hrest hmarks
    | unvisited =>
      rw [if_neg (by simp)]
      obtain ⟨walked, hwalked⟩ := isSome_iff_exists.1 (walkStart_isSome hknown hmark hfuel)
      obtain ⟨hok, herror⟩ := walkStack_trail hwalked (OnTrail.start hnone)
      obtain ⟨first, hfirst⟩ := isSome_iff_exists.1 hsome
      rw [hwalked, hfirst]
      cases first with
      | ok _ =>
        obtain ⟨k, hk⟩ := walkChain_ok hfirst
        cases walked with
        | error e =>
          obtain ⟨name, -, hreach, hcycle⟩ := herror e rfl
          exact absurd hcycle (hk.no_cycle hshort hreach)
        | ok marks' =>
          obtain ⟨hnone', hfinished⟩ := hok marks' rfl
          refine ih hrest ⟨fun name => iff_of_false (hnone' name) not_mem_nil, fun name hname => ?_⟩
          rcases hfinished name hname with hold | hreach
          · exact (hmarks.push start).finished name hold
          · exact hk.of_reaches hshort hreach
      | error e =>
        obtain ⟨fuel', hwalk⟩ := walkStack_of_walkChain hshort [] hfirst (by simp) (by simp)
          (hmarks.push start)
        -- Both runs of the depth-first walk ended, so they ended alike.
        have hmore := walkStack_more hwalk fuel
        have hmore' := walkStack_more hwalked fuel'
        rw [Nat.add_comm, hmore] at hmore'
        obtain rfl : walked = .error e := (some.inj hmore').symm
        rfl

end Short

/-! ## §5. The check. -/

theorem card_le_tableSteps : (knownNames groups).card ≤ tableSteps groups := by
  rw [card_eq_sum_ones]
  exact Finset.sum_le_sum fun name _ => Nat.le_add_left 1 _

/-- The names of the table in the order of the check. -/
def sortedNames (groups : List (String × StageGroup)) : List String :=
  (groups.map (·.1)).insertionSort (· ≤ ·)

theorem known_of_sorted (h : name ∈ sortedNames groups) : name ∈ knownNames groups :=
  known_of_name ((mem_insertionSort _).1 h)

theorem checkCycles_isSome (hfuel : tableSteps groups < fuel) :
    (checkCycles groups fuel).isSome := by
  unfold checkCycles
  split
  · exact walkChains_isSome (fun _ => known_of_sorted) (card_le_tableSteps.trans_lt hfuel)
  · exact walkStarts_isSome (fun _ => known_of_sorted) hfuel

theorem checkCycles_error (h : checkCycles groups fuel = some (.error e)) :
    ∃ name, e = cycleError name ∧ Relation.TransGen (Follows groups) name name := by
  unfold checkCycles at h
  split at h
  · exact walkChains_error h
  · exact walkStarts_error h (by simp)

/-- The check passes the tables without a cycle, and names a group on a cycle of the others. -/
theorem checkCycles_exact (hfuel : tableSteps groups < fuel) :
    (Acyclic groups ∧ checkCycles groups fuel = some (.ok ())) ∨
      ∃ name, Relation.TransGen (Follows groups) name name ∧
        checkCycles groups fuel = some (.error (cycleError name)) := by
  obtain ⟨result, hresult⟩ := isSome_iff_exists.1 (checkCycles_isSome hfuel)
  cases result with
  | ok _ => exact .inl ⟨(checkCycles_ok hresult).acyclic, hresult⟩
  | error e =>
    obtain ⟨name, rfl, hcycle⟩ := checkCycles_error hresult
    exact .inr ⟨name, hcycle, hresult⟩

/-- Both walks end on every table, and agree on a table whose groups follow at most one other.
    Given names that resolve, the resolution accepts the table when no group comes after itself,
    and otherwise names a group that does. -/
theorem stage_group_cycles_exact :
    (∀ (groups : List (String × StageGroup)) (fuel : Nat), tableSteps groups < fuel →
      (walkChains groups fuel (sortedNames groups)).isSome ∧
      (walkStarts groups fuel (fun _ => .unvisited) (sortedNames groups)).isSome ∧
      ((groups.all fun entry => entry.2.after.length ≤ 1) = true →
        walkChains groups fuel (sortedNames groups) =
          walkStarts groups fuel (fun _ => .unvisited) (sortedNames groups))) ∧
    ∀ (collectives : List CollectiveKey) (computes : List ComputeKey)
      (groups : List (String × StageGroup)) (fuel : Nat),
      collectGroups [] (namedGroups collectives computes) = .ok groups →
      checkDependents groups
        (collectives.map CollectiveKey.dependent ++ computes.map ComputeKey.dependent) = .ok () →
      tableSteps groups < fuel →
      (resolveStageGroups collectives computes fuel = some (.ok groups) ↔ Acyclic groups) ∧
      (¬ Acyclic groups → ∃ name, Relation.TransGen (Follows groups) name name ∧
        resolveStageGroups collectives computes fuel = some (.error (cycleError name))) := by
  refine ⟨?_, ?_⟩
  · intro groups fuel hfuel
    have hchain : (knownNames groups).card < fuel := card_le_tableSteps.trans_lt hfuel
    refine ⟨walkChains_isSome (fun _ => known_of_sorted) hchain,
      walkStarts_isSome (fun _ => known_of_sorted) hfuel, fun hshort => Eq.symm ?_⟩
    exact walkStarts_eq_walkChains (afterOf_short hshort) (fun _ => known_of_sorted) hchain hfuel
      ⟨by simp, by simp⟩
  · intro collectives computes groups fuel hcollect hchecked hfuel
    rcases checkCycles_exact hfuel with ⟨hacyclic, hcheck⟩ | ⟨name, hcycle, hcheck⟩
    · have hresolve : resolveStageGroups collectives computes fuel = some (.ok groups) := by
        unfold resolveStageGroups
        simp only [hcollect, hchecked, hcheck]
      exact ⟨⟨fun _ => hacyclic, fun _ => hresolve⟩, fun hnot => absurd hacyclic hnot⟩
    · have hresolve : resolveStageGroups collectives computes fuel =
          some (.error (cycleError name)) := by
        unfold resolveStageGroups
        simp only [hcollect, hchecked, hcheck]
      refine ⟨⟨fun hok => ?_, fun hacyclic => absurd hcycle (hacyclic name)⟩,
        fun _ => ⟨name, hcycle, hresolve⟩⟩
      rw [hresolve] at hok
      cases hok

/-- Two groups that join, and one after the join. -/
def joinedComputes : List ComputeKey :=
  [⟨"left", [0, 1], 5, []⟩, ⟨"right", [1, 0], 7, []⟩, ⟨"join", [0, 1], 2, ["left", "right"]⟩,
    ⟨"last", [0], 1, ["join"]⟩]

theorem stage_group_cycles_exact_joined :
    tableSteps (joinedComputes.map fun key => (key.name, .compute key)) < 20 ∧
    (resolveStageGroups [] joinedComputes 20 =
        some (.ok (joinedComputes.map fun key => (key.name, .compute key))) ↔
      Acyclic (joinedComputes.map fun key => (key.name, .compute key))) := by
  have hsteps : tableSteps (joinedComputes.map fun key => (key.name, .compute key)) < 20 := by
    decide +kernel
  refine ⟨hsteps, ?_⟩
  exact (stage_group_cycles_exact.2 [] joinedComputes _ 20 (by rfl) (by rfl) hsteps).1

end Days.Compile
