/-
  Days.Logic.StageCycles — stage groups that pass the cycle check.

  Both walks of the check give every group a depth greater than that of the
  groups it follows: the length of its chain, or the order in which the
  depth-first walk finishes.
-/
import Days.Compile.Stages

namespace Days.Compile

open List Function

variable {name : String} {fuel : Nat} {fin names : List String} {stack : List (String × Nat)}
  {marks : String → Mark} {result : Except CompileError Unit}

/-- Every group is deeper than the groups it follows. -/
def Layered (groups : List (String × StageGroup)) : Prop :=
  ∃ depth : String → Nat, ∀ name ∈ groups.map (·.1), ∀ a ∈ afterOf groups name, depth a < depth name

/-! ## §1. Chains. -/

/-- The chain of a name ends after some steps. -/
inductive Ends (groups : List (String × StageGroup)) : String → Nat → Prop
  | stop {name : String} : afterOf groups name = [] → Ends groups name 0
  | next {name a : String} {rest : List String} {k : Nat} :
      afterOf groups name = a :: rest → Ends groups a k → Ends groups name (k + 1)

variable {groups : List (String × StageGroup)}

theorem Ends.unique {j k : Nat} (hj : Ends groups name j) (hk : Ends groups name k) : j = k := by
  induction hj generalizing k with
  | stop hafter =>
    cases hk with
    | stop _ => rfl
    | next hafter' _ => simp [hafter] at hafter'
  | next hafter _ ih =>
    cases hk with
    | stop hafter' => simp [hafter] at hafter'
    | next hafter' hrest =>
      rw [hafter] at hafter'
      cases hafter'
      rw [ih hrest]

/-- With at most one `after` each, the chain of what a name follows is one step shorter. -/
theorem Ends.after {a : String} {k : Nat} (hshort : ∀ name, (afterOf groups name).length ≤ 1)
    (h : Ends groups name k) (ha : a ∈ afterOf groups name) : ∃ j, k = j + 1 ∧ Ends groups a j := by
  cases h with
  | stop hafter => simp [hafter] at ha
  | @next _ b rest k hafter hrest =>
    have hlength := hshort name
    rw [hafter] at ha hlength
    obtain rfl : rest = [] := length_eq_zero_iff.1 (by simpa using hlength)
    obtain rfl : a = b := by simpa using ha
    exact ⟨k, rfl, hrest⟩

theorem walkChain_ok {seen : List String} (h : walkChain groups fuel seen name = some (.ok ())) :
    ∃ k, Ends groups name k := by
  induction fuel generalizing seen name with
  | zero => cases h
  | succ fuel ih =>
    unfold walkChain at h
    split at h
    · cases h
    · split at h
      · next a rest hafter =>
        obtain ⟨k, hk⟩ := ih h
        exact ⟨k + 1, .next hafter hk⟩
      · next hafter => exact ⟨0, .stop hafter⟩

theorem walkChains_ok (h : walkChains groups fuel names = some (.ok ())) :
    ∀ name ∈ names, ∃ k, Ends groups name k := by
  induction names with
  | nil => simp
  | cons start rest ih =>
    unfold walkChains at h
    split at h
    · next hstart =>
      intro name hname
      rcases mem_cons.1 hname with rfl | hname
      · exact walkChain_ok hstart
      · exact ih h name hname
    · next hother => exact absurd h hother

open Classical in
theorem layered_of_chains (hshort : ∀ name, (afterOf groups name).length ≤ 1)
    (hnames : ∀ name ∈ groups.map (·.1), name ∈ names)
    (h : walkChains groups fuel names = some (.ok ())) : Layered groups := by
  refine ⟨fun name => if hends : ∃ k, Ends groups name k then hends.choose else 0, ?_⟩
  intro name hname a ha
  obtain ⟨k, hk⟩ := walkChains_ok h name (hnames name hname)
  -- The chain of the name is one step and the chain of what it follows.
  obtain ⟨j, rfl, hrest⟩ := hk.after hshort ha
  have ha' : ∃ k, Ends groups a k := ⟨j, hrest⟩
  have hname' : ∃ k, Ends groups name k := ⟨j + 1, hk⟩
  dsimp only
  rw [dif_pos ha', dif_pos hname', ha'.choose_spec.unique hrest, hname'.choose_spec.unique hk]
  omega

/-! ## §2. The depth-first walk. -/

/-- What has finished, newest first: everything after what it follows. -/
def FinishedOrder (groups : List (String × StageGroup)) (fin : List String) : Prop :=
  ∀ newer name older, fin = newer ++ name :: older → ∀ a ∈ afterOf groups name, a ∈ older

/-- Of each name on the stack, what its cursor has passed is finished or lies right above it. -/
def StackOk (groups : List (String × StageGroup)) (fin : List String) :
    Option String → List (String × Nat) → Prop
  | _, [] => True
  | above, (name, cursor) :: rest =>
    (∀ i < cursor, ∀ a, (afterOf groups name)[i]? = some a → a ∈ fin ∨ above = some a) ∧
      StackOk groups fin (some name) rest

theorem StackOk.mono {above : Option String} (h : StackOk groups fin above stack) :
    StackOk groups (name :: fin) above stack := by
  induction stack generalizing above with
  | nil => trivial
  | cons entry rest ih =>
    refine ⟨fun i hi a ha => ?_, ih h.2⟩
    rcases h.1 i hi a ha with hfin | habove
    · exact .inl (mem_cons_of_mem _ hfin)
    · exact .inr habove

/-- The name right above the stack has finished. -/
theorem StackOk.pop (h : StackOk groups fin (some name) stack) :
    StackOk groups (name :: fin) none stack := by
  cases stack with
  | nil => trivial
  | cons entry rest =>
    refine ⟨fun i hi a ha => .inl ?_, StackOk.mono h.2⟩
    rcases h.1 i hi a ha with hfin | habove
    · exact mem_cons_of_mem _ hfin
    · cases habove
      exact mem_cons_self

/-- The walk with its marks and its stack. -/
structure Walking (groups : List (String × StageGroup)) (marks : String → Mark)
    (stack : List (String × Nat)) (fin : List String) : Prop where
  finished : ∀ name, marks name = .finished ↔ name ∈ fin
  onPath : ∀ name, marks name = .onPath → name ∈ stack.map (·.1)
  order : FinishedOrder groups fin
  stack : StackOk groups fin none stack

/-- A name not seen before goes on the path. -/
theorem Walking.push {stack' : List (String × Nat)} (hw : Walking groups marks stack fin)
    (hmark : marks name = .unvisited) (hnames : stack'.map (·.1) = stack.map (·.1))
    (hstack : StackOk groups fin (some name) stack') :
    Walking groups (update marks name .onPath) ((name, 0) :: stack') fin := by
  refine ⟨fun other => ?_, fun other hother => ?_, hw.order, by simp, hstack⟩
  · by_cases heq : other = name
    · subst heq
      rw [update_self, ← hw.finished, hmark]
      simp
    · rw [update_of_ne heq, hw.finished]
  · by_cases heq : other = name
    · simp [heq]
    · rw [update_of_ne heq] at hother
      rw [map_cons, hnames]
      exact mem_cons_of_mem _ (hw.onPath other hother)

theorem walkStack_ok {marks' : String → Mark}
    (h : walkStack groups fuel marks stack = some (.ok marks'))
    (hw : Walking groups marks stack fin) :
    ∃ fin', Walking groups marks' [] fin' ∧ (∀ name ∈ fin, name ∈ fin') ∧
      ∀ name ∈ stack.map (·.1), name ∈ fin' := by
  induction fuel generalizing marks stack fin with
  | zero => cases h
  | succ fuel ih =>
    cases stack with
    | nil =>
      cases h
      exact ⟨fin, hw, fun _ h => h, by simp⟩
    | cons entry stack =>
      obtain ⟨current, cursor⟩ := entry
      have htop := hw.stack.1
      unfold walkStack at h
      split at h
      · next next hnext =>
        split at h
        · cases h
        · next hmark =>
          -- A new name is pushed.
          have hpushed : Walking groups (update marks next .onPath)
              ((next, 0) :: (current, cursor + 1) :: stack) fin := by
            refine hw.push hmark rfl ⟨fun i hi a ha => ?_, hw.stack.2⟩
            rcases Nat.lt_succ_iff_lt_or_eq.1 hi with hlt | rfl
            · rcases htop i hlt a ha with hfin | habove
              · exact .inl hfin
              · cases habove
            · exact .inr (hnext.symm.trans ha)
          obtain ⟨fin', hw', hfin, hstack⟩ := ih h hpushed
          refine ⟨fin', hw', hfin, fun name hname => hstack name ?_⟩
          exact mem_cons_of_mem _ hname
        · next hmark =>
          -- A finished name is passed over.
          have hpassed : Walking groups marks ((current, cursor + 1) :: stack) fin := by
            refine ⟨hw.finished, hw.onPath, hw.order, fun i hi a ha => ?_, hw.stack.2⟩
            rcases Nat.lt_succ_iff_lt_or_eq.1 hi with hlt | rfl
            · exact htop i hlt a ha
            · obtain rfl : next = a := Option.some.inj (hnext.symm.trans ha)
              exact .inl ((hw.finished next).1 hmark)
          obtain ⟨fin', hw', hfin, hstack⟩ := ih h hpassed
          exact ⟨fin', hw', hfin, hstack⟩
      · next hnone =>
        -- The name has been followed to the end: it is finished.
        have hpopped : Walking groups (update marks current .finished) stack
            (current :: fin) := by
          refine ⟨fun name => ?_, fun name hname => ?_, ?_, hw.stack.2.pop⟩
          · by_cases heq : name = current
            · simp [heq]
            · rw [update_of_ne heq, hw.finished]
              simp [heq]
          · by_cases heq : name = current
            · simp [heq] at hname
            · rw [update_of_ne heq] at hname
              have := hw.onPath name hname
              simpa [heq] using this
          · intro newer name older hsplit a ha
            cases newer with
            | nil =>
              obtain ⟨rfl, rfl⟩ : current = name ∧ fin = older := by simpa using hsplit
              obtain ⟨i, hi⟩ := mem_iff_getElem?.1 ha
              have hlt : i < cursor := by
                have hlength := List.getElem?_eq_none_iff.1 hnone
                have := (List.getElem?_eq_some_iff.1 hi).1
                omega
              rcases htop i hlt a hi with hfin | habove
              · exact hfin
              · cases habove
            | cons first newer =>
              obtain ⟨-, hsplit⟩ := cons.inj hsplit
              exact hw.order newer name older hsplit a ha
        obtain ⟨fin', hw', hfin, hstack⟩ := ih h hpopped
        refine ⟨fin', hw', fun name hname => hfin name (mem_cons_of_mem _ hname), ?_⟩
        intro name hname
        rcases mem_cons.1 hname with rfl | hname
        · exact hfin _ mem_cons_self
        · exact hstack name hname

theorem walkStarts_ok (h : walkStarts groups fuel marks names = some (.ok ()))
    (hw : Walking groups marks [] fin) :
    ∃ fin', FinishedOrder groups fin' ∧ (∀ name ∈ fin, name ∈ fin') ∧ ∀ name ∈ names, name ∈ fin' := by
  induction names generalizing marks fin with
  | nil => exact ⟨fin, hw.order, fun _ h => h, by simp⟩
  | cons start rest ih =>
    unfold walkStarts at h
    split at h
    · next hmark =>
      have hfinished : start ∈ fin := by
        cases hcase : marks start with
        | unvisited => exact absurd hcase hmark
        | onPath => simpa using hw.onPath start hcase
        | finished => exact (hw.finished start).1 hcase
      obtain ⟨fin', horder, hfin, hnames⟩ := ih h hw
      refine ⟨fin', horder, hfin, fun name hname => ?_⟩
      rcases mem_cons.1 hname with rfl | hname
      · exact hfin _ hfinished
      · exact hnames name hname
    · next hmark =>
      split at h
      · next marks' hwalk =>
        have hunvisited : marks start = .unvisited := by simpa using hmark
        obtain ⟨fin₁, hw₁, hfin₁, hstack⟩ := walkStack_ok hwalk (hw.push hunvisited rfl trivial)
        obtain ⟨fin', horder, hfin, hnames⟩ := ih h hw₁
        refine ⟨fin', horder, fun name hname => hfin name (hfin₁ name hname), fun name hname => ?_⟩
        rcases mem_cons.1 hname with rfl | hname
        · exact hfin _ (hstack _ (by simp))
        · exact hnames name hname
      · cases h
      · cases h

/-- The place in the order of finishing is a depth. -/
theorem FinishedOrder.layered (h : FinishedOrder groups fin)
    (hnames : ∀ name ∈ groups.map (·.1), name ∈ fin) : Layered groups := by
  refine ⟨fun name => fin.reverse.idxOf name, fun name hname a ha => ?_⟩
  have hmem : name ∈ fin.reverse := mem_reverse.2 (hnames name hname)
  obtain ⟨older, newer, hsplit, hnot⟩ := eq_append_cons_of_mem hmem
  have hfin : fin = newer.reverse ++ name :: older.reverse := by
    rw [← reverse_reverse fin, hsplit]
    simp
  have ha' : a ∈ older := mem_reverse.1 (h _ _ _ hfin a ha)
  dsimp only
  rw [hsplit, idxOf_append_of_mem ha', idxOf_append_of_notMem hnot, idxOf_cons_self]
  exact lt_of_lt_of_le (idxOf_lt_length_of_mem ha') (by omega)

theorem mem_of_groupOf {group : StageGroup} (h : groupOf groups name = some group) :
    (name, group) ∈ groups := by
  obtain ⟨before, later, rfl, -⟩ := lookup_eq_some_iff.1 h
  simp

theorem afterOf_short (h : groups.all (fun entry => entry.2.after.length ≤ 1) = true) (name : String) :
    (afterOf groups name).length ≤ 1 := by
  unfold afterOf
  split
  · next group hgroup => simpa using all_eq_true.1 h _ (mem_of_groupOf hgroup)
  · simp

/-- Groups that pass the check are layered. -/
theorem checkCycles_ok (h : checkCycles groups fuel = some (.ok ())) : Layered groups := by
  have hnames : ∀ name ∈ groups.map (·.1), name ∈ (groups.map (·.1)).insertionSort (· ≤ ·) :=
    fun name hname => (mem_insertionSort _).2 hname
  unfold checkCycles at h
  split at h
  · next hshort => exact layered_of_chains (afterOf_short hshort) hnames h
  · have hstart : Walking groups (fun _ => .unvisited) [] [] :=
      ⟨by simp, by simp, by intro newer name older hsplit; simp at hsplit, trivial⟩
    obtain ⟨fin, horder, -, hfin⟩ := walkStarts_ok h hstart
    exact horder.layered fun name hname => hfin name (hnames name hname)

/-! ## §3. More fuel. -/

theorem walkChain_more {seen : List String} (h : walkChain groups fuel seen name = some result)
    (k : Nat) : walkChain groups (fuel + k) seen name = some result := by
  induction fuel generalizing seen name with
  | zero => cases h
  | succ fuel ih =>
    rw [Nat.add_right_comm]
    unfold walkChain at h ⊢
    split at h
    · next hseen => rwa [if_pos hseen]
    · next hseen =>
      rw [if_neg hseen]
      split at h
      · next hafter => exact ih h
      · exact h

theorem walkChains_more (h : walkChains groups fuel names = some result) (k : Nat) :
    walkChains groups (fuel + k) names = some result := by
  induction names with
  | nil => exact h
  | cons start rest ih =>
    unfold walkChains at h ⊢
    cases hstart : walkChain groups fuel [] start with
    | none =>
      rw [hstart] at h
      cases h
    | some first =>
      rw [walkChain_more hstart k]
      rw [hstart] at h
      cases first with
      | ok _ => exact ih h
      | error _ => exact h

theorem walkStack_more {result : Except CompileError (String → Mark)}
    (h : walkStack groups fuel marks stack = some result) (k : Nat) :
    walkStack groups (fuel + k) marks stack = some result := by
  induction fuel generalizing marks stack with
  | zero => cases h
  | succ fuel ih =>
    rw [Nat.add_right_comm]
    cases stack with
    | nil => exact h
    | cons entry stack =>
      obtain ⟨current, cursor⟩ := entry
      unfold walkStack at h ⊢
      split at h
      · split at h
        · exact h
        · exact ih h
        · exact ih h
      · exact ih h

theorem walkStarts_more (h : walkStarts groups fuel marks names = some result) (k : Nat) :
    walkStarts groups (fuel + k) marks names = some result := by
  induction names generalizing marks with
  | nil => exact h
  | cons start rest ih =>
    unfold walkStarts at h ⊢
    split at h
    · next hseen =>
      rw [if_pos hseen]
      exact ih h
    · next hseen =>
      rw [if_neg hseen]
      cases hstart : walkStack groups fuel (update marks start .onPath) [(start, 0)] with
      | none =>
        rw [hstart] at h
        cases h
      | some first =>
        rw [walkStack_more hstart k]
        rw [hstart] at h
        cases first with
        | ok _ => exact ih h
        | error _ => exact h

theorem checkCycles_more (h : checkCycles groups fuel = some result) (k : Nat) :
    checkCycles groups (fuel + k) = some result := by
  unfold checkCycles at h ⊢
  dsimp only at h ⊢
  split at h
  · next hshort =>
    rw [if_pos hshort]
    exact walkChains_more h k
  · next hlong =>
    rw [if_neg hlong]
    exact walkStarts_more h k

/-- A resolution that ended ends the same way with more fuel. -/
theorem resolveStageGroups_more {collectives : List CollectiveKey} {computes : List ComputeKey}
    {result : Except CompileError (List (String × StageGroup))}
    (h : resolveStageGroups collectives computes fuel = some result) (k : Nat) :
    resolveStageGroups collectives computes (fuel + k) = some result := by
  unfold resolveStageGroups at h ⊢
  split at h
  · exact h
  next collected _ =>
  split at h
  · exact h
  cases hcycles : checkCycles collected fuel with
  | none =>
    rw [hcycles] at h
    cases h
  | some cycles =>
    rw [hcycles] at h
    rw [checkCycles_more hcycles k]
    exact h

end Days.Compile
