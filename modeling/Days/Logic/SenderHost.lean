/-
  Days.Logic.SenderHost — every handler keeps the ledgers of the host's TCP senders
  in order, and none fails on a segment.
-/
import Days.Logic.SenderQuiet

namespace Days

open Option HostEntry HostStageIndex TcpSegmentLedger List

open Tiling (below_of_lt)

variable {position : Nat} {fill preserve : Bool} {p : PacketDescriptor} {sequence : Option Nat}
  {sizes : FlowId → Nat} {c : Ctx} {e e' e'' : HostEntry} {flow : FlowId}
  {g g' : FlowGeneratorState} {tcp tcp' : TcpGenerator}

/-! ## §1. Steps of one sender. -/

/-- The table names the one position of every flow. -/
def HostEntry.Named (e : HostEntry) : Prop :=
  ∀ flow position, e.index.firstGenerator flow = some position ↔ e.flows.1[position]? = some flow

theorem HostEntry.Named.sole (h : e.Named) (flow : FlowId) : e.Sole flow :=
  fun position hposition => (h flow position).2 hposition

theorem HostEntry.Named.congr (h : e.Named) (hflows : e'.flows = e.flows) : e'.Named := by
  intro flow position
  have htable : e'.index.generatorsByFlow = e.index.generatorsByFlow := congrArg Prod.snd hflows
  unfold firstGenerator generatorsOf
  rw [htable, hflows]
  exact h flow position

theorem HostEntry.Named.mem (h : e.Named) (hs : e.tcpSender flow = some (g, tcp)) :
    flow ∈ e.flows.1 := by
  obtain ⟨position, hposition, -⟩ := sender_eq_some.1 (tcpSender_eq_some.1 hs).1
  exact mem_of_getElem? ((h flow position).1 hposition)

/-- The position of a generator that a lookup finds. -/
theorem HostEntry.Named.found (h : e.Named) (hg : e.state.generators[position]? = some g) :
    e.sender g.flow = some g := by
  exact sender_eq_some.2 ⟨position, (h g.flow position).2 (flows_getElem? hg), hg⟩

/-- Only the sender of `flow` changes. -/
structure Touches (flow : FlowId) (e e' : HostEntry) : Prop where
  flows : e'.flows = e.flows
  roles : e'.state.stages.map (Option.map (·.role)) = e.state.stages.map (Option.map (·.role))
  kinds : e'.state.generators.map (·.tcpPart.isSome) = e.state.generators.map (·.tcpPart.isSome)
  parts : ∀ position : Nat, e.flows.1[position]? ≠ some flow →
    (e'.state.generators[position]?).map (·.tcpPart) =
      (e.state.generators[position]?).map (·.tcpPart)

theorem Keeps.touches (h : Keeps e e') (flow : FlowId) : Touches flow e e' where
  flows := h.flows
  roles := h.roles
  kinds := by
    have := congrArg (List.map isSome) h.parts
    rw [List.map_map, List.map_map] at this
    exact this
  parts := by
    intro position _
    have := congrArg (·[position]?) h.parts
    simpa only [getElem?_map] using this

namespace Touches

theorem trans (h : Touches flow e e') (h' : Touches flow e' e'') : Touches flow e e'' where
  flows := h'.flows.trans h.flows
  roles := h'.roles.trans h.roles
  kinds := h'.kinds.trans h.kinds
  parts := by
    intro position hne
    exact (h'.parts position (by rw [h.flows]; exact hne)).trans (h.parts position hne)

theorem setGenerator (hposition : e.flows.1[position]? = some flow)
    (hg : e.state.generators[position]? = some g) (hflow : g'.flow = g.flow)
    (hkind : g'.tcpPart.isSome = g.tcpPart.isSome) :
    Touches flow e (e.setGenerator position g') where
  flows := flows_setGenerator hg hflow
  roles := rfl
  kinds := map_set_eq hg hkind
  parts := by
    intro other hne
    have hother : position ≠ other := by
      rintro rfl
      exact hne hposition
    show ((e.state.generators.set position g')[other]?).map _ = _
    rw [getElem?_set_ne hother]

theorem tcpSender (h : Touches flow e e') (hnamed : e.Named) {other : FlowId}
    (hne : other ≠ flow) (hs : e'.tcpSender other = some (g', tcp)) :
    ∃ g, e.tcpSender other = some (g, tcp) ∧ g.nextEmission.status = g'.nextEmission.status := by
  obtain ⟨hsender, hkind⟩ := tcpSender_eq_some.1 hs
  obtain ⟨position, hposition, hg'⟩ := sender_eq_some.1 hsender
  have hname := ((hnamed.congr h.flows) other position).1 hposition
  rw [h.flows] at hname
  have hpart := h.parts position (by rw [hname]; simpa using hne)
  rw [hg', map_some] at hpart
  obtain ⟨g, hg, hpart⟩ := map_eq_some_iff.1 hpart.symm
  obtain ⟨hkind', hstatus⟩ := FlowGeneratorState.kind_of_tcpPart hpart hkind
  exact ⟨g, tcpSender_found ((hnamed other position).2 hname) hg hkind', hstatus⟩

theorem computeOk (h : Touches flow e e') (hok : e.ComputeOk) : e'.ComputeOk := by
  intro position stage' g' hstage' hrole hg' tcp hkind
  have hroles := congrArg (·[position]?) h.roles
  simp only [getElem?_map, join_eq_some_iff.1 hstage', map_some] at hroles
  obtain ⟨stage₀, hstage, hsame⟩ := map_eq_some_iff.1 hroles.symm
  obtain ⟨stage, rfl, hrole'⟩ := map_eq_some_iff.1 hsame
  have hkinds := congrArg (·[position]?) h.kinds
  simp only [getElem?_map, hg', map_some] at hkinds
  obtain ⟨g, hg, hpart⟩ := map_eq_some_iff.1 hkinds.symm
  rw [FlowGeneratorState.tcpPart_of (hok position stage g (join_eq_some_iff.2 hstage)
    (hrole.imp fun _ hcompute => hrole'.trans hcompute) hg)] at hpart
  unfold FlowGeneratorState.tcpPart at hpart
  rw [hkind] at hpart
  cases hpart

/-- A step of one sender reserves nothing new if that sender does not. -/
theorem yields (h : Touches flow e e') (hnamed : e.Named)
    (hs : e.tcpSender flow = some (g, tcp)) (hs' : e'.tcpSender flow = some (g', tcp'))
    (hheld : g'.nextEmission.status = .scheduled →
      g.nextEmission.status = .scheduled ∧ tcp.nextSequence = tcp'.nextSequence) :
    Yields e e' where
  flows := h.flows
  held := by
    intro other g₁ tcp₁ hother hscheduled
    by_cases heq : other = flow
    · subst heq
      rw [hs'] at hother
      cases hother
      exact ⟨g, tcp, hs, hheld hscheduled⟩
    · obtain ⟨g₀, hg₀, hstatus⟩ := h.tcpSender hnamed heq hother
      exact ⟨g₀, tcp₁, hg₀, hstatus.trans hscheduled, rfl⟩

end Touches

theorem tcpPart_tcp (h : g.kind = .tcp tcp) : g.tcpPart.isSome = true := by
  unfold FlowGeneratorState.tcpPart
  rw [h]
  rfl

/-- What TCP writes touches only the sender of its flow. -/
theorem TcpWrites.touches (h : TcpWrites flow e e') (hnamed : e.Named) :
    Touches flow e e' ∧ ∃ g tcp, e.tcpSender flow = some (g, tcp) := by
  obtain ⟨position, g, g', tcp, tcp', hrest, hflow, hkind', hkind, hg, hposition⟩ := h
  have hat := hposition (hnamed.sole flow)
  have hwrite := Touches.setGenerator ((hnamed flow position).1 hat) hg hflow
    ((tcpPart_tcp hkind').trans (tcpPart_tcp hkind).symm)
  exact ⟨hwrite.trans ((hrest False).keeps.touches flow), g, tcp, tcpSender_found hat hg hkind⟩

/-! ## §2. The invariant of a host. -/

/-- TCP looks only at the status of the emission. -/
theorem TcpOk.congr {block : Nat → Option Nat} {size : Nat} (h : TcpOk g tcp block size)
    (hstatus : g'.nextEmission.status = g.nextEmission.status) : TcpOk g' tcp block size :=
  ⟨h.tiles, h.next_le, h.flight, h.recovery, h.timer, by rw [hstatus]; exact h.held,
    by rw [hstatus]; exact h.clear, h.only⟩

/-- The host's flows are its own, every TCP sender is in order, and the ledger of other
hosts' flows is the one the event began with. -/
structure SendersOk (sizes : FlowId → Nat) (own : List FlowId × List (FlowId × Nat))
    (began : TcpSegmentLedger) (v : LocalView) : Prop where
  flows : v.entry.flows = own
  named : v.entry.Named
  compute : v.entry.ComputeOk
  ok : ∀ flow g tcp, v.entry.tcpSender flow = some (g, tcp) →
    TcpOk g tcp (v.ledger.block flow) (sizes flow)
  frame : ∀ flow, flow ∉ own.1 → v.ledger.block flow = began.block flow

variable {own : List FlowId × List (FlowId × Nat)} {began : TcpSegmentLedger}
  {v v' : LocalView}

namespace SendersOk

section

variable (h : SendersOk sizes own began v)

include h

/-- What is quiet keeps the senders in order. -/
theorem keeps (hkeeps : Keeps v.entry v'.entry)
    (hledger : v'.ledger = v.ledger) : SendersOk sizes own began v' where
  flows := hkeeps.flows.trans h.flows
  named := h.named.congr hkeeps.flows
  compute := (hkeeps.touches 0).computeOk h.compute
  ok := by
    intro flow g' tcp hs'
    obtain ⟨g, hs, hstatus⟩ := hkeeps.tcpSender hs'
    rw [hledger]
    exact (h.ok flow g tcp hs).congr hstatus.symm
  frame := by
    rw [hledger]
    exact h.frame

theorem mem (hs : v.entry.tcpSender flow = some (g, tcp)) : flow ∈ own.1 := by
  rw [← h.flows]
  exact h.named.mem hs

/-- A step of one sender that leaves it in order. -/
theorem moved (hs : v.entry.tcpSender flow = some (g, tcp))
    (ht : Touches flow v.entry v'.entry) (hs' : v'.entry.tcpSender flow = some (g', tcp'))
    (hok : TcpOk g' tcp' (v'.ledger.block flow) (sizes flow))
    (hothers : ∀ other, other ≠ flow → v'.ledger.block other = v.ledger.block other) :
    SendersOk sizes own began v' where
  flows := ht.flows.trans h.flows
  named := h.named.congr ht.flows
  compute := ht.computeOk h.compute
  ok := by
    intro other g₁ tcp₁ hother
    by_cases heq : other = flow
    · subst heq
      rw [hs'] at hother
      cases hother
      exact hok
    · obtain ⟨g₀, hg₀, hstatus⟩ := ht.tcpSender h.named heq hother
      rw [hothers other heq]
      exact (h.ok other g₀ tcp₁ hg₀).congr hstatus.symm
  frame := by
    intro other hother
    rw [hothers other fun heq => hother (heq ▸ h.mem hs)]
    exact h.frame other hother

/-- A quiet program, from senders in order. -/
theorem quiet {α : Type} {prog : Prog α} (hq : Quiet sizes c v.entry prog) :
    LocalWp sizes c prog
      (fun _ v' => SendersOk sizes own began v' ∧ Keeps v.entry v'.entry) v :=
  (hq v (.refl _)).mono fun _ _ h' => ⟨h.keeps h'.1 h'.2, h'.1⟩

theorem still {α : Type} {prog : Prog α} (hq : Quiet sizes c v.entry prog) :
    LocalWp sizes c prog (fun _ v' => SendersOk sizes own began v') v :=
  (h.quiet hq).mono fun _ _ h' => h'.1

end

end SendersOk

/-- The program keeps the senders in order and never fails on a segment. -/
def Orderly (sizes : FlowId → Nat) (c : Ctx)
    (own : List FlowId × List (FlowId × Nat)) (began : TcpSegmentLedger) {α : Type}
    (prog : Prog α) : Prop :=
  ∀ v, SendersOk sizes own began v →
    LocalWp sizes c prog (fun _ v' => SendersOk sizes own began v') v

namespace Orderly

variable {α β : Type}

theorem of_quiet {prog : Prog α} (h : ∀ e : HostEntry, Quiet sizes c e prog) :
    Orderly sizes c own began prog :=
  fun v hv => hv.still (h v.entry)

theorem bind {x : Prog α} {f : α → Prog β} (hx : Orderly sizes c own began x)
    (hf : ∀ a, Orderly sizes c own began (f a)) : Orderly sizes c own began (x >>= f) :=
  fun v hv => (hx v hv).seq fun a v' hv' => hf a v' hv'

theorem pure (a : α) : Orderly sizes c own began (Pure.pure a : Prog α) := fun _ hv => hv

theorem lift_bind {x : Except PlainError α} {f : α → Prog β}
    (hf : ∀ a, x = .ok a → Orderly sizes c own began (f a)) :
    Orderly sizes c own began ((liftM x : Prog α) >>= f) :=
  fun v hv => .bind (.lift fun a ha => hf a ha v hv)

end Orderly

/-! ## §3. Attempts. -/

theorem retransmitSegment_local
    (hfound : ∀ start, sequence = some start → ∃ n, v.ledger.block flow start = some n)
    {Q : Option (Nat × Nat) → LocalView → Prop}
    (hQ : ∀ retransmit, (∀ start size, retransmit = some (start, size) →
      sequence = some start ∧ v.ledger.block flow start = some size) → Q retransmit v) :
    LocalWp sizes c (retransmitSegment flow sequence) Q v := by
  cases sequence with
  | none => exact hQ none (by simp)
  | some start =>
    obtain ⟨n, hn⟩ := hfound start rfl
    obtain ⟨segment, hsegment, hsize⟩ := map_eq_some_iff.1 hn
    refine .bind (.tcpSegment ?_)
    rw [hsegment]
    refine hQ (some (start, segment.sizeBytes)) ?_
    rintro _ _ ⟨⟩
    refine ⟨rfl, ?_⟩
    unfold block
    rw [hsegment, map_some]

theorem seedTcpSegments_local {packets : List PacketDescriptor} {ledger ledger' : TcpSegmentLedger}
    (h : ledger.seedAll packets = .ok ledger') {Q : Unit → LocalView → Prop}
    (hQ : Q () ⟨e, ledger'⟩) : LocalWp sizes c (seedTcpSegments packets) Q ⟨e, ledger⟩ := by
  induction packets generalizing ledger with
  | nil =>
    cases h
    exact hQ
  | cons p rest ih =>
    obtain ⟨ledger₁, hseed, h⟩ := bind_ok h
    exact .bind (.seedTcpSegment (v := ⟨e, ledger⟩) hseed (ih h))

section

variable (hc : c.node.kind = .host) (h : SendersOk sizes own began v)
  (hs : v.entry.tcpSender flow = some (g, tcp))
  (hasks : ∀ start, sequence = some start → start = tcp.highestAck ∧ tcp.highestAck < tcp.nextSequence)
  (hholds : HoldsBack fill preserve g)

include hc h hs hasks hholds

/-- Preparing attempts keeps the senders in order; the new packets lie behind the next
byte. -/
theorem prepareTcpAttempts_local :
    LocalWp sizes c (prepareTcpAttempts c flow sequence fill preserve)
      (fun plan v' => SendersOk sizes own began v' ∧ ∀ p ∈ plan.packets, Placed v'.entry p)
      v := by
  have hok := h.ok flow g tcp hs
  refine .bind (retransmitSegment_local ?_ fun retransmit hretransmit => ?_)
  · rintro start hstart
    obtain ⟨rfl, hlt⟩ := hasks start hstart
    exact hok.first hlt
  refine .bind (.getHost hc (.bind (.lift ?_)))
  rintro ⟨plan, e'⟩ hattempts
  have hseg : ∀ start size, retransmit = some (start, size) →
      start < tcp.nextSequence ∧ v.ledger.block flow start = some size := by
    intro start size heq
    obtain ⟨hstart, hblock⟩ := hretransmit start size heq
    obtain ⟨rfl, hlt⟩ := hasks start hstart
    exact ⟨hlt, hblock⟩
  obtain ⟨-, g', tcp', block', hs', hsends, hattempted⟩ := tcpAttempts_turn hattempts hs hseg
  have ht := ((Writes.tcpAttempts hattempts).touches h.named).1
  obtain ⟨⟨ledger', hseed, hblock, hothers⟩, -⟩ := hattempted.seeds hok hsends hholds
  -- A reserved first segment survives only attempts that preserve it, and those send nothing new.
  have hheld : g'.nextEmission.status = .scheduled →
      g.nextEmission.status = .scheduled ∧ tcp.nextSequence = tcp'.nextSequence := by
    intro hscheduled
    rw [hattempted.status] at hscheduled
    split at hscheduled
    · next hpreserve =>
      refine ⟨hscheduled, (hattempted.still ?_).symm⟩
      cases hf : fill
      · rfl
      · rw [hholds.fill hf] at hpreserve
        cases hpreserve
    · split at hscheduled <;> cases hscheduled
  refine .bind (.setHost hc (ht.yields h.named hs hs' hheld) (.bind (seedTcpSegments_local hseed ?_)))
  refine .pure ⟨h.moved hs ht hs' ?_ hothers, ?_⟩
  · rw [hblock]
    exact hattempted.ok hok hsends hholds
  · intro p hp header hkind
    obtain ⟨hflow, header', hkind', hlt⟩ := hsends.starts_lt p hp
    rw [hkind] at hkind'
    cases hkind'
    rw [hflow]
    exact ⟨g', tcp', hs', hlt⟩

/-- Prepare attempts, do something quiet, and install them. -/
theorem LocalWp.attempts {f : Prog Unit} (hf : ∀ e, Quiet sizes c e f) :
    LocalWp sizes c
      (do
        let plan ← prepareTcpAttempts c flow sequence fill preserve
        f
        installTcpAttempts c plan)
      (fun _ v' => SendersOk sizes own began v') v := by
  refine .seq (prepareTcpAttempts_local hc h hs hasks hholds) ?_
  rintro plan v₁ ⟨h₁, hplaced⟩
  refine .seq (h₁.quiet (hf _)) ?_
  rintro _ v₂ ⟨h₂, hkeeps⟩
  refine h₂.still (.installTcpAttempts hc fun p hp => ?_)
  exact (hplaced p hp).keeps hkeeps

/-- Prepare attempts and install them. -/
theorem LocalWp.sendAttempts :
    LocalWp sizes c (prepareTcpAttempts c flow sequence fill preserve >>= installTcpAttempts c)
      (fun _ v' => SendersOk sizes own began v') v := by
  refine .seq (prepareTcpAttempts_local hc h hs hasks hholds) ?_
  rintro plan v₁ ⟨h₁, hplaced⟩
  exact h₁.still (.installTcpAttempts hc hplaced)

end

/-! ## §4. Stages. -/

theorem HostStageIndex.firstReady_blocked {index : HostStageIndex}
    {generators : List FlowGeneratorState} (h : index.firstReady generators = some position)
    (hg : generators[position]? = some g) : g.nextEmission.status = .blocked := by
  obtain ⟨views, -, h⟩ := bind_eq_some_iff.1 h
  have hready := find?_some h
  simp only [hg, any_some, Bool.and_eq_true, decide_eq_true_eq] at hready
  exact hready.2

/-- A source without TCP stays one. -/
theorem Keeps.noTcp (hs : e.sender flow = some g) (hg : ∀ tcp, g.kind ≠ .tcp tcp)
    (h : Keeps e e') (hs' : e'.sender flow = some g') : ∀ tcp, g'.kind ≠ .tcp tcp := by
  intro tcp hkind
  obtain ⟨g₀, hs₀, hpart⟩ := h.sender hs'
  rw [hs] at hs₀
  cases hs₀
  exact hg tcp (FlowGeneratorState.kind_of_tcpPart hpart hkind).1

section

variable (hc : c.node.kind = .host)

include hc

theorem activateWrappedStage_local (h : SendersOk sizes own began v)
    (hs : v.entry.sender flow = some g) (hblocked : g.nextEmission.status = .blocked)
    (cause : PendingCollectiveProgress) (ordinal : Nat) :
    LocalWp sizes c (activateWrappedStage c flow cause ordinal)
      (fun _ v' => SendersOk sizes own began v') v := by
  refine .bind (.getHost hc (.bind (.lift ?_)))
  rintro ⟨position, g₁⟩ hfor
  obtain ⟨hposition, hg⟩ := generatorFor_eq hfor
  rw [sender_eq_some.2 ⟨position, hposition, hg⟩] at hs
  cases hs
  have hsender : v.entry.sender flow = some g :=
    sender_eq_some.2 ⟨position, hposition, hg⟩
  dsimp only
  split
  · next constant hkind =>
    have hother : ∀ e', Keeps v.entry e' → ∀ g', e'.sender flow = some g' →
        ∀ tcp, g'.kind ≠ .tcp tcp :=
      fun e' he' g' hs' => he'.noTcp hsender (by simp [hkind]) hs'
    split
    · exact h.still (.startComputeStage hc hother _ _ (by simp) cause ordinal)
    · exact h.still (.startComputeStage hc hother _ _ (by simp) cause ordinal)
  · exact h.still ((Quiet.host hc).startRoceStage flow cause ordinal)
  · next tcp hkind =>
    refine .attempts hc h (tcpSender_found hposition hg hkind) (by simp)
      ⟨fun _ => rfl, fun _ => by rw [hblocked]; simp⟩ fun _ => (Quiet.host hc).pushStageProgress _ _ _ _
  · trivial

theorem activateLoop_local (fuel ordinal : Nat)
    (causes : PendingCauses) : Orderly sizes c own began (activateLoop c fuel ordinal causes) := by
  induction fuel generalizing ordinal causes with
  | zero => exact .pure _
  | succ fuel ih =>
    intro v h
    refine .bind (.getHost hc ?_)
    split
    · exact h
    · next position hready =>
      refine .bind (.lift fun g hg => .bind (.lift fun stage hstage => ?_))
      rw [okOr_eq_ok] at hg hstage
      have hkeeps : Keeps v.entry (v.entry.setStage position { stage with activated := true }) :=
        .setStage hstage rfl
      have h₁ : SendersOk sizes own began
          { v with entry := v.entry.setStage position { stage with activated := true } } :=
        h.keeps hkeeps rfl
      refine .bind (.setHost hc hkeeps.yields (.bind (.lift fun ⟨cause, causes'⟩ _ => ?_)))
      have hblocked := firstReady_blocked hready hg
      refine .seq (activateWrappedStage_local hc h₁ (h₁.named.found hg) hblocked cause ordinal) ?_
      intro _ v₂ h₂
      exact .bind (.lift fun ordinal' _ => ih ordinal' causes' v₂ h₂)

theorem activateReadyCollectives_local (causes : PendingCauses) :
    Orderly sizes c own began (activateReadyCollectives c causes) := by
  have hrest : ∀ (causes : PendingCauses) (ordinal : Nat),
      Orderly sizes c own began (pushRemaining c ordinal causes) := by
    intro causes
    induction causes with
    | nil => exact fun _ => .pure _
    | cons cause rest ih =>
      intro ordinal
      refine .bind (.of_quiet fun _ => (Quiet.host hc).pushStageProgress _ _ _ _) fun _ => ?_
      exact .lift_bind fun _ _ => ih _
  unfold activateReadyCollectives
  split
  · exact .pure _
  · intro v h
    refine .bind (.getHost hc ?_)
    refine .seq (activateLoop_local hc _ _ _ v h) ?_
    rintro ⟨ordinal, remaining⟩ v₁ h₁
    exact hrest remaining ordinal v₁ h₁

/-! ## §5. Handlers of TCP. -/

theorem hostTcpInitialSend_local {header : TcpDataHeader}
    (hp : p.kind = .tcpData header) (h : SendersOk sizes own began v)
    (hharmless : Harmless sizes v.entry p) :
    LocalWp sizes c (hostTcpInitialSend c p header)
      (fun _ v' => SendersOk sizes own began v') v := by
  refine .bind ⟨trivial, fun _ _ => .bind (.getHost hc (.bind (.lift fun e' hinitial => ?_)))⟩
  obtain ⟨ht, g, tcp, hs⟩ := (Writes.tcpInitialSend hinitial).touches h.named
  have hok := h.ok _ g tcp hs
  obtain ⟨-, hseq, hheld, g', hflow, hblocked, hs'⟩ := tcpInitialSend_turn hinitial hs
  obtain ⟨hsize, hpos⟩ := hharmless header g tcp hp hs hheld hseq
  obtain ⟨ledger, hseed, hblock, hothers⟩ :=
    seed_block v.ledger hp fun n hn => by
      rw [hseq] at hn
      rw [hsize]
      exact ((hok.held hheld).2.2 _ _ (Nat.le_refl _) hn).2 hpos
  have hok' := hok.initial hheld hsize hpos hblocked
  rw [hseq] at hblock
  rw [← hblock] at hok'
  have h₁ : SendersOk sizes own began ⟨e', ledger⟩ := h.moved hs ht hs' hok' hothers
  have hyields := ht.yields h.named hs hs' fun hagain => by
    rw [hblocked] at hagain
    cases hagain
  refine .bind (.setHost hc hyields (.bind (.seedTcpSegment hseed ?_)))
  refine .seq (h₁.quiet ((Quiet.host hc).enqueueSourcePacket _)) ?_
  rintro _ v₂ ⟨h₂, hkeeps⟩
  refine .seq (h₂.quiet (Quiet.closed.recordSourced p)) ?_
  rintro _ v₃ ⟨h₃, hkeeps'⟩
  obtain ⟨g₃, hs₃, hstatus⟩ := (hkeeps.trans hkeeps').symm.tcpSender hs'
  refine .sendAttempts hc h₃ hs₃ (by simp) ⟨fun _ => rfl, fun _ => ?_⟩
  rw [hstatus, hblocked]
  simp

theorem hostTcpAckArrival_local (p : PacketDescriptor)
    (header : TcpAckHeader) : Orderly sizes c own began (hostTcpAckArrival c p header) := by
  refine .lift_bind fun flow _ => .lift_bind fun _ _ => ?_
  refine .bind (.of_quiet fun _ => Quiet.closed.recordArrival p _) fun _ => ?_
  refine .bind (.of_quiet fun _ => .op trivial) fun _ => ?_
  intro v h
  refine .bind (.getHost hc (.bind (.lift ?_)))
  rintro ⟨plan, e'⟩ harrival
  obtain ⟨ht, g, tcp, hs⟩ := (Writes.tcpAckArrival harrival).touches h.named
  have hok := h.ok _ g tcp hs
  obtain ⟨-, houtcome, g', hs', -, hemission, hpending⟩ := tcpAckArrival_turn harrival hs
  have hacked := onAcknowledgment_acked c header hok
  rw [← houtcome] at hacked
  obtain ⟨ledger, hcut, hok', hothers⟩ := hacked.settles hok hemission
  have h₁ : SendersOk sizes own began ⟨e', ledger⟩ := h.moved hs ht hs' hok' hothers
  have hyields := ht.yields h.named hs hs' fun hheld =>
    ⟨by rw [← hemission]; exact hheld, hacked.next.symm⟩
  refine .bind (.setHost hc hyields ?_)
  -- Cancelling the old timer touches neither the senders nor the ledger.
  refine .seq (P := fun _ v' => v' = ⟨e', v.ledger⟩)
    (.each (fun _ _ => ⟨trivial, fun _ _ => rfl⟩) fun _ => rfl) ?_
  rintro _ _ rfl
  refine .seq (P := fun _ v' => v' = ⟨e', ledger⟩) ?_ ?_
  · refine .each (fun a ha => ?_) fun hnone => ?_
    · rw [ha] at hcut
      exact .acknowledgeTcpSegments hcut rfl
    · rw [hnone] at hcut
      cases hcut
      rfl
  rintro _ _ rfl
  refine .seq (h₁.quiet (.when fun _ => .each fun _ _ => .op trivial)) ?_
  rintro _ v₂ ⟨h₂, hkeeps⟩
  refine .seq (P := fun _ v' => SendersOk sizes own began v') ?_ fun _ v₃ h₃ =>
    activateReadyCollectives_local hc _ v₃ h₃
  refine .when (fun _ => ?_) fun _ => h₂
  obtain ⟨g₂, hs₂, hstatus⟩ := hkeeps.symm.tcpSender hs'
  refine .sendAttempts hc h₂ hs₂ ?_ ⟨?_, ?_⟩
  · intro start hstart
    rw [hacked.next]
    exact hacked.retransmit start hstart
  · intro hfill
    simpa using (Bool.and_eq_true_iff.1 hfill).2
  · intro hnone
    rw [hstatus, hemission]
    rw [hpending] at hnone
    exact of_decide_eq_false hnone

theorem hostRetransmissionTimeout_local :
    Orderly sizes c own began (hostRetransmissionTimeout c) := by
  intro v h
  refine .bind (.getHost hc ?_)
  split
  · next flow sequence record e' hexpire =>
    obtain ⟨ht, g, tcp, hs⟩ := (Writes.expireTimer hexpire).touches h.named
    have hok := h.ok _ g tcp hs
    obtain ⟨-, rfl, ⟨t, hactive, -⟩, g', control, rtoNs, -, hemission, hphase, hs'⟩ :=
      expireTimer_turn hexpire (h.named.sole flow) hs
    obtain ⟨hfree, hok'⟩ := hok.expired hactive hemission hphase rtoNs
    have h₁ : SendersOk sizes own began { v with entry := e' } :=
      h.moved hs ht hs' hok' fun _ _ => rfl
    have hyields := ht.yields h.named hs hs' fun hheld => absurd (hemission ▸ hheld) hfree
    refine .bind (.setHost hc hyields ?_)
    refine .seq (h₁.quiet (.when fun _ => .op trivial)) ?_
    rintro _ v₂ ⟨h₂, hkeeps⟩
    obtain ⟨g₂, hs₂, hstatus⟩ := hkeeps.symm.tcpSender hs'
    refine .sendAttempts hc h₂ hs₂ ?_ ⟨by simp, fun _ => ?_⟩
    · rintro start ⟨⟩
      exact ⟨rfl, hok.timer (by rw [hactive]; rfl)⟩
    · rw [hstatus, hemission]
      exact hfree
  · refine .seq (h.quiet (.op trivial)) ?_
    rintro token v₁ ⟨h₁, -⟩
    exact .when (fun _ => h₁.still ((Quiet.host hc).hostRoceTimeout)) fun _ => h₁

/-! ## §6. All handlers. -/

/-- Write back a quiet step of the entry and go on. -/
theorem LocalWp.afterWrite {rest : Prog Unit} (h : SendersOk sizes own began v)
    (hkeeps : Keeps v.entry e') (hrest : Orderly sizes c own began rest) :
    LocalWp sizes c (Days.setHost e' >>= fun _ => rest) (fun _ v' => SendersOk sizes own began v') v :=
  .bind (.setHost hc hkeeps.yields (hrest _ (h.keeps hkeeps rfl)))

theorem hostTcpDataArrival_local (p : PacketDescriptor)
    (header : TcpDataHeader) : Orderly sizes c own began (hostTcpDataArrival c p header) := by
  refine .lift_bind fun flow _ => .lift_bind fun _ _ => ?_
  intro v h
  refine .bind (.getHost hc (.bind (.lift ?_)))
  rintro ⟨ack, e', causes⟩ harrival
  obtain ⟨hwrites, reply, hreply⟩ := Writes.tcpDataArrival harrival
  refine .afterWrite hc h hwrites.keeps ?_
  refine .bind (.of_quiet fun _ => Quiet.closed.recordArrival p _) fun _ => ?_
  refine .bind (.of_quiet fun _ => .op trivial) fun _ => ?_
  refine .bind (.of_quiet fun _ => .sourcePacket hc (.inl (by simp [hreply]))) fun _ => ?_
  refine .bind (.of_quiet fun _ => (Quiet.host hc).claimReady) fun _ => ?_
  refine .bind (.of_quiet fun _ => Quiet.closed.emitReady _ _) fun _ => ?_
  exact activateReadyCollectives_local hc causes

theorem hostComputeTimer_local (flow : FlowId) :
    Orderly sizes c own began (hostComputeTimer c flow) := by
  intro v h
  refine .bind (.getHost hc (.bind (.lift ?_)))
  rintro ⟨e', causes⟩ htimer
  refine .afterWrite hc h (Writes.computeTimer htimer (.inr h.compute)).keeps ?_
  exact .bind (.of_quiet fun _ => .op trivial) fun _ => activateReadyCollectives_local hc causes

theorem hostNotifyTimer_local (flow : FlowId) :
    Orderly sizes c own began (hostNotifyTimer c flow) := by
  intro v h
  refine .bind (.getHost hc (.bind (.lift ?_)))
  rintro ⟨laneNs, e', causes⟩ htimer
  refine .afterWrite hc h (Writes.notifyTimer htimer).keeps ?_
  refine .lift_bind fun descriptor _ => .lift_bind fun arrivalNs _ => ?_
  exact .bind (.of_quiet fun _ => .op trivial) fun _ => activateReadyCollectives_local hc causes

theorem hostNotifyArrival_local (p : PacketDescriptor) :
    Orderly sizes c own began (hostNotifyArrival c p) := by
  intro v h
  refine .bind (.getHost hc (.bind (.lift ?_)))
  rintro ⟨e', causes⟩ hprogress
  refine .afterWrite hc h (Writes.recordInboundProgress hprogress).keeps ?_
  exact .bind (.of_quiet fun _ => .op trivial) fun _ => activateReadyCollectives_local hc causes

theorem hostRoceFeedbackArrival_local (p : PacketDescriptor)
    (header : RoceAckHeader) (nack : Bool) :
    Orderly sizes c own began (hostRoceFeedbackArrival c p header nack) := by
  refine .lift_bind fun flow _ => .lift_bind fun _ _ => ?_
  refine .bind (.of_quiet fun _ => Quiet.closed.recordArrival p _) fun _ => ?_
  refine .bind (.of_quiet fun _ => .op trivial) fun _ => ?_
  intro v h
  refine .bind (.getHost hc (.bind (.lift fun reaction hreaction => ?_)))
  refine .afterWrite hc h (Writes.roceFeedback hreaction).keeps ?_
  refine .bind (.of_quiet fun _ => .each fun _ _ => .op trivial) fun _ => ?_
  refine .bind (.of_quiet fun _ => .when fun _ =>
    .bind (Quiet.closed.pushMechanism? _) fun _ => .op trivial) fun _ => ?_
  refine .bind (.of_quiet fun _ => Quiet.closed.emitRoceTimers _ _ _) fun _ => ?_
  intro v₂ h₂
  refine .each (fun acknowledgment _ => ?_) fun _ => h₂
  refine .bind (.lift fun delay _ => .bind (.getHost hc ?_))
  exact .afterWrite hc h₂ (Writes.completeLocalSuccessors v₂.entry _ _ _).keeps
    (activateReadyCollectives_local hc _)

theorem hostRoceDataArrival_local (p : PacketDescriptor)
    (header : RoceDataHeader) : Orderly sizes c own began (hostRoceDataArrival c p header) := by
  refine .lift_bind fun flow _ => .lift_bind fun _ _ => ?_
  intro v h
  refine .bind (.getHost hc (.bind (.lift fun delivery hdelivery => ?_)))
  obtain ⟨hwrites, hreply⟩ := Writes.roceDelivery hdelivery
  refine .afterWrite hc h hwrites.keeps ?_
  refine .bind (.of_quiet fun _ => Quiet.closed.recordArrival p _) fun _ => ?_
  refine .bind (.of_quiet fun _ => .op trivial) fun _ => ?_
  refine .bind (.of_quiet fun _ => .when fun _ => .op trivial) fun _ => ?_
  refine .bind (.of_quiet fun _ => .each fun reply hr => ?_) fun _ =>
    activateReadyCollectives_local hc _
  refine .bind (.lift _) fun _ => .bind (.sourcePacket hc (.inl (hreply reply hr))) fun _ => ?_
  exact Quiet.closed.emitReady _ _

theorem hostPacketArrival_local : Orderly sizes c own began (hostPacketArrival c) := by
  intro v h
  refine .bind (.packet fun p hp => .bind (.getHost hc ?_))
  split
  · exact h.still ((Quiet.host hc).hostPreloadedPacketArrival)
  · split
    · next header hkind => exact hostTcpInitialSend_local hc hkind h (hp hc)
    · exact h.still ((Quiet.host hc).hostConstantEmission p)

theorem hostRemoteArrival_local : Orderly sizes c own began (hostRemoteArrival c) := by
  intro v h
  refine .bind (.packet fun p _ => .bind (.lift fun flow _ => ?_))
  split
  · exact hostTcpDataArrival_local hc p _ v h
  · exact hostTcpAckArrival_local hc p _ v h
  · exact h.still ((Quiet.host hc).hostDcqcnCnpArrival p)
  · exact hostRoceDataArrival_local hc p _ v h
  · exact hostRoceFeedbackArrival_local hc p _ false v h
  · exact hostRoceFeedbackArrival_local hc p _ true v h
  · exact h.still ((Quiet.host hc).hostPfcRemoteArrival _)
  · exact hostNotifyArrival_local hc p v h
  · refine .bind (.getHost hc ?_)
    split
    · exact h.still ((Quiet.host hc).hostDcqcnDataArrival p)
    · exact h.still ((Quiet.host hc).hostPlainArrival p flow)
  · exact h.still ((Quiet.host hc).hostPlainArrival p flow)
  · exact h.still ((Quiet.host hc).hostPlainArrival p flow)

theorem hostPacingTimer_local : Orderly sizes c own began (hostPacingTimer c) := by
  intro v h
  refine .bind (.packet fun p _ => ?_)
  split
  · exact h.still ((Quiet.host hc).hostRocePacingTimer p)
  · exact hostNotifyTimer_local hc p.flow v h
  · refine .bind (.getHost hc ?_)
    split
    · exact hostComputeTimer_local hc p.flow v h
    · split
      · exact h.still ((Quiet.host hc).hostDcqcnPacingTimer p)
      · exact h.still ((Quiet.host hc).hostRatePacingTimer p)

end

/-- Every handler keeps the senders of its node in order and never fails on a segment. -/
theorem handlerProg_local {kind : EventKind} {handler : TransitionHandler}
    (h : resolveTransition c.node.kind kind = some handler) :
    Orderly sizes c own began (handlerProg c handler) := by
  cases hc : c.node.kind with
  | host =>
    rw [hc] at h
    cases kind with
    | packetArrival => cases h; exact hostPacketArrival_local hc
    | txReady => cases h; exact .of_quiet fun _ => (Quiet.host hc).hostTxReady
    | txComplete => cases h; exact .of_quiet fun _ => (Quiet.host hc).hostTxComplete
    | remoteArrival => cases h; exact hostRemoteArrival_local hc
    | retransmissionTimeout => cases h; exact hostRetransmissionTimeout_local hc
    | pacingTimer => cases h; exact hostPacingTimer_local hc
  | switch =>
    rw [hc] at h
    cases kind with
    | txReady =>
      cases h
      exact .of_quiet fun _ => Quiet.closed.switchTxReady fun _ => .op trivial
    | txComplete =>
      cases h
      exact .of_quiet fun _ => Quiet.closed.switchTxComplete fun _ => .op trivial
    | remoteArrival =>
      cases h
      exact .of_quiet fun _ => Quiet.closed.switchRemoteArrival fun _ => .op trivial
    | packetArrival => cases h
    | retransmissionTimeout => cases h
    | pacingTimer => cases h

end Days
