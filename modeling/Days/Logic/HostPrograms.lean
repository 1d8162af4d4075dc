/-
  Days.Logic.HostPrograms — the host programs that write no TCP state.

  They read the host's entry and write it back after some of the writes of
  `Writes`.  So they belong to every class of programs that is closed under
  sequencing and under such a write.
-/
import Days.Logic.HostWrites
import Days.Logic.QuietPrograms

namespace Days

/-! ## §1. Classes with host entries. -/

/-- A closed class whose programs read entries with `I` and write them back after writes
outside TCP. -/
structure HostClass (P : ∀ {α : Type}, Prog α → Prop) (I : HostEntry → Prop) : Prop
    extends ClosedClass @P where
  fail : ∀ {α : Type} (error : PlainError), P (Prog.fail (.plain error) : Prog α)
  lift_bind : ∀ {α β : Type} {x : Except PlainError α} {f : α → Prog β},
    (∀ a, x = .ok a → P (f a)) → P ((liftM x : Prog α) >>= f)
  getHost_bind : ∀ {β : Type} {f : HostEntry → Prog β}, (∀ e, I e → P (f e)) → P (getHost >>= f)
  write : ∀ {e e' : HostEntry}, I e → Writes False e e' → P (setHost e')

namespace HostClass

variable {P : ∀ {α : Type}, Prog α → Prop} {I : HostEntry → Prop} {c : Ctx}

/-! ## §2. Queues of a host. -/

section

variable (h : HostClass @P I)

include h

theorem enqueueSourcePacket (id : PayloadId) : P (enqueueSourcePacket id) := by
  refine h.bind (h.op trivial) fun p => h.bind (h.op trivial) fun key => ?_
  refine h.lift_bind fun time _ => ?_
  refine h.getHost_bind fun e' he' => h.bind (h.sourceKeys _) fun keys => ?_
  exact h.write he' (.same rfl rfl rfl rfl)

/-- Queue a packet that is no TCP segment. -/
theorem sourcePacket {p : PacketDescriptor}
    (hother : ∀ header, p.kind ≠ .tcpData header) : P (sourcePacket c p) :=
  h.bind (h.insertPacket hother) fun _ =>
    h.bind (h.enqueueSourcePacket _) fun _ => h.recordSourced p

theorem claimReady : P claimReady :=
  h.getHost_bind fun e' he' => h.bind (h.write he' (Writes.claim e')) fun _ => h.pure _

theorem claimQueued : P claimQueued :=
  h.getHost_bind fun e' he' =>
    h.bind (h.write he' (Writes.setReadyPending e' _)) fun _ => h.pure _

theorem claimEligible : P (claimEligible c) := by
  refine h.getHost_bind fun e' he' => h.bind (h.hostPfcFirstEligible _) fun first => ?_
  split
  · exact h.pure _
  · split
    · exact h.lift_bind fun _ _ =>
        h.bind (h.write he' (Writes.setReadyPending e' _)) fun _ => h.pure _
    · exact h.pure _

theorem pushStageProgress (flow : FlowId)
    (cause : PendingCollectiveProgress) (ordinal : Nat) (activated : Bool) :
    P (pushStageProgress c flow cause ordinal activated) := by
  refine h.when fun _ => h.getHost_bind fun e' _ => h.lift_bind fun found _ => ?_
  exact h.lift_bind fun _ _ => h.op trivial

/-! ## §3. Service. -/

theorem hostTxReady : P (hostTxReady c) := by
  refine h.getHost_bind fun e' he' => h.bind (h.check trivial) fun _ => ?_
  refine h.bind (h.hostPfcFirstEligible _) fun first => ?_
  split
  · exact h.write he' (Writes.setReadyPending e' _)
  · refine h.lift_bind fun payload _ => h.bind (h.write he' (.same rfl rfl rfl rfl))
      fun _ => ?_
    refine h.lift_bind fun link _ => h.lift_bind fun _ _ => ?_
    refine h.bind (h.op trivial) fun _ => ?_
    refine h.bind (h.op trivial) fun p => h.lift_bind fun arrival _ => ?_
    refine h.lift_bind fun departure _ => ?_
    refine h.bind (h.op trivial) fun _ => h.bind (h.op trivial) fun p => ?_
    exact h.lift_bind fun _ _ => h.op trivial

theorem hostTxComplete : P (hostTxComplete c) := by
  refine h.getHost_bind fun e' he' => h.bind (h.check trivial) fun _ => ?_
  refine h.lift_bind fun departed _ => h.bind (h.hostPfcFirstEligible _) fun eligible => ?_
  refine h.bind (h.write he' ((Writes.release e' departed).trans (.setReadyPending _ _)))
    fun _ => ?_
  refine h.bind (h.op trivial) fun p => h.bind (h.recordDeparture p) fun _ => ?_
  exact h.bind (h.op trivial) fun _ => h.emitReady _ _

/-! ## §4. Sources without TCP. -/

theorem hostPreloadedPacketArrival : P (hostPreloadedPacketArrival c) := by
  refine h.bind (h.op trivial) fun p => h.bind (h.op trivial) fun _ => ?_
  refine h.getHost_bind fun e' he' => h.lift_bind fun e₁ hcount => ?_
  refine h.bind (h.write he' ((Writes.countSourcedPackets hcount).trans (.claim e₁)))
    fun _ => ?_
  refine h.bind (h.enqueueSourcePacket _) fun _ => h.bind (h.recordSourced p) fun _ => ?_
  exact h.emitReady _ _

section

variable (p : PacketDescriptor)

theorem hostConstantEmission : P (hostConstantEmission c p) := by
  refine h.bind (h.op trivial) fun _ => h.getHost_bind fun e' he' => ?_
  refine h.lift_bind fun emission hemission => ?_
  obtain ⟨next, e₁⟩ := emission
  obtain ⟨hwrites, hdata⟩ := Writes.constantEmission hemission
  refine h.lift_bind fun e₂ hcount => ?_
  refine h.bind (h.write he' (hwrites.trans
    ((Writes.countSourcedPackets hcount).trans (.claim e₂)))) fun _ => ?_
  refine h.bind (h.enqueueSourcePacket _) fun _ => h.bind (h.recordSourced p) fun _ => ?_
  refine h.bind (h.each fun q hq => ?_) fun _ => h.emitReady _ _
  refine h.bind (h.insertPacket fun header hkind => ?_) fun _ => h.op trivial
  rw [hdata q.1 q.2 hq] at hkind
  cases hkind

/-- The work after a tick of a paced source. -/
theorem finishPacedTick {rate : RateGenerator}
    {e₁ : HostEntry} {g : FlowGeneratorState} {paced : Paced}
    (hticked : Ticked c p rate e₁ g paced) : P (finishPacedTick c p paced) := by
  have hspend : P (spendToken c p paced) := by
    unfold spendToken
    split
    · refine h.bind (h.op trivial) fun _ => h.bind (h.enqueueSourcePacket _) fun _ => ?_
      exact h.recordSourced p
    · exact h.when fun _ => h.op trivial
  have hnext : ∀ q, paced.nextPacket = some q → q.kind = .data := by
    intro q hq
    cases htimer : paced.nextTimer with
    | none =>
      rw [hticked.last htimer] at hq
      cases hq
    | some timer =>
      obtain ⟨-, -, -, hpacket⟩ := hticked.next timer.1 timer.2 htimer
      split at hpacket
      · obtain ⟨seq, -, -, -, heq⟩ := hpacket
        rw [hq] at heq
        rw [Option.some.inj heq]
      · rw [hpacket.2] at hq
        cases hq
  refine h.bind hspend fun _ => h.bind (h.each fun q hq => h.insertPacket fun header hkind => ?_)
    fun _ => h.bind (h.each fun _ _ => h.op trivial) fun _ => ?_
  · rw [hnext q hq] at hkind
    cases hkind
  · exact h.when fun _ => h.bind (h.claimReady) fun _ => h.emitReady _ _

theorem hostRatePacingTimer : P (hostRatePacingTimer c p) := by
  refine h.getHost_bind fun e' he' => ?_
  split
  · exact h.pure _
  · next position hposition =>
    refine h.lift_bind fun g hg => ?_
    rw [okOr_eq_ok] at hg
    split
    · next rate hkind =>
      refine h.when fun _ => h.lift_bind fun paced hpaced => ?_
      refine h.bind (h.write he' (Writes.paceStep hpaced hg rfl (by simp [hkind]) (by simp)))
        fun _ => ?_
      refine h.bind (h.when fun _ => h.op trivial) fun _ => ?_
      exact h.finishPacedTick p (paceStep_ticked hpaced).1
    · exact h.pure _

theorem hostDcqcnPacingTimer : P (hostDcqcnPacingTimer c p) := by
  refine h.getHost_bind fun e' he' => h.lift_bind fun position _ => ?_
  refine h.lift_bind fun g hg => ?_
  rw [okOr_eq_ok] at hg
  split
  · next dcqcn hkind =>
    refine h.when fun _ => h.lift_bind fun paced hpaced => ?_
    refine h.bind (h.write he' (Writes.paceStep hpaced hg rfl (by simp [hkind]) (by simp)))
      fun _ => ?_
    refine h.bind (h.when fun _ => h.op trivial) fun _ => ?_
    exact h.finishPacedTick p (paceStep_ticked hpaced).1
  · exact h.pure _

theorem hostDcqcnDataArrival : P (hostDcqcnDataArrival c p) := by
  refine h.lift_bind fun flow _ => h.lift_bind fun _ _ => h.getHost_bind fun e' he' => ?_
  refine h.lift_bind fun ⟨cnp, e₁⟩ harrival => ?_
  obtain ⟨hwrites, hcnp⟩ := Writes.dcqcnDataArrival harrival
  refine h.bind (h.write he' hwrites) fun _ => ?_
  refine h.bind (h.recordArrival p _) fun _ => ?_
  refine h.bind (h.op trivial) fun _ => h.each fun q hq => ?_
  refine h.bind (h.sourcePacket fun header hkind => ?_) fun _ => h.emitReady _ _
  rw [hcnp q.1 q.2 hq] at hkind
  cases hkind

theorem hostDcqcnCnpArrival : P (hostDcqcnCnpArrival c p) := by
  refine h.lift_bind fun flow _ => h.lift_bind fun _ _ => h.getHost_bind fun e' he' => ?_
  refine h.lift_bind fun ⟨row, e₁⟩ hreaction => ?_
  refine h.bind (h.write he' (Writes.cnpReaction hreaction)) fun _ => ?_
  refine h.bind (h.when fun _ => h.pushMechanism? _) fun _ => ?_
  refine h.bind (h.recordArrival p _) fun _ => ?_
  exact h.op trivial

theorem hostPlainArrival (flow : FlowDescriptor) : P (hostPlainArrival c p flow) := by
  refine h.getHost_bind fun e' he' => h.lift_bind fun ⟨disposition, e₁⟩ harrival => ?_
  refine h.bind (h.write he' (Writes.plainArrival harrival)) fun _ => ?_
  exact h.bind (h.recordArrival p _) fun _ => h.op trivial

end

/-! ## §5. Queue pairs and pauses. -/

theorem hostRocePacingTimer (p : PacketDescriptor) : P (hostRocePacingTimer c p) := by
  refine h.getHost_bind fun e' he' => h.lift_bind fun tick htick => ?_
  refine h.bind (h.write he' (Writes.roceTick htick)) fun _ => ?_
  refine h.bind (h.when fun _ => h.bind (h.pushMechanism? _) fun _ => h.op trivial) fun _ => ?_
  refine h.bind (h.emitRoceTimers _ _ _) fun _ => h.each fun emission _ => ?_
  refine h.bind (h.sourcePacket fun header hkind => ?_) fun _ => ?_
  · cases hkind
  · exact h.bind (h.claimReady) fun _ => h.emitReady _ _

theorem hostRoceTimeout : P (hostRoceTimeout c) := by
  refine h.bind (h.op trivial) fun token => h.lift_bind fun dataClass _ => ?_
  refine h.getHost_bind fun e' he' => h.lift_bind fun reaction hreaction => ?_
  split
  · exact h.pure _
  · refine h.bind (h.write he' (Writes.roceTimeout hreaction)) fun _ => ?_
    refine h.bind (h.when fun _ => h.bind (h.pushMechanism? _) fun _ => h.op trivial) fun _ => ?_
    exact h.emitRoceTimers _ _ _

theorem startRoceStage (flow : FlowId) (cause : PendingCollectiveProgress) (ordinal : Nat) :
    P (startRoceStage c flow cause ordinal) := by
  refine h.getHost_bind fun e' he' => h.lift_bind fun ⟨position, g⟩ hfor => ?_
  obtain ⟨-, hg⟩ := HostEntry.generatorFor_eq hfor
  dsimp only
  split
  · next roce hkind =>
    refine h.bind (h.write he' (Writes.writeOther hg rfl (by simp [hkind]) (by simp))) fun _ => ?_
    exact h.bind (h.pushStageProgress _ _ _ _) fun _ => h.op trivial
  · exact h.fail _

theorem hostPfcRemoteArrival (header : PfcHeader) : P (hostPfcRemoteArrival c header) := by
  have hrecords : ∀ records, P (pushMechanisms records) := by
    intro records
    induction records with
    | nil => exact h.pure _
    | cons record rest ih => exact h.bind (h.op trivial) fun _ => ih
  have hticks : ∀ ticks, P (emitTicks c ticks) := by
    intro ticks
    induction ticks with
    | nil => exact h.pure _
    | cons tick rest ih => exact h.bind (h.op trivial) fun _ => ih
  refine h.getHost_bind fun e' he' => h.lift_bind fun pfc _ => ?_
  refine h.bind (h.write he' (Writes.setPfc e' _)) fun _ => ?_
  refine h.bind (h.when fun _ => h.op trivial) fun _ => ?_
  refine h.bind (h.op trivial) fun _ => h.when fun _ => ?_
  refine h.bind (h.claimEligible) fun ready => h.getHost_bind fun e₁ he₁ => ?_
  refine h.lift_bind fun restarts hrestarts => ?_
  refine h.bind (h.write he₁ (Writes.restartPaused hrestarts)) fun _ => ?_
  refine h.bind (h.when fun _ => hrecords _) fun _ => ?_
  exact h.bind (h.each fun _ _ => h.op trivial) fun _ => hticks _

end

end HostClass

end Days
