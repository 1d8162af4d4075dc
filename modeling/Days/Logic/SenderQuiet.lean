/-
  Days.Logic.SenderQuiet — the programs that leave the TCP senders and the ledger
  alone: everything a switch does, and most of what a host does.
-/
import Days.Logic.HostPrograms

namespace Days

variable {sizes : FlowId → Nat} {c : Ctx} {e e' : HostEntry}

/-! ## §1. Writes outside TCP. -/

namespace Keeps

/-- A step that keeps the configuration and the generators. -/
theorem of_framed (h : Framed e e') (hg : e'.state.generators = e.state.generators) :
    Keeps e e' := by
  refine ⟨?_, congrArg HostConfig.roles h.config, by rw [hg]⟩
  unfold HostEntry.flows
  rw [hg]
  exact Prod.ext rfl (congrArg HostConfig.generatorsByFlow h.config)

theorem bump (e : HostEntry) : Keeps e e.bump := .of_same rfl rfl rfl

theorem setStage {position : Nat} {stage stage' : CollectiveStage}
    (hs : e.state.stage position = some stage) (hrole : stage'.role = stage.role) :
    Keeps e (e.setStage position stage') :=
  .of_framed (HostEntry.setStage_framed hs hrole) rfl

end Keeps

/-- Writes that leave the TCP part of every generator alone keep the senders. -/
theorem Writes.keeps (h : Writes False e e') : Keeps e e' := by
  induction h with
  | same hg hs _ hi => exact .of_same hg hs hi
  | generator hg hflow hpart => exact .setGenerator hg hflow (hpart.resolve_left id)
  | stage _ hs hrole => exact .setStage hs hrole
  | trans _ _ ih ih' => exact ih.trans ih'

namespace Quiet

/-! ## §2. Rules. -/

theorem closed : ClosedClass (@Quiet sizes c e) where
  pure := .pure
  bind := .bind
  lift := .lift
  op {o} h := .op (by cases o <;> trivial)
  insertPacket := .insertPacket
  check := .check

section

variable (hc : c.node.kind = .host)

include hc

/-- Write the entry back after some writes outside TCP. -/
theorem write {e₁ e₂ : HostEntry} (he₁ : Keeps e e₁)
    (h : Writes False e₁ e₂) : Quiet sizes c e (Days.setHost e₂) :=
  .setHost hc (he₁.trans h.keeps)

theorem host : HostClass (@Quiet sizes c e) (Keeps e) where
  toClosedClass := closed
  fail := .fail
  lift_bind := .lift_bind
  getHost_bind := .getHost_bind hc
  write := .write hc

/-! ## §3. Segments and stages. -/

/-- Queue a packet that is no TCP segment, or one behind the next byte. -/
theorem sourcePacket {p : PacketDescriptor}
    (h : (∀ header, p.kind ≠ .tcpData header) ∨ Placed e p) :
    Quiet sizes c e (sourcePacket c p) := by
  refine .bind ?_ fun _ => .bind ((host hc).enqueueSourcePacket _) fun _ => closed.recordSourced p
  rcases h with hother | hplaced
  · exact .insertPacket hother
  · exact .insertSegment hc hplaced

theorem sourcePackets {ps : List PacketDescriptor}
    (h : ∀ p ∈ ps, Placed e p) : Quiet sizes c e (sourcePackets c ps) := by
  induction ps with
  | nil => exact .pure _
  | cons p rest ih =>
    refine .bind (sourcePacket hc (Or.inr (h p List.mem_cons_self))) fun _ => ?_
    exact ih fun q hq => h q (List.mem_cons_of_mem _ hq)

theorem installTcpAttempts {plan : TcpSendPlan}
    (h : ∀ p ∈ plan.packets, Placed e p) : Quiet sizes c e (installTcpAttempts c plan) := by
  refine .bind (sourcePackets hc h) fun _ => .bind (host hc).claimQueued fun ready => ?_
  exact .bind (.each fun _ _ => .op trivial) fun _ => .each fun _ _ => .op trivial

/-- Start a stage whose source has no TCP. -/
theorem startComputeStage {flow : FlowId}
    (hother : ∀ e', Keeps e e' → ∀ g, e'.sender flow = some g → ∀ tcp, g.kind ≠ .tcp tcp)
    (durationNs tokenSizeBytes : Nat) {tokenKind : PacketKind}
    (hkind : ∀ header, tokenKind ≠ .tcpData header) (cause : PendingCollectiveProgress)
    (ordinal : Nat) :
    Quiet sizes c e
      (startComputeStage c flow durationNs tokenSizeBytes tokenKind cause ordinal) := by
  refine .bind (.lift _) fun deadline => .getHost_bind hc fun e' he' => ?_
  refine .lift_bind fun ⟨token, e₁⟩ htoken => ?_
  refine .bind (.write hc he' (Writes.scheduleStageToken htoken (Or.inr (hother e' he'))))
    fun _ => ?_
  refine .bind ((host hc).pushStageProgress _ _ _ _) fun _ => .each fun payload _ => ?_
  exact .bind (.insertPacket hkind) fun _ => .op trivial

end

end Quiet

end Days
