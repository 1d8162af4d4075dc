/-
  Days.Logic.SenderView — handlers seen from the TCP senders and their ledger.

  The view of a handler is its host's entry and the segment ledger.  A packet of a
  flow whose first segment is still scheduled may only be created behind the next
  byte, so whatever the store holds at that byte is the scheduled segment.  Most
  programs leave the senders and the ledger alone: they are quiet.
-/
import Days.Logic.TcpSender

namespace Days

variable {g' : FlowGeneratorState} {flow : FlowId}

open Prog HostEntry

variable {e e' : HostEntry}

variable {p : PacketDescriptor} {Q : Unit → LocalView → Prop}

/-! ## §1. Entries with the same TCP senders. -/

/-- What a generator has of TCP. -/
def FlowGeneratorState.tcpPart (g : FlowGeneratorState) : Option (GeneratorStatus × TcpGenerator) :=
  match g.kind with
  | .tcp tcp => some (g.nextEmission.status, tcp)
  | _ => none

/-- The entry keeps its flows, its tables, its stage roles and its TCP senders. -/
structure Keeps (e e' : HostEntry) : Prop where
  flows : e'.flows = e.flows
  roles : e'.state.stages.map (Option.map (·.role)) = e.state.stages.map (Option.map (·.role))
  parts : e'.state.generators.map (·.tcpPart) = e.state.generators.map (·.tcpPart)

namespace Keeps

variable {e e' e'' : HostEntry} {flow : FlowId}

theorem refl (e : HostEntry) : Keeps e e := ⟨rfl, rfl, rfl⟩

theorem symm (h : Keeps e e') : Keeps e' e := ⟨h.flows.symm, h.roles.symm, h.parts.symm⟩

theorem trans (h : Keeps e e') (h' : Keeps e' e'') : Keeps e e'' :=
  ⟨h'.flows.trans h.flows, h'.roles.trans h.roles, h'.parts.trans h.parts⟩

/-- A change of what is no generator, no stage and no table. -/
theorem of_same (hg : e'.state.generators = e.state.generators)
    (hs : e'.state.stages = e.state.stages) (hi : e'.index = e.index) : Keeps e e' := by
  refine ⟨?_, by rw [hs], by rw [hg]⟩
  unfold HostEntry.flows
  rw [hg, hi]

theorem setGenerator {position : Nat} {g : FlowGeneratorState}
    (hg : e.state.generators[position]? = some g) (hflow : g'.flow = g.flow)
    (hpart : g'.tcpPart = g.tcpPart) : Keeps e (e.setGenerator position g') :=
  ⟨flows_setGenerator hg hflow, rfl, map_set_eq hg hpart⟩

theorem table (h : Keeps e e') : e'.index.generatorsByFlow = e.index.generatorsByFlow :=
  congrArg Prod.snd h.flows

theorem firstGenerator (h : Keeps e e') :
    e'.index.firstGenerator flow = e.index.firstGenerator flow := by
  unfold HostStageIndex.firstGenerator HostStageIndex.generatorsOf
  rw [h.table]

/-- An entry with the same senders finds the same kind of generator. -/
theorem sender (h : Keeps e e') (hs : e'.sender flow = some g') :
    ∃ g, e.sender flow = some g ∧ g.tcpPart = g'.tcpPart := by
  obtain ⟨position, hposition, hg'⟩ := sender_eq_some.1 hs
  have hparts := congrArg (·[position]?) h.parts
  simp only [List.getElem?_map, hg', Option.map_some] at hparts
  obtain ⟨g, hg, hpart⟩ := Option.map_eq_some_iff.1 hparts.symm
  rw [h.firstGenerator] at hposition
  exact ⟨g, sender_eq_some.2 ⟨position, hposition, hg⟩, hpart⟩

end Keeps

theorem FlowGeneratorState.kind_of_tcpPart {g : FlowGeneratorState} {tcp : TcpGenerator}
    (hpart : g.tcpPart = g'.tcpPart) (hkind : g'.kind = .tcp tcp) :
    g.kind = .tcp tcp ∧ g.nextEmission.status = g'.nextEmission.status := by
  unfold tcpPart at hpart
  rw [hkind] at hpart
  split at hpart
  · next tcp' hkind' =>
    obtain ⟨hstatus, rfl⟩ := Prod.mk.inj (Option.some.inj hpart)
    exact ⟨hkind', hstatus⟩
  · cases hpart

/-- The TCP senders are the same, up to what TCP does not look at. -/
theorem Keeps.tcpSender {tcp : TcpGenerator}
    (h : Keeps e e') (hs : e'.tcpSender flow = some (g', tcp)) :
    ∃ g, e.tcpSender flow = some (g, tcp) ∧ g.nextEmission.status = g'.nextEmission.status := by
  obtain ⟨hsender, hkind⟩ := tcpSender_eq_some.1 hs
  obtain ⟨g, hg, hpart⟩ := h.sender hsender
  obtain ⟨hkind', hstatus⟩ := FlowGeneratorState.kind_of_tcpPart hpart hkind
  exact ⟨g, tcpSender_eq_some.2 ⟨hg, hkind'⟩, hstatus⟩

/-! ## §2. Reserved segments. -/

/-- A step of an entry reserves nothing new. -/
structure Yields (e e' : HostEntry) : Prop where
  flows : e'.flows = e.flows
  held : ∀ flow g' tcp', e'.tcpSender flow = some (g', tcp') → g'.nextEmission.status = .scheduled →
    ∃ g tcp, e.tcpSender flow = some (g, tcp) ∧ g.nextEmission.status = .scheduled ∧
      tcp.nextSequence = tcp'.nextSequence

theorem Keeps.yields (h : Keeps e e') : Yields e e' where
  flows := h.flows
  held := by
    intro flow g' tcp' hs hheld
    obtain ⟨g, hg, hstatus⟩ := h.tcpSender hs
    exact ⟨g, tcp', hg, hstatus.trans hheld, rfl⟩

/-- A packet at the reserved byte of a scheduled flow has the size of its first segment. -/
def Harmless (sizes : FlowId → Nat) (e : HostEntry) (p : PacketDescriptor) : Prop :=
  ∀ header g tcp, p.kind = .tcpData header → e.tcpSender p.flow = some (g, tcp) →
    g.nextEmission.status = .scheduled → header.sequence = tcp.nextSequence →
    p.sizeBytes = sizes p.flow ∧ 0 < sizes p.flow

theorem Harmless.yields {sizes : FlowId → Nat} (h : Harmless sizes e p)
    (hstep : Yields e e') : Harmless sizes e' p := by
  intro header g' tcp' hkind hs hheld hseq
  obtain ⟨g, tcp, hg, hstatus, hnext⟩ := hstep.held p.flow g' tcp' hs hheld
  exact h header g tcp hkind hg hstatus (hseq.trans hnext.symm)

/-- A TCP segment that may be created: one of the host, behind its next byte. -/
def Placed (e : HostEntry) (p : PacketDescriptor) : Prop :=
  ∀ header, p.kind = .tcpData header →
    ∃ g tcp, e.tcpSender p.flow = some (g, tcp) ∧ header.sequence < tcp.nextSequence

theorem Placed.harmless {sizes : FlowId → Nat} (h : Placed e p) : Harmless sizes e p := by
  intro header g tcp hkind hs _ hseq
  obtain ⟨g', tcp', hs', hlt⟩ := h header hkind
  rw [hs] at hs'
  cases hs'
  omega

theorem Placed.keeps (h : Placed e p) (hstep : Keeps e e') : Placed e' p := by
  intro header hkind
  obtain ⟨g, tcp, hs, hlt⟩ := h header hkind
  obtain ⟨g', hs', -⟩ := hstep.symm.tcpSender hs
  exact ⟨g', tcp, hs', hlt⟩

/-! ## §3. The view. -/

structure LocalView where
  entry : HostEntry
  ledger : TcpSegmentLedger

section Spec

variable (sizes : FlowId → Nat) (c : Ctx)

def localPre : Op → LocalView → Prop
  | .getHost, _ => c.node.kind = .host
  | .setHost e', v => c.node.kind = .host ∧ Yields v.entry e'
  | .insertPacket p _, v =>
    Placed v.entry p ∧ ((∃ header, p.kind = .tcpData header) → c.node.kind = .host)
  | .seedTcpSegment p, v => ∃ ledger, v.ledger.seed p = .ok ledger
  | .acknowledgeTcpSegments flow acknowledgment, v =>
    ∃ ledger, v.ledger.acknowledge flow acknowledgment = .ok ledger
  | _, _ => True

def localResp : (o : Op) → LocalView → Resp o → Prop
  | .getHost, v, e => e = v.entry
  | .packet _, v, p => c.node.kind = .host → Harmless sizes v.entry p
  | .tcpSegment flow sequence, v, segment => segment = v.ledger.segment flow sequence
  | _, _, _ => True

/-- The ledger after an operation that is known to succeed. -/
def LocalView.settle (v : LocalView) : Except TcpSegmentConflict TcpSegmentLedger → LocalView
  | .ok ledger => { v with ledger }
  | .error _ => v

def localNext : (o : Op) → Resp o → LocalView → LocalView
  | .setHost e', _, v => { v with entry := e' }
  | .emit _ _ _ _, _, v => { v with entry := v.entry.bump }
  | .seedTcpSegment p, _, v => v.settle (v.ledger.seed p)
  | .acknowledgeTcpSegments flow acknowledgment, _, v =>
    v.settle (v.ledger.acknowledge flow acknowledgment)
  | _, _, v => v

def localSpec : Lib.OpSpec Op Resp LocalView where
  pre := localPre c
  resp := localResp sizes c
  next := localNext

/-- Every failure but one of the ledger. -/
def LedgerFree : ExecutionError → Prop
  | .missingTcpSegment _ _ | .inconsistentTcpSegment _ => False
  | _ => True

/-- Weakest preconditions over the senders and the ledger. -/
def LocalWp {α : Type} (prog : Prog α) (Q : α → LocalView → Prop) (v : LocalView) : Prop :=
  prog.wp (localSpec sizes c) LedgerFree Q v

end Spec

/-! ## §4. Rules. -/

namespace LocalWp

variable {sizes : FlowId → Nat} {c : Ctx} {α β : Type} {v : LocalView}

theorem pure {a : α} {Q : α → LocalView → Prop} (h : Q a v) : LocalWp sizes c (Pure.pure a) Q v := h

theorem bind {x : Prog α} {f : α → Prog β} {Q : β → LocalView → Prop}
    (h : LocalWp sizes c x (fun a v => LocalWp sizes c (f a) Q v) v) :
    LocalWp sizes c (x >>= f) Q v :=
  Lib.Program.wp_bind h

theorem mono {x : Prog α} {Q Q' : α → LocalView → Prop} (h : LocalWp sizes c x Q v)
    (hQ : ∀ a v, Q a v → Q' a v) : LocalWp sizes c x Q' v :=
  Lib.Program.wp_mono h hQ

/-- Run a specified program, then the rest. -/
theorem seq {x : Prog α} {f : α → Prog β} {P : α → LocalView → Prop} {Q : β → LocalView → Prop}
    (h : LocalWp sizes c x P v) (hf : ∀ a v, P a v → LocalWp sizes c (f a) Q v) :
    LocalWp sizes c (x >>= f) Q v :=
  bind (h.mono hf)

theorem lift {x : Except PlainError α} {Q : α → LocalView → Prop} (h : ∀ a, x = .ok a → Q a v) :
    LocalWp sizes c (liftM x : Prog α) Q v := by
  cases x with
  | ok a => exact h a rfl
  | error e => trivial

theorem when {b : Bool} {prog : Prog Unit} (htrue : b = true → LocalWp sizes c prog Q v)
    (hfalse : b = false → Q () v) : LocalWp sizes c (when b prog) Q v := by
  cases b with
  | true => exact htrue rfl
  | false => exact hfalse rfl

theorem each {o : Option β} {f : β → Prog Unit}
    (hsome : ∀ b, o = some b → LocalWp sizes c (f b) Q v) (hnone : o = none → Q () v) :
    LocalWp sizes c (each o f) Q v := by
  cases o with
  | some b => exact hsome b rfl
  | none => exact hnone rfl

theorem getHost {Q : HostEntry → LocalView → Prop} (hc : c.node.kind = .host)
    (h : Q v.entry v) : LocalWp sizes c Days.getHost Q v := by
  refine ⟨hc, fun r hr => ?_⟩
  cases hr
  exact h

theorem setHost (hc : c.node.kind = .host) (hstep : Yields v.entry e')
    (h : Q () { v with entry := e' }) :
    LocalWp sizes c (Days.setHost e') Q v :=
  ⟨⟨hc, hstep⟩, fun _ _ => h⟩

theorem packet {id : PayloadId} {Q : PacketDescriptor → LocalView → Prop}
    (h : ∀ p, (c.node.kind = .host → Harmless sizes v.entry p) → Q p v) :
    LocalWp sizes c (Days.packet id) Q v :=
  ⟨trivial, fun p hp => h p hp⟩

theorem tcpSegment {sequence : Nat} {Q : Option PacketDescriptor → LocalView → Prop}
    (h : Q (v.ledger.segment flow sequence) v) :
    LocalWp sizes c (Days.tcpSegment flow sequence) Q v := by
  refine ⟨trivial, fun r hr => ?_⟩
  cases hr
  exact h

theorem seedTcpSegment {ledger : TcpSegmentLedger} (hseed : v.ledger.seed p = .ok ledger)
    (h : Q () { v with ledger }) : LocalWp sizes c (Days.seedTcpSegment p) Q v := by
  refine ⟨⟨ledger, hseed⟩, fun _ _ => ?_⟩
  show Q () (v.settle (v.ledger.seed p))
  rw [hseed]
  exact h

theorem acknowledgeTcpSegments {acknowledgment : Nat} {ledger : TcpSegmentLedger}
    (hcut : v.ledger.acknowledge flow acknowledgment = .ok ledger) (h : Q () { v with ledger }) :
    LocalWp sizes c (Days.acknowledgeTcpSegments flow acknowledgment) Q v := by
  refine ⟨⟨ledger, hcut⟩, fun _ _ => ?_⟩
  show Q () (v.settle (v.ledger.acknowledge flow acknowledgment))
  rw [hcut]
  exact h

end LocalWp

/-! ## §5. Quiet programs. -/

/-- Operations that touch neither senders nor ledger. -/
def Op.IsQuiet : Op → Prop
  | .getHost | .setHost _ | .insertPacket _ _ | .seedTcpSegment _ | .acknowledgeTcpSegments _ _ =>
    False
  | _ => True

/-- From an entry that keeps the senders of `e`, the program leaves them and the ledger
alone. -/
def Quiet (sizes : FlowId → Nat) (c : Ctx) (e : HostEntry) {α : Type} (prog : Prog α) : Prop :=
  ∀ v : LocalView, Keeps e v.entry →
    LocalWp sizes c prog (fun _ v' => Keeps e v'.entry ∧ v'.ledger = v.ledger) v

namespace Quiet

variable {sizes : FlowId → Nat} {c : Ctx} {e e' : HostEntry} {α β : Type}

theorem pure (a : α) : Quiet sizes c e (Pure.pure a : Prog α) := fun _ hv => ⟨hv, rfl⟩

theorem bind {x : Prog α} {f : α → Prog β} (hx : Quiet sizes c e x)
    (hf : ∀ a, Quiet sizes c e (f a)) : Quiet sizes c e (x >>= f) := by
  intro v hv
  refine (hx v hv).seq fun a v₁ h₁ => (hf a v₁ h₁.1).mono fun _ v₂ h₂ => ?_
  exact ⟨h₂.1, h₂.2.trans h₁.2⟩

theorem fail (error : PlainError) : Quiet sizes c e (fail (.plain error) : Prog α) :=
  fun _ _ => trivial

theorem lift (x : Except PlainError α) : Quiet sizes c e (liftM x : Prog α) :=
  fun _ hv => .lift fun _ _ => ⟨hv, rfl⟩

/-- A pure computation whose result the rest depends on. -/
theorem lift_bind {x : Except PlainError α} {f : α → Prog β}
    (hf : ∀ a, x = .ok a → Quiet sizes c e (f a)) : Quiet sizes c e ((liftM x : Prog α) >>= f) :=
  fun v hv => .bind (.lift fun a ha => hf a ha v hv)

theorem check {p : Prop} [Decidable p] {error : ExecutionError} (h : LedgerFree error) :
    Quiet sizes c e (check p error) := by
  intro v hv
  unfold Prog.check
  split
  · exact ⟨hv, rfl⟩
  · exact h

theorem when {b : Bool} {prog : Prog Unit} (h : b = true → Quiet sizes c e prog) :
    Quiet sizes c e (when b prog) :=
  fun v hv => .when (fun hb => h hb v hv) fun _ => ⟨hv, rfl⟩

theorem each {o : Option β} {f : β → Prog Unit} (h : ∀ b, o = some b → Quiet sizes c e (f b)) :
    Quiet sizes c e (each o f) :=
  fun v hv => .each (fun b hb => h b hb v hv) fun _ => ⟨hv, rfl⟩

theorem op {o : Op} (h : o.IsQuiet) : Quiet sizes c e (op o) := by
  intro v hv
  cases o with
  | emit _ _ _ _ => exact ⟨trivial, fun _ _ => ⟨hv.trans (.of_same rfl rfl rfl), rfl⟩⟩
  | getHost => exact h.elim
  | setHost _ => exact h.elim
  | insertPacket _ _ => exact h.elim
  | seedTcpSegment _ => exact h.elim
  | acknowledgeTcpSegments _ _ => exact h.elim
  | _ => exact ⟨trivial, fun _ _ => ⟨hv, rfl⟩⟩

theorem getHost_bind {f : HostEntry → Prog β} (hc : c.node.kind = .host)
    (hf : ∀ e', Keeps e e' → Quiet sizes c e (f e')) : Quiet sizes c e (getHost >>= f) :=
  fun v hv => .bind (.getHost hc (hf v.entry hv v hv))

theorem setHost (hc : c.node.kind = .host) (h : Keeps e e') : Quiet sizes c e (setHost e') :=
  fun _ hv => .setHost hc (hv.symm.trans h).yields ⟨h, rfl⟩

/-- Create a packet that is no TCP segment. -/
theorem insertPacket {t : Option Nat} (h : ∀ header, p.kind ≠ .tcpData header) :
    Quiet sizes c e (insertPacket p t) := by
  refine fun v hv => ⟨⟨fun header hp => absurd hp (h header), ?_⟩, fun _ _ => ⟨hv, rfl⟩⟩
  rintro ⟨header, hp⟩
  exact absurd hp (h header)

/-- Create a segment behind the next byte. -/
theorem insertSegment {t : Option Nat} (hc : c.node.kind = .host) (h : Placed e p) :
    Quiet sizes c e (Days.insertPacket p t) :=
  fun _ hv => ⟨⟨h.keeps hv, fun _ => hc⟩, fun _ _ => ⟨hv, rfl⟩⟩

end Quiet

end Days
