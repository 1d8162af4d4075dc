/-
  Days.Topos.Rail — the rail fabric and the 32-bit arithmetic of its profile.
  (`src/topos/rail.rs`)

  A configuration is accepted in 64 bits and narrowed to 32.  An operation of the
  profile that leaves 32 bits is `none`, and so is a narrowing that panics.
-/
import Days.Base.Checked
import Mathlib.Algebra.Order.Floor.Div

namespace Days.Topos

/-! ## §1. The fabric. -/

structure SpectrumXConfig where
  (gpus gpusPerServer nicsPerAsw psws : Nat)
  gpuType : String
  (nicRateBps uplinkRateBps nvlinkRateBps linkDelayNs nvlinkDelayNs : Nat)

inductive TopologyError where
  | invalidConfig (message : String)
  | numericOverflow (what : String)

structure RailProfile where
  (gpus gpusPerServer nicsPerAsw asws psws : Nat)
  (nicRateBps uplinkRateBps nvlinkRateBps linkDelayNs nvlinkDelayNs : Nat)

structure RailTopology where
  profile : RailProfile
  gpuType : String

/-- `char::is_whitespace`. -/
def isWhitespace (c : Char) : Bool :=
  let n := c.toNat
  (9 ≤ n && n ≤ 13) || (0x2000 ≤ n && n ≤ 0x200a) ||
    [0x20, 0x85, 0xa0, 0x1680, 0x2028, 0x2029, 0x202f, 0x205f, 0x3000].contains n

namespace SpectrumXConfig

variable (config : SpectrumXConfig)

/-- The fields that must be positive, in the order they are checked. -/
def positive : List (String × Nat) :=
  [("gpus", config.gpus), ("gpus_per_server", config.gpusPerServer),
    ("nics_per_asw", config.nicsPerAsw), ("psws", config.psws),
    ("nic_rate_bps", config.nicRateBps), ("uplink_rate_bps", config.uplinkRateBps),
    ("nvlink_rate_bps", config.nvlinkRateBps), ("link_delay_ns", config.linkDelayNs),
    ("nvlink_delay_ns", config.nvlinkDelayNs)]

/-- The checks of `RailTopology::new`, and the ASW count and the node count they leave. -/
def checked : Except TopologyError (Nat × Nat) :=
  match config.positive.find? (·.2 = 0) with
  | some (name, _) => .error (.invalidConfig s!"spectrum_x.{name} must be positive")
  | none =>
    if config.gpuType.isEmpty || config.gpuType.toList.any isWhitespace then
      .error (.invalidConfig "spectrum_x.gpu_type must be one SimAI header token")
    else if config.gpus % config.gpusPerServer ≠ 0 then
      .error (.invalidConfig (s!"spectrum_x.gpus {config.gpus} is not a multiple of " ++
        s!"gpus_per_server {config.gpusPerServer}"))
    else match checkedMul 64 config.gpusPerServer config.nicsPerAsw with
    | none => .error (.numericOverflow "spectrum_x segment size")
    | some segment =>
      if config.gpus % segment ≠ 0 ∧ config.gpus > segment then
        .error (.invalidConfig (s!"spectrum_x.gpus {config.gpus} leaves a partial segment of " ++
          s!"{segment} GPUs; Days refuses a ragged last segment"))
      else
        match checkedMul 64 (config.gpus ⌈/⌉ segment) config.gpusPerServer with
        | none => .error (.numericOverflow "spectrum_x ASW count")
        | some asws =>
          let servers := config.gpus / config.gpusPerServer
          match ([config.gpus, servers, asws, config.psws].foldlM (checkedAdd 64) 0).filter
              (· < width 32) with
          | none => .error (.numericOverflow "spectrum_x node identities")
          | some nodes => .ok (asws, nodes)

/-- The profile that `new` builds. -/
def profile (asws : Nat) : RailProfile :=
  ⟨config.gpus, config.gpusPerServer, config.nicsPerAsw, asws, config.psws, config.nicRateBps,
    config.uplinkRateBps, config.nvlinkRateBps, config.linkDelayNs, config.nvlinkDelayNs⟩

end SpectrumXConfig

/-- `RailTopology::new`; `none` where it panics. -/
def RailTopology.new (config : SpectrumXConfig) : Option (Except TopologyError RailTopology) :=
  match config.checked with
  | .error error => some (.error error)
  | .ok (asws, nodes) =>
    -- The assertion of debug builds, and each `narrow` to 32 bits.
    if nodes > 0 ∧ [config.gpus, config.gpusPerServer, config.nicsPerAsw, asws, config.psws].all
        (· < width 32) then some (.ok ⟨config.profile asws, config.gpuType⟩)
    else none

/-! ## §2. The profile. -/

/-- One word of SimAI's hash. -/
def hashWord (hash word : BitVec 32) : BitVec 32 :=
  let k := (word * 0xcc9e2d51#32).rotateLeft 15 * 0x1b873593#32
  let hash := (hash ^^^ k).rotateLeft 13
  hash + hash <<< 2 + 0xe6546b64#32

def simaiEcmpHash (words : List Nat) (seed : Nat) : Nat :=
  let hash := (words.map (.ofNat 32)).foldl hashWord (.ofNat 32 seed) ^^^ 12#32
  let hash := (hash ^^^ hash >>> 16) * 0x85ebca6b#32
  let hash := (hash ^^^ hash >>> 13) * 0xc2b2ae35#32
  (hash ^^^ hash >>> 16).toNat

def simaiNodeIp (id : Nat) : Option Nat := do
  let high ← checkedMul 32 (id / 256) 0x00010000
  let low ← checkedMul 32 (id % 256) 0x00000100
  checkedAdd 32 (← checkedAdd 32 0x0b000001 high) low

def simaiDport : Nat := 100

namespace RailProfile

variable (p : RailProfile)

def segmentGpus : Option Nat := checkedMul 32 p.gpusPerServer p.nicsPerAsw

def servers : Nat := p.gpus / p.gpusPerServer

def aswOf (gpu : Nat) : Option Nat := do
  let segment ← p.segmentGpus
  checkedAdd 32 (← checkedMul 32 (gpu / segment) p.gpusPerServer) (gpu % p.gpusPerServer)

def pswIndex (psw : Nat) : Option Nat := checkedAdd 32 p.asws psw

def simaiSwitchId (index : Nat) : Option Nat := do
  checkedAdd 32 (← checkedAdd 32 p.gpus p.servers) index

/-- The PSW an ASW picks for the words of a message. -/
def pickPsw (asw : Nat) (words : List Nat) : Option Nat := do
  let seed ← p.simaiSwitchId asw
  let last ← checkedSub p.psws 1
  checkedSub last (simaiEcmpHash words seed % p.psws)

/-- The choice for a message from `near` to `far`, with its ports in one word; there is none if the
two share an ASW. -/
def choosePsw (near far ports : Nat) : Option (Option Nat) := do
  let asw ← p.aswOf near
  let other ← p.aswOf far
  if asw = other then return none
  let source ← simaiNodeIp near
  let target ← simaiNodeIp far
  return ← p.pickPsw asw [source, target, ports]

def dataPsw (source target sport : Nat) : Option (Option Nat) :=
  p.choosePsw source target (sport ||| simaiDport <<< 16)

def feedbackPsw (source target sport : Nat) : Option (Option Nat) :=
  p.choosePsw target source (simaiDport ||| sport <<< 16)

end RailProfile

/-! ## §3. Accepted fabrics. -/

/-- The number of node ids whose address fits 32 bits. -/
def addressableNodes : Nat := 16056320

/-- What the checks of `RailTopology::new` leave. -/
structure RailProfile.Accepted (p : RailProfile) : Prop where
  gpus : 0 < p.gpus
  perServer : 0 < p.gpusPerServer
  nics : 0 < p.nicsPerAsw
  psws : 0 < p.psws
  whole : p.gpusPerServer ∣ p.gpus
  segments : p.asws = p.gpus ⌈/⌉ (p.gpusPerServer * p.nicsPerAsw) * p.gpusPerServer
  nodes : p.gpus + p.servers + p.asws + p.psws < width 32

variable {config : SpectrumXConfig} {asws nodes : Nat} {p : RailProfile}

theorem checked_ok (h : config.checked = .ok (asws, nodes)) :
    (config.profile asws).Accepted ∧ nodes > 0 := by
  unfold SpectrumXConfig.checked at h
  split at h
  · cases h
  next hpositive =>
  simp only [List.find?_eq_none, SpectrumXConfig.positive, List.mem_cons, List.not_mem_nil,
    or_false, forall_eq_or_imp, forall_eq, decide_eq_true_eq] at hpositive
  obtain ⟨hgpus, hserver, hnics, hpsws, -⟩ := hpositive
  split at h
  · cases h
  split at h
  · cases h
  next hwhole =>
  split at h
  · cases h
  next segment hsegment =>
  obtain ⟨rfl, -⟩ := checkedMul_eq_some hsegment
  split at h
  · cases h
  dsimp only at h
  split at h
  · cases h
  next found hfound =>
  split at h
  · cases h
  next total htotal =>
  cases h
  obtain ⟨hsum, hlt⟩ := Option.filter_eq_some_iff.1 htotal
  simp only [List.foldlM_cons, List.foldlM_nil, Option.bind_eq_bind, Option.bind_eq_some_iff] at hsum
  obtain ⟨a, ha, b, hb, c, hc, d, hd, ⟨⟩⟩ := hsum
  obtain ⟨rfl, -⟩ := checkedAdd_eq_some ha
  obtain ⟨rfl, -⟩ := checkedAdd_eq_some hb
  obtain ⟨rfl, -⟩ := checkedAdd_eq_some hc
  obtain ⟨rfl, -⟩ := checkedAdd_eq_some hd
  rw [Nat.zero_add] at hlt
  exact ⟨{
    gpus := Nat.pos_of_ne_zero hgpus
    perServer := Nat.pos_of_ne_zero hserver
    nics := Nat.pos_of_ne_zero hnics
    psws := Nat.pos_of_ne_zero hpsws
    whole := Nat.dvd_of_mod_eq_zero (not_not.1 hwhole)
    segments := (checkedMul_eq_some hfound).1
    nodes := of_decide_eq_true hlt }, Nat.add_pos_right _ (Nat.pos_of_ne_zero hpsws)⟩

/-- An address fits 32 bits up to the last addressable node id. -/
theorem simaiNodeIp_isSome {id : Nat} : (simaiNodeIp id).isSome ↔ id < addressableNodes := by
  unfold simaiNodeIp checkedMul checkedAdd width addressableNodes
  simp only [Option.bind_eq_bind]
  constructor
  · intro h
    split at h
    · rw [Option.bind_some] at h
      split at h
      · rw [Option.bind_some] at h
        split at h
        · rw [Option.bind_some] at h
          split at h
          · omega
          · cases h
        · cases h
      · cases h
    · cases h
  · intro h
    rw [if_pos (by omega), Option.bind_some, if_pos (by omega), Option.bind_some, if_pos (by omega),
      Option.bind_some, if_pos (by omega)]
    rfl

/-- The size of a segment fits 32 bits if the product does. -/
theorem segmentGpus_isSome : p.segmentGpus.isSome ↔ p.gpusPerServer * p.nicsPerAsw < width 32 := by
  unfold RailProfile.segmentGpus checkedMul
  split
  · next h => exact iff_of_true rfl h
  · next h => exact iff_of_false (by simp) h

theorem simaiSwitchId_isSome (h : p.Accepted) {index : Nat} (hindex : index < p.asws + p.psws) :
    (p.simaiSwitchId index).isSome := by
  have hnodes := h.nodes
  unfold RailProfile.simaiSwitchId checkedAdd
  rw [if_pos (by omega)]
  simp only [Option.bind_eq_bind, Option.bind_some]
  rw [if_pos (by omega)]
  rfl

theorem pickPsw_isSome (h : p.Accepted) {asw : Nat} (hasw : asw < p.asws + p.psws)
    (words : List Nat) : (p.pickPsw asw words).isSome := by
  obtain ⟨seed, hseed⟩ := Option.isSome_iff_exists.1 (simaiSwitchId_isSome h hasw)
  have hpsws : 1 ≤ p.psws := h.psws
  unfold RailProfile.pickPsw
  rw [hseed, Option.bind_eq_bind, Option.bind_some, checkedSub, if_pos hpsws]
  -- What the hash is does not matter: it is reduced by the number of PSWs.
  generalize simaiEcmpHash words seed = hash
  have hentry := Nat.mod_lt hash h.psws
  rw [Option.bind_some, checkedSub, if_pos (by omega)]
  rfl

section Accepted

variable (h : p.Accepted) (hfit : p.gpusPerServer * p.nicsPerAsw < width 32)

include h hfit

/-- Every GPU has an ASW among those of the fabric. -/
theorem aswOf_ok {gpu : Nat} (hgpu : gpu < p.gpus) : ∃ asw, p.aswOf gpu = some asw ∧ asw < p.asws := by
  have hsegment : 0 < p.gpusPerServer * p.nicsPerAsw := Nat.mul_pos h.perServer h.nics
  have hrail := Nat.mod_lt gpu h.perServer
  have hnodes := h.nodes
  have hlt : gpu / (p.gpusPerServer * p.nicsPerAsw) < p.gpus ⌈/⌉ (p.gpusPerServer * p.nicsPerAsw) := by
    rw [Nat.div_lt_iff_lt_mul hsegment, Nat.mul_comm]
    exact hgpu.trans_le (le_smul_ceilDiv hsegment)
  have hasw := Nat.mul_le_mul_right p.gpusPerServer hlt
  rw [← h.segments, Nat.succ_mul] at hasw
  refine ⟨_, ?_, show gpu / (p.gpusPerServer * p.nicsPerAsw) * p.gpusPerServer +
    gpu % p.gpusPerServer < p.asws by omega⟩
  simp only [RailProfile.aswOf, RailProfile.segmentGpus, checkedMul, checkedAdd, if_pos hfit,
    Option.bind_eq_bind, Option.bind_some]
  rw [if_pos (by omega), Option.bind_some, if_pos (by omega)]

/-- No step of a PSW choice overflows. -/
theorem choosePsw_isSome {near far : Nat} (hgpus : p.gpus ≤ addressableNodes) (hnear : near < p.gpus)
    (hfar : far < p.gpus) (ports : Nat) : (p.choosePsw near far ports).isSome := by
  obtain ⟨asw, hasw, hlt⟩ := aswOf_ok h hfit hnear
  obtain ⟨other, hother, -⟩ := aswOf_ok h hfit hfar
  obtain ⟨source, hsource⟩ := Option.isSome_iff_exists.1 (simaiNodeIp_isSome.2 (hnear.trans_le hgpus))
  obtain ⟨target, htarget⟩ := Option.isSome_iff_exists.1 (simaiNodeIp_isSome.2 (hfar.trans_le hgpus))
  obtain ⟨psw, hpsw⟩ := Option.isSome_iff_exists.1
    (pickPsw_isSome h (Nat.lt_add_right p.psws hlt) [source, target, ports])
  unfold RailProfile.choosePsw
  simp only [hasw, hother, hsource, htarget, hpsw, Option.bind_eq_bind, Option.bind_some]
  split
  · rfl
  · rfl

end Accepted

/-- If the segment size fits 32 bits, every accepted configuration is narrowed. -/
theorem new_ok (hchecked : config.checked = .ok (asws, nodes))
    (hfit : config.gpusPerServer * config.nicsPerAsw < width 32) :
    (config.profile asws).Accepted ∧
      RailTopology.new config = some (.ok ⟨config.profile asws, config.gpuType⟩) := by
  obtain ⟨h, hpos⟩ := checked_ok hchecked
  refine ⟨h, ?_⟩
  have hnodes : config.gpus + config.gpus / config.gpusPerServer + asws + config.psws < width 32 :=
    h.nodes
  have hserver : config.gpusPerServer ≤ config.gpus := Nat.le_of_dvd h.gpus h.whole
  have hnics : config.nicsPerAsw ≤ config.gpusPerServer * config.nicsPerAsw :=
    Nat.le_mul_of_pos_left _ h.perServer
  generalize config.gpus / config.gpusPerServer = servers at hnodes
  unfold RailTopology.new
  rw [hchecked]
  refine if_pos ⟨hpos, ?_⟩
  simp only [List.all_cons, List.all_nil, Bool.and_eq_true, decide_eq_true_eq, and_true]
  omega

/-- After the checks, `new` returns the profile or panics. -/
theorem new_result {result : Except TopologyError RailTopology}
    (hchecked : config.checked = .ok (asws, nodes)) (hresult : RailTopology.new config = some result) :
    result = .ok ⟨config.profile asws, config.gpuType⟩ := by
  unfold RailTopology.new at hresult
  rw [hchecked] at hresult
  dsimp only at hresult
  split at hresult
  · exact (Option.some.inj hresult).symm
  · cases hresult

/-- `new` does not panic, and no 32-bit operation on an accepted fabric overflows, exactly for the
configurations that the checks refuse and those whose segment size and GPU addresses fit 32 bits. -/
theorem rail_arithmetic_sound (config : SpectrumXConfig) :
    (∃ result, RailTopology.new config = some result ∧ ∀ p gpuType, result = .ok ⟨p, gpuType⟩ →
      p.segmentGpus.isSome ∧ (∀ psw < p.psws, (p.pswIndex psw).isSome) ∧
      (∀ index < p.asws + p.psws, (p.simaiSwitchId index).isSome) ∧
      ∀ source < p.gpus, ∀ target < p.gpus, ∀ sport < width 16,
        (p.aswOf source).isSome ∧ (simaiNodeIp source).isSome ∧
        (p.dataPsw source target sport).isSome ∧ (p.feedbackPsw source target sport).isSome) ↔
      (∃ error, config.checked = .error error) ∨
        config.gpusPerServer * config.nicsPerAsw < width 32 ∧ config.gpus ≤ addressableNodes := by
  cases hchecked : config.checked with
  | error error =>
    refine iff_of_true ⟨.error error, ?_, fun p gpuType h => ?_⟩ (.inl ⟨error, rfl⟩)
    · unfold RailTopology.new
      rw [hchecked]
    · cases h
  | ok found =>
    obtain ⟨asws, nodes⟩ := found
    constructor
    · rintro ⟨result, hresult, hsound⟩
      refine .inr ?_
      obtain ⟨hsegment, -, -, hgpus⟩ := hsound _ _ (new_result hchecked hresult)
      refine ⟨segmentGpus_isSome.1 hsegment, ?_⟩
      -- The last GPU has the largest address.
      have hpos := (checked_ok hchecked).1.gpus
      have hlast : config.gpus - 1 < config.gpus := Nat.sub_lt hpos Nat.one_pos
      have haddress := simaiNodeIp_isSome.1 (hgpus _ hlast 0 hpos 0 (by decide)).2.1
      omega
    · rintro (⟨error, herror⟩ | ⟨hfit, hgpus⟩)
      · cases herror
      obtain ⟨h, hnew⟩ := new_ok hchecked hfit
      refine ⟨_, hnew, ?_⟩
      rintro _ _ ⟨⟩
      have hnodes := h.nodes
      refine ⟨segmentGpus_isSome.2 hfit,
        fun psw hpsw => Option.isSome_of_eq_some (if_pos (by omega)),
        fun index => simaiSwitchId_isSome h, fun source hsource target htarget sport _ =>
          ⟨?_, simaiNodeIp_isSome.2 (hsource.trans_le hgpus),
            choosePsw_isSome h hfit hgpus hsource htarget _,
            choosePsw_isSome h hfit hgpus htarget hsource _⟩⟩
      obtain ⟨asw, hasw, -⟩ := aswOf_ok h hfit hsource
      exact Option.isSome_of_eq_some hasw

/-- One server of `gpus` GPUs. -/
def oneServer (gpus nics : Nat) : SpectrumXConfig := ⟨gpus, gpus, nics, 1, "H100", 1, 1, 1, 1, 1⟩

/-- A long segment panics, or is accepted and overflows; so does the address of a GPU. -/
theorem rail_arithmetic_overflows :
    RailTopology.new (oneServer 1 (2 ^ 32)) = none ∧
    (∃ p gpuType, RailTopology.new (oneServer 2 (2 ^ 31)) = some (.ok ⟨p, gpuType⟩) ∧
      p.segmentGpus = none) ∧
    ∃ p gpuType, RailTopology.new (oneServer (addressableNodes + 1) 1) = some (.ok ⟨p, gpuType⟩) ∧
      p.dataPsw addressableNodes 0 0 = none := by
  exact ⟨by decide, ⟨_, _, rfl, by decide⟩, ⟨_, _, rfl, by decide⟩⟩

end Days.Topos
