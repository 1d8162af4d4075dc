/-
  Days.Exec.PacketStore — the packet store (`packet_store.rs`).

  Up to sixteen packets lie in a vector; more lie in a slab of slots behind an
  open-addressing index with linear probing.  `none` stands for a panic, or for a
  loop that never ends.
-/
import Days.Exec.State
import Days.Lib.Refinement
import Days.Lib.Probing

namespace Days

/-- `Resident`: a packet the store holds, keyed by its own payload identity. -/
class Resident (V : Type) where
  payload : V → PayloadId

export Resident (payload)

instance : Resident ResidentPacket := ⟨fun resident => resident.descriptor.id⟩

/-! ## §1. Constants and parts. -/

/-- `SMALL_LIMIT`. -/
def smallLimit : Nat := 16

/-- `FIRST_BUCKETS`. -/
def firstBuckets : Nat := 64

/-- `EMPTY`: the slot of a bucket that holds no packet. -/
def emptySlot : Nat := 2 ^ 32 - 1

/-- `NO_SLOT`: the end of the free list. -/
def noSlot : Nat := 2 ^ 32 - 1

/-- `FIBONACCI`. -/
def fibonacci : Nat := 0x9e3779b97f4a7c15

structure Bucket where
  payload : Nat
  slot : Nat

/-- `EMPTY_BUCKET`. -/
def emptyBucket : Bucket := ⟨0, emptySlot⟩

inductive Slot (V : Type) where
  | full (value : V)
  | vacant (next : Nat)

/-- `Slab::full`. -/
def Slot.full? {V : Type} : Slot V → Option V
  | full value => some value
  | vacant _ => none

structure Slab (V : Type) where
  buckets : List Bucket
  shift : Nat
  len : Nat
  slots : List (Slot V)
  free : Nat

/-- `bucket_of`: the top bits of the wrapped product. -/
def bucketOf (payload shift : Nat) : Nat := (payload * fibonacci % 2 ^ 64) >>> shift

/-! ## §2. The index. -/

/-- The bucket at an index; every index is masked or a home, hence within the table. -/
def bucketAt (buckets : List Bucket) (index : Nat) : Bucket := buckets.getD index emptyBucket

/-- `(index + 1) & mask`. -/
def nextIndex (buckets : List Bucket) (index : Nat) : Nat := (index + 1) &&& (buckets.length - 1)

/-- The loop of `find` and `place`: a walk that has seen every bucket would go on for ever. -/
def probeBuckets (buckets : List Bucket) (stop : Bucket → Bool) (index : Nat) : Option Nat :=
  Lib.probe (nextIndex buckets) (fun i => stop (bucketAt buckets i)) buckets.length index

/-- `place`. -/
def place (buckets : List Bucket) (shift payload slot : Nat) : Option (List Bucket) :=
  (probeBuckets buckets (·.slot == emptySlot) (bucketOf payload shift)).map fun index =>
    buckets.set index ⟨payload, slot⟩

/-- The loop of `grow` over the old buckets. -/
def placeAll (shift : Nat) : List Bucket → List Bucket → Option (List Bucket)
  | buckets, [] => some buckets
  | buckets, bucket :: old =>
    if bucket.slot = emptySlot then placeAll shift buckets old
    else do
      let buckets ← place buckets shift bucket.payload bucket.slot
      placeAll shift buckets old

/-- The loop of `remove`: later members of the probe run move into the hole, unless their home
    lies cyclically in `(hole, next]`. -/
def shiftBack (shift : Nat) : Nat → List Bucket → Nat → Nat → Option (List Bucket)
  | 0, _, _, _ => none
  | fuel + 1, buckets, hole, next =>
    let bucket := bucketAt buckets next
    if bucket.slot = emptySlot then some (buckets.set hole emptyBucket)
    else
      let home := bucketOf bucket.payload shift
      let stays := if hole ≤ next then hole < home ∧ home ≤ next else hole < home ∨ home ≤ next
      if stays then shiftBack shift fuel buckets hole (nextIndex buckets next)
      else shiftBack shift fuel (buckets.set hole bucket) next (nextIndex buckets next)

/-! ## §3. The slab. -/

namespace Slab

variable {V : Type}

/-- `with_buckets`; the count is a power of two, so its trailing zeros are its logarithm. -/
def withBuckets (buckets : Nat) : Slab V where
  buckets := List.replicate buckets emptyBucket
  shift := 64 - buckets.log2
  len := 0
  slots := []
  free := noSlot

/-- `find`: the bucket that holds the payload. -/
def find (s : Slab V) (payload : Nat) : Option (Option Nat) :=
  (probeBuckets s.buckets (fun bucket => bucket.slot == emptySlot || bucket.payload == payload)
      (bucketOf payload s.shift)).map fun index =>
    if (bucketAt s.buckets index).slot = emptySlot then none else some index

def grow (s : Slab V) : Option (Slab V) := do
  let count := s.buckets.length * 2
  let shift := 64 - count.log2
  let buckets ← placeAll shift (List.replicate count emptyBucket) s.buckets
  return { s with buckets, shift }

/-- The index grows before it is more than seven eighths full. -/
def reserve (s : Slab V) : Option (Slab V) :=
  if (s.len + 1) * 8 > s.buckets.length * 7 then s.grow else some s

/-- The slot of a bucket and the packet in it; an indexed slot holds one. -/
def packetAt (s : Slab V) (index : Nat) : Option (Nat × V) := do
  let slot := (bucketAt s.buckets index).slot
  let value ← (← s.slots[slot]?).full?
  return (slot, value)

def get (s : Slab V) (payload : Nat) : Option (Option V) := do
  match ← s.find payload with
  | none => return none
  | some index => return some (← s.packetAt index).2

/-- `get_mut`, and what the caller writes through the reference. -/
def getMut (s : Slab V) (payload : Nat) (write : V → V) : Option (Option V × Slab V) := do
  match ← s.find payload with
  | none => return (none, s)
  | some index =>
    let (slot, value) ← s.packetAt index
    return (some value, { s with slots := s.slots.set slot (.full (write value)) })

/-- The slot for a new packet: a fresh one, or the first of the free list. -/
def takeSlot (s : Slab V) (value : V) : Option (Nat × Slab V) :=
  if s.free = noSlot then
    if s.slots.length < emptySlot then
      some (s.slots.length, { s with slots := s.slots ++ [.full value] })
    else none
  else
    match s.slots[s.free]? with
    | some (.vacant next) => some (s.free, { s with slots := s.slots.set s.free (.full value), free := next })
    | _ => none

def insert (s : Slab V) (payload : Nat) (value : V) : Option (Option V × Slab V) := do
  match ← s.find payload with
  | some index =>
    let (slot, old) ← s.packetAt index
    return (some old, { s with slots := s.slots.set slot (.full value) })
  | none =>
    let s ← s.reserve
    let (slot, s) ← s.takeSlot value
    let buckets ← place s.buckets s.shift payload slot
    return (none, { s with buckets, len := s.len + 1 })

def remove (s : Slab V) (payload : Nat) : Option (Option V × Slab V) := do
  match ← s.find payload with
  | none => return (none, s)
  | some hole =>
    let (slot, value) ← s.packetAt hole
    let buckets ← shiftBack s.shift s.buckets.length s.buckets hole (nextIndex s.buckets hole)
    return (some value,
      { s with buckets, slots := s.slots.set slot (.vacant s.free), free := slot, len := s.len - 1 })

end Slab

/-! ## §4. The store. -/

inductive PacketStore (V : Type) where
  | small (packets : List V)
  | large (slab : Slab V)

/-- `swap_remove`. -/
def swapRemove {V : Type} (packets : List V) (position : Nat) : List V :=
  match packets.getLast? with
  | none => packets
  | some last => (packets.set position last).dropLast

namespace PacketStore

variable {V : Type}

def new : PacketStore V := .small []

section Access

variable [Resident V]

def position (packets : List V) (id : PayloadId) : Option Nat :=
  packets.findIdx? fun packet => payload packet == id

def get (s : PacketStore V) (id : PayloadId) : Option (Option V) :=
  match s with
  | .small packets => some (packets.find? fun packet => payload packet == id)
  | .large slab => slab.get id

/-- `get_mut`, and what the caller writes through the reference. -/
def getMut (s : PacketStore V) (id : PayloadId) (write : V → V) :
    Option (Option V × PacketStore V) :=
  match s with
  | .small packets =>
    match position packets id with
    | none => some (none, s)
    | some i => do
      let value ← packets[i]?
      return (some value, .small (packets.set i (write value)))
  | .large slab => (slab.getMut id write).map fun (found, slab) => (found, .large slab)

/-- The packets of a small store move into a slab. -/
def insertAll : Slab V → List V → Option (Slab V)
  | slab, [] => some slab
  | slab, packet :: rest => do
    let (_, slab) ← slab.insert (payload packet) packet
    insertAll slab rest

def insert (s : PacketStore V) (packet : V) : Option (Option V × PacketStore V) :=
  match s with
  | .small packets =>
    match position packets (payload packet) with
    | some i => do
      let old ← packets[i]?
      return (some old, .small (packets.set i packet))
    | none =>
      if packets.length < smallLimit then some (none, .small (packets ++ [packet]))
      else do
        let slab ← insertAll (.withBuckets firstBuckets) packets
        let (_, slab) ← slab.insert (payload packet) packet
        return (none, .large slab)
  | .large slab => (slab.insert (payload packet) packet).map fun (old, slab) => (old, .large slab)

def remove (s : PacketStore V) (id : PayloadId) : Option (Option V × PacketStore V) :=
  match s with
  | .small packets =>
    match position packets id with
    | none => some (none, s)
    | some i => do
      let value ← packets[i]?
      return (some value, .small (swapRemove packets i))
  | .large slab => do
    let (removed, slab) ← slab.remove id
    return (removed, if slab.len = 0 then .small [] else .large slab)

/-- Everything in the store, as `into_sorted` collects it. -/
def contents : PacketStore V → List V
  | .small packets => packets
  | .large slab => slab.slots.filterMap Slot.full?

/-- `into_sorted`. -/
def intoSorted (s : PacketStore V) : List V :=
  s.contents.insertionSort fun a b => payload a ≤ payload b

end Access

end PacketStore

/-! ## §5. Operations. -/

/-- What a caller writes through `get_mut` keeps the packet's identity. -/
structure PacketWrite (V : Type) [Resident V] where
  write : V → V
  keeps : ∀ v, payload (write v) = payload v

inductive StoreOp (V : Type) [Resident V] where
  | insert (packet : V)
  | get (id : PayloadId)
  | getMut (id : PayloadId) (update : PacketWrite V)
  | remove (id : PayloadId)

variable {V : Type} [Resident V]

namespace PacketStore

/-- One operation: every one of them answers with the packet it found, if any. -/
def step (s : PacketStore V) : StoreOp V → Option (Option V × PacketStore V)
  | .insert packet => s.insert packet
  | .get id => (s.get id).map fun found => (found, s)
  | .getMut id update => s.getMut id update.write
  | .remove id => s.remove id

/-- One operation of a store that may have panicked. -/
def run (s : Option (PacketStore V)) (o : StoreOp V) : Option (Option V) × Option (PacketStore V) :=
  match s.bind (·.step o) with
  | some (found, s') => (some found, some s')
  | none => (none, none)

end PacketStore

/-- What the store stands for. -/
abbrev PacketMap (V : Type) := Std.ExtTreeMap PayloadId V

namespace PacketMap

def step (m : PacketMap V) : StoreOp V → Option (Option V) × PacketMap V
  | .insert packet => (some m[payload packet]?, m.insert (payload packet) packet)
  | .get id => (some m[id]?, m)
  | .getMut id update =>
    (some m[id]?, match m[id]? with
      | some value => m.insert id (update.write value)
      | none => m)
  | .remove id => (some m[id]?, m.erase id)

def sorted (m : PacketMap V) : List V := m.toList.map (·.2)

end PacketMap

end Days
