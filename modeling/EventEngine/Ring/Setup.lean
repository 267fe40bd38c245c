import EventEngine.Ring.Handle

/-!
# Creating a ring and attaching to one

`initializeRing` is `SpscRing::initialize`: it constructs the header and all slot headers
in fresh memory and publishes them by storing `Ready`. `attach` validates what some
creator left in the memory and copies the geometry into a new handle.
-/

namespace EventEngine.Ring

open Concurrency Memory

variable {ℓ : Type}

/-- Set `n` bytes to zero, one at a time. -/
def zeroFill (offset : Nat) : Nat → Method spanAccess ℓ Unit
  | 0 => pure ()
  | n + 1 => do
      store offset [0]
      zeroFill (offset + 1) n

/-- `std::ranges::all_of` over reserved bytes, which stops at the first nonzero one. -/
def allZero (offset : Nat) : Nat → Method spanAccess ℓ Bool
  | 0 => pure true
  | n + 1 => do
      let b ← loadU8 offset
      if b ≠ 0 then return false
      else allZero (offset + 1) n

/-- Value-initialize the headers of `n` slots, starting at slot `index`. The stride is
read back from the preamble for each slot. -/
def constructSlots (index : Nat) : Nat → Method spanAccess ℓ Unit
  | 0 => pure ()
  | n + 1 => do
      let stride ← loadU32 slotStrideOffset
      zeroFill (ringHeaderBytes + index * stride.toNat) ringSlotMetadataBytes
      constructSlots (index + 1) n

def fillPreamble (size : Nat) (config : RingConfig) (instanceId : UInt64) :
    Method spanAccess ℓ Unit := do
  store magicOffset ringMagic
  storeU16 layoutVersionOffset ringLayoutVersion
  storeU16 headerBytesOffset (UInt16.ofNat ringHeaderBytes)
  storeU64 segmentBytesOffset (UInt64.ofNat size)
  storeU32 slotCountOffset config.slotCount
  storeU32 slotStrideOffset
    (UInt32.ofNat ((size - ringHeaderBytes) / config.slotCount.toNat))
  storeU32 slotPayloadCapacityOffset config.slotPayloadCapacity
  storeU32 reservedOffset 0
  storeU64 instanceIdOffset instanceId
  zeroFill reservedBytesOffset 20
  storeU32 stateOffset stateInitializing

/-- The smallest header size and the alignment; callers check the exact size. -/
def invalidMemory (memory : Region) : Bool :=
  memory.base == 0 || decide (memory.size < ringHeaderBytes) ||
    memory.base % ringMemoryAlignment != 0

/-- Fields of the preamble that do not depend on the configuration. -/
def invalidLayout : Method spanAccess ℓ Bool := do
  let magic ← load magicOffset 4
  if magic ≠ ringMagic then return true
  else
    let version ← loadU16 layoutVersionOffset
    if version ≠ ringLayoutVersion then return true
    else
      let headerBytes ← loadU16 headerBytesOffset
      if headerBytes.toNat ≠ ringHeaderBytes then return true
      else
        let instanceId ← loadU64 instanceIdOffset
        if instanceId = 0 then return true
        else
          let reserved ← loadU32 reservedOffset
          return reserved != 0

def validateState (state : UInt32) : Except RingError Unit :=
  if state = stateUninitialized ∨ state = stateInitializing then .error .notReady
  else if state ≠ stateReady ∧ state ≠ stateClosed then .error .invalidLayout
  else .ok ()

namespace SpscRing

/-- The private constructor: the geometry is copied from the header. -/
def ofHeader (initializer : Bool) : Method spanAccess ℓ SpscRing := do
  let slotCount ← loadU32 slotCountOffset
  let slotStride ← loadU32 slotStrideOffset
  let slotPayloadCapacity ← loadU32 slotPayloadCapacityOffset
  return {
    header := some 0
    slots := ringHeaderBytes
    slotCount, slotStride, slotPayloadCapacity
    cachedReadPosition := 0
    cachedWritePosition := 0
    acquiredPosition := 0
    acquired := false
    initializer }

/-- The stores of a successful `initialize`, in order. -/
def construct (size : Nat) (config : RingConfig) (instanceId : UInt64) :
    Method spanAccess ℓ SpscRing := do
  zeroFill 0 ringHeaderBytes
  fillPreamble size config instanceId
  storeU64 producerOffset 0
  storeU64 consumerOffset 0
  constructSlots 0 config.slotCount.toNat
  storeU32 stateOffset stateReady
  ofHeader true

def initializeRing (memory : Region) (config : RingConfig) (instanceId : UInt64) :
    Method spanAccess ℓ (Except RingError SpscRing) :=
  if instanceId = 0 then return .error .invalidConfig
  else
    match requiredBytes sizeBits config with
    | .error e => return .error e
    | .ok size =>
        if invalidMemory memory ∨ memory.size ≠ size then return .error .invalidMemory
        else return .ok (← construct size config instanceId)

/-- The reserved bytes of the preamble and of both cursors. -/
def reservedBytesZero : Method spanAccess ℓ Bool := do
  if ← allZero reservedBytesOffset 20 then
    if ← allZero (producerOffset + cursorReservedOffset) 56 then
      allZero (consumerOffset + cursorReservedOffset) 56
    else return false
  else return false

/-- The last part of `attach`: the stored geometry agrees with the stored configuration
and with the size of the mapping. -/
def attachGeometry (memory : Region) : Method spanAccess ℓ (Except RingError SpscRing) := do
  let slotCount ← loadU32 slotCountOffset
  let slotPayloadCapacity ← loadU32 slotPayloadCapacityOffset
  match requiredBytes sizeBits ⟨slotCount, slotPayloadCapacity⟩ with
  | .error _ => return .error .invalidLayout
  | .ok size =>
      let slotStride ← loadU32 slotStrideOffset
      if slotStride.toNat ≠ (size - ringHeaderBytes) / slotCount.toNat then
        return .error .invalidLayout
      else
        let segmentBytes ← loadU64 segmentBytesOffset
        if segmentBytes.toNat ≠ size then return .error .invalidLayout
        else if memory.size ≠ size then return .error .invalidMemory
        else return .ok (← ofHeader false)

def attach (memory : Region) : Method spanAccess ℓ (Except RingError SpscRing) :=
  if invalidMemory memory then return .error .invalidMemory
  else do
    let state ← loadU32 stateOffset
    match validateState state with
    | .error e => return .error e
    | .ok () =>
        if ← invalidLayout then return .error .invalidLayout
        else if ← reservedBytesZero then attachGeometry memory
        else return .error .invalidLayout

end SpscRing

end EventEngine.Ring
