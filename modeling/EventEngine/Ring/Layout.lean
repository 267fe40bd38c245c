import EventEngine.Event
import EventEngine.Memory.Alignment

/-!
# Layout of a ring in shared memory

Constants, geometry and sizing. `requiredBytes` is written for a `size_t` of any number
of bits, with the wrap-around of unsigned arithmetic; `sizeBits` is the width on the
supported hosts. `Geometry` packages a configuration that sizing accepts, so everything
after this module works with the exact numbers.
-/

namespace EventEngine.Ring

open Memory

def ringCacheLineBytes : Nat := 64
def ringMemoryAlignment : Nat := 128
def ringLayoutVersion : UInt16 := 1
def ringHeaderBytes : Nat := 192
def ringSlotMetadataBytes : Nat := 32
/-- The characters `LLE1`. -/
def ringMagic : Bytes := [0x4c, 0x4c, 0x45, 0x31]

/-- Values of the state word. -/
def stateUninitialized : UInt32 := 0
def stateInitializing : UInt32 := 1
def stateReady : UInt32 := 2
def stateClosed : UInt32 := 3

/-- Offsets in `RingPreamble`, which starts the mapping. -/
def magicOffset : Nat := 0
def layoutVersionOffset : Nat := 4
def headerBytesOffset : Nat := 6
def segmentBytesOffset : Nat := 8
def slotCountOffset : Nat := 16
def slotStrideOffset : Nat := 20
def slotPayloadCapacityOffset : Nat := 24
def reservedOffset : Nat := 28
def instanceIdOffset : Nat := 32
def stateOffset : Nat := 40
def reservedBytesOffset : Nat := 44

/-- Offsets of the two `RingCursor`s and of the reserved bytes inside each. -/
def producerOffset : Nat := 64
def consumerOffset : Nat := 128
def cursorReservedOffset : Nat := 8

/-- Offsets in `RingSlotHeader`. -/
def eventSequenceOffset : Nat := 0
def sourceTimestampOffset : Nat := 8
def streamIdOffset : Nat := 16
def payloadLengthOffset : Nat := 20
def slotReservedOffset : Nat := 24

structure RingConfig where
  slotCount : UInt32
  slotPayloadCapacity : UInt32
  deriving DecidableEq, Repr

inductive RingError where
  | invalidConfig
  | sizeOverflow
  | invalidMemory
  | invalidLayout
  | notReady
  deriving DecidableEq, Repr

/-- The stride `required_bytes` computes before its checks. -/
def slotStrideBytes (bits : Nat) (config : RingConfig) : Nat :=
  alignUp bits ((ringSlotMetadataBytes + config.slotPayloadCapacity.toNat) % 2 ^ bits)
    ringCacheLineBytes

/-- `SpscRing::required_bytes`. A zero stride would be divided by; `Nat` division then
gives zero, where the source has no defined result. -/
def requiredBytes (bits : Nat) (config : RingConfig) : Except RingError Nat :=
  if config.slotCount < 2 ∨ config.slotCount &&& (config.slotCount - 1) ≠ 0 then
    .error .invalidConfig
  else
    let maxSize := 2 ^ bits - 1
    let stride := slotStrideBytes bits config
    if stride > 2 ^ 32 - 1 then .error .sizeOverflow
    else if config.slotCount.toNat > (maxSize - ringHeaderBytes) / stride then
      .error .sizeOverflow
    else .ok ((ringHeaderBytes + stride * config.slotCount.toNat) % 2 ^ bits)

/-- The slot counts sizing accepts. -/
def SlotCountValid (config : RingConfig) : Prop := ∃ k, 1 ≤ k ∧ config.slotCount.toNat = 2 ^ k

theorem two_le_of_slotCountValid {config : RingConfig} (h : SlotCountValid config) :
    2 ≤ config.slotCount.toNat := by
  obtain ⟨k, hk, hcount⟩ := h
  rw [hcount]
  exact Nat.le_self_pow (by omega) 2

/-- The check on the slot count is a test for a power of two. -/
theorem slotCountValid_iff (config : RingConfig) :
    SlotCountValid config ↔
      ¬ (config.slotCount < 2 ∨ config.slotCount &&& (config.slotCount - 1) ≠ 0) := by
  have hpower : ∀ n : UInt32, 2 ≤ n.toNat →
      (n &&& (n - 1) = 0 ↔ n.toNat &&& (n.toNat - 1) = 0) := by
    intro n hn
    have hsub : (n - 1).toNat = n.toNat - 1 := UInt32.toNat_sub_of_le _ _ (by
      rw [UInt32.le_iff_toNat_le]
      exact Nat.le_of_succ_le hn)
    rw [← UInt32.toNat_inj, UInt32.toNat_and, hsub]
    rfl
  rw [not_or, not_not, UInt32.not_lt, UInt32.le_iff_toNat_le]
  change SlotCountValid config ↔ 2 ≤ config.slotCount.toNat ∧ _
  constructor
  · intro h
    have htwo := two_le_of_slotCountValid h
    obtain ⟨k, -, hcount⟩ := h
    refine ⟨htwo, (hpower _ htwo).mpr ?_⟩
    exact (Nat.and_sub_one_eq_zero_iff_isPowerOfTwo (by omega)).mpr ⟨k, hcount⟩
  · intro h
    obtain ⟨htwo, hand⟩ := h
    obtain ⟨k, hk⟩ :=
      (Nat.and_sub_one_eq_zero_iff_isPowerOfTwo (by omega)).mp ((hpower _ htwo).mp hand)
    refine ⟨k, ?_, hk⟩
    by_contra hzero
    obtain rfl : k = 0 := by omega
    omega

/-- A configuration that sizing accepts, with the number of bytes it needs. -/
structure Geometry where
  config : RingConfig
  size : Nat
  required : requiredBytes sizeBits config = .ok size

namespace Geometry

variable (g : Geometry)

/-- The number of slots. -/
def slots : Nat := g.config.slotCount.toNat

/-- The payload bytes a slot can hold. -/
def capacity : Nat := g.config.slotPayloadCapacity.toNat

/-- The distance between two slots. -/
def stride : Nat := slotStrideBytes sizeBits g.config

/-- The offset of the slot that logical position `p` uses. -/
def slotAt (p : Nat) : Nat := ringHeaderBytes + g.stride * (p % g.slots)

/-- What sizing has checked: the three conditions of `required_bytes`. -/
theorem required_iff {bits : Nat} {config : RingConfig} {size : Nat} :
    requiredBytes bits config = .ok size ↔
      ¬ (config.slotCount < 2 ∨ config.slotCount &&& (config.slotCount - 1) ≠ 0) ∧
      ¬ slotStrideBytes bits config > 2 ^ 32 - 1 ∧
      ¬ config.slotCount.toNat >
        (2 ^ bits - 1 - ringHeaderBytes) / slotStrideBytes bits config ∧
      (ringHeaderBytes + slotStrideBytes bits config * config.slotCount.toNat) % 2 ^ bits =
        size := by
  simp only [requiredBytes]
  split
  · simp_all
  · split
    · simp_all
    · split <;> simp_all

theorem slots_pow : ∃ k, 1 ≤ k ∧ g.slots = 2 ^ k :=
  (slotCountValid_iff g.config).mpr (required_iff.mp g.required).1

theorem two_le_slots : 2 ≤ g.slots := two_le_of_slotCountValid g.slots_pow

theorem slots_pos : 0 < g.slots := Nat.lt_of_lt_of_le (by decide) g.two_le_slots

theorem capacity_lt : g.capacity < 2 ^ 32 := g.config.slotPayloadCapacity.toNat_lt

/-- With a 64-bit `size_t` the stride is the exact least multiple of the cache line. -/
theorem stride_eq : g.stride = (32 + g.capacity + 63) / 64 * 64 := by
  have hcap := g.capacity_lt
  have hmod : (ringSlotMetadataBytes + g.capacity) % 2 ^ sizeBits = 32 + g.capacity := by
    rw [ringSlotMetadataBytes, sizeBits]
    omega
  have h := @alignUp_eq sizeBits (32 + g.capacity) 6 (by
    rw [sizeBits]
    omega)
  exact (congrArg (fun v => alignUp sizeBits v 64) hmod).trans h

theorem metadata_add_capacity_le_stride : 32 + g.capacity ≤ g.stride := by
  rw [g.stride_eq]
  omega

theorem stride_lt : g.stride < 2 ^ 32 := by
  obtain ⟨-, hstride, -, -⟩ := required_iff.mp g.required
  change ¬ g.stride > 2 ^ 32 - 1 at hstride
  omega

/-- The size is the exact number, without wrap-around, and fits in `size_t`. -/
theorem size_eq : g.size = 192 + g.stride * g.slots ∧ g.size < 2 ^ 64 := by
  obtain ⟨-, -, hfit, hsize⟩ := required_iff.mp g.required
  have hpos : 0 < g.stride := by have := g.metadata_add_capacity_le_stride; omega
  have hmul : g.stride * g.slots ≤ 2 ^ 64 - 1 - 192 := by
    have h := (Nat.le_div_iff_mul_le hpos).mp (Nat.le_of_not_gt hfit)
    rw [Nat.mul_comm]
    exact h
  change (192 + g.stride * g.slots) % 2 ^ 64 = g.size at hsize
  have hlt : 192 + g.stride * g.slots < 2 ^ 64 := by omega
  rw [Nat.mod_eq_of_lt hlt] at hsize
  exact ⟨hsize.symm, hsize ▸ hlt⟩

/-- Every slot lies inside the region, behind the header. -/
theorem slotAt_add_stride_le (p : Nat) :
    192 ≤ g.slotAt p ∧ g.slotAt p + g.stride ≤ g.size := by
  have hlt := Nat.mod_lt p g.slots_pos
  have hmul : g.stride * (p % g.slots + 1) ≤ g.stride * g.slots :=
    Nat.mul_le_mul_left _ hlt
  rw [Nat.mul_succ] at hmul
  rw [g.size_eq.1]
  exact ⟨Nat.le_add_right _ _, by rw [slotAt, ringHeaderBytes]; omega⟩

/-- Slots with different indices do not overlap. -/
theorem slotAt_disjoint {p q : Nat} (h : p % g.slots ≠ q % g.slots) :
    g.slotAt p + g.stride ≤ g.slotAt q ∨ g.slotAt q + g.stride ≤ g.slotAt p := by
  simp only [slotAt]
  obtain hlt | hlt := Nat.lt_or_gt_of_ne h
  · have := Nat.mul_le_mul_left g.stride hlt
    rw [Nat.mul_succ] at this
    omega
  · have := Nat.mul_le_mul_left g.stride hlt
    rw [Nat.mul_succ] at this
    omega

/-- Positions less than one lap apart use different slots. -/
theorem mod_slots_ne {p q : Nat} (h : p < q) (hlap : q < p + g.slots) :
    p % g.slots ≠ q % g.slots := by
  intro heq
  have hdvd := Nat.dvd_of_mod_eq_zero (Nat.sub_mod_eq_zero_of_mod_eq heq.symm)
  have hle := Nat.le_of_dvd (by omega) hdvd
  omega

/-- The mask the hot path uses is the remainder modulo the number of slots. -/
theorem and_mask (p : UInt64) :
    (p &&& (g.config.slotCount - 1).toUInt64).toNat = p.toNat % g.slots := by
  obtain ⟨k, -, hpow⟩ := g.slots_pow
  have hone : (1 : UInt32) ≤ g.config.slotCount := by
    rw [UInt32.le_iff_toNat_le]
    exact g.slots_pos
  rw [UInt64.toNat_and, UInt32.toNat_toUInt64, UInt32.toNat_sub_of_le _ _ hone]
  change p.toNat &&& (g.slots - 1) = p.toNat % g.slots
  rw [hpow, Nat.and_two_pow_sub_one_eq_mod]

end Geometry

end EventEngine.Ring
