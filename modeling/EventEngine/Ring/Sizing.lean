import EventEngine.Ring.Layout
import Mathlib.Order.Bounds.Basic

/-!
# When sizing is exact

The size of a ring is a natural number: 192 bytes of header and, for each slot, the least
multiple of the cache line that holds the metadata and the payload. `required_bytes`
computes it in a `size_t`, adding and rounding before it compares anything. This module
says for which widths and configurations the result is the number meant.
-/

namespace EventEngine.Ring

open Memory

/-- The stride meant: metadata and payload rounded up to the cache line. -/
def exactStride (config : RingConfig) : Nat :=
  (32 + config.slotPayloadCapacity.toNat + 63) / 64 * 64

/-- The size meant. -/
def exactSize (config : RingConfig) : Nat := 192 + config.slotCount.toNat * exactStride config

theorem exactStride_isLeast (config : RingConfig) :
    IsLeast {stride | 64 ∣ stride ∧ 32 + config.slotPayloadCapacity.toNat ≤ stride}
      (exactStride config) := by
  constructor
  · constructor
    · exact Nat.dvd_mul_left 64 _
    · rw [exactStride]
      omega
  · intro stride h
    obtain ⟨⟨lines, rfl⟩, hle⟩ := h
    rw [exactStride]
    omega

/-- `SpscRing::required_bytes` with its division: `none` where the source divides by a
stride of zero. -/
def requiredBytesOrTrap (bits : Nat) (config : RingConfig) : Option (Except RingError Nat) :=
  if config.slotCount < 2 ∨ config.slotCount &&& (config.slotCount - 1) ≠ 0 then
    some (.error .invalidConfig)
  else
    let maxSize := 2 ^ bits - 1
    let stride := slotStrideBytes bits config
    if stride > 2 ^ 32 - 1 then some (.error .sizeOverflow)
    else if stride = 0 then none
    else if config.slotCount.toNat > (maxSize - ringHeaderBytes) / stride then
      some (.error .sizeOverflow)
    else some (.ok ((ringHeaderBytes + stride * config.slotCount.toNat) % 2 ^ bits))

/-- Away from the trap this is the function the rest of the development uses. -/
theorem requiredBytes_of_orTrap {bits : Nat} {config : RingConfig}
    {result : Except RingError Nat} (h : requiredBytesOrTrap bits config = some result) :
    requiredBytes bits config = result := by
  revert h
  simp only [requiredBytesOrTrap, requiredBytes]
  split_ifs <;> simp_all

/-- What sizing promises of one configuration on a `size_t` of `bits` bits. -/
structure SizingExact (bits : Nat) (config : RingConfig) : Prop where
  defined : requiredBytesOrTrap bits config ≠ none
  succeeds : (∃ size, requiredBytesOrTrap bits config = some (.ok size)) ↔
    SlotCountValid config ∧ exactStride config < 2 ^ 32 ∧ exactSize config < 2 ^ bits
  exact : ∀ size, requiredBytesOrTrap bits config = some (.ok size) →
    size = exactSize config ∧
    (size - ringHeaderBytes) / config.slotCount.toNat = exactStride config
  rejects : ∀ error, requiredBytesOrTrap bits config = some (.error error) →
    error = .invalidConfig ∨ error = .sizeOverflow

/-- A slot count that is refused is refused as documented, at any width. -/
theorem sizingExact_of_invalid {bits : Nat} {config : RingConfig}
    (h : ¬ SlotCountValid config) : SizingExact bits config := by
  have hrun : requiredBytesOrTrap bits config = some (.error .invalidConfig) := by
    rw [slotCountValid_iff, not_not] at h
    exact if_pos h
  constructor
  · simp [hrun]
  · simp [hrun, h]
  · simp [hrun]
  · simp [hrun]

/-- The computation behind the check on the slot count. -/
theorem requiredBytesOrTrap_of_valid (bits : Nat) {config : RingConfig}
    (hvalid : SlotCountValid config) :
    requiredBytesOrTrap bits config =
      if slotStrideBytes bits config > 2 ^ 32 - 1 then some (.error .sizeOverflow)
      else if slotStrideBytes bits config = 0 then none
      else if config.slotCount.toNat >
          (2 ^ bits - 1 - ringHeaderBytes) / slotStrideBytes bits config then
        some (.error .sizeOverflow)
      else some (.ok ((ringHeaderBytes + slotStrideBytes bits config *
        config.slotCount.toNat) % 2 ^ bits)) :=
  if_neg ((slotCountValid_iff config).mp hvalid)

/-- Where the stride is computed exactly, so is the size. -/
theorem sizingExact_of_stride {bits : Nat} {config : RingConfig}
    (hvalid : SlotCountValid config) (hbits : 32 ≤ bits)
    (hstride : slotStrideBytes bits config = exactStride config) :
    SizingExact bits config := by
  have hrun := requiredBytesOrTrap_of_valid bits hvalid
  have htwo := two_le_of_slotCountValid hvalid
  have hpos : 0 < exactStride config := by
    rw [exactStride]
    omega
  have hbig : (192 : Nat) < 2 ^ bits :=
    Nat.lt_of_lt_of_le (by decide) (Nat.pow_le_pow_right (by decide) hbits)
  rw [hstride, if_neg (Nat.ne_of_gt hpos)] at hrun
  -- The division asks whether the exact size fits.
  have hfits : config.slotCount.toNat > (2 ^ bits - 1 - ringHeaderBytes) / exactStride config ↔
      ¬ exactSize config < 2 ^ bits := by
    rw [gt_iff_lt, Nat.div_lt_iff_lt_mul hpos, exactSize, ringHeaderBytes]
    omega
  have hsum : ringHeaderBytes + exactStride config * config.slotCount.toNat =
      exactSize config := by
    rw [exactSize, ringHeaderBytes, Nat.mul_comm]
  rw [hsum] at hrun
  by_cases hstrideFits : exactStride config < 2 ^ 32
  · rw [if_neg (by omega)] at hrun
    by_cases hsizeFits : exactSize config < 2 ^ bits
    · rw [if_neg (hfits.not.mpr (not_not.mpr hsizeFits)), Nat.mod_eq_of_lt hsizeFits] at hrun
      constructor
      · simp [hrun]
      · exact ⟨fun _ => ⟨hvalid, hstrideFits, hsizeFits⟩, fun _ => ⟨_, hrun⟩⟩
      · intro size hsize
        rw [hrun] at hsize
        obtain rfl : exactSize config = size := by simpa using hsize
        refine ⟨rfl, ?_⟩
        rw [exactSize, ringHeaderBytes, Nat.add_sub_cancel_left,
          Nat.mul_div_cancel_left _ (by omega)]
      · simp [hrun]
    · rw [if_pos (hfits.mpr hsizeFits)] at hrun
      constructor
      · simp [hrun]
      · simp [hrun, hsizeFits]
      · simp [hrun]
      · simp [hrun]
  · rw [if_pos (by omega)] at hrun
    constructor
    · simp [hrun]
    · exact ⟨fun h => by simp [hrun] at h, fun h => absurd h.2.1 hstrideFits⟩
    · simp [hrun]
    · simp [hrun]

/-- The rounding is exact as long as nothing wraps. -/
theorem slotStrideBytes_eq_exact {bits : Nat} {config : RingConfig}
    (hfit : 32 + config.slotPayloadCapacity.toNat + 64 ≤ 2 ^ bits) :
    slotStrideBytes bits config = exactStride config := by
  have hmod : (ringSlotMetadataBytes + config.slotPayloadCapacity.toNat) % 2 ^ bits =
      32 + config.slotPayloadCapacity.toNat := Nat.mod_eq_of_lt (by
    rw [ringSlotMetadataBytes]
    omega)
  have hround := @alignUp_eq bits _ 6 hfit
  rw [slotStrideBytes, hmod]
  exact hround

section Wrapping

variable {config : RingConfig}

/-- With 32 bits the rounding of the last 64 sums wraps to zero. -/
theorem slotStrideBytes_wrap_zero (hlow : 2 ^ 32 - 96 < config.slotPayloadCapacity.toNat)
    (hhigh : config.slotPayloadCapacity.toNat ≤ 2 ^ 32 - 32) :
    slotStrideBytes 32 config = 0 := by
  have hand : ∀ v : Nat, v &&& (ringCacheLineBytes - 1) = v % 64 :=
    fun v => Nat.and_two_pow_sub_one_eq_mod v 6
  rw [slotStrideBytes, alignUp, hand, ringSlotMetadataBytes, ringCacheLineBytes]
  split <;> omega

/-- Where the sum itself wraps, one cache line is left of the stride. -/
theorem slotStrideBytes_wrap_line (h : 2 ^ 32 - 32 < config.slotPayloadCapacity.toNat) :
    slotStrideBytes 32 config = 64 := by
  have hlt := config.slotPayloadCapacity.toNat_lt
  have hand : ∀ v : Nat, v &&& (ringCacheLineBytes - 1) = v % 64 :=
    fun v => Nat.and_two_pow_sub_one_eq_mod v 6
  rw [slotStrideBytes, alignUp, hand, ringSlotMetadataBytes, ringCacheLineBytes]
  split <;> omega

/-- In the first band sizing divides by zero. -/
theorem not_sizingExact_of_wrap_zero (hvalid : SlotCountValid config)
    (hlow : 2 ^ 32 - 96 < config.slotPayloadCapacity.toNat)
    (hhigh : config.slotPayloadCapacity.toNat ≤ 2 ^ 32 - 32) : ¬ SizingExact 32 config := by
  intro h
  apply h.defined
  rw [requiredBytesOrTrap_of_valid 32 hvalid, slotStrideBytes_wrap_zero hlow hhigh]
  simp

/-- In the second band a size is returned exactly for the counts below `2 ^ 26`, though
none fits. -/
theorem sizingExact_of_wrap_line (hvalid : SlotCountValid config)
    (hhigh : 2 ^ 32 - 32 < config.slotPayloadCapacity.toNat) :
    SizingExact 32 config ↔ 2 ^ 26 ≤ config.slotCount.toNat := by
  have hrun := requiredBytesOrTrap_of_valid 32 hvalid
  rw [slotStrideBytes_wrap_line hhigh, if_neg (by decide), if_neg (by decide)] at hrun
  have hstride : ¬ exactStride config < 2 ^ 32 := by
    rw [exactStride]
    omega
  constructor
  · intro h
    by_contra hsmall
    obtain ⟨k, -, hcount⟩ := id hvalid
    have hk : k ≤ 25 := by
      by_contra hk
      have := Nat.pow_le_pow_right (n := 2) (by decide) (Nat.lt_of_not_le hk)
      omega
    have hle : config.slotCount.toNat ≤ 2 ^ 25 :=
      hcount ▸ Nat.pow_le_pow_right (by decide) hk
    rw [if_neg (by rw [ringHeaderBytes]; omega)] at hrun
    exact hstride (h.succeeds.mp ⟨_, hrun⟩).2.1
  · intro hcount
    rw [if_pos (by rw [ringHeaderBytes]; omega)] at hrun
    constructor
    · simp [hrun]
    · exact ⟨fun h => by simp [hrun] at h, fun h => absurd h.2.1 hstride⟩
    · simp [hrun]
    · simp [hrun]

end Wrapping

/-- Sizing is exact with 64 bits, and with 32 bits unless an addition wraps before the
first comparison and no later check happens to refuse the configuration. -/
theorem sizing_exact_iff {bits : Nat} (hbits : bits = 32 ∨ bits = 64) (config : RingConfig) :
    SizingExact bits config ↔
      bits = 64 ∨ ¬ SlotCountValid config ∨
      config.slotPayloadCapacity.toNat ≤ 2 ^ 32 - 96 ∨
      (2 ^ 32 - 32 < config.slotPayloadCapacity.toNat ∧ 2 ^ 26 ≤ config.slotCount.toNat) := by
  have hcapacity := config.slotPayloadCapacity.toNat_lt
  by_cases hvalid : SlotCountValid config
  swap
  · simp only [hvalid, not_false_eq_true, true_or, or_true, iff_true]
    exact sizingExact_of_invalid hvalid
  obtain rfl | rfl := hbits
  · by_cases hlow : config.slotPayloadCapacity.toNat ≤ 2 ^ 32 - 96
    · simp only [hlow, true_or, or_true, iff_true]
      apply sizingExact_of_stride hvalid (by decide)
      exact slotStrideBytes_eq_exact (by omega)
    · by_cases hhigh : config.slotPayloadCapacity.toNat ≤ 2 ^ 32 - 32
      · have hnot := not_sizingExact_of_wrap_zero hvalid (Nat.lt_of_not_le hlow) hhigh
        simp only [hnot, hvalid, not_true_eq_false, false_or, false_iff]
        omega
      · rw [sizingExact_of_wrap_line hvalid (Nat.lt_of_not_le hhigh)]
        simp only [hvalid, not_true_eq_false, false_or]
        omega
  · simp only [true_or, iff_true]
    apply sizingExact_of_stride hvalid (by decide)
    exact slotStrideBytes_eq_exact (by omega)

/-- Two slots whose payload capacity is 63 bytes short of `2 ^ 32`. -/
theorem sizing_traps : ¬ SizingExact 32 ⟨2, 0xFFFFFFC1⟩ := by
  apply not_sizingExact_of_wrap_zero
  · exact ⟨1, by decide, by decide⟩
  · decide
  · decide

theorem sizing_exact_iff_sample :
    SizingExact 32 ⟨4, 100⟩ ∧ requiredBytesOrTrap 32 ⟨4, 100⟩ = some (.ok 960) ∧
      ¬ SizingExact 32 ⟨4, 0xFFFFFFFF⟩ := by
  refine ⟨?_, by decide, ?_⟩
  · exact (sizing_exact_iff (.inl rfl) ⟨4, 100⟩).mpr (.inr (.inr (.inl (by decide))))
  · intro h
    obtain hbits | hcount | hlow | ⟨-, hcount⟩ :=
      (sizing_exact_iff (.inl rfl) ⟨4, 0xFFFFFFFF⟩).mp h
    · exact absurd hbits (by decide)
    · exact hcount ⟨2, by decide, by decide⟩
    · exact absurd hlow (by decide)
    · exact absurd hcount (by decide)

end EventEngine.Ring
