import EventEngine.Event

/-!
# Little-endian fields of a packet

The wire helpers, byte by byte with shifts as the source has them, and what they do in terms
of `leBytes`. A buffer is a byte list; `writeAt` overwrites part of it.
-/

namespace EventEngine.Protocol

open Memory

variable {output pre rest bs : Bytes} {offset : Nat}

def hasBytes (size offset count : Nat) : Bool :=
  decide (offset ≤ size) && decide (count ≤ size - offset)

/-- Overwrite the bytes of a buffer that start at `offset`. -/
def writeAt (output : Bytes) (offset : Nat) (bs : Bytes) : Bytes :=
  output.take offset ++ (bs ++ output.drop (offset + bs.length))

def writeU16 (dst : Bytes) (offset : Nat) (value : UInt16) : Bytes :=
  writeAt (writeAt dst offset [value.toUInt8]) (offset + 1) [(value >>> 8).toUInt8]

def writeU32 (dst : Bytes) (offset : Nat) (value : UInt32) : Bytes :=
  writeU16 (writeU16 dst offset value.toUInt16) (offset + 2) (value >>> 16).toUInt16

def writeU64 (dst : Bytes) (offset : Nat) (value : UInt64) : Bytes :=
  writeU32 (writeU32 dst offset value.toUInt32) (offset + 4) (value >>> 32).toUInt32

/-- The byte at `offset`; every read of the decoder is inside the packet. -/
def readU8 (src : Bytes) (offset : Nat) : UInt8 := src.getD offset 0

def readU16 (src : Bytes) (offset : Nat) : UInt16 :=
  (readU8 src offset).toUInt16 ||| (readU8 src (offset + 1)).toUInt16 <<< 8

def readU32 (src : Bytes) (offset : Nat) : UInt32 :=
  (readU16 src offset).toUInt32 ||| (readU16 src (offset + 2)).toUInt32 <<< 16

def readU64 (src : Bytes) (offset : Nat) : UInt64 :=
  (readU32 src offset).toUInt64 ||| (readU32 src (offset + 4)).toUInt64 <<< 32

/-- Writing right behind a prefix extends the prefix. -/
theorem writeAt_append (hoffset : pre.length = offset) :
    writeAt (pre ++ rest) offset bs = (pre ++ bs) ++ rest.drop bs.length := by
  rw [← hoffset, writeAt, List.take_left, List.drop_append, List.append_assoc]
  simp

section Halves

theorem leBytes_add (a b v : Nat) :
    leBytes (a + b) v = leBytes a v ++ leBytes b (v / 256 ^ a) := by
  induction a generalizing v with
  | zero => simp [leBytes]
  | succ a ih =>
      rw [Nat.succ_add, leBytes, leBytes, ih, List.cons_append, Nat.div_div_eq_div_mul,
        ← Nat.pow_succ']

theorem leBytes_mod (n v : Nat) : leBytes n (v % 256 ^ n) = leBytes n v := by
  apply eq_of_leNat_eq
  · rw [length_leBytes, length_leBytes]
  · rw [leNat_leBytes, leNat_leBytes, Nat.mod_mod]

end Halves

theorem writeU16_append (value : UInt16) (hoffset : pre.length = offset) :
    writeU16 (pre ++ rest) offset value = (pre ++ leBytes 2 value.toNat) ++ rest.drop 2 := by
  have hsecond : (pre ++ [value.toUInt8]).length = offset + 1 := by simp [hoffset]
  rw [writeU16, writeAt_append hoffset, writeAt_append hsecond, List.drop_drop]
  have hlow : value.toUInt8 = UInt8.ofNat value.toNat := by
    apply UInt8.toNat_inj.mp
    simp
  have hhigh : (value >>> 8).toUInt8 = UInt8.ofNat (value.toNat / 256) := by
    apply UInt8.toNat_inj.mp
    simp [Nat.shiftRight_eq_div_pow]
  rw [hlow, hhigh, List.append_assoc pre]
  rfl

theorem writeU32_append (value : UInt32) (hoffset : pre.length = offset) :
    writeU32 (pre ++ rest) offset value = (pre ++ leBytes 4 value.toNat) ++ rest.drop 4 := by
  have hsecond : (pre ++ leBytes 2 value.toUInt16.toNat).length = offset + 2 := by simp [hoffset]
  have hlow : leBytes 2 value.toUInt16.toNat = leBytes 2 value.toNat := by
    rw [UInt32.toNat_toUInt16]
    exact leBytes_mod 2 _
  have hhigh : leBytes 2 (value >>> 16).toUInt16.toNat = leBytes 2 (value.toNat / 256 ^ 2) := by
    rw [UInt32.toNat_toUInt16, ← leBytes_mod 2 (value.toNat / 256 ^ 2)]
    simp [Nat.shiftRight_eq_div_pow]
  rw [writeU32, writeU16_append _ hoffset, writeU16_append _ hsecond, List.drop_drop, hlow, hhigh,
    List.append_assoc pre, ← leBytes_add]

theorem writeU64_append (value : UInt64) (hoffset : pre.length = offset) :
    writeU64 (pre ++ rest) offset value = (pre ++ leBytes 8 value.toNat) ++ rest.drop 8 := by
  have hsecond : (pre ++ leBytes 4 value.toUInt32.toNat).length = offset + 4 := by simp [hoffset]
  have hlow : leBytes 4 value.toUInt32.toNat = leBytes 4 value.toNat := by
    rw [UInt64.toNat_toUInt32]
    exact leBytes_mod 4 _
  have hhigh : leBytes 4 (value >>> 32).toUInt32.toNat = leBytes 4 (value.toNat / 256 ^ 4) := by
    rw [UInt64.toNat_toUInt32, ← leBytes_mod 4 (value.toNat / 256 ^ 4)]
    simp [Nat.shiftRight_eq_div_pow]
  rw [writeU64, writeU32_append _ hoffset, writeU32_append _ hsecond, List.drop_drop, hlow, hhigh,
    List.append_assoc pre, ← leBytes_add]

/-- `n` bytes of a packet. -/
def bytesAt (src : Bytes) (offset n : Nat) : Bytes := (src.drop offset).take n

section Reading

variable {src : Bytes} {n : Nat}

theorem length_bytesAt (h : offset + n ≤ src.length) : (bytesAt src offset n).length = n := by
  simp only [bytesAt, List.length_take, List.length_drop]
  omega

theorem leNat_append (as bs : Bytes) :
    leNat (as ++ bs) = leNat as + 256 ^ as.length * leNat bs := by
  induction as with
  | nil => simp [leNat]
  | cons a rest ih =>
      rw [List.cons_append, leNat, leNat, ih, List.length_cons, pow_succ]
      ring

theorem bytesAt_add (src : Bytes) (offset a b : Nat) :
    bytesAt src offset (a + b) = bytesAt src offset a ++ bytesAt src (offset + a) b := by
  rw [bytesAt, List.take_add, List.drop_drop, bytesAt, bytesAt]

/-- A field is its low half and its high half. -/
theorem leNat_bytesAt_add {a b : Nat} (h : offset + a ≤ src.length) :
    leNat (bytesAt src offset (a + b)) =
      leNat (bytesAt src offset a) + 256 ^ a * leNat (bytesAt src (offset + a) b) := by
  rw [bytesAt_add, leNat_append, length_bytesAt h]

theorem bytesAt_one (h : offset < src.length) : bytesAt src offset 1 = [readU8 src offset] := by
  rw [readU8, bytesAt, List.getD_eq_getElem _ _ h, List.drop_eq_getElem_cons h,
    List.take_succ_cons, List.take_zero]

theorem readU8_toNat (h : offset < src.length) :
    (readU8 src offset).toNat = leNat (bytesAt src offset 1) := by
  rw [bytesAt_one h]
  rfl

/-- Two halves that do not overlap. -/
theorem or_shift {low high k : Nat} (h : low < 2 ^ k) :
    low ||| high <<< k = low + 2 ^ k * high := by
  rw [Nat.or_comm, ← Nat.shiftLeft_add_eq_or_of_lt h, Nat.shiftLeft_eq]
  ring

theorem readU16_toNat (h : offset + 2 ≤ src.length) :
    (readU16 src offset).toNat = leNat (bytesAt src offset 2) := by
  have hlow := (readU8 src offset).toNat_lt
  have hhigh := (readU8 src (offset + 1)).toNat_lt
  have hshift : ((readU8 src (offset + 1)).toUInt16 <<< 8).toNat =
      (readU8 src (offset + 1)).toNat <<< 8 := by
    simp [UInt16.toNat_shiftLeft, Nat.shiftLeft_eq]
    omega
  rw [leNat_bytesAt_add (b := 1) (by omega), ← readU8_toNat (by omega),
    ← readU8_toNat (by omega), readU16, UInt16.toNat_or, hshift, UInt8.toNat_toUInt16,
    or_shift hlow]
  rfl

theorem readU32_toNat (h : offset + 4 ≤ src.length) :
    (readU32 src offset).toNat = leNat (bytesAt src offset 4) := by
  have hlow := (readU16 src offset).toNat_lt
  have hhigh := (readU16 src (offset + 2)).toNat_lt
  have hshift : ((readU16 src (offset + 2)).toUInt32 <<< 16).toNat =
      (readU16 src (offset + 2)).toNat <<< 16 := by
    simp [UInt32.toNat_shiftLeft, Nat.shiftLeft_eq]
    omega
  rw [leNat_bytesAt_add (b := 2) (by omega), ← readU16_toNat (by omega),
    ← readU16_toNat (by omega), readU32, UInt32.toNat_or, hshift, UInt16.toNat_toUInt32,
    or_shift hlow]
  rfl

theorem readU64_toNat (h : offset + 8 ≤ src.length) :
    (readU64 src offset).toNat = leNat (bytesAt src offset 8) := by
  have hlow := (readU32 src offset).toNat_lt
  have hhigh := (readU32 src (offset + 4)).toNat_lt
  have hshift : ((readU32 src (offset + 4)).toUInt64 <<< 32).toNat =
      (readU32 src (offset + 4)).toNat <<< 32 := by
    simp [UInt64.toNat_shiftLeft, Nat.shiftLeft_eq]
    omega
  rw [leNat_bytesAt_add (b := 4) (by omega), ← readU32_toNat (by omega),
    ← readU32_toNat (by omega), readU64, UInt64.toNat_or, hshift, UInt32.toNat_toUInt64,
    or_shift hlow]
  rfl

/-- Bytes that are there determine the number a field holds. -/
theorem leBytes_of_leNat {v : Nat} (h : offset + n ≤ src.length)
    (hv : v = leNat (bytesAt src offset n)) : leBytes n v = bytesAt src offset n := by
  have hbytes := leBytes_leNat (bytesAt src offset n)
  rw [length_bytesAt h] at hbytes
  rw [hv, hbytes]

theorem bytesAt_two (h : offset + 2 ≤ src.length) :
    bytesAt src offset 2 = leBytes 2 (readU16 src offset).toNat :=
  (leBytes_of_leNat h (readU16_toNat h)).symm

theorem bytesAt_four (h : offset + 4 ≤ src.length) :
    bytesAt src offset 4 = leBytes 4 (readU32 src offset).toNat :=
  (leBytes_of_leNat h (readU32_toNat h)).symm

theorem bytesAt_eight (h : offset + 8 ≤ src.length) :
    bytesAt src offset 8 = leBytes 8 (readU64 src offset).toNat :=
  (leBytes_of_leNat h (readU64_toNat h)).symm

theorem le_length_of_bytesAt {bs : Bytes} (h : bytesAt src offset n = bs)
    (hlength : bs.length = n) (hpos : 0 < n) : offset + n ≤ src.length := by
  have hle : (bytesAt src offset n).length = n := by rw [h, hlength]
  simp only [bytesAt, List.length_take, List.length_drop] at hle
  omega

theorem readU8_eq {b : UInt8} (h : bytesAt src offset 1 = [b]) : readU8 src offset = b := by
  have hlength := le_length_of_bytesAt h rfl (by decide)
  rw [bytesAt_one hlength] at h
  exact List.head_eq_of_cons_eq h

theorem readU32_eq {v : UInt32} (h : bytesAt src offset 4 = leBytes 4 v.toNat) :
    readU32 src offset = v := by
  apply UInt32.toNat_inj.mp
  rw [readU32_toNat (le_length_of_bytesAt h (length_leBytes 4 _) (by decide)), h,
    leNat_leBytes_of_lt v.toNat_lt]

theorem readU64_eq {v : UInt64} (h : bytesAt src offset 8 = leBytes 8 v.toNat) :
    readU64 src offset = v := by
  apply UInt64.toNat_inj.mp
  rw [readU64_toNat (le_length_of_bytesAt h (length_leBytes 8 _) (by decide)), h,
    leNat_leBytes_of_lt v.toNat_lt]

end Reading

end EventEngine.Protocol
