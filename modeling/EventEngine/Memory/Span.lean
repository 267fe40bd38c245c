import EventEngine.Concurrency.RelyGuarantee
import EventEngine.Memory.Bytes
import Mathlib.Data.List.GetD

/-!
# A byte-addressed shared region

A `Span` is a region of memory with the address it is mapped at and its contents. Offsets
are relative to its first byte. Reading and writing are total: whether an access stays inside
the region is a property of the access, stated where it matters.

A whole word is read or written by one access, as the atomics of the modelled code are;
a region written byte by byte is many accesses.
-/

namespace EventEngine.Memory

open Concurrency

/-- `size` bytes at address `base`; address zero is the null pointer. -/
structure Region where
  base : Nat
  size : Nat
  deriving DecidableEq, Repr

/-- A region together with what it holds. -/
structure Span extends Region where
  bytes : Nat → UInt8

namespace Span

/-- `n` bytes starting at `offset`. -/
def read (m : Span) (offset n : Nat) : Bytes :=
  (List.range n).map fun i => m.bytes (offset + i)

/-- Replace the bytes starting at `offset`. -/
def write (m : Span) (offset : Nat) (bs : Bytes) : Span :=
  { m with bytes := fun a =>
      if offset ≤ a ∧ a < offset + bs.length then bs.getD (a - offset) 0 else m.bytes a }

def u8 (m : Span) (offset : Nat) : UInt8 := m.bytes offset
def u16 (m : Span) (offset : Nat) : UInt16 := UInt16.ofNat (leNat (m.read offset 2))
def u32 (m : Span) (offset : Nat) : UInt32 := UInt32.ofNat (leNat (m.read offset 4))
def u64 (m : Span) (offset : Nat) : UInt64 := UInt64.ofNat (leNat (m.read offset 8))

/-- The two regions hold the same bytes from `lo` up to `hi`. -/
def Agree (lo hi : Nat) (m m' : Span) : Prop :=
  ∀ a, lo ≤ a → a < hi → m'.bytes a = m.bytes a

variable {m m' m'' : Span} {lo hi offset n : Nat}

@[simp] theorem length_read (m : Span) (offset n : Nat) : (m.read offset n).length = n := by
  simp [read]

@[simp] theorem write_toRegion (m : Span) (offset : Nat) (bs : Bytes) :
    (m.write offset bs).toRegion = m.toRegion := rfl

theorem getElem_read (m : Span) (offset n i : Nat) (h : i < (m.read offset n).length) :
    (m.read offset n)[i] = m.bytes (offset + i) := by
  simp [read]

theorem write_bytes_outside {a : Nat} {bs : Bytes} (h : a < offset ∨ offset + bs.length ≤ a) :
    (m.write offset bs).bytes a = m.bytes a := by
  have hout : ¬ (offset ≤ a ∧ a < offset + bs.length) := by omega
  simp only [write, if_neg hout]

theorem write_bytes_inside {i : Nat} {bs : Bytes} (h : i < bs.length) :
    (m.write offset bs).bytes (offset + i) = bs[i] := by
  have hin : offset ≤ offset + i ∧ offset + i < offset + bs.length := by omega
  simp only [write, if_pos hin, Nat.add_sub_cancel_left, List.getD_eq_getElem?_getD,
    List.getElem?_eq_getElem h, Option.getD_some]

theorem Agree.refl (m : Span) : Agree lo hi m m := fun _ _ _ => rfl

theorem Agree.trans (h : Agree lo hi m m') (h' : Agree lo hi m' m'') : Agree lo hi m m'' :=
  fun a hl hh => (h' a hl hh).trans (h a hl hh)

theorem Agree.mono {lo' hi' : Nat} (h : Agree lo hi m m') (hlo : lo ≤ lo') (hhi : hi' ≤ hi) :
    Agree lo' hi' m m' :=
  fun a hl hh => h a (Nat.le_trans hlo hl) (Nat.lt_of_lt_of_le hh hhi)

theorem agree_write {bs : Bytes} (h : hi ≤ offset ∨ offset + bs.length ≤ lo) :
    Agree lo hi m (m.write offset bs) :=
  fun a hl hh => write_bytes_outside (by omega)

/-- What a read returns depends only on the bytes it covers. -/
theorem read_congr (h : Agree lo hi m m') (hlo : lo ≤ offset) (hhi : offset + n ≤ hi) :
    m'.read offset n = m.read offset n := by
  apply List.map_congr_left
  intro i hi'
  have := List.mem_range.mp hi'
  exact h _ (by omega) (by omega)

theorem u16_congr (h : Agree lo hi m m') (hlo : lo ≤ offset) (hhi : offset + 2 ≤ hi) :
    m'.u16 offset = m.u16 offset := by rw [u16, u16, read_congr h hlo hhi]

theorem u32_congr (h : Agree lo hi m m') (hlo : lo ≤ offset) (hhi : offset + 4 ≤ hi) :
    m'.u32 offset = m.u32 offset := by rw [u32, u32, read_congr h hlo hhi]

theorem u64_congr (h : Agree lo hi m m') (hlo : lo ≤ offset) (hhi : offset + 8 ≤ hi) :
    m'.u64 offset = m.u64 offset := by rw [u64, u64, read_congr h hlo hhi]

theorem read_write_same (m : Span) (offset : Nat) (bs : Bytes) :
    (m.write offset bs).read offset bs.length = bs := by
  apply List.ext_getElem (by simp)
  intro i hi hi'
  rw [getElem_read, write_bytes_inside hi']

theorem read_write_of_disjoint {bs : Bytes} {at' : Nat}
    (h : at' + bs.length ≤ offset ∨ offset + n ≤ at') :
    (m.write at' bs).read offset n = m.read offset n := by
  have hsame : Agree offset (offset + n) m (m.write at' bs) := agree_write (by omega)
  exact read_congr hsame (Nat.le_refl _) (Nat.le_refl _)

/-- A read splits at any point of the region it covers. -/
theorem read_add (m : Span) (offset n k : Nat) :
    m.read offset (n + k) = m.read offset n ++ m.read (offset + n) k := by
  simp only [read, List.range_add, List.map_append, List.map_map]
  congr 1
  apply List.map_congr_left
  intro i _
  simp [Nat.add_assoc]

theorem read_one (m : Span) (offset : Nat) : m.read offset 1 = [m.u8 offset] := rfl

/-- Reading back the little-endian word just written. -/
theorem read_write_leBytes (m : Span) (offset k v : Nat) :
    (m.write offset (leBytes k v)).read offset k = leBytes k v := by
  have h := read_write_same m offset (leBytes k v)
  rwa [length_leBytes] at h

theorem u32_write_same (m : Span) (offset : Nat) (v : UInt32) :
    (m.write offset (leBytes 4 v.toNat)).u32 offset = v := by
  rw [u32, read_write_leBytes, leNat_leBytes_of_lt v.toNat_lt, UInt32.ofNat_toNat]

theorem u64_write_same (m : Span) (offset : Nat) (v : UInt64) :
    (m.write offset (leBytes 8 v.toNat)).u64 offset = v := by
  rw [u64, read_write_leBytes, leNat_leBytes_of_lt v.toNat_lt, UInt64.ofNat_toNat]

/-- Writing right behind a known run of bytes extends the run. -/
theorem read_write_extend {bs cs : Bytes} (h : m.read offset bs.length = bs) :
    (m.write (offset + bs.length) cs).read offset (bs.length + cs.length) = bs ++ cs := by
  rw [read_add, read_write_same, read_write_of_disjoint (.inr (Nat.le_refl _)), h]

theorem write_nil (m : Span) (offset : Nat) : m.write offset [] = m := by
  have hnone : ∀ a, ¬ (offset ≤ a ∧ a < offset + ([] : Bytes).length) := by
    intro a
    rw [List.length_nil]
    omega
  simp only [write, if_neg (hnone _)]

/-- Adjacent writes are one write. -/
theorem write_write (m : Span) (offset : Nat) (bs cs : Bytes) :
    (m.write offset bs).write (offset + bs.length) cs = m.write offset (bs ++ cs) := by
  simp only [write, mk.injEq, true_and]
  funext a
  by_cases hcs : offset + bs.length ≤ a ∧ a < offset + bs.length + cs.length
  · have hboth : offset ≤ a ∧ a < offset + (bs ++ cs).length := by
      rw [List.length_append]
      omega
    rw [if_pos hcs, if_pos hboth, List.getD_append_right _ _ _ _ (by omega), Nat.sub_sub]
  · rw [if_neg hcs]
    by_cases hbs : offset ≤ a ∧ a < offset + bs.length
    · have hboth : offset ≤ a ∧ a < offset + (bs ++ cs).length := by
        rw [List.length_append]
        omega
      rw [if_pos hbs, if_pos hboth, List.getD_append _ _ _ _ (by omega)]
    · rw [if_neg hbs, if_neg]
      rw [List.length_append]
      omega

/-- A word of zero bytes is zero. -/
theorem u32_eq_zero (h : ∀ i < 4, m.bytes (offset + i) = 0) : m.u32 offset = 0 := by
  have hread : m.read offset 4 = List.replicate 4 0 := by
    apply List.ext_getElem (by simp)
    intro i hi _
    rw [getElem_read, List.getElem_replicate]
    exact h i (by simpa using hi)
  rw [u32, hread, leNat_replicate_zero]
  rfl

end Span

/-- One access to a shared region. -/
inductive Access where
  | load (offset length : Nat)
  | store (offset : Nat) (bytes : Bytes)
  deriving DecidableEq, Repr

/-- The first byte of an access. -/
def Access.offset : Access → Nat
  | .load offset _ => offset
  | .store offset _ => offset

/-- The number of bytes of an access. -/
def Access.length : Access → Nat
  | .load _ length => length
  | .store _ bytes => bytes.length

def Access.isStore : Access → Bool
  | .load _ _ => false
  | .store _ _ => true

/-- The accesses a process may make to a shared region. -/
def spanAccess : Signature where
  Op := Access
  Res
    | .load _ _ => Bytes
    | .store _ _ => Unit

instance (op : spanAccess.Op) : Nonempty (spanAccess.Res op) := by
  cases op with
  | load offset length => exact ⟨([] : Bytes)⟩
  | store offset bytes => exact ⟨()⟩

/-- The region answers a load with its bytes; nothing is left to the environment. -/
def spanExec {ω : Type} : Exec spanAccess ω Span
  | .load offset length, _, m => (m.read offset length, m)
  | .store offset bytes, _, m => ((), m.write offset bytes)

section Methods

variable {ℓ : Type}

def load (offset length : Nat) : Method spanAccess ℓ Bytes :=
  Method.perform (S := spanAccess) (.load offset length)

def store (offset : Nat) (bytes : Bytes) : Method spanAccess ℓ Unit :=
  Method.perform (S := spanAccess) (.store offset bytes)

def loadU8 (offset : Nat) : Method spanAccess ℓ UInt8 :=
  return UInt8.ofNat (leNat (← load offset 1))

def loadU16 (offset : Nat) : Method spanAccess ℓ UInt16 :=
  return UInt16.ofNat (leNat (← load offset 2))

def loadU32 (offset : Nat) : Method spanAccess ℓ UInt32 :=
  return UInt32.ofNat (leNat (← load offset 4))

def loadU64 (offset : Nat) : Method spanAccess ℓ UInt64 :=
  return UInt64.ofNat (leNat (← load offset 8))

def storeU16 (offset : Nat) (v : UInt16) : Method spanAccess ℓ Unit :=
  store offset (leBytes 2 v.toNat)

def storeU32 (offset : Nat) (v : UInt32) : Method spanAccess ℓ Unit :=
  store offset (leBytes 4 v.toNat)

def storeU64 (offset : Nat) (v : UInt64) : Method spanAccess ℓ Unit :=
  store offset (leBytes 8 v.toNat)

end Methods

end EventEngine.Memory
