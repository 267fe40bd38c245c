import Mathlib.Data.List.Basic
import Mathlib.Tactic.Ring

/-!
# Little-endian words as byte lists

`leBytes n v` is the `n`-byte little-endian representation of `v`, reduced modulo
`256 ^ n`; `leNat` reads a byte list back. The two are inverse at a fixed length, so a
word and its bytes determine each other.
-/

namespace EventEngine.Memory

abbrev Bytes := List UInt8

/-- The low `n` bytes of `v`, least significant first. -/
def leBytes : Nat → Nat → Bytes
  | 0, _ => []
  | n + 1, v => UInt8.ofNat v :: leBytes n (v / 256)

/-- The number a byte list represents, least significant byte first. -/
def leNat : Bytes → Nat
  | [] => 0
  | b :: rest => b.toNat + 256 * leNat rest

@[simp] theorem length_leBytes (n v : Nat) : (leBytes n v).length = n := by
  induction n generalizing v with
  | zero => rfl
  | succ n ih => simp [leBytes, ih]

theorem leNat_lt (bs : Bytes) : leNat bs < 256 ^ bs.length := by
  induction bs with
  | nil => simp [leNat]
  | cons b rest ih =>
      have hb := b.toNat_lt
      simp only [leNat, List.length_cons, pow_succ]
      omega

theorem leNat_leBytes (n v : Nat) : leNat (leBytes n v) = v % 256 ^ n := by
  induction n generalizing v with
  | zero => simp [leBytes, leNat, Nat.mod_one]
  | succ n ih =>
      simp only [leBytes, leNat, ih, UInt8.toNat_ofNat']
      rw [Nat.pow_succ 256 n, Nat.mul_comm (256 ^ n) 256, Nat.mod_mul]

theorem leBytes_leNat (bs : Bytes) : leBytes bs.length (leNat bs) = bs := by
  induction bs with
  | nil => rfl
  | cons b rest ih =>
      have hb := b.toNat_lt
      have hdiv : (b.toNat + 256 * leNat rest) / 256 = leNat rest := by omega
      have hbyte : UInt8.ofNat (b.toNat + 256 * leNat rest) = b := by
        apply UInt8.toNat_inj.mp
        rw [UInt8.toNat_ofNat']
        omega
      simp only [leBytes, leNat, List.length_cons, hdiv, hbyte, ih]

theorem leNat_leBytes_of_lt {n v : Nat} (h : v < 256 ^ n) : leNat (leBytes n v) = v := by
  rw [leNat_leBytes, Nat.mod_eq_of_lt h]

/-- Two byte lists of one length that represent the same number are equal. -/
theorem eq_of_leNat_eq {bs cs : Bytes} (hlen : bs.length = cs.length)
    (h : leNat bs = leNat cs) : bs = cs := by
  rw [← leBytes_leNat bs, ← leBytes_leNat cs, hlen, h]

theorem leNat_replicate_zero (n : Nat) : leNat (List.replicate n 0) = 0 := by
  induction n with
  | zero => rfl
  | succ n ih => simp [List.replicate_succ, leNat, ih]

end EventEngine.Memory
