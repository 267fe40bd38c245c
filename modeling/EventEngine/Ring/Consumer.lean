import EventEngine.Concurrency.Within
import EventEngine.Ring.Attach

/-!
# What a consumer does to its ring

Whatever the memory answers: `attach`, `try_acquire` and `release` keep a handle on the ring,
and of the bytes of the ring they store to the consumer cursor only.
-/

namespace EventEngine.Ring

open Concurrency Memory

variable {ℓ α : Type}

/-- What a consumer may do to its ring. -/
def ConsumerAccess (access : Access) : Prop :=
  access.isStore = true → access.offset = consumerOffset ∧ access.length = 8

section Ring

variable {ring : SpscRing} {good : α → Prop} {keeps : ℓ → Prop} {l : ℓ}

/-- Whatever the memory answers, the process accesses it as a consumer. -/
abbrev Consumes (keeps : ℓ → Prop) (good : α → Prop) (p : Process spanAccess ℓ α) : Prop :=
  Process.Throughout (S := spanAccess) keeps ConsumerAccess good p

theorem consumes_load {offset length : Nat} {next : Bytes → Method spanAccess ℓ α}
    (hl : keeps l) (hnext : ∀ bs, Consumes keeps good (next bs l)) :
    Consumes keeps good ((load offset length >>= next) l) :=
  ⟨⟨hl, fun hstore => (Bool.noConfusion hstore)⟩, fun bs _ _ => hnext bs⟩

theorem consumes_loadU8 {offset : Nat} {next : UInt8 → Method spanAccess ℓ α}
    (hl : keeps l) (hnext : ∀ v, Consumes keeps good (next v l)) :
    Consumes keeps good ((loadU8 offset >>= next) l) := consumes_load hl fun _ => hnext _

theorem consumes_loadU16 {offset : Nat} {next : UInt16 → Method spanAccess ℓ α}
    (hl : keeps l) (hnext : ∀ v, Consumes keeps good (next v l)) :
    Consumes keeps good ((loadU16 offset >>= next) l) := consumes_load hl fun _ => hnext _

theorem consumes_loadU32 {offset : Nat} {next : UInt32 → Method spanAccess ℓ α}
    (hl : keeps l) (hnext : ∀ v, Consumes keeps good (next v l)) :
    Consumes keeps good ((loadU32 offset >>= next) l) := consumes_load hl fun _ => hnext _

theorem consumes_loadU64 {offset : Nat} {next : UInt64 → Method spanAccess ℓ α}
    (hl : keeps l) (hnext : ∀ v, Consumes keeps good (next v l)) :
    Consumes keeps good ((loadU64 offset >>= next) l) := consumes_load hl fun _ => hnext _

/-- The handle has a header, at the start of the mapping. -/
def Joined (ring : SpscRing) : Prop := ring.header = some 0

theorem invalidSlot_consumes {slot : Nat} {capacity : UInt32} (hring : Joined ring) :
    Consumes Joined (fun _ => True) (invalidSlot slot capacity ring) := by
  apply consumes_loadU32 hring
  intro length
  split
  · exact ⟨hring, trivial⟩
  · apply consumes_loadU32 hring
    intro reserved
    split
    · exact ⟨hring, trivial⟩
    · apply consumes_loadU32 hring
      intro reserved
      exact ⟨hring, trivial⟩

theorem acquireAt_consumes {self : SpscRing} {readPos writePos : UInt64} (hring : Joined ring) :
    Consumes Joined (fun _ => True) (self.acquireAt readPos writePos ring) := by
  rw [SpscRing.acquireAt]
  split
  · exact ⟨hring, trivial⟩
  · apply (invalidSlot_consumes hring).bind
    intro invalid ring' hring' _
    dsimp only
    split
    · exact ⟨hring', trivial⟩
    · have hassigned : Joined { ring' with acquiredPosition := readPos, acquired := true } :=
        hring'
      rw [Method.bind_apply, Method.assign_apply, Process.bind_done]
      apply consumes_loadU32 hassigned
      intro streamId
      apply consumes_loadU64 hassigned
      intro sequence
      apply consumes_loadU64 hassigned
      intro timestamp
      apply consumes_loadU32 hassigned
      intro length
      exact ⟨hassigned, trivial⟩

theorem tryAcquire_consumes (hring : Joined ring) :
    Consumes Joined (fun _ => True) (SpscRing.tryAcquire ring) := by
  rw [SpscRing.tryAcquire, Method.bind_apply, Method.self_apply, Process.bind_done]
  simp only [show ring.header = some 0 from hring]
  split
  · exact ⟨hring, trivial⟩
  apply consumes_loadU64 hring
  intro readPos
  split
  · apply consumes_loadU32 hring
    intro state
    apply consumes_loadU64 hring
    intro writePos
    rw [Method.bind_apply, Method.assign_apply, Process.bind_done]
    have hassigned : Joined { ring with cachedWritePosition := writePos } := hring
    split
    · exact ⟨hassigned, trivial⟩
    · exact acquireAt_consumes hassigned
  · exact acquireAt_consumes hring

/-- The one store of a consumer. -/
theorem release_consumes (hring : Joined ring) :
    Consumes Joined (fun _ => True) (SpscRing.release ring) := by
  rw [SpscRing.release, Method.bind_apply, Method.self_apply, Process.bind_done]
  split
  · refine ⟨⟨hring, fun _ => ⟨?_, length_leBytes _ _⟩⟩, fun _ _ _ => ⟨hring, trivial⟩⟩
    change ring.header.getD 0 + consumerOffset = consumerOffset
    rw [hring, Option.getD_some, Nat.zero_add]
  · exact ⟨hring, trivial⟩

end Ring

section Attaching

variable {l : ℓ}

/-- Nothing is said of the caller's state. -/
abbrev Looks (good : α → Prop) (p : Process spanAccess ℓ α) : Prop :=
  Consumes (fun _ => True) good p

theorem allZero_looks (offset n : Nat) : Looks (fun _ => True) (allZero offset n l) := by
  induction n generalizing offset with
  | zero => exact ⟨trivial, trivial⟩
  | succ n ih =>
      apply consumes_loadU8 trivial
      intro b
      split
      · exact ⟨trivial, trivial⟩
      · exact ih (offset + 1)

theorem reservedBytesZero_looks : Looks (fun _ => True) (SpscRing.reservedBytesZero l) := by
  apply (allZero_looks _ _).bind
  intro zero l' _ _
  dsimp only
  split
  · apply (allZero_looks _ _).bind
    intro zero' l'' _ _
    dsimp only
    split
    · exact allZero_looks _ _
    · exact ⟨trivial, trivial⟩
  · exact ⟨trivial, trivial⟩

theorem invalidLayout_looks : Looks (fun _ => True) (invalidLayout l) := by
  apply consumes_load trivial
  intro magic
  split
  · exact ⟨trivial, trivial⟩
  apply consumes_loadU16 trivial
  intro version
  split
  · exact ⟨trivial, trivial⟩
  apply consumes_loadU16 trivial
  intro headerBytes
  split
  · exact ⟨trivial, trivial⟩
  apply consumes_loadU64 trivial
  intro instanceId
  split
  · exact ⟨trivial, trivial⟩
  apply consumes_loadU32 trivial
  intro reserved
  exact ⟨trivial, trivial⟩

/-- A ring that `attach` returns has a header. -/
def AttachResult (result : Except RingError SpscRing) : Prop :=
  ∀ ring, result = .ok ring → Joined ring

theorem attachResult_error (e : RingError) : AttachResult (.error e) := fun _ h => by cases h

theorem ofHeader_looks (initializer : Bool) :
    Looks Joined (SpscRing.ofHeader initializer l) := by
  apply consumes_loadU32 trivial
  intro slotCount
  apply consumes_loadU32 trivial
  intro stride
  apply consumes_loadU32 trivial
  intro capacity
  exact ⟨trivial, rfl⟩

theorem attachGeometry_looks (memory : Region) :
    Looks AttachResult (SpscRing.attachGeometry memory l) := by
  apply consumes_loadU32 trivial
  intro slotCount
  apply consumes_loadU32 trivial
  intro capacity
  cases requiredBytes sizeBits ⟨slotCount, capacity⟩ with
  | error e => exact ⟨trivial, attachResult_error _⟩
  | ok size =>
      apply consumes_loadU32 trivial
      intro stride
      split
      · exact ⟨trivial, attachResult_error _⟩
      apply consumes_loadU64 trivial
      intro bytes
      split
      · exact ⟨trivial, attachResult_error _⟩
      split
      · exact ⟨trivial, attachResult_error _⟩
      apply (ofHeader_looks false).bind
      rintro ring l' - hring
      refine ⟨trivial, ?_⟩
      rintro ring' heq
      cases heq
      exact hring

theorem attach_looks (memory : Region) : Looks AttachResult (SpscRing.attach memory l) := by
  rw [SpscRing.attach]
  split
  · exact ⟨trivial, attachResult_error _⟩
  apply consumes_loadU32 trivial
  intro state
  cases validateState state with
  | error e => exact ⟨trivial, attachResult_error _⟩
  | ok v =>
      apply invalidLayout_looks.bind
      intro invalid l' _ _
      dsimp only
      split
      · exact ⟨trivial, attachResult_error _⟩
      apply reservedBytesZero_looks.bind
      intro zero l'' _ _
      dsimp only
      split
      · exact attachGeometry_looks memory
      · exact ⟨trivial, attachResult_error _⟩

end Attaching

end EventEngine.Ring
