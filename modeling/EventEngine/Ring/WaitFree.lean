import EventEngine.Concurrency.Budget
import EventEngine.Ring.Handle

/-!
# The calls on a ring are wait-free

No call on a ring waits for the other side: a consumer's call takes at most ten accesses, and a
producer's at most eight besides the bytes of the payload, whatever the memory answers.
-/

namespace EventEngine.Ring

open Concurrency Memory

variable {α : Type} {ring : SpscRing} {k : Nat}

theorem loadU32_takes {offset : Nat} {next : UInt32 → Method spanAccess SpscRing α}
    (hnext : ∀ v, (next v ring).Takes k) : ((loadU32 offset >>= next) ring).Takes (k + 1) :=
  fun _ => hnext _

theorem loadU64_takes {offset : Nat} {next : UInt64 → Method spanAccess SpscRing α}
    (hnext : ∀ v, (next v ring).Takes k) : ((loadU64 offset >>= next) ring).Takes (k + 1) :=
  fun _ => hnext _

theorem copyPayload_takes (offset : Nat) (payload : Bytes) :
    (copyPayload offset payload ring).Takes payload.length := by
  induction payload generalizing offset with
  | nil => trivial
  | cons b rest ih => exact fun _ => ih (offset + 1)

theorem publishAt_takes (self : SpscRing) (header : Nat) (writePos : UInt64) (event : Event) :
    (self.publishAt header writePos event ring).Takes (event.payload.length + 5) := by
  have hfill : (fillSlotHeader (self.slotAddress writePos) event ring).Takes 4 :=
    fun _ _ _ _ => trivial
  have hrest : ∀ (_ : Unit) (ring : SpscRing), ((do
      copyPayload (self.slotAddress writePos + ringSlotMetadataBytes) event.payload
      storeU64 (header + producerOffset) (writePos + 1)
      return .ok : Method spanAccess SpscRing PublishResult) ring).Takes
        (event.payload.length + 1) := by
    intro _ ring
    exact (copyPayload_takes _ event.payload).bind fun _ _ _ => trivial
  rw [Nat.add_comm event.payload.length, Nat.add_assoc 4 1, Nat.add_comm 1]
  exact hfill.bind hrest

theorem tryPublish_takes (event : Event) :
    (SpscRing.tryPublish event ring).Takes (event.payload.length + 8) := by
  have hpublish : ∀ (self : SpscRing) (header : Nat) (writePos : UInt64) (ring : SpscRing)
      (k : Nat), 5 ≤ k →
      (self.publishAt header writePos event ring).Takes (event.payload.length + k) :=
    fun self header writePos ring k hk =>
      (publishAt_takes self header writePos event).mono (Nat.add_le_add_left hk _)
  rw [SpscRing.tryPublish, Method.bind_apply, Method.self_apply, Process.bind_done]
  cases ring.header with
  | none => trivial
  | some header =>
      apply loadU32_takes
      intro state
      split
      · trivial
      split
      · trivial
      apply loadU64_takes
      intro writePos
      split
      · trivial
      split
      · apply loadU64_takes
        intro readPos
        rw [Method.bind_apply, Method.assign_apply, Process.bind_done]
        split
        · trivial
        split
        · trivial
        · exact hpublish _ _ _ _ 5 (Nat.le_refl 5)
      · exact hpublish _ _ _ _ 6 (Nat.le_succ 5)

theorem invalidSlot_takes (slot : Nat) (capacity : UInt32) :
    (invalidSlot slot capacity ring).Takes 3 := by
  apply loadU32_takes
  intro length
  split
  · trivial
  apply loadU32_takes
  intro reserved
  split
  · trivial
  · exact fun _ => trivial

theorem acquireAt_takes (self : SpscRing) (readPos writePos : UInt64) :
    (self.acquireAt readPos writePos ring).Takes 7 := by
  rw [SpscRing.acquireAt]
  split
  · trivial
  · change Process.Takes _ (3 + 4)
    apply (invalidSlot_takes _ _).bind
    intro invalid ring'
    dsimp only
    split
    · trivial
    · exact fun _ _ _ _ => trivial

theorem tryAcquire_takes : (SpscRing.tryAcquire ring).Takes 10 := by
  rw [SpscRing.tryAcquire, Method.bind_apply, Method.self_apply, Process.bind_done]
  cases ring.header with
  | none => trivial
  | some header =>
      dsimp only
      split
      · trivial
      apply loadU64_takes
      intro readPos
      split
      · apply loadU32_takes
        intro state
        apply loadU64_takes
        intro writePos
        rw [Method.bind_apply, Method.assign_apply, Process.bind_done]
        split
        · trivial
        · exact acquireAt_takes _ _ _
      · exact (acquireAt_takes _ _ _).mono (by decide)

theorem release_takes : (SpscRing.release ring).Takes 1 := by
  rw [SpscRing.release, Method.bind_apply, Method.self_apply, Process.bind_done]
  split
  · exact fun _ => trivial
  · trivial

theorem closePublication_takes : (SpscRing.closePublication ring).Takes 1 := by
  rw [SpscRing.closePublication, Method.bind_apply, Method.self_apply, Process.bind_done]
  split
  · exact fun _ => trivial
  · trivial

end EventEngine.Ring
