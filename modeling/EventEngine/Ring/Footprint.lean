import EventEngine.Ring.Setup

/-!
# What a call can store, whatever it reads

These facts hold of every path of a method, so they need no assumption about the memory
or about the other sides.
-/

namespace EventEngine.Ring

open Concurrency Memory

variable {ℓ : Type}

/-- No path of the process stores. -/
abbrev LoadsOnly {α : Type} (p : Process spanAccess ℓ α) : Prop :=
  p.ChangesOnlyFor (S := spanAccess) Access.isStore fun _ => False

section Loads

variable {α : Type} {good : α → Prop} {l : ℓ} {offset : Nat}

theorem changesOnlyFor_loadU32 {next : UInt32 → Method spanAccess ℓ α}
    (h : ∀ v, (next v l).ChangesOnlyFor (S := spanAccess) Access.isStore good) :
    ((loadU32 offset >>= next) l).ChangesOnlyFor (S := spanAccess) Access.isStore good :=
  Process.changesOnlyFor_step rfl fun _ => h _

theorem changesOnlyFor_loadU64 {next : UInt64 → Method spanAccess ℓ α}
    (h : ∀ v, (next v l).ChangesOnlyFor (S := spanAccess) Access.isStore good) :
    ((loadU64 offset >>= next) l).ChangesOnlyFor (S := spanAccess) Access.isStore good :=
  Process.changesOnlyFor_step rfl fun _ => h _

end Loads

theorem SpscRing.publishAt_results (self : SpscRing) (header : Nat) (pos : UInt64)
    (event : Event) (l : SpscRing) :
    (self.publishAt header pos event l).Results fun r => r = .ok := by
  refine Process.Results.bind _ fun _ l1 => ?_
  refine Process.Results.bind _ fun _ l2 => ?_
  exact Process.Results.bind _ fun _ l3 => rfl

/-- A `try_publish` that stores returns `Ok`. -/
theorem SpscRing.tryPublish_changesOnlyFor (event : Event) (l : SpscRing) :
    (SpscRing.tryPublish event l).ChangesOnlyFor (S := spanAccess) Access.isStore
      fun r => r = .ok := by
  rw [SpscRing.tryPublish, Method.bind_apply, Method.self_apply, Process.bind_done]
  cases l.header with
  | none => trivial
  | some header =>
      refine changesOnlyFor_loadU32 fun state => ?_
      split
      · trivial
      · split
        · trivial
        · refine changesOnlyFor_loadU64 fun writePos => ?_
          split
          · trivial
          · split
            · refine changesOnlyFor_loadU64 fun readPos => ?_
              rw [Method.bind_apply, Method.assign_apply, Process.bind_done]
              split
              · trivial
              · split
                · trivial
                · exact (SpscRing.publishAt_results l header writePos event _).changesOnlyFor
            · exact (SpscRing.publishAt_results l header writePos event _).changesOnlyFor

theorem invalidSlot_loadsOnly (slot : Nat) (capacity : UInt32) (l : SpscRing) :
    LoadsOnly (invalidSlot slot capacity l) := by
  refine changesOnlyFor_loadU32 fun payloadLength => ?_
  split
  · trivial
  · refine changesOnlyFor_loadU32 fun reserved0 => ?_
    split
    · trivial
    · exact changesOnlyFor_loadU32 fun reserved1 => trivial

theorem SpscRing.acquireAt_loadsOnly (self : SpscRing) (r w : UInt64) (l : SpscRing) :
    LoadsOnly (self.acquireAt r w l) := by
  rw [SpscRing.acquireAt]
  split
  · trivial
  · refine Process.ChangesOnlyFor.bind
      (invalidSlot_loadsOnly _ self.slotPayloadCapacity l) fun bad l1 => ?_
    beta_reduce
    split
    · trivial
    · refine changesOnlyFor_loadU32 fun streamId => ?_
      refine changesOnlyFor_loadU64 fun sequence => ?_
      refine changesOnlyFor_loadU64 fun sourceTimestampNs => ?_
      exact changesOnlyFor_loadU32 fun payloadLength => trivial

/-- `try_acquire` never stores. -/
theorem SpscRing.tryAcquire_loadsOnly (l : SpscRing) : LoadsOnly (SpscRing.tryAcquire l) := by
  rw [SpscRing.tryAcquire, Method.bind_apply, Method.self_apply, Process.bind_done]
  cases l.header with
  | none => trivial
  | some header =>
      split
      · trivial
      · refine changesOnlyFor_loadU64 fun readPos => ?_
        split
        · refine changesOnlyFor_loadU32 fun state => ?_
          refine changesOnlyFor_loadU64 fun writePos => ?_
          rw [Method.bind_apply, Method.assign_apply, Process.bind_done]
          split
          · trivial
          · exact SpscRing.acquireAt_loadsOnly ..
        · exact SpscRing.acquireAt_loadsOnly ..

/-- A `release` that stores returns true. -/
theorem SpscRing.release_changesOnlyFor (l : SpscRing) :
    (SpscRing.release l).ChangesOnlyFor (S := spanAccess) Access.isStore
      fun r => r = true := by
  rw [SpscRing.release, Method.bind_apply, Method.self_apply, Process.bind_done]
  split
  · exact fun _ => rfl
  · trivial

/-- A `close_publication` that stores returns true. -/
theorem SpscRing.closePublication_changesOnlyFor (l : SpscRing) :
    (SpscRing.closePublication l).ChangesOnlyFor (S := spanAccess) Access.isStore
      fun r => r = true := by
  rw [SpscRing.closePublication, Method.bind_apply, Method.self_apply, Process.bind_done]
  split
  · exact fun _ => rfl
  · trivial

end EventEngine.Ring
