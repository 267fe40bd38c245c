import EventEngine.Ring.Attach
import EventEngine.Ring.Queue
import Mathlib.Order.Bounds.Basic

/-!
# A handle on memory that the peer may overwrite

Nothing is assumed about the memory here: `attach` reads it once and copies the geometry,
and between two calls every byte of it may change. Each call by itself runs on the memory
that it finds.
-/

namespace EventEngine.Ring

open Concurrency Memory

variable {g : Geometry} {l : SpscRing} {m : Span}

/-- The calls that move events. -/
inductive SlotCall where
  | tryPublish (event : Event)
  | tryAcquire
  | release
  deriving DecidableEq, Repr

def SlotCall.call : SlotCall → Call
  | .tryPublish event => .tryPublish event
  | .tryAcquire => .tryAcquire
  | .release => .release

/-- One call: the handle and the memory it found, what it did and what it returned. -/
structure Round where
  handle : SpscRing
  memory : Span
  call : SlotCall
  accesses : List Access
  reply : Reply

/-- A sequence of calls on a handle. Before each call the peer leaves arbitrary bytes. -/
def session (region : Region) : SpscRing → List ((Nat → UInt8) × SlotCall) → List Round
  | _, [] => []
  | handle, (bytes, call) :: rest =>
      let memory : Span := ⟨region, bytes⟩
      let process := call.call.method region handle
      let result := process.run (@spanExec Unit) () memory
      ⟨handle, memory, call, process.trace (@spanExec Unit) () memory, result.1⟩ ::
        session region result.2.1 rest

/-- What a handle keeps on memory that may change between its calls. -/
structure HostileHandle (g : Geometry) (l : SpscRing) : Prop extends HandleGeometry g l where
  position : l.acquired = true → l.acquiredPosition.toNat + 1 < 2 ^ 64

section Rules

variable {α ℓ : Type} {k : ℓ} {control : ℓ → Access → World Span Unit → Prop}
variable {post : α → ℓ → World Span Unit → Prop} {offset : Nat}

theorem hostile_loadU32 {next : UInt32 → Method spanAccess ℓ α}
    (hcontrol : control k (.load offset 4) ⟨m, ()⟩)
    (h : (next (m.u32 offset) k).Safe (@spanExec Unit) (sequential Span) control post ⟨m, ()⟩) :
    ((loadU32 offset >>= next) k).Safe (@spanExec Unit) (sequential Span) control post ⟨m, ()⟩ :=
  Process.Safe.sequential_step hcontrol fun _ => h

theorem hostile_loadU64 {next : UInt64 → Method spanAccess ℓ α}
    (hcontrol : control k (.load offset 8) ⟨m, ()⟩)
    (h : (next (m.u64 offset) k).Safe (@spanExec Unit) (sequential Span) control post ⟨m, ()⟩) :
    ((loadU64 offset >>= next) k).Safe (@spanExec Unit) (sequential Span) control post ⟨m, ()⟩ :=
  Process.Safe.sequential_step hcontrol fun _ => h

theorem hostile_loadU16 {next : UInt16 → Method spanAccess ℓ α}
    (hcontrol : control k (.load offset 2) ⟨m, ()⟩)
    (h : (next (m.u16 offset) k).Safe (@spanExec Unit) (sequential Span) control post ⟨m, ()⟩) :
    ((loadU16 offset >>= next) k).Safe (@spanExec Unit) (sequential Span) control post ⟨m, ()⟩ :=
  Process.Safe.sequential_step hcontrol fun _ => h

theorem hostile_load {length : Nat} {next : Bytes → Method spanAccess ℓ α}
    (hcontrol : control k (.load offset length) ⟨m, ()⟩)
    (h : (next (m.read offset length) k).Safe (@spanExec Unit) (sequential Span) control post
      ⟨m, ()⟩) :
    ((load offset length >>= next) k).Safe (@spanExec Unit) (sequential Span) control post
      ⟨m, ()⟩ :=
  Process.Safe.sequential_step hcontrol fun _ => h

theorem hostile_ite {c : Prop} [Decidable c] {p q : Method spanAccess ℓ α}
    (hp : (p k).Safe (@spanExec Unit) (sequential Span) control post ⟨m, ()⟩)
    (hq : (q k).Safe (@spanExec Unit) (sequential Span) control post ⟨m, ()⟩) :
    ((if c then p else q) k).Safe (@spanExec Unit) (sequential Span) control post ⟨m, ()⟩ := by
  split
  · exact hp
  · exact hq

theorem hostile_store {bs : Bytes} {next : Unit → Method spanAccess ℓ α}
    (hcontrol : control k (.store offset bs) ⟨m, ()⟩)
    (h : (next () k).Safe (@spanExec Unit) (sequential Span) control post
      ⟨m.write offset bs, ()⟩) :
    ((store offset bs >>= next) k).Safe (@spanExec Unit) (sequential Span) control post ⟨m, ()⟩ :=
  Process.Safe.sequential_step hcontrol fun _ => h

end Rules

/-- The accesses of a publication at position `p`: inside the region, and stores only to the
cursor or into the slot of `p`. -/
def PublishAccess (g : Geometry) (p : Nat) (_ : SpscRing) (a : Access) (_ : World Span Unit) :
    Prop :=
  a.offset + a.length ≤ g.size ∧ (a.isStore = true →
    (a.offset = producerOffset ∧ a.length = 8) ∨
      (g.slotAt p ≤ a.offset ∧ a.offset + a.length ≤ g.slotAt p + 32 + g.capacity))

/-- Stores into the slot are allowed. -/
theorem publishAccess_slot {p offset : Nat} {bs : Bytes} {y : World Span Unit}
    (hlo : g.slotAt p ≤ offset) (hhi : offset + bs.length ≤ g.slotAt p + 32 + g.capacity) :
    PublishAccess g p l (.store offset bs) y := by
  have hstride := g.metadata_add_capacity_le_stride
  have hslot := (g.slotAt_add_stride_le p).2
  constructor
  · change offset + bs.length ≤ g.size
    omega
  · intro _
    exact .inr ⟨hlo, hhi⟩

theorem copyPayload_hostile {p : Nat} (bs : Bytes) (offset : Nat) (m : Span)
    (hlo : g.slotAt p ≤ offset) (hhi : offset + bs.length ≤ g.slotAt p + 32 + g.capacity) :
    (copyPayload offset bs l).Safe (@spanExec Unit) (sequential Span) (PublishAccess g p)
      (fun _ l' _ => l' = l) ⟨m, ()⟩ := by
  induction bs generalizing offset m with
  | nil => rfl
  | cons b rest ih =>
      rw [List.length_cons] at hhi
      apply hostile_store
      · apply publishAccess_slot hlo
        rw [List.length_singleton]
        omega
      · apply ih
        · omega
        · omega

/-- From the free slot to the end, `try_publish` stays inside its slot. -/
theorem publishAt_hostile {k : SpscRing} {pos : UInt64} {event : Event}
    (hk : HandleGeometry g k) (hl : HostileHandle g l)
    (hfits : event.payload.length ≤ g.capacity) (m : Span) :
    (k.publishAt 0 pos event l).Safe (@spanExec Unit) (sequential Span)
      (PublishAccess g pos.toNat) (fun _ l' _ => HostileHandle g l') ⟨m, ()⟩ := by
  have hsize := g.size_eq.1
  rw [SpscRing.publishAt, hk.slotAddress]
  have hheader : ∀ m, (fillSlotHeader (g.slotAt pos.toNat) event l).Safe (@spanExec Unit)
      (sequential Span) (PublishAccess g pos.toNat) (fun _ l' _ => l' = l) ⟨m, ()⟩ := by
    intro m
    apply hostile_store (publishAccess_slot (by simp) (by simp [eventSequenceOffset]; omega))
    apply hostile_store (publishAccess_slot (by simp) (by simp [sourceTimestampOffset]; omega))
    apply hostile_store (publishAccess_slot (by simp) (by simp [streamIdOffset]; omega))
    refine Process.Safe.sequential_step
      (publishAccess_slot (by simp) (by simp [payloadLengthOffset]; omega)) fun _ => rfl
  refine (hheader m).bind ?_
  rintro _ _ ⟨m1, -⟩ rfl
  refine (copyPayload_hostile event.payload _ m1 (Nat.le_add_right _ _) (by
    rw [ringSlotMetadataBytes]
    omega)).bind ?_
  rintro _ _ ⟨m2, -⟩ rfl
  apply hostile_store
  · constructor
    · change 0 + producerOffset + (leBytes 8 _).length ≤ g.size
      rw [length_leBytes, producerOffset]
      omega
    · intro _
      exact .inl ⟨Nat.zero_add _, length_leBytes 8 _⟩
  · exact hl

theorem publishAccess_load {p offset length : Nat} {y : World Span Unit}
    (h : offset + length ≤ 192) : PublishAccess g p l (.load offset length) y := by
  have hsize := g.size_eq.1
  constructor
  · change offset + length ≤ g.size
    omega
  · intro hstore
    exact Bool.noConfusion hstore

/-- `try_publish` on whatever memory it finds. -/
theorem tryPublish_hostile (hl : HostileHandle g l) (event : Event) (m : Span) :
    (SpscRing.tryPublish event l).Safe (@spanExec Unit) (sequential Span)
      (PublishAccess g (writePos m)) (fun _ l' _ => HostileHandle g l') ⟨m, ()⟩ := by
  have hcapacity : l.slotPayloadCapacity.toNat = g.capacity := by
    rw [hl.slotPayloadCapacity]
    rfl
  rw [SpscRing.tryPublish, Method.bind_apply, Method.self_apply, Process.bind_done, hl.header]
  apply hostile_loadU32 (publishAccess_load (by decide))
  by_cases hstate : m.u32 (0 + stateOffset) = stateReady
  · rw [if_neg (not_not.mpr hstate), hcapacity]
    by_cases hfits : event.payload.length > g.capacity
    · rw [if_pos hfits]
      exact hl
    · rw [if_neg hfits]
      apply hostile_loadU64 (publishAccess_load (by decide))
      have hpos : writePos m = (m.u64 (0 + producerOffset)).toNat := rfl
      rw [hpos]
      generalize m.u64 (0 + producerOffset) = pos
      by_cases hmax : pos = maxPosition
      · rw [if_pos hmax]
        exact hl
      · rw [if_neg hmax]
        by_cases hcache : pos - l.cachedReadPosition ≥ l.slotCount.toUInt64
        · rw [if_pos hcache]
          apply hostile_loadU64 (publishAccess_load (by decide))
          generalize m.u64 (0 + consumerOffset) = r
          have hcached : HostileHandle g { l with cachedReadPosition := r } :=
            { hl with position := hl.position }
          simp only [Method.bind_apply, Method.assign_apply, Process.bind_done]
          by_cases hbad : r > pos ∨ pos - r > l.slotCount.toUInt64
          · rw [if_pos hbad]
            exact hcached
          · rw [if_neg hbad]
            by_cases hfull : pos - r = l.slotCount.toUInt64
            · rw [if_pos hfull]
              exact hcached
            · rw [if_neg hfull]
              exact publishAt_hostile hl.toHandleGeometry hcached (Nat.le_of_not_gt hfits) m
        · rw [if_neg hcache]
          exact publishAt_hostile hl.toHandleGeometry hl (Nat.le_of_not_gt hfits) m
  · rw [if_pos hstate]
    exact hl

/-- An acquisition only loads, inside the region. -/
def AcquireAccess (g : Geometry) (_ : SpscRing) (a : Access) (_ : World Span Unit) : Prop :=
  a.offset + a.length ≤ g.size ∧ a.isStore = false

/-- What a call to `try_acquire` leaves: a view lies in the payload area of one slot. -/
def AcquireResult (g : Geometry) (r : Except AcquireError (EventView ByteRange))
    (l : SpscRing) (_ : World Span Unit) : Prop :=
  HostileHandle g l ∧ ∀ view, r = .ok view → ∃ p, view.payload.offset = g.slotAt p + 32 ∧
    view.payload.length ≤ g.capacity

theorem acquireAccess_header {offset length : Nat} {y : World Span Unit}
    (h : offset + length ≤ 192) : AcquireAccess g l (.load offset length) y := by
  have hsize := g.size_eq.1
  refine ⟨?_, rfl⟩
  change offset + length ≤ g.size
  omega

theorem acquireAccess_slot {p offset length : Nat} {y : World Span Unit}
    (h : offset + length ≤ 32) : AcquireAccess g l (.load (g.slotAt p + offset) length) y := by
  have hstride := g.metadata_add_capacity_le_stride
  have hslot := (g.slotAt_add_stride_le p).2
  refine ⟨?_, rfl⟩
  change g.slotAt p + offset + length ≤ g.size
  omega

/-- A slot that passes the check has a payload that fits. -/
theorem invalidSlot_hostile {p : Nat} :
    (invalidSlot (g.slotAt p) g.config.slotPayloadCapacity l).Safe (@spanExec Unit)
      (sequential Span) (AcquireAccess g) (fun bad l' y => l' = l ∧ y = ⟨m, ()⟩ ∧
        (bad = false → (m.u32 (g.slotAt p + payloadLengthOffset)).toNat ≤ g.capacity))
      ⟨m, ()⟩ := by
  apply hostile_loadU32 (acquireAccess_slot (by decide))
  by_cases hlength : m.u32 (g.slotAt p + payloadLengthOffset) > g.config.slotPayloadCapacity
  · rw [if_pos hlength]
    exact ⟨rfl, rfl, fun h => Bool.noConfusion h⟩
  · rw [if_neg hlength]
    have hle : (m.u32 (g.slotAt p + payloadLengthOffset)).toNat ≤ g.capacity :=
      UInt32.le_iff_toNat_le.mp (UInt32.not_lt.mp hlength)
    apply hostile_loadU32 (acquireAccess_slot (by decide))
    by_cases hfirst : m.u32 (g.slotAt p + slotReservedOffset) = 0
    · rw [if_neg (not_not.mpr hfirst)]
      apply hostile_loadU32
      · rw [Nat.add_assoc]
        exact acquireAccess_slot (by decide)
      · exact ⟨rfl, rfl, fun _ => hle⟩
    · rw [if_pos hfirst]
      exact ⟨rfl, rfl, fun _ => hle⟩

theorem acquireAt_hostile {k : SpscRing} {r w : UInt64} (hk : HandleGeometry g k)
    (hl : HostileHandle g l) (hle : r < w) (m : Span) :
    (k.acquireAt r w l).Safe (@spanExec Unit) (sequential Span) (AcquireAccess g)
      (AcquireResult g) ⟨m, ()⟩ := by
  rw [SpscRing.acquireAt]
  by_cases hbad : r > w ∨ w - r > k.slotCount.toUInt64
  · rw [if_pos hbad]
    exact ⟨hl, fun view h => by cases h⟩
  · rw [if_neg hbad, hk.slotAddress, hk.slotPayloadCapacity]
    refine invalidSlot_hostile.bind ?_
    rintro bad l1 y ⟨hl1, hy, hvalid⟩
    rw [hl1, hy]
    cases bad with
    | true => exact ⟨hl, fun view h => by cases h⟩
    | false =>
        have hsucc : r.toNat + 1 < 2 ^ 64 := by
          have hlt := UInt64.lt_iff_toNat_lt.mp hle
          have hw := w.toNat_lt
          omega
        have hheld : HostileHandle g { l with acquiredPosition := r, acquired := true } :=
          { hl with position := fun _ => hsucc }
        apply hostile_loadU32 (acquireAccess_slot (by decide))
        apply hostile_loadU64 (acquireAccess_slot (by decide))
        apply hostile_loadU64 (acquireAccess_slot (by decide))
        apply hostile_loadU32 (acquireAccess_slot (by decide))
        refine ⟨hheld, fun view h => ?_⟩
        obtain rfl := Except.ok.inj h
        exact ⟨r.toNat, rfl, hvalid rfl⟩

/-- `try_acquire` on whatever memory it finds. -/
theorem tryAcquire_hostile (hl : HostileHandle g l) (m : Span) :
    (SpscRing.tryAcquire l).Safe (@spanExec Unit) (sequential Span) (AcquireAccess g)
      (AcquireResult g) ⟨m, ()⟩ := by
  rw [SpscRing.tryAcquire, Method.bind_apply, Method.self_apply, Process.bind_done, hl.header]
  by_cases hheld : l.acquired = true
  · simp only [hheld, if_true]
    exact ⟨hl, fun view h => by cases h⟩
  · simp only [hheld]
    apply hostile_loadU64 (acquireAccess_header (by decide))
    generalize m.u64 (0 + consumerOffset) = r
    by_cases hcache : r ≥ l.cachedWritePosition
    · rw [if_pos hcache]
      apply hostile_loadU32 (acquireAccess_header (by decide))
      apply hostile_loadU64 (acquireAccess_header (by decide))
      generalize m.u64 (0 + producerOffset) = w
      have hcached : HostileHandle g { l with cachedWritePosition := w } :=
        { hl with position := hl.position }
      simp only [Method.bind_apply, Method.assign_apply, Process.bind_done]
      by_cases hempty : r = w
      · rw [if_pos hempty]
        exact ⟨hcached, fun view h => by cases h⟩
      · rw [if_neg hempty]
        by_cases hgt : r < w
        · exact acquireAt_hostile hl.toHandleGeometry hcached hgt m
        · have hbad : r > w ∨ w - r > l.slotCount.toUInt64 := by
            refine .inl (UInt64.lt_of_le_of_ne (UInt64.not_lt.mp hgt) fun h => hempty h.symm)
          rw [SpscRing.acquireAt, if_pos hbad]
          exact ⟨hcached, fun view h => by cases h⟩
    · rw [if_neg hcache]
      exact acquireAt_hostile hl.toHandleGeometry hl (UInt64.not_le.mp hcache) m

/-- `release` on whatever memory it finds: the stored cursor is the exact successor. -/
theorem release_hostile (hl : HostileHandle g l) (m : Span) :
    (SpscRing.release l).Safe (@spanExec Unit) (sequential Span)
      (fun _ a _ => a.offset + a.length ≤ g.size ∧ l.acquiredPosition.toNat + 1 < 2 ^ 64 ∧
        a = .store consumerOffset (leBytes 8 (l.acquiredPosition.toNat + 1)))
      (fun _ l' _ => HostileHandle g l') ⟨m, ()⟩ := by
  rw [SpscRing.release, Method.bind_apply, Method.self_apply, Process.bind_done]
  by_cases hheld : l.acquired = true
  · rw [if_pos hheld, hl.header]
    have hlt := hl.position hheld
    have hsucc : (l.acquiredPosition + 1).toNat = l.acquiredPosition.toNat + 1 := by
      rw [UInt64.toNat_add, UInt64.toNat_one, Nat.mod_eq_of_lt hlt]
    refine Process.Safe.sequential_step ⟨?_, hlt, ?_⟩ fun _ => ?_
    · have hsize := g.size_eq.1
      change 0 + consumerOffset + (leBytes 8 _).length ≤ g.size
      rw [length_leBytes, consumerOffset]
      omega
    · rw [hsucc]
      rfl
    · exact { hl with position := fun held => Bool.noConfusion held }
  · rw [if_neg hheld]
    exact hl

section Attach

variable {ℓ : Type} {k : ℓ}

/-- Any access is allowed; attaching is not the subject here. -/
def AnyAccess (_ : ℓ) (_ : Access) (_ : World Span Unit) : Prop := True

theorem invalidLayout_hostile (m : Span) :
    ((invalidLayout : Method spanAccess ℓ Bool) k).Safe (@spanExec Unit) (sequential Span)
      AnyAccess (fun _ l' y => l' = k ∧ y = ⟨m, ()⟩) ⟨m, ()⟩ := by
  apply hostile_load trivial
  generalize m.read magicOffset 4 = magic
  refine hostile_ite ⟨rfl, rfl⟩ ?_
  apply hostile_loadU16 trivial
  generalize m.u16 layoutVersionOffset = version
  refine hostile_ite ⟨rfl, rfl⟩ ?_
  apply hostile_loadU16 trivial
  generalize m.u16 headerBytesOffset = headerBytes
  refine hostile_ite ⟨rfl, rfl⟩ ?_
  apply hostile_loadU64 trivial
  generalize m.u64 instanceIdOffset = instanceId
  refine hostile_ite ⟨rfl, rfl⟩ ?_
  apply hostile_loadU32 trivial
  exact ⟨rfl, rfl⟩

theorem allZero_hostile (offset n : Nat) (m : Span) :
    ((allZero offset n : Method spanAccess ℓ Bool) k).Safe (@spanExec Unit) (sequential Span)
      AnyAccess (fun _ l' y => l' = k ∧ y = ⟨m, ()⟩) ⟨m, ()⟩ := by
  induction n generalizing offset with
  | zero => exact ⟨rfl, rfl⟩
  | succ n ih =>
      apply hostile_load trivial
      exact hostile_ite ⟨rfl, rfl⟩ (ih (offset + 1))

theorem reservedBytesZero_hostile (m : Span) :
    ((SpscRing.reservedBytesZero : Method spanAccess ℓ Bool) k).Safe (@spanExec Unit)
      (sequential Span) AnyAccess (fun _ l' y => l' = k ∧ y = ⟨m, ()⟩) ⟨m, ()⟩ := by
  refine (allZero_hostile _ _ m).bind ?_
  rintro b k1 y1 ⟨hk1, hy1⟩
  rw [hk1, hy1]
  refine hostile_ite ?_ ⟨rfl, rfl⟩
  refine (allZero_hostile _ _ m).bind ?_
  rintro b k2 y2 ⟨hk2, hy2⟩
  rw [hk2, hy2]
  exact hostile_ite (allZero_hostile _ _ m) ⟨rfl, rfl⟩

/-- The constructor copies whatever the header holds. -/
theorem ofHeader_hostile (m : Span) :
    ((SpscRing.ofHeader false : Method spanAccess ℓ SpscRing) k).Safe (@spanExec Unit)
      (sequential Span) AnyAccess (fun handle _ _ => handle =
        { header := some 0, slots := ringHeaderBytes
          slotCount := m.u32 slotCountOffset, slotStride := m.u32 slotStrideOffset
          slotPayloadCapacity := m.u32 slotPayloadCapacityOffset
          cachedReadPosition := 0, cachedWritePosition := 0
          acquiredPosition := 0, acquired := false, initializer := false }) ⟨m, ()⟩ := by
  apply hostile_loadU32 trivial
  apply hostile_loadU32 trivial
  apply hostile_loadU32 trivial
  rfl

/-- A successful `attach` has validated the geometry that its handle holds. -/
def Attached (m : Span) (r : Except RingError SpscRing) : Prop :=
  ∀ l, r = .ok l → ∃ g : Geometry, HostileHandle g l ∧ g.size = m.size

theorem attachGeometry_hostile (m : Span) :
    ((SpscRing.attachGeometry m.toRegion : Method spanAccess ℓ (Except RingError SpscRing)) k).Safe
      (@spanExec Unit) (sequential Span) AnyAccess (fun r _ _ => Attached m r) ⟨m, ()⟩ := by
  have hrefused : ∀ e, Attached m (.error e) := fun e l h => by cases h
  obtain ⟨slotCount, hcount⟩ : ∃ v, m.u32 slotCountOffset = v := ⟨_, rfl⟩
  obtain ⟨capacity, hcapacity⟩ : ∃ v, m.u32 slotPayloadCapacityOffset = v := ⟨_, rfl⟩
  obtain ⟨slotStride, hslotStride⟩ : ∃ v, m.u32 slotStrideOffset = v := ⟨_, rfl⟩
  apply hostile_loadU32 trivial
  apply hostile_loadU32 trivial
  rw [hcount, hcapacity]
  cases hrequired : requiredBytes sizeBits ⟨slotCount, capacity⟩ with
  | error e => exact hrefused _
  | ok size =>
      refine hostile_loadU32 trivial ?_
      rw [hslotStride]
      by_cases hstride : slotStride.toNat = (size - ringHeaderBytes) / slotCount.toNat
      · rw [if_neg (not_not.mpr hstride)]
        refine hostile_loadU64 trivial ?_
        generalize m.u64 segmentBytesOffset = segmentBytes
        by_cases hsegment : segmentBytes.toNat = size
        · rw [if_neg (not_not.mpr hsegment)]
          by_cases hsize : m.size = size
          · rw [if_neg (not_not.mpr hsize)]
            refine (ofHeader_hostile m).bind ?_
            rintro handle l1 y1 hhandle l h
            rw [← Except.ok.inj h, hhandle, hcount, hcapacity, hslotStride]
            obtain ⟨g, hconfig, hgsize⟩ : ∃ g : Geometry,
                g.config = ⟨slotCount, capacity⟩ ∧ g.size = size := ⟨⟨_, _, hrequired⟩, rfl, rfl⟩
            have hslots : g.slots = slotCount.toNat := by rw [Geometry.slots, hconfig]
            refine ⟨g, ?_, hgsize.trans hsize.symm⟩
            exact
              { header := rfl
                slots := rfl
                slotCount := by rw [hconfig]
                slotStride := by rw [hstride, ← g.stride_eq_div, hslots, hgsize]
                slotPayloadCapacity := by rw [hconfig]
                position := fun held => Bool.noConfusion held }
          · rw [if_pos hsize]
            exact hrefused _
        · rw [if_pos hsegment]
          exact hrefused _
      · rw [if_pos hstride]
        exact hrefused _

theorem attach_hostile (m : Span) :
    ((SpscRing.attach m.toRegion : Method spanAccess ℓ (Except RingError SpscRing)) k).Safe
      (@spanExec Unit) (sequential Span) AnyAccess (fun r _ _ => Attached m r) ⟨m, ()⟩ := by
  have hrefused : ∀ e, Attached m (.error e) := fun e l h => by cases h
  rw [SpscRing.attach]
  by_cases hmemory : invalidMemory m.toRegion = true
  · rw [if_pos hmemory]
    exact hrefused _
  · rw [if_neg hmemory]
    apply hostile_loadU32 trivial
    cases hstate : validateState (m.u32 stateOffset) with
    | error e => exact hrefused e
    | ok _ =>
        refine (invalidLayout_hostile m).bind ?_
        rintro bad _ _ ⟨rfl, rfl⟩
        cases bad with
        | true => exact hrefused _
        | false =>
            refine (reservedBytesZero_hostile m).bind ?_
            rintro zero _ _ ⟨rfl, rfl⟩
            cases zero with
            | true => exact attachGeometry_hostile m
            | false => exact hrefused _

end Attach

/-- What one call did on memory of a ring with geometry `g`. -/
structure Round.Safe (g : Geometry) (round : Round) : Prop where
  inside : ∀ a ∈ round.accesses, a.offset + a.length ≤ round.memory.size
  publish : ∀ event, round.call = .tryPublish event → ∃ i < g.slots,
    ∀ a ∈ round.accesses, a.isStore = true →
      (a.offset = producerOffset ∧ a.length = 8) ∨
        (192 + g.stride * i ≤ a.offset ∧ a.offset + a.length ≤ 192 + g.stride * i + 32 + g.capacity)
  acquire : round.call = .tryAcquire → (∀ a ∈ round.accesses, a.isStore = false) ∧
    ∀ view, round.reply = .acquire (.ok view) → ∃ i < g.slots,
      view.payload.offset = 192 + g.stride * i + 32 ∧ view.payload.length ≤ g.capacity ∧
        view.payload.offset + view.payload.length ≤ round.memory.size
  release : round.call = .release → ∀ a ∈ round.accesses,
    a = .store consumerOffset (leBytes 8 (round.handle.acquiredPosition.toNat + 1)) ∧
      round.handle.acquiredPosition.toNat + 1 < 2 ^ 64

/-- One call on arbitrary memory is safe and keeps the handle usable. -/
theorem hostile_round {region : Region} (hl : HostileHandle g l) (hsize : region.size = g.size)
    (call : SlotCall) (bytes : Nat → UInt8) :
    Round.Safe g ⟨l, ⟨region, bytes⟩, call,
      (call.call.method region l).trace (@spanExec Unit) () ⟨region, bytes⟩,
      ((call.call.method region l).run (@spanExec Unit) () ⟨region, bytes⟩).1⟩ ∧
    HostileHandle g ((call.call.method region l).run (@spanExec Unit) () ⟨region, bytes⟩).2.1 := by
  cases call with
  | tryPublish event =>
      have hsafe : ((SlotCall.tryPublish event).call.method region l).Safe (@spanExec Unit)
          (sequential Span) (PublishAccess g (writePos ⟨region, bytes⟩))
          (fun _ l' _ => HostileHandle g l') ⟨⟨region, bytes⟩, ()⟩ :=
        (tryPublish_hostile hl event ⟨region, bytes⟩).bind fun _ _ _ h => h
      obtain ⟨htrace, hpost⟩ := hsafe.of_run ()
      refine ⟨?_, hpost⟩
      exact
        { inside := fun a ha => by
            obtain ⟨-, -, hin, -⟩ := htrace a ha
            exact hsize ▸ hin
          publish := fun _ _ => by
            refine ⟨writePos ⟨region, bytes⟩ % g.slots, Nat.mod_lt _ g.slots_pos, ?_⟩
            intro a ha hstore
            obtain ⟨-, -, -, hwhere⟩ := htrace a ha
            exact hwhere hstore
          acquire := fun h => by cases h
          release := fun h => by cases h }
  | tryAcquire =>
      have hsafe : (SlotCall.tryAcquire.call.method region l).Safe (@spanExec Unit)
          (sequential Span) (AcquireAccess g) (fun r l' y => ∃ res, r = .acquire res ∧
            AcquireResult g res l' y) ⟨⟨region, bytes⟩, ()⟩ :=
        (tryAcquire_hostile hl ⟨region, bytes⟩).bind fun res _ _ h => ⟨res, rfl, h⟩
      obtain ⟨htrace, res, hres, hhandle, hview⟩ := hsafe.of_run ()
      refine ⟨?_, hhandle⟩
      exact
        { inside := fun a ha => by
            obtain ⟨-, -, hin, -⟩ := htrace a ha
            exact hsize ▸ hin
          publish := fun _ h => by cases h
          acquire := fun _ => by
            constructor
            · intro a ha
              obtain ⟨-, -, -, hload⟩ := htrace a ha
              exact hload
            · intro view hreply
              have hok : res = .ok view := Reply.acquire.inj (hres.symm.trans hreply)
              obtain ⟨p, hoffset, hlength⟩ := hview view hok
              have hstride := g.metadata_add_capacity_le_stride
              have hslot := (g.slotAt_add_stride_le p).2
              refine ⟨p % g.slots, Nat.mod_lt _ g.slots_pos, hoffset, hlength, ?_⟩
              change _ ≤ region.size
              omega
          release := fun h => by cases h }
  | release =>
      have hsafe : (SlotCall.release.call.method region l).Safe (@spanExec Unit)
          (sequential Span) (fun _ a _ => a.offset + a.length ≤ g.size ∧
            l.acquiredPosition.toNat + 1 < 2 ^ 64 ∧
            a = .store consumerOffset (leBytes 8 (l.acquiredPosition.toNat + 1)))
          (fun _ l' _ => HostileHandle g l') ⟨⟨region, bytes⟩, ()⟩ :=
        (release_hostile hl ⟨region, bytes⟩).bind fun _ _ _ h => h
      obtain ⟨htrace, hpost⟩ := hsafe.of_run ()
      refine ⟨?_, hpost⟩
      exact
        { inside := fun a ha => by
            obtain ⟨-, -, hin, -⟩ := htrace a ha
            exact hsize ▸ hin
          publish := fun _ h => by cases h
          acquire := fun h => by cases h
          release := fun _ a ha => by
            obtain ⟨-, -, -, hlt, hstore⟩ := htrace a ha
            exact ⟨hstore, hlt⟩ }

theorem hostile_session {region : Region} (hsize : region.size = g.size) :
    ∀ (rounds : List ((Nat → UInt8) × SlotCall)) {l : SpscRing}, HostileHandle g l →
      ∀ round ∈ session region l rounds, Round.Safe g round := by
  intro rounds
  induction rounds with
  | nil =>
      intro l _ round hround
      cases hround
  | cons first rest ih =>
      intro l hl round hround
      obtain ⟨bytes, call⟩ := first
      obtain ⟨hsafe, hnext⟩ := hostile_round hl hsize call bytes
      obtain rfl | hlater := List.mem_cons.mp hround
      · exact hsafe
      · exact ih hnext round hlater

/-- A handle that `attach` returned, on any memory at all, has a geometry that fits the
memory exactly; and whatever the peer does to the memory between the calls, no call leaves
the memory, and each stays where it belongs. -/
theorem attach_makes_safe {m : Span} {l : SpscRing} {m' : Span}
    (hattach : ((SpscRing.attach m.toRegion :
      Method spanAccess Unit (Except RingError SpscRing)) ()).run (@spanExec Unit) () m =
        (.ok l, (), m')) :
    ∃ g : Geometry, l.slotCount.toNat = g.slots ∧ l.slotStride.toNat = g.stride ∧
      l.slotPayloadCapacity.toNat = g.capacity ∧
      (∃ k, 1 ≤ k ∧ l.slotCount.toNat = 2 ^ k) ∧
      IsLeast {n | 64 ∣ n ∧ 32 + l.slotPayloadCapacity.toNat ≤ n} l.slotStride.toNat ∧
      192 + l.slotCount.toNat * l.slotStride.toNat = m.size ∧
      ∀ rounds, ∀ round ∈ session m.toRegion l rounds, Round.Safe g round := by
  obtain ⟨-, hattached⟩ := (attach_hostile (k := ()) m).of_run ()
  rw [hattach] at hattached
  obtain ⟨g, hl, hsize⟩ := hattached l rfl
  have hcount : l.slotCount.toNat = g.slots := by rw [hl.slotCount]; rfl
  have hcapacity : l.slotPayloadCapacity.toNat = g.capacity := by
    rw [hl.slotPayloadCapacity]
    rfl
  refine ⟨g, hcount, hl.slotStride, hcapacity, ?_, ?_, ?_, ?_⟩
  · rw [hcount]
    exact g.slots_pow
  · rw [hl.slotStride, hcapacity, g.stride_eq]
    constructor
    · exact ⟨Dvd.intro_left _ rfl, by omega⟩
    · rintro n ⟨⟨q, rfl⟩, hle⟩
      omega
  · rw [hcount, hl.slotStride, ← hsize, g.size_eq.1, Nat.mul_comm]
  · intro rounds
    exact hostile_session hsize.symm rounds hl

def sampleAttach : Except RingError SpscRing × Unit × Span :=
  ((SpscRing.attach sampleMemory.toRegion :
    Method spanAccess Unit (Except RingError SpscRing)) ()).run (@spanExec Unit) () sampleMemory

theorem attach_makes_safe_sample :
    ∃ g : Geometry, ∀ rounds, ∀ round ∈
      session sampleMemory.toRegion (sampleGeometry.handle false) rounds, Round.Safe g round := by
  have hok : sampleAttach.1 = .ok (sampleGeometry.handle false) := by decide +kernel
  obtain ⟨⟨r, ⟨⟩, m'⟩, hattach⟩ : ∃ result, sampleAttach = result := ⟨_, rfl⟩
  rw [hattach] at hok
  change r = _ at hok
  rw [hok] at hattach
  obtain ⟨g, -, -, -, -, -, -, hsafe⟩ := attach_makes_safe hattach
  exact ⟨g, hsafe⟩

end EventEngine.Ring
