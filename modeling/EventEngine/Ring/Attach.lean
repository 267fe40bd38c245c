import EventEngine.Ring.Protocol

/-!
# Specification of `attach` and `close_publication`

Attaching only loads, and what it loads is fixed by the invariant, so it tolerates every
other side. On a formatted ring it always succeeds and returns a handle with the geometry
of the ring and empty caches.
-/

namespace EventEngine.Ring

open Concurrency Memory

variable {c : Setting} {ℓ : Type} {l : ℓ} {x : World Span History}

/-- A handle as the private constructor makes it for a ring with geometry `g`. -/
def Geometry.handle (g : Geometry) (initializer : Bool) : SpscRing where
  header := some 0
  slots := ringHeaderBytes
  slotCount := g.config.slotCount
  slotStride := UInt32.ofNat g.stride
  slotPayloadCapacity := g.config.slotPayloadCapacity
  cachedReadPosition := 0
  cachedWritePosition := 0
  acquiredPosition := 0
  acquired := false
  initializer := initializer

theorem Geometry.handleGeometry (g : Geometry) (initializer : Bool) :
    HandleGeometry g (g.handle initializer) where
  header := rfl
  slots := rfl
  slotCount := rfl
  slotStride := by
    change (UInt32.ofNat g.stride).toNat = g.stride
    rw [UInt32.toNat_ofNat', Nat.mod_eq_of_lt g.stride_lt]
  slotPayloadCapacity := rfl

theorem Geometry.producerHandle (g : Geometry) (initializer : Bool) (m : Span) :
    ProducerHandle g (g.handle initializer) m :=
  { g.handleGeometry initializer with cached := Nat.zero_le _ }

theorem Geometry.consumerHandle (g : Geometry) (initializer : Bool) (m : Span) :
    ConsumerHandle g (g.handle initializer) m :=
  { g.handleGeometry initializer with
    cached := Nat.zero_le _
    held := fun held => by simp [Geometry.handle] at held }

/-- The protocol of a side that only looks: it tolerates everything and changes nothing. -/
def observerProtocol (c : Setting) : Protocol Span History where
  inv x := RingInv c x.shared x.ghost.events ∧ x.shared ∈ x.ghost.seen
  rely x y := x.ghost.seen ⊆ y.ghost.seen
  guar x y := (y.shared = x.shared ∧ y.ghost.events = x.ghost.events) ∧
    y.ghost.seen ⊆ insert y.shared x.ghost.seen
  rely_trans h h' := h.trans h'

/-- The protocol of the creator while it closes the ring. -/
def creatorProtocol (c : Setting) : Protocol Span History where
  inv x := RingInv c x.shared x.ghost.events ∧ x.shared ∈ x.ghost.seen
  rely x y := x.ghost.seen ⊆ y.ghost.seen
  guar x y := CreatorGuar x.shared x.ghost.events y.shared y.ghost.events ∧
    y.ghost.seen ⊆ insert y.shared x.ghost.seen
  rely_trans h h' := h.trans h'

/-- A load is pending, and the caller's own state is still `l`. -/
def OnlyLoads (l : ℓ) (k : ℓ) (op : Access) (_ : World Span History) : Prop :=
  k = l ∧ op.isStore = false

section Loads

variable {α : Type} {post : α → ℓ → World Span History → Prop}

theorem observer_load {offset length : Nat} {next : Bytes → Process spanAccess ℓ α}
    (hnext : ∀ y : World Span History, RingInv c y.shared y.ghost.events →
      (next (y.shared.read offset length)).Safe (@spanExec Unit) (observerProtocol c)
        (OnlyLoads l) post y) :
    (Process.step (S := spanAccess) l (.load offset length) next).Safe (@spanExec Unit)
      (observerProtocol c) (OnlyLoads l) post x :=
  safe_load (fun _ _ => ⟨⟨rfl, rfl⟩, Set.subset_insert _ _⟩)
    fun y hinv _ => ⟨⟨rfl, rfl⟩, hnext y hinv.1⟩

theorem observer_loadU32 {offset : Nat} {next : UInt32 → Method spanAccess ℓ α}
    (hnext : ∀ y : World Span History, RingInv c y.shared y.ghost.events →
      (next (y.shared.u32 offset) l).Safe (@spanExec Unit) (observerProtocol c)
        (OnlyLoads l) post y) :
    ((loadU32 offset >>= next) l).Safe (@spanExec Unit) (observerProtocol c) (OnlyLoads l) post x :=
  observer_load hnext

theorem observer_loadU64 {offset : Nat} {next : UInt64 → Method spanAccess ℓ α}
    (hnext : ∀ y : World Span History, RingInv c y.shared y.ghost.events →
      (next (y.shared.u64 offset) l).Safe (@spanExec Unit) (observerProtocol c)
        (OnlyLoads l) post y) :
    ((loadU64 offset >>= next) l).Safe (@spanExec Unit) (observerProtocol c) (OnlyLoads l) post x :=
  observer_load hnext

theorem observer_loadU16 {offset : Nat} {next : UInt16 → Method spanAccess ℓ α}
    (hnext : ∀ y : World Span History, RingInv c y.shared y.ghost.events →
      (next (y.shared.u16 offset) l).Safe (@spanExec Unit) (observerProtocol c)
        (OnlyLoads l) post y) :
    ((loadU16 offset >>= next) l).Safe (@spanExec Unit) (observerProtocol c) (OnlyLoads l) post x :=
  observer_load hnext

end Loads

/-- The preamble check passes. -/
theorem invalidLayout_safe :
    ((invalidLayout : Method spanAccess ℓ Bool) l).Safe (@spanExec Unit) (observerProtocol c)
      (OnlyLoads l) (fun bad l' _ => bad = false ∧ l' = l) x := by
  refine observer_load fun y1 h1 => ?_
  change Process.Safe _ _ _ _ ((if y1.shared.read magicOffset 4 ≠ ringMagic then _ else _ :
    Method spanAccess ℓ Bool) l) _
  rw [h1.formatted.magic, if_neg (not_not.mpr rfl)]
  refine observer_loadU16 fun y2 h2 => ?_
  rw [h2.formatted.version, if_neg (not_not.mpr rfl)]
  refine observer_loadU16 fun y3 h3 => ?_
  rw [if_neg (not_not.mpr h3.formatted.headerBytes)]
  refine observer_loadU64 fun y4 h4 => ?_
  rw [if_neg h4.formatted.instanceId]
  refine observer_loadU32 fun y5 h5 => ?_
  rw [h5.formatted.reserved]
  exact ⟨rfl, rfl⟩

/-- Reserved bytes are zero, by induction on how many are left to look at. -/
theorem allZero_safe {offset n : Nat}
    (hzero : ∀ (y : World Span History), RingInv c y.shared y.ghost.events →
      ∀ i < n, y.shared.u8 (offset + i) = 0) :
    ((allZero offset n : Method spanAccess ℓ Bool) l).Safe (@spanExec Unit)
      (observerProtocol c) (OnlyLoads l) (fun ok l' _ => ok = true ∧ l' = l) x := by
  induction n generalizing offset x with
  | zero => exact ⟨rfl, rfl⟩
  | succ n ih =>
      refine observer_load fun y h => ?_
      have hbyte : y.shared.u8 offset = 0 := hzero y h 0 (Nat.succ_pos n)
      have hload : UInt8.ofNat (leNat (y.shared.read offset 1)) = 0 := by
        rw [Span.read_one, hbyte]
        rfl
      change Process.Safe _ _ _ _
        ((if UInt8.ofNat (leNat (y.shared.read offset 1)) ≠ 0 then _ else _ :
          Method spanAccess ℓ Bool) l) _
      rw [if_neg (not_not.mpr hload)]
      refine ih fun z hz i hi => ?_
      rw [Nat.add_assoc, Nat.add_comm 1 i]
      exact hzero z hz (i + 1) (Nat.succ_lt_succ hi)

theorem reservedBytesZero_safe :
    ((SpscRing.reservedBytesZero : Method spanAccess ℓ Bool) l).Safe (@spanExec Unit)
      (observerProtocol c) (OnlyLoads l) (fun ok l' _ => ok = true ∧ l' = l) x := by
  refine (allZero_safe fun y h => h.formatted.preambleReserved).bind ?_
  rintro _ _ x1 ⟨rfl, rfl⟩
  beta_reduce
  rw [if_pos rfl]
  refine (allZero_safe fun y h => h.formatted.producerReserved).bind ?_
  rintro _ _ x2 ⟨rfl, rfl⟩
  beta_reduce
  rw [if_pos rfl]
  exact allZero_safe fun y h => h.formatted.consumerReserved

/-- The private constructor copies the geometry. -/
theorem ofHeader_safe {initializer : Bool} :
    ((SpscRing.ofHeader initializer : Method spanAccess ℓ SpscRing) l).Safe (@spanExec Unit)
      (observerProtocol c) (OnlyLoads l)
      (fun r l' _ => r = c.geometry.handle initializer ∧ l' = l) x := by
  refine observer_loadU32 fun y1 h1 => ?_
  rw [h1.formatted.slotCount]
  refine observer_loadU32 fun y2 h2 => ?_
  have hstride : y2.shared.u32 slotStrideOffset = UInt32.ofNat c.geometry.stride := by
    rw [← h2.formatted.slotStride, UInt32.ofNat_toNat]
  rw [hstride]
  refine observer_loadU32 fun y3 h3 => ?_
  rw [h3.formatted.slotPayloadCapacity]
  exact ⟨rfl, rfl⟩

theorem Geometry.stride_eq_div (g : Geometry) :
    (g.size - ringHeaderBytes) / g.slots = g.stride := by
  rw [g.size_eq.1, ringHeaderBytes, Nat.add_sub_cancel_left,
    Nat.mul_div_cancel _ g.slots_pos]

theorem attachGeometry_safe {memory : Region} (hsize : memory.size = c.geometry.size) :
    ((SpscRing.attachGeometry memory : Method spanAccess ℓ (Except RingError SpscRing)) l).Safe
      (@spanExec Unit) (observerProtocol c) (OnlyLoads l)
      (fun r l' _ => r = .ok (c.geometry.handle false) ∧ l' = l) x := by
  refine observer_loadU32 fun y1 h1 => ?_
  rw [h1.formatted.slotCount]
  refine observer_loadU32 fun y2 h2 => ?_
  rw [h2.formatted.slotPayloadCapacity]
  have hrequired : requiredBytes sizeBits
      ⟨c.geometry.config.slotCount, c.geometry.config.slotPayloadCapacity⟩ =
        .ok c.geometry.size := c.geometry.required
  simp only [hrequired]
  refine observer_loadU32 fun y3 h3 => ?_
  have hstride : (y3.shared.u32 slotStrideOffset).toNat =
      (c.geometry.size - ringHeaderBytes) / c.geometry.config.slotCount.toNat :=
    h3.formatted.slotStride.trans c.geometry.stride_eq_div.symm
  rw [if_neg (not_not.mpr hstride)]
  refine observer_loadU64 fun y4 h4 => ?_
  rw [if_neg (not_not.mpr h4.formatted.segmentBytes), if_neg (not_not.mpr hsize)]
  refine ofHeader_safe.bind ?_
  rintro _ _ y5 ⟨rfl, rfl⟩
  exact ⟨rfl, rfl⟩

/-- `attach` succeeds on every ring with the invariant. -/
theorem attach_safe {memory : Region} (hmemory : invalidMemory memory = false)
    (hsize : memory.size = c.geometry.size) :
    ((SpscRing.attach memory : Method spanAccess ℓ (Except RingError SpscRing)) l).Safe
      (@spanExec Unit) (observerProtocol c) (OnlyLoads l)
      (fun r l' _ => r = .ok (c.geometry.handle false) ∧ l' = l) x := by
  rw [SpscRing.attach, hmemory]
  refine observer_loadU32 fun y1 h1 => ?_
  have hstate : validateState (y1.shared.u32 stateOffset) = .ok () := by
    obtain hready | hclosed := h1.state
    · rw [show y1.shared.u32 stateOffset = stateReady from hready]
      rfl
    · rw [show y1.shared.u32 stateOffset = stateClosed from hclosed]
      rfl
  simp only [hstate]
  refine invalidLayout_safe.bind ?_
  rintro _ _ y2 ⟨rfl, rfl⟩
  beta_reduce
  rw [if_neg Bool.false_ne_true]
  refine reservedBytesZero_safe.bind ?_
  rintro _ _ y3 ⟨rfl, rfl⟩
  beta_reduce
  rw [if_pos rfl]
  exact attachGeometry_safe hsize

/-- `close_publication` by the creator's handle. -/
theorem closePublication_safe {l : SpscRing} (geometry : HandleGeometry c.geometry l) :
    (SpscRing.closePublication l).Safe (@spanExec Unit) (creatorProtocol c)
      (fun k _ _ => k = l)
      (fun r l' y => r = l.initializer ∧ l' = l ∧ (r = true → stateOf y.shared = stateClosed))
      x := by
  rw [SpscRing.closePublication, Method.bind_apply, Method.self_apply, Process.bind_done]
  by_cases hinit : l.initializer = true
  · rw [if_pos hinit, geometry.header]
    intro y hinv hrely
    obtain ⟨hinv', hguar⟩ := close_store hinv.1
    refine ⟨rfl, fun _ => ?_⟩
    exact ⟨⟨y.ghost.events, insert _ y.ghost.seen⟩, ⟨hinv', Set.mem_insert _ _⟩,
      ⟨hguar, le_refl _⟩, hinit.symm, rfl, fun _ => hguar.state⟩
  · rw [if_neg hinit]
    exact ⟨(Bool.eq_false_iff.mpr hinit).symm, rfl, fun h => Bool.noConfusion h⟩

end EventEngine.Ring
