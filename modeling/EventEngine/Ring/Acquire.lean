import EventEngine.Ring.Protocol

/-!
# Specification of `try_acquire` and `release`

The consumer relies on the slots between the cursors: they stay as they are until it
stores its own cursor. Its answer `Empty` is justified at the load of the state, which
comes before the load of the write cursor; every other answer is justified at the end of
the call.
-/

namespace EventEngine.Ring

open Concurrency Memory

variable {c : Setting} {l : SpscRing} {x y : World Span History}

/-- The consumer between two of its accesses. -/
structure ConsumerAt (c : Setting) (l : SpscRing) (y : World Span History) : Prop where
  inv : RingInv c y.shared y.ghost.events
  seen : y.shared ∈ y.ghost.seen
  handle : ConsumerHandle c.geometry l y.shared

/-- The consumer stores only the successor of the position it holds. -/
def ConsumerControl (c : Setting) (l : SpscRing) (op : Access) (y : World Span History) :
    Prop :=
  ConsumerAt c l y ∧ (op.isStore = true → l.acquired = true ∧
    op = .store consumerOffset (leBytes 8 (l.acquiredPosition + 1).toNat))

theorem ConsumerAt.rely (h : ConsumerAt c l x) (hinv : (consumerProtocol c).inv y)
    (hrely : (consumerProtocol c).rely x y) : ConsumerAt c l y :=
  ⟨hinv.1, hinv.2, h.handle.stable hrely.1⟩

section Accesses

variable {α : Type} {post : α → SpscRing → World Span History → Prop}

/-- The consumer loads: the world it continues in is one the others may have reached. -/
theorem consumer_load (h : ConsumerAt c l x) {offset length : Nat}
    {next : Bytes → Process spanAccess SpscRing α}
    (hnext : ∀ y, ConsumerAt c l y →
      ConsumerRely c x.shared x.ghost.events y.shared y.ghost.events →
      x.ghost.seen ⊆ y.ghost.seen →
      (next (y.shared.read offset length)).Safe (@spanExec Unit)
        (consumerProtocol c) (ConsumerControl c) post y) :
    (Process.step (S := spanAccess) l (.load offset length) next).Safe (@spanExec Unit)
      (consumerProtocol c) (ConsumerControl c) post x := by
  apply safe_load (consumerProtocol_guar_refl c)
  intro y hinv hrely
  have hat := h.rely hinv hrely
  exact ⟨⟨hat, fun hstore => by simp [Access.isStore] at hstore⟩,
    hnext y hat hrely.1 hrely.2⟩

theorem consumer_loadU32 (h : ConsumerAt c l x) {offset : Nat}
    {next : UInt32 → Method spanAccess SpscRing α}
    (hnext : ∀ y, ConsumerAt c l y →
      ConsumerRely c x.shared x.ghost.events y.shared y.ghost.events →
      x.ghost.seen ⊆ y.ghost.seen →
      (next (y.shared.u32 offset) l).Safe (@spanExec Unit)
        (consumerProtocol c) (ConsumerControl c) post y) :
    ((loadU32 offset >>= next) l).Safe (@spanExec Unit)
      (consumerProtocol c) (ConsumerControl c) post x :=
  consumer_load h hnext

theorem consumer_loadU64 (h : ConsumerAt c l x) {offset : Nat}
    {next : UInt64 → Method spanAccess SpscRing α}
    (hnext : ∀ y, ConsumerAt c l y →
      ConsumerRely c x.shared x.ghost.events y.shared y.ghost.events →
      x.ghost.seen ⊆ y.ghost.seen →
      (next (y.shared.u64 offset) l).Safe (@spanExec Unit)
        (consumerProtocol c) (ConsumerControl c) post y) :
    ((loadU64 offset >>= next) l).Safe (@spanExec Unit)
      (consumerProtocol c) (ConsumerControl c) post x :=
  consumer_load h hnext

end Accesses

section Slot

/-- The consumer looks at the oldest queued slot, which is as it was in the memory `m`. -/
structure Inspecting (c : Setting) (l : SpscRing) (m : Span) (p : Nat)
    (y : World Span History) : Prop extends ConsumerAt c l y where
  read : readPos y.shared = p
  lt : p < writePos y.shared
  same : Span.Agree (c.geometry.slotAt p) (c.geometry.slotAt p + c.geometry.stride) m y.shared

variable {m : Span} {p : Nat} {α : Type}
variable {post : α → SpscRing → World Span History → Prop}

theorem Inspecting.rely (h : Inspecting c l m p x) (hat : ConsumerAt c l y)
    (hr : ConsumerRely c x.shared x.ghost.events y.shared y.ghost.events) :
    Inspecting c l m p y where
  toConsumerAt := hat
  read := hr.readPos_eq.trans h.read
  lt := Nat.lt_of_lt_of_le h.lt hr.write
  same := h.same.trans (hr.slots p (Nat.le_of_eq h.read) h.lt)

theorem Inspecting.loadU32 (h : Inspecting c l m p x) {offset : Nat}
    {next : UInt32 → Method spanAccess SpscRing α}
    (hlo : c.geometry.slotAt p ≤ offset) (hhi : offset + 4 ≤ c.geometry.slotAt p + 32)
    (hnext : ∀ y, Inspecting c l m p y →
      (next (m.u32 offset) l).Safe (@spanExec Unit) (consumerProtocol c)
        (ConsumerControl c) post y) :
    ((Memory.loadU32 offset >>= next) l).Safe (@spanExec Unit) (consumerProtocol c)
      (ConsumerControl c) post x := by
  have hstride := c.geometry.metadata_add_capacity_le_stride
  refine consumer_loadU32 h.toConsumerAt fun y hat hr _ => ?_
  have hy := h.rely hat hr
  rw [Span.u32_congr hy.same hlo (by omega)]
  exact hnext y hy

theorem Inspecting.loadU64 (h : Inspecting c l m p x) {offset : Nat}
    {next : UInt64 → Method spanAccess SpscRing α}
    (hlo : c.geometry.slotAt p ≤ offset) (hhi : offset + 8 ≤ c.geometry.slotAt p + 32)
    (hnext : ∀ y, Inspecting c l m p y →
      (next (m.u64 offset) l).Safe (@spanExec Unit) (consumerProtocol c)
        (ConsumerControl c) post y) :
    ((Memory.loadU64 offset >>= next) l).Safe (@spanExec Unit) (consumerProtocol c)
      (ConsumerControl c) post x := by
  have hstride := c.geometry.metadata_add_capacity_le_stride
  refine consumer_loadU64 h.toConsumerAt fun y hat hr _ => ?_
  have hy := h.rely hat hr
  rw [Span.u64_congr hy.same hlo (by omega)]
  exact hnext y hy

/-- `invalid_slot` decides whether the slot passes the check. -/
theorem Inspecting.invalidSlot (h : Inspecting c l m p x) :
    (invalidSlot (c.geometry.slotAt p) c.geometry.config.slotPayloadCapacity l).Safe
      (@spanExec Unit) (consumerProtocol c) (ConsumerControl c)
      (fun bad l' y => l' = l ∧ Inspecting c l m p y ∧
        (bad = false ↔ c.geometry.SlotValid m p)) x := by
  refine h.loadU32 (Nat.le_add_right _ _) (by simp [payloadLengthOffset]) fun y1 h1 => ?_
  by_cases hlength : m.u32 (c.geometry.slotAt p + payloadLengthOffset) >
      c.geometry.config.slotPayloadCapacity
  · rw [if_pos hlength]
    refine ⟨rfl, h1, ?_⟩
    have hlt := UInt32.lt_iff_toNat_lt.mp hlength
    simp only [Bool.true_eq_false, false_iff, Geometry.SlotValid, Geometry.capacity, not_and]
    omega
  · rw [if_neg hlength]
    have hle : (m.u32 (c.geometry.slotAt p + payloadLengthOffset)).toNat ≤
        c.geometry.capacity := UInt32.le_iff_toNat_le.mp (UInt32.not_lt.mp hlength)
    refine h1.loadU32 (Nat.le_add_right _ _) (by simp [slotReservedOffset]) fun y2 h2 => ?_
    by_cases hfirst : m.u32 (c.geometry.slotAt p + slotReservedOffset) = 0
    · rw [if_neg (not_not.mpr hfirst)]
      refine h2.loadU32 (by omega) (by simp [slotReservedOffset]) fun y3 h3 => ?_
      refine ⟨rfl, h3, ?_⟩
      simp only [bne_eq_false_iff_eq, Geometry.SlotValid, Geometry.SlotReserved]
      exact ⟨fun hsecond => ⟨hle, hfirst, hsecond⟩, fun hvalid => hvalid.2.2⟩
    · rw [if_pos hfirst]
      refine ⟨rfl, h2, ?_⟩
      simp only [Bool.true_eq_false, false_iff, Geometry.SlotValid, Geometry.SlotReserved]
      exact fun hvalid => hfirst hvalid.2.1

end Slot

/-- What the answer of `try_acquire` says about the memory in which the call returns. -/
def AnswerMeans (c : Setting) (m : Span) (l : SpscRing) :
    Except AcquireError (EventView ByteRange) → Prop
  | .ok view => l.acquired = true ∧ view = c.geometry.slotView m (readPos m) ∧
      view.payload.length ≤ c.geometry.capacity
  | .error .empty => l.acquired = false
  | .error .closed => l.acquired = false ∧ stateOf m = stateClosed ∧ readPos m = writePos m
  | .error .alreadyAcquired => l.acquired = true
  | .error .invalidSlot => l.acquired = false ∧ ¬ c.trusted

/-- What a finished `try_acquire` that held no slot has done. `m` is the memory at the
beginning of the call. -/
structure Acquired (c : Setting) (m : Span) (r : Except AcquireError (EventView ByteRange))
    (l : SpscRing) (y : World Span History) : Prop extends ConsumerAt c l y where
  answer : AnswerMeans c y.shared l r
  free : r ≠ .error .alreadyAcquired
  instant : c.trusted → ∃ m ∈ y.ghost.seen,
    c.geometry.uncachedAcquire m = r.map fun view => view.resolve y.shared
  notEmpty : stateOf m = stateClosed → r ≠ .error .empty
  drained : c.quiet → stateOf m = stateClosed → readPos m = writePos m → r = .error .closed

theorem ConsumerRely.closed {m m' : Span} {hist hist' : List Event}
    (h : ConsumerRely c m hist m' hist') (hclosed : stateOf m = stateClosed) :
    stateOf m' = stateClosed := by
  obtain hsame | hnow := h.state
  · rw [hsame, hclosed]
  · exact hnow

/-- A closed ring that is empty stays empty. -/
theorem ConsumerRely.drained {m m' : Span} {hist hist' : List Event}
    (h : ConsumerRely c m hist m' hist') (hinv : RingInv c m hist) (hinv' : RingInv c m' hist')
    (q : c.quiet) (hclosed : stateOf m = stateClosed) (hempty : readPos m = writePos m) :
    readPos m' = writePos m' := by
  rw [h.readPos_eq, hempty, hinv.write_eq, hinv'.write_eq, h.quiet q hclosed]

/-- From a known oldest slot to the end of the call. -/
theorem Inspecting.acquireAt {k : SpscRing} {start : Span} {r w : UInt64}
    (h : Inspecting c l x.shared r.toNat x) (geometry : HandleGeometry c.geometry k)
    (hfree : l.acquired = false) (hlt : r.toNat < w.toNat) (hle : w.toNat ≤ writePos x.shared)
    (hdrained : c.quiet → stateOf start = stateClosed → readPos start = writePos start → False) :
    (k.acquireAt r w l).Safe (@spanExec Unit) (consumerProtocol c) (ConsumerControl c)
      (Acquired c start) x := by
  have hcount : k.slotCount.toUInt64.toNat = c.geometry.slots := by
    rw [UInt32.toNat_toUInt64, geometry.slotCount]
    rfl
  have hlegal : ¬ (r > w ∨ w - r > k.slotCount.toUInt64) := by
    have hdist : (w - r).toNat = w.toNat - r.toNat :=
      UInt64.toNat_sub_of_le w r (UInt64.le_iff_toNat_le.mpr (Nat.le_of_lt hlt))
    have hfull := h.inv.write_le
    have hread := h.read
    rintro (hgt | hgt)
    · exact absurd (UInt64.lt_iff_toNat_lt.mp hgt) (Nat.not_lt.mpr (Nat.le_of_lt hlt))
    · have := UInt64.lt_iff_toNat_lt.mp hgt
      omega
  rw [SpscRing.acquireAt, if_neg hlegal, geometry.slotAddress, geometry.slotPayloadCapacity]
  refine h.invalidSlot.bind ?_
  rintro bad l1 y1 ⟨hl1, h1, hbad⟩
  rw [hl1]
  cases bad with
  | true =>
      have hinvalid : ¬ c.trusted := by
        intro trusted
        obtain ⟨hvalid, -⟩ := h1.inv.queued trusted r.toNat (Nat.le_of_eq h1.read) h1.lt
        have hsame := (c.geometry.slotValid_congr h1.same).mp hvalid
        exact Bool.noConfusion (hbad.mpr hsame)
      exact
        { toConsumerAt := h1.toConsumerAt
          answer := ⟨hfree, hinvalid⟩
          free := by simp
          instant := fun trusted => absurd trusted hinvalid
          notEmpty := by simp
          drained := fun q hs hd => (hdrained q hs hd).elim }
  | false =>
      have hvalid := hbad.mp rfl
      -- From here on the handle holds the slot.
      have hheld : Inspecting c { l with acquiredPosition := r, acquired := true }
          x.shared r.toNat y1 :=
        { h1 with
          handle := { h1.handle with
            held := fun _ => ⟨h1.read.symm, h1.read ▸ h1.lt⟩ } }
      refine hheld.loadU32 (by omega) (by simp [streamIdOffset]) fun y2 h2 => ?_
      refine h2.loadU64 (by omega) (by simp [eventSequenceOffset]) fun y3 h3 => ?_
      refine h3.loadU64 (by omega) (by simp [sourceTimestampOffset]) fun y4 h4 => ?_
      refine h4.loadU32 (by omega) (by simp [payloadLengthOffset]) fun y5 h5 => ?_
      have hview : c.geometry.slotView x.shared r.toNat =
          c.geometry.slotView y5.shared (readPos y5.shared) := by
        rw [h5.read]
        exact (c.geometry.slotView_congr h5.same).symm
      exact
        { toConsumerAt := h5.toConsumerAt
          answer := ⟨rfl, hview, hvalid.1⟩
          free := by simp
          instant := fun _ => by
            refine ⟨_, h5.seen, ?_⟩
            rw [c.geometry.uncachedAcquire_of_lt (h5.read ▸ h5.lt), Geometry.slotEvent, ← hview]
            rfl
          notEmpty := by simp
          drained := fun q hs hd => (hdrained q hs hd).elim }

/-- `try_acquire` by a handle that holds no slot, under the consumer's protocol. -/
theorem tryAcquire_safe (h : ConsumerAt c l x) (hfree : l.acquired = false) :
    (SpscRing.tryAcquire l).Safe (@spanExec Unit) (consumerProtocol c) (ConsumerControl c)
      (Acquired c x.shared) x := by
  rw [SpscRing.tryAcquire, Method.bind_apply, Method.self_apply, Process.bind_done,
    h.handle.header]
  simp only [hfree, Nat.zero_add]
  refine consumer_loadU64 h fun x1 h1 hr1 hs1 => ?_
  have hread : (x1.shared.u64 consumerOffset).toNat = readPos x1.shared := rfl
  generalize x1.shared.u64 consumerOffset = r at hread ⊢
  by_cases hcache : r ≥ l.cachedWritePosition
  · rw [if_pos hcache]
    refine consumer_loadU32 h1 fun x2 h2 hr2 hs2 => ?_
    refine consumer_loadU64 h2 fun x3 h3 hr3 hs3 => ?_
    have hwrite : (x3.shared.u64 producerOffset).toNat = writePos x3.shared := rfl
    have hstate : x2.shared.u32 stateOffset = stateOf x2.shared := rfl
    generalize x3.shared.u64 producerOffset = w at hwrite ⊢
    rw [hstate]
    have hread3 : r.toNat = readPos x3.shared := by
      rw [hr3.readPos_eq, hr2.readPos_eq, hread]
    have hr := hr1.trans (hr2.trans hr3)
    -- The handle now caches the cursor just read, which is not ahead of the real one.
    have hcached : ConsumerAt c { l with cachedWritePosition := w } x3 :=
      { h3 with handle := { h3.handle with
          cached := Nat.le_of_eq hwrite
          held := fun held => h3.handle.held held } }
    simp only [Method.bind_apply, Method.assign_apply, Process.bind_done]
    by_cases hempty : r = w
    · rw [if_pos hempty]
      have heq : readPos x3.shared = writePos x3.shared := by rw [← hread3, hempty, hwrite]
      by_cases hclosed : stateOf x2.shared = stateClosed
      · rw [if_pos hclosed]
        have hclosed3 := hr3.closed hclosed
        exact
          { toConsumerAt := hcached
            answer := ⟨hfree, hclosed3, heq⟩
            free := by simp
            instant := fun _ => by
              refine ⟨_, h3.seen, ?_⟩
              rw [c.geometry.uncachedAcquire_of_eq heq, if_pos hclosed3]
              rfl
            notEmpty := by simp
            drained := fun _ _ _ => rfl }
      · rw [if_neg hclosed]
        have hopen : stateOf x.shared ≠ stateClosed := fun hstart =>
          hclosed ((hr1.trans hr2).closed hstart)
        have heq2 : readPos x2.shared = writePos x2.shared := by
          have hle := h2.inv.read_le
          have hgrow := hr3.write
          have hsame := hr3.readPos_eq
          omega
        exact
          { toConsumerAt := hcached
            answer := hfree
            free := by simp
            instant := fun _ => by
              refine ⟨_, hs3 h2.seen, ?_⟩
              rw [c.geometry.uncachedAcquire_of_eq heq2, if_neg hclosed]
              rfl
            notEmpty := fun hstart => absurd hstart hopen
            drained := fun _ hstart => absurd hstart hopen }
    · rw [if_neg hempty]
      have hle3 := h3.inv.read_le
      have hne : r.toNat ≠ w.toNat := fun heq => hempty (UInt64.toNat_inj.mp heq)
      have hinspect : Inspecting c { l with cachedWritePosition := w } x3.shared r.toNat x3 :=
        { toConsumerAt := hcached
          read := hread3.symm
          lt := by omega
          same := Span.Agree.refl _ }
      refine hinspect.acquireAt h.handle.toHandleGeometry hfree (by omega)
        (Nat.le_of_eq hwrite) fun q hstart hdrained => ?_
      have hdrained3 := hr.drained h.inv h3.inv q hstart hdrained
      omega
  · rw [if_neg hcache]
    have hlt := UInt64.lt_iff_toNat_lt.mp (UInt64.not_le.mp hcache)
    have hcached := h1.handle.cached
    have hinspect : Inspecting c l x1.shared r.toNat x1 :=
      { toConsumerAt := h1
        read := hread.symm
        lt := Nat.lt_of_lt_of_le hlt hcached
        same := Span.Agree.refl _ }
    refine hinspect.acquireAt h.handle.toHandleGeometry hfree hlt hcached
      fun q hstart hdrained => ?_
    have hdrained1 := hr1.drained h.inv h1.inv q hstart hdrained
    omega

/-- What a finished `release` has done. -/
structure Released (c : Setting) (k : SpscRing) (r : Bool) (l : SpscRing)
    (y : World Span History) : Prop extends ConsumerAt c l y where
  result : r = k.acquired
  free : l.acquired = false
  position : k.acquired = true → readPos y.shared = k.acquiredPosition.toNat + 1

/-- `release` under the consumer's protocol. -/
theorem release_safe (h : ConsumerAt c l x) :
    (SpscRing.release l).Safe (@spanExec Unit) (consumerProtocol c)
      (fun k op y => k = l ∧ ConsumerControl c k op y) (Released c l) x := by
  rw [SpscRing.release, Method.bind_apply, Method.self_apply, Process.bind_done]
  by_cases hheld : l.acquired = true
  · rw [if_pos hheld]
    intro y hinv hrely
    have hat := h.rely hinv hrely
    obtain ⟨hpos, hlt⟩ := hat.handle.held hheld
    obtain ⟨hinv', hguar, hread, hwrite⟩ := release_store hat.inv hpos hlt
    have hheader : l.header.getD 0 = 0 := by rw [hat.handle.header]; rfl
    rw [hheader, Nat.zero_add]
    refine ⟨⟨rfl, hat, fun _ => ⟨hheld, rfl⟩⟩, fun _ => ?_⟩
    refine ⟨⟨y.ghost.events, insert _ y.ghost.seen⟩, ⟨hinv', Set.mem_insert _ _⟩,
      ⟨hguar, le_refl _⟩, ?_⟩
    exact
      { inv := hinv'
        seen := Set.mem_insert _ _
        handle := { hat.handle with
          cached := Nat.le_trans hat.handle.cached (Nat.le_of_eq hwrite.symm)
          held := fun held => by simp at held }
        result := hheld.symm
        free := rfl
        position := fun _ => hread.trans (by rw [hpos]) }
  · rw [if_neg hheld]
    exact
      { toConsumerAt := h
        result := (Bool.eq_false_iff.mpr hheld).symm
        free := Bool.eq_false_iff.mpr hheld
        position := fun held => absurd held hheld }

end EventEngine.Ring
