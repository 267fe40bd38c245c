import EventEngine.Ring.Attach

/-!
# What `initialize` leaves behind

`initialize` runs before the ring is shared, so its meaning is a run without
interference. It ends with the invariant of an empty ring and a handle for it.
-/

namespace EventEngine.Ring

open Concurrency Memory

variable {ℓ ω : Type} {l : ℓ} {w : ω} {m : Span}

section Stores

variable {α : Type} (offset : Nat) (next : Unit → Method spanAccess ℓ α) (m : Span)

theorem store_run (bytes : Bytes) : ((store offset bytes >>= next) l).run spanExec w m =
    (next () l).run spanExec w (m.write offset bytes) := rfl

theorem storeU16_run (v : UInt16) : ((storeU16 offset v >>= next) l).run spanExec w m =
    (next () l).run spanExec w (m.write offset (leBytes 2 v.toNat)) := rfl

theorem storeU32_run (v : UInt32) : ((storeU32 offset v >>= next) l).run spanExec w m =
    (next () l).run spanExec w (m.write offset (leBytes 4 v.toNat)) := rfl

theorem storeU64_run (v : UInt64) : ((storeU64 offset v >>= next) l).run spanExec w m =
    (next () l).run spanExec w (m.write offset (leBytes 8 v.toNat)) := rfl

theorem loadU32_run (next : UInt32 → Method spanAccess ℓ α) :
    ((loadU32 offset >>= next) l).run spanExec w m =
      (next (m.u32 offset) l).run spanExec w m := rfl

end Stores

theorem zeroFill_run (offset n : Nat) (m : Span) :
    (zeroFill offset n l).run spanExec w m = ((), l, m.write offset (List.replicate n 0)) := by
  induction n generalizing offset m with
  | zero =>
      rw [List.replicate_zero, Span.write_nil]
      rfl
  | succ n ih =>
      rw [List.replicate_succ, ← List.singleton_append, ← Span.write_write]
      exact ih (offset + 1) (m.write offset [0])

theorem write_zeros_bytes {offset n a : Nat} (m : Span) (hlo : offset ≤ a)
    (hhi : a < offset + n) : (m.write offset (List.replicate n 0)).bytes a = 0 := by
  obtain ⟨i, rfl⟩ := Nat.exists_eq_add_of_le hlo
  have hlt : i < (List.replicate n (0 : UInt8)).length := by
    rw [List.length_replicate]
    omega
  rw [Span.write_bytes_inside hlt, List.getElem_replicate]

/-- The memory after `fill_preamble`. -/
def preambleOf (size : Nat) (config : RingConfig) (instanceId : UInt64) (m : Span) : Span :=
  ((((((((((m.write magicOffset ringMagic).write layoutVersionOffset
    (leBytes 2 ringLayoutVersion.toNat)).write headerBytesOffset
    (leBytes 2 (UInt16.ofNat ringHeaderBytes).toNat)).write segmentBytesOffset
    (leBytes 8 (UInt64.ofNat size).toNat)).write slotCountOffset
    (leBytes 4 config.slotCount.toNat)).write slotStrideOffset
    (leBytes 4 (UInt32.ofNat ((size - ringHeaderBytes) / config.slotCount.toNat)).toNat)).write
    slotPayloadCapacityOffset (leBytes 4 config.slotPayloadCapacity.toNat)).write reservedOffset
    (leBytes 4 (0 : UInt32).toNat)).write instanceIdOffset (leBytes 8 instanceId.toNat)).write
    reservedBytesOffset (List.replicate 20 0)).write stateOffset
    (leBytes 4 stateInitializing.toNat)

theorem fillPreamble_run (size : Nat) (config : RingConfig) (instanceId : UInt64) (m : Span) :
    (fillPreamble size config instanceId l).run spanExec w m =
      ((), l, preambleOf size config instanceId m) := by
  simp only [fillPreamble, store_run, storeU16_run, storeU32_run, storeU64_run]
  rw [Method.bind_apply, Process.run_bind_of (zeroFill_run ..)]
  rfl

/-- The memory in front of the slots after both cursors are stored. -/
def headerOf (size : Nat) (config : RingConfig) (instanceId : UInt64) (m : Span) : Span :=
  ((preambleOf size config instanceId (m.write 0 (List.replicate ringHeaderBytes 0))).write
    producerOffset (leBytes 8 (0 : UInt64).toNat)).write
    consumerOffset (leBytes 8 (0 : UInt64).toNat)

section Header

variable (g : Geometry) (instanceId : UInt64) (m : Span)

theorem headerOf_toRegion :
    (headerOf g.size g.config instanceId m).toRegion = m.toRegion := by
  simp only [headerOf, preambleOf, Span.write_toRegion]

/-- Every word of the header is the one stored last at its offset. -/
theorem headerOf_reads :
    (headerOf g.size g.config instanceId m).read 0 4 = ringMagic ∧
    (headerOf g.size g.config instanceId m).read 4 2 = leBytes 2 ringLayoutVersion.toNat ∧
    (headerOf g.size g.config instanceId m).read 6 2 =
      leBytes 2 (UInt16.ofNat ringHeaderBytes).toNat ∧
    (headerOf g.size g.config instanceId m).read 8 8 = leBytes 8 (UInt64.ofNat g.size).toNat ∧
    (headerOf g.size g.config instanceId m).read 16 4 = leBytes 4 g.config.slotCount.toNat ∧
    (headerOf g.size g.config instanceId m).read 20 4 =
      leBytes 4 (UInt32.ofNat g.stride).toNat ∧
    (headerOf g.size g.config instanceId m).read 24 4 =
      leBytes 4 g.config.slotPayloadCapacity.toNat ∧
    (headerOf g.size g.config instanceId m).read 28 4 = leBytes 4 (0 : UInt32).toNat ∧
    (headerOf g.size g.config instanceId m).read 32 8 = leBytes 8 instanceId.toNat ∧
    (headerOf g.size g.config instanceId m).read 64 8 = leBytes 8 (0 : UInt64).toNat ∧
    (headerOf g.size g.config instanceId m).read 128 8 = leBytes 8 (0 : UInt64).toNat := by
  have hstride : (g.size - ringHeaderBytes) / g.config.slotCount.toNat = g.stride :=
    g.stride_eq_div
  have hmagic : ∀ m' : Span, (m'.write 0 ringMagic).read 0 4 = ringMagic := fun m' =>
    Span.read_write_same m' 0 ringMagic
  simp only [headerOf, preambleOf, hstride, magicOffset, layoutVersionOffset, headerBytesOffset,
    segmentBytesOffset, slotCountOffset, slotStrideOffset, slotPayloadCapacityOffset,
    reservedOffset, instanceIdOffset, reservedBytesOffset, stateOffset, producerOffset,
    consumerOffset]
  refine ⟨?_, ?_, ?_, ?_, ?_, ?_, ?_, ?_, ?_, ?_, ?_⟩
  all_goals simp (disch := simp) only [Span.read_write_of_disjoint, Span.read_write_leBytes, hmagic]

/-- What no later store covers is still zero. -/
theorem headerOf_zero {a : Nat}
    (h : (44 ≤ a ∧ a < 64) ∨ (72 ≤ a ∧ a < 128) ∨ (136 ≤ a ∧ a < 192)) :
    (headerOf g.size g.config instanceId m).bytes a = 0 := by
  simp only [headerOf, preambleOf, magicOffset, layoutVersionOffset, headerBytesOffset,
    segmentBytesOffset, slotCountOffset, slotStrideOffset, slotPayloadCapacityOffset,
    reservedOffset, instanceIdOffset, reservedBytesOffset, stateOffset, producerOffset,
    consumerOffset]
  obtain h | h | h := h
  · repeat rw [Span.write_bytes_outside (by rw [length_leBytes]; omega)]
    exact write_zeros_bytes _ (by omega) (by omega)
  all_goals
    simp (disch := simp [ringMagic]; omega) only [Span.write_bytes_outside]
    exact write_zeros_bytes _ (by omega) (by rw [ringHeaderBytes]; omega)

/-- Later stores into the slots and to the state word keep the header as it is. -/
theorem formatted_of_header {m' : Span} (hmemory : invalidMemory m.toRegion = false)
    (hsize : m.size = g.size) (hid : instanceId ≠ 0)
    (same : SamePreamble (headerOf g.size g.config instanceId m) m') : Formatted g m' := by
  obtain ⟨magic, version, headerBytes, segmentBytes, slotCount, slotStride,
    slotPayloadCapacity, reserved, id, -, -⟩ := headerOf_reads g instanceId m
  refine Formatted.congr ?_ same
  exact
    { memory := by rw [headerOf_toRegion]; exact hmemory
      size := by
        have hregion := congrArg Region.size (headerOf_toRegion g instanceId m)
        exact hregion.trans hsize
      magic := magic
      version := by
        rw [Span.u16, layoutVersionOffset, version]
        decide
      headerBytes := by
        rw [Span.u16, headerBytesOffset, headerBytes]
        decide
      segmentBytes := by
        have hlt := g.size_eq.2
        rw [Span.u64, segmentBytesOffset, segmentBytes, leNat_leBytes_of_lt (UInt64.toNat_lt _),
          UInt64.ofNat_toNat, UInt64.toNat_ofNat', Nat.mod_eq_of_lt hlt]
      slotCount := by
        rw [Span.u32, slotCountOffset, slotCount, leNat_leBytes_of_lt (UInt32.toNat_lt _),
          UInt32.ofNat_toNat]
      slotStride := by
        rw [Span.u32, slotStrideOffset, slotStride, leNat_leBytes_of_lt (UInt32.toNat_lt _),
          UInt32.ofNat_toNat, UInt32.toNat_ofNat', Nat.mod_eq_of_lt g.stride_lt]
      slotPayloadCapacity := by
        rw [Span.u32, slotPayloadCapacityOffset, slotPayloadCapacity,
          leNat_leBytes_of_lt (UInt32.toNat_lt _), UInt32.ofNat_toNat]
      reserved := by
        rw [Span.u32, reservedOffset, reserved]
        decide
      instanceId := by
        rw [Span.u64, instanceIdOffset, id, leNat_leBytes_of_lt (UInt64.toNat_lt _),
          UInt64.ofNat_toNat]
        exact hid
      preambleReserved := fun i hi => headerOf_zero g instanceId m (by
        simp only [reservedBytesOffset]
        omega)
      producerReserved := fun i hi => headerOf_zero g instanceId m (by
        simp only [producerOffset, cursorReservedOffset]
        omega)
      consumerReserved := fun i hi => headerOf_zero g instanceId m (by
        simp only [consumerOffset, cursorReservedOffset]
        omega) }

end Header

/-- The headers of all slots become zero; the ring's own header stays, and so does every
byte that is zero already. -/
theorem constructSlots_run {stride : Nat} (n index : Nat) (m : Span)
    (hstride : (m.u32 slotStrideOffset).toNat = stride) :
    ∃ m', (constructSlots index n l).run spanExec w m = ((), l, m') ∧
      m'.toRegion = m.toRegion ∧ Span.Agree 0 192 m m' ∧
      (∀ a, m.bytes a = 0 → m'.bytes a = 0) ∧
      ∀ i < n, ∀ j < 32, m'.bytes (192 + (index + i) * stride + j) = 0 := by
  induction n generalizing index m with
  | zero =>
      exact ⟨m, rfl, rfl, Span.Agree.refl m, fun _ h => h,
        fun i hi => absurd hi (Nat.not_lt_zero i)⟩
  | succ n ih =>
      have hagree : Span.Agree 0 192 m
          (m.write (192 + index * stride) (List.replicate 32 0)) :=
        Span.agree_write (.inl (Nat.le_add_right _ _))
      obtain ⟨m', hrun, hregion, hsame, hkeep, hzero⟩ := ih (index + 1)
        (m.write (192 + index * stride) (List.replicate 32 0))
        (by rw [Span.u32_congr hagree (by decide) (by decide)]; exact hstride)
      refine ⟨m', ?_, hregion, hagree.trans hsame, fun a ha => hkeep a ?_, ?_⟩
      · rw [constructSlots, loadU32_run, hstride, Method.bind_apply,
          Process.run_bind_of (zeroFill_run ..)]
        exact hrun
      · by_cases hin : 192 + index * stride ≤ a ∧ a < 192 + index * stride + 32
        · exact write_zeros_bytes m hin.1 hin.2
        · rw [Span.write_bytes_outside (by rw [List.length_replicate]; omega), ha]
      · intro i hi j hj
        cases i with
        | zero =>
            refine hkeep _ (write_zeros_bytes m ?_ ?_)
            all_goals rw [Nat.add_zero]; omega
        | succ i =>
            have hidx : index + (i + 1) = index + 1 + i := by omega
            rw [hidx]
            exact hzero i (by omega) j hj

/-- A ring on which nothing has happened yet: its memory and the handle of its creator. -/
def Initialized (g : Geometry) (handle : SpscRing) (m' : Span) : Prop :=
  ∃ (m : Span) (instanceId : UInt64),
    ((SpscRing.initializeRing m.toRegion g.config instanceId :
      Method spanAccess Unit (Except RingError SpscRing)) ()).run (@spanExec Unit) () m =
        (.ok handle, (), m')

/-- What `ofHeader` reads back. -/
theorem ofHeader_run {g : Geometry} {initializer : Bool} (h : Formatted g m) :
    (SpscRing.ofHeader initializer l).run spanExec w m = (g.handle initializer, l, m) := by
  have hstride : m.u32 slotStrideOffset = UInt32.ofNat g.stride := by
    rw [← h.slotStride, UInt32.ofNat_toNat]
  rw [SpscRing.ofHeader, loadU32_run, loadU32_run, loadU32_run, h.slotCount, hstride,
    h.slotPayloadCapacity]
  rfl

/-- The stores of `initialize` establish the invariant of an empty ring. -/
theorem construct_run {g : Geometry} {instanceId : UInt64}
    (hmemory : invalidMemory m.toRegion = false) (hsize : m.size = g.size)
    (hid : instanceId ≠ 0) (quiet : Prop) :
    ∃ m', (SpscRing.construct g.size g.config instanceId l).run spanExec w m =
        (g.handle true, l, m') ∧ RingInv ⟨g, 0, True, quiet⟩ m' [] ∧ stateOf m' = stateReady ∧
      ∀ p, ∀ j < 32, m'.bytes (g.slotAt p + j) = 0 := by
  obtain ⟨-, -, -, -, -, hstride, -, -, -, hproducer, hconsumer⟩ :=
    headerOf_reads g instanceId m
  have hstride' : ((headerOf g.size g.config instanceId m).u32 slotStrideOffset).toNat =
      g.stride := by
    rw [Span.u32, slotStrideOffset, hstride, leNat_leBytes_of_lt (UInt32.toNat_lt _),
      UInt32.ofNat_toNat, UInt32.toNat_ofNat', Nat.mod_eq_of_lt g.stride_lt]
  obtain ⟨m1, hrun, hregion, hsame, -, hzero⟩ :=
    @constructSlots_run ℓ ω l w g.stride g.config.slotCount.toNat 0
      (headerOf g.size g.config instanceId m) hstride'
  generalize hm2 : m1.write stateOffset (leBytes 4 stateReady.toNat) = m2
  have hbelow : Span.Agree 0 40 m1 m2 := hm2 ▸ Span.agree_write (.inl (by decide))
  have habove : ∀ hi, Span.Agree 44 hi m1 m2 := fun hi =>
    hm2 ▸ Span.agree_write (.inr (by rw [length_leBytes]; decide))
  have hformatted : Formatted g m2 :=
    formatted_of_header g instanceId m hmemory hsize hid
      { region := by rw [← hm2]; exact hregion
        fields := (hsame.mono (Nat.le_refl _) (by decide)).trans hbelow
        preambleReserved := (hsame.mono (by decide) (by decide)).trans (habove 64)
        producerReserved := (hsame.mono (by decide) (by decide)).trans
          ((habove 128).mono (by decide) (Nat.le_refl _))
        consumerReserved := (hsame.mono (by decide) (by decide)).trans
          ((habove 192).mono (by decide) (Nat.le_refl _)) }
  have hstate : stateOf m2 = stateReady := by
    rw [stateOf, ← hm2, Span.u32_write_same]
  have hread : readPos m2 = 0 := by
    rw [readPos, Span.u64_congr (habove 136) (by decide) (by decide),
      Span.u64_congr hsame (by decide) (by decide), Span.u64, consumerOffset, hconsumer]
    decide
  have hwrite : writePos m2 = 0 := by
    rw [writePos, Span.u64_congr (habove 72) (by decide) (by decide),
      Span.u64_congr hsame (by decide) (by decide), Span.u64, producerOffset, hproducer]
    decide
  have hbyte : ∀ p, ∀ j < 32, m2.bytes (g.slotAt p + j) = 0 := by
    intro p j hj
    have hidx : p % g.slots < g.config.slotCount.toNat := Nat.mod_lt p g.slots_pos
    have hlow := (g.slotAt_add_stride_le p).1
    rw [habove (g.slotAt p + j + 1) _ (by omega) (Nat.lt_succ_self _)]
    have := hzero (p % g.slots) hidx j hj
    rwa [Nat.zero_add, Nat.mul_comm] at this
  have hreserved : ∀ p, g.SlotReserved m2 p := by
    intro p
    refine ⟨Span.u32_eq_zero fun i hi => ?_, Span.u32_eq_zero fun i hi => ?_⟩
    · rw [slotReservedOffset, Nat.add_assoc]
      exact hbyte p _ (by omega)
    · rw [slotReservedOffset, Nat.add_assoc, Nat.add_assoc]
      exact hbyte p _ (by omega)
  refine ⟨m2, ?_, ?_, hstate, hbyte⟩
  · rw [SpscRing.construct, Method.bind_apply, Process.run_bind_of (zeroFill_run ..)]
    rw [Method.bind_apply, Process.run_bind_of (fillPreamble_run ..), storeU64_run, storeU64_run,
      ← headerOf]
    rw [Method.bind_apply, Process.run_bind_of hrun, storeU32_run, hm2]
    exact ofHeader_run hformatted
  · exact
      { formatted := hformatted
        state := .inl hstate
        start_le := Nat.zero_le _
        read_le := by rw [hread, hwrite]
        write_le := by rw [hwrite]; exact Nat.zero_le _
        write_eq := hwrite
        queued := fun _ p _ hp => by
          rw [hwrite] at hp
          exact absurd hp (Nat.not_lt_zero p)
        reserved := fun _ => hreserved }

/-- A successful `initialize` leaves an empty ring and a fresh handle for it. -/
theorem Initialized.spec {g : Geometry} {handle : SpscRing} (h : Initialized g handle m)
    (quiet : Prop) : handle = g.handle true ∧ RingInv ⟨g, 0, True, quiet⟩ m [] ∧
      stateOf m = stateReady := by
  obtain ⟨m0, instanceId, hrun⟩ := h
  have hrequired := g.required
  simp only [SpscRing.initializeRing, hrequired] at hrun
  by_cases hid : instanceId = 0
  · rw [if_pos hid] at hrun
    simp at hrun
  · rw [if_neg hid] at hrun
    by_cases hbad : invalidMemory m0.toRegion ∨ m0.size ≠ g.size
    · rw [if_pos hbad] at hrun
      simp at hrun
    · rw [if_neg hbad] at hrun
      rw [not_or, not_not] at hbad
      obtain ⟨m', hconstruct, hinv, hstate, -⟩ := @construct_run Unit Unit () () m0 g instanceId
        (Bool.eq_false_iff.mpr hbad.1) hbad.2 hid quiet
      rw [Method.bind_apply, Process.run_bind_of hconstruct] at hrun
      simp only [Method.pure_apply, Process.run_done, Prod.mk.injEq, Except.ok.injEq,
        true_and] at hrun
      obtain ⟨rfl, rfl⟩ := hrun
      exact ⟨rfl, hinv, hstate⟩

end EventEngine.Ring
