import EventEngine.Ring.Initialize

/-!
# The order of the stores of `initialize`

In zero-filled memory the state word stays `Uninitialized` or `Initializing` until the very
last store of `initialize`, which makes it `Ready`. When it does so, everything else has been
stored: what is left of `initialize` only loads.
-/

namespace EventEngine.Ring

open Concurrency Memory

variable {ℓ : Type} {l : ℓ} {m : Span} {g : Geometry} {instanceId : UInt64}

/-- The state word is `Uninitialized` or `Initializing`. -/
structure Unready (m : Span) : Prop where
  low : m.u8 stateOffset = 0 ∨ m.u8 stateOffset = 1
  high : ∀ i, 0 < i → i < 4 → m.u8 (stateOffset + i) = 0

/-- The access may take the state word beyond `Initializing`. -/
def mayPublish : Access → Bool
  | .load _ _ => false
  | .store offset bytes =>
      !(decide (offset + bytes.length ≤ stateOffset) || decide (reservedBytesOffset ≤ offset) ||
        bytes == [0] ||
        (offset == stateOffset && bytes == leBytes 4 stateInitializing.toNat))

theorem Unready.state (h : Unready m) :
    stateOf m = stateUninitialized ∨ stateOf m = stateInitializing := by
  have hread : m.read stateOffset 4 = [m.u8 stateOffset, m.u8 (stateOffset + 1),
      m.u8 (stateOffset + 2), m.u8 (stateOffset + 3)] := rfl
  rw [stateOf, Span.u32, hread, h.high 1 (by decide) (by decide),
    h.high 2 (by decide) (by decide), h.high 3 (by decide) (by decide)]
  obtain h0 | h1 := h.low
  · rw [h0]
    exact .inl rfl
  · rw [h1]
    exact .inr rfl

theorem Unready.notReady (h : Unready m) :
    validateState (m.u32 stateOffset) = .error .notReady := by
  obtain hstate | hstate := h.state
  · rw [show m.u32 stateOffset = stateUninitialized from hstate]
    rfl
  · rw [show m.u32 stateOffset = stateInitializing from hstate]
    rfl

theorem Unready.of_zero (h : ∀ a, stateOffset ≤ a → a < reservedBytesOffset → m.bytes a = 0) :
    Unready m where
  low := .inl (h stateOffset (Nat.le_refl _) (by decide))
  high i _ hi := h (stateOffset + i) (Nat.le_add_right _ _) (by
    simp only [stateOffset, reservedBytesOffset]
    omega)

theorem Unready.of_same {m' : Span} (h : Unready m)
    (hsame : ∀ i < 4, m'.u8 (stateOffset + i) = 0 ∨
      m'.u8 (stateOffset + i) = m.u8 (stateOffset + i)) : Unready m' where
  low := by
    obtain hzero | hsame := hsame 0 (by decide)
    · exact .inl hzero
    · rw [show m'.u8 stateOffset = m.u8 stateOffset from hsame]
      exact h.low
  high i hpos hi := by
    obtain hzero | hsame := hsame i hi
    · exact hzero
    · exact hsame.trans (h.high i hpos hi)

/-- No other store takes the state word beyond `Initializing`. -/
theorem Unready.write {offset : Nat} {bytes : Bytes} (h : Unready m)
    (hlast : mayPublish (.store offset bytes) = false) : Unready (m.write offset bytes) := by
  simp only [mayPublish, Bool.not_eq_false', Bool.or_eq_true, decide_eq_true_eq, beq_iff_eq,
    Bool.and_eq_true] at hlast
  obtain (hapart | rfl) | ⟨rfl, rfl⟩ := hlast
  · apply h.of_same
    intro i hi
    refine .inr (Span.write_bytes_outside ?_)
    simp only [stateOffset, reservedBytesOffset] at *
    omega
  · apply h.of_same
    intro i hi
    by_cases hat : stateOffset + i = offset
    · rw [← hat]
      exact .inl (write_zeros_bytes (n := 1) m (Nat.le_refl _) (Nat.lt_succ_self _))
    · refine .inr (Span.write_bytes_outside ?_)
      rw [List.length_singleton]
      omega
  · have hbyte : ∀ i (hi : i < (leBytes 4 stateInitializing.toNat).length),
        (m.write stateOffset (leBytes 4 stateInitializing.toNat)).u8 (stateOffset + i) =
          (leBytes 4 stateInitializing.toNat)[i] :=
      fun i hi => Span.write_bytes_inside hi
    exact
      { low := .inr (hbyte 0 (by decide))
        high := fun i hpos hi => by
          rw [hbyte i (by rwa [length_leBytes])]
          obtain rfl | rfl | rfl : i = 1 ∨ i = 2 ∨ i = 3 := by omega
          all_goals rfl }

theorem Unready.access {op : Access} (hlast : mayPublish op = false) (h : Unready m) :
    Unready (@spanExec Unit op () m).2 := by
  cases op with
  | load offset length => exact h
  | store offset bytes => exact h.write hlast

theorem zeroFill_avoids (offset n : Nat) : (zeroFill offset n l).Avoids mayPublish := by
  induction n generalizing offset with
  | zero => trivial
  | succ n ih => exact ⟨by simp [mayPublish], fun _ => ih (offset + 1)⟩

theorem fillPreamble_avoids (size : Nat) (config : RingConfig) :
    (fillPreamble size config instanceId l).Avoids mayPublish := by
  have hbefore : ∀ {offset : Nat} {bytes : Bytes}, offset + bytes.length ≤ 40 →
      mayPublish (.store offset bytes) = false := by
    intro offset bytes h
    simp [mayPublish, stateOffset, h]
  refine ⟨hbefore (by decide), fun _ => ?_⟩
  refine ⟨hbefore (by rw [length_leBytes]; decide), fun _ => ?_⟩
  refine ⟨hbefore (by rw [length_leBytes]; decide), fun _ => ?_⟩
  refine ⟨hbefore (by rw [length_leBytes]; decide), fun _ => ?_⟩
  refine ⟨hbefore (by rw [length_leBytes]; decide), fun _ => ?_⟩
  refine ⟨hbefore (by rw [length_leBytes]; decide), fun _ => ?_⟩
  refine ⟨hbefore (by rw [length_leBytes]; decide), fun _ => ?_⟩
  refine ⟨hbefore (by rw [length_leBytes]; decide), fun _ => ?_⟩
  refine ⟨hbefore (by rw [length_leBytes]; decide), fun _ => ?_⟩
  exact (zeroFill_avoids _ _).bind fun _ _ => ⟨by simp [mayPublish], fun _ => trivial⟩

/-- The slots are behind the state word, whatever stride is read back. -/
theorem constructSlots_avoids (index n : Nat) : (constructSlots index n l).Avoids mayPublish := by
  induction n generalizing index l with
  | zero => trivial
  | succ n ih => exact ⟨rfl, fun _ => (zeroFill_avoids _ _).bind fun _ _ => ih (index + 1)⟩

/-- A ring that `initialize` has just made `Ready`. -/
structure Fresh (g : Geometry) (m : Span) : Prop where
  inv : RingInv ⟨g, 0, True, False⟩ m []
  state : stateOf m = stateReady
  read : readPos m = 0
  write : writePos m = 0
  headers : ∀ p, ∀ j < ringSlotMetadataBytes, m.u8 (g.slotAt p + j) = 0

/-- `initialize` makes the ring `Ready` by its last store. -/
theorem construct_until (hmemory : invalidMemory m.toRegion = false) (hsize : m.size = g.size)
    (hid : instanceId ≠ 0) (hunready : Unready m) :
    (SpscRing.construct g.size g.config instanceId ()).Until (@spanExec Unit) Unready
      (fun rest m' => rest = SpscRing.ofHeader true () ∧ Fresh g m') m := by
  obtain ⟨m', hrun, hinv, hstate, hheaders⟩ :=
    @construct_run Unit Unit () () m g instanceId hmemory hsize hid False
  have hkeeps : ∀ op m, mayPublish op = false → Unready m →
      Unready (@spanExec Unit op () m).2 := fun _ _ => Unready.access
  have hbehind : ∀ {m : Span} {offset : Nat} {bytes : Bytes}, Unready m → 44 ≤ offset →
      Unready (m.write offset bytes) := by
    intro m offset bytes h hle
    exact h.write (by simp [mayPublish, reservedBytesOffset, hle])
  rw [SpscRing.construct, Method.bind_apply, Process.run_bind_of (zeroFill_run ..),
    Method.bind_apply, Process.run_bind_of (fillPreamble_run ..), storeU64_run, storeU64_run,
    ← headerOf] at hrun
  rw [SpscRing.construct]
  refine Process.Until.bind (zeroFill_avoids _ _) hkeeps (zeroFill_run ..) hunready fun h1 => ?_
  refine Process.Until.bind (fillPreamble_avoids _ _) hkeeps (fillPreamble_run ..) h1 fun h2 => ?_
  have h3 : Unready (headerOf g.size g.config instanceId m) :=
    hbehind (hbehind h2 (by decide)) (by decide)
  refine .inr ⟨hbehind h2 (by decide), .inr ⟨h3, ?_⟩⟩
  change Process.Until _ _ _
    ((constructSlots 0 g.config.slotCount.toNat >>= fun _ =>
      storeU32 stateOffset stateReady >>= fun _ => SpscRing.ofHeader true) ()) _
  cases hslots : (constructSlots 0 g.config.slotCount.toNat ()).run (@spanExec Unit) ()
      (headerOf g.size g.config instanceId m) with
  | mk result rest =>
      refine Process.Until.bind (constructSlots_avoids _ _) hkeeps hslots h3 fun _ =>
        .inl ⟨rfl, ?_⟩
      rw [Method.bind_apply, Process.run_bind_of hslots, storeU32_run] at hrun
      obtain rfl : rest.2.write stateOffset (leBytes 4 stateReady.toNat) = m' :=
        congrArg (fun result => result.2.2) hrun
      have hwrite : writePos (rest.2.write stateOffset (leBytes 4 stateReady.toNat)) = 0 :=
        hinv.write_eq
      have hread := hinv.read_le
      exact ⟨hinv, hstate, Nat.le_zero.mp (hwrite ▸ hread), hwrite, hheaders⟩

/-- What is left of `initialize` when `Ready` is stored: it copies the geometry. -/
def readyRest : Process spanAccess Unit (Except RingError SpscRing) :=
  (SpscRing.ofHeader true ()).bind fun handle l => .done (.ok handle) l

theorem initializeRing_until (hmemory : invalidMemory m.toRegion = false)
    (hsize : m.size = g.size) (hid : instanceId ≠ 0) (hunready : Unready m) :
    (SpscRing.initializeRing m.toRegion g.config instanceId ()).Until (@spanExec Unit) Unready
      (fun rest m' => rest = readyRest ∧ Fresh g m') m := by
  have hvalid : ¬ (invalidMemory m.toRegion ∨ m.size ≠ g.size) := by
    rw [hmemory, hsize]
    simp
  have hrequired := g.required
  simp only [SpscRing.initializeRing, hrequired]
  rw [if_neg hid, if_neg hvalid]
  have hconstruct := construct_until hmemory hsize hid hunready
  refine hconstruct.followed.mono_after ?_
  rintro rest m' ⟨q, rfl, rfl, hfresh⟩
  exact ⟨rfl, hfresh⟩

/-- An error of `initialize` is found before the first access. -/
theorem initializeRing_error (memory : Region) (config : RingConfig) (instanceId : UInt64)
    (l : ℓ) :
    (∃ e, SpscRing.initializeRing memory config instanceId l = .done (.error e) l) ∨
      (SpscRing.initializeRing memory config instanceId l).Results
        fun result => result.isOk = true := by
  unfold SpscRing.initializeRing
  by_cases hid : instanceId = 0
  · rw [if_pos hid]
    exact .inl ⟨_, rfl⟩
  · rw [if_neg hid]
    cases requiredBytes sizeBits config with
    | error e => exact .inl ⟨e, rfl⟩
    | ok size =>
        by_cases hbad : invalidMemory memory ∨ memory.size ≠ size
        · simp only [if_pos hbad]
          exact .inl ⟨_, rfl⟩
        · simp only [if_neg hbad]
          exact .inr (Process.Results.bind _ fun _ _ => rfl)

end EventEngine.Ring
