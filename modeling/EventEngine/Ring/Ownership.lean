import EventEngine.Ring.Queue

/-!
# Who owns which slot

Every position from the read cursor up to the write cursor is the consumer's; the slot at
the write cursor is the producer's while there is room. Nothing is assumed about the
contents of the slots here, so a run may start from any consistent pair of cursors.
-/

namespace EventEngine.Ring

open Concurrency Memory

variable {g : Geometry} {handle : SpscRing} {m : Span} {s t : System}

/-- A formatted ring whose cursors are at most one lap apart. -/
structure Consistent (g : Geometry) (m : Span) : Prop where
  formatted : Formatted g m
  state : stateOf m = stateReady ∨ stateOf m = stateClosed
  read_le : readPos m ≤ writePos m
  write_le : writePos m ≤ readPos m + g.slots

theorem RingInv.consistent {c : Setting} {hist : List Event} (h : RingInv c m hist) :
    Consistent c.geometry m :=
  ⟨h.formatted, h.state, h.read_le, h.write_le⟩

/-- What a run assumes of its start: a ring made by `initialize`, or any consistent one with
a fresh handle. -/
def FreshHandles (g : Geometry) (handle : SpscRing) (m : Span) : Prop :=
  Initialized g handle m ∨
    (Consistent g m ∧ ∃ initializer, handle = g.handle initializer)

/-- The ownership of the slots in a state. -/
structure Owned (g : Geometry) (s : System) : Prop where
  read_le : readPos s.memory ≤ writePos s.memory
  write_le : writePos s.memory ≤ readPos s.memory + g.slots
  producerCache : s.producer.handle.cachedReadPosition.toNat ≤ readPos s.memory
  consumerCache : s.consumer.handle.cachedWritePosition.toNat ≤ writePos s.memory
  held : s.consumer.handle.acquired = true →
    s.consumer.handle.acquiredPosition.toNat = readPos s.memory ∧
      readPos s.memory < writePos s.memory
  writing : ∀ op, s.producer.pending = some op → op.isStore = true →
    (op.offset = producerOffset ∨ (g.slotAt (writePos s.memory) ≤ op.offset ∧
      op.offset + op.length ≤ g.slotAt (writePos s.memory) + g.stride)) ∧
    ∀ p, readPos s.memory ≤ p → p < writePos s.memory →
      g.slotAt p + g.stride ≤ g.slotAt (writePos s.memory) ∨
        g.slotAt (writePos s.memory) + g.stride ≤ g.slotAt p
  stable : ∀ view m0, s.consumer.heldView = some (view, m0) →
    view = g.slotView s.memory (readPos s.memory) ∧ view.payload.length ≤ g.capacity ∧
      ∀ a, view.payload.offset ≤ a → a < view.payload.offset + view.payload.length →
        s.memory.bytes a = m0.bytes a

/-- A pending store of the producer, in a state with the invariant. -/
theorem System.Ok.writing {c : Setting} {base hist : List Event} (h : System.Ok c base hist s)
    {op : Access} (hpending : s.producer.pending = some op) (hstore : op.isStore = true) :
    writePos s.memory < readPos s.memory + c.geometry.slots ∧
      (op.offset = producerOffset ∨
        WritableAt c.geometry s.memory op.offset op.length) := by
  cases hr : s.producer.running with
  | none => simp [Client.pending, hr] at hpending
  | some r =>
      obtain ⟨op', hop', hcontrol⟩ := h.producer.control h.ring hr
      obtain rfl : op' = op := Option.some.inj (hop'.symm.trans hpending)
      obtain ⟨-, -, hperm⟩ := h.producer.busy r hr
      cases hcall : r.call with
      | tryPublish event =>
          rw [hcall] at hcontrol
          obtain ⟨hfree, hwhere⟩ := hcontrol.2 hstore
          refine ⟨hfree, hwhere.imp (fun hop => ?_) id⟩
          rw [hop]
          rfl
      | attach =>
          rw [hcall] at hcontrol
          have hload : op'.isStore = false := hcontrol.2
          rw [hload] at hstore
          cases hstore
      | tryAcquire => rw [hcall] at hperm; cases hperm
      | release => rw [hcall] at hperm; cases hperm
      | closePublication => rw [hcall] at hperm; cases hperm

theorem System.Ok.owned {c : Setting} {base hist : List Event} (h : System.Ok c base hist s) :
    Owned c.geometry s where
  read_le := h.ring.read_le
  write_le := h.ring.write_le
  producerCache := (h.producer.handle h.ring).cached
  consumerCache := (h.consumer.handle h.ring).cached
  held := (h.consumer.handle h.ring).held
  writing op hpending hstore := by
    obtain ⟨hfree, hwhere⟩ := h.writing hpending hstore
    refine ⟨hwhere.imp id fun hwritable => hwritable.inside, fun p hr hw => ?_⟩
    exact c.geometry.slotAt_disjoint (c.geometry.mod_slots_ne hw (by omega))
  stable view m0 hview := by
    have hheld := h.consumerLog.held
    rw [hview] at hheld
    obtain ⟨-, hslot, hlen, hagree⟩ := hheld
    refine ⟨hslot, hlen, fun a hlo hhi => hagree a ?_ ?_⟩
    · rw [hslot] at hlo
      exact Nat.le_trans (Nat.le_add_right _ _) hlo
    · have hstride := c.geometry.metadata_add_capacity_le_stride
      have hoffset : view.payload.offset = c.geometry.slotAt (readPos s.memory) + 32 := by
        rw [hslot]
        rfl
      omega

/-- The start of a run, with whatever the slots hold as its history. -/
theorem FreshHandles.ok (h : FreshHandles g handle m) :
    ∃ start base, System.Ok ⟨g, start, False, False⟩ base base (System.initial m handle) := by
  have hconsistent : Consistent g m ∧ ∃ initializer, handle = g.handle initializer := by
    obtain hinit | hfresh := h
    · obtain ⟨hhandle, hinv, -⟩ := hinit.spec False
      exact ⟨hinv.consistent, true, hhandle⟩
    · exact hfresh
  obtain ⟨hm, initializer, rfl⟩ := hconsistent
  refine ⟨readPos m, g.queuedEvents m, ?_⟩
  have hinv : RingInv ⟨g, readPos m, False, False⟩ m (g.queuedEvents m) :=
    { formatted := hm.formatted
      state := hm.state
      start_le := Nat.le_refl _
      read_le := hm.read_le
      write_le := hm.write_le
      write_eq := by
        have hle := hm.read_le
        rw [g.length_queuedEvents]
        change writePos m = readPos m + (writePos m - readPos m)
        omega
      queued := fun trusted => trusted.elim
      reserved := fun trusted => trusted.elim }
  exact System.ok_start hinv (g.producerHandle initializer m) (g.consumerHandle initializer m)
    (g.handleGeometry initializer) rfl rfl

/-- Ownership of the slots holds in every reachable state, and the cursors only grow. -/
theorem slots_owned (hstart : FreshHandles g handle m)
    (hrun : Reaches System.next anyAction (System.initial m handle) s)
    (hlater : Reaches System.next anyAction s t) :
    Owned g s ∧ readPos s.memory ≤ readPos t.memory ∧ writePos s.memory ≤ writePos t.memory := by
  obtain ⟨start, base, hok⟩ := hstart.ok
  obtain ⟨hist, hs, -⟩ := System.reaches_ok hok (fun _ _ _ q => q.elim) hrun
  obtain ⟨hist', -, hgrow⟩ := System.reaches_ok hs (fun _ _ _ q => q.elim) hlater
  exact ⟨hs.owned, hgrow.read, hgrow.write⟩

theorem slots_owned_sample :
    ∃ s, runActions System.next anyAction (System.initial sampleMemory sampleHandle)
        sampleActions = some s ∧ s.consumer.handle.acquired = true ∧ Owned sampleGeometry s := by
  have hrun : (runActions System.next anyAction (System.initial sampleMemory sampleHandle)
      sampleActions).map (fun s => s.consumer.handle.acquired) = some true := by
    decide +kernel
  obtain ⟨s, hs, hacquired⟩ := Option.map_eq_some_iff.mp hrun
  exact ⟨s, hs, hacquired,
    (slots_owned (.inl initialized_sample) (reaches_of_runActions hs) .refl).1⟩

end EventEngine.Ring
