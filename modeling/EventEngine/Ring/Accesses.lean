import EventEngine.Concurrency.Thread
import EventEngine.Memory.ReleaseAcquire
import EventEngine.Ring.Calls

/-!
# What each access of a call is for

The memory orders of the source, and which bytes a call loads. A consumer looks into a slot
only at its own read position, and only if it knows that the producer is past it. That needs
no memory: it follows from the answers to its loads of the two cursors.
-/

namespace EventEngine.Ring

open Concurrency Memory

variable {g : Geometry} {l : SpscRing} {op : Access}

/-- The access covers exactly the bytes of one of the atomic words. -/
def StateWord (op : Access) : Prop := op.offset = stateOffset ∧ op.length = 4
def ProducerWord (op : Access) : Prop := op.offset = producerOffset ∧ op.length = 8
def ConsumerWord (op : Access) : Prop := op.offset = consumerOffset ∧ op.length = 8

instance : DecidablePred StateWord := fun _ => inferInstanceAs (Decidable (_ ∧ _))
instance : DecidablePred ProducerWord := fun _ => inferInstanceAs (Decidable (_ ∧ _))
instance : DecidablePred ConsumerWord := fun _ => inferInstanceAs (Decidable (_ ∧ _))

/-- The memory order that the source gives to an access of each side. The state and the other
side's cursor are loaded with acquire and the own cursor relaxed; every atomic store is a
release. Slots and the rest of the header are not atomic. -/
def memoryOrder (role : Role) (op : Access) : MemoryOrder :=
  if StateWord op then if op.isStore then .release else .acquire
  else if ProducerWord op then
    if op.isStore then .release else if role = .producer then .relaxed else .acquire
  else if ConsumerWord op then
    if op.isStore then .release else if role = .consumer then .relaxed else .acquire
  else .plain

/-- The access covers bytes of the header that nobody stores once the ring is initialized. -/
def Immutable (op : Access) : Prop :=
  op.offset + op.length ≤ 40 ∨ (44 ≤ op.offset ∧ op.offset + op.length ≤ 64) ∨
    (72 ≤ op.offset ∧ op.offset + op.length ≤ 128) ∨
    (136 ≤ op.offset ∧ op.offset + op.length ≤ 192)

/-- What a side knows of the cursors: where the consumer's was when it loaded it, and how far
the producer's is at least. A consumer knows its own cursor exactly. -/
structure Cursors where
  read : Nat
  write : Nat

/-- What a side learns from the answer to a load. -/
def cursorAnswers : Environment spanAccess Cursors
  | .load offset length, r, k, k' =>
      if offset = consumerOffset ∧ length = 8 then
        (UInt64.ofNat (leNat r)).toNat = k'.read ∧ k'.write = k.write
      else if offset = producerOffset ∧ length = 8 then
        k'.read = k.read ∧ (UInt64.ofNat (leNat r)).toNat ≤ k'.write
      else k' = k
  | .store _ _, _, _, _ => True

/-- The loads of a call: words, immutable bytes, and for an acquisition the slot at the read
position when it is queued. Closing stores the state word. -/
def AccessControl (g : Geometry) (call : Call) (_ : SpscRing) (op : Access) (k : Cursors) :
    Prop :=
  (op.isStore = false → StateWord op ∨ ProducerWord op ∨ ConsumerWord op ∨ Immutable op ∨
    (call = .tryAcquire ∧ g.slotAt k.read ≤ op.offset ∧
      op.offset + op.length ≤ g.slotAt k.read + 32 ∧ k.read < k.write)) ∧
  (op.isStore = true → call = .closePublication →
    op = .store stateOffset (leBytes 4 stateClosed.toNat))

section Rules

variable {α : Type} {call : Call} {k : Cursors} {post : α → SpscRing → Cursors → Prop}
variable {offset : Nat}

theorem accesses_store {bs : Bytes} {next : Unit → Method spanAccess SpscRing α}
    (hcall : call ≠ .closePublication)
    (h : ∀ k', (next () l).Meets cursorAnswers (AccessControl g call) post k') :
    ((store offset bs >>= next) l).Meets cursorAnswers (AccessControl g call) post k :=
  ⟨⟨fun hload => (Bool.noConfusion hload), fun _ hclose => absurd hclose hcall⟩,
    fun _ k' _ => h k'⟩

theorem accesses_state {next : UInt32 → Method spanAccess SpscRing α}
    (h : ∀ v, (next v l).Meets cursorAnswers (AccessControl g call) post k) :
    ((loadU32 stateOffset >>= next) l).Meets cursorAnswers (AccessControl g call) post k := by
  refine ⟨⟨fun _ => .inl ⟨rfl, rfl⟩, fun hstore => (Bool.noConfusion hstore)⟩, ?_⟩
  rintro r k' rfl
  exact h _

theorem accesses_consumer {next : UInt64 → Method spanAccess SpscRing α}
    (h : ∀ v k', v.toNat = k'.read → k'.write = k.write →
      (next v l).Meets cursorAnswers (AccessControl g call) post k') :
    ((loadU64 consumerOffset >>= next) l).Meets cursorAnswers (AccessControl g call) post k := by
  refine ⟨⟨fun _ => .inr (.inr (.inl ⟨rfl, rfl⟩)), fun hstore => (Bool.noConfusion hstore)⟩, ?_⟩
  rintro r k' ⟨hread, hwrite⟩
  exact h _ k' hread hwrite

theorem accesses_producer {next : UInt64 → Method spanAccess SpscRing α}
    (h : ∀ v k', k'.read = k.read → v.toNat ≤ k'.write →
      (next v l).Meets cursorAnswers (AccessControl g call) post k') :
    ((loadU64 producerOffset >>= next) l).Meets cursorAnswers (AccessControl g call) post k := by
  refine ⟨⟨fun _ => .inr (.inl ⟨rfl, rfl⟩), fun hstore => (Bool.noConfusion hstore)⟩, ?_⟩
  rintro r k' ⟨hread, hwrite⟩
  exact h _ k' hread hwrite

/-- A load of immutable bytes. -/
theorem accesses_immutable {length : Nat} {next : Bytes → Process spanAccess SpscRing α}
    (himm : Immutable (.load offset length))
    (h : ∀ r, (next r).Meets cursorAnswers (AccessControl g call) post k) :
    (Process.step (S := spanAccess) l (.load offset length) next).Meets cursorAnswers
      (AccessControl g call) post k := by
  refine ⟨⟨fun _ => .inr (.inr (.inr (.inl himm))), fun hstore => (Bool.noConfusion hstore)⟩, ?_⟩
  intro r k' henv
  have hne : ¬ (offset = consumerOffset ∧ length = 8) ∧
      ¬ (offset = producerOffset ∧ length = 8) := by
    simp only [Immutable, Access.offset, Access.length, consumerOffset, producerOffset] at *
    omega
  simp only [cursorAnswers, if_neg hne.1, if_neg hne.2] at henv
  subst henv
  exact h r

/-- A load from the slot at the read position. -/
theorem accesses_slot {length : Nat} {next : Bytes → Process spanAccess SpscRing α}
    (hlo : g.slotAt k.read ≤ offset) (hhi : offset + length ≤ g.slotAt k.read + 32)
    (hlt : k.read < k.write)
    (h : ∀ r, (next r).Meets cursorAnswers (AccessControl g .tryAcquire) post k) :
    (Process.step (S := spanAccess) l (.load offset length) next).Meets cursorAnswers
      (AccessControl g .tryAcquire) post k := by
  have hlow := (g.slotAt_add_stride_le k.read).1
  refine ⟨⟨fun _ => .inr (.inr (.inr (.inr ⟨rfl, hlo, hhi, hlt⟩))),
    fun hstore => (Bool.noConfusion hstore)⟩, ?_⟩
  intro r k' henv
  have hne : ¬ (offset = consumerOffset ∧ length = 8) ∧
      ¬ (offset = producerOffset ∧ length = 8) := by
    simp only [consumerOffset, producerOffset]
    omega
  simp only [cursorAnswers, if_neg hne.1, if_neg hne.2] at henv
  subst henv
  exact h r

end Rules

section Methods

variable {k : Cursors} {event : Event}

theorem copyPayload_accesses {call : Call} (hcall : call ≠ .closePublication) (bs : Bytes)
    (offset : Nat) : (copyPayload offset bs l).Meets cursorAnswers (AccessControl g call)
      (fun _ _ _ => True) k := by
  induction bs generalizing offset k with
  | nil => trivial
  | cons b rest ih => exact accesses_store hcall fun k' => ih (offset + 1)

/-- Behind the free slot a publication only stores. -/
theorem publishAt_accesses {self : SpscRing} {header : Nat} {pos : UInt64} :
    (self.publishAt header pos event l).Meets cursorAnswers
      (AccessControl g (.tryPublish event)) (fun _ _ _ => True) k := by
  have hcall : Call.tryPublish event ≠ .closePublication := by simp
  have hheader : ∀ slot k, (fillSlotHeader slot event l).Meets cursorAnswers
      (AccessControl g (.tryPublish event)) (fun _ _ _ => True) k := fun slot k =>
    accesses_store hcall fun _ => accesses_store hcall fun _ => accesses_store hcall fun _ =>
      ⟨⟨fun hload => (Bool.noConfusion hload), fun _ hclose => absurd hclose hcall⟩,
        fun _ _ _ => trivial⟩
  refine (hheader _ k).bind fun _ l1 k1 _ => ?_
  refine (copyPayload_accesses hcall event.payload _).bind fun _ l2 k2 _ => ?_
  exact accesses_store hcall fun _ => trivial

theorem tryPublish_accesses (hheader : l.header = some 0) :
    (SpscRing.tryPublish event l).Meets cursorAnswers (AccessControl g (.tryPublish event))
      (fun _ _ _ => True) k := by
  rw [SpscRing.tryPublish, Method.bind_apply, Method.self_apply, Process.bind_done, hheader]
  simp only [Nat.zero_add]
  refine accesses_state fun state => ?_
  split
  · trivial
  · split
    · trivial
    · refine accesses_producer fun writePos k1 _ _ => ?_
      split
      · trivial
      · split
        · refine accesses_consumer fun readPos k2 _ _ => ?_
          rw [Method.bind_apply, Method.assign_apply, Process.bind_done]
          split
          · trivial
          · split
            · trivial
            · exact publishAt_accesses
        · exact publishAt_accesses

theorem accesses_slotU32 {α : Type} {post : α → SpscRing → Cursors → Prop} {offset : Nat}
    {next : UInt32 → Method spanAccess SpscRing α} (hoffset : offset + 4 ≤ 32)
    (hlt : k.read < k.write)
    (h : ∀ v, (next v l).Meets cursorAnswers (AccessControl g .tryAcquire) post k) :
    ((loadU32 (g.slotAt k.read + offset) >>= next) l).Meets cursorAnswers
      (AccessControl g .tryAcquire) post k :=
  accesses_slot (Nat.le_add_right _ _) (by omega) hlt fun _ => h _

theorem accesses_slotU64 {α : Type} {post : α → SpscRing → Cursors → Prop} {offset : Nat}
    {next : UInt64 → Method spanAccess SpscRing α} (hoffset : offset + 8 ≤ 32)
    (hlt : k.read < k.write)
    (h : ∀ v, (next v l).Meets cursorAnswers (AccessControl g .tryAcquire) post k) :
    ((loadU64 (g.slotAt k.read + offset) >>= next) l).Meets cursorAnswers
      (AccessControl g .tryAcquire) post k :=
  accesses_slot (Nat.le_add_right _ _) (by omega) hlt fun _ => h _

theorem invalidSlot_accesses {capacity : UInt32} (hlt : k.read < k.write) :
    (invalidSlot (g.slotAt k.read) capacity l).Meets cursorAnswers (AccessControl g .tryAcquire)
      (fun _ l' k' => l' = l ∧ k' = k) k := by
  refine accesses_slotU32 (by decide) hlt fun payloadLength => ?_
  split
  · exact ⟨rfl, rfl⟩
  · refine accesses_slotU32 (by decide) hlt fun reserved0 => ?_
    split
    · exact ⟨rfl, rfl⟩
    · rw [Nat.add_assoc]
      exact accesses_slotU32 (by decide) hlt fun reserved1 => ⟨rfl, rfl⟩

/-- The consumer looks into a slot only if the producer is past it. -/
theorem acquireAt_accesses {self : SpscRing} {r w : UInt64} (hself : HandleGeometry g self)
    (hr : r.toNat = k.read) (hw : w.toNat ≤ k.write) (hne : r ≠ w) :
    (self.acquireAt r w l).Meets cursorAnswers (AccessControl g .tryAcquire)
      (fun _ _ _ => True) k := by
  rw [SpscRing.acquireAt]
  split
  case isTrue => trivial
  case isFalse hlegal =>
    have hle : r.toNat ≤ w.toNat :=
      UInt64.le_iff_toNat_le.mp (UInt64.not_lt.mp fun hgt => hlegal (.inl hgt))
    have hlt : k.read < k.write := by
      have hnat : r.toNat ≠ w.toNat := fun heq => hne (UInt64.toNat_inj.mp heq)
      omega
    rw [hself.slotAddress, hr]
    refine (invalidSlot_accesses hlt).bind ?_
    rintro bad l1 _ ⟨-, rfl⟩
    beta_reduce
    split
    · trivial
    · refine accesses_slotU32 (by decide) hlt fun streamId => ?_
      refine accesses_slotU64 (by decide) hlt fun sequence => ?_
      refine accesses_slotU64 (by decide) hlt fun sourceTimestampNs => ?_
      exact accesses_slotU32 (by decide) hlt fun payloadLength => trivial

theorem tryAcquire_accesses (hl : HandleGeometry g l)
    (hcached : l.cachedWritePosition.toNat ≤ k.write) :
    (SpscRing.tryAcquire l).Meets cursorAnswers (AccessControl g .tryAcquire)
      (fun _ _ _ => True) k := by
  rw [SpscRing.tryAcquire, Method.bind_apply, Method.self_apply, Process.bind_done, hl.header]
  simp only [Nat.zero_add]
  split
  · trivial
  · refine accesses_consumer fun readPos k1 hread hkept => ?_
    split
    case isTrue =>
      refine accesses_state fun state => ?_
      refine accesses_producer fun writePos k2 hread2 hwrite2 => ?_
      rw [Method.bind_apply, Method.assign_apply, Process.bind_done]
      split
      case isTrue => trivial
      case isFalse hne => exact acquireAt_accesses hl (hread.trans hread2.symm) hwrite2 hne
    case isFalse hlt =>
      refine acquireAt_accesses hl hread ?_ fun heq => hlt (heq ▸ UInt64.le_refl _)
      rw [hkept]
      exact hcached

theorem release_accesses : (SpscRing.release l).Meets cursorAnswers (AccessControl g .release)
    (fun _ _ _ => True) k := by
  rw [SpscRing.release, Method.bind_apply, Method.self_apply, Process.bind_done]
  split
  · exact accesses_store (by simp) fun _ => trivial
  · trivial

theorem closePublication_accesses (hheader : l.header = some 0) :
    (SpscRing.closePublication l).Meets cursorAnswers (AccessControl g .closePublication)
      (fun _ _ _ => True) k := by
  rw [SpscRing.closePublication, Method.bind_apply, Method.self_apply, Process.bind_done, hheader]
  split
  · exact ⟨⟨fun hload => (Bool.noConfusion hload), fun _ _ => rfl⟩, fun _ _ _ => trivial⟩
  · trivial

end Methods

section Attaching

variable {α : Type} {k : Cursors} {region : Region}

/-- All accesses of the process are those of `attach`. -/
abbrev AttachAccesses (g : Geometry) (k : Cursors) (p : Process spanAccess SpscRing α) : Prop :=
  p.Meets cursorAnswers (AccessControl g .attach) (fun _ _ _ => True) k

theorem AttachAccesses.bind {β : Type} {p : Process spanAccess SpscRing α}
    {f : α → SpscRing → Process spanAccess SpscRing β} (hp : AttachAccesses g k p)
    (hf : ∀ a l k, AttachAccesses g k (f a l)) : AttachAccesses g k (p.bind f) :=
  Process.Meets.bind hp fun a l k _ => hf a l k

theorem attach_loadU16 {offset : Nat} {next : UInt16 → Method spanAccess SpscRing α}
    (himm : Immutable (.load offset 2)) (h : ∀ v, AttachAccesses g k (next v l)) :
    AttachAccesses g k ((loadU16 offset >>= next) l) :=
  accesses_immutable himm fun _ => h _

theorem attach_loadU32 {offset : Nat} {next : UInt32 → Method spanAccess SpscRing α}
    (himm : Immutable (.load offset 4)) (h : ∀ v, AttachAccesses g k (next v l)) :
    AttachAccesses g k ((loadU32 offset >>= next) l) :=
  accesses_immutable himm fun _ => h _

theorem attach_loadU64 {offset : Nat} {next : UInt64 → Method spanAccess SpscRing α}
    (himm : Immutable (.load offset 8)) (h : ∀ v, AttachAccesses g k (next v l)) :
    AttachAccesses g k ((loadU64 offset >>= next) l) :=
  accesses_immutable himm fun _ => h _

theorem invalidLayout_accesses : AttachAccesses g k (invalidLayout l) := by
  refine accesses_immutable (.inl (by decide)) fun magic => ?_
  change AttachAccesses g k ((if _ then _ else _ : Method spanAccess SpscRing Bool) l)
  split
  · trivial
  · refine attach_loadU16 (.inl (by decide)) fun version => ?_
    split
    · trivial
    · refine attach_loadU16 (.inl (by decide)) fun headerBytes => ?_
      split
      · trivial
      · refine attach_loadU64 (.inl (by decide)) fun instanceId => ?_
        split
        · trivial
        · exact attach_loadU32 (.inl (by decide)) fun reserved => trivial

theorem allZero_accesses {offset n : Nat} (himm : ∀ i < n, Immutable (.load (offset + i) 1)) :
    AttachAccesses g k (allZero offset n l) := by
  induction n generalizing offset with
  | zero => trivial
  | succ n ih =>
      refine accesses_immutable (himm 0 (Nat.succ_pos n)) fun b => ?_
      change AttachAccesses g k ((if _ then _ else _ : Method spanAccess SpscRing Bool) l)
      split
      · trivial
      · refine ih fun i hi => ?_
        rw [Nat.add_assoc, Nat.add_comm 1 i]
        exact himm (i + 1) (Nat.succ_lt_succ hi)

theorem reservedBytesZero_accesses : AttachAccesses g k (SpscRing.reservedBytesZero l) := by
  have himm : ∀ offset n, (offset, n) ∈ [(reservedBytesOffset, 20),
      (producerOffset + cursorReservedOffset, 56), (consumerOffset + cursorReservedOffset, 56)] →
      ∀ i < n, Immutable (.load (offset + i) 1) := by
    intro offset n hmem i hi
    simp only [List.mem_cons, Prod.mk.injEq, List.not_mem_nil, or_false, reservedBytesOffset,
      producerOffset, consumerOffset, cursorReservedOffset] at hmem
    simp only [Immutable, Access.offset, Access.length]
    omega
  refine AttachAccesses.bind (allZero_accesses (himm _ _ (by simp))) fun first l k => ?_
  cases first with
  | false => trivial
  | true =>
      refine AttachAccesses.bind (allZero_accesses (himm _ _ (by simp))) fun second l k => ?_
      cases second with
      | false => trivial
      | true => exact allZero_accesses (himm _ _ (by simp))

theorem ofHeader_accesses {initializer : Bool} :
    AttachAccesses g k (SpscRing.ofHeader initializer l) :=
  attach_loadU32 (.inl (by decide)) fun _ => attach_loadU32 (.inl (by decide)) fun _ =>
    attach_loadU32 (.inl (by decide)) fun _ => trivial

theorem attachGeometry_accesses : AttachAccesses g k (SpscRing.attachGeometry region l) := by
  refine attach_loadU32 (.inl (by decide)) fun slotCount => ?_
  refine attach_loadU32 (.inl (by decide)) fun capacity => ?_
  cases requiredBytes sizeBits ⟨slotCount, capacity⟩ with
  | error e => trivial
  | ok size =>
      refine attach_loadU32 (.inl (by decide)) fun slotStride => ?_
      split
      · trivial
      · refine attach_loadU64 (.inl (by decide)) fun segmentBytes => ?_
        split
        · trivial
        · split
          · trivial
          · exact AttachAccesses.bind ofHeader_accesses fun _ _ _ => trivial

theorem attach_accesses : AttachAccesses g k (SpscRing.attach region l) := by
  rw [SpscRing.attach]
  split
  · trivial
  · refine accesses_state fun state => ?_
    cases validateState state with
    | error e => trivial
    | ok _ =>
        refine AttachAccesses.bind invalidLayout_accesses fun bad l k => ?_
        cases bad with
        | true => trivial
        | false =>
            refine AttachAccesses.bind reservedBytesZero_accesses fun zero l k => ?_
            cases zero with
            | true => exact attachGeometry_accesses
            | false => trivial

end Attaching

/-- Every call makes only the accesses of its kind. -/
theorem Call.method_accesses {call : Call} {region : Region} {k : Cursors}
    (hl : HandleGeometry g l) (hcached : call = .tryAcquire →
      l.cachedWritePosition.toNat ≤ k.write) :
    (call.method region l).Meets cursorAnswers (AccessControl g call) (fun _ _ _ => True) k := by
  cases call with
  | tryPublish event => exact (tryPublish_accesses hl.header).bind fun _ _ _ _ => trivial
  | tryAcquire => exact (tryAcquire_accesses hl (hcached rfl)).bind fun _ _ _ _ => trivial
  | release => exact release_accesses.bind fun _ _ _ _ => trivial
  | attach =>
      refine AttachAccesses.bind attach_accesses fun result l k => ?_
      cases result with
      | error e => trivial
      | ok handle => trivial
  | closePublication =>
      exact (closePublication_accesses hl.header).bind fun _ _ _ _ => trivial

end EventEngine.Ring
