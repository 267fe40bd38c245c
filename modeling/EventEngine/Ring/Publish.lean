import EventEngine.Ring.Protocol

/-!
# Specification of `try_publish`

The proof follows the method access by access. Until the free slot is found the producer
only loads; from then on it holds a free slot, fills the header and the payload in order,
and the last store publishes exactly the bytes it has written.
-/

namespace EventEngine.Ring

open Concurrency Memory

variable {c : Setting} {hist : List Event} {l : SpscRing} {event : Event}
variable {x y : World Span History}

/-- The producer between two of its accesses: nothing of its call is published yet. -/
structure ProducerAt (c : Setting) (hist : List Event) (l : SpscRing)
    (y : World Span History) : Prop where
  inv : RingInv c y.shared hist
  seen : y.shared ∈ y.ghost.seen
  history : y.ghost.events = hist
  handle : ProducerHandle c.geometry l y.shared

/-- What the producer is about to do is allowed: it stores into the free slot at the write
position, or it stores the advanced write position. -/
def ProducerControl (c : Setting) (hist : List Event) (l : SpscRing) (op : Access)
    (y : World Span History) : Prop :=
  ProducerAt c hist l y ∧ (op.isStore = true →
    writePos y.shared < readPos y.shared + c.geometry.slots ∧
    (op = .store producerOffset (leBytes 8 (y.shared.u64 producerOffset + 1).toNat) ∨
      WritableAt c.geometry y.shared op.offset op.length))

theorem ProducerAt.rely (h : ProducerAt c hist l x)
    (hinv : (producerProtocol c (some event)).inv y)
    (hrely : (producerProtocol c (some event)).rely x y) :
    ProducerAt c hist l y ∧ ProducerRely c x.shared hist y.shared hist := by
  have hhist : y.ghost.events = hist := hrely.1.history.trans h.history
  have hr := hrely.1
  rw [hhist, h.history] at hr
  exact ⟨⟨hhist ▸ hinv.1, hinv.2, hhist, h.handle.mono hr.read⟩, hr⟩

section Accesses

variable {α : Type} {post : α → SpscRing → World Span History → Prop}

/-- The producer loads: the world it continues in is one the others may have reached. -/
theorem producer_load (h : ProducerAt c hist l x) {offset length : Nat}
    {next : Bytes → Process spanAccess SpscRing α}
    (hnext : ∀ y, ProducerAt c hist l y → ProducerRely c x.shared hist y.shared hist →
      x.ghost.seen ⊆ y.ghost.seen →
      (next (y.shared.read offset length)).Safe (@spanExec Unit)
        (producerProtocol c (some event)) (ProducerControl c hist) post y) :
    (Process.step (S := spanAccess) l (.load offset length) next).Safe (@spanExec Unit)
      (producerProtocol c (some event)) (ProducerControl c hist) post x := by
  apply safe_load (producerProtocol_guar_refl c (some event))
  intro y hinv hrely
  obtain ⟨hat, hr⟩ := h.rely hinv hrely
  exact ⟨⟨hat, fun hstore => by simp [Access.isStore] at hstore⟩,
    hnext y hat hr hrely.2⟩

theorem producer_loadU32 (h : ProducerAt c hist l x) {offset : Nat}
    {next : UInt32 → Method spanAccess SpscRing α}
    (hnext : ∀ y, ProducerAt c hist l y → ProducerRely c x.shared hist y.shared hist →
      x.ghost.seen ⊆ y.ghost.seen →
      (next (y.shared.u32 offset) l).Safe (@spanExec Unit)
        (producerProtocol c (some event)) (ProducerControl c hist) post y) :
    ((loadU32 offset >>= next) l).Safe (@spanExec Unit)
      (producerProtocol c (some event)) (ProducerControl c hist) post x :=
  producer_load h hnext

theorem producer_loadU64 (h : ProducerAt c hist l x) {offset : Nat}
    {next : UInt64 → Method spanAccess SpscRing α}
    (hnext : ∀ y, ProducerAt c hist l y → ProducerRely c x.shared hist y.shared hist →
      x.ghost.seen ⊆ y.ghost.seen →
      (next (y.shared.u64 offset) l).Safe (@spanExec Unit)
        (producerProtocol c (some event)) (ProducerControl c hist) post y) :
    ((loadU64 offset >>= next) l).Safe (@spanExec Unit)
      (producerProtocol c (some event)) (ProducerControl c hist) post x :=
  producer_load h hnext

/-- The producer stores into its free slot. The store happens in a world `y` that the
others may have reached, and leaves the world `z`. -/
theorem producer_store (h : ProducerAt c hist l x) {offset : Nat} {bs : Bytes}
    {next : Unit → Process spanAccess SpscRing α}
    (hfree : writePos x.shared < readPos x.shared + c.geometry.slots)
    (hwritable : WritableAt c.geometry x.shared offset bs.length)
    (hnext : ∀ y z : World Span History, ProducerAt c hist l y →
      ProducerRely c x.shared hist y.shared hist → x.ghost.seen ⊆ y.ghost.seen →
      ProducerAt c hist l z → z.shared = y.shared.write offset bs →
      y.ghost.seen ⊆ z.ghost.seen → ProducerGuar c (some event) y.shared hist z.shared hist →
      (next ()).Safe (@spanExec Unit) (producerProtocol c (some event))
        (ProducerControl c hist) post z) :
    (Process.step (S := spanAccess) l (.store offset bs) next).Safe (@spanExec Unit)
      (producerProtocol c (some event)) (ProducerControl c hist) post x := by
  intro y hinv hrely
  obtain ⟨hat, hr⟩ := h.rely hinv hrely
  have hwrite : writePos y.shared = writePos x.shared :=
    congrArg UInt64.toNat hr.writePos_eq
  have hfree' : writePos y.shared < readPos y.shared + c.geometry.slots := by
    have := hr.read
    omega
  have hwritable' : WritableAt c.geometry y.shared offset bs.length := by
    rw [WritableAt, hwrite]
    exact hwritable
  have hstored : RingInv c (y.shared.write offset bs) hist ∧
      ProducerGuar c (some event) y.shared hist (y.shared.write offset bs) hist :=
    slot_store hat.inv hfree' hwritable'
  obtain ⟨hinv', hguar⟩ := hstored
  refine ⟨⟨hat, fun _ => ⟨hfree', .inr hwritable'⟩⟩, fun _ => ?_⟩
  refine ⟨⟨hist, insert (y.shared.write offset bs) y.ghost.seen⟩,
    ⟨hinv', Set.mem_insert _ _⟩, ⟨?_, le_refl _⟩, ?_⟩
  · change ProducerGuar c (some event) y.shared y.ghost.events _ hist
    rw [hat.history]
    exact hguar
  · refine hnext y _ hat hr hrely.2 ⟨hinv', Set.mem_insert _ _, rfl, ?_⟩ rfl
      (Set.subset_insert _ _) hguar
    exact hat.handle.mono (Nat.le_of_eq (congrArg UInt64.toNat hguar.read).symm)

end Accesses

/-- The producer holds a free slot and is filling it. -/
structure Publishing (c : Setting) (hist : List Event) (l : SpscRing) (event : Event)
    (pos : UInt64) (y : World Span History) : Prop extends ProducerAt c hist l y where
  pos_eq : y.shared.u64 producerOffset = pos
  not_max : pos ≠ maxPosition
  free : writePos y.shared < readPos y.shared + c.geometry.slots
  fits : event.payload.length ≤ c.geometry.capacity
  ready : c.quiet → stateOf y.shared = stateReady
  instant : c.quiet → ∃ m ∈ y.ghost.seen, c.geometry.uncachedPublish m event = .ok

/-- The header bytes of an event, in the order in which they are stored. -/
def slotHeaderBytes (event : Event) : Bytes :=
  leBytes 8 event.sequence.toNat ++ leBytes 8 event.sourceTimestampNs.toNat ++
    leBytes 4 event.streamId.toNat ++
    leBytes 4 (UInt32.ofNat event.payload.length).toNat

@[simp] theorem length_slotHeaderBytes (event : Event) :
    (slotHeaderBytes event).length = 24 := by
  simp [slotHeaderBytes]

/-- Header and payload bytes in a slot determine the event that the slot holds. -/
theorem slotEvent_of_reads {g : Geometry} {m : Span} {p : Nat}
    (hheader : m.read (g.slotAt p) 24 = slotHeaderBytes event)
    (hpayload : m.read (g.slotAt p + 32) event.payload.length = event.payload)
    (hfits : event.payload.length ≤ g.capacity) :
    g.slotEvent m p = event ∧
      (m.u32 (g.slotAt p + payloadLengthOffset)).toNat = event.payload.length := by
  have hlt : event.payload.length < 2 ^ 32 := Nat.lt_of_le_of_lt hfits g.capacity_lt
  rw [show (24 : Nat) = 8 + 8 + 4 + 4 from rfl, Span.read_add, Span.read_add, Span.read_add,
    slotHeaderBytes] at hheader
  obtain ⟨h3, hlen⟩ := List.append_inj hheader (by simp)
  obtain ⟨h2, hstream⟩ := List.append_inj h3 (by simp)
  obtain ⟨hseq, htime⟩ := List.append_inj h2 (by simp)
  have hlen' : m.u32 (g.slotAt p + payloadLengthOffset) =
      UInt32.ofNat event.payload.length := by
    rw [Span.u32, payloadLengthOffset, show g.slotAt p + 20 = g.slotAt p + (8 + 8 + 4) from rfl,
      hlen, leNat_leBytes_of_lt (UInt32.toNat_lt _), UInt32.ofNat_toNat]
  have hnat : (m.u32 (g.slotAt p + payloadLengthOffset)).toNat = event.payload.length := by
    rw [hlen', UInt32.toNat_ofNat', Nat.mod_eq_of_lt hlt]
  refine ⟨?_, hnat⟩
  obtain ⟨streamId, sequence, sourceTimestampNs, payload⟩ := event
  simp only [Geometry.slotEvent, Geometry.slotView, EventView.resolve, EventView.mk.injEq]
  refine ⟨?_, ?_, ?_, ?_⟩
  · rw [Span.u32, streamIdOffset, show g.slotAt p + 16 = g.slotAt p + (8 + 8) from rfl,
      hstream, leNat_leBytes_of_lt streamId.toNat_lt, UInt32.ofNat_toNat]
  · rw [Span.u64, eventSequenceOffset, Nat.add_zero, hseq,
      leNat_leBytes_of_lt sequence.toNat_lt, UInt64.ofNat_toNat]
  · rw [Span.u64, sourceTimestampOffset, htime,
      leNat_leBytes_of_lt sourceTimestampNs.toNat_lt, UInt64.ofNat_toNat]
  · rw [hnat]
    exact hpayload

section Filling

variable {pos : UInt64} {z : World Span History}

/-- Others leave a publication in progress as it is. -/
theorem Publishing.rely (h : Publishing c hist l event pos x) (hat : ProducerAt c hist l y)
    (hr : ProducerRely c x.shared hist y.shared hist) (hseen : x.ghost.seen ⊆ y.ghost.seen) :
    Publishing c hist l event pos y where
  toProducerAt := hat
  pos_eq := hr.writePos_eq.trans h.pos_eq
  not_max := h.not_max
  free := by
    have hw : writePos y.shared = writePos x.shared := congrArg UInt64.toNat hr.writePos_eq
    have hfree := h.free
    have hread := hr.read
    omega
  fits := h.fits
  ready q := (hr.quiet q).trans (h.ready q)
  instant q := by
    obtain ⟨m, hm, hok⟩ := h.instant q
    exact ⟨m, hseen hm, hok⟩

/-- So does a store of the producer that publishes nothing. -/
theorem Publishing.guar (h : Publishing c hist l event pos y) (hat : ProducerAt c hist l z)
    (hg : ProducerGuar c (some event) y.shared hist z.shared hist)
    (hseen : y.ghost.seen ⊆ z.ghost.seen) : Publishing c hist l event pos z := by
  have hwrite : z.shared.u64 producerOffset = y.shared.u64 producerOffset := by
    obtain ⟨hw, -⟩ | ⟨-, ⟨e, -, hlong⟩, -⟩ := hg.history
    · exact hw
    · exact absurd hlong (by simp)
  exact
    { toProducerAt := hat
      pos_eq := hwrite.trans h.pos_eq
      not_max := h.not_max
      free := by
        have hfree := h.free
        rw [writePos, readPos, hwrite, hg.read]
        exact hfree
      fits := h.fits
      ready := fun q => hg.state.trans (h.ready q)
      instant := fun q => by
        obtain ⟨m, hm, hok⟩ := h.instant q
        exact ⟨m, hseen hm, hok⟩ }

/-- The producer has written the first bytes of the header and of the payload area. -/
structure Filling (c : Setting) (hist : List Event) (l : SpscRing) (event : Event)
    (pos : UInt64) (hdr body : Bytes) (y : World Span History) : Prop
    extends Publishing c hist l event pos y where
  header : y.shared.read (c.geometry.slotAt pos.toNat) hdr.length = hdr
  payload : y.shared.read (c.geometry.slotAt pos.toNat + 32) body.length = body
  headerFits : hdr.length ≤ 24
  payloadFits : body.length ≤ c.geometry.capacity

variable {hdr body bs : Bytes} {α : Type}
variable {post : α → SpscRing → World Span History → Prop}
variable {next : Unit → Process spanAccess SpscRing α}

/-- Others leave a partly filled slot as it is. -/
theorem Filling.rely (h : Filling c hist l event pos hdr body x) (hat : ProducerAt c hist l y)
    (hr : ProducerRely c x.shared hist y.shared hist) (hseen : x.ghost.seen ⊆ y.ghost.seen) :
    Filling c hist l event pos hdr body y := by
  have hstride := c.geometry.metadata_add_capacity_le_stride
  have hheader := h.headerFits
  have hpayload := h.payloadFits
  have hslot := hr.slot pos.toNat
  exact
    { toPublishing := h.toPublishing.rely hat hr hseen
      header := (Span.read_congr hslot (by omega) (by omega)).trans h.header
      payload := (Span.read_congr hslot (by omega) (by omega)).trans h.payload
      headerFits := hheader
      payloadFits := hpayload }

/-- The next bytes of the header. -/
theorem Filling.store_header (h : Filling c hist l event pos hdr body x) {offset : Nat}
    (hoffset : offset = c.geometry.slotAt pos.toNat + hdr.length)
    (hfits : hdr.length + bs.length ≤ 24)
    (hnext : ∀ z, Filling c hist l event pos (hdr ++ bs) body z →
      (next ()).Safe (@spanExec Unit) (producerProtocol c (some event))
        (ProducerControl c hist) post z) :
    (Process.step (S := spanAccess) l (.store offset bs) next).Safe (@spanExec Unit)
      (producerProtocol c (some event)) (ProducerControl c hist) post x := by
  subst hoffset
  have hpos : writePos x.shared = pos.toNat := congrArg UInt64.toNat h.pos_eq
  refine producer_store h.toProducerAt h.free (.inl ?_) ?_
  · rw [hpos]
    omega
  · intro y z hat hr hseen hat' hz hseen' hguar
    have hy := h.rely hat hr hseen
    refine hnext z
      { toPublishing := hy.toPublishing.guar hat' hguar hseen'
        header := ?_
        payload := ?_
        headerFits := by rw [List.length_append]; exact hfits
        payloadFits := h.payloadFits }
    · rw [hz, List.length_append]
      exact Span.read_write_extend hy.header
    · rw [hz, Span.read_write_of_disjoint (by omega)]
      exact hy.payload

/-- The next bytes of the payload. -/
theorem Filling.store_payload (h : Filling c hist l event pos hdr body x) {offset : Nat}
    (hoffset : offset = c.geometry.slotAt pos.toNat + 32 + body.length)
    (hfits : body.length + bs.length ≤ c.geometry.capacity)
    (hnext : ∀ z, Filling c hist l event pos hdr (body ++ bs) z →
      (next ()).Safe (@spanExec Unit) (producerProtocol c (some event))
        (ProducerControl c hist) post z) :
    (Process.step (S := spanAccess) l (.store offset bs) next).Safe (@spanExec Unit)
      (producerProtocol c (some event)) (ProducerControl c hist) post x := by
  subst hoffset
  have hpos : writePos x.shared = pos.toNat := congrArg UInt64.toNat h.pos_eq
  have hheader := h.headerFits
  refine producer_store h.toProducerAt h.free (.inr ?_) ?_
  · rw [hpos]
    omega
  · intro y z hat hr hseen hat' hz hseen' hguar
    have hy := h.rely hat hr hseen
    refine hnext z
      { toPublishing := hy.toPublishing.guar hat' hguar hseen'
        header := ?_
        payload := ?_
        headerFits := hheader
        payloadFits := by rw [List.length_append]; exact hfits }
    · rw [hz, Span.read_write_of_disjoint (by omega)]
      exact hy.header
    · rw [hz, List.length_append]
      exact Span.read_write_extend hy.payload

/-- `fill_slot_header` writes the whole header. -/
theorem Filling.fillSlotHeader (h : Filling c hist l event pos [] body x) :
    (fillSlotHeader (c.geometry.slotAt pos.toNat) event l).Safe (@spanExec Unit)
      (producerProtocol c (some event)) (ProducerControl c hist)
      (fun _ l' y => l' = l ∧ Filling c hist l event pos (slotHeaderBytes event) body y) x := by
  refine h.store_header rfl (by simp) fun x1 h1 => ?_
  refine h1.store_header (by simp [sourceTimestampOffset]) (by simp) fun x2 h2 => ?_
  refine h2.store_header (by simp [streamIdOffset]) (by simp) fun x3 h3 => ?_
  refine h3.store_header (by simp [payloadLengthOffset]) (by simp) fun x4 h4 => ?_
  exact ⟨rfl, h4⟩

/-- Copying the payload, by induction on the bytes that are left. -/
theorem Filling.copyPayload (rest : Bytes) (h : Filling c hist l event pos hdr body x)
    (hrest : body ++ rest = event.payload) :
    (copyPayload (c.geometry.slotAt pos.toNat + 32 + body.length) rest l).Safe
      (@spanExec Unit) (producerProtocol c (some event)) (ProducerControl c hist)
      (fun _ l' y => l' = l ∧ Filling c hist l event pos hdr event.payload y) x := by
  induction rest generalizing body x with
  | nil =>
      rw [List.append_nil] at hrest
      exact ⟨rfl, hrest ▸ h⟩
  | cons b rest ih =>
      have hlen : body.length + (rest.length + 1) = event.payload.length := by
        rw [← hrest, List.length_append, List.length_cons]
      have hfits := h.fits
      refine h.store_payload rfl (by rw [List.length_singleton]; omega) fun z hz => ?_
      have hstep := ih hz (by rw [List.append_assoc]; exact hrest)
      rwa [List.length_append, List.length_singleton, ← Nat.add_assoc] at hstep

/-- What a finished `try_publish` has done. -/
structure Published (c : Setting) (hist : List Event) (l : SpscRing) (event : Event)
    (r : PublishResult) (l' : SpscRing) (y : World Span History) : Prop where
  handle : ProducerHandle c.geometry l' y.shared
  fields : ∃ cached, l' = { l with cachedReadPosition := cached }
  history : y.ghost.events = if r = .ok then hist ++ [event] else hist
  instant : c.quiet → ∃ m ∈ y.ghost.seen, r = c.geometry.uncachedPublish m event

/-- The store of the producer cursor publishes the event. -/
theorem Filling.publish (h : Filling c hist l event pos (slotHeaderBytes event) event.payload x) :
    (Process.step (S := spanAccess) l
      (.store producerOffset (leBytes 8 (pos + 1).toNat)) fun _ =>
        .done PublishResult.ok l).Safe (@spanExec Unit)
      (producerProtocol c (some event)) (ProducerControl c hist)
      (Published c hist l event) x := by
  intro y hinv hrely
  obtain ⟨hat, hr⟩ := h.toProducerAt.rely hinv hrely
  have hy := h.rely hat hr hrely.2
  have hpos : writePos y.shared = pos.toNat := congrArg UInt64.toNat hy.pos_eq
  have hheader := hy.header
  rw [length_slotHeaderBytes] at hheader
  obtain ⟨hevent, hlen⟩ := slotEvent_of_reads hheader hy.payload hy.fits
  obtain ⟨hinv', hguar⟩ := publish_store (e := event) hat.inv hy.pos_eq hy.not_max hy.free hy.ready
    (by rw [hpos]; exact hevent) (by rw [hpos, hlen]; exact hy.fits)
  refine ⟨⟨hat, fun _ => ⟨hy.free, .inl (by rw [hy.pos_eq])⟩⟩, fun _ => ?_⟩
  refine ⟨⟨hist ++ [event], insert _ y.ghost.seen⟩, ⟨hinv', Set.mem_insert _ _⟩,
    ⟨?_, le_refl _⟩, ?_⟩
  · change ProducerGuar c (some event) y.shared y.ghost.events _ (hist ++ [event])
    rw [hat.history]
    exact hguar
  · exact
      { handle := hat.handle.mono (Nat.le_of_eq (congrArg UInt64.toNat hguar.read).symm)
        fields := ⟨l.cachedReadPosition, rfl⟩
        history := (if_pos rfl).symm
        instant := fun q => by
          obtain ⟨m, hm, hok⟩ := hy.instant q
          exact ⟨m, Set.mem_insert_of_mem _ hm, hok.symm⟩ }

end Filling

/-- From a free slot to the end of the call. The geometry is that of the handle at the
start of the call. -/
theorem Publishing.publishAt {k : SpscRing} {pos : UInt64}
    (h : Publishing c hist l event pos x) (geometry : HandleGeometry c.geometry k) :
    (k.publishAt 0 pos event l).Safe (@spanExec Unit) (producerProtocol c (some event))
      (ProducerControl c hist) (Published c hist l event) x := by
  have hslot := geometry.slotAddress pos
  have hempty : Filling c hist l event pos [] [] x :=
    { toPublishing := h
      header := rfl
      payload := rfl
      headerFits := Nat.zero_le _
      payloadFits := Nat.zero_le _ }
  rw [SpscRing.publishAt, hslot]
  refine hempty.fillSlotHeader.bind ?_
  rintro _ l1 x1 ⟨hl1, h1⟩
  rw [hl1]
  refine (h1.copyPayload event.payload rfl).bind ?_
  rintro _ l2 x2 ⟨hl2, h2⟩
  rw [hl2]
  exact h2.publish

/-- The fields that a call does not change may be compared with an earlier handle. -/
theorem Published.of_cached {r : PublishResult} {k : SpscRing} {cached : UInt64}
    (h : Published c hist { l with cachedReadPosition := cached } event r k y) :
    Published c hist l event r k y :=
  { h with
    fields := by
      obtain ⟨cached', hk⟩ := h.fields
      exact ⟨cached', hk⟩ }

/-- A call that ends without a store has published nothing. -/
theorem ProducerAt.refused {k : SpscRing} {r : PublishResult} (h : ProducerAt c hist l y)
    (fields : ∃ cached, l = { k with cachedReadPosition := cached }) (hr : r ≠ .ok)
    (instant : c.quiet → ∃ m ∈ y.ghost.seen, r = c.geometry.uncachedPublish m event) :
    Published c hist k event r l y where
  handle := h.handle
  fields := fields
  history := h.history.trans (if_neg hr).symm
  instant := instant

/-- Unsigned subtraction of cursors in order is exact. -/
theorem toNat_distance {r w : UInt64} (h : r.toNat ≤ w.toNat) :
    (w - r).toNat = w.toNat - r.toNat :=
  UInt64.toNat_sub_of_le w r (UInt64.le_iff_toNat_le.mpr h)

/-- The producer knows its position: the call is past the checks before the free space. -/
structure Positioned (c : Setting) (hist : List Event) (l : SpscRing) (event : Event)
    (pos : UInt64) (y : World Span History) : Prop extends ProducerAt c hist l y where
  pos_eq : y.shared.u64 producerOffset = pos
  not_max : pos ≠ maxPosition
  fits : event.payload.length ≤ c.geometry.capacity
  ready : c.quiet → stateOf y.shared = stateReady

variable {pos : UInt64}

/-- The answer of the uncached queue when only the space decides. -/
theorem Positioned.uncachedPublish (h : Positioned c hist l event pos y) (q : c.quiet) :
    c.geometry.uncachedPublish y.shared event =
      if writePos y.shared - readPos y.shared = c.geometry.slots then .full else .ok := by
  rw [Geometry.uncachedPublish, if_neg, if_neg (Nat.not_lt.mpr h.fits),
    Geometry.length_queuedEvents]
  rintro (hclosed | ⟨-, hlast⟩)
  · exact hclosed (h.ready q)
  · exact h.not_max (h.pos_eq.symm.trans hlast)

/-- There is room at the position. -/
theorem Positioned.publishing (h : Positioned c hist l event pos y)
    (hroom : writePos y.shared < readPos y.shared + c.geometry.slots) :
    Publishing c hist l event pos y where
  toProducerAt := h.toProducerAt
  pos_eq := h.pos_eq
  not_max := h.not_max
  free := hroom
  fits := h.fits
  ready := h.ready
  instant q := by
    have hspace : ¬ writePos y.shared - readPos y.shared = c.geometry.slots := by
      have := h.inv.read_le
      omega
    exact ⟨y.shared, h.seen, (h.uncachedPublish q).trans (if_neg hspace)⟩

/-- The part of `try_publish` that refreshes the cached read position. -/
theorem Positioned.refresh (h : Positioned c hist l event pos y) :
    ((do
      let readPos ← loadU64 consumerOffset
      Method.assign fun self => { self with cachedReadPosition := readPos }
      if readPos > pos ∨ pos - readPos > l.slotCount.toUInt64 then return .closed
      else if pos - readPos = l.slotCount.toUInt64 then return .full
      else l.publishAt 0 pos event : Method spanAccess SpscRing PublishResult) l).Safe
      (@spanExec Unit) (producerProtocol c (some event)) (ProducerControl c hist)
      (Published c hist l event) y := by
  have hcount : l.slotCount.toUInt64.toNat = c.geometry.slots := by
    rw [UInt32.toNat_toUInt64, h.handle.slotCount]
    rfl
  refine producer_loadU64 h.toProducerAt fun z hz hr _ => ?_
  have hread : (z.shared.u64 consumerOffset).toNat = readPos z.shared := rfl
  generalize z.shared.u64 consumerOffset = r at hread ⊢
  have hwrite : writePos z.shared = pos.toNat :=
    congrArg UInt64.toNat (hr.writePos_eq.trans h.pos_eq)
  have hle : r.toNat ≤ pos.toNat := by
    rw [hread, ← hwrite]
    exact hz.inv.read_le
  have hfull := hz.inv.write_le
  have hdist := toNat_distance hle
  -- The handle now caches the cursor just read, which is not ahead of the real one.
  have hcached : Positioned c hist { l with cachedReadPosition := r } event pos z :=
    { inv := hz.inv
      seen := hz.seen
      history := hz.history
      handle := { hz.handle with cached := Nat.le_of_eq hread }
      pos_eq := hr.writePos_eq.trans h.pos_eq
      not_max := h.not_max
      fits := h.fits
      ready := fun q => (hr.quiet q).trans (h.ready q) }
  have hlegal : ¬ (r > pos ∨ pos - r > l.slotCount.toUInt64) := by
    rintro (hlt | hlt)
    · exact absurd (UInt64.lt_iff_toNat_lt.mp hlt) (Nat.not_lt.mpr hle)
    · have := UInt64.lt_iff_toNat_lt.mp hlt
      omega
  simp only [Method.bind_apply, Method.assign_apply, Process.bind_done]
  rw [if_neg hlegal]
  by_cases hspace : pos - r = l.slotCount.toUInt64
  · rw [if_pos hspace]
    refine hcached.refused (r := .full) ⟨_, rfl⟩ (by decide) fun q => ⟨_, hz.seen, ?_⟩
    rw [hcached.uncachedPublish q, if_pos]
    rw [hwrite, ← hread, ← hdist, hspace, hcount]
  · rw [if_neg hspace]
    have hne : (pos - r).toNat ≠ c.geometry.slots := fun heq =>
      hspace (UInt64.toNat_inj.mp (heq.trans hcount.symm))
    have hroom : writePos z.shared < readPos z.shared + c.geometry.slots := by omega
    refine ((hcached.publishing hroom).publishAt h.handle.toHandleGeometry).mono_post ?_
    exact fun _ _ _ hpub => hpub.of_cached

/-- `try_publish` under the producer's protocol. -/
theorem tryPublish_safe (h : ProducerAt c hist l x) :
    (SpscRing.tryPublish event l).Safe (@spanExec Unit) (producerProtocol c (some event))
      (ProducerControl c hist) (Published c hist l event) x := by
  have hcount : l.slotCount.toUInt64.toNat = c.geometry.slots := by
    rw [UInt32.toNat_toUInt64, h.handle.slotCount]
    rfl
  have hcapacity : l.slotPayloadCapacity.toNat = c.geometry.capacity := by
    rw [h.handle.slotPayloadCapacity]
    rfl
  rw [SpscRing.tryPublish, Method.bind_apply, Method.self_apply, Process.bind_done,
    h.handle.header]
  refine producer_loadU32 h fun x1 h1 _ _ => ?_
  have hread : stateOf x1.shared = x1.shared.u32 (0 + stateOffset) := rfl
  by_cases hstate : stateOf x1.shared = stateReady
  · rw [← hread, if_neg (not_not.mpr hstate), hcapacity]
    by_cases hfits : event.payload.length > c.geometry.capacity
    · rw [if_pos hfits]
      refine h1.refused ⟨_, rfl⟩ (by decide) fun _ => ⟨_, h1.seen, ?_⟩
      rw [Geometry.uncachedPublish, if_neg, if_pos hfits]
      rintro (hclosed | ⟨hle, -⟩)
      · exact hclosed hstate
      · omega
    · rw [if_neg hfits]
      refine producer_loadU64 h1 fun x2 h2 hr2 _ => ?_
      have hready : c.quiet → stateOf x2.shared = stateReady := fun q =>
        (hr2.quiet q).trans hstate
      have hwrite : writePos x2.shared = (x2.shared.u64 (0 + producerOffset)).toNat := rfl
      have hpos : x2.shared.u64 producerOffset = x2.shared.u64 (0 + producerOffset) := rfl
      generalize x2.shared.u64 (0 + producerOffset) = pos at hwrite hpos ⊢
      by_cases hmax : pos = maxPosition
      · rw [if_pos hmax]
        refine h2.refused ⟨_, rfl⟩ (by decide) fun _ => ⟨_, h2.seen, ?_⟩
        rw [Geometry.uncachedPublish, if_pos (.inr ⟨Nat.le_of_not_gt hfits, hpos.trans hmax⟩)]
      · rw [if_neg hmax]
        have hat : Positioned c hist l event pos x2 :=
          { toProducerAt := h2
            pos_eq := hpos
            not_max := hmax
            fits := Nat.le_of_not_gt hfits
            ready := hready }
        by_cases hcache : pos - l.cachedReadPosition ≥ l.slotCount.toUInt64
        · rw [if_pos hcache]
          exact hat.refresh
        · rw [if_neg hcache]
          refine (hat.publishing ?_).publishAt h.handle.toHandleGeometry
          have hle := h2.handle.cached
          have hread := h2.inv.read_le
          have hdist := toNat_distance (r := l.cachedReadPosition) (w := pos) (by omega)
          have hlt := UInt64.lt_iff_toNat_lt.mp (UInt64.not_le.mp hcache)
          omega
  · rw [← hread, if_pos hstate]
    refine h1.refused ⟨_, rfl⟩ (by decide) fun _ => ⟨_, h1.seen, ?_⟩
    exact (if_pos (.inl hstate)).symm

end EventEngine.Ring
