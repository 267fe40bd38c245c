import EventEngine.Ring.Invariant

/-!
# The protocols of the producer and of the consumer

The relations of `Ring.Invariant` as rely-guarantee protocols, the implications between
one side's guarantee and the other side's rely, and the four kinds of stores: into the
free slot, to the producer cursor, to the consumer cursor and to the state word.
-/

namespace EventEngine.Ring

open Concurrency Memory

variable {c : Setting} {m m' m'' : Span} {hist hist' hist'' : List Event}
variable {l : SpscRing} {event : Option Event}

theorem ProducerRely.refl (c : Setting) (m : Span) (hist : List Event) :
    ProducerRely c m hist m hist where
  region := rfl
  history := rfl
  header := Span.Agree.refl m
  middle := Span.Agree.refl m
  rest _ _ := rfl
  read := Nat.le_refl _
  state := .inl rfl
  quiet _ := rfl

theorem ProducerRely.trans (h : ProducerRely c m hist m' hist')
    (h' : ProducerRely c m' hist' m'' hist'') : ProducerRely c m hist m'' hist'' where
  region := h'.region.trans h.region
  history := h'.history.trans h.history
  header := h.header.trans h'.header
  middle := h.middle.trans h'.middle
  rest a ha := (h'.rest a ha).trans (h.rest a ha)
  read := Nat.le_trans h.read h'.read
  state := by
    obtain h2 | h2 := h'.state
    · rw [h2]
      exact h.state
    · exact .inr h2
  quiet q := (h'.quiet q).trans (h.quiet q)

theorem ConsumerRely.refl (c : Setting) (m : Span) (hist : List Event) :
    ConsumerRely c m hist m hist where
  region := rfl
  history := List.prefix_rfl
  read := rfl
  write := Nat.le_refl _
  slots _ _ _ := Span.Agree.refl m
  state := .inl rfl
  quiet _ _ := rfl

theorem ConsumerRely.trans (h : ConsumerRely c m hist m' hist')
    (h' : ConsumerRely c m' hist' m'' hist'') : ConsumerRely c m hist m'' hist'' where
  region := h'.region.trans h.region
  history := h.history.trans h'.history
  read := h'.read.trans h.read
  write := Nat.le_trans h.write h'.write
  slots p hr hw := (h.slots p hr hw).trans
    (h'.slots p (by rw [readPos, h.read]; exact hr) (Nat.lt_of_lt_of_le hw h.write))
  state := by
    obtain h2 | h2 := h'.state
    · rw [h2]
      exact h.state
    · exact .inr h2
  quiet q closed := by
    have hclosed : stateOf m' = stateClosed := by
      obtain h1 | h1 := h.state
      · rw [h1, closed]
      · exact h1
    rw [h'.quiet q hclosed, h.quiet q closed]

theorem ConsumerRely.readPos_eq (h : ConsumerRely c m hist m' hist') :
    readPos m' = readPos m := by rw [readPos, readPos, h.read]

theorem ProducerGuar.refl (c : Setting) (event : Option Event) (m : Span)
    (hist : List Event) : ProducerGuar c event m hist m hist where
  region := rfl
  read := rfl
  state := rfl
  slots _ _ _ := Span.Agree.refl m
  history := .inl ⟨rfl, rfl⟩

theorem ConsumerGuar.refl (m : Span) (hist : List Event) : ConsumerGuar m hist m hist where
  region := rfl
  history := rfl
  below _ _ := rfl
  above _ _ := rfl
  read := Nat.le_refl _

/-- The producer does what the consumer relies on. -/
theorem ProducerGuar.consumerRely (h : ProducerGuar c event m hist m' hist') :
    ConsumerRely c m hist m' hist' where
  region := h.region
  history := by
    obtain ⟨-, rfl⟩ | ⟨-, ⟨e, -, rfl⟩, -⟩ := h.history
    · exact List.prefix_rfl
    · exact List.prefix_append hist [e]
  read := h.read
  write := by
    obtain ⟨hw, -⟩ | ⟨hw, -⟩ := h.history
    · rw [writePos, writePos, hw]
    · omega
  slots := h.slots
  state := .inl h.state
  quiet q closed := by
    obtain ⟨-, rfl⟩ | ⟨-, -, hready⟩ := h.history
    · rfl
    · rw [hready q] at closed
      exact absurd closed (by decide)

/-- The consumer does what the producer relies on. -/
theorem ConsumerGuar.producerRely (h : ConsumerGuar m hist m' hist') :
    ProducerRely c m hist m' hist' := by
  have hstate : stateOf m' = stateOf m :=
    Span.u32_congr (fun a _ ha => h.below a (by omega)) (Nat.le_refl 40) (Nat.le_refl 44)
  exact
    { region := h.region
      history := h.history
      header := fun a _ ha => h.below a (by omega)
      middle := fun a _ ha => h.below a ha
      rest := h.above
      read := h.read
      state := .inl hstate
      quiet := fun _ => hstate }

theorem CreatorGuar.read_eq (h : CreatorGuar m hist m' hist') :
    m'.u64 consumerOffset = m.u64 consumerOffset :=
  Span.u64_congr (fun a ha _ => h.above a (by omega)) (Nat.le_refl 128) (Nat.le_refl 136)

theorem CreatorGuar.write_eq (h : CreatorGuar m hist m' hist') :
    m'.u64 producerOffset = m.u64 producerOffset :=
  Span.u64_congr (fun a ha _ => h.above a (by omega)) (Nat.le_refl 64) (Nat.le_refl 72)

/-- Closing is what the consumer relies on. -/
theorem CreatorGuar.consumerRely (h : CreatorGuar m hist m' hist') :
    ConsumerRely c m hist m' hist' where
  region := h.region
  history := h.history ▸ List.prefix_rfl
  read := h.read_eq
  write := by rw [writePos, writePos, h.write_eq]
  slots p _ _ := fun a ha _ => h.above a (by
    have := (c.geometry.slotAt_add_stride_le p).1
    omega)
  state := .inr h.state
  quiet _ _ := h.history

/-- Closing is what the producer relies on, unless it relies on quiet closing. -/
theorem CreatorGuar.producerRely (h : CreatorGuar m hist m' hist') (loud : ¬ c.quiet) :
    ProducerRely c m hist m' hist' where
  region := h.region
  history := h.history
  header a _ ha := h.below a ha
  middle a ha _ := h.above a ha
  rest a ha := h.above a (by omega)
  read := by rw [readPos, readPos, h.read_eq]
  state := .inr h.state
  quiet q := absurd q loud

theorem ProducerRely.writePos_eq (h : ProducerRely c m hist m' hist') :
    m'.u64 producerOffset = m.u64 producerOffset :=
  Span.u64_congr h.middle (by decide) (by decide)

/-- Others leave every slot as it is while the producer works. -/
theorem ProducerRely.slot (h : ProducerRely c m hist m' hist') (p : Nat) :
    Span.Agree (c.geometry.slotAt p) (c.geometry.slotAt p + c.geometry.stride) m m' :=
  fun a ha _ => h.rest a (by
    have := (c.geometry.slotAt_add_stride_le p).1
    omega)

theorem ProducerHandle.mono (h : ProducerHandle c.geometry l m)
    (hread : readPos m ≤ readPos m') : ProducerHandle c.geometry l m' :=
  { h with cached := Nat.le_trans h.cached hread }

theorem ConsumerHandle.stable (h : ConsumerHandle c.geometry l m)
    (hrely : ConsumerRely c m hist m' hist') : ConsumerHandle c.geometry l m' :=
  { h with
    cached := Nat.le_trans h.cached hrely.write
    held := fun held => by
      obtain ⟨hpos, hlt⟩ := h.held held
      rw [hrely.readPos_eq]
      exact ⟨hpos, Nat.lt_of_lt_of_le hlt hrely.write⟩ }

/-- The producer's protocol while it publishes `event`. -/
def producerProtocol (c : Setting) (event : Option Event) : Protocol Span History where
  inv x := RingInv c x.shared x.ghost.events ∧ x.shared ∈ x.ghost.seen
  rely x y := ProducerRely c x.shared x.ghost.events y.shared y.ghost.events ∧
    x.ghost.seen ⊆ y.ghost.seen
  guar x y := ProducerGuar c event x.shared x.ghost.events y.shared y.ghost.events ∧
    y.ghost.seen ⊆ insert y.shared x.ghost.seen
  rely_trans h h' := ⟨h.1.trans h'.1, h.2.trans h'.2⟩

/-- The consumer's protocol. -/
def consumerProtocol (c : Setting) : Protocol Span History where
  inv x := RingInv c x.shared x.ghost.events ∧ x.shared ∈ x.ghost.seen
  rely x y := ConsumerRely c x.shared x.ghost.events y.shared y.ghost.events ∧
    x.ghost.seen ⊆ y.ghost.seen
  guar x y := ConsumerGuar x.shared x.ghost.events y.shared y.ghost.events ∧
    y.ghost.seen ⊆ insert y.shared x.ghost.seen
  rely_trans h h' := ⟨h.1.trans h'.1, h.2.trans h'.2⟩

section Loads

variable {ℓ α ω : Type} {P : Protocol Span History}
variable {control : ℓ → Access → World Span History → Prop}
variable {post : α → ℓ → World Span History → Prop}

/-- A load leaves the world as it is, so it only has to be possible and followed by a
safe continuation. -/
theorem safe_load {self : ℓ} {offset length : Nat}
    {next : Bytes → Process spanAccess ℓ α} {x : World Span History}
    (hrefl : ∀ y, P.inv y → P.guar y y)
    (h : ∀ y, P.inv y → P.rely x y → control self (.load offset length) y ∧
      (next (y.shared.read offset length)).Safe (@spanExec ω) P control post y) :
    (Process.step (S := spanAccess) self (.load offset length) next).Safe
      (@spanExec ω) P control post x := by
  intro y hinv hrely
  obtain ⟨hc, hs⟩ := h y hinv hrely
  exact ⟨hc, fun _ => ⟨y.ghost, hinv, hrefl y hinv, hs⟩⟩

theorem producerProtocol_guar_refl (c : Setting) (event : Option Event)
    (y : World Span History) (_ : (producerProtocol c event).inv y) :
    (producerProtocol c event).guar y y :=
  ⟨ProducerGuar.refl .., Set.subset_insert _ _⟩

theorem consumerProtocol_guar_refl (c : Setting) (y : World Span History)
    (_ : (consumerProtocol c).inv y) : (consumerProtocol c).guar y y :=
  ⟨ConsumerGuar.refl .., Set.subset_insert _ _⟩

end Loads

section Stores

/-- The bytes of the slot at the write position that a publication may change: the four
event fields, and the payload area. -/
def WritableAt (g : Geometry) (m : Span) (offset length : Nat) : Prop :=
  (g.slotAt (writePos m) ≤ offset ∧ offset + length ≤ g.slotAt (writePos m) + 24) ∨
  (g.slotAt (writePos m) + 32 ≤ offset ∧
    offset + length ≤ g.slotAt (writePos m) + 32 + g.capacity)

variable {offset : Nat} {bs : Bytes}

theorem WritableAt.inside {g : Geometry} {length : Nat} (h : WritableAt g m offset length) :
    g.slotAt (writePos m) ≤ offset ∧
      offset + length ≤ g.slotAt (writePos m) + g.stride := by
  have := g.metadata_add_capacity_le_stride
  unfold WritableAt at h
  omega

/-- The invariant moves to another memory with the same write position, if the queued
slots and the bytes written at initialization are the same there. -/
theorem RingInv.transport (hinv : RingInv c m hist) (preamble : SamePreamble m m')
    (state : stateOf m' = stateReady ∨ stateOf m' = stateClosed)
    (read : readPos m ≤ readPos m') (read_le : readPos m' ≤ writePos m)
    (write : writePos m' = writePos m)
    (slots : ∀ p, readPos m ≤ p → p < writePos m →
      Span.Agree (c.geometry.slotAt p) (c.geometry.slotAt p + c.geometry.stride) m m')
    (reserved : c.trusted → ∀ p, c.geometry.SlotReserved m' p) : RingInv c m' hist where
  formatted := hinv.formatted.congr preamble
  state := state
  start_le := Nat.le_trans hinv.start_le read
  read_le := by rw [write]; exact read_le
  write_le := by
    have := hinv.write_le
    omega
  write_eq := by rw [write]; exact hinv.write_eq
  queued := by
    intro trusted p hr hw
    rw [write] at hw
    obtain ⟨hvalid, hevent⟩ := hinv.queued trusted p (Nat.le_trans read hr) hw
    have hagree := slots p (Nat.le_trans read hr) hw
    exact ⟨(c.geometry.slotValid_congr hagree).mpr hvalid,
      by rw [c.geometry.slotEvent_congr hagree hvalid.1]; exact hevent⟩
  reserved := reserved

/-- A store into the free slot leaves the header and every other slot as they are. -/
theorem samePreamble_write (h : 192 ≤ offset) : SamePreamble m (m.write offset bs) where
  region := rfl
  fields := Span.agree_write (by omega)
  preambleReserved := Span.agree_write (by omega)
  producerReserved := Span.agree_write (by omega)
  consumerReserved := Span.agree_write (by omega)

theorem WritableAt.queued_agree (hfree : writePos m < readPos m + c.geometry.slots)
    (h : WritableAt c.geometry m offset bs.length) (p : Nat) (hr : readPos m ≤ p)
    (hw : p < writePos m) :
    Span.Agree (c.geometry.slotAt p) (c.geometry.slotAt p + c.geometry.stride) m
      (m.write offset bs) := by
  have hne := c.geometry.mod_slots_ne hw (by omega)
  have hin := h.inside
  obtain hd | hd := c.geometry.slotAt_disjoint hne
  · exact Span.agree_write (by omega)
  · exact Span.agree_write (by omega)

theorem WritableAt.reserved (h : WritableAt c.geometry m offset bs.length) (p : Nat)
    (hres : c.geometry.SlotReserved m p) :
    c.geometry.SlotReserved (m.write offset bs) p := by
  have hstride := c.geometry.metadata_add_capacity_le_stride
  by_cases hidx : p % c.geometry.slots = writePos m % c.geometry.slots
  · have hslot : c.geometry.slotAt p = c.geometry.slotAt (writePos m) := by
      rw [Geometry.slotAt, Geometry.slotAt, hidx]
    have hagree : Span.Agree (c.geometry.slotAt p + 24) (c.geometry.slotAt p + 32) m
        (m.write offset bs) := Span.agree_write (by
      unfold WritableAt at h
      omega)
    simp only [Geometry.SlotReserved, slotReservedOffset] at hres ⊢
    rw [Span.u32_congr hagree (by omega) (by omega), Span.u32_congr hagree (by omega) (by omega)]
    exact hres
  · have hin := h.inside
    have hd := c.geometry.slotAt_disjoint hidx
    refine (c.geometry.slotReserved_congr (Span.agree_write ?_)).mpr hres
    omega

/-- Storing into the free slot keeps the invariant with the same history. -/
theorem slot_store (hinv : RingInv c m hist)
    (hfree : writePos m < readPos m + c.geometry.slots)
    (h : WritableAt c.geometry m offset bs.length) :
    RingInv c (m.write offset bs) hist ∧
      ProducerGuar c event m hist (m.write offset bs) hist := by
  have hin := h.inside
  have hlow := (c.geometry.slotAt_add_stride_le (writePos m)).1
  have hread : (m.write offset bs).u64 consumerOffset = m.u64 consumerOffset :=
    Span.u64_congr (Span.agree_write (.inl (by omega : 192 ≤ offset)))
      (Nat.zero_le _) (by decide)
  have hwrite : (m.write offset bs).u64 producerOffset = m.u64 producerOffset :=
    Span.u64_congr (Span.agree_write (.inl (by omega : 192 ≤ offset)))
      (Nat.zero_le _) (by decide)
  have hstate : stateOf (m.write offset bs) = stateOf m :=
    Span.u32_congr (Span.agree_write (.inl (by omega : 192 ≤ offset)))
      (Nat.zero_le _) (by decide)
  have hr : readPos (m.write offset bs) = readPos m := congrArg UInt64.toNat hread
  have hw : writePos (m.write offset bs) = writePos m := congrArg UInt64.toNat hwrite
  refine ⟨?_, rfl, hread, hstate, h.queued_agree hfree, .inl ⟨hwrite, rfl⟩⟩
  exact hinv.transport (samePreamble_write (by omega)) (by rw [hstate]; exact hinv.state)
    (Nat.le_of_eq hr.symm) (by rw [hr]; exact hinv.read_le) hw
    (h.queued_agree hfree) (fun trusted p => h.reserved p (hinv.reserved trusted p))

/-- Storing the advanced producer cursor publishes the event in the free slot. -/
theorem publish_store {e : Event} {pos : UInt64} (hinv : RingInv c m hist)
    (hpos : m.u64 producerOffset = pos) (hmax : pos ≠ maxPosition)
    (hfree : writePos m < readPos m + c.geometry.slots)
    (hready : c.quiet → stateOf m = stateReady)
    (hevent : c.geometry.slotEvent m (writePos m) = e)
    (hlen : (m.u32 (c.geometry.slotAt (writePos m) + payloadLengthOffset)).toNat ≤
      c.geometry.capacity) :
    RingInv c (m.write producerOffset (leBytes 8 (pos + 1).toNat)) (hist ++ [e]) ∧
      ProducerGuar c (some e) m hist
        (m.write producerOffset (leBytes 8 (pos + 1).toNat)) (hist ++ [e]) := by
  generalize hm' : m.write producerOffset (leBytes 8 (pos + 1).toNat) = m'
  have hbelow : Span.Agree 0 64 m m' := hm' ▸ Span.agree_write (.inl (by decide))
  have habove : ∀ hi, Span.Agree 72 hi m m' := fun hi =>
    hm' ▸ Span.agree_write (.inr (by rw [length_leBytes]; decide))
  have hread : m'.u64 consumerOffset = m.u64 consumerOffset :=
    Span.u64_congr (habove 136) (by decide) (by decide)
  have hstate : stateOf m' = stateOf m := Span.u32_congr hbelow (by decide) (by decide)
  have hr : readPos m' = readPos m := congrArg UInt64.toNat hread
  have hsucc := toNat_add_one hmax
  have hw : writePos m' = writePos m + 1 := by
    rw [writePos, ← hm', Span.u64_write_same, hsucc, writePos, hpos]
  have hslot : ∀ p, Span.Agree (c.geometry.slotAt p)
      (c.geometry.slotAt p + c.geometry.stride) m m' := fun p =>
    (habove _).mono (by have := (c.geometry.slotAt_add_stride_le p).1; omega) (Nat.le_refl _)
  have hstart := hinv.start_le
  have hle := hinv.read_le
  have hlast := hinv.write_eq
  refine ⟨?_, by rw [← hm']; rfl, hread, hstate, fun p _ _ => hslot p,
    .inr ⟨hw, ⟨e, rfl, rfl⟩, hready⟩⟩
  exact
    { formatted := hinv.formatted.congr
        { region := by rw [← hm']; rfl
          fields := hbelow.mono (Nat.le_refl _) (by decide)
          preambleReserved := hbelow.mono (by decide) (by decide)
          producerReserved := habove 128
          consumerReserved := (habove 192).mono (by decide) (Nat.le_refl _) }
      state := by rw [hstate]; exact hinv.state
      start_le := by rw [hr]; exact hstart
      read_le := by rw [hr, hw]; omega
      write_le := by rw [hr, hw]; omega
      write_eq := by rw [hw, List.length_append, List.length_singleton]; omega
      queued := by
        intro trusted p hpr hpw
        rw [hr] at hpr
        rw [hw] at hpw
        by_cases hp : p < writePos m
        · obtain ⟨hvalid, hold⟩ := hinv.queued trusted p hpr hp
          refine ⟨(c.geometry.slotValid_congr (hslot p)).mpr hvalid, ?_⟩
          rw [c.geometry.slotEvent_congr (hslot p) hvalid.1, ← hold]
          exact List.getElem?_append_left (by omega)
        · have hp' : p = writePos m := by omega
          rw [hp']
          refine ⟨(c.geometry.slotValid_congr (hslot _)).mpr
            ⟨hlen, hinv.reserved trusted _⟩, ?_⟩
          rw [c.geometry.slotEvent_congr (hslot _) hlen, hevent]
          have hidx : writePos m - c.start = hist.length := by omega
          rw [hidx, List.getElem?_append_right (Nat.le_refl _), Nat.sub_self]
          rfl
      reserved := fun trusted p =>
        (c.geometry.slotReserved_congr (hslot p)).mpr (hinv.reserved trusted p) }

/-- Storing the advanced consumer cursor frees the slot at the read position. -/
theorem release_store {pos : UInt64} (hinv : RingInv c m hist)
    (hpos : pos.toNat = readPos m) (hlt : readPos m < writePos m) :
    RingInv c (m.write consumerOffset (leBytes 8 (pos + 1).toNat)) hist ∧
      ConsumerGuar m hist (m.write consumerOffset (leBytes 8 (pos + 1).toNat)) hist ∧
      readPos (m.write consumerOffset (leBytes 8 (pos + 1).toNat)) = readPos m + 1 ∧
      writePos (m.write consumerOffset (leBytes 8 (pos + 1).toNat)) = writePos m := by
  generalize hm' : m.write consumerOffset (leBytes 8 (pos + 1).toNat) = m'
  have hbelow : Span.Agree 0 128 m m' := hm' ▸ Span.agree_write (.inl (by decide))
  have habove : ∀ hi, Span.Agree 136 hi m m' := fun hi =>
    hm' ▸ Span.agree_write (.inr (by rw [length_leBytes]; decide))
  have hwrite : m'.u64 producerOffset = m.u64 producerOffset :=
    Span.u64_congr hbelow (by decide) (by decide)
  have hstate : stateOf m' = stateOf m := Span.u32_congr hbelow (by decide) (by decide)
  have hw : writePos m' = writePos m := congrArg UInt64.toNat hwrite
  have hbound : writePos m < 2 ^ 64 := (m.u64 producerOffset).toNat_lt
  have hr : readPos m' = readPos m + 1 := by
    rw [readPos, ← hm', Span.u64_write_same, UInt64.toNat_add, UInt64.toNat_one, hpos,
      Nat.mod_eq_of_lt (by omega)]
  have hslot : ∀ p, Span.Agree (c.geometry.slotAt p)
      (c.geometry.slotAt p + c.geometry.stride) m m' := fun p =>
    (habove _).mono (by have := (c.geometry.slotAt_add_stride_le p).1; omega) (Nat.le_refl _)
  refine ⟨?_, ⟨by rw [← hm']; rfl, rfl, fun a ha => hbelow a (Nat.zero_le _) ha,
    fun a ha => habove (a + 1) a ha (Nat.lt_succ_self a), by omega⟩, hr, hw⟩
  have hpreamble : SamePreamble m m' :=
    { region := by rw [← hm']; rfl
      fields := hbelow.mono (Nat.le_refl _) (by decide)
      preambleReserved := hbelow.mono (by decide) (by decide)
      producerReserved := hbelow.mono (by decide) (Nat.le_refl _)
      consumerReserved := habove 192 }
  exact hinv.transport hpreamble (by rw [hstate]; exact hinv.state) (by omega) (by omega) hw
    (fun p _ _ => hslot p) (fun trusted p =>
      (c.geometry.slotReserved_congr (hslot p)).mpr (hinv.reserved trusted p))

/-- Storing `Closed` changes nothing but the state word. -/
theorem close_store (hinv : RingInv c m hist) :
    RingInv c (m.write stateOffset (leBytes 4 stateClosed.toNat)) hist ∧
      CreatorGuar m hist (m.write stateOffset (leBytes 4 stateClosed.toNat)) hist := by
  generalize hm' : m.write stateOffset (leBytes 4 stateClosed.toNat) = m'
  have hbelow : Span.Agree 0 40 m m' := hm' ▸ Span.agree_write (.inl (by decide))
  have habove : ∀ hi, Span.Agree 44 hi m m' := fun hi =>
    hm' ▸ Span.agree_write (.inr (by rw [length_leBytes]; decide))
  have hstate : stateOf m' = stateClosed := by
    rw [stateOf, ← hm', Span.u32_write_same]
  have hguar : CreatorGuar m hist m' hist :=
    ⟨by rw [← hm']; rfl, rfl, fun a ha => hbelow a (Nat.zero_le _) ha,
      fun a ha => habove (a + 1) a ha (Nat.lt_succ_self a), hstate⟩
  have hr : readPos m' = readPos m := congrArg UInt64.toNat hguar.read_eq
  have hw : writePos m' = writePos m := congrArg UInt64.toNat hguar.write_eq
  have hslot : ∀ p, Span.Agree (c.geometry.slotAt p)
      (c.geometry.slotAt p + c.geometry.stride) m m' := fun p =>
    (habove _).mono (by have := (c.geometry.slotAt_add_stride_le p).1; omega) (Nat.le_refl _)
  have hpreamble : SamePreamble m m' :=
    { region := hguar.region
      fields := hbelow
      preambleReserved := habove 64
      producerReserved := (habove 128).mono (by decide) (Nat.le_refl _)
      consumerReserved := (habove 192).mono (by decide) (Nat.le_refl _) }
  refine ⟨?_, hguar⟩
  exact hinv.transport hpreamble (.inr hstate) (Nat.le_of_eq hr.symm)
    (by rw [hr]; exact hinv.read_le) hw (fun p _ _ => hslot p) (fun trusted p =>
      (c.geometry.slotReserved_congr (hslot p)).mpr (hinv.reserved trusted p))

end Stores

end EventEngine.Ring
