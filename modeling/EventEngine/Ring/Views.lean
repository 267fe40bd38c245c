import EventEngine.Ring.Accesses

/-!
# Every closed view of a ring is a ring

Under release and acquire no memory is the current one. Instead every view that is closed
under what happens before shows a ring with its invariant, and a side that learns more sees
the memory change as it relies on. Both follow from what each single access was: the
producer stores into a slot only if the consumer's cursor, as the producer sees it, has
passed what was there.
-/

namespace EventEngine.Ring

open Concurrency Memory

/-- The setting of a ring that was just initialized. -/
abbrev Setting.fresh (g : Geometry) (q : Prop) : Setting := ⟨g, 0, True, q⟩

/-- The side that stores to a byte of the ring. -/
def ringOwner (a : Nat) : Role :=
  if 40 ≤ a ∧ a < 44 then .creator
  else if 128 ≤ a ∧ a < 136 then .consumer
  else .producer

/-- What a load of each side covers, in the memory that the side sees. -/
def LoadsAs (g : Geometry) (role : Role) (m : Span) (op : Access) : Prop :=
  StateWord op ∨ ProducerWord op ∨ ConsumerWord op ∨ Immutable op ∨
    (role = .consumer ∧ g.slotAt (readPos m) ≤ op.offset ∧
      op.offset + op.length ≤ g.slotAt (readPos m) + g.stride ∧ readPos m < writePos m)

/-- What a store of each side does, in the memory that the side sees. -/
def StoresAs (g : Geometry) : Role → Span → Access → Prop
  | .producer, m, op => writePos m < readPos m + g.slots ∧
      ((ProducerWord op ∧ writePos (op.effect m) = writePos m + 1) ∨
        WritableAt g m op.offset op.length)
  | .consumer, m, op =>
      ConsumerWord op ∧ readPos m < writePos m ∧ readPos (op.effect m) = readPos m + 1
  | .creator, m, op => StateWord op ∧ stateOf (op.effect m) = stateClosed

/-- An access of a side that sees the memory `m`. -/
structure Performs (g : Geometry) (role : Role) (m : Span) (e : Performed Role) : Prop where
  order : e.order = memoryOrder role e.access
  load : e.access.isStore = false → LoadsAs g role m e.access
  store : e.access.isStore = true → StoresAs g role m e.access

/-- The events that are published where `v` happens before. -/
def eventsAt (x : SharedRegion Role) (published : List Event) (v : View Role) : List Event :=
  published.take (writePos (x.visible v))

/-- The invariant of a region that is used as a ring; `published` are the events whose cursor
store has been performed. -/
structure RegionOk (g : Geometry) (q : Prop) (x : SharedRegion Role) (published : List Event) :
    Prop where
  causal : x.Causal
  owner : x.owner = ringOwner
  performed : ∀ (role : Role) (i : Nat) (e : Performed Role), (x.log role)[i]? = some e →
    Performs g role (x.visible (e.before role)) e
  ring : ∀ v, x.Closed v → RingInv (.fresh g q) (x.visible v) (eventsAt x published v)

variable {g : Geometry} {q : Prop} {x : SharedRegion Role} {published : List Event}
variable {v w : View Role} {role : Role} {m : Span} {op : Access} {e : Performed Role}

section Bytes

/-- The bytes of a slot, and the producer cursor, are the producer's. -/
theorem ringOwner_producer {a : Nat} (h : a < 40 ∨ (44 ≤ a ∧ a < 128) ∨ 136 ≤ a) :
    ringOwner a = .producer := by
  rw [ringOwner, if_neg (by omega), if_neg (by omega)]

theorem ringOwner_consumer {a : Nat} (h : 128 ≤ a ∧ a < 136) : ringOwner a = .consumer := by
  rw [ringOwner, if_neg (by omega), if_pos h]

theorem ringOwner_creator {a : Nat} (h : 40 ≤ a ∧ a < 44) : ringOwner a = .creator := by
  rw [ringOwner, if_pos h]

theorem StateWord.owner {a : Nat} (h : StateWord op) (hlo : op.offset ≤ a)
    (hhi : a < op.offset + op.length) : ringOwner a = .creator := by
  obtain ⟨hoffset, hlength⟩ := h
  simp only [stateOffset] at hoffset
  exact ringOwner_creator (by omega)

theorem ProducerWord.owner {a : Nat} (h : ProducerWord op) (hlo : op.offset ≤ a)
    (hhi : a < op.offset + op.length) : ringOwner a = .producer := by
  obtain ⟨hoffset, hlength⟩ := h
  simp only [producerOffset] at hoffset
  exact ringOwner_producer (by omega)

theorem ConsumerWord.owner {a : Nat} (h : ConsumerWord op) (hlo : op.offset ≤ a)
    (hhi : a < op.offset + op.length) : ringOwner a = .consumer := by
  obtain ⟨hoffset, hlength⟩ := h
  simp only [consumerOffset] at hoffset
  exact ringOwner_consumer (by omega)

/-- A side stores only to its own bytes. -/
theorem StoresAs.owns (h : StoresAs g role m op) (hown : x.owner = ringOwner) :
    x.Owns role op := by
  intro a hlo hhi
  rw [hown]
  cases role with
  | producer =>
      obtain ⟨-, ⟨hword, -⟩ | hslot⟩ := h
      · exact hword.owner hlo hhi
      · have hlow := (g.slotAt_add_stride_le (writePos m)).1
        have hin := hslot.inside
        exact ringOwner_producer (by omega)
  | consumer => exact h.1.owner hlo hhi
  | creator => exact h.1.owner hlo hhi

/-- Only the two own cursors are accessed relaxed. -/
theorem owns_of_relaxed (h : memoryOrder role op = .relaxed) (hown : x.owner = ringOwner) :
    x.Owns role op := by
  intro a hlo hhi
  rw [hown]
  unfold memoryOrder at h
  split at h
  · split at h <;> cases h
  · split at h
    case isTrue hword =>
      rw [hword.owner hlo hhi]
      split at h
      · cases h
      · split at h
        case isTrue hrole => exact hrole.symm
        case isFalse => cases h
    case isFalse =>
      split at h
      case isTrue hword =>
        rw [hword.owner hlo hhi]
        split at h
        · cases h
        · split at h
          case isTrue hrole => exact hrole.symm
          case isFalse => cases h
      case isFalse => cases h

/-- Views that contain as much of a side show the same bytes of that side. -/
theorem RegionOk.agree (h : RegionOk g q x published) {lo hi : Nat} (hsame : v role = w role)
    (howner : ∀ a, lo ≤ a → a < hi → ringOwner a = role) :
    Span.Agree lo hi (x.visible v) (x.visible w) := by
  intro a hlo hhi
  refine SharedRegion.visible_bytes_congr ?_
  rw [h.owner, howner a hlo hhi]
  exact hsame.symm

theorem RegionOk.writePos_congr (h : RegionOk g q x published)
    (hsame : v .producer = w .producer) : writePos (x.visible w) = writePos (x.visible v) :=
  congrArg UInt64.toNat (Span.u64_congr
    (h.agree hsame fun _ hlo hhi => ringOwner_producer (by omega))
    (Nat.le_refl 64) (Nat.le_refl 72))

theorem RegionOk.readPos_congr (h : RegionOk g q x published)
    (hsame : v .consumer = w .consumer) : readPos (x.visible w) = readPos (x.visible v) :=
  congrArg UInt64.toNat (Span.u64_congr
    (h.agree hsame fun _ hlo hhi => ringOwner_consumer ⟨hlo, hhi⟩)
    (Nat.le_refl 128) (Nat.le_refl 136))

theorem RegionOk.stateOf_congr (h : RegionOk g q x published)
    (hsame : v .creator = w .creator) : stateOf (x.visible w) = stateOf (x.visible v) :=
  Span.u32_congr (h.agree hsame fun _ hlo hhi => ringOwner_creator ⟨hlo, hhi⟩)
    (Nat.le_refl 40) (Nat.le_refl 44)

end Bytes

section Growth

/-- What an access leaves to those who see it. -/
theorem RegionOk.visible_performed (h : RegionOk g q x published) {i : Nat}
    (he : (x.log role)[i]? = some e) :
    x.visible e.view = e.access.effect (x.visible (e.before role)) :=
  h.causal.visible_performed (fun hstore => ((h.performed role i e he).store hstore).owns h.owner)
    he

theorem Access.effect_load (hload : op.isStore = false) (m : Span) : op.effect m = m := by
  cases op with
  | load offset length => rfl
  | store offset bytes => cases hload

/-- The bytes of a slot other than the one a publication fills stay as they are. -/
theorem StoresAs.slot_agree (h : StoresAs g .producer m op) {p : Nat}
    (hlo : p < writePos m) (hhi : readPos m ≤ p) :
    Span.Agree (g.slotAt p) (g.slotAt p + g.stride) m (op.effect m) := by
  obtain ⟨hfree, hstore⟩ := h
  have hlow := (g.slotAt_add_stride_le p).1
  intro a hla hha
  refine Access.effect_bytes_outside fun _ => ?_
  obtain ⟨⟨hoffset, hlength⟩, -⟩ | hslot := hstore
  · simp only [producerOffset] at hoffset
    omega
  · have hin := hslot.inside
    obtain hd | hd := g.slotAt_disjoint (g.mod_slots_ne hlo (by omega))
    · omega
    · omega

/-- Storing into a slot leaves the producer cursor alone. -/
theorem WritableAt.writePos_eq (h : WritableAt g m op.offset op.length) :
    writePos (op.effect m) = writePos m := by
  have hin := h.inside
  have hlow := (g.slotAt_add_stride_le (writePos m)).1
  have hagree : Span.Agree 0 192 m (op.effect m) := fun a _ ha =>
    Access.effect_bytes_outside fun _ => .inl (by omega)
  exact congrArg UInt64.toNat (Span.u64_congr hagree (Nat.zero_le _) (by decide))

theorem StoresAs.writePos_le (h : StoresAs g .producer m op) :
    writePos m ≤ writePos (op.effect m) := by
  obtain ⟨-, ⟨-, hnext⟩ | hslot⟩ := h
  · omega
  · exact Nat.le_of_eq hslot.writePos_eq.symm

/-- The write position grows with what is seen of the producer. -/
theorem RegionOk.writePos_mono (h : RegionOk g q x published) (hw : x.Closed w)
    (hle : v .producer ≤ w .producer) : writePos (x.visible v) ≤ writePos (x.visible w) := by
  refine h.causal.along (t := .producer) (r := fun m m' => writePos m ≤ writePos m')
    (fun v w hsame => Nat.le_of_eq (h.writePos_congr hsame).symm) (fun _ _ _ => Nat.le_trans)
    (fun i e he _ _ => ?_) hle (hw.le _)
  rw [h.visible_performed he]
  cases hstore : e.access.isStore with
  | true => exact ((h.performed _ i e he).store hstore).writePos_le
  | false => rw [Access.effect_load hstore]

/-- The read position grows with what is seen of the consumer. -/
theorem RegionOk.readPos_mono (h : RegionOk g q x published) (hw : x.Closed w)
    (hle : v .consumer ≤ w .consumer) : readPos (x.visible v) ≤ readPos (x.visible w) := by
  refine h.causal.along (t := .consumer) (r := fun m m' => readPos m ≤ readPos m')
    (fun v w hsame => Nat.le_of_eq (h.readPos_congr hsame).symm) (fun _ _ _ => Nat.le_trans)
    (fun i e he _ _ => ?_) hle (hw.le _)
  rw [h.visible_performed he]
  cases hstore : e.access.isStore with
  | true =>
      have hnext := ((h.performed _ i e he).store hstore).2.2
      omega
  | false => rw [Access.effect_load hstore]

/-- The ring is open, or closed once and for all. -/
theorem RegionOk.state_mono (h : RegionOk g q x published) (hw : x.Closed w)
    (hle : v .creator ≤ w .creator) :
    stateOf (x.visible w) = stateOf (x.visible v) ∨ stateOf (x.visible w) = stateClosed := by
  refine h.causal.along (t := .creator)
    (r := fun m m' => stateOf m' = stateOf m ∨ stateOf m' = stateClosed)
    (fun v w hsame => .inl (h.stateOf_congr hsame)) ?_ (fun i e he _ _ => ?_) hle (hw.le _)
  · rintro m m' m'' hfirst (hsecond | hsecond)
    · rwa [hsecond]
    · exact .inr hsecond
  · rw [h.visible_performed he]
    cases hstore : e.access.isStore with
    | true => exact .inr ((h.performed _ i e he).store hstore).2
    | false => exact .inl (by rw [Access.effect_load hstore])

/-- A slot that is queued keeps its bytes, as long as the consumer does not move on. -/
theorem RegionOk.slot_agree (h : RegionOk g q x published) (hw : x.Closed w) (hle : v ≤ w)
    (hsame : v .consumer = w .consumer) {p : Nat} (hread : readPos (x.visible v) ≤ p)
    (hwrite : p < writePos (x.visible v)) :
    Span.Agree (g.slotAt p) (g.slotAt p + g.stride) (x.visible v) (x.visible w) := by
  have hlow := (g.slotAt_add_stride_le p).1
  refine h.causal.along (t := .producer)
    (r := fun m m' => Span.Agree (g.slotAt p) (g.slotAt p + g.stride) m m')
    (fun v w hsame => h.agree hsame fun _ hlo _ => ringOwner_producer (by omega))
    (fun _ _ _ => Span.Agree.trans) (fun i e he hi hlt => ?_) (hle _) (hw.le _)
  rw [h.visible_performed he]
  cases hstore : e.access.isStore with
  | true =>
      refine ((h.performed _ i e he).store hstore).slot_agree ?_ ?_
      · refine Nat.lt_of_lt_of_le hwrite (h.writePos_mono (h.causal.performed _ i e he).2.2 ?_)
        rwa [h.causal.before_self he]
      · refine Nat.le_trans ?_ hread
        rw [h.readPos_congr hsame.symm]
        refine h.readPos_mono hw ?_
        rw [SharedRegion.before_of_ne (by simp)]
        exact hw.past _ i e he hlt _
  | false =>
      rw [Access.effect_load hstore]
      exact Span.Agree.refl _

theorem RegionOk.eventsAt_prefix (h : RegionOk g q x published) (hw : x.Closed w) (hle : v ≤ w) :
    eventsAt x published v <+: eventsAt x published w :=
  List.take_prefix_take_left (h.writePos_mono hw (hle _))

theorem RegionOk.eventsAt_congr (h : RegionOk g q x published)
    (hsame : v .producer = w .producer) : eventsAt x published w = eventsAt x published v := by
  rw [eventsAt, eventsAt, h.writePos_congr hsame]

/-- What the consumer may learn is what it relies on. -/
theorem RegionOk.consumerRely (h : RegionOk g q x published) (hw : x.Closed w) (hle : v ≤ w)
    (hsame : v .consumer = w .consumer)
    (hquiet : q → stateOf (x.visible v) = stateClosed →
      eventsAt x published w = eventsAt x published v) :
    ConsumerRely (.fresh g q) (x.visible v) (eventsAt x published v) (x.visible w)
      (eventsAt x published w) where
  region := rfl
  history := h.eventsAt_prefix hw hle
  read := Span.u64_congr (h.agree hsame fun _ hlo hhi => ringOwner_consumer ⟨hlo, hhi⟩)
    (Nat.le_refl 128) (Nat.le_refl 136)
  write := h.writePos_mono hw (hle _)
  slots _ hread hwrite := h.slot_agree hw hle hsame hread hwrite
  state := h.state_mono hw (hle _)
  quiet := hquiet

/-- What the producer may learn is what it relies on. -/
theorem RegionOk.producerRely (h : RegionOk g q x published) (hw : x.Closed w) (hle : v ≤ w)
    (hsame : v .producer = w .producer)
    (hquiet : q → stateOf (x.visible w) = stateOf (x.visible v)) (hist : List Event) :
    ProducerRely (.fresh g q) (x.visible v) hist (x.visible w) hist where
  region := rfl
  history := rfl
  header := h.agree hsame fun _ _ hhi => ringOwner_producer (by omega)
  middle := h.agree hsame fun _ hlo hhi => ringOwner_producer (by omega)
  rest a ha := by
    have hagree : Span.Agree 136 (a + 1) (x.visible v) (x.visible w) :=
      h.agree hsame fun _ hlo _ => ringOwner_producer (by omega)
    exact hagree a ha (Nat.lt_succ_self a)
  read := h.readPos_mono hw (hle _)
  state := h.state_mono hw (hle _)
  quiet := hquiet

end Growth

section Races

/-- An access to slot bytes: a store of the producer into a free slot, or a load of the
consumer from a queued one. -/
structure SlotAccess (g : Geometry) (role : Role) (m : Span) (op : Access) (p : Nat) : Prop where
  lo : g.slotAt p ≤ op.offset
  hi : op.offset + op.length ≤ g.slotAt p + g.stride
  side : (role = .producer ∧ op.isStore = true ∧ p = writePos m ∧ p < readPos m + g.slots) ∨
    (role = .consumer ∧ op.isStore = false ∧ p = readPos m ∧ p < writePos m)

/-- Every access covers one atomic word, immutable bytes, or bytes of one slot. -/
theorem Performs.covers (h : Performs g role m e) :
    StateWord e.access ∨ ProducerWord e.access ∨ ConsumerWord e.access ∨
      (Immutable e.access ∧ e.access.isStore = false) ∨ ∃ p, SlotAccess g role m e.access p := by
  cases hstore : e.access.isStore with
  | false =>
      obtain hstate | hproducer | hconsumer | himm | ⟨hrole, hlo, hhi, hlt⟩ := h.load hstore
      · exact .inl hstate
      · exact .inr (.inl hproducer)
      · exact .inr (.inr (.inl hconsumer))
      · exact .inr (.inr (.inr (.inl ⟨himm, rfl⟩)))
      · exact .inr (.inr (.inr (.inr ⟨_, hlo, hhi, .inr ⟨hrole, hstore, rfl, hlt⟩⟩)))
  | true =>
      have hstores := h.store hstore
      cases role with
      | producer =>
          obtain ⟨hfree, ⟨hword, -⟩ | hslot⟩ := hstores
          · exact .inr (.inl hword)
          · obtain ⟨hlo, hhi⟩ := hslot.inside
            exact .inr (.inr (.inr (.inr ⟨_, hlo, hhi, .inl ⟨rfl, hstore, rfl, hfree⟩⟩)))
      | consumer => exact .inr (.inr (.inl hstores.1))
      | creator => exact .inl hstores.1

theorem isAtomic_of_word (h : StateWord op ∨ ProducerWord op ∨ ConsumerWord op) :
    (memoryOrder role op).isAtomic = true := by
  unfold memoryOrder
  split
  · split <;> rfl
  · split
    · split
      · rfl
      · split <;> rfl
    · split
      · split
        · rfl
        · split <;> rfl
      · obtain h | h | h := h
        all_goals contradiction

/-- The producer's store into a slot and the consumer's load from it are ordered: if the store
is for a later lap, the consumer has given the slot back before, as the producer saw; if not,
the consumer saw the publication. -/
theorem RegionOk.slots_ordered (h : RegionOk g q x published) {i j : Nat}
    {e e' : Performed Role} {p r : Nat} (he : (x.log .producer)[i]? = some e)
    (he' : (x.log .consumer)[j]? = some e')
    (hp : p = writePos (x.visible (e.before .producer)))
    (hfree : p < readPos (x.visible (e.before .producer)) + g.slots)
    (hr : r = readPos (x.visible (e'.before .consumer)))
    (hqueued : r < writePos (x.visible (e'.before .consumer)))
    (hmod : p % g.slots = r % g.slots) : i < e'.view .producer ∨ j < e.view .consumer := by
  obtain ⟨-, -, hbefore⟩ := h.causal.performed _ i e he
  obtain ⟨-, -, hbefore'⟩ := h.causal.performed _ j e' he'
  have hi := h.causal.before_self he
  have hj := h.causal.before_self he'
  have hother : e.before .producer .consumer = e.view .consumer :=
    SharedRegion.before_of_ne (by simp)
  have hother' : e'.before .consumer .producer = e'.view .producer :=
    SharedRegion.before_of_ne (by simp)
  obtain hle | hgt := Nat.lt_or_ge r p
  · -- The producer is one lap ahead at least.
    refine .inr ?_
    have hlap : r + g.slots ≤ p := by
      by_contra hlt
      exact g.mod_slots_ne hle (by omega) hmod.symm
    by_contra hnot
    have hmono := h.readPos_mono (v := e.before .producer) hbefore' (by omega)
    omega
  · refine .inl ?_
    by_contra hnot
    have hmono := h.writePos_mono (v := e'.before .consumer) hbefore (by omega)
    omega

variable {role' : Role} {m' : Span} {e' : Performed Role}

/-- An atomic word is in no conflict: whoever accesses it does so atomically. -/
theorem Performs.not_conflicts_word (h : Performs g role m e) (h' : Performs g role' m' e')
    (hword : StateWord e.access ∨ ProducerWord e.access ∨ ConsumerWord e.access) :
    ¬ e.Conflicts e' := by
  rintro ⟨⟨hlo, hhi⟩, -, hatomic⟩
  have hboth : StateWord e'.access ∨ ProducerWord e'.access ∨ ConsumerWord e'.access →
      e.access.offset = e'.access.offset → e.access.length = e'.access.length → False := by
    intro hword' hoffset hlength
    refine hatomic ⟨?_, ?_, hoffset, hlength⟩
    · rw [h.order]
      exact isAtomic_of_word hword
    · rw [h'.order]
      exact isAtomic_of_word hword'
  have hsame : (e.access.offset = e'.access.offset ∧ e.access.length = e'.access.length) ∧
      (StateWord e'.access ∨ ProducerWord e'.access ∨ ConsumerWord e'.access) := by
    obtain hs | hp | hc | ⟨himm, -⟩ | ⟨p, hslot⟩ := h'.covers
    · refine ⟨?_, .inl hs⟩
      simp only [StateWord, ProducerWord, ConsumerWord, stateOffset, producerOffset,
        consumerOffset] at hword hs
      omega
    · refine ⟨?_, .inr (.inl hp)⟩
      simp only [StateWord, ProducerWord, ConsumerWord, stateOffset, producerOffset,
        consumerOffset] at hword hp
      omega
    · refine ⟨?_, .inr (.inr hc)⟩
      simp only [StateWord, ProducerWord, ConsumerWord, stateOffset, producerOffset,
        consumerOffset] at hword hc
      omega
    · exfalso
      simp only [StateWord, ProducerWord, ConsumerWord, Immutable, stateOffset, producerOffset,
        consumerOffset] at hword himm
      omega
    · exfalso
      have hlow := (g.slotAt_add_stride_le p).1
      have hin := hslot.lo
      simp only [StateWord, ProducerWord, ConsumerWord, stateOffset, producerOffset,
        consumerOffset] at hword
      omega
  exact hboth hsame.2 hsame.1.1 hsame.1.2

/-- What is neither immutable nor in a slot is a word. -/
theorem Performs.conflict_cases (h : Performs g role m e) (h' : Performs g role' m' e')
    (hconflict : e.Conflicts e') : (Immutable e.access ∧ e.access.isStore = false) ∨
      ∃ p, SlotAccess g role m e.access p := by
  obtain hs | hp | hc | himm | hslot := h.covers
  · exact absurd hconflict (h.not_conflicts_word h' (.inl hs))
  · exact absurd hconflict (h.not_conflicts_word h' (.inr (.inl hp)))
  · exact absurd hconflict (h.not_conflicts_word h' (.inr (.inr hc)))
  · exact .inl himm
  · exact .inr hslot

/-- Conflicting accesses are accesses to one slot. -/
theorem Performs.slots_of_conflicts (h : Performs g role m e) (h' : Performs g role' m' e')
    (hconflict : e.Conflicts e') : ∃ p p', SlotAccess g role m e.access p ∧
      SlotAccess g role' m' e'.access p' ∧ p % g.slots = p' % g.slots := by
  have hlo := hconflict.overlaps.1
  have hhi := hconflict.overlaps.2
  obtain ⟨himm, hload⟩ | ⟨p, hslot⟩ := h.conflict_cases h' hconflict
  · obtain ⟨-, hload'⟩ | ⟨p', hslot'⟩ := h'.conflict_cases h hconflict.symm
    · obtain hstore | hstore := hconflict.stores
      · rw [hload] at hstore
        cases hstore
      · rw [hload'] at hstore
        cases hstore
    · have hlow := (g.slotAt_add_stride_le p').1
      have hin := hslot'.lo
      simp only [Immutable] at himm
      omega
  · obtain ⟨himm', -⟩ | ⟨p', hslot'⟩ := h'.conflict_cases h hconflict.symm
    · have hlow := (g.slotAt_add_stride_le p).1
      have hin := hslot.lo
      simp only [Immutable] at himm'
      omega
    · refine ⟨p, p', hslot, hslot', ?_⟩
      by_contra hne
      have hin := hslot.hi
      have hin' := hslot'.hi
      obtain hd | hd := g.slotAt_disjoint hne
      · have := hslot'.lo
        omega
      · have := hslot.lo
        omega

/-- No two accesses race. -/
theorem RegionOk.raceFree (h : RegionOk g q x published) : x.RaceFree := by
  intro t u i j e e' hne he he' hconflict
  obtain ⟨p, p', hslot, hslot', hmod⟩ :=
    (h.performed t i e he).slots_of_conflicts (h.performed u j e' he') hconflict
  obtain ⟨rfl, -, hp, hfree⟩ | ⟨rfl, -, hr, hqueued⟩ := hslot.side
  · obtain ⟨rfl, -⟩ | ⟨rfl, -, hr', hqueued'⟩ := hslot'.side
    · exact absurd rfl hne
    · exact h.slots_ordered he he' hp hfree hr' hqueued' hmod
  · obtain ⟨rfl, -, hp', hfree'⟩ | ⟨rfl, -⟩ := hslot'.side
    · exact (h.slots_ordered he' he hp' hfree' hr hqueued hmod.symm).symm
    · exact absurd rfl hne

end Races

section Steps

/-- Learning changes nothing for the others. -/
theorem RegionOk.learn (h : RegionOk g q x published) (hw : x.Closed w) :
    RegionOk g q (x.learn role w) published where
  causal := h.causal.learn hw
  owner := h.owner
  performed := h.performed
  ring v hv := h.ring v (SharedRegion.closed_learn_iff.mp hv)

/-- A view never shows more positions than there are events. -/
theorem RegionOk.writePos_eq (h : RegionOk g q x published) (hv : x.Closed v) :
    writePos (x.visible v) = (eventsAt x published v).length := by
  have hwrite := (h.ring v hv).write_eq
  rwa [Nat.zero_add] at hwrite

theorem RegionOk.writePos_le (h : RegionOk g q x published) (hv : x.Closed v) :
    writePos (x.visible v) ≤ published.length := by
  rw [h.writePos_eq hv]
  exact (List.take_prefix _ _).length_le

/-- In a ring with the history `hist` the positions say how much of a longer one that is. -/
theorem RingInv.take_writePos {hist all : List Event} (h : RingInv (.fresh g q) m hist)
    (hsome : hist <+: all) : all.take (writePos m) = hist := by
  have hwrite := h.write_eq
  rw [Nat.zero_add] at hwrite
  rw [hwrite]
  exact (List.prefix_iff_eq_take.mp hsome).symm

/-- The oldest queued slot holds the event of its position. -/
theorem RingInv.oldest {hist : List Event} (h : RingInv (.fresh g q) m hist)
    (hlt : readPos m < writePos m) :
    hist[readPos m]? = some ((g.slotView m (readPos m)).resolve m) := by
  obtain ⟨-, hevent⟩ := h.queued trivial (readPos m) (Nat.le_refl _) hlt
  rw [show (Setting.fresh g q).start = 0 from rfl, Nat.sub_zero, Geometry.slotEvent] at hevent
  exact hevent

/-- What is published grows at its end, and what was seen of it before stays. -/
theorem RegionOk.eventsAt_append (h : RegionOk g q x published) (hv : x.Closed v)
    (pub : List Event) :
    eventsAt (x.record role op (memoryOrder role op)) (published ++ pub) v =
      eventsAt x published v := by
  rw [eventsAt, SharedRegion.visible_record hv.le, List.take_append_of_le_length (h.writePos_le hv)]
  rfl

/-- What a side sees of its own access. -/
theorem RegionOk.memory_record (h : RegionOk g q x published)
    (hperforms : Performs g role (x.memory role) ⟨op, memoryOrder role op, x.after role⟩) :
    (x.record role op (memoryOrder role op)).memory role = op.effect (x.memory role) := by
  have hafter : x.after role role = (x.log role).length + 1 := by
    rw [SharedRegion.after_self, h.causal.own]
  have hbefore : Function.update (x.after role) role (x.log role).length = x.view role := by
    rw [← h.causal.own role]
    simp [SharedRegion.after]
  rw [SharedRegion.memory, SharedRegion.record_view_self, SharedRegion.visible_record_new
    (fun hstore => (hperforms.store hstore).owns h.owner) h.causal.closed_after hafter, hbefore]
  rfl

theorem RegionOk.memory_record_of_ne (h : RegionOk g q x published) {role' : Role}
    (hne : role' ≠ role) :
    (x.record role op (memoryOrder role op)).memory role' = x.memory role' := by
  rw [SharedRegion.memory, SharedRegion.record_view_of_ne hne,
    SharedRegion.visible_record (h.causal.closed role').le]
  rfl

/-- A side performs an access. It is enough that the access keeps the invariant in every view
that contains what the side sees; `pub` is what the access publishes. -/
theorem RegionOk.record (h : RegionOk g q x published) {pub : List Event}
    (hperforms : Performs g role (x.memory role) ⟨op, memoryOrder role op, x.after role⟩)
    (hring : ∀ w, x.Closed w → x.view role ≤ w → w role = x.view role role →
      RingInv (.fresh g q) (op.effect (x.visible w)) (eventsAt x published w ++ pub))
    (hpub : pub = [] ∨ (role = .producer ∧
      writePos (x.memory .producer) = published.length)) :
    RegionOk g q (x.record role op (memoryOrder role op)) (published ++ pub) where
  causal := h.causal.record
  owner := h.owner
  performed role' i e he := by
    obtain hold | ⟨rfl, rfl, rfl⟩ := SharedRegion.record_log_cases he
    · have hbefore := (h.causal.performed role' i e hold).2.2
      rw [SharedRegion.visible_record hbefore.le]
      exact h.performed role' i e hold
    · rw [SharedRegion.before_after, SharedRegion.visible_record (h.causal.closed role').le]
      exact hperforms
  ring v hv := by
    obtain hold | ⟨hnew, hle, hclosed⟩ := h.causal.closed_record_cases hv
    · rw [h.eventsAt_append hold, SharedRegion.visible_record hold.le]
      exact h.ring v hold
    · have howns : op.isStore = true → x.Owns role op := fun hstore =>
        (hperforms.store hstore).owns h.owner
      rw [eventsAt, SharedRegion.visible_record_new howns hv hnew]
      have hself : Function.update v role (x.log role).length role = x.view role role := by
        rw [Function.update_self, h.causal.own]
      generalize Function.update v role (x.log role).length = w at hle hclosed hself ⊢
      have hinv := hring w hclosed hle hself
      have hsome : eventsAt x published w ++ pub <+: published ++ pub := by
        obtain rfl | ⟨rfl, hall⟩ := hpub
        · rw [List.append_nil, List.append_nil]
          exact List.take_prefix _ _
        · have hsame : writePos (x.visible w) = published.length :=
            (h.writePos_congr hself.symm).trans hall
          simp only [eventsAt, hsame, List.take_length, List.prefix_rfl]
      rw [hinv.take_writePos hsome]
      exact hinv

end Steps

end EventEngine.Ring
