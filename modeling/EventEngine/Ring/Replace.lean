import EventEngine.Ring.Ownership
import EventEngine.Ring.Sequential

/-!
# Handles are replaceable

Between operations a handle may be exchanged for a freshly attached one, or moved, and no
later operation tells the difference. The parties run whole operations one after another;
two parties that differ only in cached cursors give the same answers and the same memories.
-/

namespace EventEngine.Ring

open Concurrency Memory

variable {g : Geometry} {l l' : SpscRing} {m m' : Span} {s : System}

/-- A mapping and the handle each role uses on it, between operations. -/
structure Parties where
  memory : Span
  producer : SpscRing
  consumer : SpscRing
  creator : SpscRing

/-- An operation, by the role whose handle it uses. -/
structure Operation where
  role : Role
  call : Call
  deriving DecidableEq, Repr

/-- The operations of the two roles, and closing by the creator. -/
inductive Operation.Regular : Operation → Prop where
  | publish (event : Event) : Regular ⟨.producer, .tryPublish event⟩
  | acquire : Regular ⟨.consumer, .tryAcquire⟩
  | release : Regular ⟨.consumer, .release⟩
  | close : Regular ⟨.creator, .closePublication⟩

namespace Parties

def handle (p : Parties) : Role → SpscRing
  | .producer => p.producer
  | .consumer => p.consumer
  | .creator => p.creator

/-- Let a role go on with another handle. -/
def replace (p : Parties) (handle : SpscRing) : Role → Parties
  | .producer => { p with producer := handle }
  | .consumer => { p with consumer := handle }
  | .creator => { p with creator := handle }

/-- One operation from beginning to end. -/
def perform (p : Parties) (op : Operation) : Reply × Parties :=
  let outcome := (op.call.method p.memory.toRegion (p.handle op.role)).run (@spanExec Unit) ()
    p.memory
  (outcome.1, { p with memory := outcome.2.2 }.replace outcome.2.1 op.role)

/-- The results of a sequence of operations and the memories they leave. -/
def observe (p : Parties) : List Operation → List (Reply × Span)
  | [] => []
  | op :: ops => ((p.perform op).1, (p.perform op).2.memory) :: (p.perform op).2.observe ops

end Parties

/-- The parties of a system between operations. -/
def System.parties (s : System) : Parties :=
  ⟨s.memory, s.producer.handle, s.consumer.handle, s.creator.handle⟩

/-- The cursors are at most one lap apart, and no cached cursor is ahead of a real one. -/
structure Parties.Sound (g : Geometry) (p : Parties) : Prop where
  read_le : readPos p.memory ≤ writePos p.memory
  write_le : writePos p.memory ≤ readPos p.memory + g.slots
  producer : ProducerHandle g p.producer p.memory
  consumer : ConsumerHandle g p.consumer p.memory
  creator : HandleGeometry g p.creator

/-- Parties that differ in cached cursors only. -/
structure Parties.Alike (p p' : Parties) : Prop where
  memory : p'.memory = p.memory
  acquired : p'.consumer.acquired = p.consumer.acquired
  acquiredPosition : p.consumer.acquired = true →
    p'.consumer.acquiredPosition = p.consumer.acquiredPosition
  initializer : p'.creator.initializer = p.creator.initializer

section Memory

variable {position : UInt64} {event : Event}

/-- A publication changes nothing in front of the slots but the write cursor. -/
theorem HandleGeometry.positions_published (h : HandleGeometry g l) (position : UInt64)
    (event : Event) (m : Span) :
    (l.published position event m).u64 consumerOffset = m.u64 consumerOffset ∧
      (l.published position event m).u64 producerOffset = position + 1 := by
  have hslot : 192 ≤ l.slotAddress position := by
    rw [h.slotAddress]
    exact (g.slotAt_add_stride_le _).1
  have hfilled : Span.Agree 0 192 m (SpscRing.filled (l.slotAddress position) event m) := by
    refine Span.Agree.trans (Span.Agree.trans (Span.Agree.trans (Span.Agree.trans
      (Span.agree_write ?_) (Span.agree_write ?_)) (Span.agree_write ?_))
      (Span.agree_write ?_)) (Span.agree_write ?_)
    all_goals exact .inl (Nat.le_trans hslot (Nat.le_add_right _ _))
  have hcursor : Span.Agree 128 136 (SpscRing.filled (l.slotAddress position) event m)
      (l.published position event m) :=
    Span.agree_write (.inr (by rw [length_leBytes]; decide))
  constructor
  · rw [Span.u64_congr hcursor (by decide) (by decide),
      Span.u64_congr hfilled (by decide) (by decide)]
  · exact Span.u64_write_same _ _ _

theorem HandleGeometry.published_eq (h : HandleGeometry g l) (h' : HandleGeometry g l') :
    l'.published position event m = l.published position event m := by
  rw [SpscRing.published, SpscRing.published, h.slotAddress, h'.slotAddress]

/-- Giving a slot back changes the read cursor only. -/
theorem positions_released (m : Span) (position : UInt64) :
    (m.write consumerOffset (leBytes 8 position.toNat)).u64 consumerOffset = position ∧
      (m.write consumerOffset (leBytes 8 position.toNat)).u64 producerOffset =
        m.u64 producerOffset := by
  have hagree : Span.Agree 0 128 m (m.write consumerOffset (leBytes 8 position.toNat)) :=
    Span.agree_write (.inl (by decide))
  exact ⟨Span.u64_write_same _ _ _, Span.u64_congr hagree (by decide) (by decide)⟩

/-- Closing changes no cursor. -/
theorem positions_closed (m : Span) :
    (m.write stateOffset (leBytes 4 stateClosed.toNat)).u64 consumerOffset =
        m.u64 consumerOffset ∧
      (m.write stateOffset (leBytes 4 stateClosed.toNat)).u64 producerOffset =
        m.u64 producerOffset := by
  have hagree : Span.Agree 44 136 m (m.write stateOffset (leBytes 4 stateClosed.toNat)) :=
    Span.agree_write (.inr (by rw [length_leBytes]; decide))
  exact ⟨Span.u64_congr hagree (by decide) (by decide),
    Span.u64_congr hagree (by decide) (by decide)⟩

end Memory

namespace Parties

variable {p p' : Parties} {event : Event}

/-- What an operation answers and leaves, once its method is known. -/
theorem perform_eq (role : Role) {call : Call} {reply : Reply}
    (h : (call.method p.memory.toRegion (p.handle role)).run (@spanExec Unit) () p.memory =
      (reply, l, m)) :
    p.perform ⟨role, call⟩ = (reply, { p with memory := m }.replace l role) := by
  rw [perform, h]

/-- A publication through a sound producer's handle. -/
theorem Sound.perform_publish (h : p.Sound g) (event : Event) :
    ∃ cached : UInt64, cached.toNat ≤ readPos p.memory ∧
      p.perform ⟨.producer, .tryPublish event⟩ =
        (.publish (g.uncachedPublish p.memory event),
          { p with
            memory := if g.uncachedPublish p.memory event = .ok then
                p.producer.published (p.memory.u64 producerOffset) event p.memory
              else p.memory
            producer := { p.producer with cachedReadPosition := cached } }) := by
  have hgeometry := h.producer.toHandleGeometry
  have hanswer : (p.producer.admission event.payload.length p.memory).1 =
      g.uncachedPublish p.memory event :=
    (hgeometry.admission _ h.read_le h.write_le).trans
      (cachedPublish_of_le h.producer.cached h.read_le)
  have hrun := SpscRing.tryPublish_run (w := ()) event hgeometry.header p.memory
  rw [hanswer, admit_handle] at hrun
  by_cases hrefreshes : p.producer.Refreshes event.payload.length p.memory
  · rw [if_pos hrefreshes] at hrun
    refine ⟨p.memory.u64 consumerOffset, Nat.le_refl _, perform_eq .producer ?_⟩
    exact Process.run_bind_of hrun
  · rw [if_neg hrefreshes] at hrun
    refine ⟨p.producer.cachedReadPosition, h.producer.cached, perform_eq .producer ?_⟩
    exact Process.run_bind_of hrun

/-- An acquisition through a sound consumer's handle that holds no slot. -/
theorem Sound.perform_acquire (h : p.Sound g) (hfree : p.consumer.acquired = false) :
    ∃ cached : UInt64, cached.toNat ≤ writePos p.memory ∧
      p.perform ⟨.consumer, .tryAcquire⟩ =
        (.acquire (g.acquireAnswer p.memory),
          { p with
            consumer := p.consumer.afterAcquire (p.memory.u64 consumerOffset) cached
              (g.acquireAnswer p.memory) }) := by
  have hgeometry := h.consumer.toHandleGeometry
  have hrun := SpscRing.tryAcquire_run (w := ()) hgeometry.header p.memory
  rw [hgeometry.obtain hfree h.read_le h.write_le,
    cachedAnswer_of_le h.consumer.cached h.write_le] at hrun
  have hcached : (p.consumer.refreshedWrite p.memory).toNat ≤ writePos p.memory := by
    rw [SpscRing.refreshedWrite]
    split
    · exact Nat.le_refl _
    · exact h.consumer.cached
  generalize p.consumer.refreshedWrite p.memory = cached at hrun hcached
  refine ⟨cached, hcached, ?_⟩
  generalize g.acquireAnswer p.memory = answer at hrun ⊢
  generalize p.consumer.afterAcquire (p.memory.u64 consumerOffset) cached answer = l at hrun ⊢
  exact perform_eq .consumer (Process.run_bind_of hrun)

theorem Sound.perform_acquire_held (h : p.Sound g) (hheld : p.consumer.acquired = true) :
    p.perform ⟨.consumer, .tryAcquire⟩ = (.acquire (.error .alreadyAcquired), p) := by
  have hrun := SpscRing.tryAcquire_run (w := ()) h.consumer.header p.memory
  rw [SpscRing.obtain, if_pos hheld] at hrun
  exact perform_eq .consumer (Process.run_bind_of hrun)

theorem Sound.perform_release (h : p.Sound g) :
    p.perform ⟨.consumer, .release⟩ =
      if p.consumer.acquired = true then
        (.release true,
          { p with
            memory := p.memory.write consumerOffset
              (leBytes 8 (p.consumer.acquiredPosition + 1).toNat)
            consumer := { p.consumer with acquired := false, acquiredPosition := 0 } })
      else (.release false, p) := by
  have hrun := SpscRing.release_run (w := ()) h.consumer.header p.memory
  by_cases hheld : p.consumer.acquired = true
  · rw [if_pos hheld] at hrun ⊢
    exact perform_eq .consumer (Process.run_bind_of hrun)
  · rw [if_neg hheld] at hrun ⊢
    exact perform_eq .consumer (Process.run_bind_of hrun)

theorem Sound.perform_close (h : p.Sound g) :
    p.perform ⟨.creator, .closePublication⟩ =
      if p.creator.initializer = true then
        (.close true, { p with memory := p.memory.write stateOffset (leBytes 4 stateClosed.toNat) })
      else (.close false, p) := by
  have hrun := SpscRing.closePublication_run (w := ()) h.creator.header p.memory
  by_cases hinit : p.creator.initializer = true
  · rw [if_pos hinit] at hrun ⊢
    exact perform_eq .creator (Process.run_bind_of hrun)
  · rw [if_neg hinit] at hrun ⊢
    exact perform_eq .creator (Process.run_bind_of hrun)

/-- Where the queue admits a publication the write cursor can advance. -/
theorem room_of_uncachedPublish {event : Event} (hanswer : g.uncachedPublish m event = .ok) :
    m.u64 producerOffset ≠ maxPosition ∧ writePos m - readPos m ≠ g.slots := by
  rw [Geometry.uncachedPublish, Geometry.length_queuedEvents] at hanswer
  split_ifs at hanswer with hclosed hsize hfull
  exact ⟨fun hlast => hclosed (.inr ⟨Nat.not_lt.mp hsize, hlast⟩), hfull⟩

/-- An acquisition succeeds only if an event is queued. -/
theorem queued_of_acquireAnswer (hle : readPos m ≤ writePos m)
    (hanswer : (g.acquireAnswer m).isOk = true) : readPos m < writePos m := by
  by_contra hempty
  have heq : readPos m = writePos m := by omega
  rw [Geometry.acquireAnswer, if_pos heq] at hanswer
  cases hanswer

/-- The cursors stay and the producer may have refreshed its cache. -/
theorem Sound.of_positions (h : p.Sound g) (hr : readPos m = readPos p.memory)
    (hw : writePos m = writePos p.memory) : Sound g { p with memory := m } where
  read_le := by
    rw [hr, hw]
    exact h.read_le
  write_le := by
    rw [hr, hw]
    exact h.write_le
  producer :=
    { h.producer with
      cached := by
        rw [hr]
        exact h.producer.cached }
  consumer :=
    { h.consumer with
      cached := by
        rw [hw]
        exact h.consumer.cached
      held := by
        rw [hr, hw]
        exact h.consumer.held }
  creator := h.creator

/-- The write cursor advances into a free slot. -/
theorem Sound.of_published (h : p.Sound g) (hroom : writePos p.memory - readPos p.memory ≠ g.slots)
    (hr : readPos m = readPos p.memory) (hw : writePos m = writePos p.memory + 1) :
    Sound g { p with memory := m } where
  read_le := by
    rw [hr, hw]
    exact Nat.le_succ_of_le h.read_le
  write_le := by
    have := h.read_le
    have := h.write_le
    rw [hr, hw]
    omega
  producer :=
    { h.producer with
      cached := by
        rw [hr]
        exact h.producer.cached }
  consumer :=
    { h.consumer with
      cached := by
        rw [hw]
        exact Nat.le_succ_of_le h.consumer.cached
      held := by
        intro hacquired
        obtain ⟨hposition, hlt⟩ := h.consumer.held hacquired
        rw [hr, hw]
        exact ⟨hposition, Nat.lt_succ_of_lt hlt⟩ }
  creator := h.creator

/-- The slot at the read cursor is given back. -/
theorem Sound.of_released (h : p.Sound g) (hqueued : readPos p.memory < writePos p.memory)
    (hr : readPos m = readPos p.memory + 1) (hw : writePos m = writePos p.memory) :
    Sound g { p with
      memory := m
      consumer := { p.consumer with acquired := false, acquiredPosition := 0 } } where
  read_le := by
    rw [hr, hw]
    exact hqueued
  write_le := by
    have := h.write_le
    rw [hr, hw]
    omega
  producer :=
    { h.producer with
      cached := by
        rw [hr]
        exact Nat.le_succ_of_le h.producer.cached }
  consumer :=
    { h.consumer with
      cached := by
        rw [hw]
        exact h.consumer.cached
      held := fun hacquired => by cases hacquired }
  creator := h.creator

/-- The producer refreshes its cache. -/
theorem Sound.with_cachedRead (h : p.Sound g) {cached : UInt64}
    (hcached : cached.toNat ≤ readPos p.memory) :
    Sound g { p with producer := { p.producer with cachedReadPosition := cached } } :=
  { h with producer := { h.producer with cached := hcached } }

/-- The consumer refreshes its cache and may now hold the slot at the read cursor. -/
theorem Sound.with_acquired (h : p.Sound g) {cached : UInt64}
    (hcached : cached.toNat ≤ writePos p.memory) :
    Sound g { p with
      consumer := p.consumer.afterAcquire (p.memory.u64 consumerOffset) cached
        (g.acquireAnswer p.memory) } := by
  rw [SpscRing.afterAcquire]
  by_cases hok : (g.acquireAnswer p.memory).isOk = true
  · rw [if_pos hok]
    exact
      { h with
        consumer :=
          { h.consumer with
            cached := hcached
            held := fun _ => ⟨rfl, queued_of_acquireAnswer h.read_le hok⟩ } }
  · rw [if_neg hok]
    exact { h with consumer := { h.consumer with cached := hcached } }

/-- Every regular operation keeps the parties sound. -/
theorem Sound.perform {op : Operation} (h : p.Sound g) (hop : op.Regular) :
    (p.perform op).2.Sound g := by
  cases hop with
  | publish event =>
      obtain ⟨cached, hcached, hperform⟩ := h.perform_publish event
      rw [hperform]
      by_cases hok : g.uncachedPublish p.memory event = .ok
      · obtain ⟨hlast, hroom⟩ := room_of_uncachedPublish hok
        obtain ⟨hsame, hnext⟩ := h.producer.toHandleGeometry.positions_published
          (p.memory.u64 producerOffset) event p.memory
        simp only [if_pos hok]
        generalize p.producer.published _ event p.memory = m' at hsame hnext ⊢
        have hr : readPos m' = readPos p.memory := congrArg UInt64.toNat hsame
        have hw : writePos m' = writePos p.memory + 1 := by
          rw [writePos, hnext, toNat_add_one hlast, writePos]
        rw [← hr] at hcached
        exact (h.of_published hroom hr hw).with_cachedRead hcached
      · simp only [if_neg hok]
        exact h.with_cachedRead hcached
  | acquire =>
      by_cases hheld : p.consumer.acquired = true
      · rw [h.perform_acquire_held hheld]
        exact h
      · obtain ⟨cached, hcached, hperform⟩ :=
          h.perform_acquire (Bool.eq_false_iff.mpr hheld)
        rw [hperform]
        exact h.with_acquired hcached
  | release =>
      rw [h.perform_release]
      by_cases hheld : p.consumer.acquired = true
      · obtain ⟨hposition, hqueued⟩ := h.consumer.held hheld
        have hlast : p.consumer.acquiredPosition ≠ maxPosition := by
          intro hmax
          have hlt := (p.memory.u64 producerOffset).toNat_lt
          rw [hmax, show maxPosition.toNat = 2 ^ 64 - 1 from rfl] at hposition
          rw [← hposition, writePos] at hqueued
          omega
        obtain ⟨hread, hwrite⟩ :=
          positions_released p.memory (p.consumer.acquiredPosition + 1)
        rw [if_pos hheld]
        refine h.of_released hqueued ?_ (congrArg UInt64.toNat hwrite)
        rw [readPos, hread, toNat_add_one hlast, hposition]
      · rw [if_neg hheld]
        exact h
  | close =>
      rw [h.perform_close]
      by_cases hinit : p.creator.initializer = true
      · obtain ⟨hread, hwrite⟩ := positions_closed p.memory
        rw [if_pos hinit]
        exact h.of_positions (congrArg UInt64.toNat hread) (congrArg UInt64.toNat hwrite)
      · rw [if_neg hinit]
        exact h

/-- Parties that differ in cached cursors only answer alike and stay alike. -/
theorem Alike.perform {op : Operation} (h : p.Alike p') (hp : p.Sound g) (hp' : p'.Sound g)
    (hop : op.Regular) :
    (p'.perform op).1 = (p.perform op).1 ∧ (p.perform op).2.Alike (p'.perform op).2 := by
  have hmemory := h.memory
  cases hop with
  | publish event =>
      obtain ⟨cached, -, hperform⟩ := hp.perform_publish event
      obtain ⟨cached', -, hperform'⟩ := hp'.perform_publish event
      rw [hperform, hperform', hmemory]
      refine ⟨rfl, ?_, h.acquired, h.acquiredPosition, h.initializer⟩
      simp only [hp.producer.published_eq hp'.producer.toHandleGeometry]
  | acquire =>
      by_cases hheld : p.consumer.acquired = true
      · rw [hp.perform_acquire_held hheld, hp'.perform_acquire_held (h.acquired.trans hheld)]
        exact ⟨rfl, h⟩
      · have hfree := Bool.eq_false_iff.mpr hheld
        obtain ⟨cached, -, hperform⟩ := hp.perform_acquire hfree
        obtain ⟨cached', -, hperform'⟩ := hp'.perform_acquire (h.acquired.trans hfree)
        rw [hperform, hperform', hmemory]
        refine ⟨rfl, ?_⟩
        by_cases hok : (g.acquireAnswer p.memory).isOk = true
        · simp only [SpscRing.afterAcquire, if_pos hok]
          exact ⟨rfl, rfl, fun _ => rfl, h.initializer⟩
        · simp only [SpscRing.afterAcquire, if_neg hok]
          exact ⟨rfl, h.acquired, h.acquiredPosition, h.initializer⟩
  | release =>
      rw [hp.perform_release, hp'.perform_release, h.acquired, hmemory]
      by_cases hheld : p.consumer.acquired = true
      · rw [if_pos hheld, if_pos hheld, h.acquiredPosition hheld]
        exact ⟨rfl, rfl, rfl, fun _ => rfl, h.initializer⟩
      · rw [if_neg hheld, if_neg hheld]
        exact ⟨rfl, h⟩
  | close =>
      rw [hp.perform_close, hp'.perform_close, h.initializer, hmemory]
      by_cases hinit : p.creator.initializer = true
      · rw [if_pos hinit, if_pos hinit]
        exact ⟨rfl, rfl, h.acquired, h.acquiredPosition, h.initializer⟩
      · rw [if_neg hinit, if_neg hinit]
        exact ⟨rfl, h⟩

/-- So do whole sequences of operations. -/
theorem Alike.observe (h : p.Alike p') (hp : p.Sound g) (hp' : p'.Sound g)
    {ops : List Operation} (hops : ∀ op ∈ ops, op.Regular) : p'.observe ops = p.observe ops := by
  induction ops generalizing p p' with
  | nil => rfl
  | cons op ops ih =>
      obtain ⟨hop, hrest⟩ := List.forall_mem_cons.mp hops
      obtain ⟨hreply, hnext⟩ := h.perform hp hp' hop
      rw [Parties.observe, Parties.observe, hreply, hnext.memory,
        ih hnext (hp.perform hop) (hp'.perform hop) hrest]

end Parties

/-- `attach` on a ring with the invariant, without interference. -/
theorem RingInv.attach_run {c : Setting} {hist : List Event} (h : RingInv c m hist)
    (l : SpscRing) :
    ((SpscRing.attach m.toRegion : Method spanAccess SpscRing (Except RingError SpscRing)) l).run
      (@spanExec Unit) () m = (.ok (c.geometry.handle false), l, m) := by
  obtain ⟨ghost, -, hreach, hresult, hself⟩ := (attach_safe (c := c) (l := l)
    (x := ⟨m, ⟨hist, {m}⟩⟩) h.formatted.memory h.formatted.size).run
    ⟨h, Set.mem_singleton m⟩ (fun _ => Set.Subset.refl _) ()
  -- Every guarantee of an observer leaves the memory as it is.
  have hmemory : ∀ {x y : World Span History},
      Relation.ReflTransGen (observerProtocol c).guar x y → y.shared = x.shared := by
    intro x y hguar
    induction hguar with
    | refl => rfl
    | tail _ hstep ih => exact hstep.1.1.trans ih
  exact Prod.ext hresult (Prod.ext hself (hmemory hreach))

theorem System.Ok.sound {c : Setting} {base hist : List Event} (h : System.Ok c base hist s) :
    s.parties.Sound c.geometry where
  read_le := h.ring.read_le
  write_le := h.ring.write_le
  producer := h.producer.handle h.ring
  consumer := h.consumer.handle h.ring
  creator := h.creator.handle h.ring

/-- Going on with an attached handle keeps the parties sound and changes cached cursors
only. -/
theorem Parties.Sound.replace_attached {p : Parties} (h : p.Sound g) {role : Role}
    (hrole : role ≠ .creator) (hfree : role = .consumer → p.consumer.acquired = false) :
    (p.replace (g.handle false) role).Sound g ∧ p.Alike (p.replace (g.handle false) role) := by
  cases role with
  | producer =>
      constructor
      · exact { h with producer := g.producerHandle false p.memory }
      · exact ⟨rfl, rfl, fun _ => rfl, rfl⟩
  | consumer =>
      constructor
      · exact { h with consumer := g.consumerHandle false p.memory }
      · refine ⟨rfl, (hfree rfl).symm, fun hheld => ?_, rfl⟩
        rw [hfree rfl] at hheld
        cases hheld
  | creator => exact absurd rfl hrole

/-- A handle whose contents were moved out does nothing. -/
theorem movedFrom_inert (l : SpscRing) (m : Span) (event : Event) :
    (SpscRing.tryPublish event (SpscRing.move l).2).run (@spanExec Unit) () m =
        (.closed, (SpscRing.move l).2, m) ∧
      (SpscRing.tryAcquire (SpscRing.move l).2).run (@spanExec Unit) () m =
        (.error .closed, (SpscRing.move l).2, m) ∧
      (SpscRing.release (SpscRing.move l).2).run (@spanExec Unit) () m =
        (false, (SpscRing.move l).2, m) ∧
      (SpscRing.closePublication (SpscRing.move l).2).run (@spanExec Unit) () m =
        (false, (SpscRing.move l).2, m) :=
  ⟨rfl, rfl, rfl, rfl⟩

theorem Parties.replace_self (p : Parties) (role : Role) : p.replace (p.handle role) role = p := by
  cases role with
  | producer => rfl
  | consumer => rfl
  | creator => rfl

/-- From any state that is reachable from `initialize`, a fresh handle can be attached and
nobody notices if the producer, or a consumer without a slot, goes on with it; a moved
handle goes on for the one it was moved from, which is inert. -/
theorem handles_replaceable {handle : SpscRing} (hinit : Initialized g handle m)
    (hrun : Reaches System.next anyAction (System.initial m handle) s) :
    (∃ fresh : SpscRing,
      (∀ l, ((SpscRing.attach s.memory.toRegion :
        Method spanAccess SpscRing (Except RingError SpscRing)) l).run (@spanExec Unit) ()
          s.memory = (.ok fresh, l, s.memory)) ∧
      fresh.slotCount = handle.slotCount ∧ fresh.slotStride = handle.slotStride ∧
      fresh.slotPayloadCapacity = handle.slotPayloadCapacity ∧
      ∀ role, role ≠ .creator →
        (role = .consumer → s.consumer.handle.acquired = false) →
        ∀ ops : List Operation, (∀ op ∈ ops, op.Regular) →
          (s.parties.replace fresh role).observe ops = s.parties.observe ops) ∧
    (∀ role ops, (s.parties.replace (SpscRing.move (s.parties.handle role)).1 role).observe ops =
      s.parties.observe ops) ∧
    ∀ l m' event,
      (SpscRing.tryPublish event (SpscRing.move l).2).run (@spanExec Unit) () m' =
        (.closed, (SpscRing.move l).2, m') ∧
      (SpscRing.tryAcquire (SpscRing.move l).2).run (@spanExec Unit) () m' =
        (.error .closed, (SpscRing.move l).2, m') ∧
      (SpscRing.release (SpscRing.move l).2).run (@spanExec Unit) () m' =
        (false, (SpscRing.move l).2, m') ∧
      (SpscRing.closePublication (SpscRing.move l).2).run (@spanExec Unit) () m' =
        (false, (SpscRing.move l).2, m') := by
  obtain ⟨hhandle, -, -⟩ := hinit.spec False
  obtain ⟨hist, hok⟩ := hinit.reaches_ok (q := False) (fun _ _ _ q => q.elim) hrun
  refine ⟨⟨g.handle false, hok.ring.attach_run, ?_, ?_, ?_, ?_⟩, ?_, movedFrom_inert⟩
  · rw [hhandle]
    rfl
  · rw [hhandle]
    rfl
  · rw [hhandle]
    rfl
  · intro role hrole hfree ops hops
    obtain ⟨hsound, halike⟩ := hok.sound.replace_attached hrole hfree
    exact halike.observe hok.sound hsound hops
  · intro role ops
    exact congrArg (fun p => Parties.observe p ops) (s.parties.replace_self role)

/-- After one publication and an acquisition that holds the slot, the producer's handle is
replaced. -/
theorem handles_replaceable_sample :
    ∃ s, runActions System.next anyAction (System.initial sampleMemory sampleHandle)
        sampleActions = some s ∧ s.consumer.handle.acquired = true ∧
      ∃ fresh : SpscRing, fresh.slotCount = sampleHandle.slotCount ∧
        (s.parties.replace fresh .producer).observe
            [⟨.consumer, .release⟩, ⟨.producer, .tryPublish ⟨1, 2, 3, []⟩⟩] =
          s.parties.observe [⟨.consumer, .release⟩, ⟨.producer, .tryPublish ⟨1, 2, 3, []⟩⟩] := by
  have hacquired : (runActions System.next anyAction (System.initial sampleMemory sampleHandle)
      sampleActions).map (fun s => s.consumer.handle.acquired) = some true := by
    decide +kernel
  obtain ⟨s, hs, hheld⟩ := Option.map_eq_some_iff.mp hacquired
  obtain ⟨⟨fresh, -, hcount, -, -, hobserve⟩, -⟩ :=
    handles_replaceable initialized_sample (reaches_of_runActions hs)
  refine ⟨s, hs, hheld, fresh, hcount, ?_⟩
  refine hobserve .producer (by decide) (fun h => by cases h) _ ?_
  intro op hop
  obtain rfl | hop := List.mem_cons.mp hop
  · exact .release
  · obtain rfl := List.mem_singleton.mp hop
    exact .publish _

end EventEngine.Ring
