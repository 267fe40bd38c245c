import EventEngine.Ring.System

/-!
# The ring as a bounded FIFO queue

A run starts from a ring that `initialize` made, and every side may call whatever its role
permits, at any time. The events that the consumer obtains are a prefix of those that were
published, and every call answers as a queue without cached cursors would have answered at
some instant of the call.
-/

namespace EventEngine.Ring

open Concurrency Memory

variable {g : Geometry} {handle : SpscRing} {m : Span} {s : System}

/-- The system in which all sides use the handle that `initialize` returned. -/
def System.initial (m : Span) (handle : SpscRing) : System := .start m handle handle handle

/-- Every state reachable from a fresh ring has the invariant. -/
theorem Initialized.reaches_ok {discipline : System → Action → Prop} {q : Prop}
    (hinit : Initialized g handle m)
    (hquiet : ∀ u a, discipline u a → q → u.quietClosing a)
    (hrun : Reaches System.next discipline (System.initial m handle) s) :
    ∃ hist, System.Ok ⟨g, 0, True, q⟩ [] hist s := by
  obtain ⟨rfl, hinv, -⟩ := hinit.spec q
  have hread : readPos m = 0 := by
    have hle := hinv.read_le
    have hwrite := hinv.write_eq
    simp only [List.length_nil] at hwrite
    omega
  have hstart : System.Ok ⟨g, 0, True, q⟩ [] [] (System.initial m (g.handle true)) :=
    System.ok_start hinv (g.producerHandle true m) (g.consumerHandle true m)
      (g.handleGeometry true) hread rfl
  obtain ⟨hist, hok, -⟩ := System.reaches_ok hstart hquiet hrun
  exact ⟨hist, hok⟩

/-- The acquired events are the first ones of the history. -/
theorem System.Ok.acquired_hist {q : Prop} {hist : List Event}
    (h : System.Ok ⟨g, 0, True, q⟩ [] hist s) : s.consumer.acquiredEvents <+: hist := by
  rw [h.consumerLog.taken trivial]
  exact List.take_prefix _ _

/-- A history is never longer than the positions allow. -/
theorem System.Ok.length_lt {q : Prop} {hist : List Event}
    (h : System.Ok ⟨g, 0, True, q⟩ [] hist s) : hist.length < 2 ^ 64 := by
  have hwrite : writePos s.memory = 0 + hist.length := h.ring.write_eq
  have hlt : writePos s.memory < 2 ^ 64 := UInt64.toNat_lt _
  omega

/-- The events that were acquired are a prefix of the events whose producer-cursor store
has been executed, under every interleaving. -/
theorem acquired_prefix_published (hinit : Initialized g handle m)
    (hrun : Reaches System.next anyAction (System.initial m handle) s) :
    s.consumer.acquiredEvents <+: s.published := by
  obtain ⟨hist, hok⟩ := hinit.reaches_ok (q := False) (fun _ _ _ h => h.elim) hrun
  have hpublished : hist = s.published := hok.published
  rw [← hpublished]
  exact hok.acquired_hist

/-- The smallest ring with room for a payload byte, in memory with arbitrary contents. -/
def sampleGeometry : Geometry where
  config := ⟨2, 1⟩
  size := 320
  required := by decide

def sampleRun : Except RingError SpscRing × Unit × Span :=
  ((SpscRing.initializeRing ⟨128, 320⟩ sampleGeometry.config 1 :
    Method spanAccess Unit (Except RingError SpscRing)) ()).run (@spanExec Unit) ()
      ⟨⟨128, 320⟩, fun _ => 7⟩

def sampleHandle : SpscRing := sampleGeometry.handle true

def sampleMemory : Span := sampleRun.2.2

theorem initialized_sample : Initialized sampleGeometry sampleHandle sampleMemory := by
  refine ⟨⟨⟨128, 320⟩, fun _ => 7⟩, 1, ?_⟩
  have hok : sampleRun.1 = .ok sampleHandle := by decide +kernel
  exact Prod.ext hok rfl

def sampleEvent : Event := ⟨1, 2, 3, [9]⟩

/-- One publication, then one acquisition. -/
def sampleActions : List Action :=
  .begin .producer (.tryPublish sampleEvent) :: List.replicate 8 (.step .producer) ++
    .begin .consumer .tryAcquire :: List.replicate 10 (.step .consumer)

theorem acquired_prefix_published_sample :
    ∃ s, runActions System.next anyAction (System.initial sampleMemory sampleHandle)
        sampleActions = some s ∧
      s.consumer.acquiredEvents = [sampleEvent] ∧ s.consumer.acquiredEvents <+: s.published := by
  have hrun : (runActions System.next anyAction (System.initial sampleMemory sampleHandle)
      sampleActions).map (fun s => s.consumer.acquiredEvents) = some [sampleEvent] := by
    decide +kernel
  obtain ⟨s, hs, hacquired⟩ := Option.map_eq_some_iff.mp hrun
  exact ⟨s, hs, hacquired,
    acquired_prefix_published initialized_sample (reaches_of_runActions hs)⟩

/-- The queue in memory is what was published and not given back yet. -/
theorem System.Ok.queuedEvents {hist : List Event} {q : Prop}
    (h : System.Ok ⟨g, 0, True, q⟩ [] hist s) :
    g.queuedEvents s.memory = s.published.drop s.consumer.releases := by
  have hpublished : hist = s.published := h.published
  have hread : s.consumer.releases = readPos s.memory := h.consumerLog.releases
  have hwrite := h.ring.write_eq
  have hle := h.ring.read_le
  simp only [Nat.zero_add] at hwrite
  rw [hread, ← hpublished]
  apply List.ext_getElem
  · rw [g.length_queuedEvents, List.length_drop, hwrite]
  · intro i hi hi'
    rw [g.length_queuedEvents] at hi
    obtain ⟨-, hevent⟩ := h.ring.queued trivial (readPos s.memory + i) (Nat.le_add_right _ _)
      (by omega)
    have hidx : readPos s.memory + i < hist.length := by omega
    simp only [Nat.sub_zero, List.getElem?_eq_getElem hidx, Option.some.injEq] at hevent
    simp only [Geometry.queuedEvents, List.getElem_map, List.getElem_range, List.getElem_drop,
      hevent]

/-- Whether a call did what its caller asked for. -/
def Reply.succeeded : Reply → Bool
  | .publish .ok | .acquire (.ok _) | .release true | .attach (.ok _) | .close true => true
  | _ => false

/-- A returned call that did not succeed has stored nothing. -/
theorem EntryOk.stored_of_failed {c : Setting} {e : Completed} (h : EntryOk c e)
    (hfailed : e.reply.succeeded = false) : e.stored = false := by
  refine Bool.eq_false_iff.mpr fun hstored => ?_
  obtain ⟨⟨hist, l, now, hpost⟩, hstores⟩ := h
  have hstores := hstores hstored
  cases hcall : e.call with
  | tryAcquire =>
      rw [hcall] at hstores
      exact hstores
  | attach =>
      rw [hcall] at hpost
      rw [hpost.1] at hfailed
      cases hfailed
  | _ =>
      rw [hcall] at hstores
      rw [show e.reply = _ from hstores] at hfailed
      cases hfailed

/-- A returned `try_publish` answered as the uncached queue does. -/
theorem EntryOk.publish {c : Setting} {e : Completed} {event : Event} (h : EntryOk c e)
    (hcall : e.call = .tryPublish event) (q : c.quiet) : ∃ r, e.reply = .publish r ∧
      ∃ m' ∈ e.instants, r = c.geometry.uncachedPublish m' event := by
  obtain ⟨⟨hist, l, now, hpost⟩, -⟩ := h
  rw [hcall] at hpost
  obtain ⟨r, hr, hpub⟩ := hpost
  exact ⟨r, hr, hpub.instant q⟩

/-- A returned `try_acquire` stored nothing, and answered by whether a slot was held. -/
theorem EntryOk.acquired {c : Setting} {e : Completed} (h : EntryOk c e)
    (hcall : e.call = .tryAcquire) : ∃ r l now, e.reply = .acquire r ∧ e.stored = false ∧
      if e.entry.acquired = true then r = .error .alreadyAcquired
      else Acquired c e.start r l ⟨e.finish, ⟨now, {m | m ∈ e.instants}⟩⟩ := by
  obtain ⟨⟨hist, l, now, hpost⟩, hstores⟩ := h
  rw [hcall] at hpost hstores
  obtain ⟨r, hr, hacq⟩ := hpost
  refine ⟨r, l, now, hr, Bool.eq_false_iff.mpr hstores, ?_⟩
  split at hacq
  case isTrue hheld =>
    rw [if_pos hheld]
    exact hacq.1
  case isFalse hfree =>
    rw [if_neg hfree]
    exact hacq

/-- An answer `Empty` was given to an acquisition that began before the close. -/
theorem EntryOk.began_open {c : Setting} {e : Completed} (h : EntryOk c e)
    (hempty : e.reply = .acquire (.error .empty)) : stateOf e.start ≠ stateClosed := by
  obtain ⟨⟨hist, l, now, hpost⟩, -⟩ := h
  rw [hempty] at hpost
  cases hcall : e.call with
  | tryAcquire =>
      rw [hcall] at hpost
      obtain ⟨r, hr, hacq⟩ := hpost
      obtain rfl := Reply.acquire.inj hr
      split at hacq
      · cases hacq.1
      · exact fun hclosed => hacq.notEmpty hclosed rfl
  | tryPublish event => rw [hcall] at hpost; obtain ⟨r, hr, -⟩ := hpost; cases hr
  | release => rw [hcall] at hpost; obtain ⟨r, hr, -⟩ := hpost; cases hr
  | attach => rw [hcall] at hpost; cases hpost.1
  | closePublication => rw [hcall] at hpost; cases hpost.1

/-- What an acquisition answers that holds no slot, in a ring that was filled through the API
only. -/
theorem EntryOk.acquire_answer {c : Setting} {e : Completed} (h : EntryOk c e) (trusted : c.trusted)
    (hcall : e.call = .tryAcquire) (hfree : e.entry.acquired = false) :
    (∃ view, e.reply = .acquire (.ok view)) ∨ e.reply = .acquire (.error .empty) ∨
      e.reply = .acquire (.error .closed) := by
  obtain ⟨r, l, now, hr, -, hacq⟩ := h.acquired hcall
  rw [if_neg (by rw [hfree]; exact Bool.false_ne_true)] at hacq
  have hanswer := hacq.answer
  cases r with
  | ok view => exact .inl ⟨view, hr⟩
  | error err =>
      cases err with
      | empty => exact .inr (.inl hr)
      | closed => exact .inr (.inr hr)
      | alreadyAcquired => exact absurd rfl hacq.free
      | invalidSlot => exact absurd trusted hanswer.2

/-- A returned `release` says whether a slot was held. -/
theorem EntryOk.released {c : Setting} {e : Completed} (h : EntryOk c e)
    (hcall : e.call = .release) : e.reply = .release e.entry.acquired := by
  obtain ⟨⟨hist, l, now, hpost⟩, -⟩ := h
  rw [hcall] at hpost
  obtain ⟨r, hr, hrel⟩ := hpost
  rw [hr, hrel.result]

instance (s : System) (a : Action) : Decidable (s.quietClosing a) := by
  unfold System.quietClosing System.Publishing
  split
  · infer_instance
  · exact decidable_of_iff (s.creator.running.isNone = true) Option.isNone_iff_eq_none
  · infer_instance

/-- Every answer of a handle with cached cursors is the answer of the uncached queue at one
instant inside the call; with a slot held an acquisition answers `AlreadyAcquired`, and a release
says whether one was held. An acquisition stores nothing, and neither does any other call that
does not succeed. The queue in memory is the list of the events that are published and not given
back. -/
theorem calls_agree_with_uncached_queue (hinit : Initialized g handle m)
    (hrun : Reaches System.next System.quietClosing (System.initial m handle) s) :
    g.queuedEvents s.memory = s.published.drop s.consumer.releases ∧
    (∀ e ∈ s.producer.completed, ∀ event, e.call = .tryPublish event →
      ∃ r, e.reply = .publish r ∧ ∃ m' ∈ e.instants, r = g.uncachedPublish m' event) ∧
    (∀ e ∈ s.consumer.completed, e.call = .tryAcquire →
      ∃ r, e.reply = .acquire r ∧ r ≠ .error .invalidSlot ∧ e.stored = false ∧
        if e.entry.acquired = true then r = .error .alreadyAcquired
        else ∃ m' ∈ e.instants,
          g.uncachedAcquire m' = r.map fun view => view.resolve e.finish) ∧
    (∀ e ∈ s.consumer.completed, e.call = .release → e.reply = .release e.entry.acquired) ∧
    ∀ role, ∀ e ∈ (s.client role).completed, e.reply.succeeded = false → e.stored = false := by
  obtain ⟨hist, hok⟩ := hinit.reaches_ok (q := True) (fun _ _ h _ => h) hrun
  refine ⟨hok.queuedEvents, ?_, ?_, ?_, ?_⟩
  · intro e he event hcall
    exact (hok.producer.log e he).publish hcall trivial
  · intro e he hcall
    obtain ⟨r, l, now, hr, hstored, hanswer⟩ := (hok.consumer.log e he).acquired hcall
    refine ⟨r, hr, ?_, hstored, ?_⟩
    · rintro rfl
      split at hanswer
      · cases hanswer
      · exact hanswer.answer.2 trivial
    · split at hanswer
      case isTrue hheld =>
        rw [if_pos hheld]
        exact hanswer
      case isFalse hfree =>
        rw [if_neg hfree]
        exact hanswer.instant trivial
  · intro e he hcall
    exact (hok.consumer.log e he).released hcall
  · intro role e he hfailed
    cases role with
    | producer => exact (hok.producer.log e he).stored_of_failed hfailed
    | consumer => exact (hok.consumer.log e he).stored_of_failed hfailed
    | creator => exact (hok.creator.log e he).stored_of_failed hfailed

/-- An acquisition, another one with the slot held, and two releases. -/
def sampleCalls : List Action :=
  sampleActions ++
    [.begin .consumer .tryAcquire, .begin .consumer .release, .step .consumer,
      .begin .consumer .release]

theorem calls_agree_with_uncached_queue_sample :
    ∃ s, runActions System.next System.quietClosing (System.initial sampleMemory sampleHandle)
        sampleCalls = some s ∧
      sampleGeometry.queuedEvents s.memory = [] ∧
      (∃ e ∈ s.producer.completed, ∃ m' ∈ e.instants, e.reply = .publish .ok ∧
        sampleGeometry.uncachedPublish m' sampleEvent = .ok) ∧
      (∃ e ∈ s.consumer.completed, ∃ m' ∈ e.instants, e.acquired = some sampleEvent ∧
        sampleGeometry.uncachedAcquire m' = .ok sampleEvent) ∧
      (∃ e ∈ s.consumer.completed,
        e.reply = .acquire (.error .alreadyAcquired) ∧ e.stored = false) ∧
      ∃ e ∈ s.consumer.completed, e.reply = .release false ∧ e.stored = false := by
  have hrun : (runActions System.next System.quietClosing
      (System.initial sampleMemory sampleHandle) sampleCalls).map (fun s => decide
        (s.published.drop s.consumer.releases = [] ∧
          (s.producer.completed.map fun e => (e.call, e.reply.succeeded)) =
            [(.tryPublish sampleEvent, true)] ∧
          (s.consumer.completed.map fun e => (e.call, e.entry.acquired, e.acquired)) =
            [(.release, false, none), (.release, true, none), (.tryAcquire, true, none),
              (.tryAcquire, false, some sampleEvent)])) = some true := by
    decide +kernel
  obtain ⟨s, hs, hlog⟩ := Option.map_eq_some_iff.mp hrun
  obtain ⟨hqueue, hproducer, hconsumer⟩ := of_decide_eq_true hlog
  obtain ⟨hqueued, hpublish, hacquire, hrelease, hfailed⟩ :=
    calls_agree_with_uncached_queue initialized_sample (reaches_of_runActions hs)
  have hentry : ∀ x ∈ [(Call.release, false, none), (.release, true, none),
      (.tryAcquire, true, none), (.tryAcquire, false, some sampleEvent)],
      ∃ e ∈ s.consumer.completed, (e.call, e.entry.acquired, e.acquired) = x := by
    rw [← hconsumer]
    exact fun x hx => List.mem_map.mp hx
  refine ⟨s, hs, hqueued.trans hqueue, ?_, ?_, ?_, ?_⟩
  · obtain ⟨e, he, hcall⟩ := List.mem_map.mp (hproducer ▸ List.mem_cons_self)
    obtain ⟨hcall, hok⟩ := Prod.mk.inj hcall
    obtain ⟨r, hr, m', hm', hanswer⟩ := hpublish e he sampleEvent hcall
    rw [hr] at hok
    cases r with
    | ok => exact ⟨e, he, m', hm', hr, hanswer.symm⟩
    | _ => cases hok
  · obtain ⟨e, he, heq⟩ := hentry (.tryAcquire, false, some sampleEvent) (by simp)
    simp only [Prod.mk.injEq] at heq
    obtain ⟨hcall, hfree, hevent⟩ := heq
    obtain ⟨r, hr, -, -, hanswer⟩ := hacquire e he hcall
    rw [if_neg (by rw [hfree]; exact Bool.false_ne_true)] at hanswer
    obtain ⟨m', hm', hanswer⟩ := hanswer
    rw [Completed.acquired, hr] at hevent
    cases r with
    | error err => cases hevent
    | ok view =>
        refine ⟨e, he, m', hm', by rw [Completed.acquired, hr]; exact hevent, ?_⟩
        rw [hanswer]
        exact congrArg Except.ok (Option.some.inj hevent)
  · obtain ⟨e, he, heq⟩ := hentry (.tryAcquire, true, none) (by simp)
    simp only [Prod.mk.injEq] at heq
    obtain ⟨hcall, hheld, -⟩ := heq
    obtain ⟨r, hr, -, hstored, hanswer⟩ := hacquire e he hcall
    rw [if_pos hheld] at hanswer
    exact ⟨e, he, hanswer ▸ hr, hstored⟩
  · obtain ⟨e, he, heq⟩ := hentry (.release, false, none) (by simp)
    simp only [Prod.mk.injEq] at heq
    obtain ⟨hcall, hfree, -⟩ := heq
    have hreply := hrelease e he hcall
    rw [hfree] at hreply
    exact ⟨e, he, hreply, hfailed .consumer e he (by rw [hreply]; rfl)⟩

end EventEngine.Ring
