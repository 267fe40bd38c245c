import EventEngine.Receiver.System
import EventEngine.Ring.Drain

/-!
# What a receiver delivers

For any datagrams, errors and timeouts, and any interleaving with the consumer, the events
tried on the egress ring are those of rising packets of one session; and after `run` has
returned the consumer can take exactly the events that were published, and is then told
that the ring is closed.
-/

namespace EventEngine

open Concurrency Memory Protocol Transport EventEngine.Ring

variable {g : Geometry} {hist : List Event} {s t : ReceiverSystem} {m : Span}
variable {handle : SpscRing} {c : Setting}

namespace Ring

/-- A returned call is a publication exactly if it tried one. -/
theorem EntryOk.attempt {e : Completed} (h : EntryOk c e) :
    e.call.event = e.attempt.map Prod.fst := by
  obtain ⟨⟨hist, l, now, hpost⟩, -⟩ := h
  cases hcall : e.call with
  | tryPublish event =>
      rw [hcall] at hpost
      obtain ⟨r, hr, -⟩ := hpost
      rw [Completed.attempt, hcall, hr]
      rfl
  | tryAcquire => rw [Completed.attempt, hcall]; rfl
  | release => rw [Completed.attempt, hcall]; rfl
  | attach => rw [Completed.attempt, hcall]; rfl
  | closePublication => rw [Completed.attempt, hcall]; rfl

/-- The event of an attempt that succeeded. -/
def successful (a : Event × PublishResult) : Option Event :=
  if a.2 = .ok then some a.1 else none

theorem filterMap_successful_sublist (attempts : List (Event × PublishResult)) :
    (attempts.filterMap successful).Sublist (attempts.map Prod.fst) := by
  induction attempts with
  | nil => exact List.Sublist.refl _
  | cons a rest ih =>
      by_cases hok : a.2 = .ok
      · rw [List.filterMap_cons_some (b := a.1) (by rw [successful, if_pos hok])]
        exact ih.cons_cons _
      · rw [List.filterMap_cons_none (by rw [successful, if_neg hok])]
        exact ih.cons _

theorem Completed.published_eq (e : Completed) : e.published = e.attempt.bind successful := by
  obtain ⟨call, entry, start, reply, finish, instants, stored⟩ := e
  cases call with
  | tryPublish event =>
      cases reply with
      | publish r =>
          cases r with
          | ok => rfl
          | full => rfl
          | payloadTooLarge => rfl
          | closed => rfl
      | acquire r => rfl
      | release r => rfl
      | attach r => rfl
      | close r => rfl
  | tryAcquire => rfl
  | release => rfl
  | attach => rfl
  | closePublication => rfl

end Ring

namespace ReceiverSystem

/-- The events whose publication was tried, in order, with the one that is being tried. -/
def attempted (s : ReceiverSystem) : List Event :=
  s.egress.producer.completed.reverse.filterMap (fun e => e.call.event) ++
    (s.egress.producer.running.bind fun r => r.call.event).toList

theorem Ok.completed_attempts (h : Ok g hist s) :
    s.egress.producer.completed.reverse.filterMap (fun e => e.call.event) =
      s.history.attempts.map Prod.fst := by
  rw [history, List.map_filterMap]
  apply List.filterMap_congr
  intro e he
  exact (h.ring.producer.log e (List.mem_reverse.mp he)).attempt

/-- The published events are those whose attempt succeeded. -/
theorem publishedEvents_eq (s : ReceiverSystem) :
    s.egress.producer.publishedEvents = s.history.attempts.filterMap successful := by
  rw [history, List.filterMap_filterMap, Client.publishedEvents]
  apply List.filterMap_congr
  intro e _
  exact e.published_eq

theorem length_publishedEvents (s : ReceiverSystem) :
    s.egress.producer.publishedEvents.length = answered s.history.attempts (· == .ok) := by
  rw [publishedEvents_eq, List.length_filterMap_eq_countP, answered]
  apply List.countP_congr
  rintro ⟨event, result⟩ -
  cases result with
  | ok => rfl
  | full => rfl
  | payloadTooLarge => rfl
  | closed => rfl

/-- A thread that waits for nothing has settled its accounts. -/
theorem settled_of_not_pending {thread : Thread receiverAccess Receiver} {h : ReceiverHistory}
    (hholds : Receiver.contract.Holds thread h) (hnone : Receiver.run.pending thread = none) :
    ∃ l packets, Accounts l h packets [] := by
  obtain ⟨l, hhead | hexit | hfinal⟩ := hholds.settled hnone
  · obtain ⟨packets, acc, -⟩ := hhead
    exact ⟨l, packets, acc⟩
  · obtain ⟨packets, acc, -⟩ := hexit
    exact ⟨l, packets, acc⟩
  · obtain ⟨packets, acc, -⟩ := hfinal
    exact ⟨l, packets, acc⟩

/-- In every state, what was tried belongs to packets that the accounts know. -/
theorem Ok.accounts (h : Ok g hist s) : ∃ l packets waiting,
    Accounts l s.history packets waiting ∧
      s.attempted <+: packets.map DecodedDataView.event := by
  cases hpending : Receiver.run.pending s.thread with
  | none =>
      obtain ⟨l, packets, acc⟩ := settled_of_not_pending h.thread hpending
      refine ⟨l, packets, [], acc, ?_⟩
      have hidle : s.egress.producer.running = none := by
        by_contra hrun
        obtain ⟨r, hr⟩ := Option.ne_none_iff_exists'.mp hrun
        obtain ⟨event, resume, -, hpending'⟩ := h.producer r.call (by rw [hr]; rfl)
        rw [hpending] at hpending'
        cases hpending'
      rw [attempted, hidle, h.completed_attempts, ← acc.attempts]
      exact List.prefix_rfl
  | some pair =>
      obtain ⟨op, resume⟩ := pair
      obtain ⟨⟨l, packets, acc, -⟩, -⟩ := h.thread.resume hpending
      refine ⟨l, packets, _, acc, ?_⟩
      rw [attempted, h.completed_attempts, ← acc.attempts]
      cases hr : s.egress.producer.running with
      | none => exact List.prefix_append_right_inj _ |>.mpr List.nil_prefix
      | some r =>
          obtain ⟨event, resume', hcall, hpending'⟩ := h.producer r.call (by rw [hr]; rfl)
          rw [hpending] at hpending'
          have hop : op = .tryPublish event := congrArg Sigma.fst (Option.some.inj hpending')
          rw [Option.bind_some, hcall, hop]
          exact List.prefix_rfl

/-- What the consumer acquired was tried before. -/
theorem Ok.acquired_attempted (h : Ok g hist s) :
    s.egress.consumer.acquiredEvents.Sublist s.attempted := by
  have hpublished : hist = s.egress.producer.publishedEvents := h.ring.producerLog
  have hattempted : s.egress.producer.publishedEvents.Sublist s.attempted := by
    rw [publishedEvents_eq, attempted, h.completed_attempts]
    exact (filterMap_successful_sublist _).trans (List.sublist_append_left _ _)
  exact (hpublished ▸ h.ring.acquired_hist.sublist).trans hattempted

/-- Only the consumer moves. -/
def ConsumerMoves (_ : ReceiverSystem) (a : ReceiverAction) : Prop := ∃ b, a = .consumer b

theorem reaches_of_egress {egress : Ring.System}
    (h : Reaches Ring.System.next Ring.ConsumerOnly s.egress egress) :
    Reaches next ConsumerMoves s { s with egress } := by
  induction h with
  | refl => exact .refl
  | tail _ hstep ih =>
      obtain ⟨a, ha, hnext⟩ := hstep
      refine .tail ih ⟨.consumer a, ⟨a, rfl⟩, ?_⟩
      rw [Ring.ConsumerOnly] at ha
      simp only [next, ha, hnext]
      rfl

/-- Whatever arrives, only events of decodable packets of the first packet's session are
tried, with rising packet sequences. Once `run` has returned, an acquisition without a held
slot takes the next event or answers `Closed`; the consumer can go on to the answer `Closed`,
and then it has taken the published events, whose number is `events_out`. -/
theorem receiver_delivers (hinit : Initialized g handle m)
    (hrun : Reaches next anyAction (initial m handle) s) :
    (∃ packets : List DecodedDataView, s.attempted = packets.map DecodedDataView.event ∧
      packets.Sublist (decodable s.received) ∧
      packets.Pairwise (fun d d' => d.packetSequence < d'.packetSequence) ∧
      ∀ first, (decodable s.received).head? = some first →
        ∀ d ∈ packets, d.sessionId = first.sessionId) ∧
    ∀ l, s.thread = .returned l →
      s.egress.producer.publishedEvents.length = l.stats.eventsOut.toNat ∧
      stateOf s.egress.memory = stateClosed ∧
      (∀ e ∈ s.egress.consumer.completed, e.call = .tryAcquire → e.entry.acquired = false →
        stateOf e.start = stateClosed →
          (∃ view, e.reply = .acquire (.ok view)) ∨ e.reply = .acquire (.error .closed)) ∧
      (∀ e ∈ s.egress.consumer.completed, e.reply = .acquire (.error .closed) →
        s.egress.consumer.acquiredEvents = s.egress.producer.publishedEvents) ∧
      ∃ t, Reaches next ConsumerMoves s t ∧ t.thread = .returned l ∧
        (t.egress.consumer.completed.head?.map Completed.reply =
          some (.acquire (.error .closed))) ∧
        t.egress.consumer.acquiredEvents = s.egress.producer.publishedEvents := by
  obtain ⟨hist, hok⟩ := reaches_ok hinit hrun
  constructor
  · obtain ⟨l, packets, waiting, acc, hattempted⟩ := hok.accounts
    have htake := List.prefix_iff_eq_take.mp hattempted
    refine ⟨packets.take s.attempted.length, ?_, ?_, ?_, ?_⟩
    · rw [List.map_take]
      exact htake
    · exact (List.take_sublist _ _).trans acc.sublist
    · refine (acc.rising.sublist (List.take_sublist _ _)).imp fun hlt => ?_
      exact UInt64.lt_iff_toNat_lt.mpr hlt
    · intro first hfirst d hd
      rw [acc.session d (List.mem_of_mem_take hd), acc.first first hfirst]
  · intro l hreturned
    have hthread := hok.thread
    rw [hreturned] at hthread
    obtain ⟨packets, acc, hclosed⟩ := hthread
    have hstate := hok.closed hclosed
    refine ⟨?_, hstate, ?_, ?_, ?_⟩
    · rw [s.length_publishedEvents]
      exact acc.eventsOut.symm
    · intro e he hcall hfree hstart
      exact (hok.ring.consumer.log e he).taken_or_closed trivial hcall hfree hstart
    · intro e he hreply
      exact (hok.ring.all_taken (hok.closedFinal.drained e he hreply).1).1
    · obtain ⟨egress, halone, -, e, older, hcompleted, hreply⟩ :=
        hok.ring.drain trivial hstate
      have hreaches := reaches_of_egress halone.reaches
      refine ⟨{ s with egress }, hreaches, hreturned, ?_, ?_⟩
      · rw [hcompleted, List.head?_cons, Option.map_some, hreply]
      · obtain ⟨hist', hok'⟩ :=
          reaches_ok hinit (hrun.trans (hreaches.mono fun _ _ _ => trivial))
        have hmem : e ∈ egress.consumer.completed := by
          rw [hcompleted]
          exact List.mem_cons_self
        have hdrained := (hok'.closedFinal.drained e hmem hreply).1
        rw [(halone.ok.all_taken hdrained).1, Client.publishedEvents, Client.publishedEvents,
          halone.producer.completed]

/-- A datagram arrives and its event is published; then the receiver is stopped. -/
def sampleActions : List ReceiverAction :=
  let step := ReceiverAction.step (.ok (DecodedDataView.wire ⟨7, 1, sampleEvent⟩))
  List.replicate 11 step ++ .requestStop :: List.replicate 3 step

theorem receiver_delivers_sample :
    ∃ s t, runActions next anyAction (initial sampleMemory sampleHandle) sampleActions = some s ∧
      Reaches next ConsumerMoves s t ∧ t.egress.consumer.acquiredEvents = [sampleEvent] := by
  have hsample : (runActions next anyAction (initial sampleMemory sampleHandle)
      sampleActions).map (fun s => (s.egress.producer.publishedEvents,
        s.thread.hasReturned)) = some ([sampleEvent], true) := by
    decide +kernel
  obtain ⟨s, hs, hlog⟩ := Option.map_eq_some_iff.mp hsample
  obtain ⟨hpublished, hthread⟩ := Prod.mk.inj hlog
  obtain ⟨l, hreturned⟩ := Thread.eq_of_hasReturned hthread
  obtain ⟨-, -, -, -, t, hreaches, -, -, hacquired⟩ :=
    (receiver_delivers initialized_sample (reaches_of_runActions hs)).2 l hreturned
  exact ⟨s, t, hs, hreaches, hacquired.trans hpublished⟩

end ReceiverSystem

end EventEngine
