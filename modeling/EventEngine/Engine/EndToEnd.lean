import EventEngine.Engine.System
import Mathlib.Data.List.Sort

/-!
# From the producer to the consumers of the egress rings

A receiver that locked on to the sender's session tries events of packets whose sequences
rise, and all of them are packets of the sender, which numbers them consecutively. So the
packets of the receiver are a sublist of the sender's, and the counters of the two sides add
up.
-/

namespace EventEngine

open Concurrency Memory Protocol Transport EventEngine.Ring

namespace Engine

open scoped List

variable {g : Geometry} {start : Sender} {before : Nat} {hist : List Event} {s : Engine}
variable {ingress : Ring.System} {receivers : List ReceiverSystem} {r : ReceiverSystem}
variable {m : Span} {handle : SpscRing}

/-- Of two lists on which a number rises, one is a sublist of the other if it is a subset. -/
theorem sublist_of_rising {α : Type} {f : α → Nat} {l l' : List α} (hsubset : l ⊆ l')
    (hl : l.Pairwise fun a b => f a < f b) (hl' : l'.Pairwise fun a b => f a < f b) :
    l.Sublist l' := by
  have : Std.Antisymm fun a b : α => f a < f b := ⟨fun a b h h' => absurd h (lt_asymm h')⟩
  have hnodup : l.Nodup := hl.imp fun {a b} hlt heq => by
    rw [heq] at hlt
    exact lt_irrefl _ hlt
  exact List.sublist_of_subperm_of_pairwise (List.subperm_of_subset hnodup hsubset) hl hl'

/-- The packets of the sender's session that a receiver got are packets of the sender. -/
theorem Sourced.mem_packets {l : SenderFrame} {h : SenderHistory} {used failed : Nat}
    {unsent : List (Bytes × UdpAddress)} {d : DecodedDataView}
    (hsourced : Sourced start.sessionId h.attempts r)
    (sent : Sent start l h unsent used failed) (hd : d ∈ decodable r.received)
    (hsession : d.sessionId = start.sessionId) :
    d ∈ (start.packets h.acquired).map Prod.fst := by
  obtain ⟨⟨datagram, destination⟩, hmem, hwire⟩ := List.mem_map.mp (hsourced d hd hsession)
  have hsends : (datagram, destination) ∈ start.sends h.acquired := by
    rw [← sent.attempts]
    exact List.mem_append_left _ hmem
  obtain ⟨packet, hpacket, hdestination⟩ := List.mem_flatMap.mp hsends
  obtain ⟨_, -, heq⟩ := List.mem_map.mp hdestination
  obtain ⟨-, hencoded⟩ := mem_numbered hpacket
  obtain ⟨hwf, -, hdatagram⟩ := encoded_eq_some_iff.mp hencoded
  have hsame : d.wire = packet.1.wire := by
    rw [← hdatagram, ← hwire]
    exact (congrArg Prod.fst heq).symm
  have hdecode := decodeData_eq_ok_iff.mpr ⟨decodable_wellFormed hd, rfl⟩
  rw [hsame, decodeData_eq_ok_iff.mpr ⟨hwf, rfl⟩] at hdecode
  rw [← Except.ok.inj hdecode]
  exact List.mem_map_of_mem hpacket

/-- The packets of a sender rise. -/
theorem packets_rising {events : List Event}
    (hbound : start.packetSequence.toNat + (start.packets events).length ≤ 2 ^ 64) :
    ((start.packets events).map Prod.fst).Pairwise fun d d' =>
      d.packetSequence.toNat < d'.packetSequence.toNat := by
  have hrange := @List.pairwise_lt_range' start.packetSequence.toNat
    (start.packets events).length 1 Nat.one_pos
  rw [← SenderSystem.packets_sequences hbound] at hrange
  exact List.pairwise_map.mpr (List.pairwise_map.mp hrange)

theorem packets_events {events : List Event} :
    (((start.packets events).map Prod.fst).map DecodedDataView.event).Sublist events := by
  rw [List.map_map]
  exact numbered_events

/-- The packets whose events a receiver tries are all of the first packet's session. -/
theorem session_of_first {l : Receiver} {h : ReceiverHistory} {packets : List DecodedDataView}
    {waiting : List Event} {session : UInt32} {d : DecodedDataView}
    (acc : Accounts l h packets waiting)
    (hfirst : ∀ first, (decodable h.received).head? = some first → first.sessionId = session)
    (hd : d ∈ decodable h.received) : l.gapDetector.activeSession = session := by
  obtain ⟨first, rest, hcons⟩ := List.exists_cons_of_ne_nil (List.ne_nil_of_mem hd)
  have hhead : (decodable h.received).head? = some first := by rw [hcons]; rfl
  exact (acc.first first hhead).symm.trans (hfirst first hhead)

/-- The packets whose events a receiver tries are packets of the sender, in its order. -/
theorem Sourced.packets_sublist {l : SenderFrame} {h : SenderHistory} {used failed : Nat}
    {unsent : List (Bytes × UdpAddress)} {k : Receiver} {packets : List DecodedDataView}
    {waiting : List Event} (hsourced : Sourced start.sessionId h.attempts r)
    (sent : Sent start l h unsent used failed) (hused : used ≤ 1)
    (acc : Accounts k r.history packets waiting)
    (hfirst : ∀ first, (decodable r.received).head? = some first →
      first.sessionId = start.sessionId) :
    packets.Sublist ((start.packets h.acquired).map Prod.fst) := by
  refine sublist_of_rising ?_ acc.rising (packets_rising (sent.bound hused))
  intro d hd
  have hmem : d ∈ decodable r.received := acc.sublist.subset hd
  exact hsourced.mem_packets sent hmem
    ((acc.session d hd).trans (session_of_first acc hfirst hmem))

/-- At most once, in order: whatever the network, the sends and the consumers do, the events
acquired from the egress ring are a sublist of the published ones. -/
theorem end_to_end_fifo (hlimit : start.maxDatagramBytes.toNat ≤ maxPacketBytes)
    (hinit : Initialized g handle m)
    (hring : Reaches Ring.System.next anyAction (Ring.System.initial m handle) ingress)
    (hidle : ingress.consumer.running = none) (hreceivers : Started receivers)
    (hrun : Reaches next (Unforged start.sessionId) (initial start ingress receivers) s)
    (hr : r ∈ s.receivers)
    (hfirst : ∀ first, (decodable r.received).head? = some first →
      first.sessionId = start.sessionId) :
    r.egress.consumer.acquiredEvents.Sublist s.sender.ingress.producer.publishedEvents := by
  obtain ⟨hist0, hring0⟩ := hinit.reaches_ok (q := False) (fun _ _ _ h => h.elim) hring
  obtain ⟨hist, hok, -⟩ := reaches_ok hlimit (initial_ok hlimit hring0 hidle hreceivers) hrun
  obtain ⟨⟨g', egress, hreceiver⟩, hsourced⟩ := hok.receivers r hr
  obtain ⟨l, unsent, used, failed, stopped, sent, -, hused⟩ := hok.sender.sent
  obtain ⟨k, packets, waiting, acc, hattempted⟩ := hreceiver.accounts
  -- Acquired, published and tried events of the egress ring.
  have hegress : egress = r.egress.producer.publishedEvents := hreceiver.ring.producerLog
  have hacquired : r.egress.consumer.acquiredEvents.Sublist r.egress.producer.publishedEvents :=
    hegress ▸ hreceiver.ring.acquired_hist.sublist
  have hpublished : r.egress.producer.publishedEvents.Sublist r.attempted := by
    rw [ReceiverSystem.publishedEvents_eq, ReceiverSystem.attempted,
      hreceiver.completed_attempts]
    exact (filterMap_successful_sublist _).trans (List.sublist_append_left _ _)
  have hpackets := Sourced.packets_sublist (h := s.sender.history _ stopped) hsourced sent hused
    acc hfirst
  -- The events of the sender's packets are acquired from the ingress ring.
  have hingress : hist = s.sender.ingress.producer.publishedEvents := hok.sender.ring.producerLog
  have hsource :
      (s.sender.history ingress.consumer.acquiredEvents.length stopped).acquired.Sublist hist :=
    (List.drop_sublist _ _).trans hok.sender.ring.acquired_hist.sublist
  calc r.egress.consumer.acquiredEvents
      <+ r.egress.producer.publishedEvents := hacquired
    _ <+ r.attempted := hpublished
    _ <+ packets.map DecodedDataView.event := hattempted.sublist
    _ <+ ((start.packets (s.sender.history _ stopped).acquired).map Prod.fst).map
        DecodedDataView.event := hpackets.map _
    _ <+ (s.sender.history _ stopped).acquired := packets_events
    _ <+ hist := hsource
    _ = s.sender.ingress.producer.publishedEvents := hingress

instance (session : UInt32) (s : Engine) (a : EngineAction) : Decidable (Unforged session s a) :=
  match a with
  | .receiver _ (.step (.ok datagram)) =>
      inferInstanceAs (Decidable (∀ d ∈ (decodeData datagram).toOption,
        d.sessionId = session → datagram ∈ s.sender.attempts.map Prod.fst))
  | .receiver _ (.step (.error _)) => .isTrue trivial
  | .receiver _ .requestStop => .isTrue trivial
  | .receiver _ (.consumer _) => .isTrue trivial
  | .sender _ => .isTrue trivial

/-- A fresh sender with one destination. -/
def sampleSender : Sender := ⟨44, [⟨0x7f000001, 9000⟩], 7, 1, {}⟩

def sampleStart : Engine :=
  initial sampleSender (Ring.System.initial sampleMemory sampleHandle)
    [ReceiverSystem.initial sampleMemory sampleHandle]

/-- An event is published and sent, its datagram arrives twice, and the consumer acquires. -/
def sampleActions : List EngineAction :=
  .sender (.ingress (.begin .producer (.tryPublish sampleEvent))) ::
    List.replicate 8 (.sender (.ingress (.step .producer))) ++
    .sender .run :: List.replicate 16 (.sender (.step true)) ++
    List.replicate 13 (.receiver 0 (.step (.ok (DecodedDataView.wire ⟨7, 1, sampleEvent⟩)))) ++
    .receiver 0 (.consumer (.begin .consumer .tryAcquire)) ::
    List.replicate 10 (.receiver 0 (.consumer (.step .consumer)))

theorem started_sample : Started [ReceiverSystem.initial sampleMemory sampleHandle] := by
  intro r hr
  exact ⟨_, _, _, initialized_sample, List.mem_singleton.mp hr⟩

/-- Where the sample run ends. -/
theorem sample_reached : ∃ s r l k,
    runActions next (Unforged sampleSender.sessionId) sampleStart sampleActions = some s ∧
      r ∈ s.receivers ∧ r.egress.consumer.acquiredEvents = [sampleEvent] ∧
      (∀ first, (decodable r.received).head? = some first →
        first.sessionId = sampleSender.sessionId) ∧
      s.sender.thread = .head l ∧ r.thread = .head k := by
  have hsample : (runActions next (Unforged sampleSender.sessionId) sampleStart
      sampleActions).bind (fun s => s.receivers.head?.map fun r =>
        (r.egress.consumer.acquiredEvents, (decodable r.received).map DecodedDataView.sessionId,
          s.sender.thread.isHead && r.thread.isHead)) =
            some ([sampleEvent], [7, 7], true) := by
    decide +kernel
  obtain ⟨s, hs, hhead⟩ := Option.bind_eq_some_iff.mp hsample
  obtain ⟨r, hr, hlog⟩ := Option.map_eq_some_iff.mp hhead
  obtain ⟨hacquired, hlog⟩ := Prod.mk.inj hlog
  obtain ⟨hsessions, hthreads⟩ := Prod.mk.inj hlog
  obtain ⟨hsender, hreceiver⟩ := Bool.and_eq_true_iff.mp hthreads
  obtain ⟨l, hl⟩ := Thread.eq_of_isHead hsender
  obtain ⟨k, hk⟩ := Thread.eq_of_isHead hreceiver
  refine ⟨s, r, l, k, hs, List.mem_of_head? hr, hacquired, ?_, hl, hk⟩
  intro first hfirst
  have hmap := congrArg List.head? hsessions
  rw [List.head?_map, hfirst] at hmap
  exact Option.some.inj hmap

theorem end_to_end_fifo_sample : ∃ s r,
    runActions next (Unforged sampleSender.sessionId) sampleStart sampleActions = some s ∧
      r ∈ s.receivers ∧ r.egress.consumer.acquiredEvents = [sampleEvent] ∧
      r.egress.consumer.acquiredEvents.Sublist
        s.sender.ingress.producer.publishedEvents := by
  obtain ⟨s, r, l, k, hs, hr, hacquired, hfirst, -, -⟩ := sample_reached
  exact ⟨s, r, hs, hr, hacquired, end_to_end_fifo (by decide) initialized_sample .refl rfl
    started_sample (reaches_of_runActions hs) hr hfirst⟩

/-- Every packet sequence of a fresh sender is at most the number of its packets. -/
theorem sequence_le {events : List Event} {d : DecodedDataView}
    (hfresh : start.packetSequence = 1) (hbound : 1 + (start.packets events).length ≤ 2 ^ 64)
    (hd : d ∈ (start.packets events).map Prod.fst) :
    d.packetSequence.toNat ≤ (start.packets events).length := by
  have hfirst : start.packetSequence.toNat = 1 := by rw [hfresh]; rfl
  have hsequences := @SenderSystem.packets_sequences start events (by rw [hfirst]; exact hbound)
  obtain ⟨packet, hpacket, rfl⟩ := List.mem_map.mp hd
  have hmem : packet.1.packetSequence.toNat ∈
      List.range' start.packetSequence.toNat (start.packets events).length := by
    rw [← hsequences]
    exact List.mem_map_of_mem hpacket
  have hlt := (List.mem_range'_1.mp hmem).2
  omega

/-- The counters of a fresh sender between two turns. -/
theorem sender_counts {l : SenderFrame} (hok : SenderSystem.Ok g start before hist s.sender)
    (hstats : start.stats = {}) (hrest : s.sender.thread.AtRest l) :
    ∃ h : SenderHistory, h.attempts = s.sender.attempts ∧ Sent start l h [] 0 0 ∧
      l.stats.eventsIn.toNat = h.acquired.length ∧
      l.stats.encodeErrors.toNat + (start.packets h.acquired).length = h.acquired.length := by
  obtain ⟨stopped, sent, -⟩ := hok.atRest hrest
  have hlength : (s.sender.history before stopped).acquired.length ≤ hist.length :=
    (List.drop_sublist _ _).length_le.trans hok.ring.acquired_hist.length_le
  have hlt := Nat.lt_of_le_of_lt hlength hok.ring.length_lt
  generalize hh : s.sender.history before stopped = h at sent hlt
  have hpackets := start.length_packets_le h.acquired
  refine ⟨h, by rw [← hh]; rfl, sent, ?_, ?_⟩
  · have heventsIn := sent.eventsIn
    rw [hstats, UInt64.zero_add] at heventsIn
    rw [heventsIn]
    exact UInt64.toNat_ofNat_of_lt' hlt
  · have hencodeErrors := sent.encodeErrors
    rw [hstats, UInt64.zero_add, show UInt64.ofNat 0 = 0 from rfl, UInt64.add_zero]
      at hencodeErrors
    rw [hencodeErrors, UInt64.toNat_ofNat_of_lt' (Nat.lt_of_le_of_lt (Nat.sub_le _ _) hlt)]
    exact Nat.sub_add_cancel hpackets

/-- The counters of a fresh receiver between two turns. -/
theorem receiver_counts {k : Receiver} {egress : List Event}
    (h : ReceiverSystem.Ok g egress r) (hrest : r.thread.AtRest k) : ∃ packets,
    Accounts k r.history packets [] ∧
    k.stats.eventsOut.toNat + k.stats.egressFull.toNat + k.stats.egressErrors.toNat +
      k.stats.packetsMissed.toNat = k.gapDetector.lastSequence.toNat := by
  have hsettled : ∃ packets, Accounts k r.history packets [] := by
    obtain ⟨packets, acc, -⟩ | ⟨packets, acc, -⟩ := h.thread.atRest hrest
    · exact ⟨packets, acc⟩
    · exact ⟨packets, acc⟩
  obtain ⟨packets, acc⟩ := hsettled
  refine ⟨packets, acc, ?_⟩
  have hall := answered_all r.history.attempts
  have hlength := congrArg List.length acc.attempts
  rw [List.append_nil, List.length_map, List.length_map] at hlength
  rw [acc.eventsOut, acc.egressFull, acc.egressErrors, hall, hlength, ← acc.missed, Nat.add_comm]

/-- Between two turns of both loops every input event is an encode error, was delivered, was
dropped at the egress ring, was counted missed, or belongs to a packet behind the highest one
that arrived. -/
theorem every_event_accounted (hlimit : start.maxDatagramBytes.toNat ≤ maxPacketBytes)
    (hfresh : start.packetSequence = 1) (hstats : start.stats = {})
    (hinit : Initialized g handle m)
    (hring : Reaches Ring.System.next anyAction (Ring.System.initial m handle) ingress)
    (hidle : ingress.consumer.running = none) (hreceivers : Started receivers)
    (hrun : Reaches next (Unforged start.sessionId) (initial start ingress receivers) s)
    (hr : r ∈ s.receivers)
    (hfirst : ∀ first, (decodable r.received).head? = some first →
      first.sessionId = start.sessionId)
    {l : SenderFrame} {k : Receiver} (hsender : s.sender.thread.AtRest l)
    (hreceiver : r.thread.AtRest k) :
    let encoded := l.stats.eventsIn.toNat - l.stats.encodeErrors.toNat
    let seen := highest start.sessionId (decodable r.received)
    l.stats.encodeErrors.toNat ≤ l.stats.eventsIn.toNat ∧
      k.gapDetector.lastSequence.toNat = seen ∧
      seen ≤ encoded ∧
      l.stats.eventsIn.toNat = l.stats.encodeErrors.toNat + k.stats.eventsOut.toNat +
        k.stats.egressFull.toNat + k.stats.egressErrors.toNat + k.stats.packetsMissed.toNat +
        (encoded - seen) := by
  intro encoded seen
  obtain ⟨hist0, hring0⟩ := hinit.reaches_ok (q := False) (fun _ _ _ h => h.elim) hring
  obtain ⟨hist, hok, -⟩ := reaches_ok hlimit (initial_ok hlimit hring0 hidle hreceivers) hrun
  obtain ⟨⟨g', egress, hreceiverOk⟩, hsourced⟩ := hok.receivers r hr
  obtain ⟨h, hattempts, sent, heventsIn, hencodeErrors⟩ := sender_counts hok.sender hstats hsender
  obtain ⟨packets, acc, hcounts⟩ := receiver_counts hreceiverOk hreceiver
  have hbound := sent.bound (Nat.zero_le 1)
  rw [show start.packetSequence.toNat = 1 by rw [hfresh]; rfl] at hbound
  have hseen : k.gapDetector.lastSequence.toNat = seen := by
    cases hreceived : decodable r.received with
    | nil =>
        have hlast := acc.highest
        rw [show decodable r.history.received = [] from hreceived] at hlast
        change _ = highest start.sessionId (decodable r.received)
        rw [hlast, hreceived]
        rfl
    | cons first rest =>
        have hmem : first ∈ decodable r.history.received := by
          rw [show decodable r.history.received = first :: rest from hreceived]
          exact List.mem_cons_self
        rw [acc.highest, session_of_first acc hfirst hmem]
        rfl
  have hle : seen ≤ (start.packets h.acquired).length := by
    rw [← hattempts] at hsourced
    refine highest_le fun d hd hsession => ?_
    exact sequence_le hfresh hbound (hsourced.mem_packets sent hd hsession)
  omega

theorem every_event_accounted_sample : ∃ s r l k,
    runActions next (Unforged sampleSender.sessionId) sampleStart sampleActions = some s ∧
      r ∈ s.receivers ∧ s.sender.thread = .head l ∧ r.thread = .head k ∧
      highest sampleSender.sessionId (decodable r.received) ≤
        l.stats.eventsIn.toNat - l.stats.encodeErrors.toNat := by
  obtain ⟨s, r, l, k, hs, hr, -, hfirst, hsender, hreceiver⟩ := sample_reached
  obtain ⟨-, -, hle, -⟩ := every_event_accounted (by decide) rfl rfl initialized_sample .refl rfl
    started_sample (reaches_of_runActions hs) hr hfirst (.inl hsender) (.inl hreceiver)
  exact ⟨s, r, l, k, hs, hr, hsender, hreceiver, hle⟩

end Engine

end EventEngine
