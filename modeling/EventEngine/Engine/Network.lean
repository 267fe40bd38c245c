import EventEngine.Engine.EndToEnd
import EventEngine.Engine.Relay
import EventEngine.Ring.Drain

/-!
# Any number of stations

Sources, relays and sinks with one network between them, in any arrangement: a sender may send
to many receivers, many senders to one receiver, and a relay to itself. A receiver takes the
events of one sender only, the one whose packet it decoded first. So events travel along paths,
and along each path at most once and in order.
-/

namespace EventEngine

open Concurrency Memory Protocol Transport EventEngine.Ring

/-- The number of a station and what happens there. -/
abbrev NetworkAction := Nat × StationAction

namespace Network

/-- One action, if it is possible. -/
def next (net : List Station) (a : NetworkAction) : Option (List Station) :=
  match net[a.1]? with
  | none => none
  | some station => (station.next a.2).map fun station' => net.set a.1 station'

/-- The station `j` has a sender `s`. -/
def HasSender (net : List Station) (j : Nat) (s : SenderSystem) : Prop :=
  ∃ station, net[j]? = some station ∧ station.sender = some s

/-- The station `i` has a receiver `r`. -/
def HasReceiver (net : List Station) (i : Nat) (r : ReceiverSystem) : Prop :=
  ∃ station, net[i]? = some station ∧ station.receiver = some r

/-- A datagram that decodes to the session of a sender is one that this sender sent. The sender
of station `j` started as `starts j`. -/
def Unforged (starts : Nat → Sender) (net : List Station) : NetworkAction → Prop
  | (_, .receiver (.step (.ok datagram))) => ∀ d ∈ (decodeData datagram).toOption,
      ∀ p ∈ net.zipIdx, ∀ s ∈ p.1.sender, d.sessionId = (starts p.2).sessionId →
        datagram ∈ s.attempts.map Prod.fst
  | _ => True

end Network

/-- The programs are about to start. The ring of a relay may have been attached to before. -/
def Station.Started (start : Sender) : Station → Prop
  | .source s => ∃ g m handle ingress, Initialized g handle m ∧
      Reaches Ring.System.next anyAction (Ring.System.initial m handle) ingress ∧
      ingress.consumer.running = none ∧ s = SenderSystem.initial start ingress
  | .sink r => ∃ g m handle, Initialized g handle m ∧ r = ReceiverSystem.initial m handle
  | .relay r s => ∃ g m handle egress, Initialized g handle m ∧
      Reaches Ring.System.next ConsumerOnly (Ring.System.initial m handle) egress ∧
      egress.consumer.running = none ∧ r = { ReceiverSystem.initial m handle with egress } ∧
      s = SenderSystem.initial start egress

namespace Network

open scoped List

variable {starts : Nat → Sender} {net net' : List Station} {a : NetworkAction} {i j : Nat}
variable {station : Station} {s : SenderSystem} {r : ReceiverSystem}

def Started (starts : Nat → Sender) (net : List Station) : Prop :=
  ∀ (i : Nat) (station : Station), net[i]? = some station → station.Started (starts i)

/-- The programs of every station are sound, and what a receiver got of a sender's session was
sent by that sender. -/
structure Ok (starts : Nat → Sender) (net : List Station) : Prop where
  station : ∀ (i : Nat) (station : Station), net[i]? = some station → station.Ok (starts i)
  sourced : ∀ i r j s, HasReceiver net i r → HasSender net j s →
    Engine.Sourced (starts j).sessionId s.attempts r

theorem started_ok {start : Sender} (hlimit : start.maxDatagramBytes.toNat ≤ maxPacketBytes)
    (h : station.Started start) : station.Ok start := by
  cases station with
  | source s =>
      obtain ⟨g, m, handle, ingress, hinit, hring, hidle, rfl⟩ := h
      obtain ⟨hist, hok⟩ := hinit.reaches_ok (q := False) (fun _ _ _ h => h.elim) hring
      refine ⟨fun u hu => ?_, fun u hu => by cases hu⟩
      obtain rfl := Option.some.inj hu
      exact ⟨g, _, hist, SenderSystem.initial_ok hlimit hok hidle, rfl⟩
  | sink r =>
      obtain ⟨g, m, handle, hinit, rfl⟩ := h
      refine ⟨fun u hu => (by cases hu), fun u hu => ?_⟩
      obtain rfl := Option.some.inj hu
      exact ⟨g, [], ReceiverSystem.initial_ok hinit, rfl⟩
  | relay r s =>
      obtain ⟨g, m, handle, egress, hinit, hring, hidle, rfl, rfl⟩ := h
      obtain ⟨hist, hok⟩ := hinit.reaches_ok (q := False) (fun _ _ _ h => h.elim) hring
      have hattached := ReceiverSystem.reaches_of_egress
        (s := ReceiverSystem.initial m handle) hring
      obtain ⟨hist', hreceiver⟩ := ReceiverSystem.reaches_ok hinit hattached
      refine ⟨fun u hu => ?_, fun u hu => ?_⟩
      · obtain rfl := Option.some.inj hu
        exact ⟨g, _, hist, SenderSystem.initial_ok hlimit hok hidle, rfl⟩
      · obtain rfl := Option.some.inj hu
        exact ⟨g, hist', hreceiver, rfl⟩

theorem initial_ok (hlimit : ∀ i, (starts i).maxDatagramBytes.toNat ≤ maxPacketBytes)
    (h : Started starts net) : Ok starts net where
  station i station hi := started_ok (hlimit i) (h i station hi)
  sourced i r j s hr hs := by
    obtain ⟨station, hi, hr⟩ := hr
    have hempty : r.received = [] := by
      have hstarted := h i station hi
      cases station with
      | source s => cases hr
      | sink r' =>
          obtain ⟨g, m, handle, -, rfl⟩ := hstarted
          obtain rfl := Option.some.inj hr
          rfl
      | relay r' s =>
          obtain ⟨g, m, handle, egress, -, -, -, rfl, -⟩ := hstarted
          obtain rfl := Option.some.inj hr
          rfl
    intro d hd
    rw [hempty] at hd
    cases hd

/-- One station moves, and the others stay as they are. -/
theorem next_cases (hnext : next net a = some net') : ∃ station station',
    net[a.1]? = some station ∧ Station.Moves station a.2 station' ∧
      net' = net.set a.1 station' := by
  simp only [next] at hnext
  split at hnext
  case h_1 => cases hnext
  case h_2 station hstation =>
    obtain ⟨station', hmoves, rfl⟩ := Option.map_eq_some_iff.mp hnext
    exact ⟨station, station', hstation, Station.next_moves hmoves, rfl⟩

/-- A station of the new network is the one that moved, or an old one. -/
theorem getElem?_set_cases {station' : Station} (h : (net.set j station')[i]? = some station) :
    (i = j ∧ station = station') ∨ net[i]? = some station := by
  by_cases hij : j = i
  · subst hij
    rw [List.getElem?_set_self'] at h
    obtain ⟨-, -, rfl⟩ := Option.map_eq_some_iff.mp h
    exact .inl ⟨rfl, rfl⟩
  · rw [List.getElem?_set_ne hij] at h
    exact .inr h

theorem sender_before (hnext : next net a = some net') (h : HasSender net' j s) :
    ∃ s0, HasSender net j s0 ∧ s0.attempts <+: s.attempts := by
  obtain ⟨old, new, hold, hmoves, rfl⟩ := next_cases hnext
  obtain ⟨station, hj, hs⟩ := h
  obtain ⟨rfl, rfl⟩ | hkept := getElem?_set_cases hj
  · obtain ⟨s0, hs0, hattempts⟩ := hmoves.attempts hs
    exact ⟨s0, ⟨old, hold, hs0⟩, hattempts⟩
  · exact ⟨s, ⟨station, hkept, hs⟩, List.prefix_rfl⟩

theorem receiver_before (hnext : next net a = some net') (h : HasReceiver net' i r) :
    ∃ r0, HasReceiver net i r0 ∧ (r.received = r0.received ∨ ∃ answer,
      a.2 = .receiver (.step answer) ∧ r.received = r0.received ++ [answer]) := by
  obtain ⟨old, new, hold, hmoves, rfl⟩ := next_cases hnext
  obtain ⟨station, hi, hr⟩ := h
  obtain ⟨rfl, rfl⟩ | hkept := getElem?_set_cases hi
  · obtain ⟨r0, hr0, hreceived⟩ := hmoves.received hr
    exact ⟨r0, ⟨old, hold, hr0⟩, hreceived⟩
  · exact ⟨r, ⟨station, hkept, hr⟩, .inl rfl⟩

/-- What arrives was sent by the sender of its session. -/
theorem Unforged.sent {answer : Received} {d : DecodedDataView} (h : Unforged starts net a)
    (ha : a.2 = .receiver (.step answer)) (hs : HasSender net j s) (hd : d ∈ decodable [answer])
    (hsession : d.sessionId = (starts j).sessionId) : d.wire ∈ s.attempts.map Prod.fst := by
  obtain ⟨n, action⟩ := a
  obtain rfl : action = .receiver (.step answer) := ha
  obtain ⟨station, hj, hsender⟩ := hs
  cases answer with
  | error e => cases hd
  | ok datagram =>
      have hdecoded : (decodeData datagram).toOption = some d := Option.mem_toList.mp hd
      have hsent := h d hdecoded (station, j) (List.mem_zipIdx_iff_getElem?.mpr hj) s hsender
        hsession
      cases hdecode : decodeData datagram with
      | error e => rw [hdecode] at hdecoded; cases hdecoded
      | ok d' =>
          rw [hdecode] at hdecoded
          obtain rfl : d' = d := Option.some.inj hdecoded
          rw [(decodeData_eq_ok_iff.mp hdecode).2] at hsent
          exact hsent

/-- Every action keeps the invariant. -/
theorem Ok.next (h : Ok starts net)
    (hlimit : ∀ i, (starts i).maxDatagramBytes.toNat ≤ maxPacketBytes)
    (hunforged : Unforged starts net a) (hnext : Network.next net a = some net') :
    Ok starts net' where
  station i station hi := by
    obtain ⟨old, new, hold, hmoves, rfl⟩ := next_cases hnext
    obtain ⟨rfl, rfl⟩ | hkept := getElem?_set_cases hi
    · exact (h.station _ old hold).moves (hlimit _) hmoves
    · exact h.station i station hkept
  sourced i r j s hr hs := by
    obtain ⟨s0, hs0, hgrows⟩ := sender_before hnext hs
    obtain ⟨r0, hr0, hreceived⟩ := receiver_before hnext hr
    have hbefore := (h.sourced i r0 j s0 hr0 hs0).later hgrows
    intro d hd hsession
    obtain hsame | ⟨answer, hanswer, hreceived⟩ := hreceived
    · rw [hsame] at hd
      exact hbefore d hd hsession
    · rw [hreceived, decodable_append] at hd
      obtain hold | hnew := List.mem_append.mp hd
      · exact hbefore d hold hsession
      · exact (hgrows.map Prod.fst).subset (hunforged.sent hanswer hs0 hnew hsession)

theorem reaches_ok (hlimit : ∀ i, (starts i).maxDatagramBytes.toNat ≤ maxPacketBytes)
    (hstart : Started starts net) (hrun : Reaches Network.next (Unforged starts) net net') :
    Ok starts net' :=
  hrun.invariant (initial_ok hlimit hstart) fun _ _ _ h hunforged hnext =>
    h.next hlimit hunforged hnext

/-- From one ring to the next. -/
theorem hop {g g' : Geometry} {start : Sender} {before : Nat} {hist egress : List Event}
    (hs : SenderSystem.Ok g start before hist s) (hr : ReceiverSystem.Ok g' egress r)
    (hsourced : Engine.Sourced start.sessionId s.attempts r)
    (hfirst : ∀ first, (decodable r.received).head? = some first →
      first.sessionId = start.sessionId) :
    r.egress.consumer.acquiredEvents <+ s.ingress.consumer.acquiredEvents := by
  obtain ⟨l, unsent, used, failed, stopped, sent, -, hused⟩ := hs.sent
  obtain ⟨k, packets, waiting, acc, hattempted⟩ := hr.accounts
  have hpackets : packets <+ (start.packets (s.history before stopped).acquired).map Prod.fst :=
    Engine.Sourced.packets_sublist (h := s.history before stopped) hsourced sent hused acc hfirst
  calc r.egress.consumer.acquiredEvents
      <+ r.attempted := hr.acquired_attempted
    _ <+ packets.map DecodedDataView.event := hattempted.sublist
    _ <+ ((start.packets (s.history before stopped).acquired).map Prod.fst).map
        DecodedDataView.event := hpackets.map _
    _ <+ (s.history before stopped).acquired := Engine.packets_events
    _ <+ s.ingress.consumer.acquiredEvents := List.drop_sublist _ _

/-- At a ring, what was acquired is a prefix of what was published. -/
theorem Ok.acquired (h : Ok starts net) (hi : net[i]? = some station) :
    station.ring.consumer.acquiredEvents <+ station.ring.producer.publishedEvents := by
  have hok := h.station i station hi
  have hsender : ∀ s, station.sender = some s →
      station.ring.consumer.acquiredEvents <+ station.ring.producer.publishedEvents := by
    intro s hs
    obtain ⟨g, before, hist, hsender, hring⟩ := hok.sender s hs
    have hpublished : hist = s.ingress.producer.publishedEvents := hsender.ring.producerLog
    rw [← hring, ← hpublished]
    exact hsender.ring.acquired_hist.sublist
  cases station with
  | source s => exact hsender s rfl
  | relay r s => exact hsender s rfl
  | sink r =>
      obtain ⟨g, hist, hreceiver, hring⟩ := hok.receiver r rfl
      have hpublished : hist = r.egress.producer.publishedEvents := hreceiver.ring.producerLog
      rw [← hring, ← hpublished]
      exact hreceiver.ring.acquired_hist.sublist

instance (starts : Nat → Sender) (net : List Station) (a : NetworkAction) :
    Decidable (Unforged starts net a) :=
  match a with
  | (_, .receiver (.step (.ok datagram))) =>
      inferInstanceAs (Decidable (∀ d ∈ (decodeData datagram).toOption, ∀ p ∈ net.zipIdx,
        ∀ s ∈ p.1.sender, d.sessionId = (starts p.2).sessionId →
          datagram ∈ s.attempts.map Prod.fst))
  | (_, .receiver (.step (.error _))) => .isTrue trivial
  | (_, .receiver .requestStop) => .isTrue trivial
  | (_, .receiver (.consumer _)) => .isTrue trivial
  | (_, .sender _) => .isTrue trivial

/-- Fresh senders with one destination each; the session tells them apart. -/
def sampleStarts (i : Nat) : Sender := ⟨44, [⟨0x7f000001, 9000⟩], UInt32.ofNat (7 + i), 1, {}⟩

/-- A source, a relay and a sink. -/
def sampleStations : List Station :=
  [.source (SenderSystem.initial (sampleStarts 0) (Ring.System.initial sampleMemory sampleHandle)),
    .relay (ReceiverSystem.initial sampleMemory sampleHandle)
      (SenderSystem.initial (sampleStarts 1) (Ring.System.initial sampleMemory sampleHandle)),
    .sink (ReceiverSystem.initial sampleMemory sampleHandle)]

/-- A datagram of the sender `j` arrives at the station `i`, and is published there. -/
def sampleArrival (j i : Nat) : List NetworkAction :=
  List.replicate 13 (i, .receiver (.step (.ok
    (DecodedDataView.wire ⟨(sampleStarts j).sessionId, 1, sampleEvent⟩))))

/-- The sender of a station runs up to the next turn. -/
def sampleTurn (j : Nat) : List NetworkAction :=
  (j, .sender .run) :: List.replicate 16 (j, .sender (.step true))

/-- An event is published at the source, relayed, and acquired at the sink. -/
def sampleRun : List NetworkAction :=
  (0, .sender (.ingress (.begin .producer (.tryPublish sampleEvent)))) ::
    List.replicate 8 (0, .sender (.ingress (.step .producer))) ++ sampleTurn 0 ++
    sampleArrival 0 1 ++ sampleTurn 1 ++ sampleArrival 1 2 ++
    (2, .receiver (.consumer (.begin .consumer .tryAcquire))) ::
    List.replicate 10 (2, .receiver (.consumer (.step .consumer)))

theorem started_sample : Started sampleStarts sampleStations := by
  intro i station hi
  match i with
  | 0 =>
      obtain rfl := Option.some.inj hi
      exact ⟨_, _, _, _, initialized_sample, .refl, rfl, rfl⟩
  | 1 =>
      obtain rfl := Option.some.inj hi
      exact ⟨_, _, _, _, initialized_sample, .refl, rfl, rfl, rfl⟩
  | 2 =>
      obtain rfl := Option.some.inj hi
      exact ⟨_, _, _, initialized_sample, rfl⟩
  | i + 3 => cases hi

end Network

end EventEngine
