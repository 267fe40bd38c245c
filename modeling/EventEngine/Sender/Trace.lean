import EventEngine.Protocol.RoundTrip
import EventEngine.Sender.Run

/-!
# What the sender's thread sends

The history of the thread is what it acquired from the ingress ring and which sends it
tried. `Sender.packets` numbers the events that can be encoded, and `Sender.sends` is what a
sender should try: every packet to every destination. `Sent` relates the members of the
sender to both; it is the loop's invariant, for any outcome of the sends.
-/

namespace EventEngine

open Concurrency Memory Protocol Transport EventEngine.Ring

/-- The datagram that `encode_data` makes of a packet, in a buffer of zeros. -/
def encoded (size : Nat) (d : DecodedDataView) : Option Bytes :=
  match encodeData d.event d.sessionId d.packetSequence (List.replicate size 0) with
  | (.ok packetSize, output) => some (output.take packetSize)
  | (.error _, _) => none

/-- The packets of a list of events with their datagrams, numbered from `q`; an event that
cannot be encoded has none and uses no number. -/
def numbered (session : UInt32) (size : Nat) : Nat → List Event → List (DecodedDataView × Bytes)
  | _, [] => []
  | q, event :: rest =>
      match encoded size ⟨session, UInt64.ofNat q, event⟩ with
      | some datagram =>
          (⟨session, UInt64.ofNat q, event⟩, datagram) :: numbered session size (q + 1) rest
      | none => numbered session size q rest

/-- The packets a sender should make of the events it acquires from now on. -/
def Sender.packets (self : Sender) (events : List Event) : List (DecodedDataView × Bytes) :=
  numbered self.sessionId self.maxDatagramBytes.toNat self.packetSequence.toNat events

/-- The sends it should try. -/
def Sender.sends (self : Sender) (events : List Event) : List (Bytes × UdpAddress) :=
  (self.packets events).flatMap fun packet =>
    self.destinations.map fun destination => (packet.2, destination)

section Numbering

variable {session : UInt32} {size q : Nat} {events : List Event} {d : DecodedDataView}
variable {datagram : Bytes}

theorem encoded_eq_some_iff : encoded size d = some datagram ↔
    d.WellFormed ∧ packetBytes d.event.payload.length ≤ size ∧ datagram = d.wire := by
  constructor
  · intro h
    simp only [encoded] at h
    split at h
    case h_1 packetSize output heq =>
      cases hsize : encodedSize d.event d.event.payload.length d.sessionId d.packetSequence
          (List.replicate size (0 : UInt8)).length with
      | error e => rw [encodeData, hsize] at heq; cases heq
      | ok k =>
          obtain ⟨hd, hfits, -⟩ := encodedSize_eq_ok_iff.mp hsize
          rw [encodeData_eq hd hfits] at heq
          obtain ⟨hk, rfl⟩ := Prod.mk.inj heq
          rw [← Except.ok.inj hk, ← length_wire d, List.take_left] at h
          rw [List.length_replicate] at hfits
          exact ⟨hd, hfits, (Option.some.inj h).symm⟩
    case h_2 => cases h
  · rintro ⟨hd, hfits, rfl⟩
    rw [encoded, encodeData_eq hd (by rw [List.length_replicate]; exact hfits)]
    change some _ = _
    rw [← length_wire d, List.take_left]

theorem numbered_append (event : Event) : numbered session size q (events ++ [event]) =
    numbered session size q events ++
      ((encoded size
        ⟨session, UInt64.ofNat (q + (numbered session size q events).length), event⟩).map
        fun datagram =>
          (⟨session, UInt64.ofNat (q + (numbered session size q events).length), event⟩,
            datagram)).toList := by
  induction events generalizing q with
  | nil =>
      simp only [List.nil_append, numbered, List.length_nil, Nat.add_zero]
      cases encoded size ⟨session, UInt64.ofNat q, event⟩ with
      | none => rfl
      | some datagram => rfl
  | cons head rest ih =>
      rw [List.cons_append, numbered, numbered]
      cases encoded size ⟨session, UInt64.ofNat q, head⟩ with
      | none => exact ih
      | some datagram =>
          simp only [List.length_cons, List.cons_append, ih, Nat.add_assoc, Nat.add_comm 1]

/-- The packet sequences are consecutive. -/
theorem numbered_sequences :
    (numbered session size q events).map (fun packet => packet.1.packetSequence) =
      (List.range' q (numbered session size q events).length).map UInt64.ofNat := by
  induction events generalizing q with
  | nil => rfl
  | cons event rest ih =>
      rw [numbered]
      cases encoded size ⟨session, UInt64.ofNat q, event⟩ with
      | none => exact ih
      | some datagram =>
          rw [List.map_cons, ih, List.length_cons, List.range'_succ, List.map_cons]

/-- The packets carry some of the events, in order. -/
theorem numbered_events :
    ((numbered session size q events).map fun packet => packet.1.event).Sublist events := by
  induction events generalizing q with
  | nil => exact List.Sublist.refl _
  | cons event rest ih =>
      rw [numbered]
      cases encoded size ⟨session, UInt64.ofNat q, event⟩ with
      | none => exact ih.cons _
      | some datagram => exact ih.cons_cons _

theorem mem_numbered {packet : DecodedDataView × Bytes}
    (h : packet ∈ numbered session size q events) :
    packet.1.sessionId = session ∧ encoded size packet.1 = some packet.2 := by
  induction events generalizing q with
  | nil => cases h
  | cons event rest ih =>
      rw [numbered] at h
      cases hencoded : encoded size ⟨session, UInt64.ofNat q, event⟩ with
      | none =>
          rw [hencoded] at h
          exact ih h
      | some datagram =>
          rw [hencoded] at h
          obtain rfl | hrest := List.mem_cons.mp h
          · exact ⟨rfl, hencoded⟩
          · exact ih hrest

theorem length_numbered_le : (numbered session size q events).length ≤ events.length := by
  have hle := (@numbered_events session size q events).length_le
  rwa [List.length_map] at hle

end Numbering

/-- The event that a view of shared memory denotes. -/
def Shows (view : EventView ByteRange) (event : Event) : Prop :=
  ∃ payload : Bytes, payload.length = view.payload.length ∧ event = { view with payload }

/-- `held` is the latest view with its event; `stopped` says that the thread itself has set
the stop flag. -/
structure SenderHistory where
  acquired : List Event
  held : Option (EventView ByteRange × Event)
  attempts : List (Bytes × UdpAddress)
  stopped : Bool

/-- The bytes of a held view are those of its event; the stop flag is never cleared. -/
def senderEnvironment : Environment senderAccess SenderHistory
  | .loadStop, r, h, h' => h' = h ∧ (h.stopped = true → r = true)
  | .requestStop, _, h, h' => h' = { h with stopped := true }
  | .tryAcquire, .error _, h, h' => h' = h
  | .tryAcquire, .ok view, h, h' => ∃ event, Shows view event ∧
      h' = { h with acquired := h.acquired ++ [event], held := some (view, event) }
  | .readByte offset, b, h, h' => h' = h ∧ ∀ view event i, h.held = some (view, event) →
      offset = view.payload.offset + i → i < view.payload.length → event.payload[i]? = some b
  | .release, _, h, h' => ∃ held, h' = { h with held }
  | .sendTo datagram destination, _, h, h' =>
      h' = { h with attempts := h.attempts ++ [(datagram, destination)] }

/-- The members of the sender and the history of its thread, since the sender was `start`;
`unsent` are the sends of the latest packet that are still to come. `used` is one while the
number of that packet is still the next one, `failed` is one while an encode error is not
counted yet. -/
structure Sent (start : Sender) (l : SenderFrame) (h : SenderHistory)
    (unsent : List (Bytes × UdpAddress)) (used failed : Nat) : Prop where
  session : l.sessionId = start.sessionId
  destinations : l.destinations = start.destinations
  limit : l.maxDatagramBytes = start.maxDatagramBytes
  output : l.output.length = start.maxDatagramBytes.toNat
  attempts : h.attempts ++ unsent = start.sends h.acquired
  sequence : l.packetSequence.toNat + used =
      start.packetSequence.toNat + (start.packets h.acquired).length ∨
    (h.stopped = true ∧
      start.packetSequence.toNat + (start.packets h.acquired).length = 2 ^ 64)
  eventsIn : l.stats.eventsIn = start.stats.eventsIn + UInt64.ofNat h.acquired.length
  encodeErrors : l.stats.encodeErrors + UInt64.ofNat failed = start.stats.encodeErrors +
    UInt64.ofNat (h.acquired.length - (start.packets h.acquired).length)

variable {start : Sender} {l : SenderFrame} {h : SenderHistory}
variable {unsent : List (Bytes × UdpAddress)} {used failed : Nat} {event : Event}
variable {view : EventView ByteRange} {datagram : Bytes} {destination : UdpAddress}

theorem ofNat_succ (n : Nat) : UInt64.ofNat (n + 1) = UInt64.ofNat n + 1 := UInt64.ofNat_add n 1

namespace Sender

theorem length_packets_le (events : List Event) :
    (start.packets events).length ≤ events.length := length_numbered_le

theorem sends_append {events : List Event} {packets : List (DecodedDataView × Bytes)}
    (h : start.packets (events ++ [event]) = start.packets events ++ packets) :
    start.sends (events ++ [event]) = start.sends events ++ packets.flatMap fun packet =>
      start.destinations.map fun destination => (packet.2, destination) := by
  rw [sends, h, List.flatMap_append]
  rfl

end Sender

namespace Sent

/-- Nothing was sent or acquired yet. -/
theorem initial (hlimit : start.maxDatagramBytes.toNat ≤ maxPacketBytes)
    (held : Option (EventView ByteRange × Event)) (stopped : Bool) :
    Sent start start.frame ⟨[], held, [], stopped⟩ [] 0 0 where
  session := rfl
  destinations := rfl
  limit := rfl
  output := by
    rw [Sender.frame, List.length_take, List.length_replicate]
    exact Nat.min_eq_left hlimit
  attempts := rfl
  sequence := .inl rfl
  eventsIn := (UInt64.add_zero _).symm
  encodeErrors := rfl

theorem bound (sent : Sent start l h unsent used failed) (hused : used ≤ 1) :
    start.packetSequence.toNat + (start.packets h.acquired).length ≤ 2 ^ 64 := by
  have hlt := l.packetSequence.toNat_lt
  obtain hnext | ⟨-, hend⟩ := sent.sequence
  · omega
  · exact Nat.le_of_eq hend

/-- The next number is the one of the next packet. -/
theorem next_eq (sent : Sent start l h [] 0 0) (hopen : h.stopped = false) :
    UInt64.ofNat (start.packetSequence.toNat + (start.packets h.acquired).length) =
      l.packetSequence := by
  obtain hnext | ⟨hstopped, -⟩ := sent.sequence
  · rw [← hnext, Nat.add_zero, UInt64.ofNat_toNat]
  · rw [hopen] at hstopped
    cases hstopped

theorem packets_append (sent : Sent start l h [] 0 0) (hopen : h.stopped = false)
    (event : Event) :
    start.packets (h.acquired ++ [event]) = start.packets h.acquired ++
      ((encoded start.maxDatagramBytes.toNat ⟨l.sessionId, l.packetSequence, event⟩).map
        fun datagram => (⟨l.sessionId, l.packetSequence, event⟩, datagram)).toList := by
  have happend := @numbered_append start.sessionId start.maxDatagramBytes.toNat
    start.packetSequence.toNat h.acquired event
  have hnext := sent.next_eq hopen
  rw [Sender.packets] at hnext
  rw [hnext, ← sent.session] at happend
  rw [Sender.packets, Sender.packets, ← sent.session]
  exact happend

/-- An event was acquired that can be encoded. -/
theorem acquire_encoded (sent : Sent start l h [] 0 0) (hopen : h.stopped = false)
    (hencoded : encoded start.maxDatagramBytes.toNat ⟨l.sessionId, l.packetSequence, event⟩ =
      some datagram) (held : Option (EventView ByteRange × Event)) :
    Sent start { l with stats := { l.stats with eventsIn := l.stats.eventsIn + 1 } }
      { h with acquired := h.acquired ++ [event], held }
      (start.destinations.map fun destination => (datagram, destination)) 1 0 := by
  have hpackets := sent.packets_append hopen event
  rw [hencoded] at hpackets
  have hlength : (start.packets (h.acquired ++ [event])).length =
      (start.packets h.acquired).length + 1 := by rw [hpackets]; simp
  exact
    { session := sent.session
      destinations := sent.destinations
      limit := sent.limit
      output := sent.output
      attempts := by
        have hattempts := sent.attempts
        rw [List.append_nil] at hattempts
        rw [hattempts, Sender.sends_append hpackets]
        simp
      sequence := by
        refine .inl ?_
        obtain hnext | ⟨hstopped, -⟩ := sent.sequence
        · rw [hlength]
          change l.packetSequence.toNat + 1 = _
          omega
        · rw [hopen] at hstopped
          cases hstopped
      eventsIn := by
        rw [List.length_append, List.length_singleton, ofNat_succ, ← UInt64.add_assoc,
          ← sent.eventsIn]
      encodeErrors := by
        rw [hlength, List.length_append, List.length_singleton, Nat.add_sub_add_right]
        exact sent.encodeErrors }

/-- An event was acquired that cannot be encoded. -/
theorem acquire_failed (sent : Sent start l h [] 0 0) (hopen : h.stopped = false)
    (hencoded : encoded start.maxDatagramBytes.toNat ⟨l.sessionId, l.packetSequence, event⟩ =
      none) (held : Option (EventView ByteRange × Event)) :
    Sent start { l with stats := { l.stats with eventsIn := l.stats.eventsIn + 1 } }
      { h with acquired := h.acquired ++ [event], held } [] 0 1 := by
  have hpackets := sent.packets_append hopen event
  rw [hencoded] at hpackets
  have hsame : start.packets (h.acquired ++ [event]) = start.packets h.acquired := by
    rw [hpackets]
    simp
  have hle := start.length_packets_le h.acquired
  exact
    { session := sent.session
      destinations := sent.destinations
      limit := sent.limit
      output := sent.output
      attempts := by
        rw [Sender.sends_append hpackets, sent.attempts]
        simp
      sequence := by
        rw [hsame]
        exact sent.sequence
      eventsIn := by
        rw [List.length_append, List.length_singleton, ofNat_succ, ← UInt64.add_assoc,
          ← sent.eventsIn]
      encodeErrors := by
        have hcounted := sent.encodeErrors
        rw [show UInt64.ofNat 0 = 0 from rfl, UInt64.add_zero] at hcounted
        rw [hsame, List.length_append, List.length_singleton, Nat.sub_add_comm hle,
          ofNat_succ (_ - _), ← UInt64.add_assoc, ← hcounted]
        rfl }

/-- The encode error is counted. -/
theorem fail (sent : Sent start l h [] 0 1) :
    Sent start { l with stats := { l.stats with
      encodeErrors := l.stats.encodeErrors + 1
      eventsDropped := l.stats.eventsDropped + 1 } } h [] 0 0 :=
  { sent with
    encodeErrors := by
      rw [show UInt64.ofNat 0 = 0 from rfl, UInt64.add_zero]
      exact sent.encodeErrors }

/-- One of the remaining sends is tried. -/
theorem send (sent : Sent start l h ((datagram, destination) :: unsent) used failed)
    (f : EngineStats → EngineStats) (heventsIn : (f l.stats).eventsIn = l.stats.eventsIn)
    (hencodeErrors : (f l.stats).encodeErrors = l.stats.encodeErrors) :
    Sent start { l with stats := f l.stats }
      { h with attempts := h.attempts ++ [(datagram, destination)] } unsent used failed :=
  { session := sent.session
    destinations := sent.destinations
    limit := sent.limit
    output := sent.output
    attempts := by
      rw [List.append_assoc]
      exact sent.attempts
    sequence := sent.sequence
    eventsIn := heventsIn.trans sent.eventsIn
    encodeErrors := by
      change (f l.stats).encodeErrors + _ = _
      rw [hencodeErrors]
      exact sent.encodeErrors }

/-- The packet sequence is advanced. -/
theorem advance (sent : Sent start l h [] 1 0) (hopen : h.stopped = false)
    (hmore : l.packetSequence ≠ Sender.maxSequence) :
    Sent start { l with packetSequence := l.packetSequence + 1 } h [] 0 0 :=
  { sent with
    sequence := by
      refine .inl ?_
      have hlt := l.packetSequence.toNat_lt
      have hne : l.packetSequence.toNat ≠ 2 ^ 64 - 1 := fun heq =>
        hmore (UInt64.toNat_inj.mp heq)
      obtain hnext | ⟨hstopped, -⟩ := sent.sequence
      · rw [← hnext, UInt64.toNat_add, UInt64.toNat_one, Nat.mod_eq_of_lt (by omega)]
      · rw [hopen] at hstopped
        cases hstopped }

/-- The last number was used: the thread stops. -/
theorem exhaust (sent : Sent start l h [] 1 0) (hlast : l.packetSequence = Sender.maxSequence)
    (hopen : h.stopped = false) : Sent start l { h with stopped := true } [] 0 0 :=
  { sent with
    sequence := by
      refine .inr ⟨rfl, ?_⟩
      obtain hnext | ⟨hstopped, -⟩ := sent.sequence
      · rw [hlast] at hnext
        exact hnext.symm
      · rw [hopen] at hstopped
        cases hstopped }

end Sent

section Keeps

variable {H : Type} {env : Environment senderAccess H}
variable {control : SenderFrame → SenderOp → H → Prop} {x : H}

/-- Reading a payload changes nothing if no byte read does, by induction on the bytes that are
left. -/
theorem Sender.readPayload_keeps (hcontrol : ∀ offset, control l (.readByte offset) x)
    (henv : ∀ offset b x', env (.readByte offset) b x x' → x' = x) (n : Nat) {offset : Nat} :
    (readPayload offset n l).Meets env control (fun _ l' x' => l' = l ∧ x' = x) x := by
  induction n generalizing offset with
  | zero => exact ⟨rfl, rfl⟩
  | succ n ih =>
      refine ⟨hcontrol offset, ?_⟩
      intro b x' hread
      obtain rfl := henv offset b x' hread
      change ((readPayload (offset + 1) n l).bind fun rest l' => .done (b :: rest) l').Meets _ _
        _ _
      apply ih.bind
      rintro rest l' x' ⟨rfl, rfl⟩
      exact ⟨rfl, rfl⟩

/-- The encoder then changes no more than the packet buffer. -/
theorem Sender.encode_keeps (view : EventView ByteRange)
    (hcontrol : ∀ offset, control l (.readByte offset) x)
    (henv : ∀ offset b x', env (.readByte offset) b x x' → x' = x) :
    (encode view l).Meets env control
      (fun _ l' x' => x' = x ∧ ∃ output, l' = { l with output }) x := by
  rw [encode, Method.bind_apply, Method.self_apply, Process.bind_done]
  cases encodedSize view view.payload.length l.sessionId l.packetSequence l.output.length with
  | error e => exact ⟨rfl, l.output, rfl⟩
  | ok packetSize =>
      apply (readPayload_keeps hcontrol henv view.payload.length).bind
      rintro payload l' x' ⟨rfl, rfl⟩
      exact ⟨rfl, _, rfl⟩

end Keeps

/-- What holds at every access of the thread. -/
def Sender.Control (start : Sender) (l : SenderFrame) (_ : SenderOp) (h : SenderHistory) :
    Prop :=
  ∃ unsent used failed, Sent start l h unsent used failed ∧
    unsent.length ≤ start.destinations.length ∧ used ≤ 1

/-- What holds before and after every turn. -/
def Sender.Settled (start : Sender) (l : SenderFrame) (h : SenderHistory) : Prop :=
  Sent start l h [] 0 0

namespace Sender

theorem Settled.control {op : SenderOp} (sent : Settled start l h) : Control start l op h :=
  ⟨[], 0, 0, sent, Nat.zero_le _, Nat.zero_le _⟩

/-- Reading a payload, by induction on the bytes that are left: it is the payload of the
event that the view denotes. -/
theorem readPayload_meets (n : Nat) {i : Nat}
    (hcontrol : ∀ op, Control start l op h) (hheld : h.held = some (view, event))
    (hlength : event.payload.length = view.payload.length) (hi : i + n = view.payload.length) :
    (readPayload (view.payload.offset + i) n l).Meets senderEnvironment (Control start)
      (fun bytes l' h' => bytes = event.payload.drop i ∧ l' = l ∧ h' = h) h := by
  induction n generalizing i with
  | zero =>
      refine ⟨?_, rfl, rfl⟩
      rw [List.drop_of_length_le (by omega)]
  | succ n ih =>
      refine ⟨hcontrol _, ?_⟩
      rintro b h' ⟨rfl, hbyte⟩
      have hb := hbyte view event i hheld rfl (by omega)
      have hrest := ih (i := i + 1) (by omega)
      change ((readPayload (view.payload.offset + (i + 1)) n l).bind
        fun rest l' => .done (b :: rest) l').Meets _ _ _ _
      refine hrest.bind ?_
      rintro bytes l' h' ⟨rfl, rfl, rfl⟩
      refine ⟨?_, rfl, rfl⟩
      obtain ⟨hlt, hget⟩ := List.getElem?_eq_some_iff.mp hb
      rw [List.drop_eq_getElem_cons hlt, hget]

/-- The remaining destinations, one by one, whatever the sends return. -/
theorem sendAll_meets (rest : List UdpAddress) (sentToAny : Bool)
    (sent : Sent start l h (rest.map fun destination => (datagram, destination)) 1 0)
    (hrest : rest.length ≤ start.destinations.length) (hopen : h.stopped = false) :
    (sendAll datagram sentToAny rest l).Meets senderEnvironment (Control start)
      (fun _ l' h' => Sent start l' h' [] 1 0 ∧ h'.stopped = false) h := by
  induction rest generalizing l h sentToAny with
  | nil => exact ⟨sent, hopen⟩
  | cons destination rest ih =>
      refine ⟨⟨_, 1, 0, sent, ?_, Nat.le_refl 1⟩, ?_⟩
      · rw [List.length_map]
        exact hrest
      · rintro r h' rfl
        have hrest' : rest.length ≤ start.destinations.length := Nat.le_of_succ_le hrest
        cases r with
        | true =>
            have hsent := sent.send (fun s => { s with packetsSent := s.packetsSent + 1 }) rfl rfl
            exact ih _ hsent hrest' hopen
        | false =>
            have hsent := sent.send (fun s => { s with sendErrors := s.sendErrors + 1 }) rfl rfl
            exact ih _ hsent hrest' hopen

theorem advance_meets (sent : Sent start l h [] 1 0) (hopen : h.stopped = false) :
    (advance l).Meets senderEnvironment (Control start) (fun _ => Settled start) h := by
  rw [advance, Method.bind_apply, Method.self_apply, Process.bind_done]
  split
  case isTrue hlast =>
    refine ⟨⟨[], 1, 0, sent, Nat.zero_le _, Nat.le_refl 1⟩, ?_⟩
    rintro r h' rfl
    exact sent.exhaust hlast hopen
  case isFalse hmore => exact sent.advance hopen hmore

theorem deliver_meets {packetSize : Nat}
    (sent : Sent start l h
      (start.destinations.map fun destination => (datagram, destination)) 1 0)
    (hdatagram : l.output.take packetSize = datagram) (hopen : h.stopped = false) :
    (deliver (.ok packetSize) l).Meets senderEnvironment (Control start)
      (fun _ => Settled start) h := by
  have hall := sendAll_meets start.destinations false sent (Nat.le_refl _) hopen
  rw [← hdatagram, ← sent.destinations] at hall
  refine hall.bind ?_
  rintro sentToAny l' h' ⟨sent', hopen'⟩
  cases sentToAny with
  | true => exact advance_meets { sent' with } hopen'
  | false => exact advance_meets { sent' with } hopen'

/-- The encoder either leaves the datagram of the packet at the start of the buffer, or leaves
the buffer alone. -/
theorem encode_meets {payload : Bytes} {d : DecodedDataView}
    (hd : d = ⟨l.sessionId, l.packetSequence, { view with payload }⟩)
    (hcontrol : ∀ datagram, encoded l.output.length d = some datagram →
      ∀ op, Control start l op h)
    (hheld : h.held = some (view, { view with payload }))
    (hlength : payload.length = view.payload.length) :
    (encode view l).Meets senderEnvironment (Control start)
      (fun result l' h' => h' = h ∧ ∃ output, l' = { l with output } ∧
        output.length = l.output.length ∧
        encoded l.output.length d = result.toOption.map output.take) h := by
  have hsize : encodedSize view view.payload.length l.sessionId l.packetSequence
      l.output.length = encodedSize d.event d.event.payload.length d.sessionId
        d.packetSequence l.output.length := by
    rw [hd, ← hlength]
    rfl
  rw [encode, Method.bind_apply, Method.self_apply, Process.bind_done, hsize]
  cases hencoded : encodedSize d.event d.event.payload.length d.sessionId d.packetSequence
      l.output.length with
  | error e =>
      refine ⟨rfl, l.output, rfl, rfl, ?_⟩
      cases hsome : encoded l.output.length d with
      | none => rfl
      | some datagram =>
          obtain ⟨hwf, hfits, -⟩ := encoded_eq_some_iff.mp hsome
          rw [encodedSize_eq_ok_iff.mpr ⟨hwf, hfits, rfl⟩] at hencoded
          cases hencoded
  | ok packetSize =>
      obtain ⟨hwf, hfits, rfl⟩ := encodedSize_eq_ok_iff.mp hencoded
      have hsome := encoded_eq_some_iff.mpr ⟨hwf, hfits, rfl⟩
      have hread := readPayload_meets view.payload.length (i := 0) (hcontrol _ hsome) hheld
        hlength (Nat.zero_add _)
      refine hread.bind ?_
      rintro bytes l' h' ⟨hbytes, rfl, rfl⟩
      have hcopied : ({ view with payload := bytes } : Event) = d.event := by
        rw [hbytes, hd, List.drop_zero]
      have hwritten : writePacket { view with payload := bytes } l'.sessionId
          l'.packetSequence (packetBytes d.event.payload.length) l'.output =
            d.wire ++ l'.output.drop (packetBytes d.event.payload.length) := by
        rw [hcopied, ← writePacket_eq hwf.payload, hd]
      refine ⟨rfl, _, rfl, ?_, ?_⟩
      · rw [hwritten, List.length_append, length_wire, List.length_drop]
        omega
      · rw [hsome, hwritten, ← length_wire d]
        change some d.wire = some ((d.wire ++ _).take d.wire.length)
        rw [List.take_left]

/-- An acquired event is encoded, its slot is given back, and its datagram is sent. -/
theorem consume_meets (sent : Sent start l h [] 0 0) (hopen : h.stopped = false)
    (hshows : Shows view event) :
    (consume view l).Meets senderEnvironment (Control start) (fun _ => Settled start)
      { h with acquired := h.acquired ++ [event], held := some (view, event) } := by
  obtain ⟨payload, hlength, rfl⟩ := hshows
  generalize hd : (⟨l.sessionId, l.packetSequence, { view with payload }⟩ : DecodedDataView) = d
  rw [consume, count, Method.bind_apply, Method.assign_apply, Process.bind_done]
  cases hencoded : encoded start.maxDatagramBytes.toNat d with
  | none =>
      have hnext := sent.acquire_failed hopen (hd ▸ hencoded) (some (view, { view with payload }))
      refine Process.Meets.bind (encode_meets hd.symm ?_ rfl hlength) ?_
      · intro datagram hsome
        rw [hnext.output, hencoded] at hsome
        cases hsome
      · rintro result l' h' ⟨rfl, output, rfl, hout, hresult⟩
        rw [hnext.output, hencoded] at hresult
        refine ⟨⟨[], 0, 1, { hnext with output := hout.trans hnext.output }, Nat.zero_le _,
          Nat.zero_le _⟩, ?_⟩
        rintro r h' ⟨held, rfl⟩
        cases result with
        | ok k => cases hresult
        | error e =>
            have hfailed : Sent start { l with
                stats := { l.stats with eventsIn := l.stats.eventsIn + 1 }, output }
                { h with acquired := h.acquired ++ [{ view with payload }], held } [] 0 1 :=
              { hnext with output := hout.trans hnext.output }
            exact hfailed.fail
  | some datagram =>
      have hnext := sent.acquire_encoded hopen (hd ▸ hencoded)
        (some (view, { view with payload }))
      refine Process.Meets.bind (encode_meets hd.symm ?_ rfl hlength) ?_
      · intro _ _ op
        exact ⟨_, 1, 0, hnext, by rw [List.length_map], Nat.le_refl 1⟩
      · rintro result l' h' ⟨rfl, output, rfl, hout, hresult⟩
        rw [hnext.output, hencoded] at hresult
        refine ⟨⟨_, 1, 0, { hnext with output := hout.trans hnext.output },
          by rw [List.length_map], Nat.le_refl 1⟩, ?_⟩
        rintro r h' ⟨held, rfl⟩
        cases result with
        | error e => cases hresult
        | ok k =>
            exact deliver_meets { hnext with output := hout.trans hnext.output }
              (Option.some.inj hresult).symm hopen

/-- One turn. -/
theorem turn_meets (sent : Settled start l h) :
    (turn l).Meets senderEnvironment (Control start) (fun _ => Settled start) h := by
  refine ⟨sent.control, ?_⟩
  rintro stopRequested h' ⟨rfl, hstop⟩
  cases stopRequested with
  | true => exact sent
  | false =>
      have hopen : h'.stopped = false := Bool.eq_false_iff.mpr fun hstopped =>
        Bool.false_ne_true (hstop hstopped)
      refine ⟨sent.control, ?_⟩
      intro r h'' henv
      cases r with
      | ok view =>
          obtain ⟨event, hshows, rfl⟩ := henv
          exact consume_meets sent hopen hshows
      | error e =>
          obtain rfl : h'' = h' := henv
          cases e with
          | empty => exact sent
          | closed => exact sent
          | alreadyAcquired => exact { sent with }
          | invalidSlot => exact { sent with }

/-- The loop keeps the trace. -/
def contract (start : Sender) : Sender.run.Contract senderEnvironment where
  control := Control start
  head := Settled start
  exit := Settled start
  final := Settled start
  body := by
    intro l h sent
    refine (turn_meets sent).mono_post fun goesOn l' h' sent' => ?_
    cases goesOn with
    | true => exact sent'
    | false => exact sent'
  after := fun sent => sent

end Sender

end EventEngine
