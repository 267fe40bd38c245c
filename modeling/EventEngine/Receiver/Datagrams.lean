import EventEngine.Receiver.Counters
import EventEngine.Receiver.Delivery
import EventEngine.Transport.Socket

/-!
# A receiver and its socket

The receiver's thread calls `UdpReceiver::receive` with one buffer for all turns of `run`, and
the call takes one system call at a time, while datagrams arrive and the consumer moves. This
refines the receiver whose socket answers what it likes: what the thread gets are the datagrams
that arrived, each once, whole and in their order, and errors between them.
-/

namespace EventEngine

open Concurrency Memory Protocol Transport EventEngine.Ring

/-- How long `run` waits for a datagram. -/
def Receiver.receiveTimeoutMs : Int := 10

/-- The packet that a receiver decodes from a datagram. -/
def Transport.Datagram.packet (datagram : Datagram) : Option DecodedDataView :=
  decodedPacket (Socket.delivered maxPacketBytes datagram)

structure SocketReceiver where
  socket : Socket
  receiver : ReceiverSystem

inductive SocketReceiverAction where
  | step (answer : SocketAnswer)
  | arrive (datagram : Datagram)
  | requestStop
  | consumer (a : Ring.Action)

namespace SocketReceiver

/-- A receiver that `initialize` returned; its thread is about to enter `run`. -/
def initial (m : Span) (handle : SpscRing) : SocketReceiver :=
  ⟨.initial maxPacketBytes, .initial m handle⟩

/-- The thread waits for `receive`, or goes on with what it returned. -/
def resumed (receiver : ReceiverSystem) (resume : Received → Thread receiverAccess Receiver) :
    Option Received → ReceiverSystem
  | none => receiver
  | some r => { receiver with received := receiver.received ++ [r], thread := resume r }

/-- One step of the receiver's thread. -/
def stepThread (s : SocketReceiver) (answer : SocketAnswer) : Option SocketReceiver :=
  match Receiver.run.pending s.receiver.thread with
  | some ⟨.receive, resume⟩ =>
      (s.socket.operate Receiver.receiveTimeoutMs answer).map fun (socket, returned) =>
        ⟨socket, resumed s.receiver resume returned⟩
  | _ =>
      -- The thread asks its socket for nothing.
      (s.receiver.stepThread (.error { code := .timeout })).map fun receiver =>
        { s with receiver }

def next (s : SocketReceiver) : SocketReceiverAction → Option SocketReceiver
  | .step answer => s.stepThread answer
  | .arrive datagram => some { s with socket := s.socket.arrive datagram }
  | .requestStop => (s.receiver.next .requestStop).map fun receiver => { s with receiver }
  | .consumer a => (s.receiver.next (.consumer a)).map fun receiver => { s with receiver }

end SocketReceiver

namespace ReceiverSystem

variable {g : Geometry} {hist : List Event} {s t : ReceiverSystem} {m : Span}
variable {handle : SpscRing}

/-- The counters go on counting what the thread gets. -/
theorem Moves.counted {a : ReceiverAction} (hmoves : s.Moves a t)
    (h : Receiver.counterContract.Holds s.thread s.history) :
    Receiver.counterContract.Holds t.thread t.history := by
  cases hmoves with
  | requestStop => exact h
  | unseen _ egress hhistory =>
      rw [hhistory]
      exact h
  | loadStop answer resume hpending => exact (h.resume hpending).2 _ _ rfl
  | receive answer resume hpending hfits => exact (h.resume hpending).2 _ _ rfl
  | tryPublish answer event result resume egress hpending hhistory =>
      rw [hhistory]
      exact (h.resume hpending).2 _ _ rfl
  | closePublication answer result resume egress hpending hhistory =>
      rw [hhistory]
      exact (h.resume hpending).2 _ _ rfl

theorem reaches_counted (hinit : Initialized g handle m)
    (hrun : Reaches next anyAction (initial m handle) s) :
    Receiver.counterContract.Holds s.thread s.history := by
  have hall : (∃ hist, Ok g hist s) ∧ Receiver.counterContract.Holds s.thread s.history := by
    apply hrun.invariant (I := fun s => (∃ hist, Ok g hist s) ∧
      Receiver.counterContract.Holds s.thread s.history)
    · exact ⟨⟨[], initial_ok hinit⟩, rfl, .initial⟩
    · rintro u a v ⟨⟨hist, hok⟩, hcounted⟩ - hnext
      obtain ⟨hist', hok', -, hmoves⟩ := hok.next_cases hnext
      exact ⟨⟨hist', hok'⟩, hmoves.counted hcounted⟩
  exact hall.2

end ReceiverSystem

namespace SocketReceiver

open scoped List

variable {g : Geometry} {s t : SocketReceiver} {m : Span} {handle : SpscRing}

/-- The invariant: what was received are the datagrams that were taken. -/
structure Ok (s : SocketReceiver) : Prop where
  socket : s.socket.Ok maxPacketBytes
  received : s.receiver.received.filter arrived =
    s.socket.taken.map (Socket.delivered maxPacketBytes)

theorem initial_ok (m : Span) (handle : SpscRing) : (initial m handle).Ok where
  socket := Socket.initial_ok maxPacketBytes
  received := rfl

theorem arrived_delivered (size : Nat) (datagram : Datagram) :
    arrived (Socket.delivered size datagram) = true := by
  rw [Socket.delivered]
  split
  · rfl
  · decide

theorem fits_delivered (datagram : Datagram) :
    ReceiverSystem.fits (Socket.delivered maxPacketBytes datagram) = true := by
  rw [Socket.delivered]
  split
  case isTrue hfits => exact decide_eq_true hfits
  case isFalse => rfl

theorem not_arrived {error : UdpError} (hcode : error.code ≠ .datagramTooLarge) :
    arrived (.error error) = false :=
  decide_eq_false fun h => hcode h.1

/-- A step of the receiver for which no datagram was taken. -/
theorem Ok.receiver_moves {a : ReceiverAction} {receiver : ReceiverSystem} (h : s.Ok)
    (hnone : ∀ answer, a = .step answer → arrived answer = false)
    (hnext : s.receiver.next a = some receiver) :
    Ok { s with receiver } ∧
      Reaches ReceiverSystem.next anyAction s.receiver receiver := by
  refine ⟨⟨h.socket, ?_⟩, .single ⟨a, trivial, hnext⟩⟩
  obtain hsame | ⟨answer, hstep, -, hreceived⟩ := ReceiverSystem.next_received hnext
  · rw [hsame]
    exact h.received
  · rw [hreceived, List.filter_append, List.filter_cons_of_neg (by simp [hnone answer hstep]),
      List.filter_nil, List.append_nil]
    exact h.received

/-- The thread gets an answer of `receive`. -/
theorem next_receive {resume : Received → Thread receiverAccess Receiver} {r : Received}
    (hpending : Receiver.run.pending s.receiver.thread = some ⟨.receive, resume⟩)
    (hfits : ReceiverSystem.fits r = true) :
    Reaches ReceiverSystem.next anyAction s.receiver (resumed s.receiver resume (some r)) := by
  refine .single ⟨.step r, trivial, ?_⟩
  simp only [ReceiverSystem.next, ReceiverSystem.stepThread, hpending, hfits, if_true]
  rfl

/-- An access of a call of `receive`. -/
theorem Ok.receives {resume : Received → Thread receiverAccess Receiver} {answer : SocketAnswer}
    {socket : Socket} {returned : Option Received} (h : s.Ok)
    (hpending : Receiver.run.pending s.receiver.thread = some ⟨.receive, resume⟩)
    (hoperated : s.socket.Operated maxPacketBytes answer socket returned) :
    Ok ⟨socket, resumed s.receiver resume returned⟩ ∧
      Reaches ReceiverSystem.next anyAction s.receiver (resumed s.receiver resume returned) := by
  have hsocket := h.socket.operated hoperated
  cases hoperated with
  | waits hidle hreadable => exact ⟨⟨hsocket, h.received⟩, .refl⟩
  | fails error hcode hfailed =>
      refine ⟨⟨hsocket, ?_⟩, next_receive hpending rfl⟩
      rw [resumed, List.filter_append, List.filter_cons_of_neg (by simp [not_arrived hcode]),
        List.filter_nil, List.append_nil]
      exact h.received
  | takes datagram queue buffer hqueue hbuffer =>
      refine ⟨⟨hsocket, ?_⟩, next_receive hpending (fits_delivered datagram)⟩
      rw [resumed, List.filter_append, List.filter_cons_of_pos (arrived_delivered _ datagram),
        List.filter_nil, h.received, List.map_append]
      rfl

/-- Every action keeps the invariant, and is one of the receiver whose socket answers what it
likes, or none. -/
theorem Ok.next {a : SocketReceiverAction} (h : s.Ok) (hnext : s.next a = some t) :
    t.Ok ∧ Reaches ReceiverSystem.next anyAction s.receiver t.receiver := by
  cases a with
  | step answer =>
      simp only [SocketReceiver.next, stepThread] at hnext
      split at hnext
      case h_1 resume hpending =>
        obtain ⟨⟨socket, returned⟩, hoperate, rfl⟩ := Option.map_eq_some_iff.mp hnext
        exact h.receives hpending (h.socket.operate hoperate)
      case h_2 =>
        obtain ⟨receiver, hreceiver, rfl⟩ := Option.map_eq_some_iff.mp hnext
        apply h.receiver_moves (a := .step (.error { code := .timeout })) _ hreceiver
        rintro answer heq
        cases heq
        rfl
  | arrive datagram =>
      obtain rfl := Option.some.inj hnext
      exact ⟨⟨h.socket.arrive datagram, h.received⟩, .refl⟩
  | requestStop =>
      simp only [SocketReceiver.next] at hnext
      obtain ⟨receiver, hreceiver, rfl⟩ := Option.map_eq_some_iff.mp hnext
      exact h.receiver_moves (fun answer hno => by cases hno) hreceiver
  | consumer a =>
      obtain ⟨receiver, hreceiver, rfl⟩ := Option.map_eq_some_iff.mp hnext
      exact h.receiver_moves (fun answer hno => by cases hno) hreceiver

theorem reaches_ok (hrun : Reaches next anyAction (initial m handle) s) :
    s.Ok ∧ Reaches ReceiverSystem.next anyAction (.initial m handle) s.receiver :=
  hrun.refines SocketReceiver.receiver (initial_ok m handle)
    fun _ _ _ hok _ hnext => hok.next hnext

/-! ### What becomes of the datagrams -/

/-- Only a datagram that was taken holds a packet. -/
theorem Ok.decodable (h : s.Ok) :
    decodable s.receiver.received = s.socket.taken.filterMap Datagram.packet := by
  have hfilter : ∀ received, EventEngine.decodable (received.filter arrived) =
      EventEngine.decodable received := by
    intro received
    rw [EventEngine.decodable, List.filterMap_filter]
    apply List.filterMap_congr
    intro r _
    cases hr : decodedPacket r with
    | none => exact ite_self none
    | some d => rw [if_pos (arrived_of_decoded hr)]
  rw [← hfilter, h.received, EventEngine.decodable, List.filterMap_map]
  rfl

theorem Ok.countP_arrived (h : s.Ok) :
    s.receiver.received.countP arrived = s.socket.taken.length := by
  rw [List.countP_eq_length_filter, h.received, List.length_map]

theorem Ok.countP_malformed (h : s.Ok) : s.receiver.received.countP malformed =
    s.socket.taken.countP fun datagram => datagram.packet.isNone := by
  have hfilter := List.countP_filter (p := malformed) (q := arrived) (l := s.receiver.received)
  have hboth : (fun r => malformed r && arrived r) = malformed := by
    funext r
    rw [malformed, Bool.and_right_comm, Bool.and_self]
  rw [hboth, h.received, List.countP_map] at hfilter
  rw [← hfilter]
  apply List.countP_congr
  intro datagram _
  rw [Function.comp, malformed, arrived_delivered, Bool.true_and]
  rfl

/-- Whatever the kernel answers and however the datagrams, the thread and the consumer
interleave, the receiver behaves as one whose socket answers what it likes. Each datagram that
arrived is taken once, whole and in its order, or still queued; the receiver tries only events of
the packets among those taken, with rising sequences; what the consumer acquires are events of
packets that arrived, in their order; and the counters count the datagrams that were taken. -/
theorem arrivals_accounted (hinit : Initialized g handle m)
    (hrun : Reaches next anyAction (initial m handle) s) :
    Reaches ReceiverSystem.next anyAction (.initial m handle) s.receiver ∧
    s.socket.arrived = s.socket.taken ++ s.socket.queue ∧
    s.receiver.received.filter arrived =
      s.socket.taken.map (Socket.delivered maxPacketBytes) ∧
    (∃ packets : List DecodedDataView,
      s.receiver.attempted = packets.map DecodedDataView.event ∧
      packets.Sublist (s.socket.taken.filterMap Datagram.packet) ∧
      packets.Pairwise (fun d d' => d.packetSequence < d'.packetSequence)) ∧
    s.receiver.egress.consumer.acquiredEvents.Sublist
      ((s.socket.arrived.filterMap Datagram.packet).map DecodedDataView.event) ∧
    ∀ l, s.receiver.thread.AtRest l →
      l.stats.packetsReceived = .ofNat s.socket.taken.length ∧
      l.stats.malformedPackets =
        .ofNat (s.socket.taken.countP fun datagram => datagram.packet.isNone) := by
  obtain ⟨hok, hreceiver⟩ := reaches_ok hrun
  obtain ⟨hist, hreceiverOk⟩ := ReceiverSystem.reaches_ok hinit hreceiver
  obtain ⟨l, packets, waiting, acc, hattempted⟩ := hreceiverOk.accounts
  have hpackets : packets.Sublist (s.socket.taken.filterMap Datagram.packet) :=
    hok.decodable ▸ acc.sublist
  refine ⟨hreceiver, hok.socket.ledger, hok.received, ?_, ?_, ?_⟩
  · refine ⟨packets.take s.receiver.attempted.length, ?_, ?_, ?_⟩
    · rw [List.map_take]
      exact List.prefix_iff_eq_take.mp hattempted
    · exact (List.take_sublist _ _).trans hpackets
    · refine (acc.rising.sublist (List.take_sublist _ _)).imp fun hlt => ?_
      exact UInt64.lt_iff_toNat_lt.mpr hlt
  · have harrived : s.socket.taken.Sublist s.socket.arrived :=
      hok.socket.ledger ▸ List.sublist_append_left _ _
    calc s.receiver.egress.consumer.acquiredEvents
        <+ s.receiver.attempted := hreceiverOk.acquired_attempted
      _ <+ packets.map DecodedDataView.event := hattempted.sublist
      _ <+ (s.socket.taken.filterMap Datagram.packet).map DecodedDataView.event :=
          hpackets.map _
      _ <+ (s.socket.arrived.filterMap Datagram.packet).map DecodedDataView.event :=
          (harrived.filterMap _).map _
  · intro l hrest
    have hholds := ReceiverSystem.reaches_counted hinit hreceiver
    have hcounted : l.CountedBy [] s.receiver.history := (hholds.atRest hrest).elim id id
    obtain ⟨-, hcounted⟩ := hcounted
    constructor
    · rw [hcounted.packetsReceived]
      exact congrArg UInt64.ofNat hok.countP_arrived
    · rw [hcounted.malformedPackets]
      exact congrArg UInt64.ofNat hok.countP_malformed

/-- A datagram that does not fit, one that is no packet, and then a shorter one with a packet;
between them a timeout and an interrupted call. The receiver is stopped, and the consumer
acquires. -/
def sampleActions : List SocketReceiverAction :=
  let peer : UdpAddress := ⟨0x7f000001, 9000⟩
  let readable : SocketAnswer := { polled := ⟨1, pollIn, 0⟩ }
  let step := SocketReceiverAction.step readable
  .arrive ⟨peer, List.replicate 1433 1⟩ :: .arrive ⟨peer, List.replicate 60 255⟩ ::
    .arrive ⟨peer, DecodedDataView.wire ⟨7, 1, sampleEvent⟩⟩ ::
    List.replicate 7 step ++ [.step {}, step, step, .step { failure := some eintr }] ++
    List.replicate 12 step ++ .requestStop :: List.replicate 3 step ++
    .consumer (.begin .consumer .tryAcquire) ::
    List.replicate 10 (.consumer (.step .consumer))

theorem arrivals_accounted_sample : ∃ s l,
    runActions next anyAction (initial sampleMemory sampleHandle) sampleActions = some s ∧
      s.receiver.egress.consumer.acquiredEvents = [sampleEvent] ∧
      s.receiver.thread = .returned l ∧
      l.stats.packetsReceived = 3 ∧ l.stats.malformedPackets = 2 := by
  have hsample : (runActions next anyAction (initial sampleMemory sampleHandle)
      sampleActions).map (fun s => (s.receiver.egress.consumer.acquiredEvents,
        s.receiver.thread.hasReturned, s.socket.taken.length,
        s.socket.taken.countP fun datagram => datagram.packet.isNone)) =
          some ([sampleEvent], true, 3, 2) := by
    decide +kernel
  obtain ⟨s, hs, heq⟩ := Option.map_eq_some_iff.mp hsample
  simp only [Prod.mk.injEq] at heq
  obtain ⟨hacquired, hthread, htaken, hmalformed⟩ := heq
  obtain ⟨l, hreturned⟩ := Thread.eq_of_hasReturned hthread
  obtain ⟨-, -, -, -, -, hcounters⟩ :=
    arrivals_accounted initialized_sample (reaches_of_runActions hs)
  obtain ⟨hpackets, hgarbage⟩ := hcounters l (.inr hreturned)
  rw [htaken] at hpackets
  rw [hmalformed] at hgarbage
  exact ⟨s, l, hs, hacquired, hreturned, hpackets, hgarbage⟩

end SocketReceiver

end EventEngine
