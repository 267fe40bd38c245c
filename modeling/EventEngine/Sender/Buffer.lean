import EventEngine.Concurrency.Alike
import EventEngine.Protocol.Stores
import EventEngine.Sender.System

/-!
# The packet buffer of a sender

`run` encodes every packet into the same buffer. What the buffer holds at the head of the loop
does not show in any later access: two runs that differ in it only ask the same of the ring and
the socket, as long as they get the same answers.
-/

namespace EventEngine

open Concurrency Memory Protocol

/-- The same sender, with a buffer of the same length. -/
structure SameButBuffer (l l' : SenderFrame) : Prop where
  sender : l.toSender = l'.toSender
  length : l.output.length = l'.output.length

variable {l l' : SenderFrame} {event : EventView ByteRange}

namespace SameButBuffer

theorem stats (f : EngineStats → EngineStats) (h : SameButBuffer l l') :
    SameButBuffer { l with stats := f l.stats } { l' with stats := f l'.stats } where
  sender := by
    change { l.toSender with stats := f l.toSender.stats } =
      { l'.toSender with stats := f l'.toSender.stats }
    rw [h.sender]
  length := h.length

theorem sequence (h : SameButBuffer l l') :
    SameButBuffer { l with packetSequence := l.packetSequence + 1 }
      { l' with packetSequence := l'.packetSequence + 1 } where
  sender := by
    change { l.toSender with packetSequence := l.toSender.packetSequence + 1 } =
      { l'.toSender with packetSequence := l'.toSender.packetSequence + 1 }
    rw [h.sender]
  length := h.length

end SameButBuffer

namespace Sender

theorem count_respects (f : EngineStats → EngineStats) :
    (count f).Respects SameButBuffer := by
  apply Method.Respects.assign
  intro l l' h
  exact h.stats f

theorem readPayload_respects (offset n : Nat) :
    (readPayload offset n).Respects SameButBuffer := by
  induction n generalizing offset with
  | zero => exact Method.Respects.pure _
  | succ n ih =>
      apply Method.Respects.bind (Method.Respects.perform _)
      intro b
      apply Method.Respects.bind (ih (offset + 1))
      intro rest
      exact Method.Respects.pure _

theorem sendAll_respects (datagram : Bytes) (sentToAny : Bool) (rest : List Transport.UdpAddress) :
    (sendAll datagram sentToAny rest).Respects SameButBuffer := by
  induction rest generalizing sentToAny with
  | nil => exact Method.Respects.pure _
  | cons destination rest ih =>
      apply Method.Respects.bind (Method.Respects.perform _)
      intro sent
      apply Method.Respects.ite
      · exact Method.Respects.bind (count_respects _) fun _ => ih true
      · exact Method.Respects.bind (count_respects _) fun _ => ih sentToAny

theorem advance_respects : advance.Respects SameButBuffer := by
  apply Method.Respects.bind_self
  · intro l l' h
    have hsequence : l.packetSequence = l'.packetSequence :=
      congrArg Sender.packetSequence h.sender
    rw [hsequence]
  intro l
  apply Method.Respects.ite
  · exact Method.Respects.bind (Method.Respects.perform _) fun _ => Method.Respects.pure _
  · apply Method.Respects.bind ?_ fun _ => Method.Respects.pure _
    apply Method.Respects.assign
    intro l1 l1' h
    exact h.sequence

/-- A packet is sent alike from buffers that start alike. -/
theorem deliver_alike {packetSize : Nat} (h : SameButBuffer l l')
    (hpacket : l.output.take packetSize = l'.output.take packetSize) :
    (deliver (.ok packetSize) l).Alike SameButBuffer (deliver (.ok packetSize) l') := by
  have hdestinations : l.destinations = l'.destinations := congrArg Sender.destinations h.sender
  simp only [deliver, Method.bind_apply, Method.self_apply, Process.bind_done]
  rw [hpacket, hdestinations]
  apply (sendAll_respects _ false _ l l' h).bind
  intro sentToAny l1 l1' h1
  have hrest : Method.Respects SameButBuffer (if sentToAny = true then do
        count fun s => { s with eventsOut := s.eventsOut + 1 }
        advance
      else do
        count fun s => { s with eventsDropped := s.eventsDropped + 1 }
        advance) := by
    apply Method.Respects.ite
    · exact Method.Respects.bind (count_respects _) fun _ => advance_respects
    · exact Method.Respects.bind (count_respects _) fun _ => advance_respects
  exact hrest l1 l1' h1

theorem deliver_error_respects (e : EncodeError) :
    (deliver (.error e)).Respects SameButBuffer :=
  Method.Respects.bind (count_respects _) fun _ =>
    Method.Respects.bind (count_respects _) fun _ => Method.Respects.pure _

/-- The encoder overwrites what will be sent. -/
theorem consume_respects (event : EventView ByteRange) :
    (consume event).Respects SameButBuffer := by
  apply Method.Respects.bind (count_respects _)
  intro _ l l' h
  have hsession : l.sessionId = l'.sessionId := congrArg Sender.sessionId h.sender
  have hsequence : l.packetSequence = l'.packetSequence :=
    congrArg Sender.packetSequence h.sender
  simp only [encode, Method.bind_apply, Method.self_apply, Process.bind_done]
  rw [← hsession, ← hsequence, ← h.length]
  cases hsize : encodedSize event event.payload.length l.sessionId l.packetSequence
      l.output.length with
  | error e =>
      apply Process.Alike.step _ h
      intro r
      exact deliver_error_respects e l l' h
  | ok packetSize =>
      simp only [Method.bind_apply, Process.bind_assoc]
      apply (readPayload_respects _ _ l l' h).bind
      intro payload l1 l1' h1
      have hsession1 : l1.sessionId = l1'.sessionId := congrArg Sender.sessionId h1.sender
      have hsequence1 : l1.packetSequence = l1'.packetSequence :=
        congrArg Sender.packetSequence h1.sender
      have hwritten : SameButBuffer
          { l1 with
            output := writePacket { event with payload } l1.sessionId l1.packetSequence
              packetSize l1.output }
          { l1' with
            output := writePacket { event with payload } l1'.sessionId l1'.packetSequence
              packetSize l1'.output } := by
        refine ⟨h1.sender, ?_⟩
        simp only [length_writePacket]
        rw [h1.length]
      apply Process.Alike.step _ hwritten
      intro r
      apply deliver_alike hwritten
      rw [← hsession1, ← hsequence1]
      exact take_writePacket _ _ _ _ (Nat.le_max_left _ _) _ _

theorem run_respects : run.Respects SameButBuffer where
  body := by
    apply Method.Respects.bind (Method.Respects.perform _)
    intro stopRequested
    apply Method.Respects.ite (Method.Respects.pure _)
    apply Method.Respects.bind (Method.Respects.perform _)
    intro acquired
    cases acquired with
    | ok event => exact consume_respects event
    | error e =>
        cases e with
        | empty => exact Method.Respects.pure _
        | closed => exact Method.Respects.pure _
        | alreadyAcquired =>
            exact Method.Respects.bind (count_respects _) fun _ => Method.Respects.pure _
        | invalidSlot =>
            exact Method.Respects.bind (count_respects _) fun _ => Method.Respects.pure _
  after := Method.Respects.pure _

end Sender

namespace SenderSystem

variable {s s' t : SenderSystem} {a : SenderAction}

/-- Systems whose senders differ in their buffers only. -/
structure SameButBuffers (s s' : SenderSystem) : Prop where
  ingress : s'.ingress = s.ingress
  stopRequested : s'.stopRequested = s.stopRequested
  attempts : s'.attempts = s.attempts
  movedFrom : s'.movedFrom = s.movedFrom
  thread : s.thread.Alike SameButBuffer s'.thread

/-- One step of the thread asks the same and sends the same. -/
theorem SameButBuffers.stepThread {sent : Bool} (h : SameButBuffers s s')
    (hstep : s.stepThread sent = some t) :
    ∃ t', s'.stepThread sent = some t' ∧ SameButBuffers t t' := by
  obtain ⟨ingress, thread, stopRequested, attempts, movedFrom⟩ := s
  obtain ⟨ingress', thread', stopRequested', attempts', movedFrom'⟩ := s'
  obtain ⟨hingress, hstop, hattempts, hmoved, hthread⟩ := h
  simp only at hingress hstop hattempts hmoved hthread
  subst hingress hstop hattempts hmoved
  have hpending := Sender.run_respects.pending hthread
  simp only [SenderSystem.stepThread] at hstep ⊢
  obtain ⟨hnone, -⟩ | ⟨op, resume, resume', hop, hop', hresume⟩ := hpending
  · rw [hnone] at hstep
    cases hstep
  rw [hop] at hstep
  rw [hop']
  cases op with
  | loadStop =>
      obtain rfl := Option.some.inj hstep
      exact ⟨_, rfl, rfl, rfl, rfl, rfl, hresume _⟩
  | requestStop =>
      obtain rfl := Option.some.inj hstep
      exact ⟨_, rfl, rfl, rfl, rfl, rfl, hresume ()⟩
  | tryAcquire =>
      simp only at hstep ⊢
      split at hstep
      case h_1 =>
        obtain rfl := Option.some.inj hstep
        exact ⟨_, rfl, rfl, rfl, rfl, rfl, hthread⟩
      case h_2 =>
        obtain rfl := Option.some.inj hstep
        exact ⟨_, rfl, rfl, rfl, rfl, rfl, hresume _⟩
      case h_3 => cases hstep
  | readByte offset =>
      obtain rfl := Option.some.inj hstep
      exact ⟨_, rfl, rfl, rfl, rfl, rfl, hresume _⟩
  | release =>
      simp only at hstep ⊢
      split at hstep
      case h_1 =>
        obtain rfl := Option.some.inj hstep
        exact ⟨_, rfl, rfl, rfl, rfl, rfl, hthread⟩
      case h_2 =>
        obtain rfl := Option.some.inj hstep
        exact ⟨_, rfl, rfl, rfl, rfl, rfl, hresume _⟩
      case h_3 => cases hstep
  | sendTo datagram destination =>
      obtain rfl := Option.some.inj hstep
      exact ⟨_, rfl, rfl, rfl, rfl, rfl, hresume sent⟩

theorem SameButBuffers.next (h : SameButBuffers s s') (hnext : s.next a = some t) :
    ∃ t', s'.next a = some t' ∧ SameButBuffers t t' := by
  cases a with
  | step sent => exact h.stepThread hnext
  | requestStop =>
      obtain rfl := Option.some.inj hnext
      exact ⟨_, rfl, { h with stopRequested := rfl }⟩
  | run =>
      simp only [SenderSystem.next] at hnext ⊢
      have hthread := h.thread
      generalize s'.thread = thread' at hthread ⊢
      split at hnext
      case h_1 l hreturned =>
        obtain rfl := Option.some.inj hnext
        rw [hreturned] at hthread
        cases hthread with
        | returned hl =>
            refine ⟨_, rfl, { h with thread := .head ?_ }⟩
            rw [hl.sender]
            exact ⟨rfl, rfl⟩
      case h_2 => cases hnext
  | move =>
      simp only [SenderSystem.next] at hnext ⊢
      have hthread := h.thread
      generalize s'.thread = thread' at hthread ⊢
      split at hnext
      case h_1 l hreturned =>
        obtain rfl := Option.some.inj hnext
        rw [hreturned] at hthread
        cases hthread with
        | returned hl =>
            refine ⟨_, rfl, ?_⟩
            rw [h.ingress, h.stopRequested, h.attempts, h.movedFrom, hl.sender]
            exact ⟨rfl, rfl, rfl, rfl, .returned ⟨rfl, rfl⟩⟩
      case h_2 => cases hnext
  | ingress a =>
      simp only [SenderSystem.next] at hnext ⊢
      rw [h.ingress]
      split at hnext
      case isTrue => cases hnext
      case isFalse hactor =>
        obtain ⟨ingress, hingress, rfl⟩ := Option.map_eq_some_iff.mp hnext
        rw [if_neg hactor, hingress]
        exact ⟨_, rfl, { h with ingress := rfl }⟩

theorem SameButBuffers.run {actions : List SenderAction} (h : SameButBuffers s s')
    (hrun : runActions SenderSystem.next anyAction s actions = some t) :
    ∃ t', runActions SenderSystem.next anyAction s' actions = some t' ∧
      SameButBuffers t t' :=
  runActions_related (fun _ _ _ _ hsame hnext => hsame.next hnext) h hrun

/-- What the packet buffer holds at the head of the loop, an earlier packet or any other bytes,
is never sent: every schedule makes the same calls and sends the same datagrams. -/
theorem buffer_never_sent {actions : List SenderAction} {l : SenderFrame} {output : Bytes}
    (hhead : s.thread = .head l) (hlength : output.length = l.output.length)
    (hrun : runActions SenderSystem.next anyAction s actions = some t) :
    ∃ t', runActions SenderSystem.next anyAction
        { s with thread := .head { l with output } } actions = some t' ∧
      t'.attempts = t.attempts ∧ t'.ingress = t.ingress := by
  have hstart : SameButBuffers s { s with thread := .head { l with output } } := by
    refine ⟨rfl, rfl, rfl, rfl, ?_⟩
    rw [hhead]
    exact .head ⟨rfl, hlength.symm⟩
  obtain ⟨t', hrun', hsame⟩ := hstart.run hrun
  exact ⟨t', hrun', hsame.attempts, hsame.ingress⟩

end SenderSystem

/-- For every event, both identifiers and every buffer: the encoder succeeds exactly if the
identifiers and the event's sequence are nonzero, the payload has at most 1374 bytes and the
packet fits; its stores then tile the packet, whose bytes do not depend on what the buffer held,
and nothing behind it changes. If it fails it stores nothing. What a sender's buffer holds
between two turns is never sent. -/
theorem encoder_writes_packet :
    (∀ (event : Event) (sessionId : UInt32) (packetSequence : UInt64) (output : Bytes),
      ((∃ k, (encodeData event sessionId packetSequence output).1 = .ok k) ↔
        sessionId ≠ 0 ∧ packetSequence ≠ 0 ∧ event.sequence ≠ 0 ∧
          event.payload.length ≤ 1374 ∧
          36 + alignUp sizeBits (6 + event.payload.length) 4 ≤ output.length) ∧
      (encodeData event sessionId packetSequence output).2 =
        applyStores (encodeStores event sessionId packetSequence output.length) output ∧
      (∀ k, (encodeData event sessionId packetSequence output).1 = .ok k →
        Encoded event sessionId packetSequence output k) ∧
      ∀ e, (encodeData event sessionId packetSequence output).1 = .error e →
        encodeStores event sessionId packetSequence output.length = [] ∧
          (encodeData event sessionId packetSequence output).2 = output) ∧
    ∀ (s t : SenderSystem) (actions : List SenderAction) (l : SenderFrame) (output : Bytes),
      s.thread = .head l → output.length = l.output.length →
      runActions SenderSystem.next anyAction s actions = some t →
      ∃ t', runActions SenderSystem.next anyAction
          { s with thread := .head { l with output } } actions = some t' ∧
        t'.attempts = t.attempts ∧ t'.ingress = t.ingress := by
  refine ⟨?_, fun s t actions l output hhead hlength hrun =>
    SenderSystem.buffer_never_sent hhead hlength hrun⟩
  intro event sessionId packetSequence output
  refine ⟨?_, encodeData_eq_stores event sessionId packetSequence output,
    fun k hk => encodeData_encoded hk, ?_⟩
  · constructor
    · rintro ⟨k, hk⟩
      obtain ⟨hwf, hfits, -⟩ := encodeData_ok_iff.mp hk
      refine ⟨hwf.sessionId, hwf.packetSequence, hwf.eventSequence, hwf.payload, ?_⟩
      rw [alignUp_payload hwf.payload]
      exact hfits
    · rintro ⟨hsession, hsequence, hevent, hpayload, hfits⟩
      rw [alignUp_payload hpayload] at hfits
      exact ⟨_, encodeData_ok_iff.mpr ⟨⟨hsession, hsequence, hevent, hpayload⟩, hfits, rfl⟩⟩
  · intro e he
    simp only [encodeData] at he ⊢
    rw [encodeStores]
    cases hsize : encodedSize event event.payload.length sessionId packetSequence
        output.length with
    | error e' => exact ⟨rfl, rfl⟩
    | ok packetSize =>
        rw [hsize] at he
        cases he

/-- A sender at the head of its loop, about to send its second packet, with any buffer. -/
def sampleBuffered (output : Bytes) : SenderSystem :=
  let sender : Sender := ⟨48, [⟨0x7f000001, 9000⟩], 7, 2, {}⟩
  { SenderSystem.initial sender (Ring.System.initial Ring.sampleMemory Ring.sampleHandle) with
    thread := .head { sender with output } }

/-- An event is published; the sender takes and sends it. -/
def sampleBufferedTurn : List SenderAction :=
  .ingress (.begin .producer (.tryPublish Ring.sampleEvent)) ::
    List.replicate 8 (.ingress (.step .producer)) ++ List.replicate 16 (.step true)

/-- The smallest packet, over a buffer of other bytes: the padding is overwritten too. A sender
whose buffer holds an earlier and longer packet sends what it sends from a zeroed buffer. -/
theorem encoder_writes_packet_sample :
    (Encoded ⟨1, 2, 3, [9]⟩ 7 1 (List.replicate 50 0xff) 44 ∧
      (encodeData ⟨1, 2, 3, [9]⟩ 7 1 (List.replicate 50 0xff)).2.drop 43 =
        0 :: List.replicate 6 0xff) ∧
    ∃ t', runActions SenderSystem.next anyAction
        (sampleBuffered (encodeData ⟨1, 1, 3, [8, 8, 8, 8, 8]⟩ 7 1 (List.replicate 48 0)).2)
        sampleBufferedTurn = some t' ∧
      t'.attempts = [((encodeData Ring.sampleEvent 7 2 (List.replicate 44 0)).2,
        ⟨0x7f000001, 9000⟩)] := by
  constructor
  · refine ⟨?_, by decide +kernel⟩
    exact (encoder_writes_packet.1 ⟨1, 2, 3, [9]⟩ 7 1 (List.replicate 50 0xff)).2.2.1 44
      (by decide +kernel)
  · have hzeroed : (runActions SenderSystem.next anyAction (sampleBuffered (List.replicate 48 0))
        sampleBufferedTurn).map SenderSystem.attempts =
          some [((encodeData Ring.sampleEvent 7 2 (List.replicate 44 0)).2,
            ⟨0x7f000001, 9000⟩)] := by
      decide +kernel
    obtain ⟨t, hrun, hattempts⟩ := Option.map_eq_some_iff.mp hzeroed
    obtain ⟨t', hrun', hsame, -⟩ := encoder_writes_packet.2 _ t sampleBufferedTurn _
      (encodeData ⟨1, 1, 3, [8, 8, 8, 8, 8]⟩ 7 1 (List.replicate 48 0)).2 rfl
      (by decide +kernel) hrun
    exact ⟨t', hrun', hsame.trans hattempts⟩

end EventEngine
