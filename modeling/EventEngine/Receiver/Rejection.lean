import EventEngine.Concurrency.Alike
import EventEngine.Receiver.Counters

/-!
# Rejected datagrams

A datagram that is malformed, too large, old or of another session changes nothing but
counters of its own kind. `SameDelivery` is what two receivers have in common of which one did
not see such datagrams; every method of `run` goes on alike from them.
-/

namespace EventEngine

open Concurrency Memory Protocol Transport

/-- The datagram is counted as a packet, but the detector does not let it pass. -/
def Rejects (detector : GapDetector) (r : Received) : Prop :=
  arrived r = true ∧ ∀ d, decodedPacket r = some d →
    (detector.check d.sessionId d.packetSequence).1.status ≠ .accepted

/-- The `i`-th result of the socket was a datagram that the receiver rejected. -/
def RejectedAt (received : List Received) (i : Nat) : Prop :=
  ∃ r, received[i]? = some r ∧ Rejects (filtered (received.take i)).2 r

/-- What a receiver has in common with one that did not see some rejected datagrams. -/
structure SameDelivery (l l' : Receiver) : Prop where
  gapDetector : l.gapDetector = l'.gapDetector
  eventsIn : l.stats.eventsIn = l'.stats.eventsIn
  eventsOut : l.stats.eventsOut = l'.stats.eventsOut
  gapsDetected : l.stats.gapsDetected = l'.stats.gapsDetected
  packetsMissed : l.stats.packetsMissed = l'.stats.packetsMissed
  egressFull : l.stats.egressFull = l'.stats.egressFull
  egressErrors : l.stats.egressErrors = l'.stats.egressErrors
  receiveErrors : l.stats.receiveErrors = l'.stats.receiveErrors

theorem SameDelivery.symm {l l' : Receiver} (h : SameDelivery l l') : SameDelivery l' l := by
  constructor
  · exact h.gapDetector.symm
  · exact h.eventsIn.symm
  · exact h.eventsOut.symm
  · exact h.gapsDetected.symm
  · exact h.packetsMissed.symm
  · exact h.egressFull.symm
  · exact h.egressErrors.symm
  · exact h.receiveErrors.symm

theorem SameDelivery.trans {l l' l'' : Receiver} (h : SameDelivery l l')
    (h' : SameDelivery l' l'') : SameDelivery l l'' := by
  constructor
  · exact h.gapDetector.trans h'.gapDetector
  · exact h.eventsIn.trans h'.eventsIn
  · exact h.eventsOut.trans h'.eventsOut
  · exact h.gapsDetected.trans h'.gapsDetected
  · exact h.packetsMissed.trans h'.packetsMissed
  · exact h.egressFull.trans h'.egressFull
  · exact h.egressErrors.trans h'.egressErrors
  · exact h.receiveErrors.trans h'.receiveErrors

/-- Whether a datagram was rejected shows as soon as it has arrived. -/
theorem rejectedAt_of_grows {received received' : List Received} {i : Nat}
    (hgrows : received <+: received') (hi : i < received.length)
    (hreject : RejectedAt received' i) : RejectedAt received i := by
  obtain ⟨later, rfl⟩ := hgrows
  obtain ⟨r, hr, hrejects⟩ := hreject
  rw [List.getElem?_append_left hi] at hr
  rw [List.take_append_of_le_length (Nat.le_of_lt hi)] at hrejects
  exact ⟨r, hr, hrejects⟩

/-- A datagram that has not arrived was not rejected. -/
theorem not_rejectedAt_length (received : List Received) :
    ¬ RejectedAt received received.length := by
  rintro ⟨r, hr, -⟩
  rw [List.getElem?_eq_none (Nat.le_refl _)] at hr
  cases hr

/-- What the detector let pass or rejected once, it rejects from then on. -/
theorem rejects_again {received : List Received} {r : Received} (hr : r ∈ received)
    (harrived : arrived r = true) : Rejects (filtered received).2 r := by
  refine ⟨harrived, ?_⟩
  intro d hd
  have hmem : d ∈ decodable received := List.mem_filterMap.mpr ⟨r, hr, hd⟩
  have hrefuse := @GapDetector.checks_refuse
    ((decodable received).map fun d => (d.sessionId, d.packetSequence)) (by
      intro call hcall
      obtain ⟨d', hd', rfl⟩ := List.mem_map.mp hcall
      exact (decodable_wellFormed hd').sessionId)
    (d.sessionId, d.packetSequence) (List.mem_map_of_mem hmem)
  rcases (filtered received).2.check_cases d.sessionId d.packetSequence with
    ⟨haccept, -, -⟩ | ⟨-, hstatus, -⟩
  · exact absurd haccept hrefuse
  · exact hstatus

/-- So every later copy of a datagram is rejected. -/
theorem copy_rejected {received : List Received} {r : Received} {i j : Nat} (hlater : j < i)
    (hj : received[j]? = some r) (hi : received[i]? = some r) (harrived : arrived r = true) :
    RejectedAt received i := by
  refine ⟨r, hi, rejects_again ?_ harrived⟩
  apply List.mem_of_getElem? (i := j)
  rw [List.getElem?_take_of_lt hlater]
  exact hj

namespace Receiver

variable {l l' : Receiver} {r : Received}

theorem publish_respects (event : Event) : (publish event).Respects SameDelivery := by
  apply Method.Respects.bind
  · apply Method.Respects.assign
    intro l l' h
    exact { h with eventsIn := congrArg (· + 1) h.eventsIn }
  intro _
  apply Method.Respects.bind (Method.Respects.perform _)
  intro published
  apply Method.Respects.ite
  · apply Method.Respects.bind ?_ fun _ => Method.Respects.pure _
    apply Method.Respects.assign
    intro l l' h
    exact { h with eventsOut := congrArg (· + 1) h.eventsOut }
  apply Method.Respects.bind
  · apply Method.Respects.assign
    intro l l' h
    exact { h with }
  intro _
  apply Method.Respects.ite
  · apply Method.Respects.bind ?_ fun _ => Method.Respects.pure _
    apply Method.Respects.assign
    intro l l' h
    exact { h with egressFull := congrArg (· + 1) h.egressFull }
  · apply Method.Respects.bind ?_ fun _ => Method.Respects.pure _
    apply Method.Respects.assign
    intro l l' h
    exact { h with egressErrors := congrArg (· + 1) h.egressErrors }

theorem filter_respects (decoded : DecodedDataView) :
    (filter decoded).Respects SameDelivery := by
  apply Method.Respects.bind_self
  · intro l l' h
    rw [h.gapDetector]
  intro l
  generalize l.gapDetector.check decoded.sessionId decoded.packetSequence = checked
  apply Method.Respects.bind
  · apply Method.Respects.assign
    intro l l' h
    exact { h with gapDetector := rfl }
  intro _
  apply Method.Respects.ite
  · have hdropped : Method.Respects SameDelivery (do
        count fun s => { s with eventsDropped := s.eventsDropped + 1 }
        return true) := by
      apply Method.Respects.bind ?_ fun _ => Method.Respects.pure _
      apply Method.Respects.assign
      intro l l' h
      exact { h with }
    apply Method.Respects.ite
    · apply Method.Respects.bind ?_ fun _ => hdropped
      apply Method.Respects.assign
      intro l l' h
      exact { h with }
    · apply Method.Respects.bind ?_ fun _ => hdropped
      apply Method.Respects.assign
      intro l l' h
      exact { h with }
  · apply Method.Respects.ite
    · apply Method.Respects.bind ?_ fun _ => publish_respects _
      apply Method.Respects.assign
      intro l l' h
      exact
        { h with
          gapsDetected := congrArg (· + 1) h.gapsDetected
          packetsMissed := congrArg (· + checked.1.gap) h.packetsMissed }
    · exact publish_respects _

theorem receiveError_respects (error : UdpError) :
    (receiveError error).Respects SameDelivery := by
  apply Method.Respects.ite (Method.Respects.pure _)
  apply Method.Respects.ite
  · apply Method.Respects.bind
    · apply Method.Respects.assign
      intro l l' h
      exact { h with }
    intro _
    apply Method.Respects.bind ?_ fun _ => Method.Respects.pure _
    apply Method.Respects.assign
    intro l l' h
    exact { h with }
  · apply Method.Respects.bind ?_ fun _ => Method.Respects.pure _
    apply Method.Respects.assign
    intro l l' h
    exact { h with receiveErrors := congrArg (· + 1) h.receiveErrors }

theorem receiveDatagram_respects (datagram : Bytes) :
    (receiveDatagram datagram).Respects SameDelivery := by
  apply Method.Respects.bind
  · apply Method.Respects.assign
    intro l l' h
    exact { h with }
  intro _
  cases decodeData datagram with
  | error e =>
      apply Method.Respects.bind ?_ fun _ => Method.Respects.pure _
      apply Method.Respects.assign
      intro l l' h
      exact { h with }
  | ok decoded => exact filter_respects decoded

/-- The rest of a turn, once the socket has answered. -/
def receive : Received → Method receiverAccess Receiver Bool
  | .error error => receiveError error
  | .ok datagram => receiveDatagram datagram

/-- A turn that was not stopped, in front of the socket. -/
def waiting (l : Receiver) : Process receiverAccess Receiver Bool :=
  .step l .receive fun r => receive r l

theorem run_respects : run.Respects SameDelivery where
  body := by
    apply Method.Respects.bind (Method.Respects.perform _)
    intro stopRequested
    apply Method.Respects.ite (Method.Respects.pure _)
    apply Method.Respects.bind (Method.Respects.perform _)
    intro r
    cases r with
    | error error => exact receiveError_respects error
    | ok datagram => exact receiveDatagram_respects datagram
  after := Method.Respects.bind (Method.Respects.perform _) fun _ => Method.Respects.pure _

/-- A rejected datagram ends its turn, and only its own counters have changed. -/
theorem receive_rejected (hreject : Rejects l.gapDetector r) :
    ∃ l', receive r l = .done true l' ∧ SameDelivery l' l := by
  obtain ⟨harrived, hrefused⟩ := hreject
  have hsame : SameDelivery l l := by constructor <;> rfl
  cases r with
  | error error =>
      obtain ⟨hlarge, hnumber⟩ := of_decide_eq_true harrived
      have hretry : ¬ (error.code = .timeout ∨ error.errorNumber = eintr) := by
        rintro (htimeout | hinterrupted)
        · rw [hlarge] at htimeout
          cases htimeout
        · exact hnumber hinterrupted
      rw [receive, receiveError, if_neg hretry, if_pos hlarge]
      exact ⟨_, rfl, { hsame with }⟩
  | ok datagram =>
      rw [receive, receiveDatagram, count, Method.bind_apply, Method.assign_apply,
        Process.bind_done]
      cases hdecode : decodeData datagram with
      | error e => exact ⟨_, rfl, { hsame with }⟩
      | ok d =>
          have hstatus := hrefused d (by rw [decodedPacket, hdecode]; rfl)
          have hself : (l.gapDetector.check d.sessionId d.packetSequence).2 = l.gapDetector := by
            rcases l.gapDetector.check_cases d.sessionId d.packetSequence with
              ⟨-, haccepted, -⟩ | ⟨-, -, hself⟩
            · exact absurd haccepted hstatus
            · exact hself
          simp only [filter, Method.bind_apply, Method.self_apply, Process.bind_done,
            Method.assign_apply]
          rw [if_pos hstatus]
          split
          · exact ⟨_, rfl, { hsame with gapDetector := hself }⟩
          · exact ⟨_, rfl, { hsame with gapDetector := hself }⟩

end Receiver

end EventEngine
