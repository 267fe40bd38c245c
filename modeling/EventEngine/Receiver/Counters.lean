import EventEngine.Concurrency.Transition
import EventEngine.Receiver.Accounts
import EventEngine.Receiver.GapHistory

/-!
# What the receiver's counters count

Every counter is the number of things of one kind in the history of the receiver's thread,
modulo `2 ^ 64`: datagrams that arrived, checks of the gap detector, attempts to publish.
`Counted` says so for any answers of the socket and of the ring, and is the loop's invariant.
The equations between the counters are equations between these numbers.
-/

namespace EventEngine

open Concurrency Memory Protocol Transport

/-- Whether `run` counts a packet: a datagram arrived, if only one too large for the buffer. -/
def arrived : Received → Bool
  | .ok _ => true
  | .error error => error.code = .datagramTooLarge ∧ error.errorNumber ≠ eintr

/-- A datagram that arrived and holds no packet. -/
def malformed (r : Received) : Bool := arrived r && (decodedPacket r).isNone

/-- The checks of the packets that were received, and the detector after them. -/
def filtered (received : List Received) : List Checked × GapDetector :=
  GapDetector.checks ((decodable received).map fun d => (d.sessionId, d.packetSequence))

/-- How many checks had the given status. -/
def withStatus (log : List Checked) (status : PacketStatus) : Nat :=
  log.countP fun c => c.result.status = status

/-- The sum of the gaps that were reported. -/
def missing (log : List Checked) : Nat := (log.map fun c => c.result.gap.toNat).sum

/-- The highest number that was accepted, zero if none was. -/
def highestAccepted (log : List Checked) : Nat := (acceptedNumbers log).foldl max 0

section Numbers

variable {received : List Received} {r : Received} {d : DecodedDataView}

theorem arrived_of_decoded (h : decodedPacket r = some d) : arrived r = true := by
  cases r with
  | ok datagram => rfl
  | error error => cases h

/-- Every datagram that arrived is malformed or holds a packet. -/
theorem arrived_all (received : List Received) : received.countP arrived =
    received.countP malformed + (decodable received).length := by
  induction received with
  | nil => rfl
  | cons r rest ih =>
      rw [decodable] at ih ⊢
      rw [List.countP_cons, List.countP_cons, List.filterMap_cons, malformed]
      cases hr : decodedPacket r with
      | none =>
          simp only [Option.isNone_none, Bool.and_true]
          omega
      | some d =>
          simp only [arrived_of_decoded hr, Option.isNone_some, Bool.and_false,
            Bool.false_eq_true, if_true, if_false, List.length_cons]
          omega

/-- Every packet is checked. -/
theorem filtered_length (received : List Received) :
    (filtered received).1.length = (decodable received).length := by
  have hcalls := congrArg List.length (GapDetector.checks_calls
    ((decodable received).map fun d => (d.sessionId, d.packetSequence)))
  rw [List.length_map, List.length_map] at hcalls
  exact hcalls

/-- A check has one of three results. -/
theorem withStatus_all (log : List Checked) : log.length =
    withStatus log .duplicateOrOld + withStatus log .wrongSession +
      withStatus log .accepted := by
  induction log with
  | nil => rfl
  | cons c rest ih =>
      simp only [withStatus, List.countP_cons, List.length_cons] at ih ⊢
      cases hstatus : c.result.status <;> simp <;> omega

theorem withStatus_append (log : List Checked) (c : Checked) (status : PacketStatus) :
    withStatus (log ++ [c]) status =
      withStatus log status + if c.result.status = status then 1 else 0 := by
  rw [withStatus, List.countP_append, List.countP_singleton]
  simp only [decide_eq_true_eq]
  rfl

theorem missing_append (log : List Checked) (c : Checked) :
    missing (log ++ [c]) = missing log + c.result.gap.toNat := by
  simp [missing]

/-- What a datagram without a packet changes. -/
theorem filtered_of_none (h : decodedPacket r = none) :
    filtered (received ++ [r]) = filtered received := by
  rw [filtered, decodable_append, h, Option.toList_none, List.append_nil]
  rfl

theorem filtered_of_some (h : decodedPacket r = some d) :
    filtered (received ++ [r]) =
      ((filtered received).1 ++ [⟨d.sessionId, d.packetSequence,
          ((filtered received).2.check d.sessionId d.packetSequence).1⟩],
        ((filtered received).2.check d.sessionId d.packetSequence).2) := by
  rw [filtered, decodable_append, h, Option.toList_some, List.map_append, List.map_singleton,
    GapDetector.checks_append]
  rfl

/-- The packets that were received are a valid history of the detector. -/
theorem filtered_history (received : List Received) :
    GapHistory (filtered received).1 (filtered received).2 := by
  apply GapDetector.checks_history
  intro call hcall
  obtain ⟨d, hd, rfl⟩ := List.mem_map.mp hcall
  have hvalid := decodable_wellFormed hd
  exact ⟨hvalid.sessionId, hvalid.packetSequence⟩

/-- At most one range is reported for each packet that is accepted. -/
theorem GapHistory.reportedRanges_length_le {log : List Checked} {detector : GapDetector}
    (h : GapHistory log detector) : (reportedRanges log).length ≤ withStatus log .accepted := by
  rw [reportedRanges, List.length_map, ← List.countP_eq_length_filter, withStatus]
  apply List.countP_mono_left
  intro c hc hgap
  exact decide_eq_true (h.gap c hc (of_decide_eq_true hgap)).1

end Numbers

/-- The counters of a receiver that counted `arrivals` datagrams, `garbage` of them without a
packet, checked the packets of `log`, and tried to publish `attempts`; `waiting` is the event
whose publication is pending. -/
structure Counted (l : Receiver) (arrivals garbage : Nat) (log : List Checked)
    (attempts : List (Event × PublishResult)) (waiting : List Event) : Prop where
  attempted : attempts.length + waiting.length = withStatus log .accepted
  packetsReceived : l.stats.packetsReceived = .ofNat arrivals
  malformedPackets : l.stats.malformedPackets = .ofNat garbage
  duplicateOrOldPackets :
    l.stats.duplicateOrOldPackets = .ofNat (withStatus log .duplicateOrOld)
  wrongSessionPackets : l.stats.wrongSessionPackets = .ofNat (withStatus log .wrongSession)
  eventsIn : l.stats.eventsIn = .ofNat (withStatus log .accepted)
  eventsOut : l.stats.eventsOut = .ofNat (answered attempts (· == .ok))
  egressFull : l.stats.egressFull = .ofNat (answered attempts (· == .full))
  egressErrors : l.stats.egressErrors = .ofNat (answered attempts isEgressError)
  eventsDropped : l.stats.eventsDropped =
    .ofNat (withStatus log .duplicateOrOld + withStatus log .wrongSession +
      answered attempts (· == .full) + answered attempts isEgressError)
  gapsDetected : l.stats.gapsDetected = .ofNat (reportedRanges log).length
  packetsMissed : l.stats.packetsMissed.toNat = missing log
  total : withStatus log .accepted + missing log = l.gapDetector.lastSequence.toNat
  last : l.gapDetector.lastSequence.toNat = highestAccepted log

namespace Counted

open EngineStats (increment)

variable {l : Receiver} {arrivals garbage : Nat} {log : List Checked}
variable {attempts : List (Event × PublishResult)} {waiting : List Event} {event : Event}
variable {sessionId : UInt32} {packetSequence : UInt64}

theorem initial : Counted {} 0 0 [] [] [] := by
  constructor <;> rfl

/-- A datagram arrives. -/
theorem arrive (h : Counted l arrivals garbage log attempts waiting) :
    Counted { l with stats := { l.stats with packetsReceived := l.stats.packetsReceived + 1 } }
      (arrivals + 1) garbage log attempts waiting :=
  { h with packetsReceived := increment h.packetsReceived rfl }

/-- It holds no packet. -/
theorem discard (h : Counted l arrivals garbage log attempts waiting) :
    Counted { l with stats := { l.stats with malformedPackets := l.stats.malformedPackets + 1 } }
      arrivals (garbage + 1) log attempts waiting :=
  { h with malformedPackets := increment h.malformedPackets rfl }

/-- A check that does not accept its packet. -/
theorem reject {c : Checked} (h : Counted l arrivals garbage log attempts waiting)
    (hrejected : c.result.status ≠ .accepted) (hgap : c.result.gap = 0) :
    Counted
      { l with stats := { l.stats with
          duplicateOrOldPackets :=
            if c.result.status = .duplicateOrOld then l.stats.duplicateOrOldPackets + 1
            else l.stats.duplicateOrOldPackets
          wrongSessionPackets :=
            if c.result.status = .duplicateOrOld then l.stats.wrongSessionPackets
            else l.stats.wrongSessionPackets + 1
          eventsDropped := l.stats.eventsDropped + 1 } }
      arrivals garbage (log ++ [c]) attempts waiting := by
  have haccepted : withStatus (log ++ [c]) .accepted = withStatus log .accepted := by
    rw [withStatus_append, if_neg hrejected, Nat.add_zero]
  have hmissing : missing (log ++ [c]) = missing log := by
    rw [missing_append, hgap]
    rfl
  have hranges : reportedRanges (log ++ [c]) = reportedRanges log := by
    rw [reportedRanges_append, if_neg (not_not.mpr hgap), List.append_nil]
  have hhighest : highestAccepted (log ++ [c]) = highestAccepted log := by
    rw [highestAccepted, acceptedNumbers_append, if_neg hrejected, List.append_nil]
    rfl
  have hold := withStatus_append log c .duplicateOrOld
  have hwrong := withStatus_append log c .wrongSession
  have hone : withStatus (log ++ [c]) .duplicateOrOld + withStatus (log ++ [c]) .wrongSession =
      withStatus log .duplicateOrOld + withStatus log .wrongSession + 1 := by
    rw [hold, hwrong]
    cases hstatus : c.result.status with
    | accepted => exact absurd hstatus hrejected
    | duplicateOrOld => simp; omega
    | wrongSession => simp; omega
  exact
    { attempted := haccepted ▸ h.attempted
      packetsReceived := h.packetsReceived
      malformedPackets := h.malformedPackets
      duplicateOrOldPackets := by
        rw [hold]
        split
        · exact increment h.duplicateOrOldPackets rfl
        · exact h.duplicateOrOldPackets
      wrongSessionPackets := by
        rw [hwrong]
        cases hstatus : c.result.status with
        | accepted => exact absurd hstatus hrejected
        | duplicateOrOld => exact h.wrongSessionPackets
        | wrongSession => exact increment h.wrongSessionPackets rfl
      eventsIn := haccepted ▸ h.eventsIn
      eventsOut := h.eventsOut
      egressFull := h.egressFull
      egressErrors := h.egressErrors
      eventsDropped := increment h.eventsDropped (by omega)
      gapsDetected := hranges ▸ h.gapsDetected
      packetsMissed := hmissing ▸ h.packetsMissed
      total := by rw [haccepted, hmissing]; exact h.total
      last := hhighest ▸ h.last }

/-- A check that accepts its packet; its event is next. -/
theorem accept (sessionId : UInt32) (event : Event)
    (h : Counted l arrivals garbage log attempts [])
    (hlt : l.gapDetector.lastSequence < packetSequence) :
    let checked := l.gapDetector.accept sessionId packetSequence
    Counted
      { stats := { l.stats with
          gapsDetected :=
            if checked.1.gap > 0 then l.stats.gapsDetected + 1 else l.stats.gapsDetected
          packetsMissed :=
            if checked.1.gap > 0 then l.stats.packetsMissed + checked.1.gap
            else l.stats.packetsMissed
          eventsIn := l.stats.eventsIn + 1 }
        gapDetector := checked.2 }
      arrivals garbage (log ++ [⟨sessionId, packetSequence, checked.1⟩]) attempts [event] := by
  intro checked
  have hstatus : checked.1.status = .accepted :=
    @GapDetector.accept_status l.gapDetector sessionId packetSequence
  have hgap : checked.1.gap = packetSequence - l.gapDetector.lastSequence - 1 :=
    @GapDetector.accept_gap l.gapDetector sessionId packetSequence
  have hdetector : checked.2 = ⟨sessionId, packetSequence⟩ := rfl
  have hsum := GapDetector.gap_toNat hlt
  rw [← hgap] at hsum
  generalize checked = result at hstatus hgap hdetector hsum ⊢
  have hwith : ∀ status, status ≠ .accepted →
      withStatus (log ++ [⟨sessionId, packetSequence, result.1⟩]) status =
        withStatus log status := by
    intro status hne
    rw [withStatus_append, if_neg fun heq => hne (heq.symm.trans hstatus), Nat.add_zero]
  have haccepted : withStatus (log ++ [⟨sessionId, packetSequence, result.1⟩]) .accepted =
      withStatus log .accepted + 1 := by
    rw [withStatus_append, if_pos hstatus]
  have hmissing : missing (log ++ [⟨sessionId, packetSequence, result.1⟩]) =
      missing log + result.1.gap.toNat := missing_append _ _
  have htotal := h.total
  have hbound := packetSequence.toNat_lt
  exact
    { attempted := by
        rw [haccepted, ← h.attempted]
        rfl
      packetsReceived := h.packetsReceived
      malformedPackets := h.malformedPackets
      duplicateOrOldPackets := by
        rw [hwith _ (by decide)]
        exact h.duplicateOrOldPackets
      wrongSessionPackets := by
        rw [hwith _ (by decide)]
        exact h.wrongSessionPackets
      eventsIn := increment h.eventsIn haccepted
      eventsOut := h.eventsOut
      egressFull := h.egressFull
      egressErrors := h.egressErrors
      eventsDropped := by
        rw [hwith _ (by decide), hwith _ (by decide)]
        exact h.eventsDropped
      gapsDetected := by
        rw [reportedRanges_append]
        by_cases hzero : result.1.gap = 0
        · rw [if_neg (not_not.mpr hzero), if_neg (by rw [hzero]; decide), List.append_nil]
          exact h.gapsDetected
        · rw [if_pos hzero, if_pos (UInt64.pos_iff_ne_zero.mpr hzero)]
          exact increment h.gapsDetected (List.length_append)
      packetsMissed := by
        have hmissed := h.packetsMissed
        rw [hmissing]
        by_cases hzero : result.1.gap = 0
        · simp only [hzero, gt_iff_lt, UInt64.lt_irrefl, if_false]
          exact hmissed
        · simp only [UInt64.pos_iff_ne_zero.mpr hzero, if_true, UInt64.toNat_add]
          rw [Nat.mod_eq_of_lt (by omega), hmissed]
      total := by
        rw [haccepted, hmissing, hdetector]
        change _ = packetSequence.toNat
        omega
      last := by
        have hlast := h.last
        rw [highestAccepted] at hlast
        rw [hdetector, highestAccepted, acceptedNumbers_append, if_pos hstatus,
          List.foldl_append, ← hlast]
        change packetSequence.toNat = max l.gapDetector.lastSequence.toNat packetSequence.toNat
        rw [Nat.max_eq_right (by omega)] }

/-- The pending publication is answered. -/
theorem answer {r : PublishResult} (h : Counted l arrivals garbage log attempts [event]) :
    Counted
      { l with stats := { l.stats with
          eventsOut := if r = .ok then l.stats.eventsOut + 1 else l.stats.eventsOut
          eventsDropped :=
            if r = .ok then l.stats.eventsDropped else l.stats.eventsDropped + 1
          egressFull := if r = .full then l.stats.egressFull + 1 else l.stats.egressFull
          egressErrors :=
            if isEgressError r = true then l.stats.egressErrors + 1
            else l.stats.egressErrors } }
      arrivals garbage log (attempts ++ [(event, r)]) [] := by
  have hok := answered_append attempts event r (· == .ok)
  have hfull := answered_append attempts event r (· == .full)
  have herrors := answered_append attempts event r isEgressError
  exact
    { h with
      attempted := by
        rw [List.length_append]
        exact h.attempted
      eventsOut := by
        rw [hok]
        cases r with
        | ok => exact increment h.eventsOut rfl
        | full => exact h.eventsOut
        | payloadTooLarge => exact h.eventsOut
        | closed => exact h.eventsOut
      egressFull := by
        rw [hfull]
        cases r with
        | ok => exact h.egressFull
        | full => exact increment h.egressFull rfl
        | payloadTooLarge => exact h.egressFull
        | closed => exact h.egressFull
      egressErrors := by
        rw [herrors]
        cases r with
        | ok => exact h.egressErrors
        | full => exact h.egressErrors
        | payloadTooLarge => exact increment h.egressErrors rfl
        | closed => exact increment h.egressErrors rfl
      eventsDropped := by
        rw [hfull, herrors]
        cases r with
        | ok => exact h.eventsDropped
        | full => exact increment h.eventsDropped (Nat.add_right_comm _ 1 _)
        | payloadTooLarge => exact increment h.eventsDropped rfl
        | closed => exact increment h.eventsDropped rfl }

end Counted

/-- The counters agree with the history of the thread. -/
def Receiver.CountedBy (waiting : List Event) (l : Receiver) (h : ReceiverHistory) : Prop :=
  l.gapDetector = (filtered h.received).2 ∧
    Counted l (h.received.countP arrived) (h.received.countP malformed)
      (filtered h.received).1 h.attempts waiting

namespace Receiver

variable {l : Receiver} {h : ReceiverHistory} {r : Received} {event : Event}
variable {d : DecodedDataView}

/-- Nothing arrives. -/
theorem CountedBy.ignore {waiting : List Event} (hl : l.CountedBy waiting h)
    (hr : arrived r = false) :
    l.CountedBy waiting { h with received := h.received ++ [r] } := by
  have hnone : decodedPacket r = none := by
    cases hpacket : decodedPacket r with
    | none => rfl
    | some d =>
        rw [arrived_of_decoded hpacket] at hr
        cases hr
  have hmalformed : malformed r = false := by rw [malformed, hr, Bool.false_and]
  rw [CountedBy, filtered_of_none hnone, List.countP_append, List.countP_singleton, hr,
    List.countP_append, List.countP_singleton, hmalformed]
  exact hl

/-- A datagram arrives that holds no packet. -/
theorem CountedBy.discard {waiting : List Event} (hl : l.CountedBy waiting h)
    (hr : arrived r = true) (hnone : decodedPacket r = none) :
    CountedBy waiting
      { l with stats := { l.stats with
          packetsReceived := l.stats.packetsReceived + 1
          malformedPackets := l.stats.malformedPackets + 1 } }
      { h with received := h.received ++ [r] } := by
  have hmalformed : malformed r = true := by rw [malformed, hr, hnone]; rfl
  rw [CountedBy, filtered_of_none hnone, List.countP_append, List.countP_singleton, hr,
    List.countP_append, List.countP_singleton, hmalformed]
  obtain ⟨hdetector, hcounted⟩ := hl
  exact ⟨hdetector, hcounted.arrive.discard⟩

theorem publish_counted
    (hl : CountedBy [event] { l with stats := { l.stats with
      eventsIn := l.stats.eventsIn + 1 } } h) :
    (publish event l).Meets receiverEnvironment (fun l op h => l.CountedBy op.published h)
      (fun _ => CountedBy []) h := by
  refine ⟨hl, ?_⟩
  rintro r h' rfl
  obtain ⟨hdetector, hcounted⟩ := hl
  have hanswer := hcounted.answer (r := r)
  cases r with
  | ok => exact ⟨hdetector, hanswer⟩
  | full => exact ⟨hdetector, hanswer⟩
  | payloadTooLarge => exact ⟨hdetector, hanswer⟩
  | closed => exact ⟨hdetector, hanswer⟩

/-- The filter, after the datagram of the packet was counted. -/
theorem filter_counted (hl : l.CountedBy [] h) (hpacket : decodedPacket r = some d) :
    (filter d { l with stats := { l.stats with
      packetsReceived := l.stats.packetsReceived + 1 } }).Meets receiverEnvironment
      (fun l op h => l.CountedBy op.published h) (fun _ => CountedBy [])
      { h with received := h.received ++ [r] } := by
  obtain ⟨hdetector, hcounted⟩ := hl
  have hmalformed : malformed r = false := by rw [malformed, hpacket]; simp
  have hhistory := filtered_history h.received
  have hmem : d ∈ decodable [r] := by simp [decodable, hpacket]
  have hvalid := decodable_wellFormed hmem
  have harrived := hcounted.arrive
  -- What is left to show of a state that the filter ends in.
  have hfiltered : ∀ {l' : Receiver} {attempts : List (Event × PublishResult)}
      {waiting : List Event},
      l'.gapDetector = (l.gapDetector.check d.sessionId d.packetSequence).2 →
      Counted l' (h.received.countP arrived + 1) (h.received.countP malformed)
        ((filtered h.received).1 ++ [⟨d.sessionId, d.packetSequence,
          (l.gapDetector.check d.sessionId d.packetSequence).1⟩]) attempts waiting →
      l'.CountedBy waiting { h with received := h.received ++ [r], attempts := attempts } := by
    intro l' attempts waiting hself hafter
    rw [CountedBy, filtered_of_some hpacket, List.countP_append, List.countP_singleton,
      arrived_of_decoded hpacket, List.countP_append, List.countP_singleton, hmalformed,
      ← hdetector]
    exact ⟨hself, hafter⟩
  rw [filter, Method.bind_apply, Method.self_apply, Process.bind_done, Method.bind_apply,
    Method.assign_apply, Process.bind_done]
  by_cases haccept : l.gapDetector.Accepts d.sessionId d.packetSequence
  · have hlt := (hdetector ▸ hhistory).lt_of_accepts haccept hvalid.packetSequence
    have hchecked := GapDetector.check_accepted haccept
    have hstatus : (l.gapDetector.check d.sessionId d.packetSequence).1.status = .accepted := by
      rw [hchecked]
      exact GapDetector.accept_status
    have hnext := harrived.accept d.sessionId d.event hlt
    simp only [hstatus, ne_eq, not_true_eq_false, if_false]
    by_cases hgap : (l.gapDetector.check d.sessionId d.packetSequence).1.gap > 0
    · rw [if_pos hgap]
      apply publish_counted
      apply hfiltered rfl
      simp only [hchecked] at hgap ⊢
      simp only [hgap, if_true] at hnext
      exact hnext
    · rw [if_neg hgap]
      apply publish_counted
      apply hfiltered rfl
      simp only [hchecked] at hgap ⊢
      simp only [hgap, if_false] at hnext
      exact hnext
  · have hgap := GapDetector.check_rejected haccept
    obtain ⟨hstatus, hself⟩ :
        (l.gapDetector.check d.sessionId d.packetSequence).1.status ≠ .accepted ∧
          (l.gapDetector.check d.sessionId d.packetSequence).2 = l.gapDetector := by
      rcases l.gapDetector.check_cases d.sessionId d.packetSequence with
        ⟨haccepts, -⟩ | ⟨-, hstatus, hself⟩
      · exact absurd haccepts haccept
      · exact ⟨hstatus, hself⟩
    have hnext := harrived.reject (c := ⟨d.sessionId, d.packetSequence,
      (l.gapDetector.check d.sessionId d.packetSequence).1⟩) hstatus hgap
    rw [if_pos hstatus]
    by_cases hold : (l.gapDetector.check d.sessionId d.packetSequence).1.status = .duplicateOrOld
    · rw [if_pos hold]
      apply hfiltered rfl
      simp only [hold, if_true, hself] at hnext ⊢
      exact hnext
    · rw [if_neg hold]
      apply hfiltered rfl
      simp only [hold, if_false, hself] at hnext ⊢
      exact hnext

theorem receiveError_counted {error : UdpError} (hl : l.CountedBy [] h) :
    (receiveError error l).Meets receiverEnvironment (fun l op h => l.CountedBy op.published h)
      (fun _ => CountedBy []) { h with received := h.received ++ [.error error] } := by
  rw [receiveError]
  by_cases hretry : error.code = .timeout ∨ error.errorNumber = eintr
  · rw [if_pos hretry]
    apply hl.ignore
    rw [arrived, decide_eq_false_iff_not]
    rintro ⟨hcode, hnumber⟩
    obtain htimeout | hinterrupted := hretry
    · rw [hcode] at htimeout
      cases htimeout
    · exact hnumber hinterrupted
  · rw [if_neg hretry]
    by_cases hlarge : error.code = .datagramTooLarge
    · rw [if_pos hlarge]
      have harrived : arrived (.error error) = true := by
        rw [arrived, decide_eq_true_iff]
        exact ⟨hlarge, fun hinterrupted => hretry (.inr hinterrupted)⟩
      exact hl.discard harrived rfl
    · rw [if_neg hlarge]
      have hignored : arrived (.error error) = false := by
        rw [arrived, decide_eq_false_iff_not]
        exact fun harrived => hlarge harrived.1
      obtain ⟨hdetector, hcounted⟩ := hl.ignore hignored
      exact ⟨hdetector, { hcounted with }⟩

theorem receiveDatagram_counted (datagram : Bytes) (hl : l.CountedBy [] h) :
    (receiveDatagram datagram l).Meets receiverEnvironment
      (fun l op h => l.CountedBy op.published h) (fun _ => CountedBy [])
      { h with received := h.received ++ [.ok datagram] } := by
  rw [receiveDatagram, count, Method.bind_apply, Method.assign_apply, Process.bind_done]
  cases hdecode : decodeData datagram with
  | error e =>
      apply hl.discard rfl
      rw [decodedPacket, hdecode]
      rfl
  | ok decoded =>
      apply filter_counted hl
      rw [decodedPacket, hdecode]
      rfl

theorem turn_counted (hl : l.CountedBy [] h) :
    (turn l).Meets receiverEnvironment (fun l op h => l.CountedBy op.published h)
      (fun _ => CountedBy []) h := by
  refine ⟨hl, ?_⟩
  rintro stopRequested h' rfl
  cases stopRequested with
  | true => exact hl
  | false =>
      refine ⟨hl, ?_⟩
      rintro answer h' rfl
      cases answer with
      | error error => exact receiveError_counted hl
      | ok datagram => exact receiveDatagram_counted datagram hl

/-- The loop keeps the counters right, however often it runs. -/
def counterContract : Receiver.run.Contract receiverEnvironment where
  control l op h := l.CountedBy op.published h
  head := CountedBy []
  exit := CountedBy []
  final := CountedBy []
  body := by
    intro l h hl
    refine (turn_counted hl).mono_post fun goesOn l' h' hsettled => ?_
    cases goesOn with
    | true => exact hsettled
    | false => exact hsettled
  after := by
    intro l h hl
    refine ⟨hl, ?_⟩
    rintro answer h' rfl
    exact hl

end Receiver

/-- A receiver over all its runs; the history is that of all the objects it was moved
through. The thread has returned as well when `run` has not been called yet. -/
structure ReceiverRuns where
  thread : Thread receiverAccess Receiver
  stopRequested : Bool
  history : ReceiverHistory

/-- `step` is one access of `run`, with the answers of the socket and of the ring for the
case that it asks for them. -/
inductive ReceiverRunsAction where
  | step (received : Received) (published : PublishResult) (closed : Bool)
  | requestStop
  | run
  | move

namespace ReceiverRuns

/-- A receiver that `initialize` returned. -/
def initial : ReceiverRuns := ⟨.returned {}, false, ⟨[], [], false⟩⟩

/-- One access of the thread. -/
def stepThread (s : ReceiverRuns) (received : Received) (published : PublishResult)
    (closed : Bool) : Option ReceiverRuns :=
  match Receiver.run.pending s.thread with
  | none => none
  | some ⟨.loadStop, resume⟩ => some { s with thread := resume s.stopRequested }
  | some ⟨.receive, resume⟩ =>
      some { s with
        thread := resume received
        history := { s.history with received := s.history.received ++ [received] } }
  | some ⟨.tryPublish event, resume⟩ =>
      some { s with
        thread := resume published
        history := { s.history with attempts := s.history.attempts ++ [(event, published)] } }
  | some ⟨.closePublication, resume⟩ =>
      some { s with thread := resume closed, history := { s.history with closed := true } }

def next (s : ReceiverRuns) : ReceiverRunsAction → Option ReceiverRuns
  | .step received published closed => s.stepThread received published closed
  | .requestStop => some { s with stopRequested := true }
  | .run =>
      match s.thread with
      | .returned self => some { s with thread := .head self }
      | _ => none
  | .move =>
      match s.thread with
      | .returned self =>
          let moved := self.move s.stopRequested
          some { s with thread := .returned moved.1.1, stopRequested := moved.1.2 }
      | _ => none

variable {s t : ReceiverRuns} {l : Receiver}

theorem stepThread_counted {received : Received} {published : PublishResult} {closed : Bool}
    (h : Receiver.counterContract.Holds s.thread s.history)
    (hnext : s.stepThread received published closed = some t) :
    Receiver.counterContract.Holds t.thread t.history := by
  simp only [stepThread] at hnext
  split at hnext
  case h_1 => cases hnext
  case h_2 resume hpending =>
    obtain rfl := Option.some.inj hnext
    exact (h.resume hpending).2 _ _ rfl
  case h_3 resume hpending =>
    obtain rfl := Option.some.inj hnext
    exact (h.resume hpending).2 _ _ rfl
  case h_4 event resume hpending =>
    obtain rfl := Option.some.inj hnext
    exact (h.resume hpending).2 _ _ rfl
  case h_5 resume hpending =>
    obtain rfl := Option.some.inj hnext
    exact (h.resume hpending).2 _ _ rfl

theorem next_counted {a : ReceiverRunsAction}
    (h : Receiver.counterContract.Holds s.thread s.history) (hnext : s.next a = some t) :
    Receiver.counterContract.Holds t.thread t.history := by
  cases a with
  | step received published closed => exact stepThread_counted h hnext
  | requestStop =>
      obtain rfl := Option.some.inj hnext
      exact h
  | run =>
      simp only [next] at hnext
      split at hnext
      case h_1 self hreturned =>
        obtain rfl := Option.some.inj hnext
        rw [hreturned] at h
        exact h
      case h_2 => cases hnext
  | move =>
      simp only [next] at hnext
      split at hnext
      case h_1 self hreturned =>
        obtain rfl := Option.some.inj hnext
        rw [hreturned] at h
        exact h
      case h_2 => cases hnext

/-- The counters of a receiver at rest agree with its history. -/
theorem counted (hrun : Reaches next anyAction initial s) (hrest : s.thread.AtRest l) :
    l.CountedBy [] s.history := by
  have hholds : Receiver.counterContract.Holds s.thread s.history := by
    apply hrun.invariant (I := fun s => Receiver.counterContract.Holds s.thread s.history)
    · exact ⟨rfl, .initial⟩
    · intro u a v h _ hnext
      exact next_counted h hnext
  obtain hhead | hfinal := hholds.atRest hrest
  · exact hhead
  · exact hfinal

end ReceiverRuns

/-- The equations between the counters of a receiver. -/
structure EngineStats.ReceiverBalanced (stats : EngineStats) : Prop where
  packetsReceived : stats.packetsReceived.toNat = stats.malformedPackets.toNat +
    stats.duplicateOrOldPackets.toNat + stats.wrongSessionPackets.toNat + stats.eventsIn.toNat
  eventsIn : stats.eventsIn.toNat =
    stats.eventsOut.toNat + stats.egressFull.toNat + stats.egressErrors.toNat
  eventsDropped : stats.eventsDropped.toNat = stats.duplicateOrOldPackets.toNat +
    stats.wrongSessionPackets.toNat + stats.egressFull.toNat + stats.egressErrors.toNat
  gapsDetected : stats.gapsDetected.toNat ≤ stats.eventsIn.toNat

namespace Counted

variable {l : Receiver} {arrivals garbage : Nat} {log : List Checked}
variable {attempts : List (Event × PublishResult)}

/-- The packets that were accepted never overflow their counter. -/
theorem eventsIn_toNat (h : Counted l arrivals garbage log attempts []) :
    l.stats.eventsIn.toNat = withStatus log .accepted := by
  have htotal := h.total
  have hlt := l.gapDetector.lastSequence.toNat_lt
  rw [h.eventsIn]
  apply UInt64.toNat_ofNat_of_lt'
  change _ < 2 ^ 64
  omega

/-- The equations hold as long as the datagrams do not overflow their counter. -/
theorem balanced {detector : GapDetector} (h : Counted l arrivals garbage log attempts [])
    (hhistory : GapHistory log detector) (hall : arrivals = garbage + log.length)
    (hbound : arrivals < 2 ^ 64) : l.stats.ReceiverBalanced := by
  have hattempted := h.attempted
  rw [List.length_nil, Nat.add_zero] at hattempted
  have hanswered := answered_all attempts
  have hstatus := withStatus_all log
  have hranges := hhistory.reportedRanges_length_le
  have hsmall : ∀ {counter : UInt64} {n : Nat}, counter = .ofNat n → n ≤ arrivals →
      counter.toNat = n := by
    rintro counter n rfl hle
    exact UInt64.toNat_ofNat_of_lt' (Nat.lt_of_le_of_lt hle hbound)
  have hmalformed := hsmall h.malformedPackets (by omega)
  have hduplicate := hsmall h.duplicateOrOldPackets (by omega)
  have hwrong := hsmall h.wrongSessionPackets (by omega)
  have hfull := hsmall h.egressFull (by omega)
  have herrors := hsmall h.egressErrors (by omega)
  constructor
  · rw [hsmall h.packetsReceived (Nat.le_refl _), hmalformed, hduplicate, hwrong,
      h.eventsIn_toNat]
    omega
  · rw [h.eventsIn_toNat, hsmall h.eventsOut (by omega), hfull, herrors]
    omega
  · rw [hsmall h.eventsDropped (by omega), hduplicate, hwrong, hfull, herrors]
  · rw [hsmall h.gapsDetected (by omega), h.eventsIn_toNat]
    exact hranges

end Counted

namespace ReceiverRuns

/-- However often the receiver runs and is moved, its counters balance whenever it is at
rest, and the packets it accepted and missed add up to the highest sequence it accepted. -/
theorem receiver_counters_balance {s : ReceiverRuns} {l : Receiver}
    (hrun : Reaches next anyAction initial s) (hrest : s.thread.AtRest l) :
    (s.history.received.countP arrived < 2 ^ 64 → l.stats.ReceiverBalanced) ∧
    l.stats.eventsIn.toNat + l.stats.packetsMissed.toNat =
      highestAccepted (filtered s.history.received).1 ∧
    l.stats.packetsMissed.toNat = missing (filtered s.history.received).1 := by
  obtain ⟨-, hcounted⟩ := counted hrun hrest
  refine ⟨?_, ?_, hcounted.packetsMissed⟩
  · apply hcounted.balanced (filtered_history _)
    rw [filtered_length]
    exact arrived_all _
  · rw [hcounted.eventsIn_toNat, hcounted.packetsMissed, hcounted.total, hcounted.last]

/-- A packet that skips four, its copy, and a datagram too large for the buffer; then the
receiver is stopped and moved. -/
def sampleActions : List ReceiverRunsAction :=
  let step received := ReceiverRunsAction.step received .ok true
  let packet := step (.ok (DecodedDataView.wire ⟨7, 5, ⟨1, 1, 0, []⟩⟩))
  .run :: List.replicate 5 packet ++ List.replicate 2 (step (.error ⟨.datagramTooLarge, 0⟩)) ++
    .requestStop :: List.replicate 2 packet ++ [.move]

theorem receiver_counters_balance_sample :
    ∃ s l, runActions next anyAction initial sampleActions = some s ∧
      s.thread = .returned l ∧ l.stats.ReceiverBalanced ∧
      l.stats.eventsIn.toNat + l.stats.packetsMissed.toNat = 5 := by
  have hsample : (runActions next anyAction initial sampleActions).map (fun s =>
      (s.thread.hasReturned, s.history.received.countP arrived,
        highestAccepted (filtered s.history.received).1)) = some (true, 3, 5) := by
    decide +kernel
  obtain ⟨s, hs, heq⟩ := Option.map_eq_some_iff.mp hsample
  simp only [Prod.mk.injEq] at heq
  obtain ⟨hthread, harrived, hhighest⟩ := heq
  obtain ⟨l, hreturned⟩ := Thread.eq_of_hasReturned hthread
  obtain ⟨hbalanced, htotal, -⟩ :=
    receiver_counters_balance (reaches_of_runActions hs) (.inr hreturned)
  refine ⟨s, l, hs, hreturned, hbalanced ?_, htotal.trans hhighest⟩
  rw [harrived]
  decide

end ReceiverRuns

end EventEngine
