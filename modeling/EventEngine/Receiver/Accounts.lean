import EventEngine.Protocol.RoundTrip
import EventEngine.Receiver.Run

/-!
# What the receiver's thread does with any input

The history of the thread is what the socket returned and what was tried on the egress ring.
`Accounts` relates it to the members of the receiver: the packets whose events were tried are
decodable packets of one session with rising sequences, and the counters count them exactly.
It is the loop's invariant, for any answers of the socket and of the ring.
-/

namespace EventEngine

open Concurrency Memory Protocol Transport

structure ReceiverHistory where
  received : List Received
  attempts : List (Event × PublishResult)
  closed : Bool

/-- The thread may get any answer; the history records it. -/
def receiverEnvironment : Environment receiverAccess ReceiverHistory
  | .loadStop, _, h, h' => h' = h
  | .receive, r, h, h' => h' = { h with received := h.received ++ [r] }
  | .tryPublish event, r, h, h' => h' = { h with attempts := h.attempts ++ [(event, r)] }
  | .closePublication, _, h, h' => h' = { h with closed := true }

/-- The packet of a datagram, if it is one. -/
def decodedPacket : Received → Option DecodedDataView
  | .ok datagram => (decodeData datagram).toOption
  | .error _ => none

/-- The packets that were received, in order of arrival. -/
def decodable (received : List Received) : List DecodedDataView :=
  received.filterMap decodedPacket

/-- The highest packet sequence of a session, zero if it has no packet. -/
def highest (session : UInt32) (packets : List DecodedDataView) : Nat :=
  packets.foldl (fun n d => if d.sessionId = session then max n d.packetSequence.toNat else n) 0

/-- How often the egress ring answered `result`. -/
def answered (attempts : List (Event × PublishResult)) (results : PublishResult → Bool) : Nat :=
  attempts.countP fun a => results a.2

variable {l : Receiver} {h : ReceiverHistory} {packets : List DecodedDataView}
variable {waiting : List Event} {d : DecodedDataView} {received : List Received}

@[simp] theorem decodable_append (received : List Received) (r : Received) :
    decodable (received ++ [r]) = decodable received ++ (decodedPacket r).toList := by
  rw [decodable, List.filterMap_append]
  cases hr : decodedPacket r with
  | none => simp [decodable, hr]
  | some d => simp [decodable, hr]

theorem decodable_wellFormed (hd : d ∈ decodable received) : d.WellFormed := by
  obtain ⟨r, -, hr⟩ := List.mem_filterMap.mp hd
  cases r with
  | error e => cases hr
  | ok datagram =>
      simp only [decodedPacket] at hr
      cases hdecode : decodeData datagram with
      | error e => rw [hdecode] at hr; cases hr
      | ok d' =>
          rw [hdecode] at hr
          obtain rfl := Option.some.inj hr
          exact (decodeData_eq_ok_iff.mp hdecode).1

theorem highest_append (session : UInt32) (packets : List DecodedDataView)
    (d : DecodedDataView) : highest session (packets ++ [d]) =
      if d.sessionId = session then max (highest session packets) d.packetSequence.toNat
      else highest session packets := by
  rw [highest, List.foldl_append]
  rfl

theorem highest_le {session : UInt32} {packets : List DecodedDataView} {n : Nat}
    (h : ∀ d ∈ packets, d.sessionId = session → d.packetSequence.toNat ≤ n) :
    highest session packets ≤ n := by
  induction packets using List.reverseRecOn with
  | nil => exact Nat.zero_le n
  | append_singleton packets d ih =>
      have hrest := ih fun d' hd' => h d' (List.mem_append_left _ hd')
      rw [highest_append]
      split
      case isTrue hsession =>
        exact Nat.max_le.mpr ⟨hrest, h d (List.mem_append_right _ (List.mem_singleton_self d))
          hsession⟩
      case isFalse => exact hrest

theorem answered_append (attempts : List (Event × PublishResult)) (event : Event)
    (r : PublishResult) (results : PublishResult → Bool) :
    answered (attempts ++ [(event, r)]) results =
      answered attempts results + if results r = true then 1 else 0 := by
  rw [answered, List.countP_append, List.countP_singleton]
  rfl

/-- The results that count as egress errors. -/
def isEgressError (r : PublishResult) : Bool := r != .ok && r != .full

/-- Every attempt has one of three outcomes. -/
theorem answered_all (attempts : List (Event × PublishResult)) :
    answered attempts (· == .ok) + answered attempts (· == .full) +
      answered attempts isEgressError = attempts.length := by
  induction attempts with
  | nil => rfl
  | cons a rest ih =>
      obtain ⟨event, result⟩ := a
      simp only [answered, isEgressError, List.countP_cons, List.length_cons] at ih ⊢
      cases result <;> simp <;> omega

/-- The members of the receiver, the history of its thread and the packets that passed the
filter; `waiting` is the event whose publication is pending. -/
structure Accounts (l : Receiver) (h : ReceiverHistory) (packets : List DecodedDataView)
    (waiting : List Event) : Prop where
  sublist : packets.Sublist (decodable h.received)
  attempts : h.attempts.map Prod.fst ++ waiting = packets.map DecodedDataView.event
  session : ∀ d ∈ packets, d.sessionId = l.gapDetector.activeSession
  first : ∀ d, (decodable h.received).head? = some d →
    d.sessionId = l.gapDetector.activeSession
  fresh : decodable h.received = [] → l.gapDetector.activeSession = 0
  rising : packets.Pairwise fun d d' => d.packetSequence.toNat < d'.packetSequence.toNat
  last : ∀ d ∈ packets, d.packetSequence.toNat ≤ l.gapDetector.lastSequence.toNat
  highest : l.gapDetector.lastSequence.toNat =
    highest l.gapDetector.activeSession (decodable h.received)
  missed : l.stats.packetsMissed.toNat + packets.length = l.gapDetector.lastSequence.toNat
  eventsOut : l.stats.eventsOut.toNat = answered h.attempts (· == .ok)
  egressFull : l.stats.egressFull.toNat = answered h.attempts (· == .full)
  egressErrors : l.stats.egressErrors.toNat = answered h.attempts isEgressError

namespace Accounts

theorem initial : Accounts {} ⟨[], [], false⟩ [] [] where
  sublist := List.Sublist.refl _
  attempts := rfl
  session := fun d hd => by cases hd
  first := fun d hd => by cases hd
  fresh := fun _ => rfl
  rising := List.Pairwise.nil
  last := fun d hd => by cases hd
  highest := rfl
  missed := rfl
  eventsOut := rfl
  egressFull := rfl
  egressErrors := rfl

theorem length_le (acc : Accounts l h packets waiting) :
    h.attempts.length + waiting.length < 2 ^ 64 := by
  have hlength := congrArg List.length acc.attempts
  have hmissed := acc.missed
  have hlt := l.gapDetector.lastSequence.toNat_lt
  simp only [List.length_append, List.length_map] at hlength
  omega

/-- Counting one more answer does not overflow. -/
theorem succ_toNat {event : Event} {n : UInt64} {results : PublishResult → Bool}
    (acc : Accounts l h packets [event]) (hn : n.toNat = answered h.attempts results) :
    (n + 1).toNat = n.toNat + 1 := by
  have hlength := acc.length_le
  have hcount : answered h.attempts results ≤ h.attempts.length := List.countP_le_length
  rw [List.length_singleton] at hlength
  rw [UInt64.toNat_add, UInt64.toNat_one, Nat.mod_eq_of_lt (by omega)]

/-- The pending publication is answered. -/
theorem publish {event : Event} {r : PublishResult} (acc : Accounts l h packets [event]) :
    Accounts
      { l with stats := { l.stats with
          eventsOut := if r = .ok then l.stats.eventsOut + 1 else l.stats.eventsOut
          egressFull := if r = .full then l.stats.egressFull + 1 else l.stats.egressFull
          egressErrors :=
            if isEgressError r = true then l.stats.egressErrors + 1
            else l.stats.egressErrors } }
      { h with attempts := h.attempts ++ [(event, r)] } packets [] where
  sublist := acc.sublist
  attempts := by
    rw [List.append_nil, List.map_append]
    exact acc.attempts
  session := acc.session
  first := acc.first
  fresh := acc.fresh
  rising := acc.rising
  last := acc.last
  highest := acc.highest
  missed := acc.missed
  eventsOut := by
    rw [answered_append]
    cases r <;> simp [acc.succ_toNat acc.eventsOut, acc.eventsOut]
  egressFull := by
    rw [answered_append]
    cases r <;> simp [acc.succ_toNat acc.egressFull, acc.egressFull]
  egressErrors := by
    rw [answered_append]
    cases r <;> simp [isEgressError, acc.succ_toNat acc.egressErrors, acc.egressErrors]

/-- A packet arrives that the filter does not accept. -/
theorem reject (acc : Accounts l h packets []) {datagram : Bytes}
    (hdecode : decodeData datagram = .ok d)
    (hreject : ¬ l.gapDetector.Accepts d.sessionId d.packetSequence) :
    Accounts l { h with received := h.received ++ [.ok datagram] } packets [] := by
  have hdecodable : decodable (h.received ++ [.ok datagram]) = decodable h.received ++ [d] := by
    rw [decodable_append, decodedPacket, hdecode]
    rfl
  have hnonempty : decodable h.received ≠ [] := fun hempty => hreject (.inl (acc.fresh hempty))
  exact
    { acc with
      sublist := by
        rw [hdecodable]
        exact acc.sublist.trans (List.sublist_append_left _ _)
      first := by
        intro d' hd'
        rw [hdecodable, List.head?_append_of_ne_nil _ hnonempty] at hd'
        exact acc.first d' hd'
      fresh := by
        intro hempty
        rw [hdecodable] at hempty
        exact absurd hempty (List.append_ne_nil_of_right_ne_nil _ (List.cons_ne_nil d []))
      highest := by
        rw [hdecodable, highest_append, ← acc.highest]
        split
        case isTrue hsession =>
          have hold : ¬ l.gapDetector.lastSequence < d.packetSequence := fun hlt =>
            hreject (.inr ⟨hsession, hlt⟩)
          rw [UInt64.lt_iff_toNat_lt] at hold
          omega
        case isFalse => rfl }

/-- A datagram arrives that is no packet, or nothing arrives. -/
theorem ignore (acc : Accounts l h packets waiting) {r : Received}
    (hnone : decodedPacket r = none) :
    Accounts l { h with received := h.received ++ [r] } packets waiting := by
  have hsame : decodable (h.received ++ [r]) = decodable h.received := by
    rw [decodable_append, hnone, Option.toList_none, List.append_nil]
  exact
    { acc with
      sublist := by rw [hsame]; exact acc.sublist
      first := by rw [hsame]; exact acc.first
      fresh := by rw [hsame]; exact acc.fresh
      highest := by rw [hsame]; exact acc.highest }

/-- A detector without a session has seen no packet. -/
theorem empty_of_unlocked (acc : Accounts l h packets waiting)
    (hzero : l.gapDetector.activeSession = 0) : decodable h.received = [] := by
  by_contra hne
  obtain ⟨first, rest, hcons⟩ := List.exists_cons_of_ne_nil hne
  have hfirst := acc.first first (by rw [hcons]; rfl)
  have hmem : first ∈ decodable h.received := by rw [hcons]; exact List.mem_cons_self
  exact (decodable_wellFormed hmem).sessionId (hfirst.trans hzero)

/-- After the first packet only packets of its session are accepted. -/
theorem session_of_accepts (acc : Accounts l h packets waiting)
    (haccept : l.gapDetector.Accepts d.sessionId d.packetSequence)
    (hne : decodable h.received ≠ []) : d.sessionId = l.gapDetector.activeSession := by
  obtain hzero | ⟨hsame, -⟩ := haccept
  · exact absurd (acc.empty_of_unlocked hzero) hne
  · exact hsame

theorem last_lt (acc : Accounts l h packets waiting) {datagram : Bytes}
    (hdecode : decodeData datagram = .ok d)
    (haccept : l.gapDetector.Accepts d.sessionId d.packetSequence) :
    l.gapDetector.lastSequence < d.packetSequence := by
  obtain hzero | ⟨-, hlt⟩ := haccept
  · have hlast := acc.highest
    rw [acc.empty_of_unlocked hzero] at hlast
    have hpos := (decodeData_eq_ok_iff.mp hdecode).1.packetSequence
    rw [UInt64.lt_iff_toNat_lt, hlast]
    refine Nat.pos_of_ne_zero fun hzero => hpos ?_
    exact UInt64.toNat_inj.mp hzero
  · exact hlt

/-- A packet arrives that the filter accepts: the gap is counted and its event is next. -/
theorem accept (acc : Accounts l h packets []) {datagram : Bytes}
    (hdecode : decodeData datagram = .ok d)
    (haccept : l.gapDetector.Accepts d.sessionId d.packetSequence) {missed : UInt64}
    (hmissed : missed = l.stats.packetsMissed +
      (d.packetSequence - l.gapDetector.lastSequence - 1)) :
    Accounts
      { stats := { l.stats with packetsMissed := missed }
        gapDetector := ⟨d.sessionId, d.packetSequence⟩ }
      { h with received := h.received ++ [.ok datagram] } (packets ++ [d]) [d.event] := by
  have hdecodable : decodable (h.received ++ [.ok datagram]) = decodable h.received ++ [d] := by
    rw [decodable_append, decodedPacket, hdecode]
    rfl
  have hsession : decodable h.received ≠ [] → d.sessionId = l.gapDetector.activeSession :=
    acc.session_of_accepts haccept
  have hlt := acc.last_lt hdecode haccept
  have hltNat := UInt64.lt_iff_toNat_lt.mp hlt
  have hgap := GapDetector.gap_toNat hlt
  have hpackets : ∀ d' ∈ packets, decodable h.received ≠ [] := fun d' hd' hnil => by
    have hmem := acc.sublist.subset hd'
    rw [hnil] at hmem
    cases hmem
  have hmissedNat : missed.toNat = l.stats.packetsMissed.toNat +
      (d.packetSequence - l.gapDetector.lastSequence - 1).toNat := by
    have hbefore := acc.missed
    have hbound := d.packetSequence.toNat_lt
    rw [hmissed, UInt64.toNat_add, Nat.mod_eq_of_lt (by omega)]
  exact
    { sublist := by
        rw [hdecodable]
        exact acc.sublist.append (List.Sublist.refl _)
      attempts := by
        have hattempts := acc.attempts
        rw [List.append_nil] at hattempts
        rw [hattempts, List.map_append]
        rfl
      session := by
        intro d' hd'
        obtain hold | hnew := List.mem_append.mp hd'
        · exact (acc.session d' hold).trans (hsession (hpackets d' hold)).symm
        · rw [List.mem_singleton.mp hnew]
      first := by
        intro d' hd'
        rw [hdecodable] at hd'
        by_cases hnil : decodable h.received = []
        · rw [hnil] at hd'
          rw [← Option.some.inj hd']
        · rw [List.head?_append_of_ne_nil _ hnil] at hd'
          exact (acc.first d' hd').trans (hsession hnil).symm
      fresh := by
        intro hnil
        rw [hdecodable] at hnil
        exact absurd hnil (List.append_ne_nil_of_right_ne_nil _ (List.cons_ne_nil d []))
      rising := by
        rw [List.pairwise_append]
        refine ⟨acc.rising, List.pairwise_singleton _ _, fun d' hd' d'' hd'' => ?_⟩
        rw [List.mem_singleton.mp hd'']
        exact lt_of_le_of_lt (acc.last d' hd') hltNat
      last := by
        intro d' hd'
        obtain hold | hnew := List.mem_append.mp hd'
        · exact le_of_lt (lt_of_le_of_lt (acc.last d' hold) hltNat)
        · rw [List.mem_singleton.mp hnew]
      highest := by
        change d.packetSequence.toNat = EventEngine.highest d.sessionId _
        rw [hdecodable, highest_append, if_pos rfl]
        by_cases hnil : decodable h.received = []
        · rw [hnil]
          exact (Nat.max_eq_right (Nat.zero_le _)).symm
        · rw [hsession hnil, ← acc.highest]
          omega
      missed := by
        have hbefore := acc.missed
        change missed.toNat + (packets ++ [d]).length = d.packetSequence.toNat
        rw [hmissedNat, List.length_append, List.length_singleton]
        omega
      eventsOut := acc.eventsOut
      egressFull := acc.egressFull
      egressErrors := acc.egressErrors }

end Accounts

/-- The event of a pending publication. -/
def ReceiverOp.published : ReceiverOp → List Event
  | .tryPublish event => [event]
  | _ => []

/-- What holds at every access, and before and after every turn. -/
def Receiver.Control (l : Receiver) (op : ReceiverOp) (h : ReceiverHistory) : Prop :=
  ∃ packets, Accounts l h packets op.published ∧ h.closed = false

def Receiver.Settled (closed : Bool) (l : Receiver) (h : ReceiverHistory) : Prop :=
  ∃ packets, Accounts l h packets [] ∧ h.closed = closed

namespace Receiver

theorem publish_meets {event : Event} (acc : Accounts l h packets [event])
    (hopen : h.closed = false) :
    (publish event l).Meets receiverEnvironment Control (fun _ => Settled false) h := by
  refine ⟨⟨packets, { acc with }, hopen⟩, ?_⟩
  rintro r h' rfl
  have hnext := acc.publish (r := r)
  cases r with
  | ok => exact ⟨packets, { hnext with }, hopen⟩
  | full => exact ⟨packets, { hnext with }, hopen⟩
  | payloadTooLarge => exact ⟨packets, { hnext with }, hopen⟩
  | closed => exact ⟨packets, { hnext with }, hopen⟩

theorem filter_meets {datagram : Bytes} (acc : Accounts l h packets [])
    (hdecode : decodeData datagram = .ok d) (hopen : h.closed = false) :
    (filter d l).Meets receiverEnvironment Control (fun _ => Settled false)
      { h with received := h.received ++ [.ok datagram] } := by
  rw [filter, Method.bind_apply, Method.self_apply, Process.bind_done, Method.bind_apply,
    Method.assign_apply, Process.bind_done]
  rcases l.gapDetector.check_cases d.sessionId d.packetSequence with
    ⟨haccept, hstatus, hgap, hself⟩ | ⟨hreject, hstatus, hself⟩
  · simp only [hstatus, hself, hgap]
    by_cases hzero : d.packetSequence - l.gapDetector.lastSequence - 1 > 0
    · simp only [hzero]
      have hnext := acc.accept hdecode haccept rfl
      exact publish_meets { hnext with } hopen
    · simp only [hzero]
      have hnone : d.packetSequence - l.gapDetector.lastSequence - 1 = 0 :=
        UInt64.le_zero_iff.mp (UInt64.not_lt.mp hzero)
      have hmissed : l.stats.packetsMissed = l.stats.packetsMissed +
          (d.packetSequence - l.gapDetector.lastSequence - 1) := by
        rw [hnone, UInt64.add_zero]
      have hnext := acc.accept hdecode haccept hmissed
      exact publish_meets { hnext with } hopen
  · rw [if_pos hstatus, hself]
    have hnext := acc.reject hdecode hreject
    split
    · exact ⟨packets, { hnext with }, hopen⟩
    · exact ⟨packets, { hnext with }, hopen⟩

theorem receiveError_meets {error : UdpError} (acc : Accounts l h packets [])
    (hopen : h.closed = false) :
    (receiveError error l).Meets receiverEnvironment Control (fun _ => Settled false) h := by
  rw [receiveError]
  split
  · exact ⟨packets, acc, hopen⟩
  · split
    · exact ⟨packets, { acc with }, hopen⟩
    · exact ⟨packets, { acc with }, hopen⟩

theorem receiveDatagram_meets (datagram : Bytes) (acc : Accounts l h packets [])
    (hopen : h.closed = false) :
    (receiveDatagram datagram l).Meets receiverEnvironment Control (fun _ => Settled false)
      { h with received := h.received ++ [.ok datagram] } := by
  rw [receiveDatagram, count, Method.bind_apply, Method.assign_apply, Process.bind_done]
  cases hdecode : decodeData datagram with
  | error e =>
      have hnext := acc.ignore (r := .ok datagram) (by rw [decodedPacket, hdecode]; rfl)
      exact ⟨packets, { hnext with }, hopen⟩
  | ok decoded => exact filter_meets { acc with } hdecode hopen

theorem turn_meets (acc : Accounts l h packets []) (hopen : h.closed = false) :
    (turn l).Meets receiverEnvironment Control (fun _ => Settled false) h := by
  refine ⟨⟨packets, acc, hopen⟩, ?_⟩
  rintro stopRequested h' rfl
  cases stopRequested with
  | true => exact ⟨packets, acc, hopen⟩
  | false =>
      refine ⟨⟨packets, acc, hopen⟩, ?_⟩
      rintro answer h' rfl
      cases answer with
      | error error => exact receiveError_meets (acc.ignore rfl) hopen
      | ok datagram => exact receiveDatagram_meets datagram acc hopen

/-- The loop keeps the accounts, and the thread returns with the ring closed. -/
def contract : Receiver.run.Contract receiverEnvironment where
  control := Control
  head := Settled false
  exit := Settled false
  final := Settled true
  body := by
    rintro l h ⟨packets, acc, hopen⟩
    refine (turn_meets acc hopen).mono_post fun goesOn l' h' hsettled => ?_
    cases goesOn with
    | true => exact hsettled
    | false => exact hsettled
  after := by
    rintro l h ⟨packets, acc, hopen⟩
    refine ⟨⟨packets, acc, hopen⟩, ?_⟩
    rintro answer h' rfl
    exact ⟨packets, { acc with }, rfl⟩

end Receiver

end EventEngine
