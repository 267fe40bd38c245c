import EventEngine.Concurrency.Process
import EventEngine.Transport

/-!
# The socket of a receiver

`UdpReceiver::receive` waits with `poll` and takes a datagram with `recvmsg`. The kernel queues
the datagrams that arrive; `recvmsg` copies the oldest one into the caller's buffer as far as it
fits, and marks one that was cut off. One buffer serves all calls, so behind a datagram there
may be bytes of older ones.
-/

namespace EventEngine

open Concurrency Memory Transport

namespace Transport

/-- `EIO` on the supported hosts. -/
def eio : Int := 5

/-- `POLLIN`. -/
def pollIn : UInt16 := 0x1

/-- `MSG_TRUNC`: the datagram was longer than the buffer. -/
def msgTrunc : UInt32 := 0x20

/-- What `poll` returned and wrote to the descriptor. -/
structure Polled where
  ready : Int
  revents : UInt16 := 0
  errorNumber : Int := 0

/-- `poll` reported a datagram. -/
def Polled.readable (polled : Polled) : Bool :=
  decide (0 < polled.ready) && polled.revents &&& pollIn != 0

/-- What `recvmsg` returned and wrote to the header; the data is in the buffer. -/
structure Message where
  received : Int
  flags : UInt32 := 0
  peer : UdpAddress := ⟨0, 0⟩
  errorNumber : Int := 0

structure ReceivedDatagram where
  size : Nat
  peer : UdpAddress
  deriving DecidableEq, Repr

inductive SocketOp where
  | poll (timeoutMs : Int)
  | recvmsg (size : Nat)

abbrev SocketOp.Res : SocketOp → Type
  | .poll _ => Polled
  | .recvmsg _ => Message

abbrev socketAccess : Signature := ⟨SocketOp, SocketOp.Res⟩

/-- A datagram as the kernel queues it. -/
structure Datagram where
  peer : UdpAddress
  data : Bytes
  deriving DecidableEq, Repr

end Transport

namespace UdpReceiver

def perform (op : SocketOp) : Method socketAccess Unit op.Res :=
  Method.perform (S := socketAccess) op

/-- What `receive` makes of a message. -/
def received (message : Message) : Except UdpError ReceivedDatagram :=
  if message.received < 0 then .error ⟨.receive, message.errorNumber⟩
  else if message.flags &&& msgTrunc ≠ 0 then .error { code := .datagramTooLarge }
  else .ok ⟨message.received.toNat, message.peer⟩

/-- `receive` behind `poll`. -/
def receiveMessage (size : Nat) : Method socketAccess Unit (Except UdpError ReceivedDatagram) := do
  let message ← perform (.recvmsg size)
  return received message

/-- `receive` once `poll` has returned. -/
def receivePolled (size : Nat) (polled : Polled) :
    Method socketAccess Unit (Except UdpError ReceivedDatagram) :=
  if polled.ready < 0 then return .error ⟨.poll, polled.errorNumber⟩
  else if polled.ready = 0 then return .error { code := .timeout }
  else if polled.revents &&& pollIn = 0 then return .error ⟨.poll, eio⟩
  else receiveMessage size

/-- `receive` into a buffer of the size. -/
def receive (size : Nat) (timeoutMs : Int) :
    Method socketAccess Unit (Except UdpError ReceivedDatagram) := do
  if 0 ≤ timeoutMs then
    let polled ← perform (.poll timeoutMs)
    receivePolled size polled
  else
    receiveMessage size

end UdpReceiver

/-- The kernel's queue, the buffer of the thread that receives, and its call in progress. Only
the proof sees which datagrams have arrived and which ones the thread has taken. -/
structure Socket where
  queue : List Datagram
  buffer : Bytes
  call : Option (Process socketAccess Unit (Except UdpError ReceivedDatagram))
  arrived : List Datagram
  taken : List Datagram

/-- What the host decides: the answer of `poll`, and whether `recvmsg` fails. -/
structure SocketAnswer where
  polled : Polled := { ready := 0 }
  failure : Option Int := none

namespace Socket

/-- An empty socket, and a buffer of zeros. -/
def initial (size : Nat) : Socket := ⟨[], List.replicate size 0, none, [], []⟩

def arrive (s : Socket) (datagram : Datagram) : Socket :=
  { s with queue := s.queue ++ [datagram], arrived := s.arrived ++ [datagram] }

/-- The answer to an access; `recvmsg` waits as long as there is no datagram. -/
def respond (s : Socket) (answer : SocketAnswer) : (op : SocketOp) → Option (op.Res × Socket)
  | .poll _ => some (answer.polled, s)
  | .recvmsg size =>
      match answer.failure with
      | some errorNumber => some ({ received := -1, errorNumber }, s)
      | none =>
          match s.queue with
          | [] => none
          | datagram :: queue =>
              let copied := datagram.data.take size
              some
                ({ received := copied.length
                   flags := if size < datagram.data.length then msgTrunc else 0
                   peer := datagram.peer },
                  { s with
                    queue
                    buffer := copied ++ s.buffer.drop copied.length
                    taken := s.taken ++ [datagram] })

/-- What a call has received: the front of the buffer. -/
def returned (s : Socket) (result : Except UdpError ReceivedDatagram) : Received :=
  result.map fun datagram => s.buffer.take datagram.size

/-- The call has run up to its next access, or it returns. -/
def settle (s : Socket) : Process socketAccess Unit (Except UdpError ReceivedDatagram) →
    Socket × Option Received
  | .done result _ => ({ s with call := none }, some (s.returned result))
  | p => ({ s with call := some p }, none)

/-- One access of a call of `receive`, which begins with it if none is in progress. -/
def operate (s : Socket) (timeoutMs : Int) (answer : SocketAnswer) :
    Option (Socket × Option Received) :=
  match s.call.getD (UdpReceiver.receive s.buffer.length timeoutMs ()) with
  | .done _ _ => none
  | .step _ op next => (s.respond answer op).map fun (r, t) => t.settle (next r)

/-- What a datagram is for a thread with a buffer of the size. -/
def delivered (size : Nat) (datagram : Datagram) : Received :=
  if datagram.data.length ≤ size then .ok datagram.data
  else .error { code := .datagramTooLarge }

/-- The invariant. -/
structure Ok (size : Nat) (s : Socket) : Prop where
  buffer : s.buffer.length = size
  call : ∀ p, s.call = some p → p = UdpReceiver.receiveMessage size ()
  ledger : s.arrived = s.taken ++ s.queue

/-- What an access of a call does: the call goes on, it fails without a datagram, or it takes the
oldest one. -/
inductive Operated (size : Nat) (s : Socket) (answer : SocketAnswer) :
    Socket → Option Received → Prop
  | waits (hidle : s.call = none) (hreadable : answer.polled.readable = true) :
      Operated size s answer
        { s with call := some (UdpReceiver.receiveMessage size ()) } none
  | fails (error : UdpError) (hcode : error.code ≠ .datagramTooLarge)
      (hfailed : answer.failure.isSome = true ∨
        s.call = none ∧ answer.polled.readable = false) :
      Operated size s answer { s with call := none } (some (.error error))
  | takes (datagram : Datagram) (queue : List Datagram) (buffer : Bytes)
      (hqueue : s.queue = datagram :: queue) (hbuffer : buffer.length = size) :
      Operated size s answer
        { s with queue, buffer, call := none, taken := s.taken ++ [datagram] }
        (some (delivered size datagram))

variable {s t : Socket} {size : Nat} {timeoutMs : Int} {answer : SocketAnswer}
variable {result : Option Received}

theorem initial_ok (size : Nat) : Ok size (initial size) where
  buffer := List.length_replicate
  call p hno := by cases hno
  ledger := rfl

theorem Ok.arrive (h : Ok size s) (datagram : Datagram) : Ok size (s.arrive datagram) where
  buffer := h.buffer
  call := h.call
  ledger := by
    simp only [Socket.arrive, h.ledger, List.append_assoc]

/-- The answer of `recvmsg` that takes the datagram. -/
def messageOf (size : Nat) (datagram : Datagram) : Message where
  received := (datagram.data.take size).length
  flags := if size < datagram.data.length then msgTrunc else 0
  peer := datagram.peer

/-- A datagram that fits is received as it is, whatever was in the buffer; of one that does not
fit nothing is received. -/
theorem returned_messageOf {datagram : Datagram} {rest : Bytes}
    (hbuffer : s.buffer = datagram.data.take size ++ rest) :
    s.returned (UdpReceiver.received (messageOf size datagram)) = delivered size datagram := by
  have hreceived : ¬ (messageOf size datagram).received < 0 :=
    Int.not_lt.mpr (Int.natCast_nonneg _)
  rw [UdpReceiver.received, if_neg hreceived, delivered]
  by_cases hfits : datagram.data.length ≤ size
  · have hflags : (messageOf size datagram).flags = 0 := if_neg (Nat.not_lt_of_le hfits)
    rw [hflags, UInt32.zero_and, if_neg (not_not.mpr rfl), if_pos hfits]
    have hsize : (messageOf size datagram).received.toNat = datagram.data.length :=
      congrArg List.length (List.take_of_length_le hfits)
    apply congrArg Except.ok
    change s.buffer.take (messageOf size datagram).received.toNat = datagram.data
    rw [hbuffer, hsize, List.take_of_length_le hfits]
    exact List.take_left
  · have hflags : (messageOf size datagram).flags = msgTrunc := if_pos (Nat.lt_of_not_le hfits)
    rw [hflags, if_pos (by decide), if_neg hfits]
    rfl

/-- Behind `poll` the call fails or takes a datagram. -/
theorem Ok.receiveMessage (h : Ok size s) {op : SocketOp}
    {next : op.Res → Process socketAccess Unit (Except UdpError ReceivedDatagram)} {r : op.Res}
    (hstep : UdpReceiver.receiveMessage size () = .step () op next)
    (hrespond : s.respond answer op = some (r, t)) :
    Operated size s answer (t.settle (next r)).1 (t.settle (next r)).2 := by
  cases hstep
  simp only [respond] at hrespond
  cases hfailure : answer.failure with
  | some errorNumber =>
      rw [hfailure] at hrespond
      cases hrespond
      exact .fails ⟨.receive, errorNumber⟩ (by simp) (.inl (by rw [hfailure]; rfl))
  | none =>
      rw [hfailure] at hrespond
      cases hqueue : s.queue with
      | nil =>
          rw [hqueue] at hrespond
          cases hrespond
      | cons datagram queue =>
          rw [hqueue] at hrespond
          obtain ⟨rfl, rfl⟩ := Prod.mk.inj (Option.some.inj hrespond)
          have hcopied : (datagram.data.take size).length ≤ s.buffer.length := by
            rw [h.buffer]
            exact List.length_take_le size datagram.data
          have hlength : (datagram.data.take size ++
              s.buffer.drop (datagram.data.take size).length).length = size := by
            rw [List.length_append, List.length_drop, Nat.add_sub_cancel' hcopied, h.buffer]
          have htakes : Operated size s answer _ _ := .takes datagram queue _ hqueue hlength
          rw [← returned_messageOf (s := { s with buffer := _ }) rfl] at htakes
          exact htakes

/-- What `poll` answered lets the call go on, or the call fails. -/
theorem settle_receivePolled (hidle : s.call = none) :
    Operated size s answer (s.settle (UdpReceiver.receivePolled size answer.polled ())).1
      (s.settle (UdpReceiver.receivePolled size answer.polled ())).2 := by
  have hfails : answer.polled.ready ≤ 0 ∨ answer.polled.revents &&& pollIn = 0 →
      answer.failure.isSome = true ∨ s.call = none ∧ answer.polled.readable = false := by
    intro hunready
    refine .inr ⟨hidle, Bool.eq_false_iff.mpr fun hreadable => ?_⟩
    obtain ⟨hready, hevents⟩ := Bool.and_eq_true_iff.mp hreadable
    obtain hle | hzero := hunready
    · exact absurd (of_decide_eq_true hready) (Int.not_lt.mpr hle)
    · rw [hzero] at hevents
      cases hevents
  rw [UdpReceiver.receivePolled]
  split
  case isTrue hneg => exact .fails _ (by simp) (hfails (.inl (Int.le_of_lt hneg)))
  case isFalse hnonneg =>
    split
    case isTrue hzero => exact .fails _ (by simp) (hfails (.inl (Int.le_of_eq hzero)))
    case isFalse hne =>
      split
      case isTrue hevents => exact .fails _ (by simp) (hfails (.inr hevents))
      case isFalse hevents =>
        refine .waits hidle (Bool.and_eq_true_iff.mpr ⟨decide_eq_true (by omega), ?_⟩)
        exact bne_iff_ne.mpr hevents

theorem Ok.operate (h : Ok size s) (hoperate : s.operate timeoutMs answer = some (t, result)) :
    Operated size s answer t result := by
  simp only [Socket.operate] at hoperate
  split at hoperate
  case h_1 => cases hoperate
  case h_2 op next hstep =>
    obtain ⟨⟨r, t'⟩, hrespond, heq⟩ := Option.map_eq_some_iff.mp hoperate
    obtain ⟨rfl, rfl⟩ := Prod.mk.inj heq
    cases hcall : s.call with
    | some p =>
        rw [hcall, Option.getD_some, h.call p hcall] at hstep
        exact h.receiveMessage hstep hrespond
    | none =>
        rw [hcall, Option.getD_none, h.buffer, UdpReceiver.receive] at hstep
        split at hstep
        case isTrue =>
          cases hstep
          cases hrespond
          exact settle_receivePolled hcall
        case isFalse => exact h.receiveMessage hstep hrespond

theorem Ok.operated (h : Ok size s) (hoperated : Operated size s answer t result) :
    Ok size t := by
  obtain ⟨hbuffer, hcall, hledger⟩ := h
  cases hoperated with
  | waits hidle hreadable => exact ⟨hbuffer, fun p hp => (Option.some.inj hp).symm, hledger⟩
  | fails error hcode hfailed => exact ⟨hbuffer, (fun p hno => by cases hno), hledger⟩
  | takes datagram queue buffer hqueue hbuffer' =>
      refine ⟨hbuffer', (fun p hno => by cases hno), ?_⟩
      rw [hledger, hqueue]
      exact List.append_cons ..

/-- A call in progress takes a datagram from a queue that has one; it waits for nothing else. -/
theorem Ok.operate_isSome (h : Ok size s) (htimeout : 0 ≤ timeoutMs)
    (hqueue : s.call.isSome = true → s.queue ≠ []) : (s.operate timeoutMs answer).isSome := by
  cases hcall : s.call with
  | none =>
      simp only [Socket.operate, hcall, Option.getD_none, UdpReceiver.receive, if_pos htimeout]
      rfl
  | some p =>
      obtain ⟨datagram, queue, hcons⟩ := List.exists_cons_of_ne_nil (hqueue (by rw [hcall]; rfl))
      obtain rfl := h.call p hcall
      have hrespond : (s.respond answer (.recvmsg size)).isSome = true := by
        simp only [respond, hcons]
        cases answer.failure with
        | some errorNumber => rfl
        | none => rfl
      simp only [Socket.operate, hcall, Option.getD_some]
      exact (Option.isSome_map ..).trans hrespond

end Socket

end EventEngine
