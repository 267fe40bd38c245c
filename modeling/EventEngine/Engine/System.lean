import EventEngine.Receiver.Delivery
import EventEngine.Sender.Attempts

/-!
# A sender, its receivers and the network between them

The parties take steps in any order. The network delivers what it likes to a receiver's
socket, any number of times and in any order, or an error; `Unforged` is all that is assumed
of it.
-/

namespace EventEngine

open Concurrency Memory Protocol Transport EventEngine.Ring

structure Engine where
  sender : SenderSystem
  receivers : List ReceiverSystem

inductive EngineAction where
  | sender (a : SenderAction)
  | receiver (i : Nat) (a : ReceiverAction)

namespace Engine

def next (s : Engine) : EngineAction → Option Engine
  | .sender a => (s.sender.next a).map fun sender => { s with sender }
  | .receiver i a =>
      match s.receivers[i]? with
      | none => none
      | some receiver =>
          (receiver.next a).map fun receiver =>
            { s with receivers := s.receivers.set i receiver }

/-- A datagram that decodes to the session of the sender is one that the sender sent. -/
def Unforged (session : UInt32) (s : Engine) : EngineAction → Prop
  | .receiver _ (.step (.ok datagram)) => ∀ d ∈ (decodeData datagram).toOption,
      d.sessionId = session → datagram ∈ s.sender.attempts.map Prod.fst
  | _ => True

/-- Every receiver has an egress ring of its own and is about to enter `run`. -/
def Started (receivers : List ReceiverSystem) : Prop :=
  ∀ r ∈ receivers, ∃ g m handle, Initialized g handle m ∧ r = ReceiverSystem.initial m handle

def initial (start : Sender) (ingress : Ring.System) (receivers : List ReceiverSystem) : Engine :=
  ⟨SenderSystem.initial start ingress, receivers⟩

/-- What a receiver got of the sender's session was sent. -/
def Sourced (session : UInt32) (attempts : List (Bytes × UdpAddress)) (r : ReceiverSystem) :
    Prop :=
  ∀ d ∈ decodable r.received, d.sessionId = session → d.wire ∈ attempts.map Prod.fst

/-- The invariant; `hist` are the events published to the ingress ring. -/
structure Ok (g : Geometry) (start : Sender) (before : Nat) (hist : List Event) (s : Engine) :
    Prop where
  sender : SenderSystem.Ok g start before hist s.sender
  receivers : ∀ r ∈ s.receivers, (∃ g hist, ReceiverSystem.Ok g hist r) ∧
    Sourced start.sessionId s.sender.attempts r

variable {g : Geometry} {start : Sender} {before : Nat} {hist : List Event} {s t : Engine}
variable {ingress : Ring.System} {receivers : List ReceiverSystem} {session : UInt32}
variable {attempts attempts' : List (Bytes × UdpAddress)} {r r' : ReceiverSystem}

theorem Sourced.later (h : Sourced session attempts r) (hgrows : attempts <+: attempts') :
    Sourced session attempts' r := by
  intro d hd hsession
  exact (hgrows.map Prod.fst).subset (h d hd hsession)

/-- A receiver takes a step; what it receives is not forged. -/
theorem Sourced.next {i : Nat} {a : ReceiverAction}
    (h : Sourced session s.sender.attempts r) (hunforged : Unforged session s (.receiver i a))
    (hnext : r.next a = some r') : Sourced session s.sender.attempts r' := by
  intro d hd hsession
  obtain hsame | ⟨answer, rfl, -, hreceived⟩ := ReceiverSystem.next_received hnext
  · rw [hsame] at hd
    exact h d hd hsession
  · rw [hreceived, decodable_append] at hd
    obtain hold | hnew := List.mem_append.mp hd
    · exact h d hold hsession
    · cases answer with
      | error e => cases hnew
      | ok datagram =>
          have hdecoded : (decodeData datagram).toOption = some d :=
            Option.mem_toList.mp hnew
          have hsent := hunforged d hdecoded hsession
          cases hdecode : decodeData datagram with
          | error e => rw [hdecode] at hdecoded; cases hdecoded
          | ok d' =>
              rw [hdecode] at hdecoded
              obtain rfl : d' = d := Option.some.inj hdecoded
              rw [(decodeData_eq_ok_iff.mp hdecode).2] at hsent
              exact hsent

theorem initial_ok (hlimit : start.maxDatagramBytes.toNat ≤ maxPacketBytes)
    (hring : Ring.System.Ok ⟨g, 0, True, False⟩ [] hist ingress)
    (hidle : ingress.consumer.running = none) (hreceivers : Started receivers) :
    Ok g start ingress.consumer.acquiredEvents.length hist
      (initial start ingress receivers) where
  sender := SenderSystem.initial_ok hlimit hring hidle
  receivers := by
    intro r hr
    obtain ⟨g, m, handle, hinit, rfl⟩ := hreceivers r hr
    refine ⟨⟨g, [], ReceiverSystem.initial_ok hinit⟩, ?_⟩
    intro d hd
    cases hd

/-- Every action keeps the invariant. -/
theorem next_ok {a : EngineAction} (hlimit : start.maxDatagramBytes.toNat ≤ maxPacketBytes)
    (h : Ok g start before hist s) (hunforged : Unforged start.sessionId s a)
    (hnext : s.next a = some t) : ∃ hist', Ok g start before hist' t ∧ hist <+: hist' := by
  cases a with
  | sender a =>
      obtain ⟨sender, hsender, rfl⟩ := Option.map_eq_some_iff.mp hnext
      obtain ⟨hist', hok, hgrows⟩ := SenderSystem.next_ok hlimit h.sender hsender
      have hattempts := SenderSystem.next_attempts hsender
      refine ⟨hist', ⟨hok, ?_⟩, hgrows⟩
      intro r hr
      obtain ⟨hreceiver, hsourced⟩ := h.receivers r hr
      exact ⟨hreceiver, hsourced.later hattempts⟩
  | receiver i a =>
      simp only [next] at hnext
      split at hnext
      case h_1 => cases hnext
      case h_2 receiver hreceiver =>
        obtain ⟨receiver', hstep, rfl⟩ := Option.map_eq_some_iff.mp hnext
        obtain ⟨⟨g', hist', hok⟩, hsourced⟩ :=
          h.receivers receiver (List.mem_of_getElem? hreceiver)
        refine ⟨hist, ⟨h.sender, ?_⟩, List.prefix_rfl⟩
        intro r hr
        obtain hother | rfl := List.mem_or_eq_of_mem_set hr
        · exact h.receivers r hother
        · obtain ⟨hist'', hok', -⟩ := ReceiverSystem.next_ok hok hstep
          exact ⟨⟨g', hist'', hok'⟩, hsourced.next hunforged hstep⟩

theorem reaches_ok (hlimit : start.maxDatagramBytes.toNat ≤ maxPacketBytes)
    (h : Ok g start before hist s) (hrun : Reaches next (Unforged start.sessionId) s t) :
    ∃ hist', Ok g start before hist' t ∧ hist <+: hist' := by
  refine hrun.invariant (I := fun t => ∃ hist', Ok g start before hist' t ∧ hist <+: hist')
    ⟨hist, h, List.prefix_rfl⟩ ?_
  rintro u a v ⟨hist', hok, hgrows⟩ hunforged hnext
  obtain ⟨hist'', hok', hgrows'⟩ := next_ok hlimit hok hunforged hnext
  exact ⟨hist'', hok', hgrows.trans hgrows'⟩

end Engine

end EventEngine
