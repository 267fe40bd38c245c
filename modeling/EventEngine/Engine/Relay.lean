import EventEngine.Engine.System

/-!
# A ring with the programs at its ends

A source is filled by a producer of its own and emptied by a sender; a sink is filled by a
receiver and emptied by a consumer of its own. In a relay the egress ring of a receiver is the
ingress ring of a sender. Each program keeps its invariant while the other one moves.
-/

namespace EventEngine

open Concurrency Memory Protocol Transport EventEngine.Ring

/-- Both programs of a relay have the same ring. -/
inductive Station where
  | source (sender : SenderSystem)
  | sink (receiver : ReceiverSystem)
  | relay (receiver : ReceiverSystem) (sender : SenderSystem)

inductive StationAction where
  | sender (a : SenderAction)
  | receiver (a : ReceiverAction)

/-- An action of a producer that is not a receiver. -/
def SenderAction.isIngress : SenderAction → Bool
  | .ingress _ => true
  | _ => false

/-- An action of a consumer that is not a sender. -/
def ReceiverAction.isConsumer : ReceiverAction → Bool
  | .consumer _ => true
  | _ => false

namespace Station

/-- One action, if it is possible. No other producer or consumer is at the ring of a relay. -/
def next : Station → StationAction → Option Station
  | .source s, .sender a => (s.next a).map .source
  | .sink r, .receiver a => (r.next a).map .sink
  | .relay r s, .sender a =>
      if a.isIngress then none
      else (s.next a).map fun s' => .relay { r with egress := s'.ingress } s'
  | .relay r s, .receiver a =>
      if a.isConsumer then none
      else (r.next a).map fun r' => .relay r' { s with ingress := r'.egress }
  | .source _, .receiver _ => none
  | .sink _, .sender _ => none

def sender : Station → Option SenderSystem
  | .source s => some s
  | .sink _ => none
  | .relay _ s => some s

def receiver : Station → Option ReceiverSystem
  | .source _ => none
  | .sink r => some r
  | .relay r _ => some r

def ring : Station → Ring.System
  | .source s => s.ingress
  | .sink r => r.egress
  | .relay r _ => r.egress

end Station

section Rings

variable {c : Setting} {base hist : List Event} {ring ring' : Ring.System}

/-- The ring has moved, if at all, by an action of a side other than the consumer. -/
def Ring.System.OthersMove (ring ring' : Ring.System) : Prop :=
  ring' = ring ∨ ∃ a : Ring.Action, a.actor ≠ .consumer ∧
    (ring.next a = some ring' ∨ ring.shareHandle.next a = some ring')

/-- The ring has moved, if at all, by an action of the consumer. -/
def Ring.System.ConsumerMoves (ring ring' : Ring.System) : Prop :=
  ring' = ring ∨ ∃ a : Ring.Action, a.actor = .consumer ∧ ring.next a = some ring'

theorem Ring.System.OthersMove.ok (hmoves : ring.OthersMove ring')
    (h : Ring.System.Ok c base hist ring) (hquiet : ¬ c.quiet) :
    ∃ hist', Ring.System.Ok c base hist' ring' ∧ hist <+: hist' ∧
      SameCalls ring.consumer ring'.consumer := by
  obtain rfl | ⟨a, hactor, hnext | hnext⟩ := hmoves
  · exact ⟨hist, h, List.prefix_rfl, .refl _⟩
  · obtain ⟨hist', hok, hlater⟩ := Ring.System.next_ok h (fun q => absurd q hquiet) hnext
    have hsame := (Ring.System.next_cases hnext).1 .consumer hactor.symm
    exact ⟨hist', hok, hlater.history, hsame⟩
  · obtain ⟨hist', hok, hlater⟩ :=
      Ring.System.next_ok h.shareHandle (fun q => absurd q hquiet) hnext
    have hsame : SameCalls ring.shareHandle.consumer ring'.consumer :=
      (Ring.System.next_cases hnext).1 .consumer hactor.symm
    rw [ring.shareHandle_cases.2.2.1] at hsame
    exact ⟨hist', hok, hlater.history, hsame⟩

/-- A step of a call is an action of its side. -/
theorem Ring.System.operate_next {role : Role} {call : Call} {reply : Option Reply}
    (h : ring.operate role call = some (ring', reply)) :
    ∃ a : Ring.Action, a.actor = role ∧ ring.next a = some ring' := by
  obtain ⟨t, hnext, heq⟩ := Option.map_eq_some_iff.mp h
  obtain ⟨rfl, -⟩ := Prod.mk.inj heq
  exact ⟨_, Ring.System.operation_actor, hnext⟩

end Rings

section Ends

variable {g : Geometry} {start : Sender} {before : Nat} {hist hist' : List Event}
variable {s s' : SenderSystem} {r r' : ReceiverSystem} {ring : Ring.System}

/-- A sender is the consumer of its ring. -/
theorem SenderSystem.next_ingress {a : SenderAction} (hnext : s.next a = some s')
    (ha : a.isIngress = false) : s.ingress.ConsumerMoves s'.ingress := by
  cases a with
  | step sent =>
      simp only [SenderSystem.next, SenderSystem.stepThread] at hnext
      split at hnext
      case h_1 => cases hnext
      case h_4 =>
        split at hnext
        case h_1 hoperate =>
          obtain rfl := Option.some.inj hnext
          exact .inr (Ring.System.operate_next hoperate)
        case h_2 hoperate =>
          obtain rfl := Option.some.inj hnext
          exact .inr (Ring.System.operate_next hoperate)
        case h_3 => cases hnext
      case h_6 =>
        split at hnext
        case h_1 hoperate =>
          obtain rfl := Option.some.inj hnext
          exact .inr (Ring.System.operate_next hoperate)
        case h_2 hoperate =>
          obtain rfl := Option.some.inj hnext
          exact .inr (Ring.System.operate_next hoperate)
        case h_3 => cases hnext
      all_goals
        obtain rfl := Option.some.inj hnext
        exact .inl rfl
  | requestStop => obtain rfl := Option.some.inj hnext; exact .inl rfl
  | run =>
      simp only [SenderSystem.next] at hnext
      split at hnext
      case h_1 => obtain rfl := Option.some.inj hnext; exact .inl rfl
      case h_2 => cases hnext
  | move =>
      simp only [SenderSystem.next] at hnext
      split at hnext
      case h_1 => obtain rfl := Option.some.inj hnext; exact .inl rfl
      case h_2 => cases hnext
  | ingress b => cases ha

/-- A receiver is the producer of its ring, and closes it. -/
theorem ReceiverSystem.next_egress {a : ReceiverAction} (hnext : r.next a = some r')
    (ha : a.isConsumer = false) : r.egress.OthersMove r'.egress := by
  have hproducer : ∀ {event : Event} {egress : Ring.System} {reply : Option Reply},
      r.egress.operate .producer (.tryPublish event) = some (egress, reply) →
        r.egress.OthersMove egress := by
    intro event egress reply hoperate
    obtain ⟨b, hb, hmoved⟩ := Ring.System.operate_next hoperate
    exact .inr ⟨b, by simp [hb], .inl hmoved⟩
  have hcreator : ∀ {egress : Ring.System} {reply : Option Reply},
      r.egress.shareHandle.operate .creator .closePublication = some (egress, reply) →
        r.egress.OthersMove egress := by
    intro egress reply hoperate
    obtain ⟨b, hb, hmoved⟩ := Ring.System.operate_next hoperate
    exact .inr ⟨b, by simp [hb], .inr hmoved⟩
  cases a with
  | step answer =>
      simp only [ReceiverSystem.next, ReceiverSystem.stepThread] at hnext
      split at hnext
      case h_1 => cases hnext
      case h_2 => obtain rfl := Option.some.inj hnext; exact .inl rfl
      case h_3 =>
        split at hnext
        case isTrue => obtain rfl := Option.some.inj hnext; exact .inl rfl
        case isFalse => cases hnext
      case h_4 =>
        split at hnext
        case h_1 hoperate => obtain rfl := Option.some.inj hnext; exact hproducer hoperate
        case h_2 hoperate => obtain rfl := Option.some.inj hnext; exact hproducer hoperate
        case h_3 => cases hnext
      case h_5 =>
        split at hnext
        case h_1 hoperate => obtain rfl := Option.some.inj hnext; exact hcreator hoperate
        case h_2 hoperate => obtain rfl := Option.some.inj hnext; exact hcreator hoperate
        case h_3 => cases hnext
  | requestStop => obtain rfl := Option.some.inj hnext; exact .inl rfl
  | consumer b => cases ha

/-- A sender keeps its invariant while others move its ring. -/
theorem SenderSystem.Ok.ring_moves (h : SenderSystem.Ok g start before hist s)
    (hmoves : s.ingress.OthersMove ring) :
    ∃ hist', SenderSystem.Ok g start before hist' { s with ingress := ring } := by
  obtain ⟨hist', hring, -, hsame⟩ := hmoves.ok h.ring fun hquiet => hquiet
  refine ⟨hist', ?_⟩
  exact
    { ring := hring
      thread := by
        obtain ⟨stopped, hthread, hstop⟩ := h.thread
        have hhistory : SenderSystem.history { s with ingress := ring } before stopped =
            s.history before stopped := SenderSystem.history_congr hsame.completed rfl
        exact ⟨stopped, by rw [hhistory]; exact hthread, hstop⟩
      consumer := fun call hcall => h.consumer call (hsame.running ▸ hcall)
      before := by
        rw [Client.acquiredEvents, show ring.consumer.completed =
          s.ingress.consumer.completed from hsame.completed]
        exact h.before
      movedFrom := h.movedFrom }

/-- A receiver keeps its invariant while the consumer moves its ring. -/
theorem ReceiverSystem.Ok.ring_moves (h : ReceiverSystem.Ok g hist r)
    (hmoves : r.egress.ConsumerMoves ring) :
    ∃ hist', ReceiverSystem.Ok g hist' { r with egress := ring } := by
  obtain rfl | ⟨a, hactor, hnext⟩ := hmoves
  · exact ⟨hist, h⟩
  · obtain ⟨hist', -, hok, -⟩ := h.consumer hactor hnext
    exact ⟨hist', hok⟩

end Ends

namespace Station

variable {start : Sender} {st st' : Station} {a : StationAction}

/-- The invariants of the programs; in a relay they agree on the ring. -/
structure Ok (start : Sender) (st : Station) : Prop where
  sender : ∀ s, st.sender = some s →
    ∃ g before hist, SenderSystem.Ok g start before hist s ∧ s.ingress = st.ring
  receiver : ∀ r, st.receiver = some r →
    ∃ g hist, ReceiverSystem.Ok g hist r ∧ r.egress = st.ring

/-- What an action is to the programs: one of them moves. -/
inductive Moves : Station → StationAction → Station → Prop where
  | source (s s' : SenderSystem) (a : SenderAction) (next : s.next a = some s') :
      Moves (.source s) (.sender a) (.source s')
  | sink (r r' : ReceiverSystem) (a : ReceiverAction) (next : r.next a = some r') :
      Moves (.sink r) (.receiver a) (.sink r')
  | relaySender (r : ReceiverSystem) (s s' : SenderSystem) (a : SenderAction)
      (other : a.isIngress = false) (next : s.next a = some s') :
      Moves (.relay r s) (.sender a) (.relay { r with egress := s'.ingress } s')
  | relayReceiver (r r' : ReceiverSystem) (s : SenderSystem) (a : ReceiverAction)
      (other : a.isConsumer = false) (next : r.next a = some r') :
      Moves (.relay r s) (.receiver a) (.relay r' { s with ingress := r'.egress })

theorem next_moves (hnext : st.next a = some st') : Moves st a st' := by
  cases st with
  | source s =>
      cases a with
      | sender a =>
          obtain ⟨s', hs, rfl⟩ := Option.map_eq_some_iff.mp hnext
          exact .source s s' a hs
      | receiver a => cases hnext
  | sink r =>
      cases a with
      | sender a => cases hnext
      | receiver a =>
          obtain ⟨r', hr, rfl⟩ := Option.map_eq_some_iff.mp hnext
          exact .sink r r' a hr
  | relay r s =>
      cases a with
      | sender a =>
          simp only [next] at hnext
          split at hnext
          case isTrue => cases hnext
          case isFalse hother =>
            obtain ⟨s', hs, rfl⟩ := Option.map_eq_some_iff.mp hnext
            exact .relaySender r s s' a (Bool.eq_false_of_not_eq_true hother) hs
      | receiver a =>
          simp only [next] at hnext
          split at hnext
          case isTrue => cases hnext
          case isFalse hother =>
            obtain ⟨r', hr, rfl⟩ := Option.map_eq_some_iff.mp hnext
            exact .relayReceiver r r' s a (Bool.eq_false_of_not_eq_true hother) hr

/-- Every action keeps the invariants of both programs. -/
theorem Ok.moves (h : st.Ok start) (hlimit : start.maxDatagramBytes.toNat ≤ maxPacketBytes)
    (hmoves : Moves st a st') : st'.Ok start := by
  cases hmoves with
  | source s s' a next =>
      obtain ⟨g, before, hist, hok, -⟩ := h.sender s rfl
      obtain ⟨hist', hok', -⟩ := SenderSystem.next_ok hlimit hok next
      refine ⟨fun u hu => ?_, fun u hu => by cases hu⟩
      obtain rfl := Option.some.inj hu
      exact ⟨g, before, hist', hok', rfl⟩
  | sink r r' a next =>
      obtain ⟨g, hist, hok, -⟩ := h.receiver r rfl
      obtain ⟨hist', hok', -⟩ := ReceiverSystem.next_ok hok next
      refine ⟨fun u hu => (by cases hu), fun u hu => ?_⟩
      obtain rfl := Option.some.inj hu
      exact ⟨g, hist', hok', rfl⟩
  | relaySender r s s' a other next =>
      obtain ⟨g, before, hist, hok, hring⟩ := h.sender s rfl
      obtain ⟨g', hist', hreceiver, -⟩ := h.receiver r rfl
      obtain ⟨hist1, hok', -⟩ := SenderSystem.next_ok hlimit hok next
      have hmoved := SenderSystem.next_ingress next other
      rw [show s.ingress = r.egress from hring] at hmoved
      obtain ⟨hist2, hreceiver'⟩ := hreceiver.ring_moves hmoved
      refine ⟨fun u hu => ?_, fun u hu => ?_⟩
      · obtain rfl := Option.some.inj hu
        exact ⟨g, before, hist1, hok', rfl⟩
      · obtain rfl := Option.some.inj hu
        exact ⟨g', hist2, hreceiver', rfl⟩
  | relayReceiver r r' s a other next =>
      obtain ⟨g, before, hist, hok, hring⟩ := h.sender s rfl
      obtain ⟨g', hist', hreceiver, -⟩ := h.receiver r rfl
      obtain ⟨hist1, hreceiver', -⟩ := ReceiverSystem.next_ok hreceiver next
      have hmoved := ReceiverSystem.next_egress next other
      rw [show r.egress = s.ingress from hring.symm] at hmoved
      obtain ⟨hist2, hok'⟩ := hok.ring_moves hmoved
      refine ⟨fun u hu => ?_, fun u hu => ?_⟩
      · obtain rfl := Option.some.inj hu
        exact ⟨g, before, hist2, hok', rfl⟩
      · obtain rfl := Option.some.inj hu
        exact ⟨g', hist1, hreceiver', rfl⟩

/-- No send is forgotten. -/
theorem Moves.attempts (hmoves : Moves st a st') {s' : SenderSystem}
    (hs : st'.sender = some s') : ∃ s, st.sender = some s ∧ s.attempts <+: s'.attempts := by
  cases hmoves with
  | source s s'' a next =>
      obtain rfl := Option.some.inj hs
      exact ⟨s, rfl, SenderSystem.next_attempts next⟩
  | sink r r' a next => cases hs
  | relaySender r s s'' a other next =>
      obtain rfl := Option.some.inj hs
      exact ⟨s, rfl, SenderSystem.next_attempts next⟩
  | relayReceiver r r' s a other next =>
      obtain rfl := Option.some.inj hs
      exact ⟨s, rfl, List.prefix_rfl⟩

/-- What a receiver got is what it had, or a socket answer in addition. -/
theorem Moves.received (hmoves : Moves st a st') {r' : ReceiverSystem}
    (hr : st'.receiver = some r') : ∃ r, st.receiver = some r ∧
      (r'.received = r.received ∨ ∃ answer, a = .receiver (.step answer) ∧
        r'.received = r.received ++ [answer]) := by
  have hstep : ∀ {r r' : ReceiverSystem} {a : ReceiverAction}, r.next a = some r' →
      r'.received = r.received ∨ ∃ answer, StationAction.receiver a = .receiver (.step answer) ∧
        r'.received = r.received ++ [answer] := by
    intro r r' a hnext
    obtain hsame | ⟨answer, rfl, -, hreceived⟩ := ReceiverSystem.next_received hnext
    · exact .inl hsame
    · exact .inr ⟨answer, rfl, hreceived⟩
  cases hmoves with
  | source s s' a next => cases hr
  | sink r r'' a next =>
      obtain rfl := Option.some.inj hr
      exact ⟨r, rfl, hstep next⟩
  | relaySender r s s' a other next =>
      obtain rfl := Option.some.inj hr
      exact ⟨r, rfl, .inl rfl⟩
  | relayReceiver r r'' s a other next =>
      obtain rfl := Option.some.inj hr
      exact ⟨r, rfl, hstep next⟩

end Station

end EventEngine
