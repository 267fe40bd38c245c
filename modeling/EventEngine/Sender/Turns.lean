import EventEngine.Sender.System

/-!
# The turns of the sender's loop

Every turn of `run` ends in one of three ways: it finds the ring empty, it gives back the slot
that it acquired, or it is the last one because the ring is closed. So the turns are counted by
the answers of the ring. `InTurn` is the loop's invariant for that count; it also bounds the
packet sequence, so that a sender with few events does not stop itself.
-/

namespace EventEngine

open Concurrency Memory Protocol Transport EventEngine.Ring

/-- What a sender's thread has done: the turns it began, the slots it gave back and how often
the ring was empty, whether it holds a slot, whether the ring has answered `Closed`, and whether
it has set the stop flag or found it set. -/
structure TurnHistory where
  begun : Nat
  released : Nat
  empties : Nat
  holding : Bool
  closed : Bool
  stopped : Bool

/-- The answers of a ring that was filled through the API only, to a thread that holds no slot
when it acquires one. -/
def turnEnvironment : Environment senderAccess TurnHistory
  | .loadStop, true, h, h' => h' = { h with stopped := true }
  | .loadStop, false, h, h' => h' = { h with begun := h.begun + 1 }
  | .requestStop, _, h, h' => h' = { h with stopped := true }
  | .tryAcquire, .ok _, h, h' => h' = { h with holding := true }
  | .tryAcquire, .error .empty, h, h' =>
      h' = { h with empties := h.empties + 1 }
  | .tryAcquire, .error .closed, h, h' => h' = { h with closed := true }
  | .tryAcquire, .error _, _, _ => False
  | .readByte _, _, h, h' => h' = h
  | .release, _, h, h' =>
      h' = { h with released := h.released + 1, holding := false }
  | .sendTo _ _, _, h, h' => h' = h

/-- A sender that was `start` when `base` slots had been given back. `opened` is one while the
current turn has not had its answer, `used` is one while the number of the latest packet is
still the next one. -/
structure InTurn (start : Sender) (base : Nat) (l : SenderFrame) (h : TurnHistory)
    (opened used : Nat) (holding : Bool) : Prop where
  turns : h.begun = h.released + h.empties + opened
  opened_le : opened ≤ 1
  holding : h.holding = holding
  errors : l.stats.ingressErrors = start.stats.ingressErrors
  sequence : l.packetSequence.toNat + base + used ≤ start.packetSequence.toNat + h.released

namespace Sender

/-- Between two turns. -/
def Between (start : Sender) (base : Nat) (l : SenderFrame) (h : TurnHistory) : Prop :=
  InTurn start base l h 0 0 false

/-- The loop ends because the ring is closed, or because of a stop request. -/
def Ended (start : Sender) (base : Nat) (l : SenderFrame) (h : TurnHistory) : Prop :=
  (h.closed = true ∧ InTurn start base l h 1 0 false) ∨
    (h.stopped = true ∧ InTurn start base l h 0 0 false)

/-- What is known at each access. -/
def AtAccess (start : Sender) (base : Nat) (l : SenderFrame) : SenderOp → TurnHistory → Prop
  | .tryAcquire, h => InTurn start base l h 1 0 false
  | .release, h => InTurn start base l h 1 0 true
  | .requestStop, h => InTurn start base l h 0 1 false ∧ l.packetSequence = maxSequence
  | _, h => ∃ opened used holding, InTurn start base l h opened used holding

variable {start : Sender} {base : Nat} {l : SenderFrame} {h : TurnHistory}
variable {opened used : Nat} {holding : Bool} {view : EventView ByteRange}

/-- A number that stays unused only weakens the bound. -/
theorem unused (hturn : InTurn start base l h opened used holding) :
    InTurn start base l h opened 0 holding :=
  { hturn with sequence := Nat.le_trans (Nat.add_le_add_left (Nat.zero_le used) _) hturn.sequence }

/-- The encoder changes no more than the packet buffer. -/
theorem encode_turns (hturn : InTurn start base l h opened used holding) :
    (encode view l).Meets turnEnvironment (AtAccess start base)
      (fun _ l' h' => InTurn start base l' h' opened used holding) h := by
  apply (encode_keeps view (fun _ => ⟨_, _, _, hturn⟩) fun _ _ _ henv => henv).mono_post
  rintro result l' h' ⟨rfl, output, rfl⟩
  exact { hturn with }

/-- The remaining destinations, one by one. -/
theorem sendAll_turns (datagram : Bytes) (sentToAny : Bool) (rest : List UdpAddress)
    (hturn : InTurn start base l h opened used holding) :
    (sendAll datagram sentToAny rest l).Meets turnEnvironment (AtAccess start base)
      (fun _ l' h' => InTurn start base l' h' opened used holding) h := by
  induction rest generalizing l sentToAny with
  | nil => exact hturn
  | cons destination rest ih =>
      refine ⟨⟨_, _, _, hturn⟩, ?_⟩
      rintro r h' rfl
      cases r with
      | true => exact ih true { hturn with }
      | false => exact ih sentToAny { hturn with }

/-- The number of the packet is used up, or it was the last one. -/
theorem advance_turns (hturn : InTurn start base l h 0 1 false) :
    (advance l).Meets turnEnvironment (AtAccess start base)
      (fun goesOn l' h' => if goesOn = true then Between start base l' h'
        else Ended start base l' h') h := by
  have hsequence := hturn.sequence
  rw [advance, Method.bind_apply, Method.self_apply, Process.bind_done]
  by_cases hlast : l.packetSequence = maxSequence
  · rw [if_pos hlast]
    refine ⟨⟨hturn, hlast⟩, ?_⟩
    rintro r h' rfl
    exact .inr ⟨rfl, { unused hturn with }⟩
  · rw [if_neg hlast]
    have hnext : (l.packetSequence + 1).toNat = l.packetSequence.toNat + 1 := by
      have hlt := l.packetSequence.toNat_lt
      have hne : l.packetSequence.toNat ≠ maxSequence.toNat := fun heq =>
        hlast (UInt64.toNat_inj.mp heq)
      have hmax : maxSequence.toNat = 2 ^ 64 - 1 := by decide
      rw [UInt64.toNat_add, UInt64.toNat_one]
      omega
    exact
      { hturn with
        sequence := by
          change (l.packetSequence + 1).toNat + base + 0 ≤ _
          rw [hnext]
          omega }

/-- What follows the release of the slot. -/
theorem deliver_turns (hturn : InTurn start base l h 0 1 false)
    (encoded : Except EncodeError Nat) :
    (deliver encoded l).Meets turnEnvironment (AtAccess start base)
      (fun goesOn l' h' => if goesOn = true then Between start base l' h'
        else Ended start base l' h') h := by
  cases encoded with
  | error e => exact { unused hturn with }
  | ok packetSize =>
      rw [deliver, Method.bind_apply, Method.self_apply, Process.bind_done]
      apply (sendAll_turns _ false l.destinations hturn).bind
      intro sentToAny l' h' hturn'
      cases sentToAny with
      | true => exact advance_turns { hturn' with }
      | false => exact advance_turns { hturn' with }

/-- An acquired event is encoded, given back and sent. -/
theorem consume_turns (hheld : InTurn start base l h 1 0 true) :
    (consume view l).Meets turnEnvironment (AtAccess start base)
      (fun goesOn l' h' => if goesOn = true then Between start base l' h'
        else Ended start base l' h') h := by
  rw [consume, count, Method.bind_apply, Method.assign_apply, Process.bind_done]
  have hcounted : InTurn start base
      { l with stats := { l.stats with eventsIn := l.stats.eventsIn + 1 } } h 1 0 true :=
    { hheld with }
  apply (encode_turns hcounted).bind
  intro encoded l' h' hencoded
  refine ⟨hencoded, ?_⟩
  rintro released h'' rfl
  have hsequence := hencoded.sequence
  have hturns := hencoded.turns
  have hreleased : InTurn start base l'
      { h' with released := h'.released + 1, holding := false } 0 1 false :=
    { hencoded with
      turns := by
        change h'.begun = h'.released + 1 + h'.empties + 0
        omega
      opened_le := Nat.zero_le 1
      holding := rfl
      sequence := by
        change l'.packetSequence.toNat + base + 1 ≤ start.packetSequence.toNat + (h'.released + 1)
        omega }
  exact deliver_turns hreleased encoded

/-- One turn. -/
theorem turn_turns (hturn : Between start base l h) :
    (turn l).Meets turnEnvironment (AtAccess start base)
      (fun goesOn l' h' => if goesOn = true then Between start base l' h'
        else Ended start base l' h') h := by
  refine ⟨⟨_, _, _, hturn⟩, ?_⟩
  intro stopRequested h' henv
  cases stopRequested with
  | true =>
      obtain rfl := henv
      exact .inr ⟨rfl, { hturn with }⟩
  | false =>
      obtain rfl := henv
      have hopened : InTurn start base l { h with begun := h.begun + 1 } 1 0 false :=
        { hturn with
          turns := congrArg (· + 1) hturn.turns
          opened_le := Nat.le_refl 1 }
      refine ⟨hopened, ?_⟩
      intro r h'' henv
      cases r with
      | ok view =>
          obtain rfl := henv
          exact consume_turns { hopened with holding := rfl }
      | error e =>
          cases e with
          | empty =>
              obtain rfl := henv
              have hturns := hopened.turns
              exact
                { hopened with
                  turns := by
                    change h.begun + 1 = h.released + (h.empties + 1) + 0
                    change h.begun + 1 = h.released + h.empties + 1 at hturns
                    omega
                  opened_le := Nat.zero_le 1 }
          | closed =>
              obtain rfl := henv
              exact .inl ⟨rfl, { hopened with }⟩
          | alreadyAcquired => exact henv.elim
          | invalidSlot => exact henv.elim

/-- The loop counts its turns. If `fresh`, then `run` may not have been called yet. -/
def turnContract (start : Sender) (base : Nat) (fresh : Prop) :
    Sender.run.Contract turnEnvironment where
  control l op h := AtAccess start base l op h
  head := Between start base
  exit := Ended start base
  final l h := Ended start base l h ∨ (fresh ∧ Between start base l h)
  body := fun hturn => turn_turns hturn
  after := fun hended => .inl hended

end Sender

end EventEngine
