import EventEngine.Protocol.RoundTrip
import EventEngine.Ring.WaitFree
import EventEngine.Sender.Lifecycle

/-!
# A sender stops promptly

One turn of `run` has a bounded number of accesses: an acquisition, the bytes of the largest
payload, the release, one send for each destination, and the test of the stop flag. This budget
is renewed when the flag lets the next turn begin, so once the flag is set what is left of it is
all that a sender still does.
-/

namespace EventEngine

open Concurrency Memory Posix Protocol Transport EventEngine.Ring EventEngine.Shm

/-- The accesses of a turn behind the test of the stop flag, and the next test. -/
def Sender.turnAccesses (destinations : Nat) : Nat :=
  10 + maxSingleEventPayloadBytes + 1 + destinations + 1

/-- A turn may cost that much for each test of the stop flag that lets it begin. -/
def senderTariff (destinations : Nat) : Tariff senderAccess where
  full := Sender.turnAccesses destinations
  cost
    | .tryAcquire => 10
    | _ => 1
  renews
    | .loadStop, stopRequested => !stopRequested
    | _, _ => false

namespace Sender

/-- The sender has so many destinations. -/
def Sends (d : Nat) (l : SenderFrame) : Prop := l.destinations.length = d

variable {d m n : Nat} {l : SenderFrame}

theorem readPayload_pays (offset k : Nat) (hd : Sends d l) (hn : k + m ≤ n) :
    (readPayload offset k l).Meets (senderTariff d).environment ((senderTariff d).Pays (Sends d))
      (fun _ l' n' => Sends d l' ∧ m ≤ n') n := by
  induction k generalizing offset n with
  | zero => exact ⟨hd, Nat.zero_add m ▸ hn⟩
  | succ k ih =>
      refine ⟨⟨hd, show 1 ≤ n by omega⟩, fun b n' hpaid => ?_⟩
      obtain rfl : n = 1 + n' := hpaid
      apply (ih (offset + 1) (n := n') (by omega)).bind
      rintro rest l' n'' hleft
      exact hleft

theorem encode_pays (event : EventView ByteRange) (hd : Sends d l)
    (hn : maxSingleEventPayloadBytes + m ≤ n) :
    (encode event l).Meets (senderTariff d).environment ((senderTariff d).Pays (Sends d))
      (fun _ l' n' => Sends d l' ∧ m ≤ n') n := by
  rw [encode, Method.bind_apply, Method.self_apply, Process.bind_done]
  cases hsize : encodedSize event event.payload.length l.sessionId l.packetSequence
      l.output.length with
  | error e => exact ⟨hd, Nat.le_trans (Nat.le_add_left m _) hn⟩
  | ok packetSize =>
      have hpayload : event.payload.length ≤ maxSingleEventPayloadBytes := by
        simp only [encodedSize, ite_error_eq_ok] at hsize
        exact Nat.le_of_not_lt hsize.2.2.2.1
      apply (readPayload_pays (m := m) _ _ hd (by omega)).bind
      rintro payload l' n' ⟨hd', hleft⟩
      exact ⟨hd', hleft⟩

theorem sendAll_pays (datagram : Bytes) (sentToAny : Bool) (rest : List UdpAddress)
    (hd : Sends d l) (hn : rest.length + m ≤ n) :
    (sendAll datagram sentToAny rest l).Meets (senderTariff d).environment
      ((senderTariff d).Pays (Sends d)) (fun _ l' n' => Sends d l' ∧ m ≤ n') n := by
  induction rest generalizing l n sentToAny with
  | nil => exact ⟨hd, Nat.zero_add m ▸ hn⟩
  | cons destination rest ih =>
      rw [List.length_cons] at hn
      refine ⟨⟨hd, show 1 ≤ n by omega⟩, fun sent n' hpaid => ?_⟩
      obtain rfl : n = 1 + n' := hpaid
      cases sent with
      | true => exact ih true hd (by omega)
      | false => exact ih sentToAny hd (by omega)

/-- What is left for the next test of the stop flag, if the loop goes on. -/
def Turned (d : Nat) (goesOn : Bool) (l : SenderFrame) (n : Nat) : Prop :=
  Sends d l ∧ (goesOn = true → 1 ≤ n)

theorem advance_pays (hd : Sends d l) (hn : 1 ≤ n) :
    (advance l).Meets (senderTariff d).environment ((senderTariff d).Pays (Sends d)) (Turned d)
      n := by
  rw [advance, Method.bind_apply, Method.self_apply, Process.bind_done]
  split
  · exact ⟨⟨hd, hn⟩, fun _ _ _ => ⟨hd, fun hno => by cases hno⟩⟩
  · exact ⟨hd, fun _ => hn⟩

theorem deliver_pays (encoded : Except EncodeError Nat) (hd : Sends d l) (hn : d + 1 ≤ n) :
    (deliver encoded l).Meets (senderTariff d).environment ((senderTariff d).Pays (Sends d))
      (Turned d) n := by
  cases encoded with
  | error e => exact ⟨hd, fun _ => by omega⟩
  | ok packetSize =>
      have hrest : l.destinations.length + 1 ≤ n := by
        rw [show l.destinations.length = d from hd]
        exact hn
      rw [deliver, Method.bind_apply, Method.self_apply, Process.bind_done]
      apply (sendAll_pays (m := 1) _ false l.destinations hd hrest).bind
      rintro sentToAny l' n' ⟨hd', hleft⟩
      dsimp only
      split
      · exact advance_pays hd' hleft
      · exact advance_pays hd' hleft

theorem consume_pays (event : EventView ByteRange) (hd : Sends d l)
    (hn : maxSingleEventPayloadBytes + 1 + d + 1 ≤ n) :
    (consume event l).Meets (senderTariff d).environment ((senderTariff d).Pays (Sends d))
      (Turned d) n := by
  rw [consume, Method.bind_apply, count, Method.assign_apply, Process.bind_done]
  have hcounted : Sends d { l with
      stats := { l.stats with eventsIn := l.stats.eventsIn + 1 } } := hd
  apply (encode_pays (m := 1 + d + 1) event hcounted (by omega)).bind
  rintro encoded l' n' ⟨hd', hleft⟩
  refine ⟨⟨hd', show 1 ≤ n' by omega⟩, fun released n'' hpaid => ?_⟩
  obtain rfl : n' = 1 + n'' := hpaid
  exact deliver_pays encoded hd' (by omega)

/-- What is left behind the last test of the stop flag pays for the turn and the next test. -/
theorem turn_pays (hd : Sends d l) (hn : 1 ≤ n) :
    (turn l).Meets (senderTariff d).environment ((senderTariff d).Pays (Sends d)) (Turned d)
      n := by
  refine ⟨⟨hd, hn⟩, fun stopRequested n' hpaid => ?_⟩
  cases stopRequested with
  | true => exact ⟨hd, fun hno => by cases hno⟩
  | false =>
      obtain rfl : n' = turnAccesses d := hpaid
      have hfull : turnAccesses d = 10 + maxSingleEventPayloadBytes + 1 + d + 1 := rfl
      refine ⟨⟨hd, show 10 ≤ turnAccesses d by omega⟩, fun acquired n'' hpaid => ?_⟩
      have hleft : turnAccesses d = 10 + n'' := hpaid
      cases acquired with
      | ok event => exact consume_pays event hd (by omega)
      | error e =>
          cases e with
          | empty => exact ⟨hd, fun _ => by omega⟩
          | closed => exact ⟨hd, fun hno => by cases hno⟩
          | alreadyAcquired => exact ⟨hd, fun hno => by cases hno⟩
          | invalidSlot => exact ⟨hd, fun hno => by cases hno⟩

end Sender

/-! ### The accesses on the host -/

/-- One access on the host is one access; the budget of a turn is the same. -/
def senderHostTariff (destinations : Nat) : Tariff senderHostAccess where
  full := Sender.turnAccesses destinations
  cost _ := 1
  renews
    | .own .loadStop, stopRequested => !stopRequested
    | _, _ => false

namespace RunningSender

/-- The sender has so many destinations. -/
def Sends (d : Nat) (self : RunningSender) : Prop := self.destinations.length = d

variable {d n : Nat} {self : RunningSender}

theorem onIngress_pays {α : Type} {call : Method spanAccess SpscRing α} {k : Nat}
    (hcall : (call self.ingress).Takes k) (hd : Sends d self) (hn : k ≤ n) :
    (onIngress call self).Meets (senderHostTariff d).environment
      ((senderHostTariff d).Pays (Sends d)) (fun _ self' n' => Sends d self' ∧ n ≤ k + n') n := by
  apply hcall.within hn hd
  · intro ingress self' hd'
    exact hd'
  · intro access self' n hd' hn
    exact ⟨⟨hd', hn⟩, fun _ n' hpaid => ⟨hd', Nat.le_of_eq hpaid⟩⟩

/-- Each access of the thread costs as many on the host as its tariff says. -/
theorem perform_pays (op : SenderOp) (hd : Sends d self) (hn : (senderTariff d).cost op ≤ n) :
    (perform op self).Meets (senderHostTariff d).environment ((senderHostTariff d).Pays (Sends d))
      (fun r self' n' => Sends d self' ∧
        if (senderTariff d).renews op r = true then (senderTariff d).full ≤ n'
        else n ≤ (senderTariff d).cost op + n') n := by
  cases op with
  | loadStop =>
      refine ⟨⟨hd, hn⟩, fun stopRequested n' hpaid => ?_⟩
      cases stopRequested with
      | true => exact ⟨hd, Nat.le_of_eq hpaid⟩
      | false => exact ⟨hd, Nat.le_of_eq hpaid.symm⟩
  | requestStop => exact ⟨⟨hd, hn⟩, fun _ n' hpaid => ⟨hd, Nat.le_of_eq hpaid⟩⟩
  | tryAcquire => exact onIngress_pays tryAcquire_takes hd hn
  | readByte offset => exact ⟨⟨hd, hn⟩, fun _ n' hpaid => ⟨hd, Nat.le_of_eq hpaid⟩⟩
  | release => exact onIngress_pays release_takes hd hn
  | sendTo datagram destination =>
      refine ⟨⟨hd, hn⟩, fun sent n' hpaid => ?_⟩
      have hleft : n ≤ 1 + n' := Nat.le_of_eq hpaid
      cases sent with
      | error errno => exact ⟨hd, hleft⟩
      | ok sent =>
          dsimp only [Process.bind_done]
          split
          · exact ⟨hd, hleft⟩
          · exact ⟨hd, hleft⟩

/-- `run` pays for what it does. -/
def paying (d : Nat) : run.Contract (senderHostTariff d).environment where
  control := (senderHostTariff d).Pays (Sends d)
  head self n := Sends d self ∧ 1 ≤ n
  exit self _ := Sends d self
  final self _ := Sends d self
  body := by
    rintro self n ⟨hd, hn⟩
    have hturn : ((Sender.turn self.frame).within perform putFrame self).Meets
        (senderHostTariff d).environment ((senderHostTariff d).Pays (Sends d))
        (fun goesOn self' n' => Sends d self' ∧ ∃ l m, Sender.Turned d goesOn l m ∧ m ≤ n') n :=
      (Sender.turn_pays (l := self.frame) hd hn).within_paid (fun _ _ _ hturned => hturned.1)
        (Nat.le_refl n) hd (fun _ _ hd' _ => hd') fun op _ _ => perform_pays op
    apply hturn.mono_post
    rintro goesOn self' n' ⟨hd', l, m, ⟨-, hleft⟩, hle⟩
    cases goesOn with
    | true => exact ⟨hd', Nat.le_trans (hleft rfl) hle⟩
    | false => exact hd'
  after hd := hd

theorem head_pending (self : RunningSender) : (run.pending (.head self)).isSome = true := rfl

end RunningSender

/-! ### Any number of senders -/

namespace SenderStage

variable {stage : SenderStage} {op : HostedOp senderOwnAccess} {resume : op.Res → SenderStage}
variable {d n : Nat} {thread : Thread senderHostAccess RunningSender}

/-- While the sender runs it has a next access, and `n` pays for what it does up to the next
renewal. -/
def Paid (d n : Nat) (stage : SenderStage) : Prop :=
  ∀ thread, stage = .running thread → (RunningSender.run.pending thread).isSome = true ∧
    (RunningSender.paying d).Holds thread n

/-- The sender does not run. -/
def Rests (stage : SenderStage) : Prop := ∀ thread, stage ≠ .running thread

theorem Rests.paid (hrests : stage.Rests) : stage.Paid d n :=
  fun thread heq => absurd heq (hrests thread)

theorem settleRunning_paid (hwaits : RunningSender.run.Waits thread)
    (hholds : (RunningSender.paying d).Holds thread n) : (settleRunning thread).Paid d n := by
  cases thread with
  | returned self =>
      intro thread hno
      cases hno
  | head self =>
      rintro thread heq
      cases heq
      exact ⟨rfl, hholds⟩
  | turn p =>
      rintro thread heq
      cases heq
      exact ⟨hwaits.resolve_right (fun hno => by cases hno), hholds⟩
  | leaving p =>
      rintro thread heq
      cases heq
      exact ⟨hwaits.resolve_right (fun hno => by cases hno), hholds⟩

theorem settleInitializing_rests (config : SenderConfig)
    (thread : Thread senderHostAccess InitializingSender) :
    (settleInitializing config thread).Rests := by
  intro thread' hno
  cases thread with
  | returned self =>
      simp only [settleInitializing] at hno
      split at hno
      · cases hno
      · cases hno
      · cases hno
  | head self => cases hno
  | turn p => cases hno
  | leaving p => cases hno

theorem settleDestroying_rests (log : List (HostedOp senderOwnAccess))
    (p : Process senderHostAccess Unit Unit) : (settleDestroying log p).Rests := by
  intro thread hno
  cases p with
  | done a l => cases hno
  | step l op next => cases hno

/-- An access of a sender that does not run does not make it run. -/
theorem Rests.resumed (hrests : stage.Rests) (hpending : stage.pending = some ⟨op, resume⟩)
    (r : op.Res) : (resume r).Rests := by
  cases stage with
  | running thread => exact absurd rfl (hrests thread)
  | initializing config thread =>
      obtain ⟨⟨op', resume'⟩, -, heq⟩ := Option.map_eq_some_iff.mp hpending
      cases heq
      exact settleInitializing_rests config _
  | destroying log p =>
      cases p with
      | done a l => cases hpending
      | step l op' next =>
          cases hpending
          exact settleDestroying_rests _ _
  | _ => cases hpending

/-- An access of a sender that runs is paid for. -/
theorem Paid.resumed (hpaid : (running thread).Paid d n)
    (hpending : (running thread).pending = some ⟨op, resume⟩) (r : op.Res) : 1 ≤ n ∧
      (resume r).Paid d (if (senderHostTariff d).renews op r = true then Sender.turnAccesses d
        else n - 1) := by
  obtain ⟨⟨op', resume'⟩, hthread, heq⟩ := Option.map_eq_some_iff.mp hpending
  cases heq
  obtain ⟨-, hholds⟩ := hpaid thread rfl
  obtain ⟨hone, hresume⟩ := hholds.pay hthread fun _ _ _ hcontrol => hcontrol.2
  exact ⟨hone, settleRunning_paid (Loop.resume_waits RunningSender.head_pending hthread r)
    (hresume r)⟩

end SenderStage

namespace Senders

variable {inetPton : Bytes → Option UInt32} {s t u : Senders inetPton}
variable {a : ResidentAction (senderKind inetPton)} {h k : Nat}

/-- Every sender that runs can pay for what it does up to the next renewal. -/
def Paying (s : Senders inetPton) : Prop :=
  ∀ h, ∃ d n, n ≤ Sender.turnAccesses d ∧ (s.stage h).Paid d n

theorem one_le_turnAccesses (d : Nat) : 1 ≤ Sender.turnAccesses d := Nat.le_add_left 1 _

/-- A call does not take from what a sender that runs can pay, and a new run can pay. -/
theorem react_paid {slot slot' : SenderSlot} {call : SenderCall}
    (hreact : slot.react inetPton call = some slot')
    (hslot : ∃ d n, n ≤ Sender.turnAccesses d ∧ slot.stage.Paid d n) :
    ∃ d n, n ≤ Sender.turnAccesses d ∧ slot'.stage.Paid d n := by
  obtain ⟨stop, stage⟩ := slot
  cases call with
  | initializeSender config =>
      cases stage with
      | absent =>
          cases hreact
          exact ⟨0, 1, one_le_turnAccesses 0, (SenderStage.settleInitializing_rests _ _).paid⟩
      | _ => cases hreact
  | run =>
      cases stage with
      | idle sender =>
          cases hreact
          refine ⟨sender.destinations.length, 1, one_le_turnAccesses _, fun thread heq => ?_⟩
          cases heq
          exact ⟨rfl, rfl, Nat.le_refl 1⟩
      | _ => cases hreact
  | requestStop =>
      obtain ⟨sender, -, rfl⟩ := Option.map_eq_some_iff.mp hreact
      exact hslot
  | destroy =>
      obtain ⟨sender, -, rfl⟩ := SenderSlot.destroy_cases hreact
      exact ⟨0, 1, one_le_turnAccesses 0, (SenderStage.settleDestroying_rests _ _).paid⟩

/-- Where an access of a sender leads to. -/
theorem pending_cases {slot : SenderSlot} {op : HostedOp senderOwnAccess}
    {resume : op.Res → SenderSlot} (hpending : slot.pending = some ⟨op, resume⟩) :
    ∃ resume' : op.Res → SenderStage, slot.stage.pending = some ⟨op, resume'⟩ ∧
      ∀ r, (resume r).stage = resume' r ∧ (slot.stop = true → (resume r).stop = true) := by
  obtain ⟨⟨op', resume'⟩, hstage, heq⟩ := Option.map_eq_some_iff.mp hpending
  cases heq
  exact ⟨resume', hstage, fun r => ⟨rfl, fun hstop => by simp [hstop]⟩⟩

theorem idle_rests (sender : SenderObject) : (SenderStage.idle sender).Rests :=
  fun _ hno => by cases hno

theorem Paying.next (hpaying : s.Paying) (hnext : s.next a = some u) : u.Paying := by
  intro h
  have hidle : ∀ sender, u.stage h = .idle sender →
      ∃ d n, n ≤ Sender.turnAccesses d ∧ (u.stage h).Paid d n := by
    intro sender hidle
    rw [hidle]
    exact ⟨0, 1, one_le_turnAccesses 0, (idle_rests sender).paid⟩
  cases Residents.course hnext h with
  | kept other place =>
      rw [stage, place]
      exact hpaying h
  | reacted c called react => exact react_paid react (hpaying h)
  | stepped answer op resume stepped pending answered place =>
      obtain ⟨resume', hpending, hresume⟩ := pending_cases pending
      obtain ⟨d, n, hn, hpaid⟩ := hpaying h
      have hstage : u.stage h = resume' (answer op) := by
        rw [stage, place]
        exact (hresume _).1
      rw [hstage]
      by_cases hruns : ∃ thread, s.stage h = .running thread
      · obtain ⟨thread, hthread⟩ := hruns
        rw [hthread] at hpaid
        have hrunning : (SenderStage.running thread).pending = some ⟨op, resume'⟩ :=
          hthread ▸ hpending
        obtain ⟨-, hpaid'⟩ := hpaid.resumed hrunning (answer op)
        refine ⟨d, _, ?_, hpaid'⟩
        split
        · exact Nat.le_refl _
        · exact Nat.le_trans (Nat.sub_le n 1) hn
      · have hrests : (s.stage h).Rests := fun thread heq => hruns ⟨thread, heq⟩
        exact ⟨d, n, hn, (hrests.resumed hpending _).paid⟩
  | arrived other leftover old moved absent construct =>
      obtain ⟨sender, -, heq⟩ := SenderSlot.construct_cases construct
      exact hidle _ (congrArg (fun pair => pair.1.stage) heq)
  | left new other leftover moved construct =>
      obtain ⟨sender, -, heq⟩ := SenderSlot.construct_cases construct
      exact hidle _ (congrArg (fun pair => pair.2.stage) heq)

theorem initial_paying : (initial inetPton).Paying :=
  fun _ => ⟨0, 1, one_le_turnAccesses 0, SenderStage.Rests.paid fun _ hno => by cases hno⟩

/-- An access of the sender `h`. -/
def isStep (h : Nat) : ResidentAction (senderKind inetPton) → Bool
  | .step x _ => x == h
  | _ => false

/-- The sender `h` was asked to stop while it ran, and `k` pays for what it still does. -/
structure Stopping (s : Senders inetPton) (h d k : Nat) : Prop where
  stop : SenderSlot.stop (s.place h) = true
  runs : (∃ sender, s.stage h = .idle sender) ∨ ∃ thread, s.stage h = .running thread
  paid : (s.stage h).Paid d k

theorem settleRunning_cases (thread : Thread senderHostAccess RunningSender) :
    (∃ sender, SenderStage.settleRunning thread = .idle sender) ∨
      ∃ thread', SenderStage.settleRunning thread = .running thread' := by
  cases thread with
  | returned self => exact .inl ⟨_, rfl⟩
  | head self => exact .inr ⟨_, rfl⟩
  | turn p => exact .inr ⟨_, rfl⟩
  | leaving p => exact .inr ⟨_, rfl⟩

/-- The stop flag is set, so no answer renews the budget. -/
theorem not_renews {slot : SenderSlot} {d : Nat} {answer : (op : HostedOp senderOwnAccess) → op.Res}
    {op : HostedOp senderOwnAccess} (hstop : slot.stop = true)
    (hanswered : ∀ own, op = .own own → slot.answers own (answer (.own own)) = true) :
    (senderHostTariff d).renews op (answer op) = false := by
  cases op with
  | system op => rfl
  | own op =>
      cases op with
      | loadStop =>
          have hanswer : (answer (.own .loadStop) == slot.stop) = true := hanswered _ rfl
          rw [hstop, beq_iff_eq] at hanswer
          exact congrArg not hanswer
      | _ => rfl

theorem Stopping.next {d : Nat} (hstopping : s.Stopping h d k)
    (hcalls : ∀ c, a = .call h c → c = .requestStop) (hnext : s.next a = some u) :
    (isStep h a).toNat ≤ k ∧ u.Stopping h d (k - (isStep h a).toNat) := by
  obtain ⟨hstop, hstage, hpaid⟩ := hstopping
  have hkept : ∀ slot : SenderSlot, u.place h = slot → slot.stop = true →
      slot.stage = s.stage h → u.Stopping h d k := by
    rintro slot rfl hstop' hsame
    refine ⟨hstop', ?_, ?_⟩
    · rw [stage, hsame]
      exact hstage
    · rw [stage, hsame]
      exact hpaid
  cases Residents.course hnext h with
  | kept other place =>
      have hother : isStep h a = false := by
        cases a with
        | step x answer => exact beq_false_of_ne fun heq => other answer (heq ▸ rfl)
        | _ => rfl
      rw [hother]
      exact ⟨Nat.zero_le k, hkept _ place hstop rfl⟩
  | reacted c called react =>
      obtain rfl := called
      obtain rfl := hcalls c rfl
      obtain ⟨sender, -, heq⟩ := Option.map_eq_some_iff.mp react
      exact ⟨Nat.zero_le k, hkept _ heq.symm rfl rfl⟩
  | stepped answer op resume stepped pending answered place =>
      obtain rfl := stepped
      obtain ⟨resume', hpending, hresume⟩ := pending_cases pending
      have hone : isStep h (.step h answer : ResidentAction (senderKind inetPton)) = true :=
        beq_self_eq_true h
      have hstage' : u.stage h = resume' (answer op) := by
        rw [stage, place]
        exact (hresume _).1
      obtain ⟨sender, hidle⟩ | ⟨thread, hthread⟩ := hstage
      · have hno : (s.stage h).pending = some ⟨op, resume'⟩ := hpending
        rw [hidle] at hno
        cases hno
      · rw [hthread] at hpaid
        have hrunning : (SenderStage.running thread).pending = some ⟨op, resume'⟩ :=
          hthread ▸ hpending
        obtain ⟨hk, hpaid'⟩ := hpaid.resumed hrunning (answer op)
        rw [not_renews hstop answered, if_neg Bool.false_ne_true] at hpaid'
        rw [hone]
        refine ⟨hk, ?_, ?_, hstage' ▸ hpaid'⟩
        · rw [place]
          exact (hresume _).2 hstop
        · rw [hstage']
          obtain ⟨⟨op', resume''⟩, -, heq⟩ := Option.map_eq_some_iff.mp hrunning
          cases heq
          exact settleRunning_cases _
  | arrived other leftover old moved absent construct =>
      have habsent : s.stage h = .absent := SenderSlot.stage_of_absent absent
      rw [habsent] at hstage
      obtain ⟨sender, hno⟩ | ⟨thread, hno⟩ := hstage
      · cases hno
      · cases hno
  | left new other leftover moved construct =>
      obtain rfl := moved
      obtain ⟨sender, -, heq⟩ := SenderSlot.construct_cases construct
      have hplace := congrArg Prod.snd heq
      refine ⟨Nat.zero_le k, congrArg SenderSlot.stop hplace, ?_, ?_⟩
      · exact .inl ⟨_, congrArg SenderSlot.stage hplace⟩
      · have hidle : u.stage h = .idle _ := congrArg SenderSlot.stage hplace
        rw [hidle]
        exact (idle_rests _).paid

/-- Once a stop was requested, a sender that runs returns after at most so many accesses of its
own as one turn has, whatever the shared memory and the network answer and however the other
senders and programs interleave; until then it has a next access. -/
theorem stops_promptly {thread : Thread senderHostAccess RunningSender}
    {actions : List (ResidentAction (senderKind inetPton))}
    (hrun : Reaches Residents.next anyAction (initial inetPton) s)
    (hrunning : s.stage h = .running thread) (hstop : SenderSlot.stop (s.place h) = true)
    (hcalls : ∀ a ∈ actions, ∀ c, a = .call h c → c = .requestStop)
    (hactions : runActions Residents.next anyAction s actions = some t) :
    (∃ sender, t.stage h = .idle sender) ∧
        actions.countP (isStep h) ≤ Sender.turnAccesses thread.self.destinations.length ∨
      (∃ thread', t.stage h = .running thread' ∧ (t.stage h).pending.isSome = true) ∧
        actions.countP (isStep h) < Sender.turnAccesses thread.self.destinations.length := by
  obtain ⟨d, n, hn, hpaid⟩ := (hrun.invariant initial_paying fun _ _ _ hpaying _ hnext =>
    hpaying.next hnext) h
  have hd : thread.self.destinations.length = d := by
    obtain ⟨-, hholds⟩ := hpaid thread hrunning
    exact hholds.self (P := fun self _ => RunningSender.Sends d self)
      (fun _ _ _ hcontrol => hcontrol.1) (fun _ _ hhead => hhead.1) (fun _ _ hd => hd)
      fun _ _ hd => hd
  rw [hd]
  have hstopping : s.Stopping h d n := ⟨hstop, .inr ⟨thread, hrunning⟩, hpaid⟩
  obtain ⟨hle, hstopped⟩ := runActions_paid (I := fun k s => Stopping s h d k) hstopping
    (fun _ _ _ _ hstopping hcalls hnext => hstopping.next hcalls hnext) hcalls hactions
  obtain ⟨sender, hidle⟩ | ⟨thread', hthread'⟩ := hstopped.runs
  · exact .inl ⟨⟨sender, hidle⟩, Nat.le_trans hle hn⟩
  · obtain ⟨hpending, hholds⟩ := hstopped.paid thread' hthread'
    obtain ⟨⟨op, resume⟩, hop⟩ := Option.isSome_iff_exists.mp hpending
    have hone : 1 ≤ n - actions.countP (isStep h) :=
      (hholds.pay hop fun _ _ _ hcontrol => hcontrol.2).1
    refine .inr ⟨⟨thread', hthread', ?_⟩, by omega⟩
    rw [hthread']
    exact (Option.isSome_map ..).trans hpending

/-- The sender 1 runs, and is asked to stop behind the test of the flag. -/
def sampleRun : List (ResidentAction (senderKind fun _ => some 0)) :=
  sampleActions ++ [.call 1 .run, .step 1 sampleAnswer, .call 1 .requestStop]

/-- The flag is set. -/
def sampleStopped : (op : HostedOp senderOwnAccess) → op.Res
  | .own .loadStop => true
  | op => sampleAnswer op

/-- It finds the ring empty, and its flag set. -/
def sampleStop : List (ResidentAction (senderKind fun _ => some 0)) :=
  List.replicate 4 (.step 1 sampleStopped)

def runs (s : Senders inetPton) (h : Nat) : Bool :=
  match s.stage h with
  | .running _ => true
  | _ => false

theorem eq_of_runs (hruns : s.runs h = true) : ∃ thread, s.stage h = .running thread := by
  rw [runs] at hruns
  split at hruns
  case h_1 thread hthread => exact ⟨thread, hthread⟩
  case h_2 => cases hruns

theorem stops_promptly_sample : ∃ s t : Senders fun _ => some 0,
    runActions Residents.next anyAction (initial fun _ => some 0) sampleRun = some s ∧
      runActions Residents.next anyAction s sampleStop = some t ∧ s.runs 1 = true ∧
      ∃ sender, t.stage 1 = .idle sender := by
  have hsample : (runActions Residents.next anyAction (initial fun _ => some 0) sampleRun).bind
      (fun s => (runActions Residents.next anyAction s sampleStop).map fun t =>
        (runs s 1, SenderSlot.stop (s.place 1), runs t 1)) = some (true, true, false) := by
    decide +kernel
  obtain ⟨s, hs, hrest⟩ := Option.bind_eq_some_iff.mp hsample
  obtain ⟨t, ht, heq⟩ := Option.map_eq_some_iff.mp hrest
  obtain ⟨hruns, heq⟩ := Prod.mk.inj heq
  obtain ⟨hstop, hreturned⟩ := Prod.mk.inj heq
  obtain ⟨thread, hthread⟩ := eq_of_runs hruns
  refine ⟨s, t, hs, ht, hruns, ?_⟩
  have hcalls : ∀ a ∈ sampleStop, ∀ c, a = .call 1 c → c = .requestStop := by
    intro a ha c hcall
    rw [List.eq_of_mem_replicate ha] at hcall
    cases hcall
  obtain ⟨hidle, -⟩ | ⟨⟨thread', hthread', -⟩, -⟩ := stops_promptly
    (reaches_of_allowed hs fun _ _ _ => trivial) hthread hstop hcalls ht
  · exact hidle
  · rw [runs, hthread'] at hreturned
    cases hreturned

end Senders

end EventEngine
