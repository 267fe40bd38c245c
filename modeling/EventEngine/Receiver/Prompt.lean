import EventEngine.Protocol.RoundTrip
import EventEngine.Receiver.Lifecycle
import EventEngine.Ring.WaitFree

/-!
# A receiver stops promptly

One turn of `run` has a bounded number of accesses: a datagram, a publication with the bytes of
the largest payload, and the test of the stop flag. Once the flag is set the receiver only does
what is left of its turn, and closes the ring.
-/

namespace EventEngine

open Concurrency Memory Posix Protocol Transport EventEngine.Ring EventEngine.Shm

/-- The accesses of a turn behind the test of the stop flag, the next test, and the closing. -/
def Receiver.turnAccesses : Nat := 1 + (maxSingleEventPayloadBytes + 8) + 2

/-- A turn may cost that much for each test of the stop flag that lets it begin. -/
def receiverTariff : Tariff receiverAccess where
  full := Receiver.turnAccesses
  cost
    | .tryPublish event => event.payload.length + 8
    | _ => 1
  renews
    | .loadStop, stopRequested => !stopRequested
    | _, _ => false

/-- One access on the host is one access; the budget of a turn is the same. -/
def hostTariff : Tariff hostAccess where
  full := Receiver.turnAccesses
  cost _ := 1
  renews
    | .loadStop, stopRequested => !stopRequested
    | _, _ => false

namespace Receiver

variable {n : Nat} {l : Receiver}

/-- Nothing is said of the receiver. -/
abbrev Pays : Receiver → ReceiverOp → Nat → Prop := receiverTariff.Pays fun _ => True

/-- What is left for the closing, and for the next test of the stop flag if the loop goes on. -/
def Turned (goesOn : Bool) (_ : Receiver) (n : Nat) : Prop :=
  1 ≤ n ∧ (goesOn = true → 2 ≤ n)

theorem publish_pays (event : Event) (hpayload : event.payload.length ≤ maxSingleEventPayloadBytes)
    (hn : maxSingleEventPayloadBytes + 8 + 2 ≤ n) :
    (publish event l).Meets receiverTariff.environment Pays Turned n := by
  refine ⟨⟨trivial, show event.payload.length + 8 ≤ n by omega⟩, fun published n' hpaid => ?_⟩
  have hleft : n = event.payload.length + 8 + n' := hpaid
  have hturned : ∀ goesOn l', Turned goesOn l' n' :=
    fun _ _ => ⟨by omega, fun _ => by omega⟩
  cases published with
  | ok => exact hturned _ _
  | full => exact hturned _ _
  | closed => exact hturned _ _
  | payloadTooLarge => exact hturned _ _

theorem filter_pays (decoded : DecodedDataView)
    (hpayload : decoded.event.payload.length ≤ maxSingleEventPayloadBytes)
    (hn : maxSingleEventPayloadBytes + 8 + 2 ≤ n) :
    (filter decoded l).Meets receiverTariff.environment Pays Turned n := by
  have hturned : ∀ l', Turned true l' n := fun _ => ⟨by omega, fun _ => by omega⟩
  rw [filter, Method.bind_apply, Method.self_apply, Process.bind_done, Method.bind_apply,
    Method.assign_apply, Process.bind_done]
  split
  · split
    · exact hturned _
    · exact hturned _
  · split
    · exact publish_pays _ hpayload hn
    · exact publish_pays _ hpayload hn

theorem receiveDatagram_pays (datagram : Bytes) (hn : maxSingleEventPayloadBytes + 8 + 2 ≤ n) :
    (receiveDatagram datagram l).Meets receiverTariff.environment Pays Turned n := by
  rw [receiveDatagram, Method.bind_apply, count, Method.assign_apply, Process.bind_done]
  cases hdecoded : decodeData datagram with
  | error e => exact ⟨by omega, fun _ => by omega⟩
  | ok decoded => exact filter_pays decoded (fields_of_decodeData hdecoded).2.payload hn

theorem receiveError_pays (error : UdpError) (hn : 2 ≤ n) :
    (receiveError error l).Meets receiverTariff.environment Pays Turned n := by
  have hturned : ∀ goesOn l', Turned goesOn l' n := fun _ _ => ⟨by omega, fun _ => hn⟩
  rw [receiveError]
  split
  · exact hturned _ _
  · split
    · exact hturned _ _
    · exact hturned _ _

/-- What is left behind the last test of the stop flag pays for the turn and what follows. -/
theorem turn_pays (hn : 2 ≤ n) :
    (turn l).Meets receiverTariff.environment Pays Turned n := by
  refine ⟨⟨trivial, show 1 ≤ n by omega⟩, fun stopRequested n' hpaid => ?_⟩
  cases stopRequested with
  | true =>
      have hleft : n = 1 + n' := hpaid
      exact ⟨by omega, fun hno => by cases hno⟩
  | false =>
      obtain rfl : n' = turnAccesses := hpaid
      have hfull : turnAccesses = 1 + (maxSingleEventPayloadBytes + 8) + 2 := rfl
      refine ⟨⟨trivial, show 1 ≤ turnAccesses by omega⟩, fun received n'' hpaid => ?_⟩
      have hleft : turnAccesses = 1 + n'' := hpaid
      cases received with
      | error e => exact receiveError_pays e (by omega)
      | ok datagram => exact receiveDatagram_pays datagram (by omega)

end Receiver

namespace ReceiverObject

variable {n : Nat} {self : ReceiverObject}

abbrev Pays : ReceiverObject → HostOp → Nat → Prop := hostTariff.Pays fun _ => True

theorem onEgress_pays {α : Type} {call : Method spanAccess SpscRing α} {k : Nat}
    (hcall : (call self.egress).Takes k) (hn : k ≤ n) :
    (onEgress call self).Meets hostTariff.environment Pays
      (fun _ _ n' => True ∧ n ≤ k + n') n := by
  apply hcall.within hn trivial
  · intro _ _ _
    trivial
  · intro access self' n _ hn
    exact ⟨⟨trivial, hn⟩, fun _ n' hpaid => ⟨trivial, Nat.le_of_eq hpaid⟩⟩

/-- Each access of the thread costs as many on the host as its tariff says. -/
theorem perform_pays (op : ReceiverOp) (hn : receiverTariff.cost op ≤ n) :
    (perform op self).Meets hostTariff.environment Pays
      (fun r _ n' => True ∧ if receiverTariff.renews op r = true then receiverTariff.full ≤ n'
        else n ≤ receiverTariff.cost op + n') n := by
  cases op with
  | loadStop =>
      refine ⟨⟨trivial, hn⟩, fun stopRequested n' hpaid => ?_⟩
      cases stopRequested with
      | true => exact ⟨trivial, Nat.le_of_eq hpaid⟩
      | false => exact ⟨trivial, Nat.le_of_eq hpaid.symm⟩
  | receive => exact ⟨⟨trivial, hn⟩, fun _ n' hpaid => ⟨trivial, Nat.le_of_eq hpaid⟩⟩
  | tryPublish event => exact onEgress_pays (tryPublish_takes event) hn
  | closePublication => exact onEgress_pays closePublication_takes hn

/-- `run` pays for what it does. -/
def paying : run.Contract hostTariff.environment where
  control := Pays
  head _ n := 2 ≤ n
  exit _ n := 1 ≤ n
  final _ _ := True
  body := by
    intro self n hn
    have hturn : (onThread Receiver.turn self).Meets hostTariff.environment Pays
        (fun goesOn _ n' => True ∧ ∃ l m, Receiver.Turned goesOn l m ∧ m ≤ n') n :=
      (Receiver.turn_pays hn).within_paid (fun _ _ _ _ => trivial) (Nat.le_refl n) trivial
        (fun _ _ _ _ => trivial) fun op _ _ _ => perform_pays op
    apply hturn.mono_post
    rintro goesOn self' n' ⟨-, l, m, ⟨hone, htwo⟩, hle⟩
    cases goesOn with
    | true => exact Nat.le_trans (htwo rfl) hle
    | false => exact Nat.le_trans hone hle
  after := by
    intro self n hn
    have hafter : (Receiver.run.after self.toReceiver).Meets receiverTariff.environment
        Receiver.Pays (fun _ _ _ => True) n := ⟨⟨trivial, hn⟩, fun _ _ _ => trivial⟩
    have hclose : (onThread Receiver.run.after self).Meets hostTariff.environment Pays
        (fun _ _ n' => True ∧ ∃ (l : Receiver) (m : Nat), True ∧ m ≤ n') n :=
      hafter.within_paid (fun _ _ _ _ => trivial) (Nat.le_refl n) trivial
        (fun _ _ _ _ => trivial) fun op _ _ _ => perform_pays op
    exact hclose.mono_post fun _ _ _ _ => trivial

theorem head_pending (self : ReceiverObject) : (run.pending (.head self)).isSome = true := rfl

end ReceiverObject

/-! ### Any number of receivers -/

namespace ReceiverSlot

variable {slot : ReceiverSlot} {op : HostOp} {resume : op.Res → ReceiverSlot}
variable {n : Nat} {thread : Thread hostAccess ReceiverObject}

/-- While the receiver runs it has a next access, and `n` pays for what it does up to the next
renewal. -/
def Paid (n : Nat) (slot : ReceiverSlot) : Prop :=
  ∀ thread, slot = .running thread → (ReceiverObject.run.pending thread).isSome = true ∧
    ReceiverObject.paying.Holds thread n

/-- The receiver does not run. -/
def Rests (slot : ReceiverSlot) : Prop := ∀ thread, slot ≠ .running thread

theorem Rests.paid (hrests : slot.Rests) : slot.Paid n :=
  fun thread heq => absurd heq (hrests thread)

theorem settleRunning_paid (hwaits : ReceiverObject.run.Waits thread)
    (hholds : ReceiverObject.paying.Holds thread n) : (settleRunning thread).Paid n := by
  cases thread with
  | returned self =>
      intro thread hno
      cases hno
  | head self =>
      rintro thread heq
      cases heq
      exact ⟨rfl, hholds⟩
  | turn p =>
      rintro thread heq
      cases heq
      exact ⟨hwaits.resolve_right (fun hno => by cases hno), hholds⟩
  | leaving p =>
      rintro thread heq
      cases heq
      exact ⟨hwaits.resolve_right (fun hno => by cases hno), hholds⟩

theorem settleRunning_cases (thread : Thread hostAccess ReceiverObject) :
    (∃ receiver, settleRunning thread = .idle receiver) ∨
      ∃ thread', settleRunning thread = .running thread' := by
  cases thread with
  | returned self => exact .inl ⟨_, rfl⟩
  | head self => exact .inr ⟨_, rfl⟩
  | turn p => exact .inr ⟨_, rfl⟩
  | leaving p => exact .inr ⟨_, rfl⟩

theorem settleInitializing_rests (config : ReceiverConfig)
    (thread : Thread hostAccess Initializing) : (settleInitializing config thread).Rests := by
  intro thread' hno
  cases thread with
  | returned self =>
      simp only [settleInitializing] at hno
      split at hno
      · cases hno
      · cases hno
      · cases hno
  | head self => cases hno
  | turn p => cases hno
  | leaving p => cases hno

theorem settleDestroying_rests (log : List HostOp) (p : Process hostAccess Unit Unit) :
    (settleDestroying log p).Rests := by
  intro thread hno
  cases p with
  | done a l => cases hno
  | step l op next => cases hno

/-- An access of a receiver that does not run does not make it run. -/
theorem Rests.resumed (hrests : slot.Rests) (hpending : slot.pending = some ⟨op, resume⟩)
    (r : op.Res) : (resume r).Rests := by
  cases slot with
  | running thread => exact absurd rfl (hrests thread)
  | initializing config thread =>
      obtain ⟨⟨op', resume'⟩, -, heq⟩ := Option.map_eq_some_iff.mp hpending
      cases heq
      exact settleInitializing_rests config _
  | destroying log p =>
      cases p with
      | done a l => cases hpending
      | step l op' next =>
          cases hpending
          exact settleDestroying_rests _ _
  | _ => cases hpending

/-- An access of a receiver that runs is paid for, and it goes on or has returned. -/
theorem Paid.resumed (hpaid : (running thread).Paid n)
    (hpending : (running thread).pending = some ⟨op, resume⟩) (r : op.Res) :
    1 ≤ n ∧ ((∃ receiver, resume r = .idle receiver) ∨ ∃ thread', resume r = .running thread') ∧
      (resume r).Paid (if hostTariff.renews op r = true then Receiver.turnAccesses
        else n - 1) := by
  obtain ⟨⟨op', resume'⟩, hthread, heq⟩ := Option.map_eq_some_iff.mp hpending
  cases heq
  obtain ⟨-, hholds⟩ := hpaid thread rfl
  obtain ⟨hone, hresume⟩ := hholds.pay hthread fun _ _ _ hcontrol => hcontrol.2
  exact ⟨hone, settleRunning_cases _, settleRunning_paid
    (Loop.resume_waits ReceiverObject.head_pending hthread r) (hresume r)⟩

end ReceiverSlot

namespace Receivers

variable {s t u : Receivers} {a : LifecycleAction} {h k : Nat}
variable {answer : (op : Op) → op.Res} {received : Received}
variable {inetPton : Bytes → Option UInt32}

/-- An access changes no stop flag, and it does not renew the budget if the flag is set. -/
theorem respond_flags {op : HostOp} {result : op.Res}
    (hrespond : s.respond h answer received op = some (result, u)) :
    u.slots = s.slots ∧ u.stop = s.stop ∧
      (s.stop h = true → hostTariff.renews op result = false) := by
  cases op with
  | system op =>
      obtain ⟨u', hcall, heq⟩ := Option.map_eq_some_iff.mp hrespond
      cases heq
      obtain ⟨k, -, rfl⟩ := Option.map_eq_some_iff.mp hcall
      exact ⟨rfl, rfl, fun _ => rfl⟩
  | memory base access =>
      obtain ⟨mapping, -, heq⟩ := Option.map_eq_some_iff.mp hrespond
      cases heq
      exact ⟨rfl, rfl, fun _ => rfl⟩
  | loadStop =>
      cases hrespond
      exact ⟨rfl, rfl, congrArg not⟩
  | receive socketFd =>
      cases hrespond
      exact ⟨rfl, rfl, fun _ => rfl⟩

/-- What an action is for the receiver `h`. -/
inductive Course (s : Receivers) (a : LifecycleAction) (u : Receivers) (h : Nat) : Prop
  | kept (other : ∀ answer received, a ≠ .step h answer received)
      (slots : u.slots h = s.slots h) (stop : u.stop h = s.stop h ∨ u.stop h = true)
  | began (absent : s.slots h = .absent) (rests : (u.slots h).Rests)
  | ran (called : a = .run h) (receiver : ReceiverObject)
      (slots : u.slots h = .running (.head receiver))
  | stepped (answer : (op : Op) → op.Res) (received : Received) (op : HostOp)
      (resume : op.Res → ReceiverSlot) (result : op.Res) (stepped : a = .step h answer received)
      (pending : (s.slots h).pending = some ⟨op, resume⟩) (slots : u.slots h = resume result)
      (stop : u.stop h = s.stop h)
      (answered : s.stop h = true → hostTariff.renews op result = false)
  | left (new : Nat) (leftover : Name) (moved : a = .move new h leftover)
      (old : ReceiverObject) (slots : u.slots h = .idle old) (stop : u.stop h = true)
  | ended (called : a = .destroy h) (rests : (u.slots h).Rests)

theorem course (hnext : s.next inetPton a = some u) (h : Nat) : Course s a u h := by
  cases a with
  | initializeReceiver x config =>
      obtain ⟨habsent, rfl⟩ := initializeReceiver_cases hnext
      by_cases hx : h = x
      · subst hx
        apply Course.began habsent
        simp only [Function.update_self]
        exact ReceiverSlot.settleInitializing_rests _ _
      · exact .kept (fun _ _ hno => by cases hno) (Function.update_of_ne hx _ _)
          (.inl (Function.update_of_ne hx _ _))
  | step x answer received =>
      obtain ⟨op, resume, result, u', hpending, hrespond, rfl⟩ := step_cases hnext
      obtain ⟨hslots, hstop, hanswered⟩ := respond_flags hrespond
      by_cases hx : h = x
      · subst hx
        exact .stepped answer received op resume result rfl hpending (Function.update_self _ _ _)
          (congrFun hstop h) hanswered
      · apply Course.kept
        · rintro answer received hstep
          cases hstep
          exact hx rfl
        · simp only [Function.update_of_ne hx, hslots]
        · exact .inl (congrFun hstop h)
  | move x other leftover =>
      obtain ⟨receiver, habsent, hidle, rfl⟩ := move_cases hnext
      by_cases hx : h = x
      · subst hx
        apply Course.began habsent
        simp only [Function.update_self]
        exact fun _ hno => by cases hno
      · by_cases hother : h = other
        · subst hother
          apply Course.left x leftover rfl
          · simp only [Function.update_of_ne hx, Function.update_self]
            rfl
          · simp only [Function.update_of_ne hx, Function.update_self]
        · apply Course.kept (fun _ _ hno => by cases hno)
          · simp only [Function.update_of_ne hx, Function.update_of_ne hother]
          · left
            simp only [Function.update_of_ne hx, Function.update_of_ne hother]
  | run x =>
      obtain ⟨receiver, -, rfl⟩ := run_cases hnext
      by_cases hx : h = x
      · subst hx
        exact .ran rfl receiver (Function.update_self _ _ _)
      · exact .kept (fun _ _ hno => by cases hno) (Function.update_of_ne hx _ _) (.inl rfl)
  | requestStop x =>
      obtain ⟨receiver, -, rfl⟩ := Option.map_eq_some_iff.mp hnext
      by_cases hx : h = x
      · subst hx
        exact .kept (fun _ _ hno => by cases hno) rfl (.inr (Function.update_self _ _ _))
      · exact .kept (fun _ _ hno => by cases hno) rfl (.inl (Function.update_of_ne hx _ _))
  | destroy x =>
      obtain ⟨receiver, -, rfl⟩ := destroy_cases hnext
      by_cases hx : h = x
      · subst hx
        apply Course.ended rfl
        simp only [Function.update_self]
        exact ReceiverSlot.settleDestroying_rests _ _
      · exact .kept (fun _ _ hno => by cases hno) (Function.update_of_ne hx _ _) (.inl rfl)
  | others op result =>
      obtain ⟨k, -, rfl⟩ := Option.map_eq_some_iff.mp hnext
      exact .kept (fun _ _ hno => by cases hno) rfl (.inl rfl)
  | write o bytes =>
      simp only [next] at hnext
      split at hnext
      case isTrue =>
        cases hnext
        exact .kept (fun _ _ hno => by cases hno) rfl (.inl rfl)
      case isFalse => cases hnext

/-- Every receiver that runs can pay for what it does up to the next renewal. -/
def Paying (s : Receivers) : Prop := ∀ h, ∃ n ≤ Receiver.turnAccesses, (s.slots h).Paid n

theorem paid_of_rests (hrests : (s.slots h).Rests) :
    ∃ n ≤ Receiver.turnAccesses, (s.slots h).Paid n := ⟨0, Nat.zero_le _, hrests.paid⟩

theorem initial_paying : initial.Paying :=
  fun _ => paid_of_rests fun _ hno => by cases hno

theorem Paying.next (hpaying : s.Paying) (hnext : s.next inetPton a = some u) : u.Paying := by
  intro h
  obtain ⟨n, hn, hpaid⟩ := hpaying h
  cases course hnext h with
  | kept other slots stop => exact ⟨n, hn, slots ▸ hpaid⟩
  | began absent rests => exact paid_of_rests rests
  | ran called receiver slots =>
      refine ⟨2, by decide, ?_⟩
      rw [slots]
      rintro thread heq
      cases heq
      exact ⟨rfl, Nat.le_refl 2⟩
  | stepped answer received op resume result stepped pending slots stop answered =>
      rw [slots]
      by_cases hruns : ∃ thread, s.slots h = .running thread
      · obtain ⟨thread, hthread⟩ := hruns
        rw [hthread] at hpaid pending
        obtain ⟨-, -, hpaid'⟩ := hpaid.resumed pending result
        refine ⟨_, ?_, hpaid'⟩
        split
        · exact Nat.le_refl _
        · exact Nat.le_trans (Nat.sub_le n 1) hn
      · have hrests : (s.slots h).Rests := fun thread heq => hruns ⟨thread, heq⟩
        exact ⟨n, hn, (hrests.resumed pending _).paid⟩
  | left new leftover moved old slots stop =>
      apply paid_of_rests
      rw [slots]
      exact fun _ hno => by cases hno
  | ended called rests => exact paid_of_rests rests

/-- An access of the receiver `h`. -/
def isStep (h : Nat) : LifecycleAction → Bool
  | .step x _ _ => x == h
  | _ => false

/-- The receiver `h` was asked to stop while it ran, and `k` pays for what it still does. -/
structure Stopping (s : Receivers) (h k : Nat) : Prop where
  stop : s.stop h = true
  runs : (∃ receiver, s.slots h = .idle receiver) ∨ ∃ thread, s.slots h = .running thread
  paid : (s.slots h).Paid k

/-- Neither is `run` called again, nor the destructor. -/
def Lets (h : Nat) (a : LifecycleAction) : Prop := a ≠ .run h ∧ a ≠ .destroy h

theorem Stopping.next (hstopping : s.Stopping h k) (hlets : Lets h a)
    (hnext : s.next inetPton a = some u) :
    (isStep h a).toNat ≤ k ∧ u.Stopping h (k - (isStep h a).toNat) := by
  obtain ⟨hstop, hruns, hpaid⟩ := hstopping
  have hother : (∀ answer received, a ≠ .step h answer received) → isStep h a = false := by
    intro hother
    cases a with
    | step x answer received => exact beq_false_of_ne fun heq => hother answer received (heq ▸ rfl)
    | _ => rfl
  cases course hnext h with
  | kept other slots stop =>
      rw [hother other]
      refine ⟨Nat.zero_le k, stop.elim (fun heq => heq.trans hstop) id, ?_, ?_⟩
      · rw [slots]
        exact hruns
      · rw [slots]
        exact hpaid
  | began absent rests =>
      rw [absent] at hruns
      obtain ⟨receiver, hno⟩ | ⟨thread, hno⟩ := hruns
      · cases hno
      · cases hno
  | ran called receiver slots => exact absurd called hlets.1
  | stepped answer received op resume result stepped pending slots stop answered =>
      obtain rfl := stepped
      have hone : isStep h (.step h answer received) = true := beq_self_eq_true h
      obtain ⟨receiver, hidle⟩ | ⟨thread, hthread⟩ := hruns
      · rw [hidle] at pending
        cases pending
      · rw [hthread] at hpaid pending
        obtain ⟨hk, hcases, hpaid'⟩ := hpaid.resumed pending result
        rw [answered hstop, if_neg Bool.false_ne_true] at hpaid'
        rw [hone]
        exact ⟨hk, stop.trans hstop, slots ▸ hcases, slots ▸ hpaid'⟩
  | left new leftover moved old slots stop =>
      obtain rfl := moved
      refine ⟨Nat.zero_le k, stop, .inl ⟨old, slots⟩, ?_⟩
      rw [slots]
      exact ReceiverSlot.Rests.paid fun _ hno => by cases hno
  | ended called rests => exact absurd called hlets.2

/-- Once a stop was requested, a receiver that runs returns after at most so many accesses of its
own as one turn has, whatever the socket and the shared memory answer and however the other
receivers and programs interleave; until then it has a next access. -/
theorem returns_promptly {thread : Thread hostAccess ReceiverObject}
    {actions : List LifecycleAction} (hrun : Reaches (next inetPton) anyAction initial s)
    (hrunning : s.slots h = .running thread) (hstop : s.stop h = true)
    (hlets : ∀ a ∈ actions, Lets h a)
    (hactions : runActions (next inetPton) anyAction s actions = some t) :
    (∃ receiver, t.slots h = .idle receiver) ∧
        actions.countP (isStep h) ≤ Receiver.turnAccesses ∨
      (∃ thread', t.slots h = .running thread' ∧ (t.slots h).pending.isSome = true) ∧
        actions.countP (isStep h) < Receiver.turnAccesses := by
  obtain ⟨n, hn, hpaid⟩ := (hrun.invariant initial_paying fun _ _ _ hpaying _ hnext =>
    hpaying.next hnext) h
  have hstopping : s.Stopping h n := ⟨hstop, .inr ⟨thread, hrunning⟩, hpaid⟩
  obtain ⟨hle, hstopped⟩ := runActions_paid (I := fun k s => Stopping s h k) hstopping
    (fun _ _ _ _ hstopping hlets hnext => hstopping.next hlets hnext) hlets hactions
  obtain ⟨receiver, hidle⟩ | ⟨thread', hthread'⟩ := hstopped.runs
  · exact .inl ⟨⟨receiver, hidle⟩, Nat.le_trans hle hn⟩
  · obtain ⟨hpending, hholds⟩ := hstopped.paid thread' hthread'
    obtain ⟨⟨op, resume⟩, hop⟩ := Option.isSome_iff_exists.mp hpending
    have hone : 1 ≤ n - actions.countP (isStep h) :=
      (hholds.pay hop fun _ _ _ hcontrol => hcontrol.2).1
    refine .inr ⟨⟨thread', hthread', ?_⟩, by omega⟩
    rw [hthread']
    exact (Option.isSome_map ..).trans hpending

/-- The receiver 1 runs, and is asked to stop behind the test of the flag. -/
def sampleRun : List LifecycleAction :=
  sampleActions ++ [.run 1, .step 1 sampleAnswer (.ok []), .requestStop 1]

/-- It drops the datagram, finds its flag set, and closes the ring. -/
def sampleStop : List LifecycleAction := List.replicate 3 (.step 1 sampleAnswer (.ok []))

def runs (s : Receivers) (h : Nat) : Bool :=
  match s.slots h with
  | .running _ => true
  | _ => false

theorem eq_of_runs (hruns : s.runs h = true) : ∃ thread, s.slots h = .running thread := by
  rw [runs] at hruns
  split at hruns
  case h_1 thread hthread => exact ⟨thread, hthread⟩
  case h_2 => cases hruns

theorem returns_promptly_sample : ∃ s t : Receivers,
    runActions (next fun _ => some 0) anyAction initial sampleRun = some s ∧
      runActions (next fun _ => some 0) anyAction s sampleStop = some t ∧ s.runs 1 = true ∧
      ∃ receiver, t.slots 1 = .idle receiver := by
  have hsample : (runActions (next fun _ => some 0) anyAction initial sampleRun).bind
      (fun s => (runActions (next fun _ => some 0) anyAction s sampleStop).map fun t =>
        (runs s 1, s.stop 1, runs t 1)) = some (true, true, false) := by decide +kernel
  obtain ⟨s, hs, hrest⟩ := Option.bind_eq_some_iff.mp hsample
  obtain ⟨t, ht, heq⟩ := Option.map_eq_some_iff.mp hrest
  obtain ⟨hruns, heq⟩ := Prod.mk.inj heq
  obtain ⟨hstop, hreturned⟩ := Prod.mk.inj heq
  obtain ⟨thread, hthread⟩ := eq_of_runs hruns
  refine ⟨s, t, hs, ht, hruns, ?_⟩
  have hlets : ∀ a ∈ sampleStop, Lets 1 a := by
    intro a ha
    rw [List.eq_of_mem_replicate ha]
    constructor
    · intro hno
      cases hno
    · intro hno
      cases hno
  obtain ⟨hidle, -⟩ | ⟨⟨thread', hthread', -⟩, -⟩ := returns_promptly
    (reaches_of_allowed hs fun _ _ _ => trivial) hthread hstop hlets ht
  · exact hidle
  · rw [runs, hthread'] at hreturned
    cases hreturned

end Receivers

end EventEngine
