import EventEngine.Ring.Hostile
import EventEngine.Ring.ReadCursor
import EventEngine.Sender.System
import Mathlib.Data.Bool.Count

/-!
# What the sender's counters count

The thread of a sender sees the ring only through its answers here, and they may be any. Its
events are sent to some destination, sent to none, or cannot be encoded; `Tallied` says that
every counter is a sum of these numbers, or the number of sends with one outcome, modulo
`2 ^ 64`. It is the loop's invariant. What the calls on the ring do to the read cursor is
known from `Taken`.
-/

namespace EventEngine

open Concurrency Memory Protocol Transport EventEngine.Ring

/-- What a sender's thread has done: how many events it acquired, whether it holds the last
of them, the outcomes of its sends, and whether it has stopped itself. -/
structure SenderCounts where
  acquired : Nat
  holding : Bool
  outcomes : List Bool
  stopped : Bool

/-- The thread may get any answer, but its stop flag is never cleared. -/
def countingEnvironment : Environment senderAccess SenderCounts
  | .loadStop, r, h, h' => h' = h ∧ (h.stopped = true → r = true)
  | .requestStop, _, h, h' => h' = { h with stopped := true }
  | .tryAcquire, .error _, h, h' => h' = h
  | .tryAcquire, .ok _, h, h' => h' = { h with acquired := h.acquired + 1, holding := true }
  | .readByte _, _, h, h' => h' = h
  | .release, _, h, h' => h' = { h with holding := false }
  | .sendTo _ _, r, h, h' => h' = { h with outcomes := h.outcomes ++ [r] }

/-- The events that were sent to some destination, to none, and that could not be encoded. -/
structure Tally where
  delivered : Nat
  undelivered : Nat
  unencodable : Nat

namespace Tally

def total (n : Tally) : Nat := n.delivered + n.undelivered + n.unencodable

theorem total_deliver (n : Tally) :
    ({ n with delivered := n.delivered + 1 } : Tally).total = n.total + 1 := by
  change n.delivered + 1 + n.undelivered + n.unencodable = _
  rw [total]
  omega

theorem total_drop (n : Tally) :
    ({ n with undelivered := n.undelivered + 1 } : Tally).total = n.total + 1 := by
  change n.delivered + (n.undelivered + 1) + n.unencodable = _
  rw [total]
  omega

end Tally

/-- The counters of a sender with `d` destinations. Of the events, `waiting` are not
accounted for yet; the sends of such an event have had `sent` successes and `failed`
failures; `used` is one while the number of the latest packet is still the next one. -/
structure Tallied (d : Nat) (l : SenderFrame) (h : SenderCounts) (n : Tally)
    (waiting sent failed used : Nat) : Prop where
  destinations : l.destinations.length = d
  acquired : h.acquired = n.total + waiting
  eventsIn : l.stats.eventsIn = .ofNat (n.total + waiting)
  eventsOut : l.stats.eventsOut = .ofNat n.delivered
  eventsDropped : l.stats.eventsDropped = .ofNat (n.undelivered + n.unencodable)
  encodeErrors : l.stats.encodeErrors = .ofNat n.unencodable
  packetsSent : l.stats.packetsSent = .ofNat (h.outcomes.count true)
  sendErrors : l.stats.sendErrors = .ofNat (h.outcomes.count false)
  tried : h.outcomes.length = d * (n.delivered + n.undelivered) + (sent + failed)
  least : n.delivered + sent ≤ h.outcomes.count true
  most : h.outcomes.count true ≤ d * n.delivered + sent
  sequence : if h.stopped = true then
      l.packetSequence = Sender.maxSequence ∧ 1 + n.delivered + n.undelivered = 2 ^ 64
    else l.packetSequence.toNat + used = 1 + n.delivered + n.undelivered

namespace Tallied

open EngineStats (increment)

variable {d : Nat} {l : SenderFrame} {h : SenderCounts} {n : Tally}
variable {waiting sent failed used : Nat}

/-- An event was acquired. -/
theorem acquire (ht : Tallied d l h n 0 0 0 0) (holding : Bool) :
    Tallied d { l with stats := { l.stats with eventsIn := l.stats.eventsIn + 1 } }
      { h with acquired := h.acquired + 1, holding } n 1 0 0 0 :=
  { ht with
    acquired := congrArg (· + 1) ht.acquired
    eventsIn := increment ht.eventsIn rfl }

/-- It cannot be encoded. -/
theorem fail (ht : Tallied d l h n 1 0 0 0) :
    Tallied d { l with stats := { l.stats with
        encodeErrors := l.stats.encodeErrors + 1
        eventsDropped := l.stats.eventsDropped + 1 } }
      h { n with unencodable := n.unencodable + 1 } 0 0 0 0 :=
  { ht with
    acquired := ht.acquired
    eventsIn := ht.eventsIn
    eventsDropped := increment ht.eventsDropped rfl
    encodeErrors := increment ht.encodeErrors rfl }

/-- One of its sends succeeds. -/
theorem succeed (ht : Tallied d l h n 1 sent failed 0) :
    Tallied d { l with stats := { l.stats with packetsSent := l.stats.packetsSent + 1 } }
      { h with outcomes := h.outcomes ++ [true] } n 1 (sent + 1) failed 0 := by
  have htrue : (h.outcomes ++ [true]).count true = h.outcomes.count true + 1 := by
    rw [List.count_append]
    rfl
  have hfalse : (h.outcomes ++ [true]).count false = h.outcomes.count false := by
    rw [List.count_append]
    rfl
  have htried := ht.tried
  have hleast := ht.least
  have hmost := ht.most
  exact
    { ht with
      packetsSent := increment ht.packetsSent htrue
      sendErrors := hfalse ▸ ht.sendErrors
      tried := by
        rw [List.length_append, List.length_singleton]
        omega
      least := by
        rw [htrue]
        omega
      most := by
        rw [htrue]
        omega }

/-- One of its sends fails. -/
theorem miss (ht : Tallied d l h n 1 sent failed 0) :
    Tallied d { l with stats := { l.stats with sendErrors := l.stats.sendErrors + 1 } }
      { h with outcomes := h.outcomes ++ [false] } n 1 sent (failed + 1) 0 := by
  have htrue : (h.outcomes ++ [false]).count true = h.outcomes.count true := by
    rw [List.count_append]
    rfl
  have hfalse : (h.outcomes ++ [false]).count false = h.outcomes.count false + 1 := by
    rw [List.count_append]
    rfl
  have htried := ht.tried
  exact
    { ht with
      packetsSent := htrue ▸ ht.packetsSent
      sendErrors := increment ht.sendErrors hfalse
      tried := by
        rw [List.length_append, List.length_singleton]
        omega
      least := htrue ▸ ht.least
      most := htrue ▸ ht.most }

/-- Every destination was tried, and some send succeeded. -/
theorem deliver (ht : Tallied d l h n 1 sent failed 0) (hopen : h.stopped = false)
    (hall : sent + failed = d) (hsent : 0 < sent) :
    Tallied d { l with stats := { l.stats with eventsOut := l.stats.eventsOut + 1 } }
      h { n with delivered := n.delivered + 1 } 0 0 0 1 := by
  have hleast := ht.least
  have hmost := ht.most
  have hsequence := ht.sequence
  rw [hopen, if_neg Bool.false_ne_true] at hsequence
  exact
    { ht with
      acquired := by
        rw [n.total_deliver]
        exact ht.acquired
      eventsIn := by
        rw [n.total_deliver]
        exact ht.eventsIn
      eventsOut := increment ht.eventsOut rfl
      tried := by
        change _ = d * (n.delivered + 1 + n.undelivered) + 0
        rw [ht.tried, hall, Nat.add_right_comm, Nat.mul_add d _ 1, Nat.mul_one, Nat.add_zero]
      least := by
        change n.delivered + 1 + 0 ≤ _
        omega
      most := by
        change _ ≤ d * (n.delivered + 1) + 0
        rw [Nat.mul_add]
        omega
      sequence := by
        rw [hopen, if_neg Bool.false_ne_true]
        change l.packetSequence.toNat + 1 = 1 + (n.delivered + 1) + n.undelivered
        omega }

/-- Every destination was tried in vain. -/
theorem drop (ht : Tallied d l h n 1 0 failed 0) (hopen : h.stopped = false)
    (hall : failed = d) :
    Tallied d { l with stats := { l.stats with eventsDropped := l.stats.eventsDropped + 1 } }
      h { n with undelivered := n.undelivered + 1 } 0 0 0 1 := by
  have hsequence := ht.sequence
  rw [hopen, if_neg Bool.false_ne_true] at hsequence
  exact
    { ht with
      acquired := by
        rw [n.total_drop]
        exact ht.acquired
      eventsIn := by
        rw [n.total_drop]
        exact ht.eventsIn
      eventsDropped := increment ht.eventsDropped (Nat.add_right_comm _ 1 _)
      tried := by
        change _ = d * (n.delivered + (n.undelivered + 1)) + 0
        rw [ht.tried, hall, ← Nat.add_assoc n.delivered, Nat.mul_add d _ 1, Nat.mul_one,
          Nat.zero_add, Nat.add_zero]
      sequence := by
        rw [hopen, if_neg Bool.false_ne_true]
        change l.packetSequence.toNat + 1 = 1 + n.delivered + (n.undelivered + 1)
        omega }

/-- The packet sequence is advanced. -/
theorem advance (ht : Tallied d l h n 0 0 0 1) (hopen : h.stopped = false)
    (hmore : l.packetSequence ≠ Sender.maxSequence) :
    Tallied d { l with packetSequence := l.packetSequence + 1 } h n 0 0 0 0 := by
  have hsequence := ht.sequence
  rw [hopen, if_neg Bool.false_ne_true] at hsequence
  exact
    { ht with
      sequence := by
        rw [hopen, if_neg Bool.false_ne_true, ← hsequence]
        exact toNat_add_one hmore }

/-- The last number was used: the thread stops itself. -/
theorem exhaust (ht : Tallied d l h n 0 0 0 1) (hopen : h.stopped = false)
    (hlast : l.packetSequence = Sender.maxSequence) :
    Tallied d l { h with stopped := true } n 0 0 0 0 := by
  have hsequence := ht.sequence
  rw [hopen, if_neg Bool.false_ne_true, hlast] at hsequence
  exact
    { ht with
      sequence := by
        rw [if_pos rfl, ← hsequence]
        exact ⟨hlast, rfl⟩ }

end Tallied

/-- The calls that the thread makes on the ring: it takes an event only after it has given
back the one before. -/
def Sender.Takes (_ : SenderFrame) : SenderOp → SenderCounts → Prop
  | .tryAcquire, h => h.holding = false
  | .release, h => h.holding = true
  | _, _ => True

/-- What holds before and after every turn. -/
def Sender.Balanced (d : Nat) (l : SenderFrame) (h : SenderCounts) : Prop :=
  h.holding = false ∧ ∃ n, Tallied d l h n 0 0 0 0

namespace Sender

variable {d : Nat} {l : SenderFrame} {h : SenderCounts} {n : Tally}
variable {sent failed : Nat} {view : EventView ByteRange}

/-- The remaining destinations, one by one. -/
theorem sendAll_counted (datagram : Bytes) (rest : List UdpAddress)
    (ht : Tallied d l h n 1 sent failed 0)
    (hopen : h.stopped = false) (hfree : h.holding = false)
    (hrest : sent + failed + rest.length = d) :
    (sendAll datagram (decide (0 < sent)) rest l).Meets countingEnvironment Takes
      (fun sentToAny l' h' => h'.stopped = false ∧ h'.holding = false ∧
        ∃ sent failed, Tallied d l' h' n 1 sent failed 0 ∧ sent + failed = d ∧
          sentToAny = decide (0 < sent)) h := by
  induction rest generalizing l h sent failed with
  | nil => exact ⟨hopen, hfree, sent, failed, ht, hrest, rfl⟩
  | cons destination rest ih =>
      rw [List.length_cons] at hrest
      refine ⟨trivial, ?_⟩
      rintro r h' rfl
      cases r with
      | true =>
          have hnext := ih ht.succeed hopen hfree (by omega)
          rw [decide_eq_true (Nat.succ_pos sent)] at hnext
          exact hnext
      | false => exact ih ht.miss hopen hfree (by omega)

theorem advance_counted (ht : Tallied d l h n 0 0 0 1) (hopen : h.stopped = false)
    (hfree : h.holding = false) :
    (advance l).Meets countingEnvironment Takes (fun _ => Balanced d) h := by
  rw [advance, Method.bind_apply, Method.self_apply, Process.bind_done]
  by_cases hlast : l.packetSequence = maxSequence
  · rw [if_pos hlast]
    refine ⟨trivial, ?_⟩
    rintro r h' rfl
    exact ⟨hfree, n, ht.exhaust hopen hlast⟩
  · rw [if_neg hlast]
    exact ⟨hfree, n, ht.advance hopen hlast⟩

theorem deliver_counted (ht : Tallied d l h n 1 0 0 0) (hopen : h.stopped = false)
    (hfree : h.holding = false) (encoded : Except EncodeError Nat) :
    (deliver encoded l).Meets countingEnvironment Takes (fun _ => Balanced d) h := by
  cases encoded with
  | error e => exact ⟨hfree, _, ht.fail⟩
  | ok packetSize =>
      have hall : 0 + 0 + l.destinations.length = d := by
        rw [ht.destinations]
        exact Nat.zero_add d
      rw [deliver, Method.bind_apply, Method.self_apply, Process.bind_done]
      refine Process.Meets.bind (sendAll_counted _ l.destinations ht hopen hfree hall) ?_
      rintro sentToAny l' h' ⟨hopen', hfree', sent, failed, ht', hall', rfl⟩
      beta_reduce
      by_cases hsent : 0 < sent
      · rw [if_pos (decide_eq_true hsent)]
        exact advance_counted (ht'.deliver hopen' hall' hsent) hopen' hfree'
      · rw [if_neg fun htrue => hsent (of_decide_eq_true htrue)]
        obtain rfl : sent = 0 := Nat.eq_zero_of_not_pos hsent
        rw [Nat.zero_add] at hall'
        exact advance_counted (ht'.drop hopen' hall') hopen' hfree'

/-- An acquired event is encoded, given back and sent. -/
theorem consume_counted (ht : Tallied d l h n 0 0 0 0) (hopen : h.stopped = false) :
    (consume view l).Meets countingEnvironment Takes (fun _ => Balanced d)
      { h with acquired := h.acquired + 1, holding := true } := by
  rw [consume, count, Method.bind_apply, Method.assign_apply, Process.bind_done]
  refine Process.Meets.bind (encode_keeps view (fun _ => trivial) fun _ _ _ henv => henv) ?_
  rintro encoded l' h' ⟨rfl, output, rfl⟩
  refine ⟨rfl, ?_⟩
  rintro released h' rfl
  have hnext : Tallied d { l with
      stats := { l.stats with eventsIn := l.stats.eventsIn + 1 }, output }
      { h with acquired := h.acquired + 1, holding := false } n 1 0 0 0 :=
    { ht.acquire false with }
  exact deliver_counted hnext hopen rfl encoded

/-- One turn. -/
theorem turn_counted (hl : Balanced d l h) :
    (turn l).Meets countingEnvironment Takes (fun _ => Balanced d) h := by
  refine ⟨trivial, ?_⟩
  rintro stopRequested h' ⟨rfl, hstop⟩
  cases stopRequested with
  | true => exact hl
  | false =>
      have hopen : h'.stopped = false := Bool.eq_false_iff.mpr fun hstopped =>
        Bool.false_ne_true (hstop hstopped)
      obtain ⟨hfree, n, ht⟩ := hl
      refine ⟨hfree, ?_⟩
      intro r h'' henv
      cases r with
      | ok view =>
          obtain rfl := henv
          exact consume_counted ht hopen
      | error e =>
          obtain rfl : h'' = h' := henv
          cases e with
          | empty => exact ⟨hfree, n, ht⟩
          | closed => exact ⟨hfree, n, ht⟩
          | alreadyAcquired => exact ⟨hfree, n, { ht with }⟩
          | invalidSlot => exact ⟨hfree, n, { ht with }⟩

/-- The loop keeps the counters right. -/
def counterContract (d : Nat) : Sender.run.Contract countingEnvironment where
  control := Takes
  head := Balanced d
  exit := Balanced d
  final := Balanced d
  body := by
    intro l h hl
    refine (turn_counted hl).mono_post fun goesOn l' h' hsettled => ?_
    cases goesOn with
    | true => exact hsettled
    | false => exact hsettled
  after := fun hl => hl

end Sender

/-- A sender over all its runs, with its handle on the ingress ring and the memory of that
ring. `outcomes` are those of its sends, `exhausted` says that it has stopped itself. The
thread has returned as well when `run` has not been called yet. -/
structure SenderRuns where
  memory : Span
  consumer : Client
  thread : Thread senderAccess SenderFrame
  stopRequested : Bool
  exhausted : Bool
  outcomes : List Bool

/-- `step` is one step of `run`; `sent` is the outcome if it is a send. `ingress` puts other
bytes into the memory of the ring. -/
inductive SenderRunsAction where
  | step (sent : Bool)
  | requestStop
  | run
  | move
  | ingress (bytes : Nat → UInt8)

/-- A sender as its constructor leaves it. -/
def Sender.created (maxDatagramBytes : UInt32) (destinations : List UdpAddress)
    (sessionId : UInt32) : Sender :=
  ⟨maxDatagramBytes, destinations, sessionId, 1, {}⟩

namespace SenderRuns

def initial (self : Sender) (handle : SpscRing) (m : Span) : SenderRuns :=
  ⟨m, ⟨handle, none, []⟩, .returned self.frame, false, false, []⟩

/-- One step of the thread. -/
def stepThread (s : SenderRuns) (sent : Bool) : Option SenderRuns :=
  match Sender.run.pending s.thread with
  | none => none
  | some ⟨.loadStop, resume⟩ => some { s with thread := resume s.stopRequested }
  | some ⟨.requestStop, resume⟩ =>
      some { s with stopRequested := true, exhausted := true, thread := resume () }
  | some ⟨.tryAcquire, resume⟩ =>
      match s.consumer.operate s.memory .tryAcquire with
      | some (consumer, memory, none) => some { s with consumer, memory }
      | some (consumer, memory, some (.acquire result)) =>
          some { s with consumer, memory, thread := resume result }
      | _ => none
  | some ⟨.readByte offset, resume⟩ => some { s with thread := resume (s.memory.u8 offset) }
  | some ⟨.release, resume⟩ =>
      match s.consumer.operate s.memory .release with
      | some (consumer, memory, none) => some { s with consumer, memory }
      | some (consumer, memory, some (.release result)) =>
          some { s with consumer, memory, thread := resume result }
      | _ => none
  | some ⟨.sendTo _ _, resume⟩ =>
      some { s with outcomes := s.outcomes ++ [sent], thread := resume sent }

/-- The other processes write what they like, except that the read cursor is the consumer's. -/
def next (s : SenderRuns) : SenderRunsAction → Option SenderRuns
  | .step sent => s.stepThread sent
  | .requestStop => some { s with stopRequested := true }
  | .run =>
      match s.thread with
      | .returned self => some { s with thread := .head self.toSender.frame }
      | _ => none
  | .move =>
      match s.thread with
      | .returned self =>
          let moved := self.toSender.move s.stopRequested
          some { s with
            consumer := { s.consumer with handle := (SpscRing.move s.consumer.handle).1 }
            thread := .returned moved.1.1.frame
            stopRequested := moved.1.2 }
      | _ => none
  | .ingress bytes =>
      let memory : Span := ⟨s.memory.toRegion, bytes⟩
      if memory.u64 consumerOffset = s.memory.u64 consumerOffset then
        some { s with memory, consumer := s.consumer.observe memory }
      else none

/-- The invariant of a sender that has acquired `acquired` events since the read cursor was
`start`. -/
structure Ok (d start acquired : Nat) (holding : Bool) (s : SenderRuns) : Prop where
  thread : (Sender.counterContract d).Holds s.thread ⟨acquired, holding, s.outcomes, s.exhausted⟩
  stop : s.exhausted = true → s.stopRequested = true
  idle : s.consumer.running = none → Taken start acquired holding s.consumer.handle s.memory
  busy : ∀ r, s.consumer.running = some r →
    r.process.Safe (@spanExec Unit) cursorProtocol (fun _ _ _ => True)
      (TakenAfter start acquired) ⟨s.memory, ()⟩ ∧
    ∃ op resume, Sender.run.pending s.thread = some ⟨op, resume⟩ ∧ op.call = some r.call

variable {s t : SenderRuns} {d start acquired : Nat} {holding : Bool} {handle : SpscRing}
variable {m : Span} {maxDatagramBytes sessionId : UInt32} {destinations : List UdpAddress}
variable {l : SenderFrame}

theorem initial_ok (hheader : handle.header = some 0) (hfree : handle.acquired = false) :
    Ok destinations.length (readPos m) 0 false
      (initial (.created maxDatagramBytes destinations sessionId) handle m) where
  thread := by
    refine ⟨rfl, ⟨0, 0, 0⟩, ?_⟩
    constructor <;> rfl
  stop h := by cases h
  idle _ := by
    constructor
    · exact hheader
    · exact hfree
    · exact fun h => by cases h
    · exact fun h => by cases h
    · rfl
  busy r hr := by cases hr

/-- A call is in progress only while the thread waits for it. -/
theorem Ok.idle_of_pending {op : SenderOp} {resume : op.Res → Thread senderAccess SenderFrame}
    (h : Ok d start acquired holding s)
    (hpending : Sender.run.pending s.thread = some ⟨op, resume⟩) (hop : op.call = none) :
    s.consumer.running = none := by
  by_contra hrun
  obtain ⟨r, hr⟩ := Option.ne_none_iff_exists'.mp hrun
  obtain ⟨-, op', resume', hpending', hop'⟩ := h.busy r hr
  rw [hpending] at hpending'
  have hsame : op = op' := congrArg Sigma.fst (Option.some.inj hpending')
  rw [← hsame, hop] at hop'
  cases hop'

/-- The thread goes on while no call is in progress. -/
theorem Ok.thread_moves {thread : Thread senderAccess SenderFrame} {outcomes : List Bool}
    {stopRequested exhausted : Bool} (h : Ok d start acquired holding s)
    (hidle : s.consumer.running = none)
    (hthread : (Sender.counterContract d).Holds thread ⟨acquired, holding, outcomes, exhausted⟩)
    (hstop : exhausted = true → stopRequested = true) :
    Ok d start acquired holding { s with thread, outcomes, stopRequested, exhausted } where
  thread := hthread
  stop := hstop
  idle := h.idle
  busy r hr := by
    rw [show s.consumer.running = some r from hr] at hidle
    cases hidle

/-- The call that the thread waits for takes one step. -/
theorem Ok.operate {op : SenderOp} {resume : op.Res → Thread senderAccess SenderFrame}
    {call : Call} {consumer : Client} {memory : Span} {reply : Option Reply}
    (h : Ok d start acquired holding s)
    (hpending : Sender.run.pending s.thread = some ⟨op, resume⟩) (hop : op.call = some call)
    (hholding : call.whileHolding = some holding)
    (hoperate : s.consumer.operate s.memory call = some (consumer, memory, reply)) :
    Proceeds start acquired call consumer memory reply := by
  refine Client.operate_proceeds (fun hidle => ⟨h.idle hidle, hholding⟩) ?_ hoperate
  intro r hr
  obtain ⟨hsafe, op', resume', hpending', hop'⟩ := h.busy r hr
  rw [hpending] at hpending'
  have hsame : op = op' := congrArg Sigma.fst (Option.some.inj hpending')
  rw [← hsame, hop] at hop'
  exact ⟨(Option.some.inj hop').symm, hsafe⟩

/-- The call goes on. -/
theorem Ok.waits {op : SenderOp} {resume : op.Res → Thread senderAccess SenderFrame}
    {call : Call} {consumer : Client} {memory : Span} (h : Ok d start acquired holding s)
    (hpending : Sender.run.pending s.thread = some ⟨op, resume⟩) (hop : op.call = some call)
    (hproceeds : Proceeds start acquired call consumer memory none) :
    Ok d start acquired holding { s with consumer, memory } := by
  cases hproceeds with
  | waits r hr hcall hsafe =>
      exact
        { thread := h.thread
          stop := h.stop
          idle := fun hidle => by
            rw [show consumer.running = none from hidle] at hr
            cases hr
          busy := by
            intro r' hr'
            obtain rfl := Option.some.inj (hr.symm.trans hr')
            exact ⟨hsafe, op, resume, hpending, hcall ▸ hop⟩ }

/-- The call has returned, and the thread goes on with its reply. -/
theorem Ok.returns {thread : Thread senderAccess SenderFrame} {consumer : Client}
    {memory : Span} {acquired' : Nat} {holding' : Bool} (h : Ok d start acquired holding s)
    (hidle : consumer.running = none)
    (htaken : Taken start acquired' holding' consumer.handle memory)
    (hthread : (Sender.counterContract d).Holds thread
      ⟨acquired', holding', s.outcomes, s.exhausted⟩) :
    Ok d start acquired' holding' { s with consumer, memory, thread } where
  thread := hthread
  stop := h.stop
  idle _ := htaken
  busy r hr := by
    rw [show consumer.running = some r from hr] at hidle
    cases hidle

theorem stepThread_ok {sent : Bool} (h : Ok d start acquired holding s)
    (hnext : s.stepThread sent = some t) :
    ∃ acquired' holding', Ok d start acquired' holding' t := by
  simp only [stepThread] at hnext
  split at hnext
  case h_1 => cases hnext
  case h_2 resume hpending =>
    obtain rfl := Option.some.inj hnext
    have hthread := (h.thread.resume hpending).2 s.stopRequested _ ⟨rfl, h.stop⟩
    exact ⟨_, _, h.thread_moves (h.idle_of_pending hpending rfl) hthread h.stop⟩
  case h_3 resume hpending =>
    obtain rfl := Option.some.inj hnext
    have hthread := (h.thread.resume hpending).2 () _ rfl
    exact ⟨_, _, h.thread_moves (h.idle_of_pending hpending rfl) hthread fun _ => rfl⟩
  case h_4 resume hpending =>
    obtain ⟨⟨l, hcontrol⟩, hresume⟩ := h.thread.resume hpending
    obtain rfl : holding = false := hcontrol
    split at hnext
    case h_1 consumer memory hoperate =>
      obtain rfl := Option.some.inj hnext
      have hproceeds := h.operate hpending rfl rfl hoperate
      exact ⟨_, _, h.waits hpending rfl hproceeds⟩
    case h_2 consumer memory result hoperate =>
      obtain rfl := Option.some.inj hnext
      cases h.operate hpending rfl rfl hoperate with
      | returns reply hidle hafter =>
          cases result with
          | ok view => exact ⟨_, _, h.returns hidle hafter (hresume _ _ rfl)⟩
          | error e => exact ⟨_, _, h.returns hidle hafter (hresume _ _ rfl)⟩
    case h_3 => cases hnext
  case h_5 offset resume hpending =>
    obtain rfl := Option.some.inj hnext
    have hthread := (h.thread.resume hpending).2 (s.memory.u8 offset) _ rfl
    exact ⟨_, _, h.thread_moves (h.idle_of_pending hpending rfl) hthread h.stop⟩
  case h_6 resume hpending =>
    obtain ⟨⟨l, hcontrol⟩, hresume⟩ := h.thread.resume hpending
    obtain rfl : holding = true := hcontrol
    split at hnext
    case h_1 consumer memory hoperate =>
      obtain rfl := Option.some.inj hnext
      have hproceeds := h.operate hpending rfl rfl hoperate
      exact ⟨_, _, h.waits hpending rfl hproceeds⟩
    case h_2 consumer memory result hoperate =>
      obtain rfl := Option.some.inj hnext
      cases h.operate hpending rfl rfl hoperate with
      | returns reply hidle hafter => exact ⟨_, _, h.returns hidle hafter (hresume _ _ rfl)⟩
    case h_3 => cases hnext
  case h_7 datagram destination resume hpending =>
    obtain rfl := Option.some.inj hnext
    have hthread := (h.thread.resume hpending).2 sent _ rfl
    exact ⟨_, _, h.thread_moves (h.idle_of_pending hpending rfl) hthread h.stop⟩

/-- A thread that has returned waits for no call. -/
theorem Ok.returned (h : Ok d start acquired holding s) (hreturned : s.thread = .returned l) :
    s.consumer.running = none ∧
      Sender.Balanced d l ⟨acquired, holding, s.outcomes, s.exhausted⟩ := by
  constructor
  · by_contra hrun
    obtain ⟨r, hr⟩ := Option.ne_none_iff_exists'.mp hrun
    obtain ⟨-, op, resume, hpending, -⟩ := h.busy r hr
    rw [hreturned] at hpending
    cases hpending
  · have hthread := h.thread
    rw [hreturned] at hthread
    exact hthread

theorem next_ok {a : SenderRunsAction} (h : Ok d start acquired holding s)
    (hnext : s.next a = some t) : ∃ acquired' holding', Ok d start acquired' holding' t := by
  cases a with
  | step sent => exact stepThread_ok h hnext
  | requestStop =>
      obtain rfl := Option.some.inj hnext
      exact ⟨_, _, { h with stop := fun _ => rfl }⟩
  | run =>
      simp only [next] at hnext
      split at hnext
      case h_1 self hreturned =>
        obtain rfl := Option.some.inj hnext
        obtain ⟨hidle, hfree, n, ht⟩ := h.returned hreturned
        exact ⟨_, _, h.thread_moves hidle ⟨hfree, n, { ht with }⟩ h.stop⟩
      case h_2 => cases hnext
  | move =>
      simp only [next] at hnext
      split at hnext
      case h_1 self hreturned =>
        obtain rfl := Option.some.inj hnext
        obtain ⟨hidle, hfree, n, ht⟩ := h.returned hreturned
        exact ⟨_, _, h.thread_moves hidle ⟨hfree, n, { ht with }⟩ h.stop⟩
      case h_2 => cases hnext
  | ingress bytes =>
      simp only [next] at hnext
      split at hnext
      case isTrue hcursor =>
        obtain rfl := Option.some.inj hnext
        refine ⟨acquired, holding, ?_⟩
        exact
          { thread := h.thread
            stop := h.stop
            idle := fun hidle => by
              have hidle' : s.consumer.running = none := Option.map_eq_none_iff.mp hidle
              exact (h.idle hidle').transfer hcursor
            busy := by
              intro r hr
              obtain ⟨r', hr', rfl⟩ := Option.map_eq_some_iff.mp hr
              obtain ⟨hsafe, hpending⟩ := h.busy r' hr'
              refine ⟨hsafe.stable hcursor ?_, hpending⟩
              exact fun reply l hafter => hafter.transfer hcursor }
      case isFalse => cases hnext

/-- Every run keeps the invariant. -/
theorem reaches_ok (hheader : handle.header = some 0) (hfree : handle.acquired = false)
    (hrun : Reaches next anyAction
      (initial (.created maxDatagramBytes destinations sessionId) handle m) s) :
    ∃ acquired holding, Ok destinations.length (readPos m) acquired holding s := by
  apply hrun.invariant
    (I := fun s => ∃ acquired holding, Ok destinations.length (readPos m) acquired holding s)
  · exact ⟨_, _, initial_ok hheader hfree⟩
  · rintro u a v ⟨acquired, holding, h⟩ - hnext
    exact next_ok h hnext

/-- At rest the thread waits for no call. -/
theorem Ok.rest (h : Ok d start acquired holding s) (hrest : s.thread.AtRest l) :
    s.consumer.running = none ∧
      Sender.Balanced d l ⟨acquired, holding, s.outcomes, s.exhausted⟩ := by
  obtain hhead | hreturned := hrest
  · have hthread := h.thread
    rw [hhead] at hthread
    refine ⟨?_, hthread⟩
    obtain ⟨resume, hpending⟩ : ∃ resume, Sender.run.pending (.head l) =
        some ⟨.loadStop, resume⟩ := ⟨_, rfl⟩
    rw [← hhead] at hpending
    exact h.idle_of_pending hpending rfl
  · exact h.returned hreturned

end SenderRuns

/-- The equations between the counters of a sender with `d` destinations. -/
structure EngineStats.SenderBalanced (d : Nat) (stats : EngineStats) : Prop where
  eventsIn : stats.eventsIn.toNat = stats.eventsOut.toNat + stats.eventsDropped.toNat
  encodeErrors : stats.encodeErrors.toNat ≤ stats.eventsDropped.toNat
  sends : stats.packetsSent.toNat + stats.sendErrors.toNat =
    d * (stats.eventsIn.toNat - stats.encodeErrors.toNat)
  least : stats.eventsOut.toNat ≤ stats.packetsSent.toNat
  most : stats.packetsSent.toNat ≤ d * stats.eventsOut.toNat

namespace Tallied

variable {d : Nat} {l : SenderFrame} {h : SenderCounts} {n : Tally}

/-- The equations hold as long as neither the events nor the sends with one outcome overflow
their counter. -/
theorem balanced (ht : Tallied d l h n 0 0 0 0) (hacquired : h.acquired < 2 ^ 64)
    (hsent : h.outcomes.count true < 2 ^ 64) (hfailed : h.outcomes.count false < 2 ^ 64) :
    l.stats.SenderBalanced d ∧ l.stats.eventsIn.toNat = h.acquired ∧
      l.stats.eventsIn.toNat - l.stats.encodeErrors.toNat = n.delivered + n.undelivered := by
  have htotal := ht.acquired
  rw [Nat.add_zero] at htotal
  rw [htotal, Tally.total] at hacquired
  have hexact : ∀ {counter : UInt64} {i : Nat}, counter = .ofNat i → i < 2 ^ 64 →
      counter.toNat = i := by
    rintro counter i rfl hlt
    exact UInt64.toNat_ofNat_of_lt' hlt
  have heventsIn := hexact ht.eventsIn hacquired
  rw [Nat.add_zero, Tally.total] at heventsIn
  have heventsOut := hexact ht.eventsOut (by omega)
  have hdropped := hexact ht.eventsDropped (by omega)
  have hencode := hexact ht.encodeErrors (by omega)
  have hpackets := hexact ht.packetsSent hsent
  have herrors := hexact ht.sendErrors hfailed
  have hsends : l.stats.eventsIn.toNat - l.stats.encodeErrors.toNat =
      n.delivered + n.undelivered := by
    rw [heventsIn, hencode]
    omega
  have hcounts : h.outcomes.count true + h.outcomes.count false = h.outcomes.length :=
    List.count_true_add_count_false h.outcomes
  have htried := ht.tried
  refine ⟨?_, ?_, hsends⟩
  · constructor
    · rw [heventsIn, heventsOut, hdropped]
      omega
    · rw [hencode, hdropped]
      exact Nat.le_add_left _ _
    · rw [hsends, hpackets, herrors, hcounts, htried]
      rfl
    · rw [heventsOut, hpackets]
      exact ht.least
    · rw [heventsOut, hpackets]
      exact ht.most
  · rw [heventsIn, htotal, Tally.total]

end Tallied

namespace SenderRuns

/-- Whatever the ring holds and however the sends end, the counters of a sender balance
whenever it is at rest, its handle holds no slot, and the read cursor and the packet sequence
have advanced by the events that they count. -/
theorem sender_counters_balance {maxDatagramBytes sessionId : UInt32}
    {destinations : List UdpAddress} {m m' : Span} {handle : SpscRing} {s : SenderRuns}
    {l : SenderFrame}
    (hattach : ((SpscRing.attach m.toRegion :
      Method spanAccess Unit (Except RingError SpscRing)) ()).run (@spanExec Unit) () m =
        (.ok handle, (), m'))
    (hrun : Reaches next anyAction
      (initial (.created maxDatagramBytes destinations sessionId) handle m) s)
    (hrest : s.thread.AtRest l)
    (hsent : s.outcomes.count true < 2 ^ 64) (hfailed : s.outcomes.count false < 2 ^ 64) :
    l.stats.SenderBalanced destinations.length ∧
    readPos s.memory = readPos m + l.stats.eventsIn.toNat ∧
    s.consumer.running = none ∧ s.consumer.handle.acquired = false ∧
    (s.exhausted = false → l.packetSequence.toNat =
      1 + (l.stats.eventsIn.toNat - l.stats.encodeErrors.toNat)) ∧
    (s.exhausted = true → s.stopRequested = true ∧ l.packetSequence = Sender.maxSequence ∧
      l.stats.eventsIn.toNat - l.stats.encodeErrors.toNat = 2 ^ 64 - 1) := by
  have hunheld : Unheld (((SpscRing.attach m.toRegion :
      Method spanAccess Unit (Except RingError SpscRing)) ()).run (@spanExec Unit) () m).1 :=
    (attach_results m.toRegion ()).run () m
  rw [hattach] at hunheld
  obtain ⟨hheader, hfree⟩ := hunheld handle rfl
  obtain ⟨acquired, holding, hok⟩ := reaches_ok hheader hfree hrun
  obtain ⟨hidle, hholding, n, ht⟩ := hok.rest hrest
  have hholding' : holding = false := hholding
  rw [hholding'] at hok
  have htaken := hok.idle hidle
  have hcursor := htaken.cursor
  rw [Bool.toNat_false, Nat.add_zero] at hcursor
  have hbound : acquired < 2 ^ 64 := by
    have hlt := (s.memory.u64 consumerOffset).toNat_lt
    rw [readPos] at hcursor
    omega
  obtain ⟨hbalanced, heventsIn, hsends⟩ := ht.balanced hbound hsent hfailed
  have hsequence := ht.sequence
  refine ⟨hbalanced, ?_, hidle, htaken.acquired, ?_, ?_⟩
  · rw [hcursor, heventsIn]
  · intro hopen
    simp only [hopen] at hsequence
    rw [hsends, ← Nat.add_assoc]
    exact hsequence
  · intro hstopped
    simp only [hstopped, if_true] at hsequence
    obtain ⟨hlast, htotal⟩ := hsequence
    refine ⟨hok.stop hstopped, hlast, ?_⟩
    rw [hsends]
    omega

/-- The memory of the sample ring with an event in it. -/
def sampleIngress : Nat → UInt8 :=
  ((SpscRing.tryPublish sampleEvent (sampleGeometry.handle true)).run (@spanExec Unit) ()
    sampleMemory).2.2.bytes

/-- An event appears in the ring and is sent to two destinations, once in vain; then the
sender is stopped and moved. -/
def sampleActions : List SenderRunsAction :=
  .ingress sampleIngress :: .run :: List.replicate 16 (.step true) ++
    [.step false, .requestStop, .step true, .move]

theorem sender_counters_balance_sample :
    ∃ s l, runActions next anyAction
        (initial (.created 1400 [⟨1, 2⟩, ⟨3, 4⟩] 7) (sampleGeometry.handle false) sampleMemory)
        sampleActions = some s ∧ s.thread = .returned l ∧ l.stats.SenderBalanced 2 ∧
      readPos s.memory = readPos sampleMemory + l.stats.eventsIn.toNat := by
  have hok : sampleAttach.1 = .ok (sampleGeometry.handle false) := by decide +kernel
  obtain ⟨⟨r, ⟨⟩, m'⟩, hattach⟩ : ∃ result, sampleAttach = result := ⟨_, rfl⟩
  rw [hattach] at hok
  change r = _ at hok
  rw [hok] at hattach
  have hsample : (runActions next anyAction
      (initial (.created 1400 [⟨1, 2⟩, ⟨3, 4⟩] 7) (sampleGeometry.handle false) sampleMemory)
      sampleActions).map (fun s => (s.thread.hasReturned, s.outcomes)) =
        some (true, [true, false]) := by
    decide +kernel
  obtain ⟨s, hs, heq⟩ := Option.map_eq_some_iff.mp hsample
  obtain ⟨hthread, houtcomes⟩ := Prod.mk.inj heq
  obtain ⟨l, hreturned⟩ := Thread.eq_of_hasReturned hthread
  obtain ⟨hbalanced, hcursor, -⟩ :=
    sender_counters_balance hattach (reaches_of_runActions hs) (.inr hreturned)
      (by rw [houtcomes]; decide) (by rw [houtcomes]; decide)
  exact ⟨s, l, hs, hreturned, hbalanced, hcursor⟩

end SenderRuns

end EventEngine
