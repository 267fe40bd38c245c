import EventEngine.Ring.Operate
import EventEngine.Ring.Ownership
import EventEngine.Sender.Trace

/-!
# A sender and its ingress ring

The sender's thread is the only consumer of the ingress ring. Its calls and its reads of the
payload take one step of the ring at a time, interleaved with the steps of the producer. The
sends succeed or fail as they like, and the stop request comes at any time. After `run` has
returned it may be called again, and the sender may be moved.
-/

namespace EventEngine

open Concurrency Memory Protocol Transport EventEngine.Ring

/-- `movedFrom` are the objects that were moved from, with their stop flags. The thread has
returned as well when `run` has not been called yet. -/
structure SenderSystem where
  ingress : Ring.System
  thread : Thread senderAccess SenderFrame
  stopRequested : Bool
  attempts : List (Bytes × UdpAddress)
  movedFrom : List (Sender × Bool)

/-- `step` is one step of `run`; `sent` is the outcome if it is a send. -/
inductive SenderAction where
  | step (sent : Bool)
  | requestStop
  | run
  | move
  | ingress (a : Ring.Action)
  deriving DecidableEq

namespace SenderSystem

/-- A sender that consumes the given ring. -/
def initial (self : Sender) (ingress : Ring.System) : SenderSystem :=
  ⟨ingress, .returned self.frame, false, [], []⟩

/-- One step of the sender's thread. -/
def stepThread (s : SenderSystem) (sent : Bool) : Option SenderSystem :=
  match Sender.run.pending s.thread with
  | none => none
  | some ⟨.loadStop, resume⟩ => some { s with thread := resume s.stopRequested }
  | some ⟨.requestStop, resume⟩ => some { s with stopRequested := true, thread := resume () }
  | some ⟨.tryAcquire, resume⟩ =>
      match s.ingress.operate .consumer .tryAcquire with
      | some (ingress, none) => some { s with ingress }
      | some (ingress, some (.acquire result)) => some { s with ingress, thread := resume result }
      | _ => none
  | some ⟨.readByte offset, resume⟩ =>
      some { s with thread := resume (s.ingress.memory.u8 offset) }
  | some ⟨.release, resume⟩ =>
      match s.ingress.operate .consumer .release with
      | some (ingress, none) => some { s with ingress }
      | some (ingress, some (.release result)) => some { s with ingress, thread := resume result }
      | _ => none
  | some ⟨.sendTo datagram destination, resume⟩ =>
      some { s with
        attempts := s.attempts ++ [(datagram, destination)], thread := resume sent }

/-- The move constructor moves the ring handle along. -/
def moveIngress (ingress : Ring.System) : Ring.System :=
  { ingress with consumer :=
      { ingress.consumer with handle := (SpscRing.move ingress.consumer.handle).1 } }

def next (s : SenderSystem) : SenderAction → Option SenderSystem
  | .step sent => s.stepThread sent
  | .requestStop => some { s with stopRequested := true }
  | .run =>
      match s.thread with
      | .returned self => some { s with thread := .head self.toSender.frame }
      | _ => none
  | .move =>
      match s.thread with
      | .returned self =>
          let moved := self.toSender.move s.stopRequested
          some {
            ingress := moveIngress s.ingress
            thread := .returned moved.1.1.frame
            stopRequested := moved.1.2
            attempts := s.attempts
            movedFrom := s.movedFrom ++ [moved.2] }
      | _ => none
  | .ingress a =>
      if a.actor = .consumer then none
      else (s.ingress.next a).map fun ingress => { s with ingress }

/-- The history of the thread since the consumer had taken `before` events. -/
def history (s : SenderSystem) (before : Nat) (stopped : Bool) : SenderHistory where
  acquired := s.ingress.consumer.acquiredEvents.drop before
  held := s.ingress.consumer.heldView.map fun held => (held.1, held.1.resolve held.2)
  attempts := s.attempts
  stopped := stopped

end SenderSystem

/-- The call that an access makes on the ring. -/
def SenderOp.call : SenderOp → Option Call
  | .tryAcquire => some .tryAcquire
  | .release => some .release
  | _ => none

namespace SenderSystem

/-- The invariant; `hist` are the events published to the ingress ring. -/
structure Ok (g : Geometry) (start : Sender) (before : Nat) (hist : List Event)
    (s : SenderSystem) : Prop where
  ring : Ring.System.Ok ⟨g, 0, True, False⟩ [] hist s.ingress
  thread : ∃ stopped, (Sender.contract start).Holds s.thread (s.history before stopped) ∧
    (stopped = true → s.stopRequested = true)
  consumer : ∀ call, s.ingress.consumer.running.map Running.call = some call →
    ∃ op resume, Sender.run.pending s.thread = some ⟨op, resume⟩ ∧ op.call = some call
  before : before ≤ s.ingress.consumer.acquiredEvents.length
  movedFrom : ∀ old ∈ s.movedFrom, old.2 = true

variable {g : Geometry} {start : Sender} {before : Nat} {hist : List Event}
variable {s t : SenderSystem} {ingress : Ring.System} {m : Span} {handle : SpscRing}

theorem initial_ok (hlimit : start.maxDatagramBytes.toNat ≤ maxPacketBytes)
    (hring : Ring.System.Ok ⟨g, 0, True, False⟩ [] hist ingress)
    (hidle : ingress.consumer.running = none) :
    Ok g start ingress.consumer.acquiredEvents.length hist (initial start ingress) where
  ring := hring
  thread := by
    refine ⟨false, ?_, fun h => by cases h⟩
    have hsent := Sent.initial hlimit
      (ingress.consumer.heldView.map fun held => (held.1, held.1.resolve held.2)) false
    rw [← List.drop_length (l := ingress.consumer.acquiredEvents)] at hsent
    exact hsent
  consumer call hcall := by
    rw [show (initial start ingress).ingress.consumer.running = none from hidle] at hcall
    cases hcall
  before := Nat.le_refl _
  movedFrom old hold := by cases hold

/-- The history is what the consumer's returned calls and the sends say. -/
theorem history_congr {stopped : Bool}
    (hcompleted : t.ingress.consumer.completed = s.ingress.consumer.completed)
    (hattempts : t.attempts = s.attempts) :
    t.history before stopped = s.history before stopped := by
  simp only [history, Client.acquiredEvents, Client.heldView, hcompleted, hattempts]

/-- A side of the ring other than the consumer moves. -/
theorem Ok.ingress_moves {a : Ring.Action} (h : Ok g start before hist s)
    (hactor : a.actor ≠ .consumer) (hnext : s.ingress.next a = some ingress) :
    ∃ hist', Ok g start before hist' { s with ingress } ∧ hist <+: hist' := by
  obtain ⟨hist', hring, hlater⟩ := Ring.System.next_ok h.ring (fun hquiet => hquiet.elim) hnext
  obtain ⟨hothers, -⟩ := Ring.System.next_cases hnext
  have hconsumer : SameCalls s.ingress.consumer ingress.consumer :=
    hothers .consumer hactor.symm
  have hhistory : ∀ stopped, history { s with ingress } before stopped =
      s.history before stopped := fun stopped => history_congr hconsumer.completed rfl
  refine ⟨hist', ?_, hlater.history⟩
  exact
    { ring := hring
      thread := by
        obtain ⟨stopped, hthread, hstop⟩ := h.thread
        refine ⟨stopped, ?_, hstop⟩
        rw [hhistory]
        exact hthread
      consumer := fun call hcall => h.consumer call (hconsumer.running ▸ hcall)
      before := by
        rw [Client.acquiredEvents, show ingress.consumer.completed =
          s.ingress.consumer.completed from hconsumer.completed]
        exact h.before
      movedFrom := h.movedFrom }

/-- A call of the sender is in progress only while its thread waits for it. -/
theorem Ok.idle_of_pending {op : SenderOp} {resume : op.Res → Thread senderAccess SenderFrame}
    (h : Ok g start before hist s) (hpending : Sender.run.pending s.thread = some ⟨op, resume⟩)
    (hop : op.call = none) : s.ingress.consumer.running = none := by
  by_contra hrun
  obtain ⟨r, hr⟩ := Option.ne_none_iff_exists'.mp hrun
  obtain ⟨op', resume', hpending', hop'⟩ := h.consumer r.call (by rw [hr]; rfl)
  rw [hpending] at hpending'
  have hsame : op = op' := congrArg Sigma.fst (Option.some.inj hpending')
  rw [← hsame, hop] at hop'
  cases hop'

/-- The call that the thread waits for takes one step. -/
theorem Ok.operates {op : SenderOp} {resume : op.Res → Thread senderAccess SenderFrame}
    {call : Call} {reply : Option Reply} (h : Ok g start before hist s)
    (hpending : Sender.run.pending s.thread = some ⟨op, resume⟩) (hop : op.call = some call)
    (hoperate : s.ingress.operate .consumer call = some (ingress, reply)) :
    ∃ hist', hist <+: hist' ∧ Ring.System.Ok ⟨g, 0, True, False⟩ [] hist' ingress ∧
      Operated call s.ingress.consumer ingress.consumer ingress.memory reply := by
  have hcall : ∀ r, (s.ingress.client .consumer).running = some r → r.call = call := by
    intro r hr
    obtain ⟨op', resume', hpending', hop'⟩ := h.consumer r.call (by
      rw [show s.ingress.consumer.running = some r from hr]
      rfl)
    rw [hpending] at hpending'
    have hsame : op = op' := congrArg Sigma.fst (Option.some.inj hpending')
    rw [← hsame, hop] at hop'
    exact (Option.some.inj hop').symm
  obtain ⟨hnext, hoperated, -⟩ := Ring.System.operate_cases hoperate hcall
  obtain ⟨hist', hring, hlater⟩ := Ring.System.next_ok h.ring (fun hquiet => hquiet.elim) hnext
  exact ⟨hist', hlater.history, hring, hoperated⟩

/-- The call goes on. -/
theorem Ok.waits {op : SenderOp} {resume : op.Res → Thread senderAccess SenderFrame}
    {call : Call} {hist' : List Event} (h : Ok g start before hist s)
    (hpending : Sender.run.pending s.thread = some ⟨op, resume⟩) (hop : op.call = some call)
    (hring : Ring.System.Ok ⟨g, 0, True, False⟩ [] hist' ingress)
    (hoperated : Operated call s.ingress.consumer ingress.consumer ingress.memory none) :
    Ok g start before hist' { s with ingress } := by
  obtain ⟨r, hr, hrcall, -, hcompleted⟩ := hoperated
  have hhistory : ∀ stopped, history { s with ingress } before stopped =
      s.history before stopped := fun stopped => history_congr hcompleted rfl
  exact
    { ring := hring
      thread := by
        obtain ⟨stopped, hthread, hstop⟩ := h.thread
        refine ⟨stopped, ?_, hstop⟩
        rw [hhistory]
        exact hthread
      consumer := by
        intro call' hcall'
        rw [show ingress.consumer.running = some r from hr] at hcall'
        obtain rfl := Option.some.inj hcall'
        exact ⟨op, resume, hpending, hrcall ▸ hop⟩
      before := by
        rw [Client.acquiredEvents, show ingress.consumer.completed =
          s.ingress.consumer.completed from hcompleted]
        exact h.before
      movedFrom := h.movedFrom }

/-- What is left to show when the thread goes on: its contract. -/
theorem Ok.resumes {thread : Thread senderAccess SenderFrame} {hist' : List Event}
    {attempts : List (Bytes × UdpAddress)} {stopRequested stopped : Bool}
    (h : Ok g start before hist s)
    (hring : Ring.System.Ok ⟨g, 0, True, False⟩ [] hist' ingress)
    (hidle : ingress.consumer.running = none)
    (hbefore : before ≤ ingress.consumer.acquiredEvents.length)
    (hthread : (Sender.contract start).Holds thread
      (history { s with ingress, attempts } before stopped))
    (hstop : stopped = true → stopRequested = true) :
    Ok g start before hist' { s with ingress, thread, stopRequested, attempts } where
  ring := hring
  thread := ⟨stopped, hthread, hstop⟩
  consumer call hcall := by
    rw [show ingress.consumer.running = none from hidle] at hcall
    cases hcall
  before := hbefore
  movedFrom := h.movedFrom

/-- The acquisition that the thread waits for takes one step. -/
theorem Ok.acquire {resume : Except AcquireError (EventView ByteRange) → _}
    {reply : Option Reply} (h : Ok g start before hist s)
    (hpending : Sender.run.pending s.thread = some ⟨.tryAcquire, resume⟩)
    (hoperate : s.ingress.operate .consumer .tryAcquire = some (ingress, reply)) :
    ∃ hist', hist <+: hist' ∧ (reply = none → Ok g start before hist' { s with ingress }) ∧
      ∀ result, reply = some (.acquire result) →
        Ok g start before hist' { s with ingress, thread := resume result } := by
  obtain ⟨hist', hgrows, hring, hoperated⟩ := h.operates hpending rfl hoperate
  refine ⟨hist', hgrows, ?_, ?_⟩
  · rintro rfl
    exact h.waits hpending rfl hring hoperated
  · rintro result rfl
    generalize hsome : some (Reply.acquire result) = reply at hoperated
    obtain ⟨stopped, hthread, hstop⟩ := h.thread
    cases hoperated with
    | waits r hr hrcall hrentry hcompleted => cases hsome
    | returns e hr hcompleted hecall heentry hfinish =>
        have hreply : e.reply = .acquire result := (Option.some.inj hsome).symm
        have hevents : ingress.consumer.acquiredEvents =
            s.ingress.consumer.acquiredEvents ++ e.acquired.toList := by
          rw [Client.acquiredEvents, hcompleted, filterMap_reverse_cons]
          rfl
        have hbefore : before ≤ ingress.consumer.acquiredEvents.length := by
          rw [hevents, List.length_append]
          exact Nat.le_trans h.before (Nat.le_add_right _ _)
        refine h.resumes hring hr hbefore ?_ hstop
        refine (hthread.resume hpending).2 result _ ?_
        cases result with
        | error err =>
            have hnone : e.acquired = none := by rw [Completed.acquired, hreply]
            change history _ _ _ = history _ _ _
            simp only [history, hevents, hnone, Option.toList_none, List.append_nil]
            rw [Client.heldView, hcompleted, Client.heldView.lastView, hreply]
            rfl
        | ok view =>
            have hsome : e.acquired = some (view.resolve e.finish) := by
              rw [Completed.acquired, hreply]
            refine ⟨view.resolve e.finish, ⟨_, Span.length_read _ _ _, rfl⟩, ?_⟩
            simp only [history, hevents, hsome, Option.toList_some,
              List.drop_append_of_le_length h.before]
            rw [Client.heldView, hcompleted, Client.heldView.lastView, hreply]
            rfl

/-- The release that the thread waits for takes one step. -/
theorem Ok.release {resume : Bool → Thread senderAccess SenderFrame} {reply : Option Reply}
    (h : Ok g start before hist s)
    (hpending : Sender.run.pending s.thread = some ⟨.release, resume⟩)
    (hoperate : s.ingress.operate .consumer .release = some (ingress, reply)) :
    ∃ hist', hist <+: hist' ∧ (reply = none → Ok g start before hist' { s with ingress }) ∧
      ∀ result, reply = some (.release result) →
        Ok g start before hist' { s with ingress, thread := resume result } := by
  obtain ⟨hist', hgrows, hring, hoperated⟩ := h.operates hpending rfl hoperate
  refine ⟨hist', hgrows, ?_, ?_⟩
  · rintro rfl
    exact h.waits hpending rfl hring hoperated
  · rintro result rfl
    generalize hsome : some (Reply.release result) = reply at hoperated
    obtain ⟨stopped, hthread, hstop⟩ := h.thread
    cases hoperated with
    | waits r hr hrcall hrentry hcompleted => cases hsome
    | returns e hr hcompleted hecall heentry hfinish =>
        have hreply : e.reply = .release result := (Option.some.inj hsome).symm
        have hevents : ingress.consumer.acquiredEvents =
            s.ingress.consumer.acquiredEvents := by
          rw [Client.acquiredEvents, hcompleted, filterMap_reverse_cons, Completed.acquired,
            hreply, Option.toList_none, List.append_nil]
          rfl
        refine h.resumes hring hr (hevents ▸ h.before) ?_ hstop
        refine (hthread.resume hpending).2 result _
          ⟨(history { s with ingress } before stopped).held, ?_⟩
        simp only [history, hevents]

/-- The byte that the thread reads belongs to the event it holds. -/
theorem Ok.readByte (h : Ok g start before hist s) {offset i : Nat} {stopped : Bool}
    {view : EventView ByteRange} {event : Event}
    (hheld : (s.history before stopped).held = some (view, event))
    (hoffset : offset = view.payload.offset + i) (hi : i < view.payload.length) :
    event.payload[i]? = some (s.ingress.memory.u8 offset) := by
  obtain ⟨⟨view', m0⟩, hview, heq⟩ := Option.map_eq_some_iff.mp hheld
  obtain ⟨rfl, rfl⟩ := Prod.mk.inj heq
  obtain ⟨-, -, hstable⟩ := h.ring.owned.stable view' m0 hview
  have hi' : i < view'.payload.length := hi
  have hoffset' : offset = view'.payload.offset + i := hoffset
  have hlength : i < (m0.read view'.payload.offset view'.payload.length).length := by
    rw [Span.length_read]
    exact hi'
  change (m0.read view'.payload.offset view'.payload.length)[i]? = _
  rw [List.getElem?_eq_getElem hlength, Span.getElem_read, Span.u8, hoffset',
    hstable _ (by omega) (by omega)]

/-- A step of the thread that leaves the ring alone. -/
theorem Ok.thread_moves {thread : Thread senderAccess SenderFrame} {stopRequested : Bool}
    {attempts : List (Bytes × UdpAddress)} (h : Ok g start before hist s) (stopped : Bool)
    (hidle : s.ingress.consumer.running = none)
    (hthread : (Sender.contract start).Holds thread
      { s.history before stopped with attempts })
    (hstop : stopped = true → stopRequested = true) :
    Ok g start before hist { s with thread, stopRequested, attempts } :=
  h.resumes h.ring hidle h.before hthread hstop

theorem stepThread_ok {sent : Bool} (h : Ok g start before hist s)
    (hnext : s.stepThread sent = some t) :
    ∃ hist', Ok g start before hist' t ∧ hist <+: hist' := by
  obtain ⟨stopped, hthread, hstop⟩ := h.thread
  simp only [stepThread] at hnext
  split at hnext
  case h_1 => cases hnext
  case h_2 resume hpending =>
    obtain rfl := Option.some.inj hnext
    refine ⟨hist, ?_, List.prefix_rfl⟩
    refine h.thread_moves stopped (h.idle_of_pending hpending rfl) ?_ hstop
    exact (hthread.resume hpending).2 _ _ ⟨rfl, hstop⟩
  case h_3 resume hpending =>
    obtain rfl := Option.some.inj hnext
    refine ⟨hist, ?_, List.prefix_rfl⟩
    refine h.thread_moves true (h.idle_of_pending hpending rfl) ?_ fun _ => rfl
    exact (hthread.resume hpending).2 () _ rfl
  case h_4 resume hpending =>
    cases hoperate : s.ingress.operate .consumer .tryAcquire with
    | none => rw [hoperate] at hnext; cases hnext
    | some result =>
        obtain ⟨ingress, reply⟩ := result
        obtain ⟨hist', hgrows, hwaits, hreturns⟩ := h.acquire hpending hoperate
        rw [hoperate] at hnext
        split at hnext
        case h_1 heq =>
          obtain ⟨rfl, rfl⟩ := Prod.mk.inj (Option.some.inj heq)
          obtain rfl := Option.some.inj hnext
          exact ⟨hist', hwaits rfl, hgrows⟩
        case h_2 result heq =>
          obtain ⟨rfl, rfl⟩ := Prod.mk.inj (Option.some.inj heq)
          obtain rfl := Option.some.inj hnext
          exact ⟨hist', hreturns result rfl, hgrows⟩
        case h_3 => cases hnext
  case h_5 offset resume hpending =>
    obtain rfl := Option.some.inj hnext
    refine ⟨hist, ?_, List.prefix_rfl⟩
    refine h.thread_moves stopped (h.idle_of_pending hpending rfl) ?_ hstop
    exact (hthread.resume hpending).2 _ _ ⟨rfl, fun view event i => h.readByte⟩
  case h_6 resume hpending =>
    cases hoperate : s.ingress.operate .consumer .release with
    | none => rw [hoperate] at hnext; cases hnext
    | some result =>
        obtain ⟨ingress, reply⟩ := result
        obtain ⟨hist', hgrows, hwaits, hreturns⟩ := h.release hpending hoperate
        rw [hoperate] at hnext
        split at hnext
        case h_1 heq =>
          obtain ⟨rfl, rfl⟩ := Prod.mk.inj (Option.some.inj heq)
          obtain rfl := Option.some.inj hnext
          exact ⟨hist', hwaits rfl, hgrows⟩
        case h_2 result heq =>
          obtain ⟨rfl, rfl⟩ := Prod.mk.inj (Option.some.inj heq)
          obtain rfl := Option.some.inj hnext
          exact ⟨hist', hreturns result rfl, hgrows⟩
        case h_3 => cases hnext
  case h_7 datagram destination resume hpending =>
    obtain rfl := Option.some.inj hnext
    refine ⟨hist, ?_, List.prefix_rfl⟩
    refine h.thread_moves stopped (h.idle_of_pending hpending rfl) ?_ hstop
    exact (hthread.resume hpending).2 sent _ rfl

/-- A thread that has returned may enter `run` again, in the same object or another. -/
theorem Ok.returned {l : SenderFrame} (h : Ok g start before hist s)
    (hlimit : start.maxDatagramBytes.toNat ≤ maxPacketBytes) (hreturned : s.thread = .returned l) :
    s.ingress.consumer.running = none ∧ ∃ stopped,
      Sender.Settled start l.toSender.frame (s.history before stopped) ∧
        (stopped = true → s.stopRequested = true) := by
  constructor
  · by_contra hrun
    obtain ⟨r, hr⟩ := Option.ne_none_iff_exists'.mp hrun
    obtain ⟨op, resume, hpending, -⟩ := h.consumer r.call (by rw [hr]; rfl)
    rw [hreturned] at hpending
    cases hpending
  · obtain ⟨stopped, hthread, hstop⟩ := h.thread
    rw [hreturned] at hthread
    have sent : Sender.Settled start l (s.history before stopped) := hthread
    refine ⟨stopped, ?_, hstop⟩
    exact
      { sent with
        output := by
          rw [Sender.frame, List.length_take, List.length_replicate]
          rw [sent.limit]
          exact Nat.min_eq_left hlimit }

/-- Every action keeps the invariant. -/
theorem next_ok {a : SenderAction} (hlimit : start.maxDatagramBytes.toNat ≤ maxPacketBytes)
    (h : Ok g start before hist s) (hnext : s.next a = some t) :
    ∃ hist', Ok g start before hist' t ∧ hist <+: hist' := by
  cases a with
  | step sent => exact stepThread_ok h hnext
  | requestStop =>
      obtain rfl := Option.some.inj hnext
      obtain ⟨stopped, hthread, -⟩ := h.thread
      exact ⟨hist, { h with thread := ⟨stopped, hthread, fun _ => rfl⟩ }, List.prefix_rfl⟩
  | run =>
      simp only [next] at hnext
      split at hnext
      case h_1 l hreturned =>
        obtain rfl := Option.some.inj hnext
        obtain ⟨hidle, stopped, sent, hstop⟩ := h.returned hlimit hreturned
        exact ⟨hist, h.thread_moves stopped hidle sent hstop, List.prefix_rfl⟩
      case h_2 => cases hnext
  | move =>
      simp only [next] at hnext
      split at hnext
      case h_1 l hreturned =>
        obtain rfl := Option.some.inj hnext
        obtain ⟨hidle, stopped, sent, hstop⟩ := h.returned hlimit hreturned
        have hmoved : Ok g start before hist
            { s with thread := .returned l.toSender.frame } :=
          h.thread_moves stopped hidle sent hstop
        refine ⟨hist, ?_, List.prefix_rfl⟩
        exact
          { ring := hmoved.ring
            thread := hmoved.thread
            consumer := hmoved.consumer
            before := hmoved.before
            movedFrom := by
              intro old hold
              obtain hearlier | hlast := List.mem_append.mp hold
              · exact h.movedFrom old hearlier
              · rw [List.mem_singleton.mp hlast]
                rfl }
      case h_2 => cases hnext
  | ingress a =>
      simp only [next] at hnext
      split at hnext
      case isTrue => cases hnext
      case isFalse hactor =>
        obtain ⟨ingress, hingress, rfl⟩ := Option.map_eq_some_iff.mp hnext
        exact h.ingress_moves hactor hingress

theorem reaches_ok {discipline : SenderSystem → SenderAction → Prop}
    (hlimit : start.maxDatagramBytes.toNat ≤ maxPacketBytes) (h : Ok g start before hist s)
    (hrun : Reaches next discipline s t) :
    ∃ hist', Ok g start before hist' t ∧ hist <+: hist' := by
  refine hrun.invariant (I := fun t => ∃ hist', Ok g start before hist' t ∧ hist <+: hist')
    ⟨hist, h, List.prefix_rfl⟩ ?_
  rintro u a v ⟨hist', hok, hgrows⟩ - hnext
  obtain ⟨hist'', hok', hgrows'⟩ := next_ok hlimit hok hnext
  exact ⟨hist'', hok', hgrows.trans hgrows'⟩

/-- A send that was tried is never forgotten. -/
theorem next_attempts {a : SenderAction} (hnext : s.next a = some t) :
    s.attempts <+: t.attempts := by
  cases a with
  | step sent =>
      simp only [next, stepThread] at hnext
      split at hnext
      case h_1 => cases hnext
      case h_4 =>
        split at hnext
        case h_1 => obtain rfl := Option.some.inj hnext; exact List.prefix_rfl
        case h_2 => obtain rfl := Option.some.inj hnext; exact List.prefix_rfl
        case h_3 => cases hnext
      case h_6 =>
        split at hnext
        case h_1 => obtain rfl := Option.some.inj hnext; exact List.prefix_rfl
        case h_2 => obtain rfl := Option.some.inj hnext; exact List.prefix_rfl
        case h_3 => cases hnext
      case h_7 => obtain rfl := Option.some.inj hnext; exact List.prefix_append _ _
      all_goals
        obtain rfl := Option.some.inj hnext
        exact List.prefix_rfl
  | requestStop => obtain rfl := Option.some.inj hnext; exact List.prefix_rfl
  | run =>
      simp only [next] at hnext
      split at hnext
      case h_1 => obtain rfl := Option.some.inj hnext; exact List.prefix_rfl
      case h_2 => cases hnext
  | move =>
      simp only [next] at hnext
      split at hnext
      case h_1 => obtain rfl := Option.some.inj hnext; exact List.prefix_rfl
      case h_2 => cases hnext
  | ingress a =>
      simp only [next] at hnext
      split at hnext
      case isTrue => cases hnext
      case isFalse =>
        obtain ⟨ingress, -, rfl⟩ := Option.map_eq_some_iff.mp hnext
        exact List.prefix_rfl

end SenderSystem

end EventEngine
