import EventEngine.Receiver.Accounts
import EventEngine.Ring.Operate

/-!
# A receiver, its egress ring and the consumer

The receiver's thread is the only producer of the egress ring and the one that closes it; its
calls take one step of the ring at a time, interleaved with the steps of the consumer. The
socket answers what it likes, and the stop request comes at any time.
-/

namespace EventEngine

open Concurrency Memory Protocol Transport EventEngine.Ring

structure ReceiverSystem where
  egress : Ring.System
  thread : Thread receiverAccess Receiver
  stopRequested : Bool
  received : List Received

/-- `step` is one step of `run`; `answer` is what the socket returns if it is asked. -/
inductive ReceiverAction where
  | step (answer : Received)
  | requestStop
  | consumer (a : Ring.Action)

namespace ReceiverSystem

/-- A receiver that `initialize` returned; its thread is about to enter `run`. -/
def initial (m : Span) (handle : SpscRing) : ReceiverSystem :=
  ⟨Ring.System.initial m handle, .head {}, false, []⟩

/-- A datagram that fits the buffer of `run`; longer ones are answered by an error. -/
def fits : Received → Bool
  | .ok datagram => decide (datagram.length ≤ maxPacketBytes)
  | .error _ => true

/-- One step of the receiver's thread. -/
def stepThread (s : ReceiverSystem) (answer : Received) : Option ReceiverSystem :=
  match Receiver.run.pending s.thread with
  | none => none
  | some ⟨.loadStop, resume⟩ => some { s with thread := resume s.stopRequested }
  | some ⟨.receive, resume⟩ =>
      if fits answer then
        some { s with received := s.received ++ [answer], thread := resume answer }
      else none
  | some ⟨.tryPublish event, resume⟩ =>
      match s.egress.operate .producer (.tryPublish event) with
      | some (egress, none) => some { s with egress }
      | some (egress, some (.publish result)) => some { s with egress, thread := resume result }
      | _ => none
  | some ⟨.closePublication, resume⟩ =>
      match s.egress.shareHandle.operate .creator .closePublication with
      | some (egress, none) => some { s with egress }
      | some (egress, some (.close result)) => some { s with egress, thread := resume result }
      | _ => none

def next (s : ReceiverSystem) : ReceiverAction → Option ReceiverSystem
  | .step answer => s.stepThread answer
  | .requestStop => some { s with stopRequested := true }
  | .consumer a =>
      if a.actor = .consumer then (s.egress.next a).map fun egress => { s with egress } else none

end ReceiverSystem

/-- A publication that was tried, with its result. -/
def Ring.Completed.attempt (e : Completed) : Option (Event × PublishResult) :=
  match e.call, e.reply with
  | .tryPublish event, .publish result => some (event, result)
  | _, _ => none

/-- The ring was closed by this call. -/
def Ring.Completed.closes (e : Completed) : Bool :=
  match e.reply with
  | .close true => true
  | _ => false

namespace ReceiverSystem

/-- The history of the receiver's thread, read off the socket and the egress ring. -/
def history (s : ReceiverSystem) : ReceiverHistory where
  received := s.received
  attempts := s.egress.producer.completed.reverse.filterMap Completed.attempt
  closed := s.egress.creator.completed.any Completed.closes

/-- The invariant; `hist` are the events published to the egress ring. -/
structure Ok (g : Geometry) (hist : List Event) (s : ReceiverSystem) : Prop where
  ring : Ring.System.Ok ⟨g, 0, True, True⟩ [] hist s.egress
  closedFinal : ClosedFinal s.egress.consumer s.egress.memory
  thread : Receiver.contract.Holds s.thread s.history
  producer : ∀ call, s.egress.producer.running.map Running.call = some call →
    ∃ event resume, call = .tryPublish event ∧
      Receiver.run.pending s.thread = some ⟨.tryPublish event, resume⟩
  creator : ∀ call, s.egress.creator.running.map Running.call = some call →
    call = .closePublication ∧
      ∃ resume, Receiver.run.pending s.thread = some ⟨.closePublication, resume⟩
  initializer : s.egress.producer.entry.initializer = true
  closing : s.egress.creator.running.isSome = true → s.egress.creator.entry.initializer = true
  closed : s.history.closed = true → stateOf s.egress.memory = stateClosed

variable {g : Geometry} {hist : List Event} {s t : ReceiverSystem} {m : Span} {handle : SpscRing}

theorem initial_ok (hinit : Initialized g handle m) : Ok g [] (initial m handle) := by
  obtain ⟨hist, hring, hfinal⟩ := hinit.closedFinal (.refl)
  obtain rfl : hist = [] := hring.published
  obtain ⟨rfl, -, -⟩ := hinit.spec True
  exact
    { ring := hring
      closedFinal := hfinal
      thread := ⟨[], .initial, rfl⟩
      producer := fun call h => by cases h
      creator := fun call h => by cases h
      initializer := rfl
      closing := fun h => by cases h
      closed := fun h => by cases h }

/-- A call of the receiver is in progress only while its thread waits for it. -/
theorem Ok.idle_of_pending {op : ReceiverOp} {resume : op.Res → Thread receiverAccess Receiver}
    (h : Ok g hist s) (hpending : Receiver.run.pending s.thread = some ⟨op, resume⟩) :
    ((∀ event, op ≠ .tryPublish event) → s.egress.producer.running = none) ∧
      (op ≠ .closePublication → s.egress.creator.running = none) := by
  constructor
  · intro hop
    by_contra hrun
    obtain ⟨r, hr⟩ := Option.ne_none_iff_exists'.mp hrun
    obtain ⟨event, resume', -, hpending'⟩ := h.producer r.call (by rw [hr]; rfl)
    rw [hpending] at hpending'
    exact hop event (congrArg Sigma.fst (Option.some.inj hpending'))
  · intro hop
    by_contra hrun
    obtain ⟨r, hr⟩ := Option.ne_none_iff_exists'.mp hrun
    obtain ⟨-, resume', hpending'⟩ := h.creator r.call (by rw [hr]; rfl)
    rw [hpending] at hpending'
    exact hop (congrArg Sigma.fst (Option.some.inj hpending'))

/-- The consumer moves. -/
theorem Ok.consumer {a : Ring.Action} {egress : Ring.System} (h : Ok g hist s)
    (hactor : a.actor = .consumer) (hnext : s.egress.next a = some egress) :
    ∃ hist', hist <+: hist' ∧ Ok g hist' { s with egress } ∧
      history { s with egress } = s.history := by
  have hquiet : s.egress.quietClosing a := by
    cases a with
    | begin role call =>
        obtain rfl : role = .consumer := hactor
        trivial
    | step role => trivial
  obtain ⟨hist', hring, hlater⟩ := Ring.System.next_ok h.ring (fun _ => hquiet) hnext
  obtain ⟨hothers, -⟩ := Ring.System.next_cases hnext
  rw [hactor] at hothers
  have hproducer : SameCalls s.egress.producer egress.producer := hothers .producer (by simp)
  have hcreator : SameCalls s.egress.creator egress.creator := hothers .creator (by simp)
  have hhistory : history { s with egress } = s.history := by
    simp only [history, hproducer.completed, hcreator.completed]
  refine ⟨hist', hlater.history, ?_, hhistory⟩
  exact
    { ring := hring
      closedFinal := h.closedFinal.next hring hlater trivial (LogMoves.next hnext)
      thread := by rw [hhistory]; exact h.thread
      producer := fun call hcall => h.producer call (hproducer.running ▸ hcall)
      creator := fun call hcall => h.creator call (hcreator.running ▸ hcall)
      initializer := by rw [hproducer.entry]; exact h.initializer
      closing := fun hrun => by
        rw [hcreator.entry]
        refine h.closing ?_
        rw [← Option.isSome_map (f := Running.call), ← hcreator.running, Option.isSome_map]
        exact hrun
      closed := fun hclosed => hlater.closed (h.closed (hhistory ▸ hclosed)) }

/-- The invariant while no call of the receiver is in progress. -/
theorem ok_at_rest (hring : Ring.System.Ok ⟨g, 0, True, True⟩ [] hist s.egress)
    (hfinal : ClosedFinal s.egress.consumer s.egress.memory)
    (hthread : Receiver.contract.Holds s.thread s.history)
    (hproducer : s.egress.producer.running = none) (hcreator : s.egress.creator.running = none)
    (hinitializer : s.egress.producer.entry.initializer = true)
    (hclosed : s.history.closed = true → stateOf s.egress.memory = stateClosed) :
    Ok g hist s where
  ring := hring
  closedFinal := hfinal
  thread := hthread
  producer call hcall := by
    rw [hproducer] at hcall
    cases hcall
  creator call hcall := by
    rw [hcreator] at hcall
    cases hcall
  initializer := hinitializer
  closing hrun := by
    rw [hcreator] at hrun
    cases hrun
  closed := hclosed

/-- What every step of a call of the receiver keeps. -/
structure Stepped (g : Geometry) (hist : List Event) (s : ReceiverSystem)
    (egress : Ring.System) : Prop where
  ring : Ring.System.Ok ⟨g, 0, True, True⟩ [] hist egress
  closedFinal : ClosedFinal egress.consumer egress.memory
  initializer : egress.producer.entry.initializer = true
  closed : stateOf s.egress.memory = stateClosed → stateOf egress.memory = stateClosed

/-- The publication that the thread waits for takes one step. -/
theorem Ok.publishes {event : Event} {resume : PublishResult → Thread receiverAccess Receiver}
    {egress : Ring.System} {reply : Option Reply} (h : Ok g hist s)
    (hpending : Receiver.run.pending s.thread = some ⟨.tryPublish event, resume⟩)
    (hoperate : s.egress.operate .producer (.tryPublish event) = some (egress, reply)) :
    ∃ hist', hist <+: hist' ∧ s.Stepped g hist' egress ∧
      Operated (.tryPublish event) s.egress.producer egress.producer egress.memory reply ∧
      egress.creator.completed = s.egress.creator.completed ∧ egress.creator.running = none := by
  have hidle := (h.idle_of_pending hpending).2 (by simp)
  have hcall : ∀ r, (s.egress.client .producer).running = some r →
      r.call = .tryPublish event := by
    intro r hr
    obtain ⟨event', resume', hcall, hpending'⟩ := h.producer r.call (by
      rw [show s.egress.producer.running = some r from hr]
      rfl)
    rw [hpending] at hpending'
    have hop := congrArg Sigma.fst (Option.some.inj hpending')
    rw [hcall, ReceiverOp.tryPublish.inj hop]
  obtain ⟨hnext, hoperated, hothers⟩ := Ring.System.operate_cases hoperate hcall
  have hquiet : s.egress.quietClosing (s.egress.operation .producer (.tryPublish event)) := by
    unfold Ring.System.operation
    split
    · trivial
    · exact hidle
  obtain ⟨hist', hring, hlater⟩ := Ring.System.next_ok h.ring (fun _ => hquiet) hnext
  have hcreator : SameCalls s.egress.creator egress.creator := hothers .creator (by simp)
  refine ⟨hist', hlater.history, ?_, hoperated, hcreator.completed, hcreator.idle hidle⟩
  exact
    { ring := hring
      closedFinal := h.closedFinal.next hring hlater trivial (LogMoves.next hnext)
      initializer := (h.ring.operate_initializer hcall hnext).trans h.initializer
      closed := hlater.closed }

/-- The publication goes on, or its result is added to the history. -/
theorem Ok.publish {event : Event} {resume : PublishResult → Thread receiverAccess Receiver}
    {egress : Ring.System} {reply : Option Reply} (h : Ok g hist s)
    (hpending : Receiver.run.pending s.thread = some ⟨.tryPublish event, resume⟩)
    (hoperate : s.egress.operate .producer (.tryPublish event) = some (egress, reply)) :
    ∃ hist', hist <+: hist' ∧
      (reply = none →
        Ok g hist' { s with egress } ∧ history { s with egress } = s.history) ∧
      ∀ result, reply = some (.publish result) →
        Ok g hist' { s with egress, thread := resume result } ∧
          history { s with egress, thread := resume result } =
            { s.history with attempts := s.history.attempts ++ [(event, result)] } := by
  obtain ⟨hist', hgrows, hstep, hoperated, hcreator, hidle⟩ := h.publishes hpending hoperate
  refine ⟨hist', hgrows, ?_, ?_⟩
  · rintro rfl
    obtain ⟨r, hr, hrcall, -, hcompleted⟩ := hoperated
    have hhistory : history { s with egress } = s.history := by
      simp only [history, hcreator, hcompleted]
    refine ⟨?_, hhistory⟩
    exact
      { ring := hstep.ring
        closedFinal := hstep.closedFinal
        thread := by rw [hhistory]; exact h.thread
        producer := by
          intro call hcall
          rw [show egress.producer.running = some r from hr] at hcall
          obtain rfl := Option.some.inj hcall
          exact ⟨event, resume, hrcall, hpending⟩
        creator := fun call hcall => by rw [hidle] at hcall; cases hcall
        initializer := hstep.initializer
        closing := fun hrun => by rw [hidle] at hrun; cases hrun
        closed := fun hclosed => hstep.closed (h.closed (hhistory ▸ hclosed)) }
  · rintro result rfl
    generalize hsome : some (Reply.publish result) = reply at hoperated
    cases hoperated with
    | waits r hr hrcall hrentry hcompleted => cases hsome
    | returns e hr hcompleted hecall heentry hfinish =>
        have hattempt : e.attempt = some (event, result) := by
          rw [Completed.attempt, hecall, ← Option.some.inj hsome]
        have hhistory : history { s with egress, thread := resume result } =
            { s.history with attempts := s.history.attempts ++ [(event, result)] } := by
          simp only [history, hcreator]
          rw [hcompleted, filterMap_reverse_cons, hattempt]
          rfl
        refine ⟨ok_at_rest hstep.ring hstep.closedFinal ?_ hr hidle hstep.initializer ?_,
          hhistory⟩
        · rw [hhistory]
          exact (h.thread.resume hpending).2 result _ rfl
        · rw [hhistory]
          exact fun hclosed => hstep.closed (h.closed hclosed)

/-- A close that returned closed the ring, if its handle was the initializer's. -/
theorem closed_of_entryOk {c : Setting} {e : Completed} (h : EntryOk c e)
    (hcall : e.call = .closePublication) (hinitializer : e.entry.initializer = true) :
    e.closes = true ∧ stateOf e.finish = stateClosed := by
  obtain ⟨⟨hist, l, now, hpost⟩, -⟩ := h
  rw [hcall] at hpost
  obtain ⟨hr, -, hstate⟩ := hpost
  rw [hinitializer] at hr
  exact ⟨by rw [Completed.closes, hr], hstate hinitializer⟩

/-- The close that the thread waits for takes one step, with the producer's handle. -/
theorem Ok.closes {resume : Bool → Thread receiverAccess Receiver} {egress : Ring.System}
    {reply : Option Reply} (h : Ok g hist s)
    (hpending : Receiver.run.pending s.thread = some ⟨.closePublication, resume⟩)
    (hoperate : s.egress.shareHandle.operate .creator .closePublication =
      some (egress, reply)) :
    ∃ hist' creator, hist <+: hist' ∧ s.Stepped g hist' egress ∧
      Operated .closePublication creator egress.creator egress.memory reply ∧
      creator.completed = s.egress.creator.completed ∧ creator.entry.initializer = true ∧
      egress.producer.completed = s.egress.producer.completed ∧
      egress.producer.running = none := by
  have hidle : s.egress.producer.running = none :=
    (h.idle_of_pending hpending).1 (fun event => by simp)
  obtain ⟨hmemory, hproducer, hconsumer, hcompleted, hrunning, hentry⟩ :=
    s.egress.shareHandle_cases
  have hring := h.ring.shareHandle
  have hfinal : ClosedFinal s.egress.shareHandle.consumer s.egress.shareHandle.memory := by
    rw [hmemory, hconsumer]
    exact h.closedFinal
  have hinitializer : s.egress.shareHandle.creator.entry.initializer = true := by
    rw [hentry]
    split
    case isTrue hrun => exact h.closing hrun
    case isFalse => rw [← h.ring.producer.idle hidle]; exact h.initializer
  generalize s.egress.shareHandle = u at *
  have hcall : ∀ r, (u.client .creator).running = some r → r.call = .closePublication := by
    intro r hr
    have hr' : s.egress.creator.running = some r := hrunning.symm.trans hr
    exact (h.creator r.call (by rw [hr']; rfl)).1
  obtain ⟨hnext, hoperated, hothers⟩ := Ring.System.operate_cases hoperate hcall
  have hquiet : u.quietClosing (u.operation .creator .closePublication) := by
    unfold Ring.System.operation
    split
    · trivial
    · rw [Ring.System.quietClosing, Ring.System.Publishing, hproducer, hidle]
      exact Bool.false_ne_true
  obtain ⟨hist', hring', hlater⟩ := Ring.System.next_ok hring (fun _ => hquiet) hnext
  have hsame : SameCalls s.egress.producer egress.producer := by
    rw [← hproducer]
    exact hothers .producer (by simp)
  refine ⟨hist', u.creator, hlater.history, ?_, hoperated, hcompleted, hinitializer,
    hsame.completed, hsame.idle hidle⟩
  exact
    { ring := hring'
      closedFinal := hfinal.next hring' hlater trivial (LogMoves.next hnext)
      initializer := by rw [hsame.entry]; exact h.initializer
      closed := by rw [← hmemory]; exact hlater.closed }

/-- The close goes on, or the history says that the ring is closed. -/
theorem Ok.close {resume : Bool → Thread receiverAccess Receiver} {egress : Ring.System}
    {reply : Option Reply} (h : Ok g hist s)
    (hpending : Receiver.run.pending s.thread = some ⟨.closePublication, resume⟩)
    (hoperate : s.egress.shareHandle.operate .creator .closePublication =
      some (egress, reply)) :
    ∃ hist', hist <+: hist' ∧
      (reply = none →
        Ok g hist' { s with egress } ∧ history { s with egress } = s.history) ∧
      ∀ result, reply = some (.close result) →
        Ok g hist' { s with egress, thread := resume result } ∧
          history { s with egress, thread := resume result } =
            { s.history with closed := true } := by
  obtain ⟨hist', creator, hgrows, hstep, hoperated, hcreator, hinitializer, hproducer, hidle⟩ :=
    h.closes hpending hoperate
  refine ⟨hist', hgrows, ?_, ?_⟩
  · rintro rfl
    obtain ⟨r, hr, hrcall, hrentry, hcompleted⟩ := hoperated
    have hhistory : history { s with egress } = s.history := by
      simp only [history, hproducer, hcompleted, hcreator]
    refine ⟨?_, hhistory⟩
    exact
      { ring := hstep.ring
        closedFinal := hstep.closedFinal
        thread := by rw [hhistory]; exact h.thread
        producer := fun call hcall => by rw [hidle] at hcall; cases hcall
        creator := by
          intro call hcall
          rw [show egress.creator.running = some r from hr] at hcall
          obtain rfl := Option.some.inj hcall
          exact ⟨hrcall, resume, hpending⟩
        initializer := hstep.initializer
        closing := fun _ => by
          rw [Client.entry, show egress.creator.running = some r from hr]
          change r.entry.initializer = true
          rw [hrentry]
          exact hinitializer
        closed := fun hclosed => hstep.closed (h.closed (hhistory ▸ hclosed)) }
  · rintro result rfl
    generalize hsome : some (Reply.close result) = reply at hoperated
    cases hoperated with
    | waits r hr hrcall hrentry hcompleted => cases hsome
    | returns e hr hcompleted hecall heentry hfinish =>
        have hmem : e ∈ egress.creator.completed := by
          rw [hcompleted]
          exact List.mem_cons_self
        obtain ⟨hcloses, hstate⟩ := closed_of_entryOk (hstep.ring.creator.log e hmem) hecall
          (by rw [heentry]; exact hinitializer)
        have hhistory : history { s with egress, thread := resume result } =
            { s.history with closed := true } := by
          simp only [history, hproducer]
          rw [hcompleted, List.any_cons, hcloses, Bool.true_or]
        refine ⟨ok_at_rest hstep.ring hstep.closedFinal ?_ hidle hr hstep.initializer ?_,
          hhistory⟩
        · rw [hhistory]
          exact (h.thread.resume hpending).2 result _ rfl
        · exact fun _ => hfinish ▸ hstate

/-- A step of the thread that leaves the ring alone. -/
theorem Ok.thread_moves {thread : Thread receiverAccess Receiver} {received : List Received}
    (h : Ok g hist s) (hproducer : s.egress.producer.running = none)
    (hcreator : s.egress.creator.running = none)
    (hthread : Receiver.contract.Holds thread { s.history with received }) :
    Ok g hist { s with thread, received } :=
  ok_at_rest h.ring h.closedFinal hthread hproducer hcreator h.initializer h.closed

/-- What an action does to the receiver: what its thread waits for is answered, or the thread
does not see the action. -/
inductive Moves (s : ReceiverSystem) : ReceiverAction → ReceiverSystem → Prop where
  | requestStop : Moves s .requestStop { s with stopRequested := true }
  | unseen (a : ReceiverAction) (egress : Ring.System)
      (hhistory : history { s with egress } = s.history) : Moves s a { s with egress }
  | loadStop (answer : Received) (resume : Bool → Thread receiverAccess Receiver)
      (hpending : Receiver.run.pending s.thread = some ⟨.loadStop, resume⟩) :
      Moves s (.step answer) { s with thread := resume s.stopRequested }
  | receive (answer : Received) (resume : Received → Thread receiverAccess Receiver)
      (hpending : Receiver.run.pending s.thread = some ⟨.receive, resume⟩)
      (hfits : fits answer = true) :
      Moves s (.step answer)
        { s with received := s.received ++ [answer], thread := resume answer }
  | tryPublish (answer : Received) (event : Event) (result : PublishResult)
      (resume : PublishResult → Thread receiverAccess Receiver) (egress : Ring.System)
      (hpending : Receiver.run.pending s.thread = some ⟨.tryPublish event, resume⟩)
      (hhistory : history { s with egress, thread := resume result } =
        { s.history with attempts := s.history.attempts ++ [(event, result)] }) :
      Moves s (.step answer) { s with egress, thread := resume result }
  | closePublication (answer : Received) (result : Bool)
      (resume : Bool → Thread receiverAccess Receiver) (egress : Ring.System)
      (hpending : Receiver.run.pending s.thread = some ⟨.closePublication, resume⟩)
      (hhistory : history { s with egress, thread := resume result } =
        { s.history with closed := true }) :
      Moves s (.step answer) { s with egress, thread := resume result }

/-- Every action keeps the invariant. -/
theorem Ok.next_cases {a : ReceiverAction} (h : Ok g hist s) (hnext : s.next a = some t) :
    ∃ hist', Ok g hist' t ∧ hist <+: hist' ∧ s.Moves a t := by
  cases a with
  | requestStop =>
      obtain rfl := Option.some.inj hnext
      exact ⟨hist, { h with }, List.prefix_rfl, .requestStop⟩
  | consumer a =>
      simp only [next] at hnext
      split at hnext
      case isFalse => cases hnext
      case isTrue hactor =>
        obtain ⟨egress, hegress, rfl⟩ := Option.map_eq_some_iff.mp hnext
        obtain ⟨hist', hgrows, hok, hhistory⟩ := h.consumer hactor hegress
        exact ⟨hist', hok, hgrows, .unseen _ egress hhistory⟩
  | step answer =>
      simp only [next, stepThread] at hnext
      split at hnext
      case h_1 => cases hnext
      case h_2 resume hpending =>
        obtain rfl := Option.some.inj hnext
        obtain ⟨hproducer, hcreator⟩ := h.idle_of_pending hpending
        refine ⟨hist, ?_, List.prefix_rfl, .loadStop answer resume hpending⟩
        exact h.thread_moves (hproducer (by simp)) (hcreator (by simp))
          ((h.thread.resume hpending).2 _ _ rfl)
      case h_3 resume hpending =>
        split at hnext
        case isFalse => cases hnext
        case isTrue hfits =>
          obtain rfl := Option.some.inj hnext
          obtain ⟨hproducer, hcreator⟩ := h.idle_of_pending hpending
          refine ⟨hist, ?_, List.prefix_rfl, .receive answer resume hpending hfits⟩
          exact h.thread_moves (hproducer (by simp)) (hcreator (by simp))
            ((h.thread.resume hpending).2 _ _ rfl)
      case h_4 event resume hpending =>
        split at hnext
        case h_1 egress hoperate =>
          obtain ⟨hist', hgrows, hwaits, -⟩ := h.publish hpending hoperate
          obtain ⟨hok, hhistory⟩ := hwaits rfl
          obtain rfl := Option.some.inj hnext
          exact ⟨hist', hok, hgrows, .unseen _ egress hhistory⟩
        case h_2 egress result hoperate =>
          obtain ⟨hist', hgrows, -, hreturns⟩ := h.publish hpending hoperate
          obtain ⟨hok, hhistory⟩ := hreturns result rfl
          obtain rfl := Option.some.inj hnext
          exact ⟨hist', hok, hgrows,
            .tryPublish answer event result resume egress hpending hhistory⟩
        case h_3 => cases hnext
      case h_5 resume hpending =>
        split at hnext
        case h_1 egress hoperate =>
          obtain ⟨hist', hgrows, hwaits, -⟩ := h.close hpending hoperate
          obtain ⟨hok, hhistory⟩ := hwaits rfl
          obtain rfl := Option.some.inj hnext
          exact ⟨hist', hok, hgrows, .unseen _ egress hhistory⟩
        case h_2 egress result hoperate =>
          obtain ⟨hist', hgrows, -, hreturns⟩ := h.close hpending hoperate
          obtain ⟨hok, hhistory⟩ := hreturns result rfl
          obtain rfl := Option.some.inj hnext
          exact ⟨hist', hok, hgrows,
            .closePublication answer result resume egress hpending hhistory⟩
        case h_3 => cases hnext

theorem next_ok {a : ReceiverAction} (h : Ok g hist s) (hnext : s.next a = some t) :
    ∃ hist', Ok g hist' t ∧ hist <+: hist' := by
  obtain ⟨hist', hok, hgrows, -⟩ := h.next_cases hnext
  exact ⟨hist', hok, hgrows⟩

/-- What was received changes by what the socket answers. -/
theorem next_received {a : ReceiverAction} (hnext : s.next a = some t) :
    t.received = s.received ∨ ∃ answer, a = .step answer ∧ fits answer = true ∧
      t.received = s.received ++ [answer] := by
  cases a with
  | step answer =>
      simp only [next, stepThread] at hnext
      split at hnext
      case h_1 => cases hnext
      case h_2 => obtain rfl := Option.some.inj hnext; exact .inl rfl
      case h_3 =>
        split at hnext
        case isTrue hfits =>
          obtain rfl := Option.some.inj hnext
          exact .inr ⟨answer, rfl, hfits, rfl⟩
        case isFalse => cases hnext
      all_goals
        split at hnext
        case h_1 => obtain rfl := Option.some.inj hnext; exact .inl rfl
        case h_2 => obtain rfl := Option.some.inj hnext; exact .inl rfl
        case h_3 => cases hnext
  | requestStop => obtain rfl := Option.some.inj hnext; exact .inl rfl
  | consumer a =>
      simp only [next] at hnext
      split at hnext
      case isTrue =>
        obtain ⟨egress, -, rfl⟩ := Option.map_eq_some_iff.mp hnext
        exact .inl rfl
      case isFalse => cases hnext

theorem reaches_ok {discipline : ReceiverSystem → ReceiverAction → Prop}
    (hinit : Initialized g handle m) (hrun : Reaches next discipline (initial m handle) s) :
    ∃ hist, Ok g hist s := by
  refine hrun.invariant (I := fun s => ∃ hist, Ok g hist s) ⟨[], initial_ok hinit⟩ ?_
  rintro u a v ⟨hist, hok⟩ - hnext
  obtain ⟨hist', hok', -⟩ := next_ok hok hnext
  exact ⟨hist', hok'⟩

end ReceiverSystem

end EventEngine
