import EventEngine.Receiver.Datagrams
import EventEngine.Ring.Remaining

/-!
# A receiver takes every datagram

If `poll` reports a datagram only where one is queued, a call of `receive` never waits for a
later one, and the thread can always make its next step. If it also reports every one, each turn
takes the oldest datagram. The datagrams that are left, with what is left of the turn and of the
call in progress, are the rank by which each datagram is taken in the end, unless `run` returns.
-/

namespace EventEngine

open Concurrency Memory Protocol Transport EventEngine.Ring

def ReceiverOp.isReceive : ReceiverOp → Bool
  | .receive => true
  | _ => false

/-- Whether a turn has begun and not received yet. -/
def openingEnvironment : Environment receiverAccess Bool
  | .loadStop, stopRequested, _, opened' => opened' = !stopRequested
  | .receive, _, _, opened' => opened' = false
  | _, _, opened, opened' => opened' = opened

namespace Receiver

variable {l : Receiver}

/-- The thread receives once in each turn, before anything else. -/
abbrev Opens : Receiver → ReceiverOp → Bool → Prop := fun _ op opened => opened = op.isReceive

theorem publish_opens (event : Event) :
    (publish event l).Meets openingEnvironment Opens (fun _ _ opened => opened = false) false := by
  refine ⟨rfl, ?_⟩
  rintro published _ rfl
  cases published with
  | ok => rfl
  | full => rfl
  | closed => rfl
  | payloadTooLarge => rfl

theorem filter_opens (decoded : DecodedDataView) :
    (filter decoded l).Meets openingEnvironment Opens (fun _ _ opened => opened = false)
      false := by
  rw [filter, Method.bind_apply, Method.self_apply, Process.bind_done, Method.bind_apply,
    Method.assign_apply, Process.bind_done]
  split
  · split
    · rfl
    · rfl
  · split
    · exact publish_opens _
    · exact publish_opens _

theorem receiveDatagram_opens (datagram : Bytes) :
    (receiveDatagram datagram l).Meets openingEnvironment Opens
      (fun _ _ opened => opened = false) false := by
  rw [receiveDatagram, Method.bind_apply, count, Method.assign_apply, Process.bind_done]
  cases decodeData datagram with
  | error e => rfl
  | ok decoded => exact filter_opens decoded

theorem receiveError_opens (error : UdpError) :
    (receiveError error l).Meets openingEnvironment Opens (fun _ _ opened => opened = false)
      false := by
  rw [receiveError]
  split
  · rfl
  · split
    · rfl
    · rfl

theorem turn_opens :
    (turn l).Meets openingEnvironment Opens (fun _ _ opened => opened = false) false := by
  refine ⟨rfl, ?_⟩
  rintro stopRequested _ rfl
  cases stopRequested with
  | true => rfl
  | false =>
      refine ⟨rfl, ?_⟩
      rintro received _ rfl
      cases received with
      | error e => exact receiveError_opens e
      | ok datagram => exact receiveDatagram_opens datagram

def opening : run.Contract openingEnvironment where
  control := Opens
  head _ opened := opened = false
  exit _ opened := opened = false
  final _ _ := True
  body := by
    rintro l _ rfl
    apply turn_opens.mono_post
    rintro goesOn l' opened rfl
    cases goesOn with
    | true => rfl
    | false => rfl
  after := by
    rintro l _ rfl
    exact ⟨rfl, fun _ _ _ => trivial⟩

theorem run_head (l : Receiver) : (run.pending (.head l)).isSome = true := rfl

end Receiver

namespace ReceiverSystem

variable {s t : ReceiverSystem}

/-- What is left of the call on the ring that is in progress. -/
abbrev RingCalls : Type :=
  Option (Process spanAccess SpscRing Reply) × Option (Process spanAccess SpscRing Reply)

def RingCalls.Lower : RingCalls → RingCalls → Prop := Prod.Lex Process.Continues Process.Continues

def ringCalls (s : ReceiverSystem) : RingCalls :=
  (s.egress.producer.running.map Running.process, s.egress.creator.running.map Running.process)

/-- A step of the thread that neither tests the stop flag nor receives. -/
inductive Calls (s : ReceiverSystem) (op : ReceiverOp)
    (resume : op.Res → Thread receiverAccess Receiver) : ReceiverSystem → Prop
  | waits (egress : Ring.System)
      (hlower : RingCalls.Lower (ringCalls { s with egress }) s.ringCalls) :
      Calls s op resume { s with egress }
  | returns (egress : Ring.System) (r : op.Res) :
      Calls s op resume { s with egress, thread := resume r }

theorem stepThread_calls {op : ReceiverOp} {resume : op.Res → Thread receiverAccess Receiver}
    {answer : Received} (hpending : Receiver.run.pending s.thread = some ⟨op, resume⟩)
    (hstop : op ≠ .loadStop) (hreceive : op ≠ .receive)
    (hnext : s.stepThread answer = some t) : s.Calls op resume t := by
  simp only [stepThread, hpending] at hnext
  cases op with
  | loadStop => exact absurd rfl hstop
  | receive => exact absurd rfl hreceive
  | tryPublish event =>
      simp only at hnext
      split at hnext
      case h_1 egress hoperate =>
        cases hnext
        exact .waits egress (.left _ _ (Ring.System.operate_client_continues hoperate))
      case h_2 egress result hoperate =>
        cases hnext
        exact @Calls.returns s (.tryPublish event) resume egress result
      case h_3 => cases hnext
  | closePublication =>
      simp only at hnext
      split at hnext
      case h_1 egress hoperate =>
        cases hnext
        refine .waits egress ?_
        have hcreator := Ring.System.operate_client_continues hoperate
        obtain ⟨u, hu, heq⟩ := Option.map_eq_some_iff.mp hoperate
        obtain ⟨rfl, -⟩ := Prod.mk.inj heq
        have hproducer : SameProcess (s.egress.shareHandle.client .producer)
            (u.client .producer) :=
          Ring.System.next_client_sameProcess hu (by rw [Ring.System.operation_actor]; simp)
        obtain ⟨-, hsame, -, -, hrunning, -⟩ := s.egress.shareHandle_cases
        change u.producer.running.map _ = s.egress.shareHandle.producer.running.map _ at hproducer
        rw [hsame] at hproducer
        change Process.Continues _ (s.egress.shareHandle.creator.running.map _) at hcreator
        rw [hrunning] at hcreator
        rw [RingCalls.Lower, ringCalls, ringCalls, hproducer]
        exact .right _ hcreator
      case h_2 egress result hoperate =>
        cases hnext
        exact @Calls.returns s .closePublication resume egress result
      case h_3 => cases hnext

theorem Ok.reaches {g : Geometry} {hist : List Event} (hok : Ok g hist s)
    (hrun : Reaches next anyAction s t) : ∃ hist, Ok g hist t := by
  refine hrun.invariant (I := fun t => ∃ hist, Ok g hist t) ⟨hist, hok⟩ ?_
  rintro u a v ⟨hist, hok⟩ - hnext
  obtain ⟨hist', hok', -⟩ := next_ok hok hnext
  exact ⟨hist', hok'⟩

/-- The thread can always make its next step; a datagram that is asked for has to fit. -/
theorem Ok.can_step {g : Geometry} {hist : List Event} {answer : Received} (hok : Ok g hist s)
    (hpending : (Receiver.run.pending s.thread).isSome = true) (hfits : fits answer = true) :
    ∃ t, s.stepThread answer = some t := by
  obtain ⟨⟨op, resume⟩, hpending⟩ := Option.isSome_iff_exists.mp hpending
  simp only [stepThread, hpending]
  cases op with
  | loadStop => exact ⟨_, rfl⟩
  | receive => exact ⟨_, if_pos hfits⟩
  | tryPublish event =>
      obtain ⟨egress, reply, hoperate⟩ :=
        hok.ring.client_can_operate .producer (.tryPublish event) fun _ => rfl
      simp only [hoperate]
      cases reply with
      | none => exact ⟨_, rfl⟩
      | some reply =>
          obtain ⟨hist', -, hstep, hoperated, -⟩ := hok.publishes hpending hoperate
          obtain ⟨e, ⟨⟨_, _, _, hpost⟩, -⟩, hcall, rfl⟩ := hoperated.entry hstep.ring.producer
          rw [hcall] at hpost
          obtain ⟨r, hr, -⟩ := hpost
          rw [hr]
          exact ⟨_, rfl⟩
  | closePublication =>
      obtain ⟨egress, reply, hoperate⟩ :=
        hok.ring.shareHandle.client_can_operate .creator .closePublication fun _ => rfl
      simp only [hoperate]
      cases reply with
      | none => exact ⟨_, rfl⟩
      | some reply =>
          obtain ⟨hist', creator, -, hstep, hoperated, -⟩ := hok.closes hpending hoperate
          obtain ⟨e, ⟨⟨_, _, _, hpost⟩, -⟩, hcall, rfl⟩ := hoperated.entry hstep.ring.creator
          rw [hcall] at hpost
          rw [hpost.1]
          exact ⟨_, rfl⟩

end ReceiverSystem

def SocketReceiverAction.isStep : SocketReceiverAction → Bool
  | .step _ => true
  | _ => false

namespace SocketReceiver

/-- `poll` reports a datagram only where one is queued. -/
def Honest (s : SocketReceiver) : SocketReceiverAction → Prop
  | .step answer => answer.polled.readable = true → s.socket.queue ≠ []
  | _ => True

/-- `poll` reports a datagram exactly where one is queued, and `recvmsg` takes it. -/
def Truthful (s : SocketReceiver) : SocketReceiverAction → Prop
  | .step answer =>
      (answer.polled.readable = true ↔ s.socket.queue ≠ []) ∧ answer.failure = none
  | _ => True

variable {g : Geometry} {s t : SocketReceiver} {m : Span} {handle : SpscRing}
variable {a : SocketReceiverAction} {answer : SocketAnswer}

theorem Truthful.honest (h : s.Truthful a) : s.Honest a := by
  cases a with
  | step answer => exact h.1.mp
  | _ => trivial

/-- What a step of the thread is. -/
inductive Advances (s : SocketReceiver) (answer : SocketAnswer) : SocketReceiver → Prop
  | tests (resume : Bool → Thread receiverAccess Receiver)
      (hpending : Receiver.run.pending s.receiver.thread = some ⟨.loadStop, resume⟩) :
      Advances s answer
        { s with receiver := { s.receiver with thread := resume s.receiver.stopRequested } }
  | receives (resume : Received → Thread receiverAccess Receiver) (socket : Socket)
      (returned : Option Received)
      (hpending : Receiver.run.pending s.receiver.thread = some ⟨.receive, resume⟩)
      (hoperated : s.socket.Operated maxPacketBytes answer socket returned) :
      Advances s answer ⟨socket, resumed s.receiver resume returned⟩
  | calls (op : ReceiverOp) (resume : op.Res → Thread receiverAccess Receiver)
      (receiver : ReceiverSystem)
      (hpending : Receiver.run.pending s.receiver.thread = some ⟨op, resume⟩)
      (hstop : op ≠ .loadStop) (hreceive : op ≠ .receive)
      (hcalls : s.receiver.Calls op resume receiver) : Advances s answer { s with receiver }

theorem Ok.advances (h : s.Ok) (hnext : s.stepThread answer = some t) : s.Advances answer t := by
  simp only [stepThread] at hnext
  split at hnext
  case h_1 resume hpending =>
    obtain ⟨⟨socket, returned⟩, hoperate, rfl⟩ := Option.map_eq_some_iff.mp hnext
    exact .receives resume socket returned hpending (h.socket.operate hoperate)
  case h_2 hother =>
    obtain ⟨receiver, hreceiver, rfl⟩ := Option.map_eq_some_iff.mp hnext
    cases hpending : Receiver.run.pending s.receiver.thread with
    | none =>
        simp only [ReceiverSystem.stepThread, hpending] at hreceiver
        cases hreceiver
    | some access =>
        obtain ⟨op, resume⟩ := access
        by_cases hstop : op = .loadStop
        · subst hstop
          simp only [ReceiverSystem.stepThread, hpending] at hreceiver
          cases hreceiver
          exact .tests resume hpending
        · have hreceive : op ≠ .receive := by
            rintro rfl
            exact hother resume hpending
          exact .calls op resume receiver hpending hstop hreceive
            (ReceiverSystem.stepThread_calls hpending hstop hreceive hreceiver)

/-- The invariant of a thread that never waits for a datagram. -/
structure Going (g : Geometry) (opened : Bool) (s : SocketReceiver) : Prop extends s.Ok where
  receiver : ∃ hist, ReceiverSystem.Ok g hist s.receiver
  waits : Receiver.run.Waits s.receiver.thread
  opening : Receiver.opening.Holds s.receiver.thread opened
  queued : s.socket.call.isSome = true → s.socket.queue ≠ []

theorem initial_going (hinit : Initialized g handle m) : Going g false (initial m handle) where
  toOk := initial_ok m handle
  receiver := ⟨[], ReceiverSystem.initial_ok hinit⟩
  waits := .inl rfl
  opening := rfl
  queued hno := by cases hno

/-- What is left of the call in progress. -/
abbrev CallsLeft : Type :=
  Option (Process socketAccess Unit (Except UdpError ReceivedDatagram)) × ReceiverSystem.RingCalls

def CallsLeft.Lower : CallsLeft → CallsLeft → Prop :=
  Prod.Lex Process.Continues ReceiverSystem.RingCalls.Lower

def callsLeft (s : SocketReceiver) : CallsLeft := (s.socket.call, s.receiver.ringCalls)

/-- One while the loop may go on. -/
def inLoop : Thread receiverAccess Receiver → Nat
  | .head _ => 1
  | .turn _ => 1
  | .leaving _ => 0
  | .returned _ => 0

/-- What a step has done to the turn. -/
inductive Turns (s : SocketReceiver) (answer : SocketAnswer) (opened : Bool) (t : SocketReceiver) :
    Bool → Prop
  | begins (hopened : opened = false) (hloop : inLoop t.receiver.thread ≤ inLoop s.receiver.thread)
      (htaken : t.socket.taken = s.socket.taken) : Turns s answer opened t true
  | waits (hthread : t.receiver.thread = s.receiver.thread)
      (hcalls : t.callsLeft.Lower s.callsLeft) (htaken : t.socket.taken = s.socket.taken) :
      Turns s answer opened t opened
  | ends (hloop : inLoop t.receiver.thread < inLoop s.receiver.thread)
      (htaken : t.socket.taken = s.socket.taken) : Turns s answer opened t opened
  | follows (hthread : Receiver.run.Follows t.receiver.thread s.receiver.thread)
      (hloop : inLoop t.receiver.thread ≤ inLoop s.receiver.thread)
      (htaken : t.socket.taken = s.socket.taken) : Turns s answer opened t opened
  | fails (hfailed : answer.failure.isSome = true ∨
        s.socket.call = none ∧ answer.polled.readable = false) : Turns s answer opened t false
  | takes (hopened : opened = true)
      (hthread : Receiver.run.Follows t.receiver.thread s.receiver.thread)
      (hloop : inLoop t.receiver.thread ≤ inLoop s.receiver.thread)
      (htaken : t.socket.taken.length = s.socket.taken.length + 1) : Turns s answer opened t false

theorem inLoop_resume {thread : Thread receiverAccess Receiver} {op : ReceiverOp}
    {resume : op.Res → Thread receiverAccess Receiver}
    (hpending : Receiver.run.pending thread = some ⟨op, resume⟩) (r : op.Res) :
    inLoop (resume r) ≤ inLoop thread := by
  have hone : ∀ thread, inLoop thread ≤ 1 := by
    intro thread
    cases thread with
    | head l => exact Nat.le_refl 1
    | turn p => exact Nat.le_refl 1
    | leaving p => exact Nat.zero_le 1
    | returned l => exact Nat.zero_le 1
  cases thread with
  | head l => exact hone _
  | turn p => exact hone _
  | leaving p =>
      cases p with
      | done a l => cases hpending
      | step l op' next =>
          cases hpending
          cases hnext : next r with
          | done a l' => simp only [hnext]; exact Nat.le_refl 0
          | step l' op' next' => simp only [hnext]; exact Nat.le_refl 0
  | returned l => cases hpending

/-- At the head of the loop the thread waits for the test of the stop flag. -/
theorem not_head {thread : Thread receiverAccess Receiver} {op : ReceiverOp}
    {resume : op.Res → Thread receiverAccess Receiver}
    (hpending : Receiver.run.pending thread = some ⟨op, resume⟩) (hop : op ≠ .loadStop) :
    thread.isHead = false := by
  cases thread with
  | head l => exact absurd (congrArg Sigma.fst (Option.some.inj hpending)).symm hop
  | turn p => rfl
  | leaving p => rfl
  | returned l => rfl

/-- What is kept when the thread goes on. -/
theorem Going.resumed {opened opened' : Bool} {op : ReceiverOp}
    {resume : op.Res → Thread receiverAccess Receiver} {r : op.Res} (h : Going g opened s)
    (hok : t.Ok) (hreceiver : ∃ hist, ReceiverSystem.Ok g hist t.receiver)
    (hpending : Receiver.run.pending s.receiver.thread = some ⟨op, resume⟩)
    (hthread : t.receiver.thread = resume r) (hopened : openingEnvironment op r opened opened')
    (hqueued : t.socket.call.isSome = true → t.socket.queue ≠ []) : Going g opened' t where
  toOk := hok
  receiver := hreceiver
  waits := hthread ▸ Loop.resume_waits Receiver.run_head hpending r
  opening := hthread ▸ (h.opening.resume hpending).2 r _ hopened
  queued := hqueued

theorem Going.opened_eq {opened : Bool} {op : ReceiverOp}
    {resume : op.Res → Thread receiverAccess Receiver} (h : Going g opened s)
    (hpending : Receiver.run.pending s.receiver.thread = some ⟨op, resume⟩) :
    opened = op.isReceive := by
  obtain ⟨⟨l, hopened⟩, -⟩ := h.opening.resume hpending
  exact hopened

/-- A step that tests the stop flag. -/
theorem Going.tests {opened : Bool} {resume : Bool → Thread receiverAccess Receiver}
    (h : Going g opened s)
    (hpending : Receiver.run.pending s.receiver.thread = some ⟨.loadStop, resume⟩)
    (hok : t.Ok) (hreceiver : ∃ hist, ReceiverSystem.Ok g hist t.receiver)
    (hthread : t.receiver.thread = resume s.receiver.stopRequested)
    (hsocket : t.socket = s.socket) :
    ∃ opened', Going g opened' t ∧ s.Turns answer opened t opened' := by
  obtain rfl : opened = false := h.opened_eq hpending
  have hloop : inLoop t.receiver.thread ≤ inLoop s.receiver.thread :=
    hthread ▸ inLoop_resume hpending _
  have htaken : t.socket.taken = s.socket.taken := congrArg Socket.taken hsocket
  refine ⟨_, h.resumed hok hreceiver hpending hthread rfl (hsocket ▸ h.queued), ?_⟩
  cases hstop : s.receiver.stopRequested with
  | false => exact .begins rfl hloop htaken
  | true =>
      rw [hstop] at hthread
      cases hhead : s.receiver.thread with
      | head l =>
          rw [hhead] at hpending
          cases hpending
          refine .ends ?_ htaken
          rw [hthread, hhead]
          exact Nat.zero_lt_one
      | turn p =>
          exact .follows ⟨.inl (by rw [hhead]; rfl), .loadStop, resume, true, hpending, hthread⟩
            hloop htaken
      | leaving p =>
          exact .follows ⟨.inl (by rw [hhead]; rfl), .loadStop, resume, true, hpending, hthread⟩
            hloop htaken
      | returned l =>
          rw [hhead] at hpending
          cases hpending

/-- A step of a call of `receive`. -/
theorem Going.receives {opened : Bool} {resume : Received → Thread receiverAccess Receiver}
    {socket : Socket} {returned : Option Received} (h : Going g opened s)
    (hpending : Receiver.run.pending s.receiver.thread = some ⟨.receive, resume⟩)
    (hoperated : s.socket.Operated maxPacketBytes answer socket returned)
    (hhonest : answer.polled.readable = true → s.socket.queue ≠ [])
    (hok : Ok ⟨socket, SocketReceiver.resumed s.receiver resume returned⟩)
    (hreceiver : ∃ hist, ReceiverSystem.Ok g hist
      (SocketReceiver.resumed s.receiver resume returned)) :
    ∃ opened', Going g opened' ⟨socket, SocketReceiver.resumed s.receiver resume returned⟩ ∧
      s.Turns answer opened ⟨socket, SocketReceiver.resumed s.receiver resume returned⟩
        opened' := by
  have hfollows : ∀ r, Receiver.run.Follows (resume r) s.receiver.thread := fun r =>
    ⟨.inl (not_head hpending (by simp)), .receive, resume, r, hpending, rfl⟩
  obtain rfl : opened = true := h.opened_eq hpending
  cases hoperated with
  | waits hidle hreadable =>
      refine ⟨true, ⟨hok, hreceiver, h.waits, h.opening, fun _ => hhonest hreadable⟩, ?_⟩
      refine .waits rfl (.left _ _ ?_) rfl
      rw [hidle]
      exact .begins _
  | fails error hcode hfailed =>
      exact ⟨false, h.resumed hok hreceiver hpending rfl rfl (fun hno => by cases hno),
        .fails hfailed⟩
  | takes datagram queue buffer hqueue hbuffer =>
      refine ⟨false, h.resumed hok hreceiver hpending rfl rfl (fun hno => by cases hno), ?_⟩
      exact .takes rfl (hfollows _) (inLoop_resume hpending _) List.length_append

theorem Going.step {opened : Bool} (h : Going g opened s)
    (hhonest : answer.polled.readable = true → s.socket.queue ≠ [])
    (hnext : s.next (.step answer) = some t) :
    ∃ opened', Going g opened' t ∧ s.Turns answer opened t opened' := by
  obtain ⟨hok, hreaches⟩ := h.toOk.next hnext
  obtain ⟨hist, hreceiver⟩ := h.receiver
  have hreceiver' := hreceiver.reaches hreaches
  cases h.toOk.advances hnext with
  | tests resume hpending => exact h.tests hpending hok hreceiver' rfl rfl
  | receives resume socket returned hpending hoperated =>
      exact h.receives hpending hoperated hhonest hok hreceiver'
  | calls op resume receiver hpending hstop hreceive hcalls =>
      cases hcalls with
      | waits egress hlower =>
          exact ⟨opened, ⟨hok, hreceiver', h.waits, h.opening, h.queued⟩,
            .waits rfl (.right _ hlower) rfl⟩
      | returns egress r =>
          have hkept : openingEnvironment op r opened opened := by
            cases op with
            | loadStop => exact absurd rfl hstop
            | receive => exact absurd rfl hreceive
            | tryPublish event => rfl
            | closePublication => rfl
          exact ⟨opened, h.resumed hok hreceiver' hpending rfl hkept h.queued,
            .follows ⟨.inl (not_head hpending hstop), op, resume, r, hpending, rfl⟩
              (inLoop_resume hpending r) rfl⟩

/-- What the actions of the others leave alone. -/
theorem Going.others {opened : Bool} (h : Going g opened s) (hother : a.isStep = false)
    (hnext : s.next a = some t) : Going g opened t ∧ t.receiver.thread = s.receiver.thread ∧
      t.callsLeft = s.callsLeft ∧ t.socket.taken = s.socket.taken := by
  obtain ⟨hok, hreaches⟩ := h.toOk.next hnext
  obtain ⟨hist, hreceiver⟩ := h.receiver
  have hreceiver' := hreceiver.reaches hreaches
  cases a with
  | step answer => cases hother
  | arrive datagram =>
      cases hnext
      refine ⟨⟨hok, hreceiver', h.waits, h.opening, fun hcall => ?_⟩, rfl, rfl, rfl⟩
      exact List.append_ne_nil_of_left_ne_nil (h.queued hcall) _
  | requestStop =>
      simp only [SocketReceiver.next] at hnext
      obtain ⟨receiver, hreceiver, rfl⟩ := Option.map_eq_some_iff.mp hnext
      cases hreceiver
      exact ⟨⟨hok, hreceiver', h.waits, h.opening, h.queued⟩, rfl, rfl, rfl⟩
  | consumer b =>
      obtain ⟨receiver, hreceiver, rfl⟩ := Option.map_eq_some_iff.mp hnext
      simp only [ReceiverSystem.next] at hreceiver
      split at hreceiver
      case isFalse => cases hreceiver
      case isTrue hactor =>
        obtain ⟨egress, hegress, rfl⟩ := Option.map_eq_some_iff.mp hreceiver
        have hproducer : SameProcess (s.receiver.egress.client .producer)
            (egress.client .producer) :=
          Ring.System.next_client_sameProcess hegress (by rw [hactor]; simp)
        have hcreator : SameProcess (s.receiver.egress.client .creator)
            (egress.client .creator) :=
          Ring.System.next_client_sameProcess hegress (by rw [hactor]; simp)
        refine ⟨⟨hok, hreceiver', h.waits, h.opening, h.queued⟩, rfl, ?_, rfl⟩
        exact congrArg (Prod.mk s.socket.call) (Prod.ext hproducer hcreator)

theorem Ok.arrived_prefix (h : s.Ok) (hnext : s.next a = some t) :
    s.socket.arrived <+: t.socket.arrived := by
  cases a with
  | step answer =>
      cases h.advances hnext with
      | tests resume hpending => exact List.prefix_rfl
      | receives resume socket returned hpending hoperated =>
          cases hoperated with
          | waits hidle hreadable => exact List.prefix_rfl
          | fails error hcode hfailed => exact List.prefix_rfl
          | takes datagram queue buffer hqueue hbuffer => exact List.prefix_rfl
      | calls op resume receiver hpending hstop hreceive hcalls => exact List.prefix_rfl
  | arrive datagram =>
      cases hnext
      exact List.prefix_append _ _
  | requestStop =>
      cases hnext
      exact List.prefix_rfl
  | consumer b =>
      obtain ⟨receiver, -, rfl⟩ := Option.map_eq_some_iff.mp hnext
      exact List.prefix_rfl

/-- The thread never waits for a datagram. -/
theorem Going.can_step {opened : Bool} (h : Going g opened s)
    (hreturned : s.receiver.thread.hasReturned = false) (answer : SocketAnswer) :
    ∃ t, s.next (.step answer) = some t := by
  have hpending : (Receiver.run.pending s.receiver.thread).isSome = true := by
    refine h.waits.resolve_right fun hno => ?_
    rw [hreturned] at hno
    cases hno
  obtain ⟨hist, hreceiver⟩ := h.receiver
  simp only [SocketReceiver.next, stepThread]
  split
  case h_1 resume hreceive =>
    have htimeout : 0 ≤ Receiver.receiveTimeoutMs := by decide
    obtain ⟨pair, hoperate⟩ :=
      Option.isSome_iff_exists.mp (h.socket.operate_isSome htimeout h.queued)
    rw [hoperate]
    exact ⟨_, rfl⟩
  case h_2 =>
    have hfits : ReceiverSystem.fits (.error { code := .timeout }) = true := rfl
    obtain ⟨receiver, hstep⟩ := hreceiver.can_step hpending hfits
    rw [hstep]
    exact ⟨_, rfl⟩

/-! ### The rank -/

/-- The turns that may still begin, what is left of the turn, and what is left of the call. -/
abbrev TakeRank : Type := Nat × Nat × Thread receiverAccess Receiver × CallsLeft

def TakeRank.Lower : TakeRank → TakeRank → Prop :=
  Prod.Lex (· < ·) (Prod.Lex (· < ·) (Prod.Lex Receiver.run.Follows CallsLeft.Lower))

theorem TakeRank.lower_wellFounded : WellFounded TakeRank.Lower := by
  have hcontinues : ∀ {S : Signature} {ℓ β : Type},
      WellFounded (Process.Continues : Option (Process S ℓ β) → _ → Prop) :=
    Process.continues_wellFounded
  exact Nat.lt_wfRel.wf.prod_lex (Nat.lt_wfRel.wf.prod_lex
    ((Loop.follows_wellFounded Receiver.run).prod_lex
      (hcontinues.prod_lex (hcontinues.prod_lex hcontinues))))

/-- The rank as long as so many datagrams have not all been taken. -/
def rank (s : SocketReceiver) (target : Nat) (opened : Bool) : TakeRank :=
  (inLoop s.receiver.thread, target - s.socket.taken.length - opened.toNat, s.receiver.thread,
    s.callsLeft)

theorem rank_lower_of_loop {target : Nat} {opened opened' : Bool}
    (hloop : inLoop t.receiver.thread ≤ inLoop s.receiver.thread)
    (hlower : Prod.Lex (· < ·) (Prod.Lex Receiver.run.Follows CallsLeft.Lower)
      (t.rank target opened').2 (s.rank target opened).2) :
    TakeRank.Lower (t.rank target opened') (s.rank target opened) := by
  obtain hlt | heq := Nat.lt_or_eq_of_le hloop
  · exact .left _ _ hlt
  · exact Prod.lex_def.mpr (.inr ⟨heq, hlower⟩)

theorem Turns.lower {target : Nat} {opened opened' : Bool} (h : s.Turns answer opened t opened')
    (htruthful : s.Truthful (.step answer)) (hqueue : s.socket.queue ≠ [])
    (hleft : s.socket.taken.length < target) :
    TakeRank.Lower (t.rank target opened') (s.rank target opened) := by
  obtain ⟨hreadable, hfailure⟩ := htruthful
  cases h with
  | begins hopened hloop htaken =>
      apply rank_lower_of_loop hloop
      apply Prod.Lex.left
      rw [htaken, hopened]
      exact Nat.sub_lt (Nat.sub_pos_of_lt hleft) Nat.one_pos
  | waits hthread hcalls htaken =>
      rw [rank, rank, hthread, htaken]
      exact .right _ (.right _ (.right _ hcalls))
  | ends hloop htaken => exact .left _ _ hloop
  | follows hthread hloop htaken =>
      apply rank_lower_of_loop hloop
      rw [rank, rank, htaken]
      exact .right _ (.left _ _ hthread)
  | fails hfailed =>
      rw [hfailure, hreadable.mpr hqueue] at hfailed
      obtain hno | ⟨-, hno⟩ := hfailed
      · cases hno
      · cases hno
  | takes hopened hthread hloop htaken =>
      apply rank_lower_of_loop hloop
      rw [rank, rank, htaken, hopened]
      exact .right _ (.left _ _ hthread)

/-- A state of this rank in which one of the datagrams that had arrived is left. -/
def Ranked (g : Geometry) (datagrams : List Datagram) (rank : TakeRank) (s : SocketReceiver) :
    Prop :=
  ∃ opened, Going g opened s ∧ datagrams <+: s.socket.arrived ∧
    s.socket.taken.length < datagrams.length ∧ rank = s.rank datagrams.length opened

variable {datagrams : List Datagram} {rank : TakeRank}

theorem Ranked.queue (h : Ranked g datagrams rank s) : s.socket.queue ≠ [] := by
  obtain ⟨opened, hgoing, harrived, hleft, -⟩ := h
  intro hempty
  have hlength := harrived.length_le
  rw [hgoing.socket.ledger, hempty, List.append_nil] at hlength
  omega

theorem Ranked.step (h : Ranked g datagrams rank s) (htruthful : s.Truthful (.step answer))
    (hnext : s.next (.step answer) = some t)
    (hleft : t.socket.taken.length < datagrams.length) :
    ∃ rank', TakeRank.Lower rank' rank ∧ Ranked g datagrams rank' t := by
  have hqueue := h.queue
  obtain ⟨opened, hgoing, harrived, hbefore, rfl⟩ := h
  obtain ⟨opened', hgoing', hturns⟩ := hgoing.step htruthful.1.mp hnext
  exact ⟨_, hturns.lower htruthful hqueue hbefore, opened', hgoing',
    harrived.trans (hgoing.toOk.arrived_prefix hnext), hleft, rfl⟩

theorem Ranked.others (h : Ranked g datagrams rank s) (hother : a.isStep = false)
    (hnext : s.next a = some t) : Ranked g datagrams rank t := by
  obtain ⟨opened, hgoing, harrived, hleft, rfl⟩ := h
  obtain ⟨hgoing', hthread, hcalls, htaken⟩ := hgoing.others hother hnext
  refine ⟨opened, hgoing', harrived.trans (hgoing.toOk.arrived_prefix hnext), htaken ▸ hleft, ?_⟩
  rw [SocketReceiver.rank, SocketReceiver.rank, hthread, hcalls, htaken]

theorem Going.next {opened : Bool} (h : Going g opened s) (hhonest : s.Honest a)
    (hnext : s.next a = some t) : ∃ opened', Going g opened' t := by
  cases a with
  | step answer =>
      obtain ⟨opened', hgoing, -⟩ := h.step hhonest hnext
      exact ⟨opened', hgoing⟩
  | arrive datagram => exact ⟨opened, (h.others rfl hnext).1⟩
  | requestStop => exact ⟨opened, (h.others rfl hnext).1⟩
  | consumer b => exact ⟨opened, (h.others rfl hnext).1⟩

/-- All datagrams were taken that had arrived. -/
theorem Ok.taken_all (h : s.Ok) (harrived : datagrams <+: s.socket.arrived)
    (hall : datagrams.length ≤ s.socket.taken.length) : datagrams <+: s.socket.taken := by
  rw [h.socket.ledger] at harrived
  exact List.prefix_of_prefix_length_le harrived (List.prefix_append _ _) hall

/-- What had arrived stays arrived. -/
theorem arrived_of_execution {discipline : SocketReceiver → SocketReceiverAction → Prop}
    {states : Nat → SocketReceiver} {actions : Nat → SocketReceiverAction}
    (hexecution : Execution SocketReceiver.next discipline states actions)
    (hok : (states 0).Ok) (n : Nat) :
    (states n).Ok ∧ (states 0).socket.arrived <+: (states n).socket.arrived := by
  induction n with
  | zero => exact ⟨hok, List.prefix_rfl⟩
  | succ n ih =>
      obtain ⟨hok', harrived⟩ := ih
      have hnext := hexecution.step n
      exact ⟨(hok'.next hnext).1, harrived.trans (hok'.arrived_prefix hnext)⟩

/-- If `poll` reports a datagram only where one is queued, the thread can make its next step
until `run` has returned, whatever is answered. If from some time on it reports every one, and
`recvmsg` does not fail, every datagram that has arrived is taken in the end, unless `run`
returns; for this the thread has to be given steps, and nothing else is asked of the others. -/
theorem takes_every_datagram (hinit : Initialized g handle m)
    (hrun : Reaches SocketReceiver.next Honest (initial m handle) s) :
    (s.receiver.thread.hasReturned = false →
      ∀ answer, ∃ t, s.next (.step answer) = some t) ∧
    ∀ (states : Nat → SocketReceiver) (actions : Nat → SocketReceiverAction), states 0 = s →
      Execution SocketReceiver.next Truthful states actions →
      Fair (fun a => a.isStep = true) (fun t => t.receiver.thread.hasReturned = true) states
        actions →
      ∃ n, (states n).receiver.thread.hasReturned = true ∨
        s.socket.arrived <+: (states n).socket.taken := by
  obtain ⟨opened, hgoing⟩ := hrun.invariant (I := fun s => ∃ opened, Going g opened s)
    ⟨false, initial_going hinit⟩ fun _ _ _ ⟨_, hgoing⟩ hhonest hnext => hgoing.next hhonest hnext
  refine ⟨hgoing.can_step, ?_⟩
  intro states actions hstart hexecution hfair
  by_contra hnever
  have hleft : ∀ n, (states n).socket.taken.length < s.socket.arrived.length := by
    intro n
    obtain ⟨hok, harrived⟩ := arrived_of_execution hexecution (hstart ▸ hgoing.toOk) n
    rw [hstart] at harrived
    exact Nat.lt_of_not_le fun hall => hnever ⟨n, .inr (hok.taken_all harrived hall)⟩
  -- As long as one of the datagrams is left, every step lowers the rank.
  have hlasting : Execution SocketReceiver.next
      (fun u a => u.Truthful a ∧ ∀ v, u.next a = some v →
        v.socket.taken.length < s.socket.arrived.length) states actions := by
    refine ⟨fun n => ⟨hexecution.allowed n, fun v hv => ?_⟩, hexecution.step⟩
    rw [hexecution.step n] at hv
    obtain rfl := Option.some.inj hv
    exact hleft (n + 1)
  have hranked : Ranked g s.socket.arrived (s.rank s.socket.arrived.length opened) (states 0) := by
    have hfirst := hleft 0
    rw [hstart] at hfirst ⊢
    exact ⟨opened, hgoing, List.prefix_rfl, hfirst, rfl⟩
  obtain ⟨n, hreturned⟩ : ∃ n, (states n).receiver.thread.hasReturned = true := by
    refine hlasting.reaches_goal hfair TakeRank.lower_wellFounded (Ranked g s.socket.arrived)
      ?_ ?_ hranked
    · rintro rank u a v hranked hown ⟨htruthful, hlast⟩ hnext
      cases a with
      | step answer => exact hranked.step htruthful hnext (hlast v hnext)
      | _ => cases hown
    · rintro rank u a v hranked hother - hnext
      exact hranked.others (Bool.eq_false_iff.mpr hother) hnext
  exact hnever ⟨n, .inl hreturned⟩

/-- A true answer. -/
def trueAnswer (s : SocketReceiver) : SocketAnswer :=
  match s.socket.queue with
  | [] => {}
  | _ :: _ => { polled := ⟨1, pollIn, 0⟩ }

theorem trueAnswer_truthful (s : SocketReceiver) : s.Truthful (.step s.trueAnswer) := by
  rw [Truthful, trueAnswer]
  cases hqueue : s.socket.queue with
  | nil =>
      refine ⟨⟨fun hno => ?_, fun hne => absurd rfl hne⟩, rfl⟩
      cases hno
  | cons datagram queue =>
      have hreadable : Polled.readable ⟨1, pollIn, 0⟩ = true := by decide
      exact ⟨⟨fun _ => List.cons_ne_nil _ _, fun _ => hreadable⟩, rfl⟩

/-- The thread goes on with true answers; once it has returned, only stop requests come. -/
def drive (s : SocketReceiver) : SocketReceiverAction :=
  if s.receiver.thread.hasReturned = true then .requestStop else .step s.trueAnswer

def driven (s : SocketReceiver) : Nat → SocketReceiver
  | 0 => s
  | n + 1 => ((driven s n).next (drive (driven s n))).getD (driven s n)

theorem drive_truthful (s : SocketReceiver) : s.Truthful s.drive := by
  rw [drive]
  split
  · trivial
  · exact s.trueAnswer_truthful

def sampleArrival : SocketReceiver :=
  let start := initial sampleMemory sampleHandle
  { start with
    socket := start.socket.arrive
      ⟨⟨0x7f000001, 9000⟩, DecodedDataView.wire ⟨7, 1, sampleEvent⟩⟩ }

theorem takes_every_datagram_sample : ∃ n,
    (driven sampleArrival n).receiver.thread.hasReturned = true ∨
      sampleArrival.socket.arrived <+: (driven sampleArrival n).socket.taken := by
  have hcan : ∀ s, Reaches SocketReceiver.next Honest (initial sampleMemory sampleHandle) s →
      ∃ t, s.next s.drive = some t := by
    intro s hrun
    rw [drive]
    split
    case isTrue => exact ⟨_, rfl⟩
    case isFalse hreturned =>
      exact (takes_every_datagram initialized_sample hrun).1 (Bool.eq_false_iff.mpr hreturned) _
  have hstep : ∀ n, Reaches SocketReceiver.next Honest (initial sampleMemory sampleHandle)
      (driven sampleArrival n) := by
    intro n
    induction n with
    | zero => exact .single ⟨.arrive _, trivial, rfl⟩
    | succ n ih =>
        obtain ⟨t, ht⟩ := hcan _ ih
        refine .tail ih ⟨_, (drive_truthful _).honest, ?_⟩
        rw [driven, ht]
        rfl
  apply (takes_every_datagram initialized_sample (hstep 0)).2 (driven sampleArrival)
    (fun n => drive (driven sampleArrival n)) rfl
  · refine ⟨fun n => drive_truthful _, fun n => ?_⟩
    obtain ⟨t, ht⟩ := hcan _ (hstep n)
    rw [driven, ht]
    rfl
  · intro n
    refine ⟨0, ?_⟩
    by_cases hreturned : (driven sampleArrival n).receiver.thread.hasReturned = true
    · exact .inl hreturned
    · right
      simp only [Nat.add_zero, drive, if_neg hreturned]
      rfl

end SocketReceiver

end EventEngine
