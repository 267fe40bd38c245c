import EventEngine.Ring.Remaining
import EventEngine.Sender.Turns

/-!
# How many turns a sender has begun

A turn of the loop begins when the test of the stop flag lets the thread go on. `Turning` is
the invariant that counts the turns along a run: their number follows from the answers of the
ring, up to the turn in which the thread is.
-/

namespace EventEngine

open Concurrency Memory Protocol Transport EventEngine.Ring

def SenderAction.isStep : SenderAction → Bool
  | .step _ => true
  | _ => false

/-- What a returned call adds to the history. -/
def TurnHistory.answer (h : TurnHistory) : Reply → TurnHistory
  | .acquire (.ok _) => { h with holding := true }
  | .acquire (.error .empty) => { h with empties := h.empties + 1 }
  | .release true => { h with released := h.released + 1, holding := false }
  | _ => h

namespace SenderSystem

/-- The thread waits for the test of the stop flag. -/
def testsStop (s : SenderSystem) : Bool :=
  match Sender.run.pending s.thread with
  | some ⟨.loadStop, _⟩ => true
  | _ => false

/-- The action begins a turn of the loop. -/
def beginsTurn (s : SenderSystem) (a : SenderAction) : Bool :=
  a.isStep && s.testsStop && !s.stopRequested

/-- How many turns the actions begin. -/
def turnsBegun (s : SenderSystem) : List SenderAction → Nat
  | [] => 0
  | a :: rest =>
      match s.next a with
      | some t => (s.beginsTurn a).toNat + turnsBegun t rest
      | none => 0

/-- What the calls on the ring say about the turns of the thread. -/
def turnHistory (s : SenderSystem) (begun : Nat) (closed stopped : Bool) : TurnHistory where
  begun := begun
  released := s.ingress.consumer.releases
  empties := s.ingress.consumer.empties
  holding := s.ingress.consumer.heldView.isSome
  closed := closed
  stopped := stopped

/-- The invariant of the thread and its turns. -/
structure Turning (start : Sender) (base : Nat) (fresh : Prop) (begun : Nat)
    (closed stopped : Bool) (s : SenderSystem) : Prop where
  thread : (Sender.turnContract start base fresh).Holds s.thread
    (s.turnHistory begun closed stopped)
  waits : Sender.run.Waits s.thread
  stop : stopped = true → s.stopRequested = true

variable {g : Geometry} {start : Sender} {before base begun : Nat} {hist : List Event}
variable {fresh : Prop} {closed stopped : Bool} {s t : SenderSystem} {ingress : Ring.System}
variable {m : Span} {handle : SpscRing} {sent : Bool} {a : SenderAction}

theorem beginsTurn_of_pending {op : SenderOp}
    {resume : op.Res → Thread senderAccess SenderFrame}
    (hpending : Sender.run.pending s.thread = some ⟨op, resume⟩) (hop : op ≠ .loadStop) :
    s.beginsTurn a = false := by
  have htests : s.testsStop = false := by
    unfold testsStop
    rw [hpending]
    cases op with
    | loadStop => exact absurd rfl hop
    | requestStop => rfl
    | tryAcquire => rfl
    | readByte offset => rfl
    | release => rfl
    | sendTo datagram destination => rfl
  rw [beginsTurn, htests, Bool.and_false, Bool.false_and]

/-- The history is what the consumer's returned calls say. -/
theorem turnHistory_congr
    (hcompleted : t.ingress.consumer.completed = s.ingress.consumer.completed) :
    t.turnHistory begun closed stopped = s.turnHistory begun closed stopped := by
  simp only [turnHistory, Client.releases, Client.empties, Client.heldView, hcompleted]

theorem run_head (l : SenderFrame) : (Sender.run.pending (.head l)).isSome = true := rfl

/-- The call that the thread waits for goes on. -/
theorem Turning.waiting (h : Turning start base fresh begun closed stopped s)
    (hcompleted : ingress.consumer.completed = s.ingress.consumer.completed) :
    Turning start base fresh begun closed stopped { s with ingress } where
  thread := by
    rw [turnHistory_congr (s := s) hcompleted]
    exact h.thread
  waits := h.waits
  stop := h.stop

/-- An acquisition by a sender that holds nothing has returned. -/
theorem Ok.answered {resume : Except AcquireError (EventView ByteRange) → _} {reply : Reply}
    (hok : Ok g start before hist s)
    (hpending : Sender.run.pending s.thread = some ⟨.tryAcquire, resume⟩)
    (hfree : s.ingress.consumer.heldView.isSome = false)
    (hoperate : s.ingress.operate .consumer .tryAcquire = some (ingress, some reply)) :
    ∃ e, ingress.consumer.completed = e :: s.ingress.consumer.completed ∧ e.reply = reply ∧
      ((∃ view, reply = .acquire (.ok view)) ∨ reply = .acquire (.error .empty) ∨
        (reply = .acquire (.error .closed) ∧ Drained ingress.memory)) := by
  obtain ⟨hist', -, hring, hoperated⟩ := hok.operates hpending rfl hoperate
  generalize hsome : some reply = answer at hoperated
  cases hoperated with
  | waits r hr hcall hentry hcompleted => cases hsome
  | returns e hidle hcompleted hcall hentry hfinish =>
      obtain rfl := Option.some.inj hsome
      have hentryOk : EntryOk ⟨g, 0, True, False⟩ e := hring.consumer.log e (by
        rw [hcompleted]
        exact List.mem_cons_self)
      have hnone : s.ingress.consumer.heldView = none := by
        simpa only [Option.isSome_eq_false_iff, Option.isNone_iff_eq_none] using hfree
      have hheld := hok.ring.consumerLog.held
      rw [hnone] at hheld
      refine ⟨e, hcompleted, rfl, ?_⟩
      obtain hview | hempty | hclosed :=
        hentryOk.acquire_answer trivial hcall (by rw [hentry]; exact hheld)
      · exact .inl hview
      · exact .inr (.inl hempty)
      · refine .inr (.inr ⟨hclosed, ?_⟩)
        rw [← hfinish]
        exact hentryOk.sawClosed hclosed

/-- The release by a sender that holds a slot has returned. -/
theorem Ok.gaveBack {resume : Bool → Thread senderAccess SenderFrame} {reply : Reply}
    (hok : Ok g start before hist s)
    (hpending : Sender.run.pending s.thread = some ⟨.release, resume⟩)
    (hheld : s.ingress.consumer.heldView.isSome = true)
    (hoperate : s.ingress.operate .consumer .release = some (ingress, some reply)) :
    ∃ e, ingress.consumer.completed = e :: s.ingress.consumer.completed ∧ e.reply = reply ∧
      reply = .release true := by
  obtain ⟨hist', -, hring, hoperated⟩ := hok.operates hpending rfl hoperate
  generalize hsome : some reply = answer at hoperated
  cases hoperated with
  | waits r hr hcall hentry hcompleted => cases hsome
  | returns e hidle hcompleted hcall hentry hfinish =>
      obtain rfl := Option.some.inj hsome
      have hentryOk : EntryOk ⟨g, 0, True, False⟩ e := hring.consumer.log e (by
        rw [hcompleted]
        exact List.mem_cons_self)
      obtain ⟨pair, hview⟩ := Option.isSome_iff_exists.mp hheld
      have hlog := hok.ring.consumerLog.held
      rw [hview] at hlog
      refine ⟨e, hcompleted, rfl, hentryOk.released_held hcall ?_⟩
      rw [hentry]
      exact hlog.1

/-- The number of packets that ends the session, while so many slots were given back. -/
def exhausts (start : Sender) (base : Nat) (s : SenderSystem) : Prop :=
  2 ^ 64 + base ≤ start.packetSequence.toNat + s.ingress.consumer.releases

/-- What one step of the thread does to the count of turns. -/
structure Turned (start : Sender) (base : Nat) (fresh : Prop) (begun : Nat)
    (closed : Bool) (s : SenderSystem) (a : SenderAction) (t : SenderSystem) : Prop where
  turning : ∃ closed' stopped', (closed' = true → closed = true ∨ Drained t.ingress.memory) ∧
    Turning start base fresh (begun + (s.beginsTurn a).toNat) closed' stopped' t
  stop : t.stopRequested = true →
    a = .requestStop ∨ s.stopRequested = true ∨ exhausts start base t

/-- An access that is no call and begins no turn. -/
theorem Turning.goesOn {op : SenderOp} {resume : op.Res → Thread senderAccess SenderFrame}
    {r : op.Res} {attempts : List (Bytes × UdpAddress)} {stopped' : Bool}
    (h : Turning start base fresh begun closed stopped s)
    (hpending : Sender.run.pending s.thread = some ⟨op, resume⟩)
    (henv : turnEnvironment op r (s.turnHistory begun closed stopped)
      (s.turnHistory begun closed stopped'))
    (hstop : stopped' = true → s.stopRequested = true) :
    Turning start base fresh begun closed stopped'
      { s with thread := resume r, attempts } where
  thread := (h.thread.resume hpending).2 r _ henv
  waits := Loop.resume_waits run_head hpending r
  stop := hstop

theorem turnHistory_answer {e : Completed} {thread : Thread senderAccess SenderFrame}
    (hcompleted : ingress.consumer.completed = e :: s.ingress.consumer.completed) :
    turnHistory { s with ingress, thread } begun closed stopped =
      (s.turnHistory begun closed stopped).answer e.reply := by
  obtain ⟨call, entry, start, reply, finish, instants, stored⟩ := e
  simp only [turnHistory, Client.releases, Client.empties, Client.heldView, hcompleted,
    List.countP_cons, Client.heldView.lastView, Completed.released, Completed.foundEmpty]
  cases reply with
  | publish result => rfl
  | acquire result =>
      cases result with
      | ok view => rfl
      | error e =>
          cases e with
          | empty => rfl
          | closed => rfl
          | alreadyAcquired => rfl
          | invalidSlot => rfl
  | release result =>
      cases result with
      | true => rfl
      | false => rfl
  | attach result => rfl
  | close result => rfl

/-- The call that the thread waits for has returned. -/
theorem Turning.returns {op : SenderOp} {resume : op.Res → Thread senderAccess SenderFrame}
    {r : op.Res} {e : Completed} {closed' : Bool}
    (h : Turning start base fresh begun closed stopped s)
    (hpending : Sender.run.pending s.thread = some ⟨op, resume⟩)
    (hcompleted : ingress.consumer.completed = e :: s.ingress.consumer.completed)
    (henv : turnEnvironment op r (s.turnHistory begun closed stopped)
      ((s.turnHistory begun closed' stopped).answer e.reply)) :
    Turning start base fresh begun closed' stopped { s with ingress, thread := resume r } where
  thread := by
    rw [turnHistory_answer hcompleted]
    exact (h.thread.resume hpending).2 r _ henv
  waits := Loop.resume_waits run_head hpending r
  stop := h.stop

/-- A step that begins no turn and leaves the stop flag alone. -/
theorem Turning.turned {op : SenderOp} {resume : op.Res → Thread senderAccess SenderFrame}
    {closed' stopped' : Bool} (h : Turning start base fresh begun closed' stopped' t)
    (hpending : Sender.run.pending s.thread = some ⟨op, resume⟩) (hop : op ≠ .loadStop)
    (hclosed : closed' = true → closed = true ∨ Drained t.ingress.memory)
    (hstop : t.stopRequested = s.stopRequested) :
    Turned start base fresh begun closed s a t where
  turning := by
    refine ⟨closed', stopped', hclosed, ?_⟩
    rw [beginsTurn_of_pending hpending hop]
    exact h
  stop := fun hrequested => .inr (.inl (hstop ▸ hrequested))

/-- The test of the stop flag begins a turn unless the flag is set. -/
theorem Turning.testsFlag {resume : Bool → Thread senderAccess SenderFrame}
    (h : Turning start base fresh begun closed stopped s)
    (hpending : Sender.run.pending s.thread = some ⟨.loadStop, resume⟩) :
    Turned start base fresh begun closed s (.step sent)
      { s with thread := resume s.stopRequested } := by
  have htests : s.beginsTurn (.step sent) = !s.stopRequested := by
    unfold beginsTurn testsStop
    rw [hpending]
    rfl
  obtain hstop | hstop := Bool.eq_false_or_eq_true s.stopRequested
  · rw [hstop] at htests
    refine ⟨⟨closed, true, .inl, ?_⟩, fun _ => .inr (.inl hstop)⟩
    rw [htests]
    refine h.goesOn hpending ?_ fun _ => hstop
    rw [hstop]
    rfl
  · rw [hstop] at htests
    refine ⟨⟨closed, stopped, .inl, ?_⟩, fun h => .inr (.inl h)⟩
    rw [htests]
    have henv : turnEnvironment .loadStop s.stopRequested (s.turnHistory begun closed stopped)
        (s.turnHistory (begun + 1) closed stopped) := by
      rw [hstop]
      rfl
    exact
      { thread := (h.thread.resume hpending).2 _ _ henv
        waits := Loop.resume_waits run_head hpending _
        stop := h.stop }

/-- The thread sets the stop flag itself only when the numbers of the packets run out. -/
theorem Turning.setsFlag {resume : Unit → Thread senderAccess SenderFrame}
    (h : Turning start base fresh begun closed stopped s)
    (hpending : Sender.run.pending s.thread = some ⟨.requestStop, resume⟩) :
    Turned start base fresh begun closed s (.step sent)
      { s with stopRequested := true, thread := resume () } := by
  obtain ⟨⟨l, hturn, hlast⟩, hresume⟩ := h.thread.resume hpending
  refine ⟨⟨closed, true, .inl, ?_⟩, fun _ => .inr (.inr ?_)⟩
  · rw [beginsTurn_of_pending hpending (by simp)]
    exact
      { thread := hresume () _ rfl
        waits := Loop.resume_waits run_head hpending ()
        stop := fun _ => rfl }
  · have hsequence := hturn.sequence
    have hmax : l.packetSequence.toNat = 2 ^ 64 - 1 := by
      rw [hlast]
      rfl
    rw [hmax] at hsequence
    change 2 ^ 64 + base ≤ start.packetSequence.toNat + s.ingress.consumer.releases
    change 2 ^ 64 - 1 + base + 1 ≤
      start.packetSequence.toNat + s.ingress.consumer.releases at hsequence
    omega

/-- A step of a call on the ring that does not return yet. -/
theorem Turning.turned_waiting {op : SenderOp} {call : Call}
    {resume : op.Res → Thread senderAccess SenderFrame} (hok : Ok g start before hist s)
    (h : Turning start base fresh begun closed stopped s)
    (hpending : Sender.run.pending s.thread = some ⟨op, resume⟩)
    (hcall : op.call = some call) (hop : op ≠ .loadStop)
    (hoperate : s.ingress.operate .consumer call = some (ingress, none)) :
    Turned start base fresh begun closed s (.step sent) { s with ingress } := by
  obtain ⟨hist', -, hring, hoperated⟩ := hok.operates hpending hcall hoperate
  obtain ⟨r, hr, hcall, hentry, hcompleted⟩ := hoperated
  exact (h.waiting hcompleted).turned hpending hop .inl rfl

/-- An acquisition that returns. -/
theorem Turning.turned_acquired
    {resume : Except AcquireError (EventView ByteRange) → Thread senderAccess SenderFrame}
    {result : Except AcquireError (EventView ByteRange)} (hok : Ok g start before hist s)
    (h : Turning start base fresh begun closed stopped s)
    (hpending : Sender.run.pending s.thread = some ⟨.tryAcquire, resume⟩)
    (hoperate : s.ingress.operate .consumer .tryAcquire =
      some (ingress, some (.acquire result))) :
    Turned start base fresh begun closed s (.step sent)
      { s with ingress, thread := resume result } := by
  obtain ⟨⟨l, hturn⟩, -⟩ := h.thread.resume hpending
  obtain ⟨e, hcompleted, hreply, hanswer⟩ := hok.answered hpending hturn.holding hoperate
  obtain ⟨view, hview⟩ | hempty | ⟨hclosed, hdrained⟩ := hanswer
  · obtain rfl := Reply.acquire.inj hview
    refine (h.returns hpending hcompleted ?_).turned hpending (by simp) .inl rfl
    rw [hreply]
    rfl
  · obtain rfl := Reply.acquire.inj hempty
    refine (h.returns hpending hcompleted ?_).turned hpending (by simp) .inl rfl
    rw [hreply]
    rfl
  · obtain rfl := Reply.acquire.inj hclosed
    have hreturned : Turning start base fresh begun true stopped
        { s with ingress, thread := resume (.error .closed) } := by
      refine h.returns hpending hcompleted ?_
      rw [hreply]
      rfl
    exact hreturned.turned hpending (by simp) (fun _ => .inr hdrained) rfl

/-- A release that returns. -/
theorem Turning.turned_released {resume : Bool → Thread senderAccess SenderFrame}
    {result : Bool} (hok : Ok g start before hist s)
    (h : Turning start base fresh begun closed stopped s)
    (hpending : Sender.run.pending s.thread = some ⟨.release, resume⟩)
    (hoperate : s.ingress.operate .consumer .release =
      some (ingress, some (.release result))) :
    Turned start base fresh begun closed s (.step sent)
      { s with ingress, thread := resume result } := by
  obtain ⟨⟨l, hturn⟩, -⟩ := h.thread.resume hpending
  obtain ⟨e, hcompleted, hreply, htrue⟩ := hok.gaveBack hpending hturn.holding hoperate
  obtain rfl := Reply.release.inj htrue
  refine (h.returns hpending hcompleted ?_).turned hpending (by simp) .inl rfl
  rw [hreply]
  rfl

theorem stepThread_turned (hok : Ok g start before hist s)
    (h : Turning start base fresh begun closed stopped s)
    (hnext : s.stepThread sent = some t) :
    Turned start base fresh begun closed s (.step sent) t := by
  simp only [stepThread] at hnext
  split at hnext
  case h_1 => cases hnext
  case h_2 resume hpending =>
    obtain rfl := Option.some.inj hnext
    exact h.testsFlag hpending
  case h_3 resume hpending =>
    obtain rfl := Option.some.inj hnext
    exact h.setsFlag hpending
  case h_4 resume hpending =>
    split at hnext
    case h_1 ingress hoperate =>
      obtain rfl := Option.some.inj hnext
      exact h.turned_waiting hok hpending rfl (by simp) hoperate
    case h_2 ingress result hoperate =>
      obtain rfl := Option.some.inj hnext
      exact h.turned_acquired hok hpending hoperate
    case h_3 => cases hnext
  case h_5 offset resume hpending =>
    obtain rfl := Option.some.inj hnext
    exact (h.goesOn hpending rfl h.stop).turned hpending (by simp) .inl rfl
  case h_6 resume hpending =>
    split at hnext
    case h_1 ingress hoperate =>
      obtain rfl := Option.some.inj hnext
      exact h.turned_waiting hok hpending rfl (by simp) hoperate
    case h_2 ingress result hoperate =>
      obtain rfl := Option.some.inj hnext
      exact h.turned_released hok hpending hoperate
    case h_3 => cases hnext
  case h_7 datagram destination resume hpending =>
    obtain rfl := Option.some.inj hnext
    exact (h.goesOn hpending rfl h.stop).turned hpending (by simp) .inl rfl

/-- The other actions while a run is in progress. -/
theorem next_turned (hok : Ok g start before hist s)
    (h : Turning start base fresh begun closed stopped s) (hrun : a ≠ .run) (hmove : a ≠ .move)
    (hnext : s.next a = some t) : Turned start base fresh begun closed s a t := by
  cases a with
  | step sent => exact stepThread_turned hok h hnext
  | requestStop =>
      obtain rfl := Option.some.inj hnext
      refine ⟨⟨closed, stopped, .inl, ?_⟩, fun _ => .inl rfl⟩
      exact { h with stop := fun _ => rfl }
  | run => exact absurd rfl hrun
  | move => exact absurd rfl hmove
  | ingress a =>
      simp only [next] at hnext
      split at hnext
      case isTrue => cases hnext
      case isFalse hactor =>
        obtain ⟨ingress, hingress, rfl⟩ := Option.map_eq_some_iff.mp hnext
        obtain ⟨hothers, -⟩ := Ring.System.next_cases hingress
        have hconsumer : SameCalls s.ingress.consumer ingress.consumer :=
          hothers .consumer (Ne.symm hactor)
        exact ⟨⟨closed, stopped, .inl, h.waiting hconsumer.completed⟩, fun h => .inr (.inl h)⟩

/-- A sender that has just been constructed. -/
theorem initial_turning (hfree : ingress.consumer.heldView = none) :
    Turning start ingress.consumer.releases True
      (ingress.consumer.releases + ingress.consumer.empties) false false
      (initial start ingress) where
  thread := by
    refine .inr ⟨trivial, rfl, Nat.zero_le 1, ?_, rfl, Nat.le_refl _⟩
    change ingress.consumer.heldView.isSome = false
    rw [hfree]
    rfl
  waits := .inr rfl
  stop h := by cases h

theorem frame_turn {l : SenderFrame} {h : TurnHistory} {opened used : Nat} {holding : Bool}
    (hturn : InTurn start base l h opened used holding) :
    InTurn start base l.toSender.frame h opened used holding :=
  { hturn with }

/-- Every action keeps count, from one run to the next as well. -/
theorem Turning.next (hok : Ok g start before hist s)
    (h : Turning start base True begun closed stopped s) (hnext : s.next a = some t) :
    ∃ begun' closed' stopped', Turning start base True begun' closed' stopped' t := by
  by_cases hother : a ≠ .run ∧ a ≠ .move
  · obtain ⟨closed', stopped', -, hturning⟩ :=
      (next_turned hok h hother.1 hother.2 hnext).turning
    exact ⟨_, closed', stopped', hturning⟩
  · have hreturned : ∃ l, s.thread = .returned l ∧ (a = .run ∨ a = .move) := by
      have ha : a = .run ∨ a = .move := by
        by_contra hneither
        exact hother ⟨fun h => hneither (.inl h), fun h => hneither (.inr h)⟩
      obtain rfl | rfl := ha
      · simp only [SenderSystem.next] at hnext
        split at hnext
        case h_1 l hthread => exact ⟨l, hthread, .inl rfl⟩
        case h_2 => cases hnext
      · simp only [SenderSystem.next] at hnext
        split at hnext
        case h_1 l hthread => exact ⟨l, hthread, .inr rfl⟩
        case h_2 => cases hnext
    obtain ⟨l, hthread, ha⟩ := hreturned
    have hfinal := h.thread
    rw [hthread] at hfinal
    obtain ⟨opened, hturn⟩ : ∃ opened, InTurn start base l
        (s.turnHistory begun closed stopped) opened 0 false := by
      obtain (⟨-, hturn⟩ | ⟨-, hturn⟩) | ⟨-, hturn⟩ := hfinal
      · exact ⟨_, hturn⟩
      · exact ⟨_, hturn⟩
      · exact ⟨_, hturn⟩
    obtain rfl | rfl := ha
    · simp only [SenderSystem.next, hthread] at hnext
      obtain rfl := Option.some.inj hnext
      refine ⟨s.ingress.consumer.releases + s.ingress.consumer.empties, closed, stopped, ?_⟩
      exact
        { thread := { frame_turn hturn with turns := rfl, opened_le := Nat.zero_le 1 }
          waits := .inl rfl
          stop := h.stop }
    · simp only [SenderSystem.next, hthread] at hnext
      obtain rfl := Option.some.inj hnext
      refine ⟨s.ingress.consumer.releases + s.ingress.consumer.empties, closed, stopped, ?_⟩
      exact
        { thread :=
            .inr ⟨trivial, { frame_turn hturn with turns := rfl, opened_le := Nat.zero_le 1 }⟩
          waits := .inr rfl
          stop := h.stop }

theorem exists_turning {discipline : SenderSystem → SenderAction → Prop}
    (hlimit : start.maxDatagramBytes.toNat ≤ maxPacketBytes)
    (hok : Ok g start before hist s) (h : Turning start base True begun closed stopped s)
    (hrun : Reaches SenderSystem.next discipline s t) :
    ∃ hist' begun' closed' stopped', Ok g start before hist' t ∧
      Turning start base True begun' closed' stopped' t := by
  refine hrun.invariant (I := fun t => ∃ hist' begun' closed' stopped',
    Ok g start before hist' t ∧ Turning start base True begun' closed' stopped' t)
    ⟨hist, begun, closed, stopped, hok, h⟩ ?_
  rintro u a v ⟨hist', begun', closed', stopped', hok', h'⟩ - hnext
  obtain ⟨hist'', hok'', -⟩ := next_ok hlimit hok' hnext
  obtain ⟨begun'', closed'', stopped'', h''⟩ := h'.next hok' hnext
  exact ⟨hist'', begun'', closed'', stopped'', hok'', h''⟩

/-- Wherever the thread is, it is in or between turns. -/
theorem Turning.inTurn (h : Turning start base fresh begun closed stopped s) :
    ∃ l opened used holding,
      InTurn start base l (s.turnHistory begun closed stopped) opened used holding := by
  cases hpending : Sender.run.pending s.thread with
  | some access =>
      obtain ⟨op, resume⟩ := access
      obtain ⟨⟨l, hat⟩, -⟩ := h.thread.resume hpending
      cases op with
      | loadStop => exact ⟨l, hat⟩
      | requestStop => exact ⟨l, _, _, _, hat.1⟩
      | tryAcquire => exact ⟨l, _, _, _, hat⟩
      | readByte offset => exact ⟨l, hat⟩
      | release => exact ⟨l, _, _, _, hat⟩
      | sendTo datagram destination => exact ⟨l, hat⟩
  | none =>
      obtain ⟨l, hbetween | (⟨-, hturn⟩ | ⟨-, hturn⟩) |
        ((⟨-, hturn⟩ | ⟨-, hturn⟩) | ⟨-, hbetween⟩)⟩ := h.thread.settled hpending
      · exact ⟨l, _, _, _, hbetween⟩
      · exact ⟨l, _, _, _, hturn⟩
      · exact ⟨l, _, _, _, hturn⟩
      · exact ⟨l, _, _, _, hturn⟩
      · exact ⟨l, _, _, _, hturn⟩
      · exact ⟨l, _, _, _, hbetween⟩

/-- The count of turns follows from the answers of the ring, up to the current turn; a call in
progress belongs to a turn that has begun. -/
theorem Turning.bounds (hok : Ok g start before hist s)
    (h : Turning start base fresh begun closed stopped s) :
    s.ingress.consumer.releases + s.ingress.consumer.empties + s.ingress.consumer.early ≤ begun ∧
      begun ≤ s.ingress.consumer.releases + s.ingress.consumer.empties + 1 := by
  obtain ⟨l, opened, used, holding, hturn⟩ := h.inTurn
  have hturns : begun = s.ingress.consumer.releases + s.ingress.consumer.empties + opened :=
    hturn.turns
  have hopened := hturn.opened_le
  cases hr : s.ingress.consumer.running with
  | none =>
      rw [Client.early_of_idle hr]
      omega
  | some r =>
      obtain ⟨op, resume, hpending, hop⟩ := hok.consumer r.call (by rw [hr]; rfl)
      obtain ⟨⟨l', hat⟩, -⟩ := h.thread.resume hpending
      have hcalling : begun = s.ingress.consumer.releases + s.ingress.consumer.empties + 1 := by
        cases op with
        | tryAcquire => exact InTurn.turns hat
        | release => exact InTurn.turns hat
        | loadStop => cases hop
        | requestStop => cases hop
        | readByte offset => cases hop
        | sendTo datagram destination => cases hop
      have hearly := s.ingress.consumer.early_le
      omega

end SenderSystem

end EventEngine
