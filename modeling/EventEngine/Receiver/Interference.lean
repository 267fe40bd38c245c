import EventEngine.Receiver.Delivery
import EventEngine.Receiver.Rejection

/-!
# Runs without rejected datagrams

A run of a receiver without some of the rejected datagrams, and without the turns that
received them, goes on beside the run with them, with the very same egress ring. So does a run
with one more turn that receives a datagram once more.
-/

namespace EventEngine

open Concurrency Memory Protocol Transport EventEngine.Ring

namespace ReceiverSystem

variable {g : Geometry} {hist : List Event} {s t : ReceiverSystem} {m : Span}
variable {handle : SpscRing}

/-- What the receiver's thread sees of the system. -/
def runs (s : ReceiverSystem) : ReceiverRuns := ⟨s.thread, s.stopRequested, s.history⟩

/-- Every action is one of the receiver alone, with the answers that its ring gives, or is not
seen by it. -/
theorem Ok.next_runs {a : ReceiverAction} (h : Ok g hist s) (hnext : s.next a = some t) :
    t.runs = s.runs ∨ ∃ b, s.runs.next b = some t.runs := by
  obtain ⟨hist', -, -, hmoves⟩ := h.next_cases hnext
  cases hmoves with
  | requestStop => exact .inr ⟨.requestStop, rfl⟩
  | unseen _ egress hhistory =>
      refine .inl ?_
      rw [runs, hhistory]
      rfl
  | loadStop answer resume hpending =>
      refine .inr ⟨.step answer .ok true, ?_⟩
      simp only [runs, ReceiverRuns.next, ReceiverRuns.stepThread, hpending]
      rfl
  | receive answer resume hpending hfits =>
      refine .inr ⟨.step answer .ok true, ?_⟩
      simp only [runs, ReceiverRuns.next, ReceiverRuns.stepThread, hpending]
      rfl
  | tryPublish answer event result resume egress hpending hhistory =>
      refine .inr ⟨.step answer result true, ?_⟩
      simp only [runs, hhistory, ReceiverRuns.next, ReceiverRuns.stepThread, hpending]
  | closePublication answer result resume egress hpending hhistory =>
      refine .inr ⟨.step answer .ok result, ?_⟩
      simp only [runs, hhistory, ReceiverRuns.next, ReceiverRuns.stepThread, hpending]

/-- The counters agree with what the socket returned. -/
theorem counted (hinit : Initialized g handle m)
    (hrun : Reaches next anyAction (initial m handle) s) :
    Receiver.counterContract.Holds s.thread s.history := by
  have hboth : ∃ hist, Ok g hist s ∧ Receiver.counterContract.Holds s.thread s.history := by
    apply hrun.invariant (I := fun s => ∃ hist, Ok g hist s ∧
      Receiver.counterContract.Holds s.thread s.history)
    · exact ⟨[], initial_ok hinit, rfl, .initial⟩
    · rintro u a v ⟨hist, hok, hcounted⟩ - hnext
      obtain ⟨hist', hok', -⟩ := next_ok hok hnext
      refine ⟨hist', hok', ?_⟩
      obtain hsame | ⟨b, hb⟩ := hok.next_runs hnext
      · have hthread := congrArg ReceiverRuns.thread hsame
        have hhistory := congrArg ReceiverRuns.history hsame
        simp only [runs] at hthread hhistory
        rw [hthread, hhistory]
        exact hcounted
      · exact ReceiverRuns.next_counted (s := u.runs) (t := v.runs) hcounted hb
  obtain ⟨-, -, hcounted⟩ := hboth
  exact hcounted

end ReceiverSystem

namespace Receiver

/-- The accesses with which a turn begins. -/
def asks : ReceiverOp → Bool
  | .loadStop => true
  | .receive => true
  | _ => false

theorem publish_avoids (event : Event) (l : Receiver) : (publish event l).Avoids asks := by
  refine ⟨rfl, ?_⟩
  intro r
  cases r with
  | ok => trivial
  | full => trivial
  | payloadTooLarge => trivial
  | closed => trivial

theorem receive_avoids (r : Received) (l : Receiver) : (receive r l).Avoids asks := by
  cases r with
  | error error =>
      rw [receive, receiveError]
      split
      · trivial
      · split
        · trivial
        · trivial
  | ok datagram =>
      rw [receive, receiveDatagram, count, Method.bind_apply, Method.assign_apply,
        Process.bind_done]
      cases decodeData datagram with
      | error e => trivial
      | ok d =>
          simp only [filter, Method.bind_apply, Method.self_apply, Process.bind_done,
            Method.assign_apply]
          split
          · split
            · trivial
            · trivial
          · split
            · exact publish_avoids _ _
            · exact publish_avoids _ _

theorem after_avoids (l : Receiver) : (run.after l).Avoids asks := ⟨rfl, fun _ => trivial⟩

/-- The thread is not between the beginning of a turn and the answer of the socket. -/
def Past : Thread receiverAccess Receiver → Prop
  | .turn p => p.Avoids asks
  | .leaving p => p.Avoids asks
  | _ => True

theorem settleAfter_past {p : Process receiverAccess Receiver Unit} (hp : p.Avoids asks) :
    Past (Loop.settleAfter p) := by
  cases p with
  | done a l => trivial
  | step l op next => exact hp

theorem settleTurn_past {p : Process receiverAccess Receiver Bool} (hp : p.Avoids asks) :
    Past (run.settleTurn p) := by
  cases p with
  | done goesOn l =>
      cases goesOn with
      | true => trivial
      | false => exact settleAfter_past (after_avoids l)
  | step l op next => exact hp

/-- Such a thread begins a turn, or it does not ask and stays past. -/
theorem Past.pending {thread : Thread receiverAccess Receiver} {op : ReceiverOp}
    {resume : op.Res → Thread receiverAccess Receiver} (h : Past thread)
    (hpending : run.pending thread = some ⟨op, resume⟩) :
    (∃ l, thread = .head l) ∨ (asks op = false ∧ ∀ r, Past (resume r)) := by
  cases thread with
  | head l => exact .inl ⟨l, rfl⟩
  | turn p =>
      cases p with
      | done goesOn l => cases hpending
      | step l op' next =>
          cases hpending
          exact .inr ⟨h.1, fun r => settleTurn_past (h.2 r)⟩
  | leaving p =>
      cases p with
      | done a l => cases hpending
      | step l op' next =>
          cases hpending
          exact .inr ⟨h.1, fun r => settleAfter_past (h.2 r)⟩
  | returned l => cases hpending

end Receiver

namespace ReceiverSystem

/-- What is left of a run without the datagrams of `drop`, numbered in the order of their
arrival, and without the turns that received them: their test of the stop flag and their call
of the socket. `removing` says that the turn in progress is removed. -/
def without (drop : Nat → Bool) (removing : Bool) :
    ReceiverSystem → List ReceiverAction → List ReceiverAction
  | _, [] => []
  | s, a :: rest =>
      match s.next a with
      | none => []
      | some t =>
          match a, s.thread with
          | .step _, .head _ =>
              if !s.stopRequested && drop s.received.length then without drop true t rest
              else a :: without drop false t rest
          | .step _, _ =>
              if removing then without drop false t rest else a :: without drop false t rest
          | _, _ => a :: without drop removing t rest

/-- What is left of the results of the socket. -/
def keep (drop : Nat → Bool) (received : List Received) : List Received :=
  (received.zipIdx.filter fun r => !drop r.2).map Prod.fst

theorem keep_append (drop : Nat → Bool) (received : List Received) (r : Received) :
    keep drop (received ++ [r]) =
      keep drop received ++ if drop received.length = true then [] else [r] := by
  rw [keep, List.zipIdx_append, List.filter_append, List.map_append, Nat.zero_add]
  cases hdrop : drop received.length with
  | true => simp [keep, hdrop]
  | false => simp [keep, hdrop]

variable {g : Geometry} {hist : List Event} {s s' t : ReceiverSystem} {m : Span}
variable {handle : SpscRing} {drop : Nat → Bool} {a : ReceiverAction} {answer : Received}

/-- An action of the others sees nothing of the thread. -/
theorem next_other (ha : ∀ answer, a ≠ .step answer) (hnext : s.next a = some t) :
    t.thread = s.thread ∧ t.received = s.received ∧
    ∀ s' : ReceiverSystem, s'.egress = s.egress → s'.stopRequested = s.stopRequested →
      ∃ t', s'.next a = some t' ∧ t'.egress = t.egress ∧ t'.stopRequested = t.stopRequested ∧
        t'.thread = s'.thread ∧ t'.received = s'.received := by
  cases a with
  | step answer => exact absurd rfl (ha answer)
  | requestStop =>
      obtain rfl := Option.some.inj hnext
      refine ⟨rfl, rfl, ?_⟩
      intro s' hegress hstop
      exact ⟨_, rfl, hegress, rfl, rfl, rfl⟩
  | consumer a =>
      simp only [next] at hnext
      split at hnext
      case isFalse => cases hnext
      case isTrue hactor =>
        obtain ⟨egress, hegress, rfl⟩ := Option.map_eq_some_iff.mp hnext
        refine ⟨rfl, rfl, ?_⟩
        intro s' hsame hstop
        refine ⟨{ s' with egress }, ?_, rfl, hstop, rfl, rfl⟩
        simp only [next]
        rw [if_pos hactor, hsame, hegress]
        rfl

/-- Two receivers that are alike, with the same egress ring, make the same step. -/
theorem stepThread_alike (hegress : s'.egress = s.egress)
    (hstop : s'.stopRequested = s.stopRequested)
    (halike : s.thread.Alike SameDelivery s'.thread) (hnext : s.stepThread answer = some t) :
    ∃ t', s'.stepThread answer = some t' ∧ t'.egress = t.egress ∧
      t'.stopRequested = t.stopRequested ∧ t.thread.Alike SameDelivery t'.thread := by
  rcases Receiver.run_respects.pending halike with ⟨hnone, -⟩ |
    ⟨op, resume, resume', hpending, hpending', hresume⟩
  · rw [stepThread, hnone] at hnext
    cases hnext
  rw [stepThread, hpending] at hnext
  rw [stepThread, hpending']
  cases op with
  | loadStop =>
      obtain rfl := Option.some.inj hnext
      refine ⟨_, rfl, hegress, hstop, ?_⟩
      rw [hstop]
      exact hresume _
  | receive =>
      simp only at hnext ⊢
      split at hnext
      case isFalse => cases hnext
      case isTrue hfits =>
        obtain rfl := Option.some.inj hnext
        rw [if_pos hfits]
        exact ⟨_, rfl, hegress, hstop, hresume _⟩
  | tryPublish event =>
      simp only at hnext ⊢
      rw [hegress]
      split at hnext
      case h_1 egress heq =>
        obtain rfl := Option.some.inj hnext
        exact ⟨_, rfl, rfl, hstop, halike⟩
      case h_2 egress result heq =>
        obtain rfl := Option.some.inj hnext
        exact ⟨_, rfl, rfl, hstop, hresume _⟩
      case h_3 => cases hnext
  | closePublication =>
      simp only at hnext ⊢
      rw [hegress]
      split at hnext
      case h_1 egress heq =>
        obtain rfl := Option.some.inj hnext
        exact ⟨_, rfl, rfl, hstop, halike⟩
      case h_2 egress result heq =>
        obtain rfl := Option.some.inj hnext
        exact ⟨_, rfl, rfl, hstop, hresume _⟩
      case h_3 => cases hnext

/-- A step of the thread either goes on with an answer or lets a call on the ring go on. -/
theorem stepThread_cases {op : ReceiverOp} {resume : op.Res → Thread receiverAccess Receiver}
    (hpending : Receiver.run.pending s.thread = some ⟨op, resume⟩)
    (hnext : s.stepThread answer = some t) :
    t.received = s.received ++ (if op = .receive then [answer] else []) ∧
      ((t.thread = s.thread ∧ Receiver.asks op = false) ∨ ∃ r, t.thread = resume r) := by
  rw [stepThread, hpending] at hnext
  cases op with
  | loadStop =>
      obtain rfl := Option.some.inj hnext
      exact ⟨(List.append_nil _).symm, .inr ⟨_, rfl⟩⟩
  | receive =>
      simp only at hnext
      split at hnext
      case isFalse => cases hnext
      case isTrue =>
        obtain rfl := Option.some.inj hnext
        exact ⟨rfl, .inr ⟨_, rfl⟩⟩
  | tryPublish event =>
      simp only at hnext
      split at hnext
      case h_1 =>
        obtain rfl := Option.some.inj hnext
        exact ⟨(List.append_nil _).symm, .inl ⟨rfl, rfl⟩⟩
      case h_2 =>
        obtain rfl := Option.some.inj hnext
        exact ⟨(List.append_nil _).symm, .inr ⟨_, rfl⟩⟩
      case h_3 => cases hnext
  | closePublication =>
      simp only at hnext
      split at hnext
      case h_1 =>
        obtain rfl := Option.some.inj hnext
        exact ⟨(List.append_nil _).symm, .inl ⟨rfl, rfl⟩⟩
      case h_2 =>
        obtain rfl := Option.some.inj hnext
        exact ⟨(List.append_nil _).symm, .inr ⟨_, rfl⟩⟩
      case h_3 => cases hnext

/-- A turn begins. -/
theorem stepThread_head {l : Receiver} (hl : s.thread = .head l) :
    s.stepThread answer = some { s with
      thread := if s.stopRequested = true then Loop.settleAfter (Receiver.run.after l)
        else .turn l.waiting } := by
  rw [stepThread, hl]
  cases s.stopRequested with
  | true => rfl
  | false => rfl

/-- The socket answers. -/
theorem stepThread_waiting {l : Receiver} (hl : s.thread = .turn l.waiting) :
    s.stepThread answer =
      if fits answer = true then
        some { s with
          received := s.received ++ [answer]
          thread := Receiver.run.settleTurn (Receiver.receive answer l) }
      else none := by
  rw [stepThread, hl]
  rfl

/-- The state `s'` of a run without the datagrams of `drop`, beside the state `s` of the run
with them. In a turn that is removed `s'` stays behind at the head of its loop. -/
structure Shadow (drop : Nat → Bool) (removing : Bool) (s s' : ReceiverSystem) : Prop where
  egress : s'.egress = s.egress
  stopRequested : s'.stopRequested = s.stopRequested
  received : s'.received = keep drop s.received
  beside : removing = false → s.thread.Alike SameDelivery s'.thread ∧
    (Receiver.Past s.thread ∨
      ∃ l : Receiver, s.thread = .turn l.waiting ∧ drop s.received.length = false)
  behind : removing = true → drop s.received.length = true ∧
    ∃ l l' : Receiver, SameDelivery l l' ∧ s.thread = .turn l.waiting ∧ s'.thread = .head l'

/-- A step that both make. -/
theorem Shadow.step (h : Shadow drop false s s') (hnext : s.stepThread answer = some t)
    (hhead : ∀ l, s.thread = .head l → s.stopRequested = false →
      drop s.received.length = false) :
    ∃ t', s'.stepThread answer = some t' ∧ Shadow drop false t t' := by
  obtain ⟨halike, hplace⟩ := h.beside rfl
  obtain ⟨t', hnext', hegress, hstop, halike'⟩ :=
    stepThread_alike h.egress h.stopRequested halike hnext
  refine ⟨t', hnext', ?_⟩
  rcases Receiver.run_respects.pending halike with ⟨hnone, -⟩ |
    ⟨op, resume, resume', hpending, hpending', -⟩
  · rw [stepThread, hnone] at hnext
    cases hnext
  obtain ⟨hreceived, hthread⟩ := stepThread_cases hpending hnext
  obtain ⟨hreceived', -⟩ := stepThread_cases hpending' hnext'
  have hkeep : op ≠ .receive ∨ drop s.received.length = false →
      t'.received = keep drop t.received := by
    intro hkept
    rw [hreceived, hreceived', h.received]
    by_cases hop : op = .receive
    · rw [if_pos hop, keep_append, hkept.resolve_left (not_not.mpr hop)]
      rfl
    · rw [if_neg hop, List.append_nil, List.append_nil]
  obtain hpast | ⟨l, hwaiting, hdrop⟩ := hplace
  · obtain ⟨l, hl⟩ | ⟨hop, hresume⟩ := hpast.pending hpending
    · -- A turn begins: with the stop flag set the loop ends, otherwise the socket is next.
      rw [stepThread_head hl] at hnext
      rw [hl] at hpending
      obtain rfl : .loadStop = op := congrArg Sigma.fst (Option.some.inj hpending)
      obtain rfl := Option.some.inj hnext
      refine ⟨hegress, hstop, hkeep (.inl (by simp)), fun _ => ⟨halike', ?_⟩, fun hremoving => ?_⟩
      · cases hrequested : s.stopRequested with
        | true => exact .inl (Receiver.settleAfter_past (Receiver.after_avoids l))
        | false => exact .inr ⟨l, rfl, hhead l hl hrequested⟩
      · cases hremoving
    · have hne : op ≠ .receive := by
        rintro rfl
        cases hop
      have hpast' : Receiver.Past t.thread := by
        obtain ⟨hsame, -⟩ | ⟨r, hr⟩ := hthread
        · rw [hsame]
          exact hpast
        · rw [hr]
          exact hresume r
      exact ⟨hegress, hstop, hkeep (.inl hne), fun _ => ⟨halike', .inl hpast'⟩,
        fun hremoving => by cases hremoving⟩
  · rw [hwaiting] at hpending
    have hpair := Option.some.inj hpending
    obtain rfl : .receive = op := congrArg Sigma.fst hpair
    have hpast : Receiver.Past t.thread := by
      obtain ⟨-, hop⟩ | ⟨r, hr⟩ := hthread
      · cases hop
      · rw [hr, ← eq_of_heq (Sigma.mk.inj hpair).2]
        exact Receiver.settleTurn_past (Receiver.receive_avoids r l)
    exact ⟨hegress, hstop, hkeep (.inr hdrop), fun _ => ⟨halike', .inl hpast⟩,
      fun hremoving => by cases hremoving⟩


/-- A turn begins that is removed. -/
theorem Shadow.remove {l : Receiver} (h : Shadow drop false s s') (hl : s.thread = .head l)
    (hrunning : s.stopRequested = false) (hdrop : drop s.received.length = true)
    (hnext : s.stepThread answer = some t) : Shadow drop true t s' := by
  obtain ⟨halike, -⟩ := h.beside rfl
  rw [stepThread_head hl, hrunning] at hnext
  obtain rfl := Option.some.inj hnext
  rw [hl] at halike
  generalize hbehind : s'.thread = thread at halike
  cases halike with
  | head hsame =>
      exact
        { egress := h.egress
          stopRequested := h.stopRequested.trans hrunning
          received := h.received
          beside := fun hremoving => by cases hremoving
          behind := fun _ => ⟨hdrop, l, _, hsame, rfl, hbehind⟩ }

/-- The datagram of a removed turn arrives and is rejected. -/
theorem Shadow.arrive (h : Shadow drop true s s')
    (hcounted : Receiver.counterContract.Holds s.thread s.history)
    (hnext : s.stepThread answer = some t) (hreject : RejectedAt t.received s.received.length) :
    Shadow drop false t s' := by
  obtain ⟨hdrop, l, l', hsame, hwaiting, hbehind⟩ := h.behind rfl
  rw [stepThread_waiting hwaiting] at hnext
  split at hnext
  case isFalse => cases hnext
  case isTrue =>
    obtain rfl := Option.some.inj hnext
    rw [hwaiting] at hcounted
    obtain ⟨⟨hdetector, -⟩, -⟩ := hcounted
    obtain ⟨r, hr, hrejects⟩ := hreject
    simp only [List.getElem?_concat_length, Option.some.injEq] at hr
    subst hr
    rw [List.take_left, ← show l.gapDetector = (filtered s.received).2 from hdetector]
      at hrejects
    obtain ⟨l'', hreceive, hsame'⟩ := Receiver.receive_rejected hrejects
    rw [hreceive]
    exact
      { egress := h.egress
        stopRequested := h.stopRequested
        received := by
          rw [keep_append, hdrop, if_pos rfl, List.append_nil]
          exact h.received
        beside := fun _ => by
          refine ⟨?_, .inl trivial⟩
          rw [hbehind]
          exact .head (hsame'.trans hsame)
        behind := fun hremoving => by cases hremoving }

/-- The others move; both make the step. -/
theorem Shadow.other {removing : Bool} (h : Shadow drop removing s s')
    (ha : ∀ answer, a ≠ .step answer) (hnext : s.next a = some t) :
    ∃ t', s'.next a = some t' ∧ Shadow drop removing t t' := by
  obtain ⟨hthread, hreceived, hlike⟩ := next_other ha hnext
  obtain ⟨t', hnext', hegress, hstop, hthread', hreceived'⟩ :=
    hlike s' h.egress h.stopRequested
  refine ⟨t', hnext', hegress, hstop, ?_, ?_, ?_⟩
  · rw [hreceived, hreceived']
    exact h.received
  · rw [hthread, hthread', hreceived]
    exact h.beside
  · rw [hthread, hthread', hreceived]
    exact h.behind

section Without

variable {removing : Bool} {rest : List ReceiverAction}

theorem without_other (ha : ∀ answer, a ≠ .step answer) (hnext : s.next a = some t) :
    s.without drop removing (a :: rest) = a :: t.without drop removing rest := by
  simp only [without, hnext]
  cases a with
  | step answer => exact absurd rfl (ha answer)
  | requestStop => rfl
  | consumer a => rfl

theorem without_head {l : Receiver} (hl : s.thread = .head l)
    (hnext : s.next (.step answer) = some t) :
    s.without drop removing (.step answer :: rest) =
      if (!s.stopRequested && drop s.received.length) = true then t.without drop true rest
      else .step answer :: t.without drop false rest := by
  simp only [without, hnext, hl]

theorem without_step (hl : ∀ l, s.thread ≠ .head l) (hnext : s.next (.step answer) = some t) :
    s.without drop removing (.step answer :: rest) =
      if removing = true then t.without drop false rest
      else .step answer :: t.without drop false rest := by
  simp only [without, hnext]

end Without

/-- One action of the run, in the run without the datagrams of `drop`. -/
theorem Shadow.advance {removing : Bool} (h : Shadow drop removing s s')
    (hcounted : Receiver.counterContract.Holds s.thread s.history)
    (hnext : s.next a = some t)
    (hdrop : s.received.length < t.received.length → drop s.received.length = true →
      RejectedAt t.received s.received.length) :
    ∃ removing',
      ((∀ rest, s.without drop removing (a :: rest) = t.without drop removing' rest) ∧
        Shadow drop removing' t s') ∨
      ((∀ rest, s.without drop removing (a :: rest) = a :: t.without drop removing' rest) ∧
        ∃ t', s'.next a = some t' ∧ Shadow drop removing' t t') := by
  by_cases ha : ∀ answer, a ≠ .step answer
  · exact ⟨removing, .inr ⟨fun rest => without_other ha hnext, h.other ha hnext⟩⟩
  push Not at ha
  obtain ⟨answer, rfl⟩ := ha
  by_cases hhead : ∃ l, s.thread = .head l
  · obtain ⟨l, hl⟩ := hhead
    obtain rfl : removing = false := by
      cases removing with
      | false => rfl
      | true =>
          obtain ⟨-, l', l'', -, hwaiting, -⟩ := h.behind rfl
          rw [hl] at hwaiting
          cases hwaiting
    by_cases hremove : (!s.stopRequested && drop s.received.length) = true
    · obtain ⟨hrunning, hdropped⟩ := Bool.and_eq_true_iff.mp hremove
      refine ⟨true, .inl ⟨?_, ?_⟩⟩
      · intro rest
        rw [without_head hl hnext, if_pos hremove]
      · exact h.remove hl (by simpa using hrunning) hdropped hnext
    · refine ⟨false, .inr ⟨?_, ?_⟩⟩
      · intro rest
        rw [without_head hl hnext, if_neg hremove]
      · apply h.step hnext
        intro _ _ hrunning
        rw [hrunning] at hremove
        exact Bool.eq_false_iff.mpr hremove
  · have hl : ∀ l, s.thread ≠ .head l := fun l hl => hhead ⟨l, hl⟩
    cases removing with
    | false =>
        refine ⟨false, .inr ⟨?_, ?_⟩⟩
        · intro rest
          rw [without_step hl hnext, if_neg Bool.false_ne_true]
        · exact h.step hnext fun l hl' => absurd hl' (hl l)
    | true =>
        refine ⟨false, .inl ⟨?_, ?_⟩⟩
        · intro rest
          rw [without_step hl hnext, if_pos rfl]
        · obtain ⟨hdropped, l, l', -, hwaiting, -⟩ := h.behind rfl
          refine h.arrive hcounted hnext (hdrop ?_ hdropped)
          have hstep := hnext
          rw [ReceiverSystem.next, stepThread_waiting hwaiting] at hstep
          split at hstep
          case isFalse => cases hstep
          case isTrue =>
            obtain rfl := Option.some.inj hstep
            simp

/-- What was received is a prefix of what is received in the end. -/
theorem received_grows {actions : List ReceiverAction}
    (hrun : runActions next anyAction s actions = some t) : s.received <+: t.received := by
  induction actions generalizing s with
  | nil =>
      obtain rfl := Option.some.inj hrun
      exact List.prefix_rfl
  | cons a rest ih =>
      obtain ⟨u, hnext, hrest⟩ := exists_of_runActions_cons hrun
      refine List.IsPrefix.trans ?_ (ih hrest)
      obtain hsame | ⟨answer, -, -, hgrows⟩ := next_received hnext
      · rw [hsame]
      · rw [hgrows]
        exact List.prefix_append _ _

/-- A whole run, and the run without the datagrams of `drop`. -/
theorem Shadow.run {removing : Bool} {actions : List ReceiverAction}
    (hinit : Initialized g handle m) (hreaches : Reaches next anyAction (initial m handle) s)
    (h : Shadow drop removing s s') (hrun : runActions next anyAction s actions = some t)
    (hdrop : ∀ i, drop i = true → RejectedAt t.received i) :
    ∃ removing' t',
      runActions next anyAction s' (s.without drop removing actions) = some t' ∧
      Shadow drop removing' t t' := by
  induction actions generalizing s s' removing with
  | nil =>
      obtain rfl := Option.some.inj hrun
      exact ⟨removing, s', rfl, h⟩
  | cons a rest ih =>
      obtain ⟨u, hnext, hrest⟩ := exists_of_runActions_cons hrun
      have hreaches' : Reaches next anyAction (initial m handle) u :=
        hreaches.tail ⟨a, trivial, hnext⟩
      have hreject : s.received.length < u.received.length → drop s.received.length = true →
          RejectedAt u.received s.received.length := fun hlt hdropped =>
        rejectedAt_of_grows (received_grows hrest) hlt (hdrop _ hdropped)
      obtain ⟨removing', ⟨hwithout, hshadow⟩ | ⟨hwithout, u', hnext', hshadow⟩⟩ :=
        h.advance (counted hinit hreaches) hnext hreject
      · rw [hwithout]
        exact ih hreaches' hshadow hrest
      · rw [hwithout, runActions_cons trivial hnext']
        exact ih hreaches' hshadow hrest

/-- Everything that was received fits the buffer. -/
theorem received_fits (hreaches : Reaches next anyAction (initial m handle) s) :
    ∀ r ∈ s.received, fits r = true := by
  apply hreaches.invariant (I := fun s => ∀ r ∈ s.received, fits r = true)
  · intro r hr
    cases hr
  · intro u a v hfits _ hnext r hr
    obtain hsame | ⟨answer, -, hanswer, hgrows⟩ := next_received hnext
    · rw [hsame] at hr
      exact hfits r hr
    · rw [hgrows] at hr
      obtain hold | hnew := List.mem_append.mp hr
      · exact hfits r hold
      · rw [List.mem_singleton.mp hnew]
        exact hanswer

/-- What two runs have in common that deliver the same: the egress ring with the logs of all
calls on it, and the receiver's thread up to the counters of rejected datagrams. -/
structure SameOutcome (s s' : ReceiverSystem) : Prop where
  egress : s'.egress = s.egress
  stopRequested : s'.stopRequested = s.stopRequested
  thread : s.thread.Alike SameDelivery s'.thread

/-- They go on side by side. -/
theorem SameOutcome.next (h : SameOutcome s s') (hnext : s.next a = some t) :
    ∃ t', s'.next a = some t' ∧ SameOutcome t t' := by
  by_cases ha : ∀ answer, a ≠ .step answer
  · obtain ⟨hthread, -, hlike⟩ := next_other ha hnext
    obtain ⟨t', hnext', hegress, hstop, hthread', -⟩ := hlike s' h.egress h.stopRequested
    refine ⟨t', hnext', hegress, hstop, ?_⟩
    rw [hthread, hthread']
    exact h.thread
  · push Not at ha
    obtain ⟨answer, rfl⟩ := ha
    obtain ⟨t', hnext', hegress, hstop, halike⟩ :=
      stepThread_alike h.egress h.stopRequested h.thread hnext
    exact ⟨t', hnext', hegress, hstop, halike⟩

theorem SameOutcome.run {actions : List ReceiverAction} (h : SameOutcome s s')
    (hrun : runActions ReceiverSystem.next anyAction s actions = some t) :
    ∃ t', runActions ReceiverSystem.next anyAction s' actions = some t' ∧
      SameOutcome t t' :=
  runActions_related (fun _ _ _ _ hsame hnext => hsame.next hnext) h hrun

/-- Actions of the others see nothing of the thread. -/
theorem runActions_others {actions : List ReceiverAction}
    (hothers : ∀ a ∈ actions, ∀ answer, a ≠ .step answer)
    (hrun : runActions next anyAction s actions = some t) :
    t.thread = s.thread ∧ t.received = s.received ∧
    ∀ s' : ReceiverSystem, s'.egress = s.egress → s'.stopRequested = s.stopRequested →
      ∃ t', runActions next anyAction s' actions = some t' ∧ t'.egress = t.egress ∧
        t'.stopRequested = t.stopRequested ∧ t'.thread = s'.thread ∧
        t'.received = s'.received := by
  induction actions generalizing s with
  | nil =>
      obtain rfl := Option.some.inj hrun
      refine ⟨rfl, rfl, ?_⟩
      intro s' hegress hstop
      exact ⟨s', rfl, hegress, hstop, rfl, rfl⟩
  | cons a rest ih =>
      obtain ⟨u, hnext, hrest⟩ := exists_of_runActions_cons hrun
      obtain ⟨hthread, hreceived, hlike⟩ := next_other (hothers a List.mem_cons_self) hnext
      obtain ⟨hthread', hreceived', hlike'⟩ :=
        ih (fun b hb => hothers b (List.mem_cons_of_mem a hb)) hrest
      refine ⟨hthread'.trans hthread, hreceived'.trans hreceived, ?_⟩
      intro s' hegress hstop
      obtain ⟨u', hnext', hegress, hstop, hsame, hkept⟩ := hlike s' hegress hstop
      obtain ⟨t', hrun', hegress, hstop, hsame', hkept'⟩ := hlike' u' hegress hstop
      rw [runActions_cons trivial hnext']
      exact ⟨t', hrun', hegress, hstop, hsame'.trans hsame, hkept'.trans hkept⟩

/-- `actions'` is `actions` with one more turn, in which the socket returns once more a
datagram that it returned before; the others may move between its two steps. -/
inductive InsertsCopy (start : ReceiverSystem) :
    List ReceiverAction → List ReceiverAction → Prop where
  | turn {before between after : List ReceiverAction} {s : ReceiverSystem} {l : Receiver}
      {r : Received} (ignored : Received) :
      runActions next anyAction start before = some s → s.thread = .head l →
      s.stopRequested = false → r ∈ s.received → arrived r = true →
      (∀ a ∈ between, ∀ answer, a ≠ .step answer) →
      InsertsCopy start (before ++ (between ++ after))
        (before ++ (.step ignored :: (between ++ .step r :: after)))

/-- The turn that receives the copy changes nothing but counters. -/
theorem InsertsCopy.same {actions actions' : List ReceiverAction}
    (hinit : Initialized g handle m) (h : InsertsCopy (initial m handle) actions actions')
    (hrun : runActions next anyAction (initial m handle) actions = some t) :
    ∃ t', runActions next anyAction (initial m handle) actions' = some t' ∧
      SameOutcome t t' := by
  obtain @⟨before, between, after, u, l, r, ignored, hbefore, hhead, hrunning, hmem, harrived,
    hothers⟩ := h
  have hreaches := reaches_of_runActions hbefore
  have hcounted := counted hinit hreaches
  rw [hhead] at hcounted
  have hdetector : l.gapDetector = (filtered u.received).2 := hcounted.1
  have hrejects : Rejects l.gapDetector r := by
    rw [hdetector]
    exact rejects_again hmem harrived
  obtain ⟨l', hreceive, hsame⟩ := Receiver.receive_rejected hrejects
  rw [runActions_append, hbefore, Option.bind_some, runActions_append] at hrun
  obtain ⟨v, hbetween, hafter⟩ := Option.bind_eq_some_iff.mp hrun
  obtain ⟨hthread, -, hlike⟩ := runActions_others hothers hbetween
  obtain ⟨v', hbetween', hegress, hstop, hthread', -⟩ :=
    hlike { u with thread := .turn l.waiting } rfl rfl
  have hbegin : u.next (.step ignored) = some { u with thread := .turn l.waiting } := by
    rw [next, stepThread_head hhead, hrunning]
    rfl
  have hcopy : v'.next (.step r) =
      some { v' with received := v'.received ++ [r], thread := .head l' } := by
    rw [next, stepThread_waiting hthread', if_pos (received_fits hreaches r hmem), hreceive]
    rfl
  rw [runActions_append, hbefore, Option.bind_some, runActions_cons trivial hbegin,
    runActions_append, hbetween', Option.bind_some, runActions_cons trivial hcopy]
  refine SameOutcome.run ⟨hegress, hstop, ?_⟩ hafter
  rw [hthread, hhead]
  exact .head hsame.symm

/-- Rejected datagrams do not interfere with delivery: without any of them, and without the
turns that received them, the run goes on with the same egress ring, and the thread has the
same counters of what is delivered. Every later copy of a datagram is rejected, and a run can
be continued by a turn that receives one. -/
theorem rejected_do_not_interfere {actions : List ReceiverAction}
    (hinit : Initialized g handle m)
    (hrun : runActions next anyAction (initial m handle) actions = some s) :
    (∀ drop : Nat → Bool, (∀ i, drop i = true → RejectedAt s.received i) →
      ∃ s', runActions next anyAction (initial m handle)
          ((initial m handle).without drop false actions) = some s' ∧
        s'.received = keep drop s.received ∧ SameOutcome s s' ∧
        ∀ l, s.thread.AtRest l → ∃ l', s'.thread.AtRest l' ∧ SameDelivery l l') ∧
    (∀ i j r, j < i → s.received[j]? = some r → s.received[i]? = some r → arrived r = true →
      RejectedAt s.received i) ∧
    ∀ actions', InsertsCopy (initial m handle) actions actions' →
      ∃ s', runActions next anyAction (initial m handle) actions' = some s' ∧
        SameOutcome s s' ∧
        ∀ l, s.thread.AtRest l → ∃ l', s'.thread.AtRest l' ∧ SameDelivery l l' := by
  refine ⟨?_, ?_, ?_⟩
  · intro drop hdrop
    have hstart : Shadow drop false (initial m handle) (initial m handle) :=
      { egress := rfl
        stopRequested := rfl
        received := rfl
        beside := fun _ => ⟨.head (by constructor <;> rfl), .inl trivial⟩
        behind := fun hremoving => by cases hremoving }
    obtain ⟨removing, s', hrun', hshadow⟩ := hstart.run hinit .refl hrun hdrop
    have hremoving : removing = false := by
      cases removing with
      | false => rfl
      | true => exact absurd (hdrop _ (hshadow.behind rfl).1) (not_rejectedAt_length _)
    have halike := (hshadow.beside hremoving).1
    exact ⟨s', hrun', hshadow.received, ⟨hshadow.egress, hshadow.stopRequested, halike⟩,
      fun l hrest => halike.atRest hrest⟩
  · intro i j r hlater hj hi harrived
    exact copy_rejected hlater hj hi harrived
  · intro actions' hinserts
    obtain ⟨s', hrun', hsame⟩ := hinserts.same hinit hrun
    exact ⟨s', hrun', hsame, fun l hrest => hsame.thread.atRest hrest⟩

/-- A datagram arrives twice; then the receiver is stopped. -/
def copiedActions : List ReceiverAction :=
  let step := ReceiverAction.step (.ok (DecodedDataView.wire ⟨7, 1, sampleEvent⟩))
  List.replicate 13 step ++ .requestStop :: List.replicate 3 step

theorem rejected_do_not_interfere_sample :
    ∃ s s', runActions next anyAction (initial sampleMemory sampleHandle) copiedActions =
        some s ∧
      runActions next anyAction (initial sampleMemory sampleHandle)
        ((initial sampleMemory sampleHandle).without (fun i => i == 1) false copiedActions) =
          some s' ∧
      s.received.length = 2 ∧ s'.received.length = 1 ∧ s'.egress = s.egress := by
  let r : Received := .ok (DecodedDataView.wire ⟨7, 1, sampleEvent⟩)
  have hsample : (runActions next anyAction (initial sampleMemory sampleHandle)
      copiedActions).map received = some [r, r] := by
    decide +kernel
  obtain ⟨s, hs, hreceived⟩ := Option.map_eq_some_iff.mp hsample
  have hdrop : ∀ i, (i == 1) = true → RejectedAt s.received i := by
    intro i hi
    obtain rfl := eq_of_beq hi
    rw [hreceived]
    exact copy_rejected (j := 0) (r := r) (by decide) rfl rfl rfl
  obtain ⟨s', hs', hkept, hsame, -⟩ :=
    (rejected_do_not_interfere initialized_sample hs).1 (fun i => i == 1) hdrop
  refine ⟨s, s', hs, hs', ?_, ?_, hsame.egress⟩
  · rw [hreceived]
    rfl
  · rw [hkept, hreceived]
    rfl

end ReceiverSystem

end EventEngine
