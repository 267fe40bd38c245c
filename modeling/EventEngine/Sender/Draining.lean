import EventEngine.Ring.Queue
import EventEngine.Sender.TurnCount

/-!
# A sender drains a closed ring

Once the producer has stopped and the ring is closed, every turn of the sender takes one of the
events that are left, apart from the last one, which is answered `Closed`. The number of turns
that may still begin, with what is left of the current turn and of the current call, is the
rank by which the run ends.
-/

namespace EventEngine

open Concurrency Memory Protocol Transport EventEngine.Ring

/-- The actions after the close: the producer has stopped. -/
def SenderAction.afterClose : SenderAction → Bool
  | .step _ => true
  | .requestStop => true
  | .ingress a => decide (a.actor ≠ .producer)
  | _ => false

namespace SenderSystem

variable {g : Geometry} {start : Sender} {before base begun : Nat} {hist : List Event}
variable {fresh : Prop} {closed stopped : Bool} {s t : SenderSystem} {ingress : Ring.System}
variable {m : Span} {handle : SpscRing} {sent : Bool} {a : SenderAction}

/-- What a sender does from the close on: `hist` are all events that were published and
`most` bounds the answers `Empty`. If `calm`, the run began after the close and nobody else
requests a stop. -/
structure Draining (g : Geometry) (start : Sender) (before base : Nat) (hist : List Event)
    (fresh calm : Prop) (most : Nat) (begun : Nat) (s : SenderSystem) : Prop where
  ok : Ok g start before hist s
  turning : ∃ closed stopped, Turning start base fresh begun closed stopped s ∧
    (calm → closed = true → Drained s.ingress.memory)
  closed : stateOf s.ingress.memory = stateClosed
  producer : s.ingress.producer.running = none
  empties : s.ingress.consumer.empties + s.ingress.consumer.early ≤ most
  calm : calm → most ≤ s.ingress.consumer.empties ∧
    (s.stopRequested = true → exhausts start base s)

/-- What an action after the close does to the ring. -/
structure Quiet (s t : Ring.System) : Prop where
  read : readPos s.memory ≤ readPos t.memory
  closed : stateOf s.memory = stateClosed → stateOf t.memory = stateClosed
  producer : SameCalls s.producer t.producer
  empties : stateOf s.memory = stateClosed →
    t.consumer.empties + t.consumer.early ≤ s.consumer.empties + s.consumer.early
  grows : s.consumer.empties ≤ t.consumer.empties

theorem Quiet.of_next {b : Ring.Action}
    (hring : Ring.System.Ok ⟨g, 0, True, False⟩ [] hist s.ingress) (hactor : b.actor ≠ .producer)
    (hnext : s.ingress.next b = some ingress) : Quiet s.ingress ingress := by
  obtain ⟨hist', hring', hlater⟩ := Ring.System.next_ok hring (fun hquiet => hquiet.elim) hnext
  obtain ⟨hothers, -⟩ := Ring.System.next_cases hnext
  exact
    { read := hlater.read
      closed := hlater.closed
      producer := hothers .producer (Ne.symm hactor)
      empties := fun hclosed => (LogMoves.next hnext).empties hclosed hring'.consumer.log
      grows := (LogMoves.next hnext).empties_le }

/-- A step of a call that the thread waits for. -/
theorem Quiet.of_operate {call : Call} {reply : Option Reply}
    (hring : Ring.System.Ok ⟨g, 0, True, False⟩ [] hist s.ingress)
    (hoperate : s.ingress.operate .consumer call = some (ingress, reply)) :
    Quiet s.ingress ingress := by
  obtain ⟨u, hu, heq⟩ := Option.map_eq_some_iff.mp hoperate
  obtain ⟨rfl, -⟩ := Prod.mk.inj heq
  refine Quiet.of_next hring ?_ hu
  rw [Ring.System.operation_actor]
  simp

theorem Quiet.refl (ring : Ring.System) : Quiet ring ring :=
  ⟨Nat.le_refl _, id, .refl _, fun _ => Nat.le_refl _, Nat.le_refl _⟩

theorem next_quiet (hring : Ring.System.Ok ⟨g, 0, True, False⟩ [] hist s.ingress)
    (ha : a.afterClose = true) (hnext : s.next a = some t) : Quiet s.ingress t.ingress := by
  cases a with
  | step sent =>
      simp only [SenderSystem.next, stepThread] at hnext
      split at hnext
      case h_1 => cases hnext
      case h_4 =>
        split at hnext
        case h_1 hoperate => obtain rfl := Option.some.inj hnext; exact .of_operate hring hoperate
        case h_2 hoperate => obtain rfl := Option.some.inj hnext; exact .of_operate hring hoperate
        case h_3 => cases hnext
      case h_6 =>
        split at hnext
        case h_1 hoperate => obtain rfl := Option.some.inj hnext; exact .of_operate hring hoperate
        case h_2 hoperate => obtain rfl := Option.some.inj hnext; exact .of_operate hring hoperate
        case h_3 => cases hnext
      all_goals
        obtain rfl := Option.some.inj hnext
        exact .refl _
  | requestStop => obtain rfl := Option.some.inj hnext; exact .refl _
  | run => cases ha
  | move => cases ha
  | ingress b =>
      simp only [SenderSystem.next] at hnext
      split at hnext
      case isTrue => cases hnext
      case isFalse =>
        obtain ⟨ingress, hingress, rfl⟩ := Option.map_eq_some_iff.mp hnext
        exact .of_next hring (of_decide_eq_true ha) hingress

variable {calm : Prop} {most : Nat}

theorem Draining.next (hlimit : start.maxDatagramBytes.toNat ≤ maxPacketBytes)
    (h : Draining g start before base hist fresh calm most begun s)
    (ha : a.afterClose = true) (hcalm : calm → a ≠ .requestStop) (hnext : s.next a = some t) :
    Draining g start before base hist fresh calm most
      (begun + (s.beginsTurn a).toNat) t := by
  have hring := h.ok.ring
  obtain ⟨hist', hok, -⟩ := next_ok hlimit h.ok hnext
  have hquiet := next_quiet hring ha hnext
  obtain rfl : hist' = hist := hring.hist_eq hok.ring hquiet.producer
  obtain ⟨closed, stopped, hturning, hdrained⟩ := h.turning
  have hrun : a ≠ .run := by
    rintro rfl
    cases ha
  have hmove : a ≠ .move := by
    rintro rfl
    cases ha
  have hturned := next_turned h.ok hturning hrun hmove hnext
  obtain ⟨closed', stopped', hclosing, hturning'⟩ := hturned.turning
  refine
    { ok := hok
      turning := ⟨closed', stopped', hturning', ?_⟩
      closed := hquiet.closed h.closed
      producer := hquiet.producer.idle h.producer
      empties := Nat.le_trans (hquiet.empties h.closed) h.empties
      calm := ?_ }
  · intro hc htrue
    obtain hbefore | hnow := hclosing htrue
    · have hempty := (hdrained hc hbefore).2
      have hwrite := hring.ring.write_eq
      have hwrite' := hok.ring.ring.write_eq
      have hle := hok.ring.ring.read_le
      have hread := hquiet.read
      exact ⟨hquiet.closed h.closed, by omega⟩
    · exact hnow
  · intro hc
    obtain ⟨hleast, hexhausts⟩ := h.calm hc
    refine ⟨Nat.le_trans hleast hquiet.grows, ?_⟩
    intro hstop
    have hreleases := hring.consumerLog.releases
    have hreleases' := hok.ring.consumerLog.releases
    have hread := hquiet.read
    obtain hrequest | hbefore | hnow := hturned.stop hstop
    · exact absurd hrequest (hcalm hc)
    · have hbound := hexhausts hbefore
      unfold exhausts at hbound ⊢
      omega
    · exact hnow

/-- The turns that may begin are limited by the events that were published. -/
theorem Draining.begun_le (h : Draining g start before base hist fresh calm most begun s) :
    begun ≤ hist.length + most + 1 := by
  obtain ⟨closed, stopped, hturning, -⟩ := h.turning
  have hbegun := (hturning.bounds h.ok).2
  have hreleases := h.ok.ring.consumerLog.releases
  have hwrite := h.ok.ring.ring.write_eq
  have hle := h.ok.ring.ring.read_le
  have hempties := h.empties
  simp only at hreleases hwrite
  omega

/-- The thread can always make its next step, whatever the outcome of a send. -/
theorem Ok.can_step (hok : Ok g start before hist s) (hwaits : Sender.run.Waits s.thread)
    (hreturned : s.thread.hasReturned = false) (sent : Bool) :
    ∃ t, s.stepThread sent = some t := by
  obtain hpending | hdone := hwaits
  · obtain ⟨⟨op, resume⟩, hpending⟩ := Option.isSome_iff_exists.mp hpending
    have hreply : ∀ {call ingress reply}, op.call = some call →
        s.ingress.operate .consumer call = some (ingress, some reply) →
        ∃ e, EntryOk ⟨g, 0, True, False⟩ e ∧ e.call = call ∧ e.reply = reply := by
      intro call ingress reply hop hoperate
      obtain ⟨hist', -, hring, hoperated⟩ := hok.operates hpending hop hoperate
      generalize hsome : some reply = answer at hoperated
      cases hoperated with
      | waits r hr hcall hentry hcompleted => cases hsome
      | returns e hidle hcompleted hcall hentry hfinish =>
          refine ⟨e, hring.consumer.log e ?_, hcall, (Option.some.inj hsome).symm⟩
          rw [hcompleted]
          exact List.mem_cons_self
    simp only [stepThread, hpending]
    cases op with
    | loadStop => exact ⟨_, rfl⟩
    | requestStop => exact ⟨_, rfl⟩
    | readByte offset => exact ⟨_, rfl⟩
    | sendTo datagram destination => exact ⟨_, rfl⟩
    | tryAcquire =>
        obtain ⟨ingress, reply, hoperate⟩ :=
          hok.ring.can_operate .tryAcquire fun _ => rfl
        simp only [hoperate]
        cases reply with
        | none => exact ⟨_, rfl⟩
        | some reply =>
            obtain ⟨e, ⟨⟨hist', l, now, hpost⟩, -⟩, hcall, rfl⟩ := hreply rfl hoperate
            rw [hcall] at hpost
            obtain ⟨r, hr, -⟩ := hpost
            rw [hr]
            exact ⟨_, rfl⟩
    | release =>
        obtain ⟨ingress, reply, hoperate⟩ :=
          hok.ring.can_operate .release fun _ => rfl
        simp only [hoperate]
        cases reply with
        | none => exact ⟨_, rfl⟩
        | some reply =>
            obtain ⟨e, ⟨⟨hist', l, now, hpost⟩, -⟩, hcall, rfl⟩ := hreply rfl hoperate
            rw [hcall] at hpost
            obtain ⟨r, hr, -⟩ := hpost
            rw [hr]
            exact ⟨_, rfl⟩
  · rw [hreturned] at hdone
    cases hdone

/-- At the head of the loop the thread waits for the test of the stop flag. -/
theorem not_head_of_pending {op : SenderOp}
    {resume : op.Res → Thread senderAccess SenderFrame}
    (hpending : Sender.run.pending s.thread = some ⟨op, resume⟩) (hop : op ≠ .loadStop) :
    s.thread.isHead = false := by
  cases hthread : s.thread with
  | head l =>
      rw [hthread] at hpending
      exact absurd (congrArg Sigma.fst (Option.some.inj hpending)).symm hop
  | turn p => rfl
  | leaving p => rfl
  | returned l => rfl

/-- A step of the thread begins a turn, or there is less left of the turn, or of the call. -/
theorem stepThread_lowers (hnext : s.stepThread sent = some t) :
    s.beginsTurn (.step sent) = true ∨ Sender.run.Follows t.thread s.thread ∨
      (t.thread = s.thread ∧ Process.Continues (t.ingress.consumer.running.map Running.process)
        (s.ingress.consumer.running.map Running.process)) := by
  simp only [stepThread] at hnext
  split at hnext
  case h_1 => cases hnext
  case h_2 resume hpending =>
    obtain rfl := Option.some.inj hnext
    obtain hstop | hstop := Bool.eq_false_or_eq_true s.stopRequested
    · refine .inr (.inl ⟨?_, _, resume, _, hpending, rfl⟩)
      cases hthread : s.thread with
      | head l =>
          rw [hthread] at hpending
          cases hpending
          simp only [hstop]
          exact .inr rfl
      | turn p => exact .inl rfl
      | leaving p => exact .inl rfl
      | returned l => exact .inl rfl
    · refine .inl ?_
      unfold beginsTurn testsStop
      rw [hpending, hstop]
      rfl
  case h_4 resume hpending =>
    split at hnext
    case h_1 hoperate =>
      obtain rfl := Option.some.inj hnext
      exact .inr (.inr ⟨rfl, Ring.System.operate_continues hoperate⟩)
    case h_2 hoperate =>
      obtain rfl := Option.some.inj hnext
      exact .inr (.inl ⟨.inl (not_head_of_pending hpending (by simp)), _, resume, _, hpending, rfl⟩)
    case h_3 => cases hnext
  case h_6 resume hpending =>
    split at hnext
    case h_1 hoperate =>
      obtain rfl := Option.some.inj hnext
      exact .inr (.inr ⟨rfl, Ring.System.operate_continues hoperate⟩)
    case h_2 hoperate =>
      obtain rfl := Option.some.inj hnext
      exact .inr (.inl ⟨.inl (not_head_of_pending hpending (by simp)), _, resume, _, hpending, rfl⟩)
    case h_3 => cases hnext
  case h_3 resume hpending =>
    obtain rfl := Option.some.inj hnext
    exact .inr (.inl ⟨.inl (not_head_of_pending hpending (by simp)), _, resume, _, hpending, rfl⟩)
  case h_5 resume hpending =>
    obtain rfl := Option.some.inj hnext
    exact .inr (.inl ⟨.inl (not_head_of_pending hpending (by simp)), _, resume, _, hpending, rfl⟩)
  case h_7 resume hpending =>
    obtain rfl := Option.some.inj hnext
    exact .inr (.inl ⟨.inl (not_head_of_pending hpending (by simp)), _, resume, _, hpending, rfl⟩)

/-- The actions of the others leave the thread and its call alone. -/
theorem next_others (ha : a.afterClose = true) (hother : a.isStep = false)
    (hnext : s.next a = some t) :
    t.thread = s.thread ∧ SameProcess s.ingress.consumer t.ingress.consumer := by
  cases a with
  | step sent => cases hother
  | requestStop => obtain rfl := Option.some.inj hnext; exact ⟨rfl, rfl⟩
  | run => cases ha
  | move => cases ha
  | ingress b =>
      simp only [SenderSystem.next] at hnext
      split at hnext
      case isTrue => cases hnext
      case isFalse hactor =>
        obtain ⟨ingress, hingress, rfl⟩ := Option.map_eq_some_iff.mp hnext
        exact ⟨rfl, Ring.System.next_sameProcess hingress hactor⟩

/-- The turns that may still begin, what is left of the turn, and what is left of the call. -/
abbrev DrainRank : Type :=
  Nat × Thread senderAccess SenderFrame × Option (Process spanAccess SpscRing Reply)

def DrainRank.Lower : DrainRank → DrainRank → Prop :=
  Prod.Lex (· < ·) (Prod.Lex Sender.run.Follows Process.Continues)

theorem DrainRank.lower_wellFounded : WellFounded DrainRank.Lower :=
  Nat.lt_wfRel.wf.prod_lex
    ((Loop.follows_wellFounded Sender.run).prod_lex Process.continues_wellFounded)

/-- A state in which the count of turns is `begun`, and its rank. -/
def Ranked (g : Geometry) (start : Sender) (before base : Nat) (hist : List Event)
    (fresh calm : Prop) (most : Nat) (rank : DrainRank) (s : SenderSystem) : Prop :=
  ∃ begun, Draining g start before base hist fresh calm most begun s ∧
    rank = (hist.length + most + 1 - begun, s.thread,
      s.ingress.consumer.running.map Running.process)

section Ranks

variable {rank : DrainRank}

theorem Ranked.step (hlimit : start.maxDatagramBytes.toNat ≤ maxPacketBytes)
    (h : Ranked g start before base hist fresh calm most rank s)
    (hnext : s.next (.step sent) = some t) :
    ∃ rank', DrainRank.Lower rank' rank ∧
      Ranked g start before base hist fresh calm most rank' t := by
  obtain ⟨begun, hdraining, rfl⟩ := h
  have hdraining' := hdraining.next hlimit rfl (fun _ => by simp) hnext
  refine ⟨_, ?_, _, hdraining', rfl⟩
  have hle := hdraining'.begun_le
  cases hbegins : s.beginsTurn (.step sent) with
  | true =>
      rw [hbegins] at hle
      apply Prod.Lex.left
      change begun + 1 ≤ _ at hle
      change hist.length + most + 1 - (begun + 1) < hist.length + most + 1 - begun
      omega
  | false =>
      obtain htrue | hfollows | ⟨hthread, hcontinues⟩ := stepThread_lowers hnext
      · rw [hbegins] at htrue
        cases htrue
      · exact Prod.Lex.right _ (Prod.Lex.left _ _ hfollows)
      · rw [hthread]
        exact Prod.Lex.right _ (Prod.Lex.right _ hcontinues)

theorem Ranked.others (hlimit : start.maxDatagramBytes.toNat ≤ maxPacketBytes)
    (h : Ranked g start before base hist fresh False most rank s)
    (ha : a.afterClose = true) (hother : a.isStep = false) (hnext : s.next a = some t) :
    Ranked g start before base hist fresh False most rank t := by
  obtain ⟨begun, hdraining, rfl⟩ := h
  obtain ⟨hthread, hprocess⟩ := next_others ha hother hnext
  have hdraining' := hdraining.next hlimit ha (fun h => h.elim) hnext
  refine ⟨_, hdraining', ?_⟩
  have hbegins : s.beginsTurn a = false := by
    rw [beginsTurn, hother, Bool.false_and, Bool.false_and]
  rw [hbegins, hthread, hprocess]
  rfl

end Ranks

/-- However the others move after the close, the thread returns if it keeps getting steps. -/
def Returns (s : SenderSystem) : Prop :=
  ∀ (states : Nat → SenderSystem) (actions : Nat → SenderAction), states 0 = s →
    Execution SenderSystem.next (fun _ a => a.afterClose = true) states actions →
    Fair (fun a => a.isStep = true) (fun t => t.thread.hasReturned = true) states actions →
    ∃ n, (states n).thread.hasReturned = true

theorem Draining.returns (hlimit : start.maxDatagramBytes.toNat ≤ maxPacketBytes)
    (h : Draining g start before base hist fresh False most begun s) : Returns s := by
  intro states actions hstart hexecution hfair
  apply hexecution.reaches_goal hfair DrainRank.lower_wellFounded
    (Ranked g start before base hist fresh False most)
  · intro rank u a v hranked hown ha hnext
    cases a with
    | step sent => exact hranked.step hlimit hnext
    | requestStop => cases hown
    | run => cases hown
    | move => cases hown
    | ingress b => cases hown
  · intro rank u a v hranked hother ha hnext
    exact hranked.others hlimit ha (Bool.eq_false_iff.mpr hother) hnext
  · rw [hstart]
    exact ⟨begun, h, rfl⟩

/-- The count of turns along a schedule. -/
theorem Draining.run {actions : List SenderAction}
    (hlimit : start.maxDatagramBytes.toNat ≤ maxPacketBytes)
    (h : Draining g start before base hist fresh calm most begun s)
    (hactions : ∀ a ∈ actions, a.afterClose = true ∧ (calm → a ≠ .requestStop))
    (hrun : runActions SenderSystem.next anyAction s actions = some t) :
    Draining g start before base hist fresh calm most (begun + s.turnsBegun actions) t := by
  induction actions generalizing s begun with
  | nil =>
      obtain rfl := Option.some.inj hrun
      exact h
  | cons a rest ih =>
      obtain ⟨u, hnext, hrest⟩ := exists_of_runActions_cons hrun
      obtain ⟨ha, hcalm⟩ := hactions a List.mem_cons_self
      have hlater := ih (h.next hlimit ha hcalm hnext)
        (fun b hb => hactions b (List.mem_cons_of_mem a hb)) hrest
      rw [turnsBegun, hnext]
      rw [Nat.add_assoc] at hlater
      exact hlater

/-- The sender has been constructed, and `run` has just been called. -/
def running (self : Sender) (ingress : Ring.System) : SenderSystem :=
  { initial self ingress with thread := .head self.frame }

theorem running_turning (hfree : ingress.consumer.heldView = none) :
    Turning start ingress.consumer.releases False
      (ingress.consumer.releases + ingress.consumer.empties) false false
      (running start ingress) where
  thread := by
    refine ⟨rfl, Nat.zero_le 1, ?_, rfl, Nat.le_refl _⟩
    change ingress.consumer.heldView.isSome = false
    rw [hfree]
    rfl
  waits := .inl rfl
  stop h := by cases h

/-- A consumer between two calls that holds no slot. -/
theorem heldView_of_free (hring : Ring.System.Ok ⟨g, 0, True, False⟩ [] hist ingress)
    (hidle : ingress.consumer.running = none) (hfree : ingress.consumer.handle.acquired = false) :
    ingress.consumer.heldView = none := by
  have hheld := hring.consumerLog.held
  rw [hring.consumer.idle hidle, hfree] at hheld
  cases hview : ingress.consumer.heldView with
  | none => rfl
  | some pair =>
      rw [hview] at hheld
      exact Bool.noConfusion hheld.1

/-- The loop has ended in a closed ring, without a stop request. -/
theorem Draining.ended {l : SenderFrame}
    (h : Draining g start before base hist False True most begun s)
    (hsequence : start.packetSequence.toNat + hist.length < 2 ^ 64 + base)
    (hreturned : s.thread = .returned l) :
    begun = s.ingress.consumer.releases + s.ingress.consumer.empties + 1 ∧
      Drained s.ingress.memory ∧ l.stats.ingressErrors = start.stats.ingressErrors := by
  obtain ⟨closed, stopped, hturning, hdrained⟩ := h.turning
  have hfinal := hturning.thread
  rw [hreturned] at hfinal
  obtain (⟨hclosed, hturn⟩ | ⟨hstopped, hturn⟩) | ⟨hfresh, -⟩ := hfinal
  · exact ⟨hturn.turns, hdrained trivial hclosed, hturn.errors⟩
  · have hexhausts := (h.calm trivial).2 (hturning.stop hstopped)
    have hreleases := h.ok.ring.consumerLog.releases
    have hwrite := h.ok.ring.ring.write_eq
    have hle := h.ok.ring.ring.read_le
    unfold exhausts at hexhausts
    simp only at hreleases hwrite
    omega
  · exact hfresh.elim

/-- A ring reached through the API, and a sender that is attached to it. -/
theorem attached_ok (hlimit : start.maxDatagramBytes.toNat ≤ maxPacketBytes)
    (hinit : Initialized g handle m)
    (hring : Reaches Ring.System.next anyAction (Ring.System.initial m handle) ingress)
    (hidle : ingress.consumer.running = none) :
    ∃ hist, Ring.System.Ok ⟨g, 0, True, False⟩ [] hist ingress ∧
      Ok g start ingress.consumer.acquiredEvents.length hist (initial start ingress) := by
  obtain ⟨hist, hring'⟩ := hinit.reaches_ok (q := False) (fun _ _ _ h => h.elim) hring
  exact ⟨hist, hring', initial_ok hlimit hring' hidle⟩

/-- From any moment after the close on, with `k` events left. -/
theorem drains_within (hlimit : start.maxDatagramBytes.toNat ≤ maxPacketBytes)
    (hinitial : Ok g start before hist (initial start ingress))
    (hview : ingress.consumer.heldView = none) {k : Nat}
    (hreaches : Reaches SenderSystem.next anyAction (initial start ingress) s)
    (hclosed : stateOf s.ingress.memory = stateClosed)
    (hproducer : s.ingress.producer.running = none)
    (hk : writePos s.ingress.memory = readPos s.ingress.memory + k) :
    Returns s ∧
    ∀ (actions : List SenderAction) (t : SenderSystem), (∀ a ∈ actions, a.afterClose = true) →
      runActions SenderSystem.next anyAction s actions = some t →
      s.turnsBegun actions ≤ k + 1 ∧
        (t.thread.hasReturned = false → ∀ sent, ∃ u, t.next (.step sent) = some u) := by
  obtain ⟨hist', begun, closed, stopped, hok, hturning⟩ :=
    exists_turning hlimit hinitial (initial_turning hview) hreaches
  have hdraining : Draining g start before ingress.consumer.releases hist' True False
      (s.ingress.consumer.empties + s.ingress.consumer.early) begun s :=
    { ok := hok
      turning := ⟨closed, stopped, hturning, fun h => h.elim⟩
      closed := hclosed
      producer := hproducer
      empties := Nat.le_refl _
      calm := fun h => h.elim }
  refine ⟨hdraining.returns hlimit, ?_⟩
  intro actions t hactions hrun
  have hlater := hdraining.run hlimit (fun a ha => ⟨hactions a ha, fun h => h.elim⟩) hrun
  have hbegun := (hturning.bounds hok).1
  have hlimited := hlater.begun_le
  have hreleases := hok.ring.consumerLog.releases
  have hwrite := hok.ring.ring.write_eq
  simp only at hreleases hwrite
  refine ⟨by omega, ?_⟩
  intro hreturned sent
  obtain ⟨closed', stopped', hturning', -⟩ := hlater.turning
  exact hlater.ok.can_step hturning'.waits hreturned sent

/-- `run` has been called on a closed ring. -/
theorem running_draining (hidle : ingress.consumer.running = none)
    (hview : ingress.consumer.heldView = none)
    (hclosed : stateOf ingress.memory = stateClosed) (hproducer : ingress.producer.running = none)
    (hok : Ok g start before hist (running start ingress)) :
    Draining g start before ingress.consumer.releases hist False True ingress.consumer.empties
      (ingress.consumer.releases + ingress.consumer.empties) (running start ingress) where
  ok := hok
  turning := ⟨false, false, running_turning hview, fun _ h => by cases h⟩
  closed := hclosed
  producer := hproducer
  empties := by
    change ingress.consumer.empties + ingress.consumer.early ≤ _
    rw [Client.early_of_idle hidle]
    exact Nat.le_refl _
  calm _ := ⟨Nat.le_refl _, fun h => by cases h⟩

/-- What a thread that has returned leaves in the ring. -/
theorem Draining.returned {most : Nat} {l : SenderFrame}
    (hlimit : start.maxDatagramBytes.toNat ≤ maxPacketBytes)
    (h : Draining g start before base hist False True most begun s)
    (hsequence : start.packetSequence.toNat + hist.length < 2 ^ 64 + base)
    (hreturned : s.thread = .returned l) :
    begun = hist.length + most + 1 ∧ s.ingress.consumer.releases = hist.length ∧
      s.ingress.consumer.acquiredEvents = hist ∧
      readPos s.ingress.memory = writePos s.ingress.memory ∧
      s.ingress.consumer.handle.acquired = false ∧
      l.stats.ingressErrors = start.stats.ingressErrors := by
  obtain ⟨hbegun, hdrained, herrors⟩ := h.ended hsequence hreturned
  obtain ⟨htaken, hall, hnone⟩ := h.ok.ring.all_taken hdrained
  have hpublished : hist = s.ingress.producer.publishedEvents := h.ok.ring.producerLog
  have hempties : s.ingress.consumer.empties = most :=
    Nat.le_antisymm (Nat.le_trans (Nat.le_add_right _ _) h.empties) (h.calm trivial).1
  have hheld := h.ok.ring.consumerLog.held
  rw [hnone, h.ok.ring.consumer.idle (h.ok.returned hlimit hreturned).1] at hheld
  rw [← hpublished] at htaken hall
  rw [hall, hempties] at hbegun
  exact ⟨hbegun, hall, htaken, hdrained.2, hheld, herrors⟩

/-- A run of the whole thread on a closed ring with `k` events left. -/
theorem drains_all (hlimit : start.maxDatagramBytes.toNat ≤ maxPacketBytes)
    (hring : Ring.System.Ok ⟨g, 0, True, False⟩ [] hist ingress)
    (hinitial : Ok g start before hist (initial start ingress))
    (hidle : ingress.consumer.running = none) (hfree : ingress.consumer.handle.acquired = false)
    {k : Nat} (hclosed : stateOf ingress.memory = stateClosed)
    (hproducer : ingress.producer.running = none)
    (hk : writePos ingress.memory = readPos ingress.memory + k)
    (hsequence : start.packetSequence.toNat + k < 2 ^ 64)
    {actions : List SenderAction} {l : SenderFrame}
    (hactions : ∀ a ∈ actions, a.afterClose = true ∧ a ≠ .requestStop)
    (hrun : runActions SenderSystem.next anyAction (running start ingress) actions = some t)
    (hreturned : t.thread = .returned l) :
    (running start ingress).turnsBegun actions = k + 1 ∧
      (ingress.producer.publishedEvents.drop (readPos ingress.memory)).length = k ∧
      t.ingress.consumer.acquiredEvents = ingress.consumer.acquiredEvents ++
        ingress.producer.publishedEvents.drop (readPos ingress.memory) ∧
      t.ingress.consumer.releases = ingress.consumer.releases + k ∧
      readPos t.ingress.memory = writePos t.ingress.memory ∧
      t.ingress.consumer.handle.acquired = false ∧
      l.stats.ingressErrors = start.stats.ingressErrors := by
  have hcalled : (initial start ingress).next .run = some (running start ingress) := rfl
  obtain ⟨hist', hok, -⟩ := next_ok hlimit hinitial hcalled
  obtain rfl : hist' = hist := hring.hist_eq hok.ring (.refl _)
  have hview := heldView_of_free hring hidle hfree
  have hlater := (running_draining hidle hview hclosed hproducer hok).run hlimit
    (fun a ha => ⟨(hactions a ha).1, fun _ => (hactions a ha).2⟩) hrun
  have hpublished : hist' = ingress.producer.publishedEvents := hring.producerLog
  have hwrite := hring.ring.write_eq
  have hreleases := hring.consumerLog.releases
  have hbefore := hring.consumerLog.taken trivial
  rw [hring.consumer.idle hidle, hfree, if_neg Bool.false_ne_true] at hbefore
  simp only [Nat.sub_zero, Nat.zero_add, Nat.add_zero] at hwrite hreleases hbefore
  obtain ⟨hbegun, hall, htaken, hread, hheld, herrors⟩ :=
    hlater.returned hlimit (by omega) hreturned
  refine ⟨by omega, ?_, ?_, by omega, hread, hheld, herrors⟩
  · rw [← hpublished, List.length_drop]
    omega
  · rw [htaken, hbefore, ← hpublished]
    exact (List.take_append_drop _ _).symm

/-- A sender whose ring is closed with `k` events left, and whose producer has stopped: at most
`k + 1` turns begin, the thread can always go on, and it returns. If the ring was closed before
`run` was called and nobody requests a stop, then it returns after exactly `k + 1` turns: it has
acquired and given back exactly the events that were left, in order. -/
theorem sender_drains (hlimit : start.maxDatagramBytes.toNat ≤ maxPacketBytes)
    (hinit : Initialized g handle m)
    (hring : Reaches Ring.System.next anyAction (Ring.System.initial m handle) ingress)
    (hidle : ingress.consumer.running = none)
    (hfree : ingress.consumer.handle.acquired = false) :
    (∀ (s : SenderSystem) (k : Nat), Reaches SenderSystem.next anyAction (initial start ingress) s →
      stateOf s.ingress.memory = stateClosed → s.ingress.producer.running = none →
      writePos s.ingress.memory = readPos s.ingress.memory + k →
      Returns s ∧
      ∀ (actions : List SenderAction) (t : SenderSystem), (∀ a ∈ actions, a.afterClose = true) →
        runActions SenderSystem.next anyAction s actions = some t →
        s.turnsBegun actions ≤ k + 1 ∧
          (t.thread.hasReturned = false → ∀ sent, ∃ u, t.next (.step sent) = some u)) ∧
    ∀ k : Nat, stateOf ingress.memory = stateClosed → ingress.producer.running = none →
      writePos ingress.memory = readPos ingress.memory + k →
      start.packetSequence.toNat + k < 2 ^ 64 →
      Returns (running start ingress) ∧
      ∀ (actions : List SenderAction) (t : SenderSystem) (l : SenderFrame),
        (∀ a ∈ actions, a.afterClose = true ∧ a ≠ .requestStop) →
        runActions SenderSystem.next anyAction (running start ingress) actions = some t →
        t.thread = .returned l →
        (running start ingress).turnsBegun actions = k + 1 ∧
        (ingress.producer.publishedEvents.drop (readPos ingress.memory)).length = k ∧
        t.ingress.consumer.acquiredEvents = ingress.consumer.acquiredEvents ++
          ingress.producer.publishedEvents.drop (readPos ingress.memory) ∧
        t.ingress.consumer.releases = ingress.consumer.releases + k ∧
        readPos t.ingress.memory = writePos t.ingress.memory ∧
        t.ingress.consumer.handle.acquired = false ∧
        l.stats.ingressErrors = start.stats.ingressErrors := by
  obtain ⟨hist, hring, hinitial⟩ := attached_ok hlimit hinit hring hidle
  have hview := heldView_of_free hring hidle hfree
  refine ⟨?_, ?_⟩
  · intro s k hreaches hclosed hproducer hk
    exact drains_within hlimit hinitial hview hreaches hclosed hproducer hk
  · intro k hclosed hproducer hk hsequence
    have hreaches : Reaches SenderSystem.next anyAction (initial start ingress)
        (running start ingress) := .single ⟨.run, trivial, rfl⟩
    refine ⟨(drains_within hlimit hinitial hview hreaches hclosed hproducer hk).1, ?_⟩
    intro actions t l hactions hrun hreturned
    exact drains_all hlimit hring hinitial hidle hfree hclosed hproducer hk hsequence hactions
      hrun hreturned

/-- An event that cannot be encoded and one that can are published, then the ring is closed. -/
def sampleFill : List Ring.Action :=
  .begin .producer (.tryPublish ⟨1, 0, 3, []⟩) :: List.replicate 7 (.step .producer) ++
    .begin .producer (.tryPublish sampleEvent) :: List.replicate 8 (.step .producer) ++
    [.begin .creator .closePublication, .step .creator]

def sampleDrainer : Sender := ⟨44, [⟨0x7f000001, 9000⟩], 7, 5, {}⟩

/-- The states of the ring and of the sender when the sender has drained it; its send fails. -/
def sampleDrain : Option (Ring.System × SenderSystem) :=
  (runActions Ring.System.next anyAction (Ring.System.initial sampleMemory sampleHandle)
    sampleFill).bind fun ingress =>
      (runActions SenderSystem.next anyAction (running sampleDrainer ingress)
        (List.replicate 33 (.step false))).map fun t => (ingress, t)

theorem sender_drains_sample :
    ∃ ingress t, sampleDrain = some (ingress, t) ∧
      (running sampleDrainer ingress).turnsBegun (List.replicate 33 (.step false)) = 3 ∧
      t.ingress.consumer.acquiredEvents =
        ingress.consumer.acquiredEvents ++ ingress.producer.publishedEvents.drop 0 ∧
      readPos t.ingress.memory = writePos t.ingress.memory := by
  have hsample : sampleDrain.map (fun run =>
      ((stateOf run.1.memory, readPos run.1.memory, writePos run.1.memory),
        (run.1.consumer.handle.acquired, run.1.consumer.running.isSome,
          run.1.producer.running.isSome), run.2.thread.hasReturned)) =
      some ((stateClosed, 0, 2), (false, false, false), true) := by
    decide +kernel
  obtain ⟨⟨ingress, t⟩, hdrain, hfacts⟩ := Option.map_eq_some_iff.mp hsample
  obtain ⟨hmemory, hclients, hthread⟩ := by simpa only [Prod.mk.injEq] using hfacts
  obtain ⟨hclosed, hread, hwrite⟩ := hmemory
  obtain ⟨hfree, hconsumer, hproducer⟩ := hclients
  obtain ⟨ring, hring, hruns⟩ := Option.bind_eq_some_iff.mp hdrain
  obtain ⟨u, hrun, heq⟩ := Option.map_eq_some_iff.mp hruns
  obtain ⟨rfl, rfl⟩ := Prod.mk.inj heq
  obtain ⟨l, hreturned⟩ := Thread.eq_of_hasReturned hthread
  have hidle : ring.consumer.running = none := by simpa using hconsumer
  have hstopped : ring.producer.running = none := by simpa using hproducer
  have hlimit : sampleDrainer.maxDatagramBytes.toNat ≤ maxPacketBytes := by decide
  obtain ⟨-, hall⟩ :=
    sender_drains hlimit initialized_sample (reaches_of_runActions hring) hidle hfree
  obtain ⟨-, hdrained⟩ := hall 2 hclosed hstopped (by rw [hread, hwrite]) (by decide)
  have hsteps : ∀ a ∈ List.replicate 33 (SenderAction.step false),
      a.afterClose = true ∧ a ≠ .requestStop := by
    decide
  obtain ⟨hturns, -, hacquired, -, hlast, -⟩ := hdrained _ u l hsteps hrun hreturned
  rw [hread] at hacquired
  exact ⟨ring, u, hdrain, hturns, hacquired, hlast⟩

end SenderSystem

end EventEngine
