import EventEngine.Sender.Senders

/-!
# A sender from `initialize` to its destructor

However the calls on any number of senders interleave, with each other and with other programs:
`initialize` leaves nothing, or a configured sender with a segment and a socket of its own; runs
and moves hand them on unchanged, and the destructor gives them back. No sender can harm what
others have made, since it creates, resizes and removes nothing under a name.
-/

namespace EventEngine

open Concurrency Memory Posix Transport EventEngine.Ring EventEngine.Shm

variable {inetPton : Bytes → Option UInt32} {config : SenderConfig} {r : SenderResources}
variable {sender : SenderObject} {t : Table}

theorem Posix.Kernel.perform_alters {k k' : Kernel} {op : Op} {result : op.Res}
    (hperform : k.perform op result = some k') (hop : op.alters = false) :
    k'.table.names = k.table.names ∧ k'.sizes = k.sizes := by
  rw [perform] at hperform
  split at hperform
  case isTrue =>
    obtain rfl := Option.some.inj hperform
    cases op <;> cases result <;> first | exact ⟨rfl, rfl⟩ | cases hop
  case isFalse => cases hperform

namespace SenderStage

variable {stage : SenderStage}

/-- The destructor has performed a part of its accesses, or all of them. -/
theorem departing_log (hdeparting : stage.Departing r t) : ∃ log, stage.log = some log ∧
    log <+: r.farewell ∧ (stage = .destroyed log → log = r.farewell ∧ t = .empty) := by
  cases stage with
  | destroying log p =>
      exact ⟨log, rfl, SenderResources.Leaving.log hdeparting, fun hno => by cases hno⟩
  | destroyed log =>
      obtain ⟨rfl, rfl⟩ := hdeparting
      exact ⟨_, rfl, List.prefix_refl _, fun _ => ⟨rfl, rfl⟩⟩
  | _ => cases hdeparting

end SenderStage

namespace SenderSlot

variable {slot slot' new old : SenderSlot} {leftover : Name} {call : SenderCall}
variable {op : HostedOp senderOwnAccess} {resume : op.Res → SenderSlot}

theorem destroy_cases (hreact : slot.react inetPton .destroy = some slot') :
    ∃ sender, slot.stage = .idle sender ∧
      slot' = { slot with stage := .settleDestroying [] (sender.destroy ()) } := by
  obtain ⟨stop, stage⟩ := slot
  cases stage with
  | idle sender =>
      cases hreact
      exact ⟨sender, rfl, rfl⟩
  | _ => cases hreact

theorem construct_cases (hconstruct : slot.construct leftover = some (new, old)) :
    ∃ sender, slot.stage = .idle sender ∧
      (new, old) = (⟨(sender.move slot.stop leftover).1.2,
        .idle (sender.move slot.stop leftover).1.1⟩,
        ⟨true, .idle (sender.move slot.stop leftover).2.1⟩) := by
  obtain ⟨stop, stage⟩ := slot
  cases stage with
  | idle sender =>
      cases hconstruct
      exact ⟨sender, rfl, rfl⟩
  | _ => cases hconstruct

theorem destroyed_stuck {log : List (HostedOp senderOwnAccess)}
    (hgone : slot.stage = .destroyed log) :
    slot.pending = none ∧ ∀ call, slot.react inetPton call = none := by
  obtain ⟨stop, stage⟩ := slot
  cases hgone
  exact ⟨rfl, fun call => by cases call <;> rfl⟩

/-- Only the destructor takes from a live sender what it has. -/
theorem alive_react (halive : slot.stage.Alive inetPton config r t)
    (hkept : call ≠ .destroy) (hreact : slot.react inetPton call = some slot') :
    slot'.stage.Alive inetPton config r t := by
  obtain ⟨stop, stage⟩ := slot
  cases call with
  | initializeSender config =>
      cases stage with
      | absent => cases halive
      | _ => cases hreact
  | run =>
      cases stage with
      | idle sender =>
          cases hreact
          obtain ⟨hlive, rfl⟩ := halive
          exact ⟨{ hlive with }, rfl⟩
      | _ => cases hreact
  | requestStop =>
      obtain ⟨sender, -, rfl⟩ := Option.map_eq_some_iff.mp hreact
      exact halive
  | destroy => exact absurd rfl hkept

theorem alive_step (halive : slot.stage.Alive inetPton config r t)
    (hpending : slot.pending = some ⟨op, resume⟩) {result : op.Res} {t' : Table}
    (henv : HostedOp.environment (X := senderOwnAccess)
      (fun op r => slot.answers op r = true) op result t t') :
    (resume result).stage.Alive inetPton config r t' := by
  obtain ⟨⟨op', resume'⟩, hstage, heq⟩ := Option.map_eq_some_iff.mp hpending
  cases heq
  apply (SenderStage.alive_resume halive hstage).2 result t'
  apply henv.weaken
  intro op r _
  cases op with
  | _ => trivial

theorem alive_construct (halive : slot.stage.Alive inetPton config r t)
    (hconstruct : slot.construct leftover = some (new, old)) :
    new.stage.Alive inetPton config r t := by
  obtain ⟨sender, hidle, heq⟩ := construct_cases hconstruct
  cases heq
  rw [hidle] at halive
  obtain ⟨hlive, rfl⟩ := halive
  exact ⟨{ hlive with }, rfl⟩

/-- A sender that is being destroyed cannot be called. -/
theorem departing_react (hdeparting : slot.stage.Departing r t) :
    slot.react inetPton call = none := by
  obtain ⟨stop, stage⟩ := slot
  cases stage with
  | destroying log p => cases call <;> rfl
  | destroyed log => cases call <;> rfl
  | _ => cases hdeparting

theorem departing_step (hdeparting : slot.stage.Departing r t)
    (hpending : slot.pending = some ⟨op, resume⟩) {result : op.Res} {t' : Table}
    (henv : HostedOp.environment (X := senderOwnAccess)
      (fun op r => slot.answers op r = true) op result t t') :
    (resume result).stage.Departing r t' := by
  obtain ⟨⟨op', resume'⟩, hstage, heq⟩ := Option.map_eq_some_iff.mp hpending
  cases heq
  apply (SenderStage.departing_resume hdeparting hstage).2 result t'
  apply henv.weaken
  intro op r _
  cases op with
  | _ => trivial

/-- The sender was moved from. -/
def Spent (slot : SenderSlot) (t : Table) : Prop :=
  slot.stage.Spent ∧ slot.stop = true ∧ t = .empty

theorem Spent.react (hspent : slot.Spent t) (hreact : slot.react inetPton call = some slot') :
    slot'.Spent t := by
  obtain ⟨stop, stage⟩ := slot
  obtain ⟨hstage, rfl, rfl⟩ := hspent
  cases call with
  | initializeSender config =>
      cases stage with
      | absent => cases hstage
      | _ => cases hreact
  | run =>
      cases stage with
      | idle sender =>
          cases hreact
          exact ⟨⟨{ hstage with }, rfl⟩, rfl, rfl⟩
      | _ => cases hreact
  | requestStop =>
      obtain ⟨sender, -, rfl⟩ := Option.map_eq_some_iff.mp hreact
      exact ⟨hstage, rfl, rfl⟩
  | destroy =>
      obtain ⟨sender, hidle, rfl⟩ := destroy_cases hreact
      obtain rfl : stage = .idle sender := hidle
      rw [SenderRetired.destroy hstage |>.1]
      exact ⟨rfl, rfl, rfl⟩

/-- It only looks at its stop flag. -/
theorem Spent.pending (hspent : slot.Spent t) (hpending : slot.pending = some ⟨op, resume⟩) :
    op = .own .loadStop := by
  obtain ⟨⟨op', resume'⟩, hstage, heq⟩ := Option.map_eq_some_iff.mp hpending
  cases heq
  exact (SenderStage.spent_resume hspent.1 hstage).1

theorem Spent.step (hspent : slot.Spent t) (hpending : slot.pending = some ⟨op, resume⟩)
    {result : op.Res} {t' : Table} (henv : HostedOp.environment (X := senderOwnAccess)
      (fun op r => slot.answers op r = true) op result t t') : (resume result).Spent t' := by
  obtain ⟨hspent, hstop, rfl⟩ := hspent
  obtain ⟨⟨op', resume'⟩, hstage, heq⟩ := Option.map_eq_some_iff.mp hpending
  cases heq
  obtain ⟨rfl, hresume⟩ := SenderStage.spent_resume hspent hstage
  obtain ⟨rfl, hspent'⟩ := hresume result t' (hstop ▸ henv.weaken fun _ _ => answers_stop)
  exact ⟨hspent', by simp [hstop], rfl⟩

theorem construct_spent (hconstruct : slot.construct leftover = some (new, old)) :
    old.Spent .empty := by
  obtain ⟨sender, -, heq⟩ := construct_cases hconstruct
  cases heq
  exact ⟨sender.move_retired slot.stop leftover, rfl, rfl⟩

end SenderSlot

namespace Senders

variable {s u v : Senders inetPton} {a : ResidentAction (senderKind inetPton)} {h : Nat}
variable {answer : (op : HostedOp senderOwnAccess) → op.Res}

/-- Nothing exists yet. -/
def initial (inetPton : Bytes → Option UInt32) : Senders inetPton :=
  { place := fun _ => ({} : SenderSlot) }

/-- Where the sender is. -/
def stage (s : Senders inetPton) (h : Nat) : SenderStage := SenderSlot.stage (s.place h)

abbrev Ok (s : Senders inetPton) : Prop := Residents.Ok (senderCustody inetPton) s

theorem reaches_ok (hrun : Reaches Residents.next Residents.Reliable (initial inetPton) s) :
    s.Ok :=
  (Residents.initial_ok fun _ => SenderSlot.Has.absent false).reaches hrun

theorem Ok.slot (hok : s.Ok) (h : Nat) :
    SenderSlot.Has inetPton (s.place h) (s.holding (some h)) := hok.has h

/-- The sender `h` has these resources. -/
def Bears (s : Senders inetPton) (config : SenderConfig) (r : SenderResources) (h : Nat) : Prop :=
  (s.stage h).Alive inetPton config r (s.holding (some h))

/-- The sender with this socket is not destroyed. -/
def Spares (r : SenderResources) (s : Senders inetPton)
    (a : ResidentAction (senderKind inetPton)) : Prop :=
  ∀ h sender, a = .call h .destroy → s.stage h = .idle sender →
    sender.udp.socketFd ≠ some r.socketFd

/-- The resources of a sender stay with it, or go to the sender that it is moved to. -/
theorem Bears.next (hbears : s.Bears config r h) (hok : s.Ok) (hreliable : s.Reliable a)
    (hspares : s.Spares r a) (hnext : s.next a = some u) : ∃ x, u.Bears config r x := by
  cases hok.fate hreliable hnext h with
  | kept place holding =>
      refine ⟨h, ?_⟩
      rw [Bears, stage, place, holding]
      exact hbears
  | reacted c called react holding =>
      refine ⟨h, ?_⟩
      have hreact : SenderSlot.react inetPton (s.place h) c = some (u.place h) := react
      rw [Bears, holding]
      refine SenderSlot.alive_react hbears ?_ hreact
      rintro rfl
      obtain ⟨sender, hidle, -⟩ := SenderSlot.destroy_cases hreact
      have hlive : r.Live inetPton config sender ∧ s.holding (some h) = r.table := by
        have halive := hbears
        rw [Bears, stage, hidle] at halive
        exact halive
      exact hspares h sender called hidle hlive.1.udp
  | stepped op resume result pending place environment =>
      refine ⟨h, ?_⟩
      rw [Bears, stage, place]
      exact SenderSlot.alive_step hbears pending environment
  | arrived other leftover old absent construct holding =>
      rw [Bears, stage, SenderSlot.stage_of_absent absent] at hbears
      cases hbears
  | left new leftover construct newHolding holding =>
      refine ⟨new, ?_⟩
      rw [Bears, newHolding]
      exact SenderSlot.alive_construct hbears construct

theorem next_departing (hdeparting : (s.stage h).Departing r (s.holding (some h))) (hok : s.Ok)
    (hreliable : s.Reliable a) (hnext : s.next a = some u) :
    (u.stage h).Departing r (u.holding (some h)) := by
  cases hok.fate hreliable hnext h with
  | kept place holding =>
      rw [stage, place, holding]
      exact hdeparting
  | reacted c called react holding =>
      have hnone : (s.place h).react inetPton c = none := SenderSlot.departing_react hdeparting
      cases hnone.symm.trans react
  | stepped op resume result pending place environment =>
      rw [stage, place]
      exact SenderSlot.departing_step hdeparting pending environment
  | arrived other leftover old absent construct holding =>
      rw [stage, SenderSlot.stage_of_absent absent] at hdeparting
      cases hdeparting
  | left new leftover construct newHolding holding =>
      obtain ⟨sender, hidle, -⟩ := SenderSlot.construct_cases construct
      rw [stage, hidle] at hdeparting
      cases hdeparting

/-- A sender that is gone stays so. -/
theorem next_destroyed {log : List (HostedOp senderOwnAccess)} (hgone : s.stage h = .destroyed log)
    (hok : s.Ok) (hreliable : s.Reliable a) (hnext : s.next a = some u) :
    u.stage h = .destroyed log ∧ u.holding (some h) = s.holding (some h) := by
  obtain ⟨hpending, hreact⟩ := SenderSlot.destroyed_stuck hgone
  cases hok.fate hreliable hnext h with
  | kept place holding =>
      rw [stage, place, holding]
      exact ⟨hgone, rfl⟩
  | reacted c called react holding =>
      cases (hreact c).symm.trans react
  | stepped op resume result pending place environment => cases hpending.symm.trans pending
  | arrived other leftover old absent construct holding =>
      cases hgone.symm.trans (SenderSlot.stage_of_absent absent)
  | left new leftover construct newHolding holding =>
      obtain ⟨sender, hidle, -⟩ := SenderSlot.construct_cases construct
      cases hgone.symm.trans hidle

/-- The sender `h` was moved from. -/
def Spent (s : Senders inetPton) (h : Nat) : Prop :=
  SenderSlot.Spent (s.place h) (s.holding (some h))

theorem Spent.next (hspent : s.Spent h) (hok : s.Ok) (hreliable : s.Reliable a)
    (hnext : s.next a = some u) : u.Spent h := by
  cases hok.fate hreliable hnext h with
  | kept place holding =>
      rw [Spent, place, holding]
      exact hspent
  | reacted c called react holding =>
      rw [Spent, holding]
      exact SenderSlot.Spent.react hspent react
  | stepped op resume result pending place environment =>
      rw [Spent, place]
      exact SenderSlot.Spent.step hspent pending environment
  | arrived other leftover old absent construct holding =>
      have hno := hspent.1
      rw [SenderSlot.stage_of_absent absent] at hno
      cases hno
  | left new leftover construct newHolding holding =>
      rw [Spent, holding]
      exact SenderSlot.construct_spent construct

/-- What a pending access of a sender may be. -/
theorem Ok.uses (hok : s.Ok) {op : HostedOp senderOwnAccess} {resume : op.Res → SenderStage}
    (hpending : (s.stage h).pending = some ⟨op, resume⟩) :
    SenderUses (s.holding (some h)) op := by
  have hslot : SenderSlot.pending (s.place h) = some ⟨op, fun result =>
      ⟨(s.place h).stop || SenderHostOp.stops op, resume result⟩⟩ :=
    Option.map_eq_some_iff.mpr ⟨_, hpending, rfl⟩
  exact (Residents.Ok.allowed hok hslot)

/-- No access of a sender changes anything under a name. -/
theorem Ok.spares (hok : s.Ok) (hnext : s.next (.step h answer) = some u) :
    u.kernel.table.names = s.kernel.table.names ∧ u.kernel.sizes = s.kernel.sizes := by
  obtain ⟨op, resume, t, hpending, hperformed, rfl⟩ | ⟨op, resume, -, -, rfl⟩ :=
    Residents.step_cases hnext
  · exact Kernel.perform_alters hperformed.kernel (hok.allowed hpending).2
  · exact ⟨rfl, rfl⟩

/-- A call of `initialize` that has failed left what there was before, unless the others have
changed what they have. -/
theorem Ok.undone {error : InitError} (hok : s.Ok) (hok' : u.Ok) (habsent : s.stage h = .absent)
    (hfailed : u.stage h = .failed error) : u.holding (some h) = .empty ∧
      ((∀ i, i ≠ some h → u.holding i = s.holding i) → u.kernel.table = s.kernel.table) := by
  have hempty : u.holding (some h) = .empty := (hok'.slot h).unborn (.inr ⟨error, hfailed⟩)
  refine ⟨hempty, fun hothers => hok.table_eq hok' ?_⟩
  funext i
  by_cases hi : i = some h
  · rw [hi, hempty, (hok.slot h).unborn (.inl habsent)]
  · exact hothers i hi

/-- What a call of `initialize` that returns a sender has made. -/
theorem Ok.succeeded {thread : Thread senderHostAccess InitializingSender} (hok : s.Ok)
    (hreliable : s.Reliable (.step h answer)) (hstage : s.stage h = .initializing config thread)
    (hnext : s.next (.step h answer) = some u) (hidle : u.stage h = .idle sender) :
    ∃ r : SenderResources, r.Live inetPton config sender ∧ u.holding (some h) = r.table := by
  have hholds := (hok.slot h).holds hstage
  have hplace : ∀ slot : SenderSlot, u.place h = slot → slot.stage = .idle sender := by
    rintro slot rfl
    exact hidle
  cases hok.fate hreliable hnext h with
  | kept place holding =>
      have hno := hplace _ place
      cases hstage.symm.trans hno
  | reacted c called react holding => cases called
  | stepped op resume result pending place environment =>
      obtain ⟨⟨op', resume'⟩, hpending, heq⟩ := Option.map_eq_some_iff.mp pending
      cases heq
      rw [show SenderSlot.stage (s.place h) = _ from hstage] at hpending
      obtain ⟨⟨op', resume'⟩, hthread, heq⟩ := Option.map_eq_some_iff.mp hpending
      cases heq
      obtain ⟨-, hresume⟩ := hholds.resume hthread
      apply SenderStage.settleInitializing_alive (hresume result _ (environment.weaken _))
        (hplace _ place)
      intro op r _
      cases op with
      | _ => trivial
  | arrived other leftover old absent construct holding =>
      cases hstage.symm.trans (SenderSlot.stage_of_absent absent)
  | left new leftover construct newHolding holding =>
      obtain ⟨sender', hno, -⟩ := SenderSlot.construct_cases construct
      cases hstage.symm.trans hno

/-- What a move does to the two senders. -/
theorem Ok.moved {other : Nat} {leftover : Name} (hok : s.Ok)
    (hnext : s.next (.move h other leftover) = some u) :
    u.holding (some h) = s.holding (some other) ∧ u.Spent other := by
  obtain ⟨new, old, habsent, hconstruct, rfl⟩ := Residents.move_cases hnext
  have hne : other ≠ h := by
    rintro rfl
    cases (((senderCustody inetPton).construct (hok.has other) hconstruct).1).symm.trans habsent
  have hdiffer : some other ≠ some h := fun heq => hne (Option.some.inj heq)
  constructor
  · simp only [Function.update_of_ne hdiffer.symm, Function.update_self]
  · simp only [Spent, Function.update_of_ne hne, Function.update_self]
    exact SenderSlot.construct_spent hconstruct

/-- What a call of the destructor does. -/
theorem destroy_cases (hnext : s.next (.call h .destroy) = some u) : ∃ sender,
    s.stage h = .idle sender ∧ u.stage h = .settleDestroying [] (sender.destroy ()) ∧
      u.holding (some h) = s.holding (some h) := by
  obtain ⟨slot, hcall, rfl⟩ := Option.map_eq_some_iff.mp hnext
  have hreact : SenderSlot.react inetPton (s.place h) .destroy = some slot := hcall
  obtain ⟨sender, hidle, rfl⟩ := SenderSlot.destroy_cases hreact
  exact ⟨sender, hidle, congrArg SenderSlot.stage (Function.update_self h _ s.place), rfl⟩

/-- What has become of a sender whose destructor was called. -/
theorem Ok.destroyed (hok : s.Ok) (hidle : s.stage h = .idle sender)
    (hnext : s.next (.call h .destroy) = some u)
    (hrun : Reaches Residents.next Residents.Reliable u v) : ∃ log,
      (v.stage h).log = some log ∧ log <+: sender.farewell ∧
      (v.stage h = .destroyed log → log = sender.farewell ∧ v.holding (some h) = .empty) := by
  have hok' : u.Ok := Residents.Ok.next hok (a := .call h .destroy) trivial hnext
  obtain ⟨sender', hidle', hstage, hholding⟩ := destroy_cases hnext
  obtain rfl : sender = sender' := SenderStage.idle.inj (hidle.symm.trans hidle')
  have hsender : SenderSlot.stage (s.place h) = .idle sender := hidle
  obtain ⟨config, r, -, hlive, htable⟩ | ⟨-, hretired, -, htable⟩ :=
    (hok.slot h).object (by rw [hsender]; rfl)
  · obtain ⟨-, hdeparting⟩ := hrun.invariant
      (I := fun v : Senders inetPton => v.Ok ∧ (v.stage h).Departing r (v.holding (some h)))
      ⟨hok', by
        rw [hstage, hholding, htable]
        exact SenderStage.settleDestroying_departing hlive.destroy⟩
      (fun _ _ _ ⟨hok, hdeparting⟩ hreliable hnext =>
        ⟨Residents.Ok.next hok hreliable hnext, next_departing hdeparting hok hreliable hnext⟩)
    rw [hlive.farewell]
    exact SenderStage.departing_log hdeparting
  · rw [hretired.destroy.1] at hstage
    rw [htable] at hholding
    obtain ⟨-, hgone, hempty⟩ := hrun.invariant
      (I := fun v : Senders inetPton => v.Ok ∧ v.stage h = .destroyed [] ∧
        v.holding (some h) = .empty)
      ⟨hok', hstage, hholding⟩
      (fun _ _ _ ⟨hok, hgone, hempty⟩ hreliable hnext =>
        have hkept := next_destroyed hgone hok hreliable hnext
        ⟨Residents.Ok.next hok hreliable hnext, hkept.1, hkept.2.trans hempty⟩)
    rw [hretired.destroy (l := ()) |>.2, hgone]
    exact ⟨[], rfl, List.prefix_refl [], fun _ => ⟨rfl, hempty⟩⟩

theorem Bears.object (hbears : s.Bears config r h) : ∃ sender, (s.stage h).sender = some sender ∧
    r.Live inetPton config sender ∧ s.holding (some h) = r.table :=
  SenderStage.alive_sender hbears

/-- The lifecycle of senders from a state on. -/
structure AllOrNothing (s : Senders inetPton) : Prop where
  /-- A call of `initialize` that fails has given everything back; unless the others have
  changed what they have, there is exactly what there was before. -/
  failed : ∀ h error (t : Senders inetPton), s.stage h = .absent →
    Reaches Residents.next Residents.Reliable s t →
    t.stage h = .failed error → t.holding (some h) = .empty ∧
      ((∀ i, i ≠ some h → t.holding i = s.holding i) → t.kernel.table = s.kernel.table)
  /-- No access of a sender makes, removes or resizes anything under a name. -/
  spares : ∀ h answer (t : Senders inetPton), s.next (.step h answer) = some t →
    t.kernel.table.names = s.kernel.table.names ∧ t.kernel.sizes = s.kernel.sizes
  /-- A sender accesses memory through a mapping of its own; the only stores are those of a
  consumer's cursor. -/
  memory : ∀ h base access resume,
    (s.stage h).pending = some ⟨.own (.memory base access), resume⟩ → ConsumerAccess access ∧
      ∃ mapping, (s.holding (some h)).mappings base = some mapping ∧
        s.kernel.table.mappings base = some mapping
  /-- It sends on a socket of its own. -/
  sends : ∀ h socketFd datagram destination resume,
    (s.stage h).pending = some ⟨.own (.sendto socketFd datagram destination), resume⟩ →
      ∃ d, socketFd = some d ∧ (s.holding (some h)).descriptors d = some .socket ∧
        s.kernel.table.descriptors d = some .socket
  /-- No two senders have the same. -/
  apart : ∀ h h', h ≠ h' → (s.holding (some h)).Apart (s.holding (some h'))
  /-- A call that succeeds returns a sender with a valid configuration, and with a segment and a
  socket. As long as no sender with this socket is destroyed, there is one with all of that. -/
  succeeded : ∀ h config thread answer (t : Senders inetPton) sender, s.Reliable (.step h answer) →
    s.stage h = .initializing config thread → s.next (.step h answer) = some t →
    t.stage h = .idle sender → ∃ r : SenderResources, r.Live inetPton config sender ∧
      t.holding (some h) = r.table ∧
      ∀ u : Senders inetPton, Reaches Residents.next (fun s a => s.Reliable a ∧ Spares r s a) t u →
        ∃ x sender', (u.stage x).sender = some sender' ∧ r.Live inetPton config sender' ∧
          u.holding (some x) = r.table
  /-- A move hands everything on; what it leaves behind has nothing and only looks at its stop
  flag from then on. -/
  moved : ∀ h other leftover (t : Senders inetPton), s.next (.move h other leftover) = some t →
    t.holding (some h) = s.holding (some other) ∧
      ∀ u : Senders inetPton, Reaches Residents.next Residents.Reliable t u →
        u.holding (some other) = .empty ∧
        ∀ op resume, (u.stage other).pending = some ⟨op, resume⟩ → op = .own .loadStop
  /-- The destructor performs its farewell, and leaves nothing. -/
  destroyed : ∀ h sender (t : Senders inetPton), s.stage h = .idle sender →
    s.next (.call h .destroy) = some t →
    ∀ u : Senders inetPton, Reaches Residents.next Residents.Reliable t u →
      ∃ log, (u.stage h).log = some log ∧
      log <+: sender.farewell ∧
      (u.stage h = .destroyed log → log = sender.farewell ∧ u.holding (some h) = .empty)

theorem Ok.allOrNothing (hok : s.Ok) : s.AllOrNothing where
  failed h error t habsent hrun hfailed :=
    hok.undone (Residents.Ok.reaches hok hrun) habsent hfailed
  spares h answer t hnext := hok.spares hnext
  memory h base access resume hpending := by
    obtain ⟨⟨o, length, hmapping⟩, haccess⟩ := hok.uses hpending
    exact ⟨haccess, ⟨o, length⟩, hmapping, (hok.shared.part _).mappings _ _ hmapping⟩
  sends h socketFd datagram destination resume hpending := by
    obtain ⟨d, rfl, hsocket⟩ := hok.uses hpending
    exact ⟨d, rfl, hsocket, (hok.shared.part _).descriptors _ _ hsocket⟩
  apart h h' hne := hok.shared.apart _ _ fun heq => hne (Option.some.inj heq)
  succeeded h config thread answer t sender hreliable hstage hnext hidle := by
    obtain ⟨r, hlive, htable⟩ := hok.succeeded hreliable hstage hnext hidle
    refine ⟨r, hlive, htable, fun u hrun => ?_⟩
    have hbears : Bears t config r h := by
      rw [Bears, hidle]
      exact ⟨hlive, htable⟩
    obtain ⟨-, x, hbears'⟩ := hrun.invariant
      (I := fun u : Senders inetPton => u.Ok ∧ ∃ x, u.Bears config r x)
      ⟨Residents.Ok.next hok hreliable hnext, h, hbears⟩
      (fun _ _ _ ⟨hok, x, hbears⟩ ⟨hreliable, hspares⟩ hnext =>
        ⟨Residents.Ok.next hok hreliable hnext, hbears.next hok hreliable hspares hnext⟩)
    obtain ⟨sender', hsender', hlive', htable'⟩ := hbears'.object
    exact ⟨x, sender', hsender', hlive', htable'⟩
  moved h other leftover t hnext := by
    obtain ⟨hholding, hspent⟩ := hok.moved hnext
    refine ⟨hholding, fun u hrun => ?_⟩
    obtain ⟨-, hspent'⟩ := hrun.invariant
      (I := fun u : Senders inetPton => u.Ok ∧ u.Spent other)
      ⟨Residents.Ok.next hok (a := .move h other leftover) trivial hnext, hspent⟩
      (fun _ _ _ ⟨hok, hspent⟩ hreliable hnext =>
        ⟨Residents.Ok.next hok hreliable hnext, hspent.next hok hreliable hnext⟩)
    refine ⟨hspent'.2.2, fun op resume hpending => ?_⟩
    exact (SenderStage.spent_resume hspent'.1 hpending).1
  destroyed h sender t hidle hnext u hrun := hok.destroyed hidle hnext hrun

/-- The first bytes of a ring with two slots. -/
def sampleRing : Bytes :=
  [0x4c, 0x4c, 0x45, 0x31, 1, 0, 192, 0, 64, 1, 0, 0, 0, 0, 0, 0, 2, 0, 0, 0, 64, 0, 0, 0,
    0, 0, 0, 0, 0, 0, 0, 0, 1, 0, 0, 0, 0, 0, 0, 0, 2, 0, 0, 0]

/-- Every call succeeds, and the memory is that ring. -/
def sampleAnswer : (op : HostedOp senderOwnAccess) → op.Res
  | .system op =>
      match op with
      | .shmCreate _ => .ok 9
      | .shmOpen _ => .ok 4
      | .fstat _ => .ok 320
      | .mmap _ _ => .ok 4096
      | .socket => .ok 3
      | .getsockname _ => .ok 9000
      | .getrandom _ => .ok [1, 0, 0, 0]
      | .ftruncate _ _ => .ok ()
      | .munmap _ _ => .ok ()
      | .close _ => .ok ()
      | .shmUnlink _ => .ok ()
      | .bind _ _ _ => .ok ()
  | .own (.memory _ (.load offset length)) =>
      (sampleRing.drop offset ++ List.replicate 64 0).take length
  | .own (.memory _ (.store _ _)) => ()
  | .own .loadStop => false
  | .own .requestStop => ()
  | .own (.sendto _ datagram _) => .ok datagram.length

/-- Somebody makes a ring; the sender 0 attaches to it, and is moved. -/
def sampleActions : List (ResidentAction (senderKind fun _ => some 0)) :=
  [.others (.shmCreate (ascii "/ring")) (.ok 9), .others (.ftruncate 9 320) (.ok ()),
    .call 0 (.initializeSender
      { ingressShmName := ascii "/ring", receivers := [⟨ascii "10.0.0.1", 9000⟩] })] ++
    List.replicate 150 (.step 0 sampleAnswer) ++ [.move 1 0 []]

theorem sampleActions_reliable :
    ∀ a ∈ sampleActions, ∀ s : Senders fun _ => some 0, s.Reliable a := by
  intro a ha s
  simp only [sampleActions, List.cons_append, List.mem_cons, List.mem_append,
    List.mem_replicate, List.not_mem_nil, or_false, false_or] at ha
  obtain rfl | rfl | rfl | ⟨-, rfl⟩ | rfl := ha
  · trivial
  · trivial
  · trivial
  · intro op
    cases op with
    | munmap a length => rfl
    | close d => rfl
    | shmUnlink name => rfl
    | _ => trivial
  · trivial

end Senders

end EventEngine
