import EventEngine.Shm.Custody

/-!
# Who removes a name

A name of shared memory is removed only by a call on the object whose creation made the memory
that it denotes. An object that was attached, moved from or unlinked removes no name until it
gets a new segment.
-/

namespace EventEngine.Shm

open Concurrency Posix

/-- No path of the process changes what a name denotes, and `good` holds of its result. -/
abbrev Quiet {ℓ α : Type} (p : Process posixAccess ℓ α) (good : α → Prop) : Prop :=
  p.Meets (fun _ _ _ _ => True) (fun _ (op : Op) (_ : Unit) => op.changesNames = false)
    (fun a _ _ => good a) ()

namespace SharedMemorySegment

variable {ℓ : Type} {l : ℓ}

theorem inert_iff {self : SharedMemorySegment} :
    self.inert = true ↔ (self.owner && self.linked) = false := by
  rw [inert, Bool.not_eq_true']

theorem closeShm_quiet (self : SharedMemorySegment) :
    Quiet (self.closeShm l) fun r => r.1.inert = self.inert := by
  have hunmap : Quiet (self.unmap l) fun r => r.1.inert = self.inert := by
    rw [unmap]
    cases self.address with
    | none => rfl
    | some a =>
        refine ⟨rfl, ?_⟩
        rintro r ⟨⟩ -
        cases r with
        | error e => rfl
        | ok v => rfl
  have hdescriptor : ∀ (self : SharedMemorySegment) (l : ℓ),
      Quiet (self.closeDescriptor l) fun r => r.1.inert = self.inert := by
    intro self l
    rw [closeDescriptor]
    cases self.descriptor with
    | none => rfl
    | some d =>
        refine ⟨rfl, ?_⟩
        rintro r ⟨⟩ -
        cases r with
        | error e => rfl
        | ok v => rfl
  apply hunmap.bind
  rintro ⟨self1, unmapError⟩ l1 ⟨⟩ hinert
  apply (hdescriptor self1 l1).bind
  rintro ⟨self2, closeError⟩ l2 ⟨⟩ hinert'
  have hboth : self2.inert = self.inert := hinert'.trans hinert
  dsimp only
  split
  · exact hboth
  · split
    · exact hboth
    · exact hboth

theorem attachShm_quiet (name : Name) :
    Quiet (attachShm name l) fun r => ∀ segment, r = .ok segment → segment.inert = true := by
  have herror : ∀ e segment, (.error e : Except SegmentError SharedMemorySegment) = .ok segment →
      segment.inert = true := by
    intro e segment hr
    cases hr
  rw [attachShm]
  split
  · exact herror _
  refine ⟨rfl, ?_⟩
  rintro r ⟨⟩ -
  cases r with
  | error e => exact herror _
  | ok d =>
      refine ⟨rfl, ?_⟩
      rintro r ⟨⟩ -
      cases r with
      | error e => exact ⟨rfl, fun _ _ _ => herror _⟩
      | ok status =>
          simp only [Process.bind_done]
          split
          · exact ⟨rfl, fun _ _ _ => herror _⟩
          · refine ⟨rfl, ?_⟩
            rintro r ⟨⟩ -
            cases r with
            | error e => exact ⟨rfl, fun _ _ _ => herror _⟩
            | ok mapping =>
                intro segment hr
                cases hr
                rfl

end SharedMemorySegment

/-- Calls on the object remove no name, and leave it so. -/
def Slot.Inert : Slot → Prop
  | .absent => True
  | .idle segment => segment.inert = true
  | .lent segment _ => segment.inert = true
  | .running _ p => Quiet p fun outcome => ∀ segment, outcome.self = some segment →
      segment.inert = true

/-- The object `h` does not get a segment that may have a name. -/
def NotRenewed (h : Handle) (s : Handles) (a : Action) : Prop :=
  ∀ call, a = .begin h call → (∀ name size, call ≠ .create name size) ∧
    ∀ other, call.other = some other → other ≠ h → (s.slots other).Inert

namespace Handles

open SharedMemorySegment

variable {s t : Handles} {h x : Handle} {call : Call} {p : Process posixAccess Unit Outcome}
variable {outcome : Outcome}

theorem inert_ofOption (hinert : ∀ segment, outcome.self = some segment → segment.inert = true) :
    (Slot.ofOption outcome.self).Inert := by
  cases hself : outcome.self with
  | none => trivial
  | some segment => exact hinert segment hself

/-- A call that changes no names leaves its own object inert. -/
theorem settle_inert (hquiet : Quiet p fun outcome => ∀ segment,
    outcome.self = some segment → segment.inert = true) :
    ((s.settle h call p).slots h).Inert := by
  cases p with
  | done outcome l =>
      rw [settle, finish_slot]
      exact inert_ofOption hquiet
  | step l op next =>
      simp only [settle, Function.update_self]
      exact hquiet

/-- Where a call returns, the object that it moved from is inert; the others are as before. -/
theorem InCall.finish_other {l : Unit} (hcall : s.InCall h call (.done outcome l)) (hx : x ≠ h) :
    (call.other = some x → ((s.finish h call outcome).slots x).Inert) ∧
      (call.other ≠ some x → (s.finish h call outcome).slots x = s.slots x) := by
  obtain ⟨o, -, hfinishes⟩ := hcall.process
  have hfinishes : Finishes h o call outcome (s.holding h) := hfinishes
  unfold finish
  split
  case h_1 other leftover hother hmoved =>
    obtain ⟨-, -, -, hinert, -⟩ := hfinishes.moved leftover hmoved
    constructor
    · intro hx'
      rw [hother] at hx'
      obtain rfl := Option.some.inj hx'
      simp only [Function.update_of_ne hx, Function.update_self]
      exact hinert
    · intro hx'
      have hne : x ≠ other := by
        rintro rfl
        exact hx' hother
      simp only [Function.update_of_ne hx, Function.update_of_ne hne]
  case h_2 hnot =>
    constructor
    · intro hx'
      obtain ⟨leftover, hmoved⟩ := Option.isSome_iff_exists.mp (hfinishes.moves x hx' hx)
      exact absurd hmoved (hnot x leftover hx')
    · intro _
      exact Function.update_of_ne hx _ _

theorem InCall.settle_other (hcall : s.InCall h call p) (hx : x ≠ h)
    (hinert : (s.slots x).Inert) : ((s.settle h call p).slots x).Inert := by
  cases p with
  | done outcome l =>
      rw [settle]
      by_cases hother : call.other = some x
      · exact (hcall.finish_other hx).1 hother
      · rw [(hcall.finish_other hx).2 hother]
        exact hinert
  | step l op next =>
      simp only [settle, Function.update_of_ne hx]
      exact hinert

theorem lend_inert (hinert : (s.slots x).Inert) : ((s.lend h call).slots x).Inert := by
  unfold lend
  split
  case h_1 other hother =>
    split
    · exact hinert
    · split
      case h_1 o hidle =>
        by_cases hx : x = other
        · subst hx
          rw [hidle] at hinert
          simp only [Function.update_self]
          exact hinert
        · simp only [Function.update_of_ne hx]
          exact hinert
      case h_2 => exact hinert
  case h_2 => exact hinert

/-- A process that changes no names and leaves its object inert. -/
abbrev QuietCall (p : Process posixAccess Unit Outcome) : Prop :=
  Quiet p fun outcome => ∀ segment, outcome.self = some segment → segment.inert = true

theorem attachShm_quietCall (name : Name) : QuietCall ((created <$> attachShm name) ()) := by
  apply (attachShm_quiet name).bind
  rintro r l ⟨⟩ hattached
  cases r with
  | error e =>
      intro segment hself
      cases hself
  | ok self =>
      intro segment hself
      cases hself
      exact hattached _ rfl

theorem moveAssign_quietCall (self : SharedMemorySegment) {o : SharedMemorySegment}
    (leftover : Name) (hother : o.inert = true) :
    QuietCall (((fun r => { self := some r.1, other := some r.2 }) <$>
      self.moveAssign o leftover) ()) := by
  have hassign : Quiet ((self.moveAssign o leftover :
      Method posixAccess Unit (SharedMemorySegment × SharedMemorySegment)) ())
      fun r => r = o.move leftover := by
    apply (closeShm_quiet self).bind
    intros
    rfl
  apply hassign.bind
  rintro r l ⟨⟩ rfl segment hsegment
  cases hsegment
  exact hother

theorem closeShm_quietCall {self : SharedMemorySegment} (hinert : self.inert = true) :
    QuietCall (((fun r => { self := some r.1, result := r.2 }) <$> self.closeShm) ()) := by
  apply (closeShm_quiet self).bind
  rintro r l ⟨⟩ hsame segment hsegment
  cases hsegment
  exact hsame.trans hinert

/-- An inert object has no name to remove. -/
theorem unlink_quietCall {self : SharedMemorySegment} (hinert : self.inert = true) :
    QuietCall (((fun r => { self := some r.1, result := r.2 }) <$> self.unlink) ()) := by
  have hflags := inert_iff.mp hinert
  have hunlink : ∃ r, (self.unlink : Method posixAccess Unit _) () = .done (self, r) () := by
    unfold unlink
    cases howner : self.owner with
    | false => exact ⟨_, rfl⟩
    | true =>
        rw [howner, Bool.true_and] at hflags
        rw [hflags]
        exact ⟨_, rfl⟩
  obtain ⟨r, hr⟩ := hunlink
  rw [Method.map_apply, hr]
  intro segment hsegment
  cases hsegment
  exact hinert

theorem destroy_quietCall (self : SharedMemorySegment) :
    QuietCall (((fun _ => { self := none }) <$> self.destroy) ()) := by
  have hdestroy : Quiet ((self.destroy : Method posixAccess Unit Unit) ()) fun _ => True := by
    apply (closeShm_quiet self).bind
    intros
    trivial
  apply hdestroy.bind
  rintro r l ⟨⟩ - segment hsegment
  cases hsegment

/-- A call that does not renew an inert object changes no names. -/
theorem process_quiet (hinert : (s.slots h).Inert)
    (hcreate : ∀ name size, call ≠ .create name size)
    (hothers : ∀ other, call.other = some other → other ≠ h → (s.slots other).Inert)
    (hprocess : s.process h call = some p) : QuietCall p := by
  cases process_cases hprocess with
  | default habsent =>
      intro segment hself
      cases hself
      rfl
  | create name size habsent => exact absurd rfl (hcreate name size)
  | attach name habsent => exact attachShm_quietCall name
  | construct other leftover o habsent hidle hne =>
      have hother := hothers other rfl hne
      rw [hidle] at hother
      intro segment hself
      cases hself
      exact hother
  | assignSelf leftover self hself =>
      rw [hself] at hinert
      intro segment hsegment
      cases hsegment
      exact hinert
  | assign other leftover self o hself hidle hne =>
      have hother := hothers other rfl hne
      rw [hidle] at hother
      exact moveAssign_quietCall self leftover hother
  | close self hself =>
      rw [hself] at hinert
      exact closeShm_quietCall hinert
  | unlink self hself =>
      rw [hself] at hinert
      exact unlink_quietCall hinert
  | destroy self hself => exact destroy_quietCall self

/-- An inert object stays inert until it gets another segment. -/
theorem next_inert {a : Action} (hok : s.Ok) (hinert : (s.slots h).Inert)
    (hrenewed : NotRenewed h s a) (hnext : s.next a = some t) : (t.slots h).Inert := by
  cases a with
  | begin x call =>
      obtain ⟨p, hprocess, rfl⟩ := Option.map_eq_some_iff.mp hnext
      by_cases hx : h = x
      · subst hx
        obtain ⟨hcreate, hothers⟩ := hrenewed call rfl
        exact settle_inert (process_quiet hinert hcreate hothers hprocess)
      · exact (hok.begin hprocess).settle_other hx (lend_inert hinert)
  | step x answer =>
      simp only [next] at hnext
      split at hnext
      case h_1 call l op next hrunning =>
        obtain ⟨k, hperform, rfl⟩ := Option.map_eq_some_iff.mp hnext
        by_cases hx : h = x
        · subst hx
          rw [hrunning] at hinert
          exact settle_inert (hinert.2 (answer op) () trivial)
        · exact (hok.step _ hrunning hperform).2.settle_other hx hinert
      case h_2 => cases hnext

theorem settle_kernel (s : Handles) (h : Handle) (call : Call)
    (p : Process posixAccess Unit Outcome) : (s.settle h call p).kernel = s.kernel := by
  cases p with
  | done outcome l => exact s.finish_kernel h call outcome
  | step l op next => rfl

theorem lend_kernel (s : Handles) (h : Handle) (call : Call) :
    (s.lend h call).kernel = s.kernel ∧ (s.lend h call).returned = s.returned := by
  unfold lend
  split
  · split
    · exact ⟨rfl, rfl⟩
    · split
      · exact ⟨rfl, rfl⟩
      · exact ⟨rfl, rfl⟩
  · exact ⟨rfl, rfl⟩

/-- A step of an inert object changes no names. -/
theorem step_inert {answer : (op : Op) → op.Res} (hinert : (s.slots h).Inert)
    (hnext : s.next (.step h answer) = some t) :
    t.kernel.table.names = s.kernel.table.names := by
  simp only [next] at hnext
  split at hnext
  case h_1 call l op next hrunning =>
    obtain ⟨k, hperform, rfl⟩ := Option.map_eq_some_iff.mp hnext
    rw [hrunning] at hinert
    rw [settle_kernel]
    exact Kernel.perform_keeps_names hperform hinert.1
  case h_2 => cases hnext

/-- A name is removed only by the object that it is of, one at a time. -/
theorem Ok.removes {a : Action} {name : Name} {o : Object} (hok : s.Ok)
    (hnext : s.next a = some t) (hname : s.kernel.table.names name = some o)
    (hremoved : t.kernel.table.names name ≠ some o) :
    ∃ h answer, a = .step h answer ∧ (s.holding h).names name = some o ∧
      ∀ n, n ≠ name → t.kernel.table.names n = s.kernel.table.names n := by
  cases a with
  | begin h call =>
      obtain ⟨p, hprocess, rfl⟩ := Option.map_eq_some_iff.mp hnext
      rw [settle_kernel, (lend_kernel s h call).1] at hremoved
      exact absurd hname hremoved
  | step h answer =>
      simp only [next] at hnext
      split at hnext
      case h_1 call l op next hrunning =>
        obtain ⟨k, hperform, rfl⟩ := Option.map_eq_some_iff.mp hnext
        rw [settle_kernel] at hremoved ⊢
        obtain ⟨hallowed, -⟩ := hok.step [] hrunning hperform
        obtain ⟨rfl, hothers⟩ := Kernel.perform_removes hperform hname hremoved
        refine ⟨h, answer, rfl, ?_, hothers⟩
        obtain ⟨o', ho'⟩ := Option.ne_none_iff_exists'.mp hallowed
        rw [(hok.shared.part h).names name o' ho'] at hname
        rw [ho', Option.some.inj hname]
      case h_2 => cases hnext

/-- A call that returns leaves inert what it disarms and what it moved from. -/
theorem InCall.returned (hcall : s.InCall h call p) {e : Returned}
    (hreturned : (s.settle h call p).returned = e :: s.returned) :
    (e.call.disarms e.result = true → ((s.settle h call p).slots e.handle).Inert) ∧
      ∀ other, e.call.other = some other → other ≠ e.handle →
        ((s.settle h call p).slots other).Inert := by
  cases p with
  | step l op next => exact absurd hreturned.symm (List.cons_ne_self _ _)
  | done outcome l =>
      obtain ⟨o, -, hfinishes⟩ := hcall.process
      have hfinishes : Finishes h o call outcome (s.holding h) := hfinishes
      have he : e = ⟨h, call, outcome.result⟩ := by
        rw [settle, finish] at hreturned
        split at hreturned
        · exact (List.cons.inj hreturned).1.symm
        · exact (List.cons.inj hreturned).1.symm
      subst he
      rw [settle]
      constructor
      · intro hdisarms
        rw [finish_slot]
        exact inert_ofOption (hfinishes.inert hdisarms)
      · intro other hother hne
        exact (hcall.finish_other hne).1 hother

theorem Ok.returned {a : Action} {e : Returned} (hok : s.Ok) (hnext : s.next a = some t)
    (hreturned : t.returned = e :: s.returned) :
    (e.call.disarms e.result = true → (t.slots e.handle).Inert) ∧
      ∀ other, e.call.other = some other → other ≠ e.handle → (t.slots other).Inert := by
  cases a with
  | begin h call =>
      obtain ⟨p, hprocess, rfl⟩ := Option.map_eq_some_iff.mp hnext
      rw [← (lend_kernel s h call).2] at hreturned
      exact (hok.begin hprocess).returned hreturned
  | step h answer =>
      simp only [next] at hnext
      split at hnext
      case h_1 call l op next hrunning =>
        obtain ⟨k, hperform, rfl⟩ := Option.map_eq_some_iff.mp hnext
        exact (hok.step _ hrunning hperform).2.returned hreturned
      case h_2 => cases hnext

/-- What the objects at rest own. -/
structure NamesOwned (s : Handles) : Prop where
  denotes : ∀ h segment, s.slots h = .idle segment → segment.owner = true →
    segment.linked = true → ∃ o, (s.holding h).names segment.name = some o ∧
      s.kernel.table.names segment.name = some o
  unique : ∀ h h' segment segment', s.slots h = .idle segment → s.slots h' = .idle segment' →
    segment.owner = true → segment.linked = true → segment'.owner = true →
    segment'.linked = true → segment.name = segment'.name → h = h'

theorem Ok.namesOwned (hok : s.Ok) : s.NamesOwned where
  denotes h segment hidle howner hlinked := by
    have howns := hok.slot h
    rw [hidle] at howns
    obtain ⟨o, ho⟩ := howns.name howner hlinked
    exact ⟨o, ho, (hok.shared.part h).names _ _ ho⟩
  unique h h' segment segment' hidle hidle' howner hlinked howner' hlinked' hname := by
    have howns := hok.slot h
    have howns' := hok.slot h'
    rw [hidle] at howns
    rw [hidle'] at howns'
    obtain ⟨o, ho⟩ := howns.name howner hlinked
    obtain ⟨o', ho'⟩ := howns'.name howner' hlinked'
    by_contra hne
    obtain hnone | hnone := (hok.shared.apart h h' hne).names segment.name
    · rw [hnone] at ho
      cases ho
    · rw [hname, ho'] at hnone
      cases hnone

/-- However the calls on any number of objects interleave and fail: an owner's name denotes the
memory that its creation made, and it is its only owner. A name is removed only by a call on the
object whose creation made the memory it denotes, so that no object loses a name to another.
Once an object was attached, unlinked or moved from, no call on it changes a name, until it
gets a segment of another kind. -/
theorem names_removed_by_owners {kernel : Kernel}
    (hrun : Reaches next anyAction (initial kernel) s) :
    s.NamesOwned ∧
    (∀ a t, s.next a = some t → ∀ name o, s.kernel.table.names name = some o →
      t.kernel.table.names name ≠ some o →
        ∃ h answer, a = .step h answer ∧ (s.holding h).names name = some o ∧
          ∀ n, n ≠ name → t.kernel.table.names n = s.kernel.table.names n) ∧
    (∀ a t, s.next a = some t → ∀ h name o, (s.holding h).names name = some o →
      (∀ answer, a ≠ .step h answer) → t.kernel.table.names name = some o) ∧
    (∀ a t e, s.next a = some t → t.returned = e :: s.returned →
      (e.call.disarms e.result = true → (t.slots e.handle).Inert) ∧
        ∀ other, e.call.other = some other → other ≠ e.handle → (t.slots other).Inert) ∧
    ∀ h, (s.slots h).Inert → ∀ t, Reaches next (NotRenewed h) s t →
      (t.slots h).Inert ∧ ∀ answer u, t.next (.step h answer) = some u →
        u.kernel.table.names = t.kernel.table.names := by
  have hok := reaches_ok hrun
  refine ⟨hok.namesOwned, ?_, ?_, ?_, ?_⟩
  · intro a t hnext name o hname hremoved
    exact hok.removes hnext hname hremoved
  · intro a t hnext h name o hname hothers
    by_contra hremoved
    obtain ⟨h', answer, rfl, hname', -⟩ :=
      hok.removes hnext ((hok.shared.part h).names name o hname) hremoved
    have hne : h' ≠ h := by
      rintro rfl
      exact hothers answer rfl
    obtain hnone | hnone := (hok.shared.apart h' h hne).names name
    · rw [hnone] at hname'
      cases hname'
    · rw [hnone] at hname
      cases hname
  · intro a t e hnext hreturned
    exact hok.returned hnext hreturned
  · intro h hinert t hmoves
    have hboth : t.Ok ∧ (t.slots h).Inert := by
      apply hmoves.invariant (I := fun u => u.Ok ∧ (u.slots h).Inert)
      · exact ⟨hok, hinert⟩
      · rintro u a v ⟨hu, hinert⟩ hrenewed hnext
        exact ⟨next_ok hu hnext, next_inert hu hinert hrenewed hnext⟩
    exact ⟨hboth.2, fun answer u hnext => step_inert hboth.2 hnext⟩

/-- Every call succeeds, with the same descriptor and address. -/
def sampleAnswer : (op : Op) → op.Res
  | .shmCreate _ => .ok 3
  | .shmOpen _ => .ok 3
  | .fstat _ => .ok 64
  | .mmap _ _ => .ok 4096
  | .socket => .ok 3
  | .getsockname _ => .ok 0
  | .getrandom _ => .ok []
  | .ftruncate _ _ => .ok ()
  | .munmap _ _ => .ok ()
  | .close _ => .ok ()
  | .shmUnlink _ => .ok ()
  | .bind _ _ _ => .ok ()

/-- The object 0 creates, closes and unlinks; then the object 1 reuses the name. -/
def sampleActions : List Action :=
  let create (h : Handle) := [Action.begin h (.create (ascii "/ring") 64),
    .step h sampleAnswer, .step h sampleAnswer, .step h sampleAnswer]
  create 0 ++ [.begin 0 .close, .step 0 sampleAnswer, .step 0 sampleAnswer,
    .begin 0 .unlink, .step 0 sampleAnswer] ++ create 1

theorem names_removed_by_owners_sample :
    ∃ s, runActions next anyAction (initial {}) sampleActions = some s ∧
      s.kernel.table.names (ascii "/ring") = some 1 ∧
      ∀ t, Reaches next (NotRenewed 0) s t → ∀ answer u, t.next (.step 0 answer) = some u →
        u.kernel.table.names = t.kernel.table.names := by
  have hsample : (runActions next anyAction (initial {}) sampleActions).map (fun s =>
      (s.kernel.table.names (ascii "/ring"), s.slots 0)) = some (some 1, .idle
        { name := ascii "/ring", owner := true }) := by
    rfl
  obtain ⟨s, hs, hboth⟩ := Option.map_eq_some_iff.mp hsample
  obtain ⟨hname, hslot⟩ := Prod.mk.inj hboth
  refine ⟨s, hs, hname, ?_⟩
  intro t hmoves answer u hnext
  have hinert : (s.slots 0).Inert := by
    rw [hslot]
    rfl
  exact ((names_removed_by_owners (reaches_of_runActions hs)).2.2.2.2 0 hinert t hmoves).2
    answer u hnext

end Handles

end EventEngine.Shm
