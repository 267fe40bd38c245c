import EventEngine.Shm.Handles

/-!
# Who has what

The invariant of the objects and their calls: an object at rest has what its fields stand for,
a call in progress gives back only what its object has, and what one object has no other has.
-/

namespace EventEngine.Shm

open Concurrency Posix

/-- The segment would not remove a name. -/
def SharedMemorySegment.inert (segment : SharedMemorySegment) : Bool :=
  !(segment.owner && segment.linked)

/-- The object cannot remove a name after such a call. -/
def Call.disarms : Call → Except SegmentError Unit → Bool
  | .attach _, _ => true
  | .unlink, .ok _ => true
  | _, _ => false

/-- What a call of `h` that returns leaves; `o` is the segment that was lent to it. -/
structure Finishes (h : Handle) (o : Option SharedMemorySegment) (call : Call)
    (outcome : Outcome) (t : Table) : Prop where
  kept : outcome.other = none → ∀ segment, outcome.self = some segment → segment.Owns t
  moved : ∀ leftover, outcome.other = some leftover →
    (∃ other, call.other = some other ∧ other ≠ h) ∧ outcome.self = o ∧ o.isSome = true ∧
      leftover.inert = true ∧ leftover.Owns .empty
  moves : ∀ other, call.other = some other → other ≠ h → outcome.other.isSome = true
  inert : call.disarms outcome.result = true → ∀ segment, outcome.self = some segment →
    segment.inert = true

/-- A call that moves from no other object. -/
theorem Finishes.alone {h : Handle} {o : Option SharedMemorySegment} {call : Call}
    {outcome : Outcome} {t : Table} (hnone : outcome.other = none)
    (hother : ∀ other, call.other = some other → other = h)
    (howns : ∀ segment, outcome.self = some segment → segment.Owns t)
    (hinert : call.disarms outcome.result = true → ∀ segment, outcome.self = some segment →
      segment.inert = true) : Finishes h o call outcome t where
  kept _ := howns
  moved leftover hmoved := by
    rw [hnone] at hmoved
    cases hmoved
  moves other hmoves hne := absurd (hother other hmoves) hne
  inert := hinert

namespace Handles

variable {s t : Handles} {h : Handle} {call : Call} {o : Option SharedMemorySegment}
variable {p : Process posixAccess Unit Outcome} {outcome : Outcome}

/-- The segment `o` is lent to the call of `h`, if the call moves from another object. -/
def Lends (s : Handles) (h : Handle) (call : Call) (o : Option SharedMemorySegment) : Prop :=
  ∀ other, call.other = some other → other ≠ h →
    ∃ segment, o = some segment ∧ s.slots other = .lent segment h

def SlotOk (s : Handles) (h : Handle) : Slot → Prop
  | .absent => s.holding h = .empty
  | .idle segment => segment.Owns (s.holding h)
  | .lent segment borrower => segment.Owns (s.holding h) ∧
      ∃ call p, s.slots borrower = .running call p ∧ call.other = some h
  | .running call p => ∃ o, s.Lends h call o ∧
      Keeps False p (s.holding h) (Finishes h o call)

/-- The invariant. -/
structure Ok (s : Handles) : Prop where
  shared : s.kernel.Shared s.holding
  slot : ∀ h, s.SlotOk h (s.slots h)

/-- What an object has to do with others stays as it is. -/
theorem SlotOk.frame (hok : s.SlotOk h (s.slots h)) (hslot : t.slots h = s.slots h)
    (hholding : t.holding h = s.holding h)
    (hborrower : ∀ b call p, s.slots b = .running call p → call.other = some h →
      t.slots b = s.slots b)
    (hlender : ∀ x segment, s.slots x = .lent segment h → t.slots x = s.slots x) :
    t.SlotOk h (t.slots h) := by
  rw [hslot]
  cases hcase : s.slots h with
  | absent =>
      rw [hcase] at hok
      exact hholding.trans hok
  | idle segment =>
      rw [hcase] at hok
      change segment.Owns (t.holding h)
      rw [hholding]
      exact hok
  | lent segment borrower =>
      rw [hcase] at hok
      obtain ⟨howns, call, p, hrunning, hother⟩ := hok
      refine ⟨by rw [hholding]; exact howns, call, p, ?_, hother⟩
      rw [hborrower borrower call p hrunning hother]
      exact hrunning
  | running call p =>
      rw [hcase] at hok
      obtain ⟨o, hlends, hkeeps⟩ := hok
      refine ⟨o, ?_, by rw [hholding]; exact hkeeps⟩
      intro other hother hne
      obtain ⟨segment, hsome, hlent⟩ := hlends other hother hne
      refine ⟨segment, hsome, ?_⟩
      rw [hlender other segment hlent]
      exact hlent

/-- A call of `h` is in progress; its process is `p`. Its slot is that of the call, or it is
not lent. -/
structure InCall (s : Handles) (h : Handle) (call : Call)
    (p : Process posixAccess Unit Outcome) : Prop where
  shared : s.kernel.Shared s.holding
  others : ∀ x, x ≠ h → call.other ≠ some x → s.SlotOk x (s.slots x)
  place : ∀ call' p', s.slots h = .running call' p' → call' = call
  free : ∀ segment borrower, s.slots h ≠ .lent segment borrower
  process : ∃ o, s.Lends h call o ∧ Keeps False p (s.holding h) (Finishes h o call)
  lender : ∀ other, call.other = some other → other ≠ h → ∀ segment,
    s.slots other = .lent segment h → segment.Owns (s.holding other)
  borrows : ∀ x segment, s.slots x = .lent segment h → call.other = some x

namespace InCall

/-- Another object, when the slots of `h` and of its lender change. -/
theorem other_slot (hcall : s.InCall h call p) {x : Handle} (hx : x ≠ h)
    (hnot : call.other ≠ some x) (hholding : t.holding x = s.holding x)
    (hslots : ∀ y, y ≠ h → call.other ≠ some y → t.slots y = s.slots y) :
    t.SlotOk x (t.slots x) := by
  obtain ⟨o, hlends, -⟩ := hcall.process
  apply (hcall.others x hx hnot).frame (hslots x hx hnot) hholding
  · intro b call' p' hrunning hother
    apply hslots
    · rintro rfl
      rw [hcall.place call' p' hrunning] at hother
      exact hnot hother
    · intro hb
      by_cases hbh : b = h
      · subst hbh
        rw [hcall.place call' p' hrunning] at hother
        exact hnot hother
      · obtain ⟨segment, -, hlent⟩ := hlends b hb hbh
        rw [hrunning] at hlent
        cases hlent
  · intro y segment hlent
    apply hslots
    · rintro rfl
      exact hcall.free segment x hlent
    · intro hy
      by_cases hyh : y = h
      · subst hyh
        exact hcall.free segment x hlent
      · obtain ⟨segment', -, hlent'⟩ := hlends y hy hyh
        rw [hlent] at hlent'
        cases hlent'
        exact hx rfl

/-- The call waits for a system call. -/
theorem running_ok (hcall : s.InCall h call p) :
    Ok { s with slots := Function.update s.slots h (.running call p) } where
  shared := hcall.shared
  slot := by
    intro x
    obtain ⟨o, hlends, hkeeps⟩ := hcall.process
    by_cases hx : x = h
    · subst hx
      simp only [Function.update_self]
      refine ⟨o, ?_, hkeeps⟩
      intro other hother hne
      obtain ⟨segment, hsome, hlent⟩ := hlends other hother hne
      refine ⟨segment, hsome, ?_⟩
      rw [← hlent]
      exact Function.update_of_ne hne _ _
    · by_cases hother : call.other = some x
      · obtain ⟨segment, -, hlent⟩ := hlends x hother hx
        simp only [Function.update_of_ne hx, hlent]
        exact ⟨hcall.lender x hother hx segment hlent, call, p,
          Function.update_self _ _ _, hother⟩
      · exact hcall.other_slot hx hother rfl fun y hy _ => Function.update_of_ne hy _ _

/-- A move returns. -/
theorem finish_moved_ok {u : Unit} {leftover : SharedMemorySegment}
    (hcall : s.InCall h call (.done outcome u)) (hmoved : outcome.other = some leftover) :
    Ok (s.finish h call outcome) := by
  obtain ⟨o, hlends, hfinishes⟩ := hcall.process
  have hfinishes : Finishes h o call outcome (s.holding h) := hfinishes
  obtain ⟨⟨other, hother, hne⟩, hself, hsome, hinert, howns⟩ := hfinishes.moved leftover hmoved
  obtain ⟨segment, rfl, hlent⟩ := hlends other hother hne
  have hlender := hcall.lender other hother hne segment hlent
  have hover := s.finish_handedOver hother hmoved hne
  constructor
  · simp only [finish, hother, hmoved]
    exact hcall.shared.takeOver hne.symm
  · intro x
    by_cases hx : x = h
    · subst hx
      rw [finish_slot, hself]
      change segment.Owns ((s.finish x call outcome).holding x)
      rw [hover.taken]
      exact hlender
    · by_cases hxo : x = other
      · subst hxo
        rw [hover.leftover]
        change leftover.Owns ((s.finish h call outcome).holding x)
        rw [hover.given]
        exact howns
      · apply hcall.other_slot hx
        · rw [hother]
          exact fun heq => hxo (Option.some.inj heq).symm
        · exact hover.holding x hx hxo
        · intro y hy hyo
          apply hover.slot y hy
          rintro rfl
          exact hyo hother

/-- A call that moves from no other object returns. -/
theorem finish_alone_ok {u : Unit} (hcall : s.InCall h call (.done outcome u))
    (hmoved : outcome.other = none) : Ok (s.finish h call outcome) := by
  obtain ⟨o, -, hfinishes⟩ := hcall.process
  have hfinishes : Finishes h o call outcome (s.holding h) := hfinishes
  have hnobody : ∀ x, x ≠ h → call.other ≠ some x := by
    intro x hx hother
    have hsome := hfinishes.moves x hother hx
    rw [hmoved] at hsome
    cases hsome
  rw [finish_alone s h call hmoved]
  cases hself : outcome.self with
  | some segment =>
      constructor
      · exact hcall.shared
      · intro x
        by_cases hx : x = h
        · subst hx
          simp only [Function.update_self]
          exact hfinishes.kept hmoved segment hself
        · exact hcall.other_slot hx (hnobody x hx) rfl
            fun y hy _ => Function.update_of_ne hy _ _
  | none =>
      constructor
      · exact hcall.shared.forget h
      · intro x
        by_cases hx : x = h
        · subst hx
          simp only [Function.update_self]
          exact Function.update_self _ _ _
        · exact hcall.other_slot hx (hnobody x hx) (Function.update_of_ne hx _ _)
            fun y hy _ => Function.update_of_ne hy _ _

/-- The call returns. -/
theorem finish_ok {u : Unit} (hcall : s.InCall h call (.done outcome u)) :
    Ok (s.finish h call outcome) := by
  cases hmoved : outcome.other with
  | some leftover => exact hcall.finish_moved_ok hmoved
  | none => exact hcall.finish_alone_ok hmoved

/-- So the invariant holds wherever the call is. -/
theorem settle_ok (hcall : s.InCall h call p) : Ok (s.settle h call p) := by
  cases p with
  | done outcome u => exact hcall.finish_ok
  | step l op next => exact hcall.running_ok

end InCall

/-- Whoever borrows an object is in a call that moves from it. -/
theorem Ok.borrows (hok : s.Ok) {x : Handle} {segment : SharedMemorySegment}
    (hlent : s.slots x = .lent segment h) :
    segment.Owns (s.holding x) ∧
      ∃ call p, s.slots h = .running call p ∧ call.other = some x := by
  have hslot := hok.slot x
  rw [hlent] at hslot
  exact hslot

/-- One system call of a call in progress. -/
theorem Ok.step {l : Unit} {op : Op} {r : op.Res} {next : op.Res → Process posixAccess Unit Outcome}
    {k : Kernel} (hok : s.Ok) (performed : List (Handle × ((op : Op) × op.Res)))
    (hrunning : s.slots h = .running call (.step l op next))
    (hperform : s.kernel.perform op r = some k) :
    Allowed (s.holding h) op ∧
      InCall { s with
        kernel := k
        holding := Function.update s.holding h (s.kernel.effect op r (s.holding h))
        performed } h call (next r) := by
  have hslot := hok.slot h
  rw [hrunning] at hslot
  obtain ⟨o, hlends, hallowed, hnext⟩ := hslot
  have hpossible := (Kernel.perform_cases hperform).1
  refine ⟨hallowed, ?_⟩
  exact
    { shared := hok.shared.perform hallowed.possessed hperform
      others := fun x hx _ => (hok.slot x).frame rfl (Function.update_of_ne hx _ _)
        (fun _ _ _ _ _ => rfl) fun _ _ _ => rfl
      place := fun call' p' hplace => by
        rw [hrunning] at hplace
        cases hplace
        rfl
      free := fun segment borrower hlent => by
        rw [hrunning] at hlent
        cases hlent
      process := by
        refine ⟨o, hlends, ?_⟩
        simp only [Function.update_self]
        exact hnext r _ ⟨⟨s.kernel, hok.shared.part h, hpossible, rfl⟩, False.elim⟩
      lender := fun other _ hne segment hlent => by
        simp only [Function.update_of_ne hne]
        exact (hok.borrows hlent).1
      borrows := fun x segment hlent => by
        obtain ⟨-, call', p', hplace, hother⟩ := hok.borrows hlent
        rw [hrunning] at hplace
        cases hplace
        exact hother }

/-- The object is in no call. -/
def AtRest (s : Handles) (h : Handle) : Prop :=
  s.slots h = .absent ∨ ∃ segment, s.slots h = .idle segment

theorem AtRest.not_running (hrest : s.AtRest h) (call : Call)
    (p : Process posixAccess Unit Outcome) : s.slots h ≠ .running call p := by
  rintro hrunning
  obtain habsent | ⟨segment, hidle⟩ := hrest
  · rw [hrunning] at habsent
    cases habsent
  · rw [hrunning] at hidle
    cases hidle

theorem AtRest.not_lent (hrest : s.AtRest h) (segment : SharedMemorySegment)
    (borrower : Handle) : s.slots h ≠ .lent segment borrower := by
  rintro hlent
  obtain habsent | ⟨segment', hidle⟩ := hrest
  · rw [hlent] at habsent
    cases habsent
  · rw [hlent] at hidle
    cases hidle

/-- A call begins that moves from no other object. -/
theorem Ok.begin_alone (hok : s.Ok) (hrest : s.AtRest h)
    (hother : ∀ other, call.other = some other → other = h)
    (hkeeps : Keeps False p (s.holding h) (Finishes h none call)) : s.InCall h call p where
  shared := hok.shared
  others x _ _ := hok.slot x
  place call' p' hrunning := absurd hrunning (hrest.not_running call' p')
  free := hrest.not_lent
  process := ⟨none, fun other hmoves hne => absurd (hother other hmoves) hne, hkeeps⟩
  lender other hmoves hne := absurd (hother other hmoves) hne
  borrows x segment hlent := by
    obtain ⟨-, call', p', hrunning, -⟩ := hok.borrows hlent
    exact absurd hrunning (hrest.not_running call' p')

/-- A call begins that moves from the object `other`. -/
theorem Ok.begin_move {other : Handle} {segment : SharedMemorySegment} (hok : s.Ok)
    (hrest : s.AtRest h) (hother : call.other = some other) (hne : other ≠ h)
    (hidle : s.slots other = .idle segment)
    (hkeeps : Keeps False p (s.holding h) (Finishes h (some segment) call)) :
    (s.lend h call).InCall h call p := by
  have hlend : s.lend h call =
      { s with slots := Function.update s.slots other (.lent segment h) } := by
    simp only [lend, hother, if_neg hne, hidle]
  have hslot : (s.lend h call).slots h = s.slots h := by
    rw [hlend]
    exact Function.update_of_ne hne.symm _ _
  have howns := hok.slot other
  rw [hidle] at howns
  have hlent : ∀ x segment', (s.lend h call).slots x = .lent segment' h → x = other := by
    intro x segment' hx
    by_contra hxo
    rw [hlend] at hx
    simp only [Function.update_of_ne hxo] at hx
    obtain ⟨-, call', p', hrunning, -⟩ := hok.borrows hx
    exact hrest.not_running call' p' hrunning
  exact
    { shared := by rw [hlend]; exact hok.shared
      others := by
        intro x hx hxo
        have hxo' : x ≠ other := by
          rintro rfl
          exact hxo hother
        rw [hlend]
        refine (hok.slot x).frame ?_ rfl ?_ ?_
        · exact Function.update_of_ne hxo' _ _
        · intro b call' p' hrunning _
          apply Function.update_of_ne
          rintro rfl
          rw [hidle] at hrunning
          cases hrunning
        · intro y segment' hy
          apply Function.update_of_ne
          rintro rfl
          rw [hidle] at hy
          cases hy
      place := by
        intro call' p' hrunning
        rw [hslot] at hrunning
        exact absurd hrunning (hrest.not_running call' p')
      free := by
        rw [hslot]
        exact hrest.not_lent
      process := by
        refine ⟨some segment, ?_, by rw [hlend]; exact hkeeps⟩
        intro other' hother' hne'
        rw [hother] at hother'
        obtain rfl := Option.some.inj hother'
        refine ⟨segment, rfl, ?_⟩
        rw [hlend]
        exact Function.update_self _ _ _
      lender := by
        intro other' hother' hne' segment' hlent'
        rw [hother] at hother'
        obtain rfl := Option.some.inj hother'
        rw [hlend] at hlent' ⊢
        simp only [Function.update_self] at hlent'
        cases hlent'
        exact howns
      borrows := by
        intro x segment' hx
        rw [hlent x segment' hx]
        exact hother }

end Handles

namespace SharedMemorySegment

variable {self self' : SharedMemorySegment} {t t' : Table} {r : Except SegmentError Unit}

/-- A default segment, or one that was moved from, needs nothing. -/
theorem movedFrom_owns (name : Name) (t : Table) : (movedFrom name).Owns t where
  name howner := by cases howner
  descriptor d hd := by cases hd
  mapping a ha := by cases ha
  unmapped _ := rfl

/-- What the constructor for a descriptor and a mapping needs. -/
theorem mapped_owns {name : Name} {d : Descriptor} {o : Object} {a : Address} {size : UInt64}
    {owner : Bool} (hname : owner = true → ∃ o, t.names name = some o)
    (hd : t.descriptors d = some (.object o)) (ha : t.mappings a = some ⟨o, size⟩) :
    (mapped name d a size owner).Owns t where
  name howner _ := hname howner
  descriptor d' hd' := by
    cases hd'
    exact ⟨o, hd⟩
  mapping a' ha' := by
    cases ha'
    exact ⟨o, ha⟩
  unmapped hnone := by cases hnone

/-- What is left after `close_shm` is owned. -/
theorem Closed.owns (howns : self.Owns t) (hclosed : Closed False self t self' t') :
    self'.Owns t' := by
  have hnames : t'.names = t.names := by
    obtain ⟨-, rfl⟩ | ⟨-, rfl, -, -⟩ := hclosed
    · cases self.address <;> cases self.descriptor <;> rfl
    · cases self.descriptor <;> rfl
  obtain ⟨rfl, rfl⟩ | ⟨rfl, rfl, -, -⟩ := hclosed
  · exact
      { name := fun howner hlinked => by
          rw [hnames]
          exact howns.name howner hlinked
        descriptor := fun d hd => by cases hd
        mapping := fun a ha => by cases ha
        unmapped := fun _ => rfl }
  · exact
      { name := fun howner hlinked => by
          rw [hnames]
          exact howns.name howner hlinked
        descriptor := fun d hd => by cases hd
        mapping := fun a ha => by
          have hmapping := howns.mapping a ha
          cases hdescriptor : self.descriptor with
          | none => exact hmapping
          | some d => exact hmapping
        unmapped := howns.unmapped }

theorem Unlinked.owns (howns : self.Owns t) (hunlinked : Unlinked False self t self' r t') :
    self'.Owns t' ∧ (r = .ok () → self'.inert = true) := by
  obtain ⟨rfl, rfl, hinert⟩ | ⟨howner, hlinked, hcase⟩ := hunlinked
  · refine ⟨howns, ?_⟩
    intro _
    rw [inert, hinert]
    rfl
  · obtain ⟨rfl, -, hname⟩ | ⟨rfl, rfl, hr, -⟩ := hcase
    · have hkept : t'.descriptors = t.descriptors ∧ t'.mappings = t.mappings := by
        obtain rfl | ⟨rfl, -⟩ := hname
        · exact ⟨rfl, rfl⟩
        · exact ⟨rfl, rfl⟩
      constructor
      · exact
          { name := fun _ hno => by cases hno
            descriptor := by rw [hkept.1]; exact howns.descriptor
            mapping := by rw [hkept.2]; exact howns.mapping
            unmapped := howns.unmapped }
      · intro _
        simp [inert]
    · exact ⟨howns, fun hok => absurd hok hr⟩

end SharedMemorySegment

namespace Handles

open SharedMemorySegment

variable {s t : Handles} {h : Handle} {call : Call} {p : Process posixAccess Unit Outcome}
variable {self : SharedMemorySegment} {table : Table}

/-- Every call leaves what the invariant needs. -/
theorem createShm_finishes (name : Name) (size : UInt64) :
    Keeps False ((created <$> createShm name size : Method posixAccess Unit Outcome) ()) .empty
      (Finishes h none (.create name size)) := by
  apply (createShm_keeps name size .empty).bind
  rintro r l t hcreated
  cases r with
  | error e =>
      apply Finishes.alone rfl
      · intro other hother
        cases hother
      · intro segment hself
        cases hself
      · intro hdisarms
        cases hdisarms
  | ok self =>
      obtain ⟨d, o, a, rfl, -, -, -, rfl⟩ := hcreated
      apply Finishes.alone rfl
      · intro other hother
        cases hother
      · intro segment hself
        cases hself
        exact mapped_owns (o := o) (fun _ => ⟨o, by simp⟩) (by simp) (by simp)
      · intro hdisarms
        cases hdisarms

theorem attachShm_finishes (name : Name) :
    Keeps False ((created <$> attachShm name : Method posixAccess Unit Outcome) ()) .empty
      (Finishes h none (.attach name)) := by
  apply (attachShm_keeps name .empty).bind
  rintro r l t hattached
  cases r with
  | error e =>
      apply Finishes.alone rfl
      · intro other hother
        cases hother
      · intro segment hself
        cases hself
      · intro _ segment hself
        cases hself
  | ok self =>
      obtain ⟨d, o, a, size, rfl, -, -, rfl⟩ := hattached
      apply Finishes.alone rfl
      · intro other hother
        cases hother
      · intro segment hself
        cases hself
        exact mapped_owns (o := o) (fun howner => by cases howner) (by simp) (by simp)
      · intro _ segment hself
        cases hself
        rfl

theorem closeShm_finishes (howns : self.Owns table) :
    Keeps False (((fun r => { self := some r.1, result := r.2 }) <$> self.closeShm :
      Method posixAccess Unit Outcome) ()) table (Finishes h none .close) := by
  apply (closeShm_keeps howns).bind
  rintro r l t hclosed
  apply Finishes.alone rfl
  · intro other hother
    cases hother
  · intro segment hself
    cases hself
    exact hclosed.owns howns
  · intro hdisarms
    cases hdisarms

theorem unlink_finishes (howns : self.Owns table) :
    Keeps False (((fun r => { self := some r.1, result := r.2 }) <$> self.unlink :
      Method posixAccess Unit Outcome) ()) table (Finishes h none .unlink) := by
  apply (unlink_keeps howns).bind
  rintro ⟨self', r⟩ l t hunlinked
  obtain ⟨howns', hinert⟩ := Unlinked.owns howns hunlinked
  apply Finishes.alone rfl
  · intro other hother
    cases hother
  · intro segment hself
    cases hself
    exact howns'
  · intro hdisarms segment hself
    cases hself
    cases r with
    | error e => cases hdisarms
    | ok v => exact hinert rfl

theorem destroy_finishes (howns : self.Owns table) :
    Keeps False (((fun _ => { self := none }) <$> self.destroy :
      Method posixAccess Unit Outcome) ()) table (Finishes h none .destroy) := by
  have hdestroy : Keeps False ((self.destroy : Method posixAccess Unit Unit) ()) table
      fun _ _ => True := by
    apply (closeShm_keeps howns).bind
    intros
    trivial
  apply hdestroy.bind
  rintro r l t -
  apply Finishes.alone rfl
  · intro other hother
    cases hother
  · intro segment hself
    cases hself
  · intro hdisarms
    cases hdisarms

/-- A move leaves the other segment, and nothing in its place. -/
theorem finishes_move {o : SharedMemorySegment} {other : Handle} (leftover : Name)
    (hother : call.other = some other) (hne : other ≠ h)
    (hdisarms : ∀ r, call.disarms r = false) :
    Finishes h (some o) call
      { self := some (o.move leftover).1, other := some (o.move leftover).2 } table where
  kept hnone := by cases hnone
  moved leftover' hmoved := by
    cases hmoved
    exact ⟨⟨other, hother, hne⟩, rfl, rfl, rfl, movedFrom_owns leftover .empty⟩
  moves _ _ _ := rfl
  inert hyes := by
    rw [hdisarms] at hyes
    cases hyes

theorem moveAssign_finishes {o : SharedMemorySegment} {other : Handle} {leftover : Name}
    (howns : self.Owns table) (hne : other ≠ h) :
    Keeps False (((fun r => { self := some r.1, other := some r.2 }) <$>
      self.moveAssign o leftover : Method posixAccess Unit Outcome) ()) table
        (Finishes h (some o) (.assign other leftover)) := by
  have hassign : Keeps False ((self.moveAssign o leftover :
      Method posixAccess Unit (SharedMemorySegment × SharedMemorySegment)) ()) table
      fun r _ => r = o.move leftover := by
    apply (closeShm_keeps howns).bind
    intros
    rfl
  apply hassign.bind
  rintro r l t rfl
  exact finishes_move leftover rfl hne fun r => rfl

/-- A call begins. -/
theorem Ok.begin (hok : s.Ok) (hprocess : s.process h call = some p) :
    (s.lend h call).InCall h call p := by
  have hslot := hok.slot h
  cases process_cases hprocess with
  | default habsent =>
      apply hok.begin_alone (.inl habsent)
      · intro other hother
        cases hother
      · apply Finishes.alone rfl
        · intro other hother
          cases hother
        · intro segment hself
          cases hself
          exact movedFrom_owns [] _
        · intro hdisarms
          cases hdisarms
  | create name size habsent =>
      rw [habsent] at hslot
      apply hok.begin_alone (.inl habsent)
      · intro other hother
        cases hother
      · rw [show s.holding h = .empty from hslot]
        exact createShm_finishes name size
  | attach name habsent =>
      rw [habsent] at hslot
      apply hok.begin_alone (.inl habsent)
      · intro other hother
        cases hother
      · rw [show s.holding h = .empty from hslot]
        exact attachShm_finishes name
  | construct other leftover o habsent hidle hne =>
      apply hok.begin_move (.inl habsent) rfl hne hidle
      exact finishes_move leftover rfl hne fun r => rfl
  | assignSelf leftover self hself =>
      rw [hself] at hslot
      have hlend : s.lend h (.assign h leftover) = s := by
        simp only [lend, Call.other, if_true]
      rw [hlend]
      apply hok.begin_alone (.inr ⟨self, hself⟩)
      · intro other hother
        exact (Option.some.inj hother).symm
      · apply Finishes.alone rfl
        · intro other hother
          exact (Option.some.inj hother).symm
        · intro segment hsegment
          cases hsegment
          exact hslot
        · intro hdisarms
          cases hdisarms
  | assign other leftover self o hself hidle hne =>
      rw [hself] at hslot
      apply hok.begin_move (.inr ⟨self, hself⟩) rfl hne hidle
      exact moveAssign_finishes hslot hne
  | close self hself =>
      rw [hself] at hslot
      apply hok.begin_alone (.inr ⟨self, hself⟩)
      · intro other hother
        cases hother
      · exact closeShm_finishes hslot
  | unlink self hself =>
      rw [hself] at hslot
      apply hok.begin_alone (.inr ⟨self, hself⟩)
      · intro other hother
        cases hother
      · exact unlink_finishes hslot
  | destroy self hself =>
      rw [hself] at hslot
      apply hok.begin_alone (.inr ⟨self, hself⟩)
      · intro other hother
        cases hother
      · exact destroy_finishes hslot

theorem initial_ok (kernel : Kernel) : Ok (initial kernel) where
  shared := Kernel.Shared.initial kernel
  slot _ := rfl

/-- Every action keeps the invariant. -/
theorem next_ok {a : Action} (hok : s.Ok) (hnext : s.next a = some t) : t.Ok := by
  cases a with
  | begin h call =>
      obtain ⟨p, hprocess, rfl⟩ := Option.map_eq_some_iff.mp hnext
      exact (hok.begin hprocess).settle_ok
  | step h answer =>
      simp only [next] at hnext
      split at hnext
      case h_1 call l op next hrunning =>
        obtain ⟨k, hperform, rfl⟩ := Option.map_eq_some_iff.mp hnext
        exact (hok.step _ hrunning hperform).2.settle_ok
      case h_2 => cases hnext

theorem reaches_ok {kernel : Kernel} (hrun : Reaches next anyAction (initial kernel) s) :
    s.Ok :=
  hrun.invariant (initial_ok kernel) fun _ _ _ hok _ hnext => next_ok hok hnext

end Handles

end EventEngine.Shm
