import EventEngine.Concurrency.Transition
import EventEngine.Shm.Contracts

/-!
# Any number of segments

Objects of `SharedMemorySegment` in any number of processes, with one kernel. A call on an
object goes on by one system call at a time, interleaved with the calls on other objects.
During a move the other object is lent to the call.
-/

namespace EventEngine.Shm

open Concurrency Posix

/-- The identity of an object. -/
abbrev Handle := Nat

/-- The calls on an object; the first four construct it. -/
inductive Call where
  | default
  | create (name : Name) (size : UInt64)
  | attach (name : Name)
  | construct (other : Handle) (leftover : Name)
  | assign (other : Handle) (leftover : Name)
  | close
  | unlink
  | destroy

/-- The object that is moved from. -/
def Call.other : Call → Option Handle
  | .construct other _ => some other
  | .assign other _ => some other
  | _ => none

/-- What a call leaves of its object, if any, and of the object that it moved from. -/
structure Outcome where
  self : Option SharedMemorySegment
  other : Option SharedMemorySegment := none
  result : Except SegmentError Unit := .ok ()

/-- Where an object is. -/
inductive Slot where
  | absent
  | idle (segment : SharedMemorySegment)
  | lent (segment : SharedMemorySegment) (borrower : Handle)
  | running (call : Call) (process : Process posixAccess Unit Outcome)

def Slot.ofOption : Option SharedMemorySegment → Slot
  | some segment => .idle segment
  | none => .absent

/-- A call that has returned. -/
structure Returned where
  handle : Handle
  call : Call
  result : Except SegmentError Unit

/-- `holding` is what the calls on an object have acquired and not given back; a move takes it
along. Only the proof sees it, and the logs `returned` and `performed`. -/
structure Handles where
  kernel : Kernel := {}
  slots : Handle → Slot := fun _ => .absent
  holding : Handle → Table := fun _ => .empty
  returned : List Returned := []
  performed : List (Handle × ((op : Op) × op.Res)) := []

inductive Action where
  | begin (h : Handle) (call : Call)
  | step (h : Handle) (answer : (op : Op) → op.Res)

namespace Handles

/-- Before the first call; names may exist that no object created. -/
def initial (kernel : Kernel) : Handles := { kernel }

def created : Except SegmentError SharedMemorySegment → Outcome
  | .ok self => { self := some self }
  | .error e => { self := none, result := .error e }

/-- The call on an object, if it is possible. -/
def process (s : Handles) (h : Handle) (call : Call) :
    Option (Process posixAccess Unit Outcome) :=
  match call, s.slots h with
  | .default, .absent => some (.done { self := some {} } ())
  | .create name size, .absent => some ((created <$> SharedMemorySegment.createShm name size) ())
  | .attach name, .absent => some ((created <$> SharedMemorySegment.attachShm name) ())
  | .construct other leftover, .absent =>
      match s.slots other with
      | .idle o =>
          let (self, other) := o.move leftover
          some (.done { self := some self, other := some other } ())
      | _ => none
  | .assign other leftover, .idle self =>
      if other = h then some (.done { self := some self } ())
      else
        match s.slots other with
        | .idle o =>
            some (((fun r => { self := some r.1, other := some r.2 }) <$>
              self.moveAssign o leftover) ())
        | _ => none
  | .close, .idle self =>
      some (((fun r => { self := some r.1, result := r.2 }) <$> self.closeShm) ())
  | .unlink, .idle self =>
      some (((fun r => { self := some r.1, result := r.2 }) <$> self.unlink) ())
  | .destroy, .idle self => some (((fun _ => { self := none }) <$> self.destroy) ())
  | _, _ => none

/-- A move borrows the other object. -/
def lend (s : Handles) (h : Handle) (call : Call) : Handles :=
  match call.other with
  | some other =>
      if other = h then s
      else
        match s.slots other with
        | .idle o => { s with slots := Function.update s.slots other (.lent o h) }
        | _ => s
  | none => s

/-- The call returns. -/
def finish (s : Handles) (h : Handle) (call : Call) (outcome : Outcome) : Handles :=
  let returned := ⟨h, call, outcome.result⟩ :: s.returned
  match call.other, outcome.other with
  | some other, some leftover =>
      { s with
        slots := Function.update (Function.update s.slots other (.idle leftover)) h
          (Slot.ofOption outcome.self)
        holding := Function.update (Function.update s.holding h (s.holding other)) other .empty
        returned }
  | _, _ =>
      { s with
        slots := Function.update s.slots h (Slot.ofOption outcome.self)
        holding :=
          if outcome.self.isSome then s.holding else Function.update s.holding h .empty
        returned }

/-- The call goes on to its next system call, or returns. -/
def settle (s : Handles) (h : Handle) (call : Call) : Process posixAccess Unit Outcome → Handles
  | .done outcome _ => s.finish h call outcome
  | p => { s with slots := Function.update s.slots h (.running call p) }

def next (s : Handles) : Action → Option Handles
  | .begin h call => (s.process h call).map fun p => (s.lend h call).settle h call p
  | .step h answer =>
      match s.slots h with
      | .running call (.step _ op next) =>
          (s.kernel.perform op (answer op)).map fun kernel =>
            { s with
              kernel
              holding := Function.update s.holding h
                (s.kernel.effect op (answer op) (s.holding h))
              performed := ⟨h, op, answer op⟩ :: s.performed }.settle h call (next (answer op))
      | _ => none

/-- The calls that are possible, and their processes. -/
inductive Begins (s : Handles) (h : Handle) :
    Call → Process posixAccess Unit Outcome → Prop where
  | default (habsent : s.slots h = .absent) :
      Begins s h .default (.done { self := some {} } ())
  | create (name : Name) (size : UInt64) (habsent : s.slots h = .absent) :
      Begins s h (.create name size) ((created <$> SharedMemorySegment.createShm name size) ())
  | attach (name : Name) (habsent : s.slots h = .absent) :
      Begins s h (.attach name) ((created <$> SharedMemorySegment.attachShm name) ())
  | construct (other : Handle) (leftover : Name) (o : SharedMemorySegment)
      (habsent : s.slots h = .absent) (hother : s.slots other = .idle o) (hne : other ≠ h) :
      Begins s h (.construct other leftover)
        (.done { self := some (o.move leftover).1, other := some (o.move leftover).2 } ())
  | assignSelf (leftover : Name) (self : SharedMemorySegment) (hself : s.slots h = .idle self) :
      Begins s h (.assign h leftover) (.done { self := some self } ())
  | assign (other : Handle) (leftover : Name) (self o : SharedMemorySegment)
      (hself : s.slots h = .idle self) (hother : s.slots other = .idle o) (hne : other ≠ h) :
      Begins s h (.assign other leftover)
        (((fun r => { self := some r.1, other := some r.2 }) <$> self.moveAssign o leftover) ())
  | close (self : SharedMemorySegment) (hself : s.slots h = .idle self) :
      Begins s h .close
        (((fun r => { self := some r.1, result := r.2 }) <$> self.closeShm) ())
  | unlink (self : SharedMemorySegment) (hself : s.slots h = .idle self) :
      Begins s h .unlink
        (((fun r => { self := some r.1, result := r.2 }) <$> self.unlink) ())
  | destroy (self : SharedMemorySegment) (hself : s.slots h = .idle self) :
      Begins s h .destroy (((fun _ => { self := none }) <$> self.destroy) ())

theorem process_cases {s : Handles} {h : Handle} {call : Call}
    {p : Process posixAccess Unit Outcome} (hprocess : s.process h call = some p) :
    s.Begins h call p := by
  unfold process at hprocess
  split at hprocess
  case h_1 habsent =>
    obtain rfl := Option.some.inj hprocess
    exact .default habsent
  case h_2 name size habsent =>
    obtain rfl := Option.some.inj hprocess
    exact .create name size habsent
  case h_3 name habsent =>
    obtain rfl := Option.some.inj hprocess
    exact .attach name habsent
  case h_4 other leftover habsent =>
    split at hprocess
    case h_1 o hother =>
      obtain rfl := Option.some.inj hprocess
      refine .construct other leftover o habsent hother ?_
      rintro rfl
      rw [hother] at habsent
      cases habsent
    case h_2 => cases hprocess
  case h_5 other leftover self hself =>
    split at hprocess
    case isTrue hsame =>
      obtain rfl := Option.some.inj hprocess
      obtain rfl := hsame
      exact .assignSelf leftover self hself
    case isFalse hne =>
      split at hprocess
      case h_1 o hother =>
        obtain rfl := Option.some.inj hprocess
        exact .assign other leftover self o hself hother hne
      case h_2 => cases hprocess
  case h_6 self hself =>
    obtain rfl := Option.some.inj hprocess
    exact .close self hself
  case h_7 self hself =>
    obtain rfl := Option.some.inj hprocess
    exact .unlink self hself
  case h_8 self hself =>
    obtain rfl := Option.some.inj hprocess
    exact .destroy self hself
  case h_9 => cases hprocess

section Finish

variable {s : Handles} {h other : Handle} {call : Call} {outcome : Outcome}
variable {leftover : SharedMemorySegment}

theorem finish_slot (s : Handles) (h : Handle) (call : Call) (outcome : Outcome) :
    (s.finish h call outcome).slots h = Slot.ofOption outcome.self := by
  unfold finish
  split
  · exact Function.update_self _ _ _
  · exact Function.update_self _ _ _

theorem finish_kernel (s : Handles) (h : Handle) (call : Call) (outcome : Outcome) :
    (s.finish h call outcome).kernel = s.kernel := by
  unfold finish
  split
  · rfl
  · rfl

theorem finish_performed (s : Handles) (h : Handle) (call : Call) (outcome : Outcome) :
    (s.finish h call outcome).performed = s.performed := by
  unfold finish
  split
  · rfl
  · rfl

/-- The return of a call that moves from no other object. -/
theorem finish_alone (s : Handles) (h : Handle) (call : Call) (hmoved : outcome.other = none) :
    s.finish h call outcome = { s with
      slots := Function.update s.slots h (Slot.ofOption outcome.self)
      holding := if outcome.self.isSome then s.holding else Function.update s.holding h .empty
      returned := ⟨h, call, outcome.result⟩ :: s.returned } := by
  rw [finish, hmoved]
  cases call.other with
  | none => rfl
  | some other => rfl

/-- What `other` had has gone to `h`. -/
structure HandedOver (s t : Handles) (h other : Handle) (leftover : SharedMemorySegment) :
    Prop where
  leftover : t.slots other = .idle leftover
  taken : t.holding h = s.holding other
  given : t.holding other = .empty
  slot : ∀ x, x ≠ h → x ≠ other → t.slots x = s.slots x
  holding : ∀ x, x ≠ h → x ≠ other → t.holding x = s.holding x

/-- The return of a move. -/
theorem finish_handedOver (hother : call.other = some other)
    (hmoved : outcome.other = some leftover) (hne : other ≠ h) :
    s.HandedOver (s.finish h call outcome) h other leftover := by
  simp only [finish, hother, hmoved]
  constructor
  · simp only [Function.update_of_ne hne, Function.update_self]
  · simp only [Function.update_of_ne hne.symm, Function.update_self]
  · exact Function.update_self _ _ _
  · intro x hx hxo
    simp only [Function.update_of_ne hx, Function.update_of_ne hxo]
  · intro x hx hxo
    simp only [Function.update_of_ne hx, Function.update_of_ne hxo]

end Finish

end Handles

end EventEngine.Shm
