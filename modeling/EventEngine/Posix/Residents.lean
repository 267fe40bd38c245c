import EventEngine.Concurrency.Transition
import EventEngine.Concurrency.Within
import EventEngine.Posix.Kernel

/-!
# Objects that hold resources

Any number of objects of one kind, in any number of processes, with one kernel. An object is at
a place of its life; its next access there is a system call or one of its own kind, and calls
and moves take it to other places. What it has is a part of the kernel's table, apart from what
all others have. A `Custody` says what an object has at each place, with one rule for each way
to get there; every run keeps to it.
-/

namespace EventEngine.Posix

open Concurrency

section Accesses

variable {X : Signature} {ℓ ℓ' α : Type}

/-- System calls, and accesses of another kind. -/
inductive HostedOp (X : Signature) where
  | system (op : Op)
  | own (op : X.Op)

abbrev HostedOp.Res {X : Signature} : HostedOp X → Type
  | .system op => op.Res
  | .own op => X.Res op

abbrev hosted (X : Signature) : Signature := ⟨HostedOp X, HostedOp.Res⟩

namespace HostedOp

def performSystem (op : Op) : Method (hosted X) ℓ op.Res :=
  Method.perform (S := hosted X) (.system op)

def performOwn (op : X.Op) : Method (hosted X) ℓ (X.Res op) :=
  Method.perform (S := hosted X) (.own op)

/-- Run a process that only calls the system. -/
def callSystem (p : Process posixAccess ℓ' α) : Method (hosted X) ℓ α :=
  p.within performSystem fun _ l => l

/-- Only system calls change the table; `answers` is known of the other accesses. -/
def environment (answers : (op : X.Op) → X.Res op → Prop) : Environment (hosted X) Table
  | .system op, r, h, h' => Posix.environment True op r h h'
  | .own op, r, h, h' => answers op r ∧ h' = h

variable {answers answers' : (op : X.Op) → X.Res op → Prop} {h : Table} {l : ℓ}
variable {control : ℓ → HostedOp X → Table → Prop}

theorem environment.weaken {op : HostedOp X} {r : op.Res} {h h' : Table}
    (henv : environment answers op r h h') (hanswers : ∀ op r, answers op r → answers' op r) :
    environment answers' op r h h' := by
  cases op with
  | system op => exact henv
  | own op => exact ⟨hanswers op r henv.1, henv.2⟩

/-- A process that only calls the system keeps its contract, and avoids what it avoids. -/
theorem callSystem_meets {p : Process posixAccess ℓ' α} {post : α → Table → Prop}
    {kind : Op → Bool} (hp : Keeps True p h post) (havoids : p.Avoids kind)
    (hcontrol : ∀ op h, Posix.Allowed h op → kind op = false → control l (.system op) h) :
    (callSystem p l).Meets (environment answers) control (fun a l' h' => l' = l ∧ post a h') h := by
  apply Process.Meets.within (f := fun h => h) (hp.avoiding havoids)
  rintro op h ⟨hallowed, hkind⟩
  exact ⟨hcontrol op h hallowed hkind, fun r h' henv => ⟨rfl, henv⟩⟩

end HostedOp

end Accesses

/-- A kind of object: the places of its life, and the ways between them. -/
structure Kind where
  Place : Type
  own : Signature
  Call : Type
  /-- There is no object yet. -/
  absent : Place → Bool
  /-- A call from outside, if it is possible. -/
  react : Call → Place → Option Place
  /-- The next access, and the place behind it. -/
  pending : Place → Option ((op : HostedOp own) × (op.Res → Place))
  /-- Whether an access of its own may be answered so. -/
  answers : Place → (op : own.Op) → own.Res op → Bool
  /-- Move construction: the new object, and what is left of the other one. -/
  construct : Name → Place → Option (Place × Place)

/-- The objects are numbered. `holding` is what the calls on one of them have acquired and not
given back, and at `none` what all other programs have; only the proof sees it. -/
structure Residents (K : Kind) where
  kernel : Kernel := {}
  place : Nat → K.Place
  holding : Option Nat → Table := fun _ => .empty

/-- `answer` is what an access is answered with. `move` constructs `h` from another object. -/
inductive ResidentAction (K : Kind) where
  | call (h : Nat) (c : K.Call)
  | step (h : Nat) (answer : (op : HostedOp K.own) → op.Res)
  | move (h other : Nat) (leftover : Name)
  | others (op : Op) (result : op.Res)

namespace Residents

variable {K : Kind}

/-- A system call of an object, or of the other programs. -/
def perform (s : Residents K) (i : Option Nat) (op : Op) (result : op.Res) :
    Option (Residents K) :=
  (s.kernel.perform op result).map fun kernel =>
    { s with
      kernel
      holding := Function.update s.holding i (s.kernel.effect op result (s.holding i)) }

/-- One action, if it is possible. -/
def next (s : Residents K) : ResidentAction K → Option (Residents K)
  | .call h c =>
      (K.react c (s.place h)).map fun p => { s with place := Function.update s.place h p }
  | .step h answer =>
      match K.pending (s.place h) with
      | none => none
      | some ⟨.system op, resume⟩ =>
          (s.perform (some h) op (answer (.system op))).map fun t =>
            { t with place := Function.update t.place h (resume (answer (.system op))) }
      | some ⟨.own op, resume⟩ =>
          if K.answers (s.place h) op (answer (.own op)) = true then
            some { s with place := Function.update s.place h (resume (answer (.own op))) }
          else none
  | .move h other leftover =>
      if K.absent (s.place h) = true then
        (K.construct leftover (s.place other)).map fun (new, old) =>
          { s with
            place := Function.update (Function.update s.place other old) h new
            holding := Function.update
              (Function.update s.holding (some h) (s.holding (some other))) (some other) .empty }
      else none
  | .others op result => s.perform none op result

/-- Giving back succeeds for the objects, and the other programs give back only what they
have. -/
def Reliable (s : Residents K) : ResidentAction K → Prop
  | .step _ answer => ∀ op, GivesBack op (answer (.system op))
  | .others op _ => Possessed (s.holding none) op
  | _ => True

end Residents

/-- What an object has at each place, and what its own accesses use of it. -/
structure Custody (K : Kind) where
  uses : Table → HostedOp K.own → Prop
  possesses : ∀ {t op}, uses t (.system op) → Possessed t op
  Has : K.Place → Table → Prop
  absent : ∀ {p t}, K.absent p = true → Has p t → t = .empty
  react : ∀ {c p p' t}, Has p t → K.react c p = some p' → Has p' t
  step : ∀ {p t op resume}, Has p t → K.pending p = some ⟨op, resume⟩ →
    uses t op ∧ ∀ r t',
      HostedOp.environment (fun op r => K.answers p op r = true) op r t t' → Has (resume r) t'
  construct : ∀ {leftover p t new old}, Has p t → K.construct leftover p = some (new, old) →
    K.absent p = false ∧ Has new t ∧ Has old .empty

namespace Residents

variable {K : Kind} {C : Custody K} {s t u : Residents K} {a : ResidentAction K} {h : Nat}
variable {answer : (op : HostedOp K.own) → op.Res}

/-- What is held is there, nobody holds what another has, nothing is held by nobody, and every
object has what its place says. -/
structure Ok (C : Custody K) (s : Residents K) : Prop where
  shared : s.kernel.Shared s.holding
  cover : Table.Cover s.holding s.kernel.table
  distinct : s.kernel.Distinct
  has : ∀ h, C.Has (s.place h) (s.holding (some h))

/-- What an action means for the object `h`. -/
inductive Fate (K : Kind) (s : Residents K) (a : ResidentAction K) (u : Residents K) (h : Nat) :
    Prop
  | kept (place : u.place h = s.place h) (holding : u.holding (some h) = s.holding (some h))
  | reacted (c : K.Call) (called : a = .call h c)
      (react : K.react c (s.place h) = some (u.place h))
      (holding : u.holding (some h) = s.holding (some h))
  | stepped (op : HostedOp K.own) (resume : op.Res → K.Place) (r : op.Res)
      (pending : K.pending (s.place h) = some ⟨op, resume⟩) (place : u.place h = resume r)
      (environment : HostedOp.environment (fun op r => K.answers (s.place h) op r = true) op r
        (s.holding (some h)) (u.holding (some h)))
  | arrived (other : Nat) (leftover : Name) (old : K.Place) (absent : K.absent (s.place h) = true)
      (construct : K.construct leftover (s.place other) = some (u.place h, old))
      (holding : u.holding (some h) = s.holding (some other))
  | left (new : Nat) (leftover : Name)
      (construct : K.construct leftover (s.place h) = some (u.place new, u.place h))
      (newHolding : u.holding (some new) = s.holding (some h))
      (holding : u.holding (some h) = .empty)

/-- What a system call does: the caller's holding changes as the kernel's table does. -/
structure Performed (s : Residents K) (i : Option Nat) (op : Op) (result : op.Res)
    (u : Residents K) : Prop where
  possible : s.kernel.possible op result = true
  kernel : s.kernel.perform op result = some u.kernel
  place : u.place = s.place
  holding : u.holding = Function.update s.holding i (s.kernel.effect op result (s.holding i))

theorem perform_performed {i : Option Nat} {op : Op} {result : op.Res}
    (hperform : s.perform i op result = some u) : s.Performed i op result u := by
  obtain ⟨kernel, hkernel, rfl⟩ := Option.map_eq_some_iff.mp hperform
  exact ⟨(Kernel.perform_cases hkernel).1, hkernel, rfl, rfl⟩

/-- The accounts after a system call. -/
theorem Performed.sound {i : Option Nat} {op : Op} {result : op.Res}
    (hperformed : s.Performed i op result u) (hok : s.Ok C)
    (hpossessed : Possessed (s.holding i) op) :
    u.kernel.Shared u.holding ∧ Table.Cover u.holding u.kernel.table ∧ u.kernel.Distinct := by
  rw [hperformed.holding]
  exact ⟨hok.shared.perform hpossessed hperformed.kernel,
    Kernel.Shared.cover_perform hok.cover hperformed.kernel i,
    hok.distinct.perform hperformed.kernel⟩

theorem Performed.environment {h : Nat} {op : Op} {result : op.Res}
    (hperformed : s.Performed (some h) op result u) (hok : s.Ok C)
    (hgives : GivesBack op result) :
    Posix.environment True op result (s.holding (some h)) (u.holding (some h)) := by
  refine ⟨⟨s.kernel, hok.shared.part _, hperformed.possible, ?_⟩, fun _ => hgives⟩
  rw [hperformed.holding, Function.update_self]

/-- What a step of an object is: a system call, or an access of its own. -/
theorem step_cases (hnext : s.next (.step h answer) = some u) :
    (∃ op resume t, K.pending (s.place h) = some ⟨.system op, resume⟩ ∧
      s.Performed (some h) op (answer (.system op)) t ∧
      u = { t with place := Function.update t.place h (resume (answer (.system op))) }) ∨
    (∃ op resume, K.pending (s.place h) = some ⟨.own op, resume⟩ ∧
      K.answers (s.place h) op (answer (.own op)) = true ∧
      u = { s with place := Function.update s.place h (resume (answer (.own op))) }) := by
  simp only [next] at hnext
  split at hnext
  case h_1 => cases hnext
  case h_2 op resume hpending =>
    obtain ⟨t, ht, rfl⟩ := Option.map_eq_some_iff.mp hnext
    exact .inl ⟨op, resume, t, hpending, perform_performed ht, rfl⟩
  case h_3 op resume hpending =>
    split at hnext
    case isTrue hanswers =>
      obtain rfl := Option.some.inj hnext
      exact .inr ⟨op, resume, hpending, hanswers, rfl⟩
    case isFalse => cases hnext

theorem move_cases {other : Nat} {leftover : Name}
    (hnext : s.next (.move h other leftover) = some u) : ∃ new old,
    K.absent (s.place h) = true ∧ K.construct leftover (s.place other) = some (new, old) ∧
      u = { s with
            place := Function.update (Function.update s.place other old) h new
            holding := Function.update
              (Function.update s.holding (some h) (s.holding (some other))) (some other)
                .empty } := by
  simp only [next] at hnext
  split at hnext
  case isTrue habsent =>
    obtain ⟨⟨new, old⟩, hconstruct, rfl⟩ := Option.map_eq_some_iff.mp hnext
    exact ⟨new, old, habsent, hconstruct, rfl⟩
  case isFalse => cases hnext

/-- What an action means for the place of `h`, whatever the kernel does. -/
inductive Course (K : Kind) (s : Residents K) (a : ResidentAction K) (u : Residents K) (h : Nat) :
    Prop
  | kept (other : ∀ answer, a ≠ .step h answer) (place : u.place h = s.place h)
  | reacted (c : K.Call) (called : a = .call h c)
      (react : K.react c (s.place h) = some (u.place h))
  | stepped (answer : (op : HostedOp K.own) → op.Res) (op : HostedOp K.own)
      (resume : op.Res → K.Place) (stepped : a = .step h answer)
      (pending : K.pending (s.place h) = some ⟨op, resume⟩)
      (answered : ∀ own, op = .own own → K.answers (s.place h) own (answer (.own own)) = true)
      (place : u.place h = resume (answer op))
  | arrived (other : Nat) (leftover : Name) (old : K.Place)
      (moved : a = .move h other leftover) (absent : K.absent (s.place h) = true)
      (construct : K.construct leftover (s.place other) = some (u.place h, old))
  | left (new : K.Place) (other : Nat) (leftover : Name) (moved : a = .move other h leftover)
      (construct : K.construct leftover (s.place h) = some (new, u.place h))

theorem course (hnext : s.next a = some u) (h : Nat) : Course K s a u h := by
  cases a with
  | call x c =>
      obtain ⟨p, hreact, rfl⟩ := Option.map_eq_some_iff.mp hnext
      by_cases hx : h = x
      · subst hx
        exact .reacted c rfl (by simp only [hreact, Function.update_self])
      · exact .kept (fun _ hno => by cases hno) (Function.update_of_ne hx _ _)
  | step x answer =>
      have hplace : ∃ op resume, K.pending (s.place x) = some ⟨op, resume⟩ ∧
          (∀ own, op = .own own → K.answers (s.place x) own (answer (.own own)) = true) ∧
          u.place = Function.update s.place x (resume (answer op)) := by
        obtain ⟨op, resume, t, hpending, hperformed, rfl⟩ | ⟨op, resume, hpending, hanswers, rfl⟩ :=
          step_cases hnext
        · refine ⟨_, resume, hpending, fun own hno => (by cases hno), ?_⟩
          simp only [hperformed.place]
        · refine ⟨_, resume, hpending, fun own heq => ?_, rfl⟩
          obtain rfl := HostedOp.own.inj heq
          exact hanswers
      obtain ⟨op, resume, hpending, hanswered, hplace⟩ := hplace
      by_cases hx : h = x
      · subst hx
        refine .stepped answer op resume rfl hpending hanswered ?_
        rw [hplace, Function.update_self]
      · refine .kept (fun answer' heq => hx ?_) ?_
        · exact (ResidentAction.step.inj heq).1.symm
        · rw [hplace, Function.update_of_ne hx]
  | move x other leftover =>
      obtain ⟨new, old, habsent, hconstruct, rfl⟩ := move_cases hnext
      by_cases hx : h = x
      · subst hx
        refine .arrived other leftover old rfl habsent ?_
        simp only [Function.update_self, hconstruct]
      · by_cases hother : h = other
        · subst hother
          refine .left new x leftover rfl ?_
          simp only [Function.update_of_ne hx, Function.update_self, hconstruct]
        · refine .kept (fun _ hno => by cases hno) ?_
          simp only [Function.update_of_ne hx, Function.update_of_ne hother]
  | others op result =>
      refine .kept (fun _ hno => by cases hno) ?_
      rw [(perform_performed hnext).place]

theorem Ok.fate (hok : s.Ok C) (hreliable : s.Reliable a) (hnext : s.next a = some u) (h : Nat) :
    Fate K s a u h := by
  have hdiffer : ∀ {x y : Nat}, x ≠ y → some x ≠ some y := fun hne heq =>
    hne (Option.some.inj heq)
  cases a with
  | call x c =>
      obtain ⟨p, hreact, rfl⟩ := Option.map_eq_some_iff.mp hnext
      by_cases hx : h = x
      · subst hx
        exact .reacted c rfl (by simp only [hreact, Function.update_self]) rfl
      · exact .kept (Function.update_of_ne hx _ _) rfl
  | step x answer =>
      obtain ⟨op, resume, t, hpending, hperformed, rfl⟩ | ⟨op, resume, hpending, hanswers, rfl⟩ :=
        step_cases hnext
      · by_cases hx : h = x
        · subst hx
          exact .stepped (.system op) resume _ hpending (Function.update_self _ _ _)
            (hperformed.environment hok (hreliable op))
        · apply Fate.kept
          · simp only [Function.update_of_ne hx, hperformed.place]
          · simp only [hperformed.holding, Function.update_of_ne (hdiffer hx)]
      · by_cases hx : h = x
        · subst hx
          exact .stepped (.own op) resume _ hpending (Function.update_self _ _ _) ⟨hanswers, rfl⟩
        · exact .kept (Function.update_of_ne hx _ _) rfl
  | move x other leftover =>
      obtain ⟨new, old, habsent, hconstruct, rfl⟩ := move_cases hnext
      have hne : x ≠ other := by
        rintro rfl
        rw [(C.construct (hok.has x) hconstruct).1] at habsent
        cases habsent
      by_cases hx : h = x
      · subst hx
        apply Fate.arrived other leftover old habsent
        · simp only [Function.update_self, hconstruct]
        · simp only [Function.update_of_ne (hdiffer hne), Function.update_self]
      · by_cases hother : h = other
        · subst hother
          apply Fate.left x leftover
          · simp only [Function.update_self, Function.update_of_ne hx, hconstruct]
          · simp only [Function.update_of_ne (hdiffer hne), Function.update_self]
          · simp only [Function.update_self]
        · apply Fate.kept
          · simp only [Function.update_of_ne hx, Function.update_of_ne hother]
          · simp only [Function.update_of_ne (hdiffer hx), Function.update_of_ne (hdiffer hother)]
  | others op result =>
      have hperformed := perform_performed hnext
      apply Fate.kept
      · rw [hperformed.place]
      · rw [hperformed.holding, Function.update_of_ne (Option.some_ne_none h)]

/-- Every action keeps the invariant. -/
theorem Ok.next (hok : s.Ok C) (hreliable : s.Reliable a) (hnext : s.next a = some u) :
    u.Ok C := by
  have hsound : u.kernel.Shared u.holding ∧ Table.Cover u.holding u.kernel.table ∧
      u.kernel.Distinct := by
    cases a with
    | call x c =>
        obtain ⟨p, -, rfl⟩ := Option.map_eq_some_iff.mp hnext
        exact ⟨hok.shared, hok.cover, hok.distinct⟩
    | step x answer =>
        obtain ⟨op, resume, t, hpending, hperformed, rfl⟩ | ⟨op, resume, -, -, rfl⟩ :=
          step_cases hnext
        · exact hperformed.sound hok (C.possesses (C.step (hok.has x) hpending).1)
        · exact ⟨hok.shared, hok.cover, hok.distinct⟩
    | move x other leftover =>
        obtain ⟨new, old, habsent, hconstruct, rfl⟩ := move_cases hnext
        have hne : some x ≠ some other := by
          intro heq
          rw [Option.some.inj heq, (C.construct (hok.has other) hconstruct).1] at habsent
          cases habsent
        exact ⟨hok.shared.takeOver hne,
          Kernel.Shared.cover_takeOver hok.cover (C.absent habsent (hok.has x)), hok.distinct⟩
    | others op result => exact (perform_performed hnext).sound hok hreliable
  refine ⟨hsound.1, hsound.2.1, hsound.2.2, fun h => ?_⟩
  cases hok.fate hreliable hnext h with
  | kept place holding =>
      rw [place, holding]
      exact hok.has h
  | reacted c called react holding =>
      rw [holding]
      exact C.react (hok.has h) react
  | stepped op resume r pending place environment =>
      rw [place]
      exact (C.step (hok.has h) pending).2 r _ environment
  | arrived other leftover old absent construct holding =>
      rw [holding]
      exact (C.construct (hok.has other) construct).2.1
  | left new leftover construct newHolding holding =>
      rw [holding]
      exact (C.construct (hok.has h) construct).2.2

theorem Ok.reaches (hok : s.Ok C) (hrun : Reaches Residents.next Reliable s t) : t.Ok C :=
  hrun.invariant hok fun _ _ _ hok hreliable hnext => hok.next hreliable hnext

/-- Nobody has anything yet. -/
theorem initial_ok {place : Nat → K.Place} (hplace : ∀ h, C.Has (place h) .empty) :
    Ok C { place } where
  shared := .initial _
  cover := ⟨fun _ _ h => (by cases h), fun _ _ h => (by cases h), fun _ _ h => by cases h⟩
  distinct := ⟨fun _ _ h => (by cases h), fun _ _ _ h => by cases h⟩
  has := hplace

/-- An access of an object is one that its holding allows. -/
theorem Ok.allowed (hok : s.Ok C) {op : HostedOp K.own} {resume : op.Res → K.Place}
    (hpending : K.pending (s.place h) = some ⟨op, resume⟩) :
    C.uses (s.holding (some h)) op := (C.step (hok.has h) hpending).1

/-- If all holdings are as they were, so is the kernel's table. -/
theorem Ok.table_eq (hok : s.Ok C) (hok' : t.Ok C) (hsame : t.holding = s.holding) :
    t.kernel.table = s.kernel.table := by
  have hcover := hok'.cover
  have hpart := hok'.shared.part
  rw [hsame] at hcover hpart
  exact hcover.unique hok.cover hpart hok.shared.part

end Residents

end EventEngine.Posix
