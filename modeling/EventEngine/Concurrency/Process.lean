import Mathlib.Logic.Relation

/-!
# Processes over shared state

A process is a program cut at its accesses to shared state. Between two accesses it
computes on values of its own, so a scheduler can switch processes exactly at the
accesses. Every node shows the private state its owner has at that point: fields of the
object whose method runs can be observed in the middle of a call.

The same definition has two readings. `Process.run` executes it without interference and
gives the meaning of the method as a sequential function; a system performs one access of it at
a time and leaves the rest of the process to be scheduled.
-/

namespace EventEngine.Concurrency

/-- The accesses a process may perform, each with the type of its answer. -/
structure Signature where
  Op : Type
  Res : Op → Type

/-- A method body that has run up to its next access. `self` is the private state there. -/
inductive Process (S : Signature) (ℓ α : Type) where
  | done (result : α) (self : ℓ)
  | step (self : ℓ) (op : S.Op) (next : S.Res op → Process S ℓ α)

/-- How the shared state answers an access. `ω` is what the environment decides. -/
abbrev Exec (S : Signature) (ω σ : Type) :=
  (op : S.Op) → ω → σ → S.Res op × σ

namespace Process

variable {S : Signature} {ℓ α β ω σ : Type}

/-- The private state at the current node. -/
def self : Process S ℓ α → ℓ
  | .done _ l => l
  | .step l _ _ => l

/-- Continue with `f` once the process has a result, without a further access in between. -/
def bind : Process S ℓ α → (α → ℓ → Process S ℓ β) → Process S ℓ β
  | .done a l, f => f a l
  | .step l op next, f => .step l op fun r => (next r).bind f

@[simp] theorem bind_done (a : α) (l : ℓ) (f : α → ℓ → Process S ℓ β) :
    (Process.done a l).bind f = f a l := rfl

@[simp] theorem bind_step (l : ℓ) (op : S.Op) (next : S.Res op → Process S ℓ α)
    (f : α → ℓ → Process S ℓ β) :
    (Process.step l op next).bind f = .step l op fun r => (next r).bind f := rfl

theorem bind_assoc {γ : Type} (p : Process S ℓ α) (f : α → ℓ → Process S ℓ β)
    (g : β → ℓ → Process S ℓ γ) :
    (p.bind f).bind g = p.bind fun a l => (f a l).bind g := by
  induction p with
  | done a l => rfl
  | step l op next ih => exact congrArg (Process.step l op) (funext fun r => ih r)

/-- Run to the end without interference, with the same environment at every access. -/
def run (exec : Exec S ω σ) (w : ω) : Process S ℓ α → σ → α × ℓ × σ
  | .done a l, s => (a, l, s)
  | .step _ op next, s => (next (exec op w s).1).run exec w (exec op w s).2

/-- The accesses a run without interference performs, in order. -/
def trace (exec : Exec S ω σ) (w : ω) : Process S ℓ α → σ → List S.Op
  | .done _ _, _ => []
  | .step _ op next, s => op :: (next (exec op w s).1).trace exec w (exec op w s).2

@[simp] theorem run_done (exec : Exec S ω σ) (w : ω) (a : α) (l : ℓ) (s : σ) :
    (Process.done a l : Process S ℓ α).run exec w s = (a, l, s) := rfl

@[simp] theorem run_step (exec : Exec S ω σ) (w : ω) (l : ℓ) (op : S.Op)
    (next : S.Res op → Process S ℓ α) (s : σ) :
    (Process.step l op next).run exec w s =
      (next (exec op w s).1).run exec w (exec op w s).2 := rfl

@[simp] theorem trace_done (exec : Exec S ω σ) (w : ω) (a : α) (l : ℓ) (s : σ) :
    (Process.done a l : Process S ℓ α).trace exec w s = [] := rfl

@[simp] theorem trace_step (exec : Exec S ω σ) (w : ω) (l : ℓ) (op : S.Op)
    (next : S.Res op → Process S ℓ α) (s : σ) :
    (Process.step l op next).trace exec w s =
      op :: (next (exec op w s).1).trace exec w (exec op w s).2 := rfl

theorem run_bind (exec : Exec S ω σ) (w : ω) (p : Process S ℓ α)
    (f : α → ℓ → Process S ℓ β) (s : σ) :
    (p.bind f).run exec w s =
      (f (p.run exec w s).1 (p.run exec w s).2.1).run exec w (p.run exec w s).2.2 := by
  induction p generalizing s with
  | done => rfl
  | step _ _ _ ih => exact ih _ _

/-- The run of a sequence, once the run of its first part is known. -/
theorem run_bind_of {exec : Exec S ω σ} {w : ω} {p : Process S ℓ α}
    {f : α → ℓ → Process S ℓ β} {s t : σ} {a : α} {l : ℓ}
    (h : p.run exec w s = (a, l, t)) : (p.bind f).run exec w s = (f a l).run exec w t := by
  rw [run_bind, h]

/-- Every path ends in a result that satisfies `good`. -/
def Results (good : α → Prop) : Process S ℓ α → Prop
  | .done a _ => good a
  | .step _ _ next => ∀ r, (next r).Results good

/-- No path performs an access of the kind. -/
def Avoids (kind : S.Op → Bool) : Process S ℓ α → Prop
  | .done _ _ => True
  | .step _ op next => kind op = false ∧ ∀ r, (next r).Avoids kind

/-- A path that performs an access of the kind `changes` ends in a good result. -/
def ChangesOnlyFor (changes : S.Op → Bool) (good : α → Prop) : Process S ℓ α → Prop
  | .done _ _ => True
  | .step _ op next =>
      if changes op = true then ∀ r, (next r).Results good
      else ∀ r, (next r).ChangesOnlyFor changes good

/-- An access of the kind `changes` is the last one of its path. -/
def ChangesLast (changes : S.Op → Bool) : Process S ℓ α → Prop
  | .done _ _ => True
  | .step _ op next =>
      if changes op = true then ∀ r, ∃ a l, next r = .done a l
      else ∀ r, (next r).ChangesLast changes

/-- Every access leaves a state with `before`, up to one that leaves a rest of the process and
a state with `after`. -/
def Until (exec : Exec S Unit σ) (before : σ → Prop) (after : Process S ℓ α → σ → Prop) :
    Process S ℓ α → σ → Prop
  | .done _ _, _ => False
  | .step _ op next, s => after (next (exec op () s).1) (exec op () s).2 ∨
      (before (exec op () s).2 ∧
        (next (exec op () s).1).Until exec before after (exec op () s).2)

section Paths

variable {changes : S.Op → Bool} {good : β → Prop} {p : Process S ℓ α}
variable {f : α → ℓ → Process S ℓ β}

theorem Results.bind (p : Process S ℓ α) (h : ∀ a l, (f a l).Results good) :
    (p.bind f).Results good := by
  induction p with
  | done a l => exact h a l
  | step l op next ih => exact fun r => ih r

/-- A run is one of the paths. -/
theorem Results.run {exec : Exec S ω σ} {good : α → Prop} (h : p.Results good) (w : ω) (s : σ) :
    good (p.run exec w s).1 := by
  induction p generalizing s with
  | done a l => exact h
  | step l op next ih => exact ih _ (h _) _

theorem Results.changesOnlyFor {good : α → Prop} (h : p.Results good) :
    p.ChangesOnlyFor changes good := by
  induction p with
  | done a l => trivial
  | step l op next ih =>
      by_cases hop : changes op = true
      · simp only [ChangesOnlyFor, if_pos hop]
        exact h
      · simp only [ChangesOnlyFor, if_neg hop]
        exact fun r => ih r (h r)

/-- What follows an access that changes nothing. -/
theorem changesOnlyFor_step {good : α → Prop} {l : ℓ} {op : S.Op}
    {next : S.Res op → Process S ℓ α} (hop : changes op = false)
    (h : ∀ r, (next r).ChangesOnlyFor changes good) :
    (Process.step l op next).ChangesOnlyFor changes good := by
  simpa only [ChangesOnlyFor, hop, Bool.false_eq_true, if_false] using h

/-- A first part that changes nothing may be followed by one that changes only for a good
result. -/
theorem ChangesOnlyFor.bind (hp : p.ChangesOnlyFor changes fun _ => False)
    (h : ∀ a l, (f a l).ChangesOnlyFor changes good) :
    (p.bind f).ChangesOnlyFor changes good := by
  have hnever : ∀ q : Process S ℓ α, q.Results (fun _ => False) →
      (q.bind f).Results good := by
    intro q hq
    induction q with
    | done a l => exact hq.elim
    | step l op next ih => exact fun r => ih r (hq r)
  induction p with
  | done a l => exact h a l
  | step l op next ih =>
      by_cases hop : changes op = true
      · simp only [ChangesOnlyFor, if_pos hop] at hp
        simp only [bind_step, ChangesOnlyFor, if_pos hop]
        exact fun r => hnever _ (hp r)
      · simp only [ChangesOnlyFor, if_neg hop] at hp
        simp only [bind_step, ChangesOnlyFor, if_neg hop]
        exact fun r => ih r (hp r)

theorem Avoids.bind {kind : S.Op → Bool} (hp : p.Avoids kind)
    (h : ∀ a l, (f a l).Avoids kind) : (p.bind f).Avoids kind := by
  induction p with
  | done a l => exact h a l
  | step l op next ih =>
      obtain ⟨hop, hnext⟩ := hp
      exact ⟨hop, fun r => ih r (hnext r)⟩

/-- The first part only performs accesses that keep `before`. -/
theorem Until.bind {exec : Exec S Unit σ} {kind : S.Op → Bool} {before : σ → Prop}
    {after : Process S ℓ β → σ → Prop} {s t : σ} {a : α} {l : ℓ} (hp : p.Avoids kind)
    (hkeeps : ∀ op s, kind op = false → before s → before (exec op () s).2)
    (hrun : p.run exec () s = (a, l, t)) (hbefore : before s)
    (h : before t → (f a l).Until exec before after t) :
    (p.bind f).Until exec before after s := by
  induction p generalizing s with
  | done a' l' =>
      obtain ⟨rfl, rfl, rfl⟩ : a' = a ∧ l' = l ∧ s = t := by simpa using hrun
      exact h hbefore
  | step l' op next ih =>
      obtain ⟨hop, hnext⟩ := hp
      have hkept := hkeeps op s hop hbefore
      exact .inr ⟨hkept, ih _ (hnext _) hrun hkept⟩

/-- What follows the process also follows the rest of it. -/
theorem Until.followed {exec : Exec S Unit σ} {before : σ → Prop}
    {after : Process S ℓ α → σ → Prop} {s : σ} (h : p.Until exec before after s) :
    (p.bind f).Until exec before (fun rest t => ∃ q, rest = q.bind f ∧ after q t) s := by
  induction p generalizing s with
  | done a l => exact h.elim
  | step l op next ih =>
      obtain hafter | ⟨hbefore, hnext⟩ := h
      · exact .inl ⟨_, rfl, hafter⟩
      · exact .inr ⟨hbefore, ih _ hnext⟩

theorem Until.mono_after {exec : Exec S Unit σ} {before : σ → Prop}
    {after after' : Process S ℓ α → σ → Prop} {s : σ} (h : p.Until exec before after s)
    (hafter : ∀ q t, after q t → after' q t) : p.Until exec before after' s := by
  induction p generalizing s with
  | done a l => exact h.elim
  | step l op next ih =>
      obtain hnow | ⟨hbefore, hnext⟩ := h
      · exact .inl (hafter _ _ hnow)
      · exact .inr ⟨hbefore, ih _ hnext⟩

/-- Every process has a path to its end. -/
theorem not_results_false [∀ op, Nonempty (S.Res op)] (p : Process S ℓ α) :
    ¬ p.Results fun _ => False := by
  induction p with
  | done a l => exact id
  | step l op next ih =>
      obtain ⟨r⟩ := ‹∀ op, Nonempty (S.Res op)› op
      exact fun h => ih r (h r)

theorem Results.map {g : α → β} (h : p.Results fun a => good (g a)) :
    (p.bind fun a l => .done (g a) l).Results good := by
  induction p with
  | done a l => exact h
  | step l op next ih => exact fun r => ih r (h r)

theorem ChangesOnlyFor.map {g : α → β} (hp : p.ChangesOnlyFor changes fun a => good (g a)) :
    (p.bind fun a l => .done (g a) l).ChangesOnlyFor changes good := by
  induction p with
  | done a l => trivial
  | step l op next ih =>
      by_cases hop : changes op = true
      · simp only [ChangesOnlyFor, if_pos hop] at hp
        simp only [bind_step, ChangesOnlyFor, if_pos hop]
        exact fun r => (hp r).map
      · simp only [ChangesOnlyFor, if_neg hop] at hp
        simp only [bind_step, ChangesOnlyFor, if_neg hop]
        exact fun r => ih r (hp r)

theorem ChangesLast.map {g : α → β} (hp : p.ChangesLast changes) :
    (p.bind fun a l => .done (g a) l).ChangesLast changes := by
  induction p with
  | done a l => trivial
  | step l op next ih =>
      by_cases hop : changes op = true
      · simp only [ChangesLast, if_pos hop] at hp
        simp only [bind_step, ChangesLast, if_pos hop]
        intro r
        obtain ⟨a, l', hdone⟩ := hp r
        exact ⟨g a, l', by rw [hdone]; rfl⟩
      · simp only [ChangesLast, if_neg hop] at hp
        simp only [bind_step, ChangesLast, if_neg hop]
        exact fun r => ih r (hp r)

/-- A process that never changes anything has no last change. -/
theorem ChangesOnlyFor.changesLast [∀ op, Nonempty (S.Res op)]
    (h : p.ChangesOnlyFor changes fun _ => False) : p.ChangesLast changes := by
  induction p with
  | done a l => trivial
  | step l op next ih =>
      by_cases hop : changes op = true
      · simp only [ChangesOnlyFor, if_pos hop] at h
        obtain ⟨r⟩ := ‹∀ op, Nonempty (S.Res op)› op
        exact (not_results_false _ (h r)).elim
      · simp only [ChangesOnlyFor, if_neg hop] at h
        simp only [ChangesLast, if_neg hop]
        exact fun r => ih r (h r)

end Paths

end Process

/-- A method of an object with private state `ℓ`. -/
def Method (S : Signature) (ℓ α : Type) := ℓ → Process S ℓ α

namespace Method

variable {S : Signature} {ℓ α β : Type}

instance : Monad (Method S ℓ) where
  pure a := fun l => .done a l
  bind x f := fun l => (x l).bind fun a l' => f a l'

/-- One access to the shared state. -/
def perform (op : S.Op) : Method S ℓ (S.Res op) := fun l => .step l op fun r => .done r l

/-- Read the object's own fields. -/
def self : Method S ℓ ℓ := fun l => .done l l

/-- Assign to the object's own fields. -/
def assign (f : ℓ → ℓ) : Method S ℓ Unit := fun l => .done () (f l)

@[simp] theorem pure_apply (a : α) (l : ℓ) : (pure a : Method S ℓ α) l = .done a l := rfl

@[simp] theorem bind_apply (x : Method S ℓ α) (f : α → Method S ℓ β) (l : ℓ) :
    (x >>= f) l = (x l).bind fun a l' => f a l' := rfl

@[simp] theorem map_apply (g : α → β) (x : Method S ℓ α) (l : ℓ) :
    (g <$> x) l = (x l).bind fun a l' => .done (g a) l' := rfl

@[simp] theorem perform_apply (op : S.Op) (l : ℓ) :
    (perform op : Method S ℓ (S.Res op)) l = .step l op fun r => .done r l := rfl

@[simp] theorem self_apply (l : ℓ) : (self : Method S ℓ ℓ) l = .done l l := rfl

@[simp] theorem assign_apply (f : ℓ → ℓ) (l : ℓ) :
    (assign f : Method S ℓ Unit) l = .done () (f l) := rfl

end Method

end EventEngine.Concurrency
