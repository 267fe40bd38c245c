import Mathlib.Logic.Relation

/-!
# Runs of a transition function

A system is a partial function from a state and an action to the next state; an action
that is not possible in a state has no next state. A discipline restricts which of the
possible actions are considered, for claims that assume it of the environment.
-/

namespace EventEngine.Concurrency

variable {σ α : Type}

/-- One step of a system by some action that the discipline allows. -/
def Step (next : σ → α → Option σ) (discipline : σ → α → Prop) (s t : σ) : Prop :=
  ∃ a, discipline s a ∧ next s a = some t

/-- Reachability by any number of steps. -/
abbrev Reaches (next : σ → α → Option σ) (discipline : σ → α → Prop) : σ → σ → Prop :=
  Relation.ReflTransGen (Step next discipline)

/-- The discipline that allows every action. -/
def anyAction : σ → α → Prop := fun _ _ => True

instance (s : σ) (a : α) : Decidable (anyAction s a) := inferInstanceAs (Decidable True)

namespace Reaches

variable {next : σ → α → Option σ} {discipline discipline' : σ → α → Prop} {s t : σ}

/-- What holds at the start and is kept by every allowed step holds in every reachable
state. -/
theorem invariant {I : σ → Prop} (h : Reaches next discipline s t) (start : I s)
    (kept : ∀ s a t, I s → discipline s a → next s a = some t → I t) : I t := by
  induction h with
  | refl => exact start
  | tail _ step ih =>
      obtain ⟨a, ha, hn⟩ := step
      exact kept _ a _ ih ha hn

/-- A system refines another one if, as far as the invariant holds, each of its steps is any
number of steps of the other. -/
theorem refines {τ β : Type} {next' : τ → β → Option τ} {allowed : τ → β → Prop}
    {I : σ → Prop} (h : Reaches next discipline s t) (view : σ → τ) (start : I s)
    (kept : ∀ s a t, I s → discipline s a → next s a = some t →
      I t ∧ Reaches next' allowed (view s) (view t)) :
    I t ∧ Reaches next' allowed (view s) (view t) := by
  induction h with
  | refl => exact ⟨start, .refl⟩
  | tail _ step ih =>
      obtain ⟨a, ha, hn⟩ := step
      obtain ⟨hI, hview⟩ := kept _ a _ ih.1 ha hn
      exact ⟨hI, ih.2.trans hview⟩

theorem mono (h : Reaches next discipline s t)
    (weaker : ∀ s a, discipline s a → discipline' s a) : Reaches next discipline' s t :=
  Relation.ReflTransGen.mono (fun _ _ ⟨a, ha, hn⟩ => ⟨a, weaker _ a ha, hn⟩) _ _ h

end Reaches

/-- Perform a list of actions, each of which must be possible and allowed. -/
def runActions (next : σ → α → Option σ) (discipline : σ → α → Prop)
    [∀ s a, Decidable (discipline s a)] : σ → List α → Option σ
  | s, [] => some s
  | s, a :: rest =>
      if discipline s a then
        match next s a with
        | some t => runActions next discipline t rest
        | none => none
      else none

section Actions

variable {next : σ → α → Option σ} {discipline : σ → α → Prop}
variable [∀ s a, Decidable (discipline s a)] {s t u : σ} {a : α} {actions rest : List α}

theorem runActions_cons (allowed : discipline s a) (hnext : next s a = some t) :
    runActions next discipline s (a :: rest) = runActions next discipline t rest := by
  simp only [runActions, if_pos allowed, hnext]

/-- A schedule that begins with an action begins with a step. -/
theorem exists_of_runActions_cons (h : runActions next discipline s (a :: rest) = some u) :
    ∃ t, next s a = some t ∧ runActions next discipline t rest = some u := by
  simp only [runActions] at h
  split at h
  case isTrue allowed =>
    cases hnext : next s a with
    | none => rw [hnext] at h; cases h
    | some t => rw [hnext] at h; exact ⟨t, rfl, h⟩
  case isFalse => cases h

theorem runActions_append (actions rest : List α) :
    runActions next discipline s (actions ++ rest) =
      (runActions next discipline s actions).bind fun t =>
        runActions next discipline t rest := by
  induction actions generalizing s with
  | nil => rfl
  | cons a actions ih =>
      simp only [runActions, List.cons_append]
      split
      case isTrue =>
        cases next s a with
        | none => rfl
        | some t => exact ih
      case isFalse => rfl

/-- If every step from one state has a counterpart from a related one, so has every schedule. -/
theorem runActions_related {R : σ → σ → Prop}
    (hstep : ∀ s s' a t, R s s' → next s a = some t → ∃ t', next s' a = some t' ∧ R t t')
    {s' : σ} (h : R s s') (hrun : runActions next anyAction s actions = some t) :
    ∃ t', runActions next anyAction s' actions = some t' ∧ R t t' := by
  induction actions generalizing s s' with
  | nil =>
      obtain rfl := Option.some.inj hrun
      exact ⟨s', rfl, h⟩
  | cons a rest ih =>
      obtain ⟨u, hnext, hrest⟩ := exists_of_runActions_cons hrun
      obtain ⟨u', hnext', hrelated⟩ := hstep s s' a u h hnext
      rw [runActions_cons trivial hnext']
      exact ih hrelated hrest

end Actions

/-- A schedule that can be performed leads to a reachable state. -/
theorem reaches_of_runActions {next : σ → α → Option σ} {discipline : σ → α → Prop}
    [∀ s a, Decidable (discipline s a)] {s t : σ} {actions : List α}
    (h : runActions next discipline s actions = some t) : Reaches next discipline s t := by
  induction actions generalizing s with
  | nil =>
      obtain rfl : s = t := by simpa [runActions] using h
      exact .refl
  | cons a rest ih =>
      simp only [runActions] at h
      split at h
      case isTrue allowed =>
        split at h
        case h_1 u hu => exact .head ⟨a, allowed, hu⟩ (ih h)
        case h_2 => contradiction
      case isFalse => contradiction

/-- So does a schedule of actions that the discipline allows in every state. -/
theorem reaches_of_allowed {next : σ → α → Option σ} {discipline : σ → α → Prop} {s t : σ}
    {actions : List α} (h : runActions next anyAction s actions = some t)
    (allowed : ∀ a ∈ actions, ∀ u, discipline u a) : Reaches next discipline s t := by
  induction actions generalizing s with
  | nil =>
      obtain rfl : s = t := by simpa [runActions] using h
      exact .refl
  | cons a rest ih =>
      obtain ⟨u, hu, hrest⟩ := exists_of_runActions_cons h
      have hlater := ih hrest fun b hb => allowed b (List.mem_cons_of_mem a hb)
      exact .head ⟨a, allowed a List.mem_cons_self s, hu⟩ hlater

end EventEngine.Concurrency
