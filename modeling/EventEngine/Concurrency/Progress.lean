import EventEngine.Concurrency.Thread
import EventEngine.Concurrency.Transition

/-!
# Progress under a fair scheduler

An execution is an infinite run. If every step of one side lowers a rank that the steps of the
others leave alone, and the rank is well-founded, that side reaches its goal under every
scheduler that keeps giving it steps. The accesses of a thread within one turn, and those of a
call, are such ranks: a process has no infinite path.
-/

namespace EventEngine.Concurrency

variable {σ α : Type}

/-- An infinite run by allowed actions. -/
structure Execution (next : σ → α → Option σ) (discipline : σ → α → Prop) (states : Nat → σ)
    (actions : Nat → α) : Prop where
  allowed : ∀ n, discipline (states n) (actions n)
  step : ∀ n, next (states n) (actions n) = some (states (n + 1))

/-- Until the goal is reached, some action of one's own comes again and again. -/
def Fair (own : α → Prop) (goal : σ → Prop) (states : Nat → σ) (actions : Nat → α) : Prop :=
  ∀ n, ∃ later, goal (states (n + later)) ∨ own (actions (n + later))

/-- The rule for progress; `Good i` is an invariant of the states of rank `i`. -/
theorem Execution.reaches_goal {next : σ → α → Option σ} {discipline : σ → α → Prop}
    {states : Nat → σ} {actions : Nat → α} {own : α → Prop} {goal : σ → Prop} {ι : Type}
    {lower : ι → ι → Prop} {i : ι}
    (hexecution : Execution next discipline states actions) (hfair : Fair own goal states actions)
    (hlower : WellFounded lower) (Good : ι → σ → Prop)
    (hown : ∀ i s a t, Good i s → own a → discipline s a → next s a = some t →
      ∃ j, lower j i ∧ Good j t)
    (hothers : ∀ i s a t, Good i s → ¬ own a → discipline s a → next s a = some t → Good i t)
    (hstart : Good i (states 0)) : ∃ n, goal (states n) := by
  have hlater : ∀ i n, Good i (states n) → ∃ m, goal (states m) := by
    intro i
    induction i using hlower.induction with
    | _ i ih =>
        -- One's own next action, by induction on how long it takes.
        have hnext : ∀ later n, Good i (states n) →
            goal (states (n + later)) ∨ own (actions (n + later)) → ∃ m, goal (states m) := by
          intro later
          induction later with
          | zero =>
              intro n hgood hcome
              obtain hgoal | hmine := hcome
              · exact ⟨n, hgoal⟩
              · obtain ⟨j, hj, hgood'⟩ :=
                  hown i _ _ _ hgood hmine (hexecution.allowed n) (hexecution.step n)
                exact ih j hj (n + 1) hgood'
          | succ later ihlater =>
              intro n hgood hcome
              by_cases hmine : own (actions n)
              · obtain ⟨j, hj, hgood'⟩ :=
                  hown i _ _ _ hgood hmine (hexecution.allowed n) (hexecution.step n)
                exact ih j hj (n + 1) hgood'
              · have hgood' := hothers i _ _ _ hgood hmine (hexecution.allowed n)
                  (hexecution.step n)
                refine ihlater (n + 1) hgood' ?_
                rw [Nat.add_right_comm n 1 later]
                exact hcome
        intro n hgood
        obtain ⟨later, hcome⟩ := hfair n
        exact hnext later n hgood hcome
  exact hlater i 0 hstart

section Ranks

variable {S : Signature} {ℓ β : Type}

/-- What is left of a call after its beginning, or after one more of its accesses. -/
inductive Process.Continues :
    Option (Process S ℓ β) → Option (Process S ℓ β) → Prop where
  | begins (p : Process S ℓ β) : Continues (some p) none
  | goesOn (l : ℓ) (op : S.Op) (next : S.Res op → Process S ℓ β) (r : S.Res op) :
      Continues (some (next r)) (some (.step l op next))

theorem Process.acc_continues (p : Process S ℓ β) : Acc Process.Continues (some p) := by
  induction p with
  | done a l =>
      constructor
      intro q hq
      cases hq
  | step l op next ih =>
      constructor
      intro q hq
      cases hq with
      | goesOn l op next r => exact ih r

theorem Process.continues_wellFounded :
    WellFounded (Process.Continues : Option (Process S ℓ β) → _ → Prop) := by
  constructor
  intro call
  cases call with
  | some p => exact p.acc_continues
  | none =>
      constructor
      intro q hq
      cases hq with
      | begins p => exact p.acc_continues

namespace Loop

variable {loop : Loop S ℓ} {t : Thread S ℓ}

/-- The thread after one of its accesses, which did not begin a turn. -/
def Follows (loop : Loop S ℓ) (t' t : Thread S ℓ) : Prop :=
  (t.isHead = false ∨ t'.hasReturned = true) ∧
    ∃ op resume r, loop.pending t = some ⟨op, resume⟩ ∧ t' = resume r

theorem acc_returned (l : ℓ) : Acc loop.Follows (.returned l) := by
  constructor
  rintro t ⟨-, op, resume, r, hpending, -⟩
  cases hpending

theorem acc_head (l : ℓ) : Acc loop.Follows (.head l) := by
  constructor
  rintro t ⟨hhead | hreturned, -⟩
  · cases hhead
  · obtain ⟨l', rfl⟩ := Thread.eq_of_hasReturned hreturned
    exact acc_returned l'

theorem acc_settleAfter (p : Process S ℓ Unit) : Acc loop.Follows (settleAfter p) := by
  induction p with
  | done a l => exact acc_returned l
  | step l op next ih =>
      constructor
      rintro t ⟨-, op', resume, r, hpending, rfl⟩
      cases hpending
      exact ih r

theorem acc_settleTurn (p : Process S ℓ Bool) : Acc loop.Follows (loop.settleTurn p) := by
  induction p with
  | done goesOn l =>
      cases goesOn with
      | true => exact acc_head l
      | false => exact acc_settleAfter _
  | step l op next ih =>
      constructor
      rintro t ⟨-, op', resume, r, hpending, rfl⟩
      cases hpending
      exact ih r

theorem follows_wellFounded (loop : Loop S ℓ) : WellFounded loop.Follows := by
  constructor
  intro t
  cases t with
  | head l => exact acc_head l
  | turn p =>
      cases p with
      | done goesOn l =>
          constructor
          rintro t ⟨-, op, resume, r, hpending, -⟩
          cases hpending
      | step l op next => exact acc_settleTurn (.step l op next)
  | leaving p =>
      cases p with
      | done a l =>
          constructor
          rintro t ⟨-, op, resume, r, hpending, -⟩
          cases hpending
      | step l op next => exact acc_settleAfter (.step l op next)
  | returned l => exact acc_returned l

/-- The thread waits for an access, or has returned. -/
def Waits (loop : Loop S ℓ) (t : Thread S ℓ) : Prop :=
  (loop.pending t).isSome = true ∨ t.hasReturned = true

theorem settleAfter_waits (p : Process S ℓ Unit) : loop.Waits (settleAfter p) := by
  cases p with
  | done a l => exact .inr rfl
  | step l op next => exact .inl rfl

theorem settleTurn_waits (hhead : ∀ l, (loop.pending (.head l)).isSome = true)
    (p : Process S ℓ Bool) : loop.Waits (loop.settleTurn p) := by
  cases p with
  | done goesOn l =>
      cases goesOn with
      | true => exact .inl (hhead l)
      | false => exact settleAfter_waits _
  | step l op next => exact .inl rfl

/-- After an access a thread waits for the next one, if every turn begins with an access. -/
theorem resume_waits (hhead : ∀ l, (loop.pending (.head l)).isSome = true) {op : S.Op}
    {resume : S.Res op → Thread S ℓ} (hpending : loop.pending t = some ⟨op, resume⟩)
    (r : S.Res op) : loop.Waits (resume r) := by
  cases t with
  | head l =>
      simp only [pending] at hpending
      generalize loop.body l = p at hpending
      cases p with
      | done goesOn l' => cases hpending
      | step l' op' next =>
          cases hpending
          exact settleTurn_waits hhead _
  | turn p =>
      cases p with
      | done goesOn l => cases hpending
      | step l op' next =>
          cases hpending
          exact settleTurn_waits hhead _
  | leaving p =>
      cases p with
      | done a l => cases hpending
      | step l op' next =>
          cases hpending
          exact settleAfter_waits _
  | returned l => cases hpending

end Loop

end Ranks

end EventEngine.Concurrency
