import EventEngine.Concurrency.Thread

/-!
# Processes that look the same from outside

Two processes are alike up to a relation of private states if they perform the same accesses,
go on alike after every answer and return the same results, and their private states are
related at every node. A method that keeps to what related states have in common runs alike
from them; so does a thread whose loop consists of such methods.
-/

namespace EventEngine.Concurrency

variable {S : Signature} {ℓ α β : Type}

/-- The same accesses and the same results, from related private states. -/
inductive Process.Alike (R : ℓ → ℓ → Prop) : Process S ℓ α → Process S ℓ α → Prop where
  | done {l l' : ℓ} (a : α) : R l l' → Alike R (.done a l) (.done a l')
  | step {l l' : ℓ} (op : S.Op) {next next' : S.Res op → Process S ℓ α} : R l l' →
      (∀ r, Alike R (next r) (next' r)) → Alike R (.step l op next) (.step l' op next')

theorem Process.Alike.bind {R : ℓ → ℓ → Prop} {p p' : Process S ℓ α}
    {f f' : α → ℓ → Process S ℓ β} (hp : p.Alike R p')
    (hf : ∀ a l l', R l l' → (f a l).Alike R (f' a l')) : (p.bind f).Alike R (p'.bind f') := by
  induction hp with
  | done a hl => exact hf a _ _ hl
  | step op hl _ ih => exact .step op hl ih

/-- The method runs alike from related private states. -/
def Method.Respects (R : ℓ → ℓ → Prop) (x : Method S ℓ α) : Prop :=
  ∀ l l', R l l' → (x l).Alike R (x l')

namespace Method.Respects

variable {R : ℓ → ℓ → Prop}

theorem pure (a : α) : Respects R (Pure.pure a : Method S ℓ α) := by
  intro l l' hl
  exact .done a hl

theorem bind {x : Method S ℓ α} {f : α → Method S ℓ β} (hx : Respects R x)
    (hf : ∀ a, Respects R (f a)) : Respects R (x >>= f) := by
  intro l l' hl
  exact (hx l l' hl).bind fun a l1 l2 h => hf a l1 l2 h

theorem perform (op : S.Op) : Respects R (Method.perform op : Method S ℓ (S.Res op)) := by
  intro l l' hl
  exact .step op hl fun r => .done r hl

theorem assign {f : ℓ → ℓ} (hf : ∀ l l', R l l' → R (f l) (f l')) :
    Respects R (Method.assign f : Method S ℓ Unit) := by
  intro l l' hl
  exact .done () (hf l l' hl)

/-- The method reads its own fields, but only what related states have in common. -/
theorem bind_self {f : ℓ → Method S ℓ α} (hsame : ∀ l l', R l l' → f l = f l')
    (hf : ∀ l, Respects R (f l)) : Respects R (Method.self >>= f) := by
  intro l l' hl
  simp only [Method.bind_apply, Method.self_apply, Process.bind_done]
  rw [← hsame l l' hl]
  exact hf l l l' hl

theorem ite {p : Prop} [Decidable p] {x y : Method S ℓ α} (hx : Respects R x)
    (hy : Respects R y) : Respects R (if p then x else y) := by
  split
  · exact hx
  · exact hy

end Method.Respects

/-- Threads at the same place of their loops, with related private states. -/
inductive Thread.Alike (R : ℓ → ℓ → Prop) : Thread S ℓ → Thread S ℓ → Prop where
  | head {l l' : ℓ} : R l l' → Alike R (.head l) (.head l')
  | turn {p p' : Process S ℓ Bool} : p.Alike R p' → Alike R (.turn p) (.turn p')
  | leaving {p p' : Process S ℓ Unit} : p.Alike R p' → Alike R (.leaving p) (.leaving p')
  | returned {l l' : ℓ} : R l l' → Alike R (.returned l) (.returned l')

/-- Threads at rest have related private states. -/
theorem Thread.Alike.atRest {R : ℓ → ℓ → Prop} {t t' : Thread S ℓ} {l : ℓ}
    (h : t.Alike R t') (hrest : t.AtRest l) : ∃ l', t'.AtRest l' ∧ R l l' := by
  obtain rfl | rfl := hrest
  · cases h with
    | head hl => exact ⟨_, .inl rfl, hl⟩
  · cases h with
    | returned hl => exact ⟨_, .inr rfl, hl⟩

/-- Every method of the loop runs alike from related private states. -/
structure Loop.Respects (R : ℓ → ℓ → Prop) (loop : Loop S ℓ) : Prop where
  body : loop.body.Respects R
  after : loop.after.Respects R

namespace Loop

variable {R : ℓ → ℓ → Prop} {loop : Loop S ℓ}

theorem settleAfter_alike {p p' : Process S ℓ Unit} (hp : p.Alike R p') :
    (settleAfter p).Alike R (settleAfter p') := by
  cases hp with
  | done a hl => exact .returned hl
  | step op hl hnext => exact .leaving (.step op hl hnext)

theorem Respects.settleTurn (h : loop.Respects R) {p p' : Process S ℓ Bool}
    (hp : p.Alike R p') : (loop.settleTurn p).Alike R (loop.settleTurn p') := by
  cases hp with
  | done goesOn hl =>
      cases goesOn with
      | true => exact .head hl
      | false => exact settleAfter_alike (h.after _ _ hl)
  | step op hl hnext => exact .turn (.step op hl hnext)

/-- Threads that are alike wait for the same access, and stay alike after any answer. -/
theorem Respects.pending (h : loop.Respects R) {t t' : Thread S ℓ} (ht : t.Alike R t') :
    (loop.pending t = none ∧ loop.pending t' = none) ∨
    ∃ (op : S.Op) (resume resume' : S.Res op → Thread S ℓ),
      loop.pending t = some ⟨op, resume⟩ ∧ loop.pending t' = some ⟨op, resume'⟩ ∧
      ∀ r, (resume r).Alike R (resume' r) := by
  cases ht with
  | head hl =>
      have hbody := h.body _ _ hl
      simp only [Loop.pending]
      generalize loop.body _ = p at hbody ⊢
      generalize loop.body _ = p' at hbody ⊢
      cases hbody with
      | done goesOn hl' => exact .inl ⟨rfl, rfl⟩
      | step op hl' hnext =>
          exact .inr ⟨op, _, _, rfl, rfl, fun r => h.settleTurn (hnext r)⟩
  | turn hp =>
      cases hp with
      | done goesOn hl => exact .inl ⟨rfl, rfl⟩
      | step op hl hnext => exact .inr ⟨op, _, _, rfl, rfl, fun r => h.settleTurn (hnext r)⟩
  | leaving hp =>
      cases hp with
      | done a hl => exact .inl ⟨rfl, rfl⟩
      | step op hl hnext =>
          exact .inr ⟨op, _, _, rfl, rfl, fun r => settleAfter_alike (hnext r)⟩
  | returned hl => exact .inl ⟨rfl, rfl⟩

end Loop

end EventEngine.Concurrency
