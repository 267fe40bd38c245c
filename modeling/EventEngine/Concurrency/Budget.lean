import EventEngine.Concurrency.Progress
import EventEngine.Concurrency.Within

/-!
# Accesses that are paid for

A tariff prices the accesses of a process, and renews its budget at certain answers. A process
that can always pay ends after as many accesses as the budget allows, whatever the answers are;
so does a loop between two renewals. A process that runs inside another one is paid for by its
caller, at the price of the access that it performs.
-/

namespace EventEngine.Concurrency

variable {S T : Signature} {ℓ ℓ' α β : Type}

/-- At most so many accesses, whatever the answers are. -/
def Process.Takes : Process S ℓ α → Nat → Prop
  | .done _ _, _ => True
  | .step _ _ _, 0 => False
  | .step _ _ next, k + 1 => ∀ r, (next r).Takes k

namespace Process.Takes

variable {p : Process S ℓ α} {k k' : Nat}

theorem mono (hp : p.Takes k) (hle : k ≤ k') : p.Takes k' := by
  induction p generalizing k k' with
  | done a l => trivial
  | step l op next ih =>
      cases k with
      | zero => exact hp.elim
      | succ k =>
          obtain ⟨k', rfl⟩ := Nat.exists_eq_succ_of_ne_zero (Nat.ne_of_gt (Nat.lt_of_lt_of_le
            k.succ_pos hle))
          exact fun r => ih r (hp r) (Nat.le_of_succ_le_succ hle)

theorem bind {f : α → ℓ → Process S ℓ β} (hp : p.Takes k) (hf : ∀ a l, (f a l).Takes k') :
    (p.bind f).Takes (k + k') := by
  induction p generalizing k with
  | done a l => exact (hf a l).mono (Nat.le_add_left k' k)
  | step l op next ih =>
      cases k with
      | zero => exact hp.elim
      | succ k =>
          rw [Nat.succ_add]
          exact fun r => ih r (hp r)

end Process.Takes

/-- What the accesses cost, and the answers that make the budget `full` again. -/
structure Tariff (S : Signature) where
  full : Nat
  cost : S.Op → Nat
  renews : (op : S.Op) → S.Res op → Bool

namespace Tariff

variable (A : Tariff S)

/-- An access is paid for, unless its answer renews the budget. -/
def environment : Environment S Nat := fun op r n n' =>
  if A.renews op r = true then n' = A.full else n = A.cost op + n'

/-- What is left pays for the access; `keeps` is known of the private state. -/
def Pays (keeps : ℓ → Prop) : ℓ → S.Op → Nat → Prop := fun l op n => keeps l ∧ A.cost op ≤ n

end Tariff

section Rules

variable {A : Tariff S} {B : Tariff T} {p : Process S ℓ α} {post : α → ℓ → Nat → Prop}
variable {handler : (op : S.Op) → Method T ℓ' (S.Res op)} {put : ℓ → ℓ' → ℓ'} {o : ℓ'}
variable {keeps : ℓ → Prop} {keeps' : ℓ' → Prop} {n n' k : Nat}

/-- A process with few accesses, each at the price of one. -/
theorem Process.Takes.within (hp : p.Takes k) (hn : k ≤ n) (ho : keeps' o)
    (hput : ∀ l o, keeps' o → keeps' (put l o))
    (hhandler : ∀ op o n, keeps' o → 1 ≤ n →
      (handler op o).Meets B.environment (B.Pays keeps')
        (fun _ o' n' => keeps' o' ∧ n ≤ 1 + n') n) :
    (p.within handler put o).Meets B.environment (B.Pays keeps')
      (fun _ o' n' => keeps' o' ∧ n ≤ k + n') n := by
  induction p generalizing k n o with
  | done a l => exact ⟨hput l o ho, Nat.le_add_left n k⟩
  | step l op next ih =>
      cases k with
      | zero => exact hp.elim
      | succ k =>
          apply (hhandler op _ n (hput l o ho) (Nat.le_trans k.succ_pos hn)).bind
          rintro r o' n' ⟨ho', hleft⟩
          apply (ih r (hp r) (n := n') (by omega) ho').mono_post
          rintro a o'' n'' ⟨ho'', hleft'⟩
          exact ⟨ho'', by omega⟩

/-- The caller has what the process has, or more, and pays its accesses at its prices. -/
theorem Process.Meets.within_paid (hp : p.Meets A.environment (A.Pays keeps) post n)
    (hpost : ∀ a l n, post a l n → keeps l) (hn : n ≤ n') (ho : keeps' o)
    (hput : ∀ l o, keeps l → keeps' o → keeps' (put l o))
    (hhandler : ∀ op o n, keeps' o → A.cost op ≤ n →
      (handler op o).Meets B.environment (B.Pays keeps')
        (fun r o' n' => keeps' o' ∧
          if A.renews op r = true then A.full ≤ n' else n ≤ A.cost op + n') n) :
    (p.within handler put o).Meets B.environment (B.Pays keeps')
      (fun a o' m' => keeps' o' ∧ ∃ l m, post a l m ∧ m ≤ m') n' := by
  induction p generalizing n n' o with
  | done a l => exact ⟨hput l o (hpost a l n hp) ho, l, n, hp, hn⟩
  | step l op next ih =>
      obtain ⟨⟨hl, hpays⟩, hnext⟩ := hp
      apply (hhandler op _ n' (hput l o hl ho) (Nat.le_trans hpays hn)).bind
      rintro r o' m' ⟨ho', hleft⟩
      by_cases hrenews : A.renews op r = true
      · rw [if_pos hrenews] at hleft
        exact ih r (hnext r A.full (by rw [Tariff.environment, if_pos hrenews])) hleft ho'
      · rw [if_neg hrenews] at hleft
        have hpaid : A.environment op r n (n - A.cost op) := by
          rw [Tariff.environment, if_neg hrenews]
          exact (Nat.add_sub_cancel' hpays).symm
        exact ih r (hnext r _ hpaid) (by omega) ho'

/-- An access of a loop that can pay is paid for, and the loop can pay behind it. -/
theorem Loop.Contract.Holds.pay {loop : Loop S ℓ} {contract : loop.Contract A.environment}
    {thread : Thread S ℓ} {op : S.Op} {resume : S.Res op → Thread S ℓ}
    (hthread : contract.Holds thread n) (hpending : loop.pending thread = some ⟨op, resume⟩)
    (hcontrol : ∀ l op n, contract.control l op n → A.cost op ≤ n) :
    A.cost op ≤ n ∧ ∀ r, contract.Holds (resume r)
      (if A.renews op r = true then A.full else n - A.cost op) := by
  obtain ⟨⟨l, hpays⟩, hresume⟩ := hthread.resume hpending
  refine ⟨hcontrol l op n hpays, fun r => hresume r _ ?_⟩
  rw [Tariff.environment]
  split
  · rfl
  · exact (Nat.add_sub_cancel' (hcontrol l op n hpays)).symm

end Rules

section Runs

variable {σ α : Type} {next : σ → α → Option σ} {own : α → Bool} {allowed : α → Prop}
variable {I : Nat → σ → Prop} {s t : σ} {actions : List α} {k : Nat}

/-- If every action of one's own is paid for, a run has no more of them than were paid for. -/
theorem runActions_paid (hI : I k s)
    (hstep : ∀ k s a t, I k s → allowed a → next s a = some t →
      (own a).toNat ≤ k ∧ I (k - (own a).toNat) t)
    (hallowed : ∀ a ∈ actions, allowed a) (hrun : runActions next anyAction s actions = some t) :
    actions.countP own ≤ k ∧ I (k - actions.countP own) t := by
  induction actions generalizing s k with
  | nil =>
      obtain rfl := Option.some.inj hrun
      exact ⟨Nat.zero_le k, hI⟩
  | cons a rest ih =>
      obtain ⟨u, hnext, hrest⟩ := exists_of_runActions_cons hrun
      obtain ⟨hone, hI'⟩ := hstep k s a u hI (hallowed a List.mem_cons_self) hnext
      obtain ⟨hle, hleft⟩ := ih hI' (fun b hb => hallowed b (List.mem_cons_of_mem a hb)) hrest
      have hcount : (a :: rest).countP own = (own a).toNat + rest.countP own := by
        rw [List.countP_cons, Nat.add_comm]
        cases own a <;> rfl
      rw [hcount, ← Nat.sub_sub]
      exact ⟨by omega, hleft⟩

end Runs

end EventEngine.Concurrency
