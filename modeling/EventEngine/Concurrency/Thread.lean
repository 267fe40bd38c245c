import EventEngine.Concurrency.Process

/-!
# Threads

A thread executes a loop around a method, then a last method, and returns. Its accesses are
performed one by one by the system it belongs to.

What a thread knows of that system is an `Environment`: how an access may be answered, and
how it changes a history that only the proof sees. `Process.Meets` is the weakest
precondition with respect to an environment. A `Loop.Contract` gives the loop an invariant;
the thread then keeps it whenever its accesses are answered as the environment says.
-/

namespace EventEngine.Concurrency

variable {S : Signature} {ℓ α β H : Type}

/-- The answers an access may get, with the history before and after it. -/
abbrev Environment (S : Signature) (H : Type) := (op : S.Op) → S.Res op → H → H → Prop

/-- However the environment answers, `control` holds at every access and `post` at the end. -/
def Process.Meets (env : Environment S H) (control : ℓ → S.Op → H → Prop)
    (post : α → ℓ → H → Prop) : Process S ℓ α → H → Prop
  | .done a l, h => post a l h
  | .step l op next, h =>
      control l op h ∧ ∀ r h', env op r h h' → (next r).Meets env control post h'

section Rules

variable {env : Environment S H} {control : ℓ → S.Op → H → Prop}
variable {post : α → ℓ → H → Prop} {final : β → ℓ → H → Prop}
variable {p : Process S ℓ α} {l : ℓ} {h : H}

theorem Process.Meets.mono_post {post' : α → ℓ → H → Prop} (hp : p.Meets env control post h)
    (hpost : ∀ a l h, post a l h → post' a l h) : p.Meets env control post' h := by
  induction p generalizing h with
  | done a l => exact hpost a l h hp
  | step l op next ih =>
      obtain ⟨hcontrol, hnext⟩ := hp
      exact ⟨hcontrol, fun r h' henv => ih r (hnext r h' henv)⟩

theorem Process.Meets.mono_control {control' : ℓ → S.Op → H → Prop}
    (hp : p.Meets env control post h)
    (hcontrol : ∀ l op h, control l op h → control' l op h) : p.Meets env control' post h := by
  induction p generalizing h with
  | done a l => exact hp
  | step l op next ih =>
      obtain ⟨hop, hnext⟩ := hp
      exact ⟨hcontrol l op h hop, fun r h' henv => ih r (hnext r h' henv)⟩

theorem Process.Meets.bind {f : α → ℓ → Process S ℓ β} (hp : p.Meets env control post h)
    (hf : ∀ a l h, post a l h → (f a l).Meets env control final h) :
    (p.bind f).Meets env control final h := by
  induction p generalizing h with
  | done a l => exact hf a l h hp
  | step l op next ih =>
      obtain ⟨hcontrol, hnext⟩ := hp
      exact ⟨hcontrol, fun r h' henv => ih r (hnext r h' henv)⟩

/-- A finer history, of which the environment sees a part. -/
theorem Process.Meets.comap {H' : Type} {env' : Environment S H'} {h' : H'} (f : H' → H)
    (hp : p.Meets env control post (f h'))
    (henv : ∀ op r x x', env' op r x x' → env op r (f x) (f x')) :
    p.Meets env' (fun l op x => control l op (f x)) (fun a l x => post a l (f x)) h' := by
  induction p generalizing h' with
  | done a l => exact hp
  | step l op next ih =>
      obtain ⟨hcontrol, hnext⟩ := hp
      exact ⟨hcontrol, fun r x' henv' => ih r (hnext r _ (henv op r h' x' henv'))⟩

/-- One access and what follows it. -/
theorem Method.perform_meets {op : S.Op} {next : S.Res op → Method S ℓ α}
    (hcontrol : control l op h)
    (hnext : ∀ r h', env op r h h' → (next r l).Meets env control post h') :
    ((perform op >>= next) l).Meets env control post h :=
  ⟨hcontrol, hnext⟩

end Rules

/-- A loop: `body` is one turn, from the test of the condition, and says whether the loop
goes on; `after` is what follows the loop. -/
structure Loop (S : Signature) (ℓ : Type) where
  body : Method S ℓ Bool
  after : Method S ℓ Unit

/-- A thread between two accesses: at the head of the loop, inside a turn, behind the loop,
or returned. -/
inductive Thread (S : Signature) (ℓ : Type) where
  | head (self : ℓ)
  | turn (process : Process S ℓ Bool)
  | leaving (process : Process S ℓ Unit)
  | returned (self : ℓ)

/-- The private state where the thread is. -/
def Thread.self : Thread S ℓ → ℓ
  | .head l => l
  | .turn p => p.self
  | .leaving p => p.self
  | .returned l => l

def Thread.hasReturned : Thread S ℓ → Bool
  | .returned _ => true
  | _ => false

theorem Thread.eq_of_hasReturned {thread : Thread S ℓ} (h : thread.hasReturned = true) :
    ∃ l, thread = .returned l := by
  cases thread with
  | head l => cases h
  | turn p => cases h
  | leaving p => cases h
  | returned l => exact ⟨l, rfl⟩

def Thread.isHead : Thread S ℓ → Bool
  | .head _ => true
  | _ => false

theorem Thread.eq_of_isHead {thread : Thread S ℓ} (h : thread.isHead = true) :
    ∃ l, thread = .head l := by
  cases thread with
  | head l => exact ⟨l, rfl⟩
  | turn p => cases h
  | leaving p => cases h
  | returned l => cases h

/-- The thread is between two turns of the loop, or has returned. -/
def Thread.AtRest (thread : Thread S ℓ) (l : ℓ) : Prop := thread = .head l ∨ thread = .returned l

namespace Loop

variable (loop : Loop S ℓ)

def settleAfter : Process S ℓ Unit → Thread S ℓ
  | .done () l => .returned l
  | p => .leaving p

def settleTurn : Process S ℓ Bool → Thread S ℓ
  | .done true l => .head l
  | .done false l => settleAfter (loop.after l)
  | p => .turn p

/-- The access that a thread performs next, and the thread after it. -/
def pending : Thread S ℓ → Option ((op : S.Op) × (S.Res op → Thread S ℓ))
  | .head l =>
      match loop.body l with
      | .step _ op next => some ⟨op, fun r => loop.settleTurn (next r)⟩
      | .done _ _ => none
  | .turn (.step _ op next) => some ⟨op, fun r => loop.settleTurn (next r)⟩
  | .leaving (.step _ op next) => some ⟨op, fun r => settleAfter (next r)⟩
  | _ => none

/-- What holds at the head of the loop, behind it, and when the thread has returned. -/
structure Contract (env : Environment S H) where
  control : ℓ → S.Op → H → Prop
  head : ℓ → H → Prop
  exit : ℓ → H → Prop
  final : ℓ → H → Prop
  body : ∀ {l h}, head l h → (loop.body l).Meets env control
    (fun goesOn l' h' => if goesOn = true then head l' h' else exit l' h') h
  after : ∀ {l h}, exit l h → (loop.after l).Meets env control (fun _ l' h' => final l' h') h

variable {loop} {env : Environment S H} (contract : loop.Contract env)

/-- The contract for a thread wherever it is. -/
def Contract.Holds : Thread S ℓ → H → Prop
  | .head l, h => contract.head l h
  | .turn p, h => p.Meets env contract.control
      (fun goesOn l' h' => if goesOn = true then contract.head l' h' else contract.exit l' h') h
  | .leaving p, h => p.Meets env contract.control (fun _ l' h' => contract.final l' h') h
  | .returned l, h => contract.final l h

variable {contract} {h : H}

theorem Contract.settleAfter_holds {p : Process S ℓ Unit}
    (hp : p.Meets env contract.control (fun _ l' h' => contract.final l' h') h) :
    contract.Holds (settleAfter p) h := by
  cases p with
  | done a l => exact hp
  | step l op next => exact hp

theorem Contract.settleTurn_holds {p : Process S ℓ Bool}
    (hp : p.Meets env contract.control
      (fun goesOn l' h' => if goesOn = true then contract.head l' h' else contract.exit l' h') h) :
    contract.Holds (loop.settleTurn p) h := by
  cases p with
  | done goesOn l =>
      cases goesOn with
      | true => exact hp
      | false => exact settleAfter_holds (contract.after hp)
  | step l op next => exact hp

/-- What is known where an access is pending, and what the thread keeps when it is answered. -/
theorem Contract.Holds.resume {thread : Thread S ℓ} {op : S.Op} {resume : S.Res op → Thread S ℓ}
    (hthread : contract.Holds thread h) (hpending : loop.pending thread = some ⟨op, resume⟩) :
    (∃ l, contract.control l op h) ∧
      ∀ r h', env op r h h' → contract.Holds (resume r) h' := by
  cases thread with
  | head l =>
      have hbody := contract.body hthread
      simp only [pending] at hpending
      generalize loop.body l = p at hbody hpending
      cases p with
      | done goesOn l' => cases hpending
      | step l' op' next =>
          cases hpending
          exact ⟨⟨l', hbody.1⟩, fun r h' henv => settleTurn_holds (hbody.2 r h' henv)⟩
  | turn p =>
      cases p with
      | done goesOn l' => cases hpending
      | step l' op' next =>
          cases hpending
          exact ⟨⟨l', hthread.1⟩, fun r h' henv => settleTurn_holds (hthread.2 r h' henv)⟩
  | leaving p =>
      cases p with
      | done a l' => cases hpending
      | step l' op' next =>
          cases hpending
          exact ⟨⟨l', hthread.1⟩, fun r h' henv => settleAfter_holds (hthread.2 r h' henv)⟩
  | returned l => cases hpending

/-- What the contract says of the private state everywhere holds wherever the thread is. -/
theorem Contract.Holds.self {thread : Thread S ℓ} {P : ℓ → H → Prop}
    (hthread : contract.Holds thread h) (hcontrol : ∀ l op h, contract.control l op h → P l h)
    (hhead : ∀ l h, contract.head l h → P l h) (hexit : ∀ l h, contract.exit l h → P l h)
    (hfinal : ∀ l h, contract.final l h → P l h) : P thread.self h := by
  cases thread with
  | head l => exact hhead l h hthread
  | turn p =>
      cases p with
      | done goesOn l =>
          cases goesOn with
          | true => exact hhead l h hthread
          | false => exact hexit l h hthread
      | step l op next => exact hcontrol l op h hthread.1
  | leaving p =>
      cases p with
      | done a l => exact hfinal l h hthread
      | step l op next => exact hcontrol l op h hthread.1
  | returned l => exact hfinal l h hthread

theorem Contract.Holds.atRest {thread : Thread S ℓ} {l : ℓ} (hthread : contract.Holds thread h)
    (hrest : thread.AtRest l) : contract.head l h ∨ contract.final l h := by
  obtain rfl | rfl := hrest
  · exact .inl hthread
  · exact .inr hthread

/-- A thread that waits for no access is at the head of the loop, behind it, or returned. -/
theorem Contract.Holds.settled {thread : Thread S ℓ} (hthread : contract.Holds thread h)
    (hnone : loop.pending thread = none) :
    ∃ l, contract.head l h ∨ contract.exit l h ∨ contract.final l h := by
  cases thread with
  | head l => exact ⟨l, .inl hthread⟩
  | turn p =>
      cases p with
      | done goesOn l =>
          cases goesOn with
          | true => exact ⟨l, .inl hthread⟩
          | false => exact ⟨l, .inr (.inl hthread)⟩
      | step l op next => cases hnone
  | leaving p =>
      cases p with
      | done a l => exact ⟨l, .inr (.inr hthread)⟩
      | step l op next => cases hnone
  | returned l => exact ⟨l, .inr (.inr hthread)⟩

end Loop

end EventEngine.Concurrency
