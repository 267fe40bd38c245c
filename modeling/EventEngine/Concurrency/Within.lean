import EventEngine.Concurrency.Thread

/-!
# A process inside another one

A method calls the methods of its object's members, and of the system, which are processes with
accesses of their own. `Process.within` runs such a process as a part of the caller: a method of
the caller performs each access, and the caller keeps the private state of the process.
-/

namespace EventEngine.Concurrency

variable {S T : Signature} {ℓ ℓ' α β H H' : Type}

namespace Process

/-- Run a process inside a method: `handler` performs its accesses and `put` stores its private
state. -/
def within (handler : (op : S.Op) → Method T ℓ' (S.Res op)) (put : ℓ → ℓ' → ℓ') :
    Process S ℓ α → Method T ℓ' α
  | .done a l => fun o => .done a (put l o)
  | .step l op next => fun o =>
      (handler op (put l o)).bind fun r o' => (next r).within handler put o'

/-- On every path the private state satisfies `keeps`, and the result `good`. -/
def Along (keeps : ℓ → Prop) (good : α → Prop) : Process S ℓ α → Prop
  | .done a l => keeps l ∧ good a
  | .step l _ next => keeps l ∧ ∀ r, (next r).Along keeps good

variable {keeps : ℓ → Prop} {good : α → Prop} {good' : β → Prop} {p : Process S ℓ α}

theorem Along.bind {f : α → ℓ → Process S ℓ β} (hp : p.Along keeps good)
    (h : ∀ a l, keeps l → good a → (f a l).Along keeps good') :
    (p.bind f).Along keeps good' := by
  induction p with
  | done a l => exact h a l hp.1 hp.2
  | step l op next ih => exact ⟨hp.1, fun r => ih r (hp.2 r)⟩

/-- Nothing is said of the private state. -/
theorem Along.of_results (h : p.Results good) : p.Along (fun _ => True) good := by
  induction p with
  | done a l => exact ⟨trivial, h⟩
  | step l op next ih => exact ⟨trivial, fun r => ih r (h r)⟩

theorem Along.trivial (p : Process S ℓ α) : p.Along (fun _ => True) fun _ => True := by
  induction p with
  | done a l => exact ⟨True.intro, True.intro⟩
  | step l op next ih => exact ⟨True.intro, ih⟩

section Rules

variable {env : Environment S H} {env' : Environment T H'}
variable {control' : ℓ' → T.Op → H' → Prop} {handler : (op : S.Op) → Method T ℓ' (S.Res op)}
variable {put : ℓ → ℓ' → ℓ'} {o : ℓ'}

/-- What every access keeps, the process keeps inside its caller. -/
theorem Along.within {I : ℓ' → H' → Prop} {h : H'} (hp : p.Along keeps good)
    (hput : ∀ l o h, keeps l → I o h → I (put l o) h)
    (hhandler : ∀ op o h, I o h → (handler op o).Meets env' control' (fun _ o' h' => I o' h') h)
    (hI : I o h) :
    (p.within handler put o).Meets env' control' (fun a o' h' => good a ∧ I o' h') h := by
  induction p generalizing o h with
  | done a l => exact ⟨hp.2, hput l o h hp.1 hI⟩
  | step l op next ih =>
      refine (hhandler op _ h (hput l o h hp.1 hI)).bind ?_
      intro r o' h' hI'
      exact ih r (hp.2 r) hI'

/-- A contract of the process is a contract inside the caller, if the caller's own state is not
the process's business. -/
theorem Meets.within {control : S.Op → H → Prop} {post : α → H → Prop} {f : H' → H} {h : H'}
    (hp : p.Meets env (fun _ op h => control op h) (fun a _ h => post a h) (f h))
    (hhandler : ∀ op h, control op (f h) → (handler op o).Meets env' control'
      (fun r o' h' => o' = o ∧ env op r (f h) (f h')) h) :
    (p.within handler (fun _ o => o) o).Meets env' control'
      (fun a o' h' => o' = o ∧ post a (f h')) h := by
  induction p generalizing h with
  | done a l => exact ⟨rfl, hp⟩
  | step l op next ih =>
      obtain ⟨hcontrol, hnext⟩ := hp
      refine (hhandler op h hcontrol).bind ?_
      rintro r o' h' ⟨rfl, henv⟩
      exact ih r (hnext r (f h') henv)

/-- A process that avoids a kind of access keeps its contract without it. -/
theorem Meets.avoiding {kind : S.Op → Bool} {control : ℓ → S.Op → H → Prop}
    {post : α → ℓ → H → Prop} {h : H} (hp : p.Meets env control post h)
    (havoids : p.Avoids kind) :
    p.Meets env (fun l op h => control l op h ∧ kind op = false) post h := by
  induction p generalizing h with
  | done a l => exact hp
  | step l op next ih =>
      obtain ⟨hcontrol, hnext⟩ := hp
      exact ⟨⟨hcontrol, havoids.1⟩, fun r h' henv => ih r (hnext r h' henv) (havoids.2 r)⟩

/-- Whatever the answers are, the private state satisfies `keeps`, each access `allowed` and the
result `good`. -/
def Throughout (keeps : ℓ → Prop) (allowed : S.Op → Prop) (good : α → Prop)
    (p : Process S ℓ α) : Prop :=
  p.Meets (fun _ _ _ _ => True : Environment S Unit) (fun l op _ => keeps l ∧ allowed op)
    (fun a l _ => keeps l ∧ good a) ()

variable {allowed : S.Op → Prop}

theorem Throughout.bind {f : α → ℓ → Process S ℓ β} (hp : p.Throughout keeps allowed good)
    (h : ∀ a l, keeps l → good a → (f a l).Throughout keeps allowed good') :
    (p.bind f).Throughout keeps allowed good' :=
  Meets.bind hp fun a l _ hpost => h a l hpost.1 hpost.2

/-- What every allowed access keeps, the process keeps inside its caller. -/
theorem Throughout.within {I : ℓ' → H' → Prop} {h : H'} (hp : p.Throughout keeps allowed good)
    (hput : ∀ l o h, keeps l → I o h → I (put l o) h)
    (hhandler : ∀ op o h, allowed op → I o h →
      (handler op o).Meets env' control' (fun _ o' h' => I o' h') h)
    (hI : I o h) :
    (p.within handler put o).Meets env' control' (fun a o' h' => good a ∧ I o' h') h := by
  induction p generalizing o h with
  | done a l => exact ⟨hp.2, hput l o h hp.1 hI⟩
  | step l op next ih =>
      obtain ⟨⟨hkeeps, hallowed⟩, hnext⟩ := hp
      refine (hhandler op _ h hallowed (hput l o h hkeeps hI)).bind ?_
      intro r o' h' hI'
      exact ih r (hnext r () trivial) hI'

end Rules

end Process

end EventEngine.Concurrency
