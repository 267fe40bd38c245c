import EventEngine.Concurrency.Process
import Mathlib.Logic.Relation

/-!
# Rely-guarantee reasoning for processes

One party runs a process while others change the shared state between its accesses. A
`Protocol` says what every party keeps (`inv`), what this one tolerates from the others
(`rely`) and what it promises them (`guar`). Worlds pair the shared state with ghost
data that only the proof sees; each access chooses the ghost data after it.

`Process.Safe` is the weakest precondition under a protocol. It is defined by recursion
on the process, so a proof about a method follows the text of the method, and a proof
about a system needs only two facts: a process stays safe when others move (`stable`)
and when it moves itself (`advance`).
-/

namespace EventEngine.Concurrency

/-- The shared state together with the ghost data of a proof. -/
structure World (σ γ : Type) where
  shared : σ
  ghost : γ

/-- What the parties sharing a state promise each other. -/
structure Protocol (σ γ : Type) where
  inv : World σ γ → Prop
  rely : World σ γ → World σ γ → Prop
  guar : World σ γ → World σ γ → Prop
  rely_trans : ∀ {x y z}, rely x y → rely y z → rely x z

variable {S : Signature} {ℓ α β ω σ γ : Type}

/-- Every access of the process, from a world with the invariant that the others may have
reached meanwhile, keeps the invariant and the guarantee; `control` holds where an access
is pending and `post` holds of the result. -/
def Process.Safe (exec : Exec S ω σ) (P : Protocol σ γ)
    (control : ℓ → S.Op → World σ γ → Prop) (post : α → ℓ → World σ γ → Prop) :
    Process S ℓ α → World σ γ → Prop
  | .done a l, x => post a l x
  | .step l op next, x => ∀ y, P.inv y → P.rely x y → control l op y ∧ ∀ w, ∃ g,
      P.inv ⟨(exec op w y.shared).2, g⟩ ∧ P.guar y ⟨(exec op w y.shared).2, g⟩ ∧
      (next (exec op w y.shared).1).Safe exec P control post ⟨(exec op w y.shared).2, g⟩

namespace Process.Safe

variable {exec : Exec S ω σ} {P : Protocol σ γ}
variable {control control' : ℓ → S.Op → World σ γ → Prop}
variable {post post' : α → ℓ → World σ γ → Prop}
variable {p : Process S ℓ α} {x y : World σ γ}

@[simp] theorem done_iff {a : α} {l : ℓ} :
    (Process.done a l : Process S ℓ α).Safe exec P control post x ↔ post a l x := Iff.rfl

/-- Weaken what is observed at the accesses and at the end. -/
theorem mono (h : p.Safe exec P control post x)
    (hcontrol : ∀ l op y, control l op y → control' l op y)
    (hpost : ∀ a l y, post a l y → post' a l y) :
    p.Safe exec P control' post' x := by
  induction p generalizing x with
  | done a l => exact hpost a l x h
  | step l op next ih =>
      intro y hinv hrely
      obtain ⟨hc, hnext⟩ := h y hinv hrely
      refine ⟨hcontrol l op y hc, fun w => ?_⟩
      obtain ⟨g, hi, hg, hs⟩ := hnext w
      exact ⟨g, hi, hg, ih _ hs⟩

theorem mono_post (h : p.Safe exec P control post x)
    (hpost : ∀ a l y, post a l y → post' a l y) :
    p.Safe exec P control post' x :=
  h.mono (fun _ _ _ hc => hc) hpost

/-- Sequencing: the second part starts in the very world where the first one ended. -/
theorem bind {f : α → ℓ → Process S ℓ β} {final : β → ℓ → World σ γ → Prop}
    (h : p.Safe exec P control post x)
    (hf : ∀ a l y, post a l y → (f a l).Safe exec P control final y) :
    (p.bind f).Safe exec P control final x := by
  induction p generalizing x with
  | done a l => exact hf a l x h
  | step l op next ih =>
      intro y hinv hrely
      obtain ⟨hc, hnext⟩ := h y hinv hrely
      refine ⟨hc, fun w => ?_⟩
      obtain ⟨g, hi, hg, hs⟩ := hnext w
      exact ⟨g, hi, hg, ih _ hs⟩

/-- Others may move while an access is pending. -/
theorem stable_step {l : ℓ} {op : S.Op} {next : S.Res op → Process S ℓ α}
    (h : (Process.step l op next).Safe exec P control post x) (hrely : P.rely x y) :
    (Process.step l op next).Safe exec P control post y :=
  fun z hinv hrely' => h z hinv (P.rely_trans hrely hrely')

/-- Others may move at any time, provided the result tolerates them. -/
theorem stable (h : p.Safe exec P control post x) (hrely : P.rely x y)
    (hpost : ∀ a l, post a l x → post a l y) :
    p.Safe exec P control post y := by
  cases p with
  | done a l => exact hpost a l h
  | step l op next => exact h.stable_step hrely

/-- The process itself moves: the pending access keeps invariant and guarantee, and the
rest of the process is safe in the world it leaves behind. -/
theorem advance {l : ℓ} {op : S.Op} {next : S.Res op → Process S ℓ α}
    (h : (Process.step l op next).Safe exec P control post x)
    (hinv : P.inv x) (hrefl : P.rely x x) (w : ω) :
    control l op x ∧ ∃ g,
      P.inv ⟨(exec op w x.shared).2, g⟩ ∧ P.guar x ⟨(exec op w x.shared).2, g⟩ ∧
      (next (exec op w x.shared).1).Safe exec P control post
        ⟨(exec op w x.shared).2, g⟩ := by
  obtain ⟨hc, hnext⟩ := h x hinv hrefl
  exact ⟨hc, hnext w⟩

/-- Without interference the process runs through its own guarantees to its result. -/
theorem run (h : p.Safe exec P control post x) (hinv : P.inv x) (hrefl : ∀ y, P.rely y y)
    (w : ω) :
    ∃ g, P.inv ⟨(p.run exec w x.shared).2.2, g⟩ ∧
      Relation.ReflTransGen P.guar x ⟨(p.run exec w x.shared).2.2, g⟩ ∧
      post (p.run exec w x.shared).1 (p.run exec w x.shared).2.1
        ⟨(p.run exec w x.shared).2.2, g⟩ := by
  induction p generalizing x with
  | done a l => exact ⟨x.ghost, hinv, .refl, h⟩
  | step l op next ih =>
      obtain ⟨-, g, hinv', hguar, hnext⟩ := h.advance hinv (hrefl x) w
      obtain ⟨g', hend, hreach, hpost⟩ := ih _ hnext hinv'
      exact ⟨g', hend, .head hguar hreach, hpost⟩

end Process.Safe

/-- Nobody else moves, and nothing is promised. -/
def sequential (σ : Type) : Protocol σ Unit where
  inv _ := True
  rely x y := x = y
  guar _ _ := True
  rely_trans h h' := h.trans h'

/-- Without interference, what a proof shows at the accesses and at the end holds of the
trace and of the result of the run. -/
theorem Process.Safe.of_run {exec : Exec S ω σ} {control : ℓ → S.Op → World σ Unit → Prop}
    {post : α → ℓ → World σ Unit → Prop} {p : Process S ℓ α} {s : σ}
    (h : p.Safe exec (sequential σ) control post ⟨s, ()⟩) (w : ω) :
    (∀ op ∈ p.trace exec w s, ∃ l t, control l op ⟨t, ()⟩) ∧
      post (p.run exec w s).1 (p.run exec w s).2.1 ⟨(p.run exec w s).2.2, ()⟩ := by
  induction p generalizing s with
  | done a l =>
      constructor
      · intro op hop
        cases hop
      · exact h
  | step l op next ih =>
      obtain ⟨hc, hnext⟩ := h ⟨s, ()⟩ trivial rfl
      obtain ⟨g, -, -, hs⟩ := hnext w
      obtain ⟨htrace, hpost⟩ := ih _ hs
      constructor
      · intro op' hop'
        obtain rfl | hrest := List.mem_cons.mp hop'
        · exact ⟨l, s, hc⟩
        · exact htrace op' hrest
      · exact hpost

/-- Without interference an access happens in the very world the process waits in. -/
theorem Process.Safe.sequential_step {exec : Exec S ω σ}
    {control : ℓ → S.Op → World σ Unit → Prop} {post : α → ℓ → World σ Unit → Prop}
    {l : ℓ} {op : S.Op} {next : S.Res op → Process S ℓ α} {s : σ}
    (hcontrol : control l op ⟨s, ()⟩)
    (h : ∀ w, (next (exec op w s).1).Safe exec (sequential σ) control post
      ⟨(exec op w s).2, ()⟩) :
    (Process.step l op next).Safe exec (sequential σ) control post ⟨s, ()⟩ := by
  rintro y - rfl
  exact ⟨hcontrol, fun w => ⟨(), trivial, trivial, h w⟩⟩

end EventEngine.Concurrency
