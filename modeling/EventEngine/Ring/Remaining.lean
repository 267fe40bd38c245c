import EventEngine.Concurrency.Progress
import EventEngine.Ring.Drain

/-!
# What a consumer still meets in a closed ring

An acquisition that began before the close may still find the ring empty; a later one does not.
So in a closed ring at most the call that was in progress adds an answer `Empty`. Each step of
the consumer's call is possible, and what is left of the call gets less.
-/

namespace EventEngine.Ring

open Concurrency Memory

variable {c : Setting} {base hist : List Event} {s t : System} {k k' : Client} {m m' : Span}
variable {call : Call} {a : Action}

def Reply.isEmpty : Reply → Bool
  | .acquire (.error .empty) => true
  | _ => false

def Completed.foundEmpty (e : Completed) : Bool := e.reply.isEmpty

/-- How many acquisitions found the ring empty. -/
def Client.empties (k : Client) : Nat := k.completed.countP Completed.foundEmpty

/-- One if a call is in progress that began before the close. -/
def Client.early (k : Client) : Nat :=
  match k.running with
  | none => 0
  | some r => if stateOf r.start = stateClosed then 0 else 1

theorem Client.early_le (k : Client) : k.early ≤ 1 := by
  unfold Client.early
  split
  · exact Nat.zero_le 1
  · split
    · exact Nat.zero_le 1
    · exact Nat.le_refl 1

theorem Client.early_of_idle (h : k.running = none) : k.early = 0 := by
  rw [Client.early, h]

theorem Reply.eq_of_isEmpty {reply : Reply} (h : reply.isEmpty = true) :
    reply = .acquire (.error .empty) := by
  unfold Reply.isEmpty at h
  split at h
  case h_1 => rfl
  case h_2 => cases h

/-- In a closed ring, answers `Empty` come from calls that began before the close. -/
theorem LogMoves.empties (h : LogMoves k m k' m') (hclosed : stateOf m = stateClosed)
    (hlog : ∀ e ∈ k'.completed, EntryOk c e) : k'.empties + k'.early ≤ k.empties + k.early := by
  have hearly : ∀ start, start = m ∨ (∃ r, k.running = some r ∧ start = r.start) →
      stateOf start ≠ stateClosed → k.early = 1 := by
    intro start hstart hopen
    obtain rfl | ⟨r, hr, rfl⟩ := hstart
    · exact absurd hclosed hopen
    · rw [Client.early, hr]
      exact if_neg hopen
  cases h with
  | waits hsame hstart =>
      rw [Client.empties, hsame, ← Client.empties]
      apply Nat.add_le_add_left
      cases hr' : k'.running with
      | none =>
          rw [Client.early, hr']
          exact Nat.zero_le _
      | some r' =>
          by_cases hopen : stateOf r'.start = stateClosed
          · rw [Client.early, hr']
            simp only [if_pos hopen]
            exact Nat.zero_le _
          · rw [hearly _ (hstart r' hr') hopen, Client.early, hr']
            simp only [if_neg hopen]
            exact Nat.le_refl 1
  | returns e hcompleted hidle hfinish hstart =>
      rw [Client.early_of_idle hidle, Client.empties, hcompleted]
      by_cases hempty : e.foundEmpty = true
      · have hok := hlog e (by rw [hcompleted]; exact List.mem_cons_self)
        have hopen := hok.began_open (Reply.eq_of_isEmpty hempty)
        rw [List.countP_cons_of_pos hempty, hearly _ hstart hopen]
        exact Nat.le_refl _
      · rw [List.countP_cons_of_neg hempty]
        exact Nat.le_add_right _ _

/-- Calls that return are not forgotten. -/
theorem LogMoves.empties_le (h : LogMoves k m k' m') : k.empties ≤ k'.empties := by
  cases h with
  | waits hsame hstart =>
      rw [Client.empties, Client.empties, hsame]
  | returns e hcompleted hidle hfinish hstart =>
      rw [Client.empties, Client.empties, hcompleted, List.countP_cons]
      exact Nat.le_add_right _ _

/-- Another client has moved: what is left of this one's call is the same. -/
def SameProcess (k k' : Client) : Prop :=
  k'.running.map Running.process = k.running.map Running.process

theorem SameProcess.observe (k : Client) (m : Span) : SameProcess k (k.observe m) := by
  unfold SameProcess Client.observe
  cases k.running with
  | none => rfl
  | some r => rfl

namespace System

theorem next_client_sameProcess {role : Role} (h : s.next a = some t) (hrole : role ≠ a.actor) :
    SameProcess (s.client role) (t.client role) := by
  cases a with
  | begin actor call =>
      simp only [next] at h
      split at h
      case isFalse => cases h
      case isTrue =>
        cases hbegin : (s.client actor).begin call s.memory with
        | none => rw [hbegin] at h; cases h
        | some k =>
            rw [hbegin] at h
            cases actor with
            | producer =>
                obtain rfl := Option.some.inj h
                cases role with
                | producer => exact absurd rfl hrole
                | consumer => exact rfl
                | creator => exact rfl
            | consumer =>
                obtain rfl := Option.some.inj h
                cases role with
                | producer => exact rfl
                | consumer => exact absurd rfl hrole
                | creator => exact rfl
            | creator =>
                obtain rfl := Option.some.inj h
                cases role with
                | producer => exact rfl
                | consumer => exact rfl
                | creator => exact absurd rfl hrole
  | step actor =>
      simp only [next] at h
      cases hstep : (s.client actor).step s.memory with
      | none => rw [hstep] at h; cases h
      | some result =>
          obtain ⟨k, m⟩ := result
          rw [hstep] at h
          cases actor with
          | producer =>
              obtain rfl := Option.some.inj h
              cases role with
              | producer => exact absurd rfl hrole
              | consumer => exact .observe _ _
              | creator => exact .observe _ _
          | consumer =>
              obtain rfl := Option.some.inj h
              cases role with
              | producer => exact .observe _ _
              | consumer => exact absurd rfl hrole
              | creator => exact .observe _ _
          | creator =>
              obtain rfl := Option.some.inj h
              cases role with
              | producer => exact .observe _ _
              | consumer => exact .observe _ _
              | creator => exact absurd rfl hrole

theorem next_sameProcess (h : s.next a = some t) (ha : a.actor ≠ .consumer) :
    SameProcess s.consumer t.consumer := next_client_sameProcess h (Ne.symm ha)

theorem Ok.client (h : Ok c base hist s) : (role : Role) →
    ClientOk c role (s.client role) s.memory hist
  | .producer => h.producer
  | .consumer => h.consumer
  | .creator => h.creator

/-- The call that a thread of any role waits for can always make a step. -/
theorem Ok.client_can_operate (h : Ok c base hist s) (role : Role) (call : Call)
    (hperm : ∀ l, role.permits l call = true) :
    ∃ t reply, s.operate role call = some (t, reply) := by
  have hnext : ∃ t, s.next (s.operation role call) = some t := by
    unfold operation
    cases hr : (s.client role).running with
    | none =>
        simp only [hr, Option.isSome_none, Bool.false_eq_true, if_false, next, if_pos (hperm _),
          Client.begin]
        cases role with
        | producer => exact ⟨_, rfl⟩
        | consumer => exact ⟨_, rfl⟩
        | creator => exact ⟨_, rfl⟩
    | some r =>
        obtain ⟨-, ⟨op, next, hp⟩, -⟩ := (h.client role).busy r hr
        obtain ⟨call', entry, start, process, instants, stored⟩ := r
        obtain rfl : process = .step _ op next := hp
        simp only [hr, Option.isSome_some, if_true, System.next, Client.step]
        cases role with
        | producer => exact ⟨_, rfl⟩
        | consumer => exact ⟨_, rfl⟩
        | creator => exact ⟨_, rfl⟩
  obtain ⟨t, ht⟩ := hnext
  refine ⟨t, (t.client role).latest, ?_⟩
  rw [operate, ht]
  rfl

theorem Ok.can_operate (h : Ok c base hist s) (call : Call)
    (hperm : ∀ l, Role.consumer.permits l call = true) :
    ∃ t reply, s.operate .consumer call = some (t, reply) :=
  h.client_can_operate .consumer call hperm

end System

/-- A call that has returned is in the log. -/
theorem Operated.entry {role : Role} {reply : Reply} (h : Operated call k k' m (some reply))
    (hclient : ClientOk c role k' m hist) : ∃ e, EntryOk c e ∧ e.call = call ∧ e.reply = reply := by
  generalize hsome : some reply = answer at h
  cases h with
  | waits r hr hcall hentry hcompleted => cases hsome
  | returns e hidle hcompleted hcall hentry hfinish =>
      refine ⟨e, hclient.log e ?_, hcall, (Option.some.inj hsome).symm⟩
      rw [hcompleted]
      exact List.mem_cons_self

/-- A call that waits again has less left of it. -/
theorem Client.settle_continues {r : Running} {call : Option (Process spanAccess SpscRing Reply)}
    (hwaits : (k.settle r m).latest = none)
    (hless : Process.Continues (some r.process) call) :
    Process.Continues ((k.settle r m).running.map Running.process) call := by
  have hrunning : (k.settle r m).running = some r := by
    unfold Client.settle at hwaits ⊢
    cases hp : r.process with
    | done reply l =>
        rw [hp] at hwaits
        cases hwaits
    | step l op next => rfl
  rw [hrunning]
  exact hless

namespace System

/-- So what is left of the call that a thread waits for gets less with each step. -/
theorem operate_client_continues {role : Role} (h : s.operate role call = some (t, none)) :
    Process.Continues ((t.client role).running.map Running.process)
      ((s.client role).running.map Running.process) := by
  obtain ⟨t', hnext, heq⟩ := Option.map_eq_some_iff.mp h
  obtain ⟨rfl, hlatest⟩ := Prod.mk.inj heq
  obtain ⟨-, hmoved⟩ := next_cases hnext
  unfold operation at hmoved
  by_cases hrun : (s.client role).running.isSome = true
  · rw [if_pos hrun] at hmoved
    have hstep : (s.client role).step s.memory = some (t'.client role, t'.memory) := hmoved
    unfold Client.step at hstep
    split at hstep
    case h_1 hr =>
      obtain ⟨hclient, -⟩ := Prod.mk.inj (Option.some.inj hstep)
      rw [hr, ← hclient]
      refine Client.settle_continues ?_ (.goesOn _ _ _ _)
      rw [hclient]
      exact hlatest
    case h_2 => cases hstep
  · rw [if_neg hrun] at hmoved
    obtain ⟨-, hbegin, -⟩ := hmoved
    have hidle : (s.client role).running = none := Option.not_isSome_iff_eq_none.mp hrun
    have hbegun : (s.client role).begin call s.memory = some (t'.client role) := hbegin
    unfold Client.begin at hbegun
    rw [hidle] at hbegun
    have hclient := Option.some.inj hbegun
    rw [hidle, ← hclient]
    refine Client.settle_continues ?_ (.begins _)
    rw [hclient]
    exact hlatest

theorem operate_continues (h : s.operate .consumer call = some (t, none)) :
    Process.Continues (t.consumer.running.map Running.process)
      (s.consumer.running.map Running.process) := operate_client_continues h

end System

end EventEngine.Ring
