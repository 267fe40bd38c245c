import EventEngine.Ring.Closure

/-!
# Calls made by a thread

A thread that owns a handle waits for each call to return. `operate` lets the call it waits
for take one step: the call begins if it has not, and otherwise performs an access.
-/

namespace EventEngine.Ring

open Concurrency Memory

variable {c : Setting} {role : Role} {call : Call} {k k' : Client} {m m' : Span}
variable {base hist : List Event} {s t : System}

/-- The reply of the latest call, unless a call is in progress. -/
def Client.latest (k : Client) : Option Reply :=
  match k.running with
  | some _ => none
  | none => k.completed.head?.map fun e => e.reply

namespace System

/-- What lets a call of the client go on. -/
def operation (s : System) (role : Role) (call : Call) : Action :=
  if (s.client role).running.isSome then .step role else .begin role call

/-- One step of a call, with the reply if it has returned. -/
def operate (s : System) (role : Role) (call : Call) : Option (System × Option Reply) :=
  (s.next (s.operation role call)).map fun t => (t, (t.client role).latest)

end System

/-- The client has made one step of a call: it waits, or it has returned with a reply in the
memory `m'`. -/
inductive Operated (call : Call) (k k' : Client) (m' : Span) : Option Reply → Prop where
  | waits (r : Running) : k'.running = some r → r.call = call → r.entry = k.entry →
      k'.completed = k.completed → Operated call k k' m' none
  | returns (e : Completed) : k'.running = none → k'.completed = e :: k.completed →
      e.call = call → e.entry = k.entry → e.finish = m' → Operated call k k' m' (some e.reply)

theorem Operated.settle {r : Running} (hcall : r.call = call) (hentry : r.entry = k.entry) :
    Operated call k (k.settle r m) m (k.settle r m).latest := by
  unfold Client.settle
  cases r.process with
  | done reply l => exact .returns _ rfl rfl hcall hentry rfl
  | step l op next => exact .waits r rfl hcall hentry rfl

theorem Operated.begin (h : k.begin call m = some k') : Operated call k k' m k'.latest := by
  unfold Client.begin at h
  cases hr : k.running with
  | some r => rw [hr] at h; cases h
  | none =>
      rw [hr] at h
      obtain rfl := Option.some.inj h
      exact .settle rfl (by rw [Client.entry, hr])

theorem Operated.step (h : k.step m = some (k', m'))
    (hcall : ∀ r, k.running = some r → r.call = call) : Operated call k k' m' k'.latest := by
  unfold Client.step at h
  split at h
  case h_1 hr =>
    obtain ⟨rfl, rfl⟩ := Prod.mk.inj (Option.some.inj h)
    have hsame := hcall _ hr
    exact .settle hsame (by rw [Client.entry, hr])
  case h_2 => cases h

/-- Another client has moved: the calls of this one are the same. -/
structure SameCalls (k k' : Client) : Prop where
  completed : k'.completed = k.completed
  running : k'.running.map Running.call = k.running.map Running.call
  entry : k'.entry = k.entry
  handle : k'.handle = k.handle

theorem SameCalls.refl (k : Client) : SameCalls k k := ⟨rfl, rfl, rfl, rfl⟩

theorem SameCalls.observe (k : Client) (m : Span) : SameCalls k (k.observe m) where
  completed := rfl
  running := by
    unfold Client.observe
    cases k.running with
    | none => rfl
    | some r => rfl
  entry := Client.observe_entry k m
  handle := rfl

theorem SameCalls.idle (h : SameCalls k k') (hidle : k.running = none) : k'.running = none := by
  have hrunning := h.running
  rw [hidle] at hrunning
  exact Option.map_eq_none_iff.mp hrunning

/-- A publication leaves the initializer flag of its handle alone. -/
theorem Settles.initializer {now : List Event} {r : Running} {event : Event}
    (h : Settles c hist now k r m k') (hcall : r.call = .tryPublish event) :
    k'.entry.initializer = r.entry.initializer := by
  cases h with
  | waits l op next hp hhist => rfl
  | returns reply l hp hpost =>
      rw [hcall] at hpost
      obtain ⟨res, -, hpub⟩ := hpost
      obtain ⟨cached, hl⟩ := hpub.fields
      change l.initializer = r.entry.initializer
      rw [hl]

/-- The role that performs an action. -/
def Action.actor : Action → Role
  | .begin role _ => role
  | .step role => role

namespace System

/-- What an action does to the client that performs it. -/
def Moved (s t : System) : Action → Prop
  | .begin role call => role.permits (s.client role).handle call = true ∧
      (s.client role).begin call s.memory = some (t.client role) ∧ t.memory = s.memory
  | .step role => (s.client role).step s.memory = some (t.client role, t.memory)

/-- An action moves one client; the others only see the memory change. -/
theorem next_cases {a : Action} (h : s.next a = some t) :
    (∀ role, role ≠ a.actor → SameCalls (s.client role) (t.client role)) ∧ Moved s t a := by
  cases a with
  | begin role call =>
      simp only [next] at h
      split at h
      case isFalse => cases h
      case isTrue hperm =>
        cases hbegin : (s.client role).begin call s.memory with
        | none => rw [hbegin] at h; cases h
        | some k =>
            rw [hbegin] at h
            cases role with
            | producer =>
                obtain rfl := Option.some.inj h
                refine ⟨fun role hrole => ?_, hperm, hbegin, rfl⟩
                cases role with
                | producer => exact absurd rfl hrole
                | consumer => exact .refl _
                | creator => exact .refl _
            | consumer =>
                obtain rfl := Option.some.inj h
                refine ⟨fun role hrole => ?_, hperm, hbegin, rfl⟩
                cases role with
                | producer => exact .refl _
                | consumer => exact absurd rfl hrole
                | creator => exact .refl _
            | creator =>
                obtain rfl := Option.some.inj h
                refine ⟨fun role hrole => ?_, hperm, hbegin, rfl⟩
                cases role with
                | producer => exact .refl _
                | consumer => exact .refl _
                | creator => exact absurd rfl hrole
  | step role =>
      simp only [next] at h
      cases hstep : (s.client role).step s.memory with
      | none => rw [hstep] at h; cases h
      | some result =>
          obtain ⟨k, m⟩ := result
          rw [hstep] at h
          cases role with
          | producer =>
              obtain rfl := Option.some.inj h
              refine ⟨fun role hrole => ?_, hstep⟩
              cases role with
              | producer => exact absurd rfl hrole
              | consumer => exact .observe _ _
              | creator => exact .observe _ _
          | consumer =>
              obtain rfl := Option.some.inj h
              refine ⟨fun role hrole => ?_, hstep⟩
              cases role with
              | producer => exact .observe _ _
              | consumer => exact absurd rfl hrole
              | creator => exact .observe _ _
          | creator =>
              obtain rfl := Option.some.inj h
              refine ⟨fun role hrole => ?_, hstep⟩
              cases role with
              | producer => exact .observe _ _
              | consumer => exact .observe _ _
              | creator => exact absurd rfl hrole

theorem operation_actor : (s.operation role call).actor = role := by
  unfold operation
  split
  · rfl
  · rfl

/-- One step of a call that a thread makes. -/
theorem operate_cases {reply : Option Reply} (h : s.operate role call = some (t, reply))
    (hcall : ∀ r, (s.client role).running = some r → r.call = call) :
    s.next (s.operation role call) = some t ∧
      Operated call (s.client role) (t.client role) t.memory reply ∧
      ∀ role', role' ≠ role → SameCalls (s.client role') (t.client role') := by
  obtain ⟨t', hnext, heq⟩ := Option.map_eq_some_iff.mp h
  obtain ⟨rfl, rfl⟩ := Prod.mk.inj heq
  obtain ⟨hothers, hown⟩ := next_cases hnext
  rw [operation_actor] at hothers
  refine ⟨hnext, ?_, hothers⟩
  unfold operation at hown
  by_cases hrun : (s.client role).running.isSome = true
  · rw [if_pos hrun] at hown
    exact .step hown hcall
  · rw [if_neg hrun] at hown
    obtain ⟨-, hbegin, hmemory⟩ := hown
    rw [hmemory]
    exact .begin hbegin

theorem Ok.operate_initializer {event : Event} (h : Ok c base hist s)
    (hcall : ∀ r, s.producer.running = some r → r.call = .tryPublish event)
    (hnext : s.next (s.operation .producer (.tryPublish event)) = some t) :
    t.producer.entry.initializer = s.producer.entry.initializer := by
  obtain ⟨-, hown⟩ := next_cases hnext
  unfold operation at hown
  by_cases hrun : (s.client .producer).running.isSome = true
  · rw [if_pos hrun] at hown
    obtain ⟨r, r', op, now, hadv, -, -⟩ := h.producer.step h.ring hown
    obtain ⟨hcall', hentry', -⟩ := hadv.same
    have hr : s.producer.running = some r := hadv.running
    refine (hadv.settles.initializer (hcall'.trans (hcall r hr))).trans ?_
    rw [hentry', Client.entry, hr]
  · rw [if_neg hrun] at hown
    obtain ⟨hperm, hbegin, -⟩ := hown
    obtain ⟨r, hrcall, hentry, -, hidle, hsettles, -⟩ := h.producer.begin h.ring hperm hbegin
    refine (hsettles.initializer hrcall).trans ?_
    rw [hentry, Client.entry, hidle]

/-- The clients of producer and creator may use one handle object: a close finds it as the
publications left it. -/
def shareHandle (s : System) : System :=
  if s.creator.running.isSome then s
  else { s with creator := { s.creator with handle := s.producer.handle } }

theorem shareHandle_cases (s : System) : s.shareHandle.memory = s.memory ∧
    s.shareHandle.producer = s.producer ∧ s.shareHandle.consumer = s.consumer ∧
    s.shareHandle.creator.completed = s.creator.completed ∧
    s.shareHandle.creator.running = s.creator.running ∧
    s.shareHandle.creator.entry =
      if s.creator.running.isSome then s.creator.entry else s.producer.handle := by
  unfold shareHandle
  by_cases hrun : s.creator.running.isSome = true
  · rw [if_pos hrun, if_pos hrun]
    exact ⟨rfl, rfl, rfl, rfl, rfl, rfl⟩
  · rw [if_neg hrun, if_neg hrun]
    refine ⟨rfl, rfl, rfl, rfl, rfl, ?_⟩
    rw [Client.entry, Option.not_isSome_iff_eq_none.mp hrun]

theorem Ok.shareHandle (h : Ok c base hist s) : Ok c base hist s.shareHandle := by
  unfold System.shareHandle
  by_cases hrun : s.creator.running.isSome = true
  · rw [if_pos hrun]
    exact h
  · rw [if_neg hrun]
    have hidle := Option.not_isSome_iff_eq_none.mp hrun
    have hgeometry := (h.producer.handle h.ring).toHandleGeometry
    exact
      { h with
        creator :=
          { entry := by rw [Client.entry, hidle]; exact hgeometry
            idle := fun _ => by rw [Client.entry, hidle]
            busy := fun r hr => by rw [hidle] at hr; cases hr
            log := h.creator.log } }

end System

end EventEngine.Ring
