import EventEngine.Ring.Calls

/-!
# The invariant of a handle in use

While a call is in progress its process is safe from the current memory; between calls the
handle is as its role requires. Both survive the steps of the other sides, and a step of
the call itself keeps the invariant of the ring and the promise of its role.
-/

namespace EventEngine.Ring

open Concurrency Memory

variable {c : Setting} {role : Role} {k k' : Client} {r : Running} {m m' : Span}
variable {hist hist' now : List Event}

/-- The memories that a call in progress overlaps. -/
def Running.seen (r : Running) : Set Span := {m | m ∈ r.instants}

/-- A call in progress. `hist` is the history when it began and `now` the current one;
they differ only after the store that publishes. -/
structure Busy (c : Setting) (hist now : List Event) (r : Running) (m : Span) : Prop where
  current : m ∈ r.instants
  safe : r.process.Safe (@spanExec Unit) (r.call.protocol c) (r.call.control c hist r.entry)
    (r.call.post c hist r.entry r.start) ⟨m, ⟨now, r.seen⟩⟩
  stores : if r.stored = true then r.process.Results r.call.Stores
    else r.process.ChangesOnlyFor (S := spanAccess) Access.isStore r.call.Stores
  last : r.call = .tryAcquire ∨ r.call = .release →
    r.process.ChangesLast (S := spanAccess) Access.isStore

/-- A call that has returned met its specification. -/
structure EntryOk (c : Setting) (e : Completed) : Prop where
  post : ∃ hist l now, e.call.post c hist e.entry e.start e.reply l
    ⟨e.finish, ⟨now, {m | m ∈ e.instants}⟩⟩
  stores : e.stored = true → e.call.Stores e.reply

/-- The invariant of a client in its role. -/
structure ClientOk (c : Setting) (role : Role) (k : Client) (m : Span) (hist : List Event) :
    Prop where
  entry : role.Handle c k.entry m
  idle : k.running = none → k.entry = k.handle
  busy : ∀ r, k.running = some r → Busy c hist hist r m ∧
    (∃ op next, r.process = .step k.handle op next) ∧ role.permits r.entry r.call = true
  log : ∀ e ∈ k.completed, EntryOk c e

/-- What becomes of a call that has run up to its next access or to its end. -/
inductive Settles (c : Setting) (hist now : List Event) (k : Client) (r : Running) (m : Span) :
    Client → Prop where
  | waits (l : SpscRing) (op : Access) (next : spanAccess.Res op → _) :
      r.process = .step l op next → now = hist ∨ (∀ event, r.call ≠ .tryPublish event) →
      Settles c hist now k r m { k with handle := l, running := some r }
  | returns (reply : Reply) (l : SpscRing) :
      r.process = .done reply l →
      r.call.post c hist r.entry r.start reply l ⟨m, ⟨now, r.seen⟩⟩ →
      Settles c hist now k r m
        { handle := l
          running := none
          completed := ⟨r.call, r.entry, r.start, reply, m, r.instants, r.stored⟩ :: k.completed }

/-- A publication that is still in progress has not changed the history. -/
theorem Busy.now_eq (h : Busy c hist now r m) (hinv : RingInv c m now) {l : SpscRing}
    {op : Access} {next : spanAccess.Res op → Process spanAccess SpscRing Reply}
    (hstep : r.process = .step l op next) :
    now = hist ∨ ∀ event, r.call ≠ .tryPublish event := by
  obtain ⟨call, entry, start, process, instants, stored⟩ := r
  obtain rfl : process = .step l op next := hstep
  cases call with
  | tryPublish event =>
      have hcontrol := (h.safe.advance ⟨hinv, h.current⟩
        (Call.protocol_rely_grow rfl rfl (fun _ hx => hx)) ()).1
      exact .inl hcontrol.1.history
  | tryAcquire => exact .inr fun event => by simp
  | release => exact .inr fun event => by simp
  | attach => exact .inr fun event => by simp
  | closePublication => exact .inr fun event => by simp

theorem Busy.settles (h : Busy c hist now r m) (hinv : RingInv c m now) (k : Client) :
    Settles c hist now k r m (k.settle r m) := by
  cases hp : r.process with
  | done reply l =>
      have hsafe := h.safe
      rw [hp] at hsafe
      rw [Client.settle, hp]
      exact .returns reply l hp hsafe
  | step l op next =>
      rw [Client.settle, hp]
      exact .waits l op next hp (h.now_eq hinv hp)

/-- The history parameter only matters for a publication. -/
theorem Busy.rebase (h : Busy c hist now r m)
    (hhist : now = hist ∨ ∀ event, r.call ≠ .tryPublish event) : Busy c now now r m := by
  obtain ⟨call, entry, start, process, instants, stored⟩ := r
  obtain rfl | hother := hhist
  · exact h
  · cases call with
    | tryPublish event => exact absurd rfl (hother event)
    | tryAcquire => exact ⟨h.current, h.safe, h.stores, h.last⟩
    | release => exact ⟨h.current, h.safe, h.stores, h.last⟩
    | attach => exact ⟨h.current, h.safe, h.stores, h.last⟩
    | closePublication => exact ⟨h.current, h.safe, h.stores, h.last⟩

/-- The end of a call is recorded as it was. -/
theorem Busy.entryOk (h : Busy c hist now r m) {reply : Reply} {l : SpscRing}
    (hp : r.process = .done reply l)
    (hpost : r.call.post c hist r.entry r.start reply l ⟨m, ⟨now, r.seen⟩⟩) :
    EntryOk c ⟨r.call, r.entry, r.start, reply, m, r.instants, r.stored⟩ where
  post := ⟨hist, l, now, hpost⟩
  stores := by
    intro hstored
    have hstores := h.stores
    rw [if_pos hstored, hp] at hstores
    exact hstores

/-- Waiting or returning keeps the invariant of the client. -/
theorem Settles.ok (h : Settles c hist now k r m k') (hbusy : Busy c hist now r m)
    (hperm : role.permits r.entry r.call = true) (hgeometry : HandleGeometry c.geometry r.entry)
    (hentry : ∀ l op next, r.process = .step l op next → role.Handle c r.entry m)
    (hlog : ∀ e ∈ k.completed, EntryOk c e) : ClientOk c role k' m now := by
  cases h with
  | waits l op next hp hhist =>
      exact
        { entry := hentry l op next hp
          idle := fun hnone => by simp at hnone
          busy := by
            intro r' hr'
            obtain rfl : r = r' := Option.some.inj hr'
            exact ⟨hbusy.rebase hhist, ⟨op, next, hp⟩, hperm⟩
          log := hlog }
  | returns reply l hp hpost =>
      exact
        { entry := Role.handle_of_post hperm hgeometry hpost
          idle := fun _ => rfl
          busy := fun r' hr' => by simp at hr'
          log := by
            intro e he
            obtain rfl | he := List.mem_cons.mp he
            · exact hbusy.entryOk hp hpost
            · exact hlog e he }

/-- After settling, a client has the same call in progress or none. -/
theorem Settles.running (h : Settles c hist now k r m k') :
    k'.running = some r ∨ k'.running = none := by
  cases h with
  | waits l op next hp hhist => exact .inl rfl
  | returns reply l hp hpost => exact .inr rfl

/-- What is known at a pending access of a client. -/
theorem ClientOk.control (h : ClientOk c role k m hist) (hinv : RingInv c m hist)
    (hr : k.running = some r) : ∃ op, k.pending = some op ∧
      r.call.control c hist r.entry k.handle op ⟨m, ⟨hist, r.seen⟩⟩ := by
  obtain ⟨hbusy, ⟨op, next, hp⟩, -⟩ := h.busy r hr
  have hsafe := hbusy.safe
  rw [hp] at hsafe
  refine ⟨op, ?_, (hsafe.advance (by rw [Call.protocol_inv]; exact ⟨hinv, hbusy.current⟩)
    (Call.protocol_rely_grow rfl rfl (fun _ hx => hx)) ()).1⟩
  obtain ⟨call, entry, start, process, instants, stored⟩ := r
  obtain rfl : process = .step k.handle op next := hp
  rw [Client.pending, hr]

/-- The handle of a client, also in the middle of a call. -/
theorem ClientOk.handle (h : ClientOk c role k m hist) (hinv : RingInv c m hist) :
    role.Handle c k.handle m := by
  cases hr : k.running with
  | none => rw [← h.idle hr]; exact h.entry
  | some r =>
      obtain ⟨-, -, hperm⟩ := h.busy r hr
      obtain ⟨op, -, hcontrol⟩ := h.control hinv hr
      have hentry := h.entry
      rw [Client.entry, hr] at hentry
      exact Role.handle_of_control hperm hentry hcontrol

/-- Beginning a permitted call. -/
theorem ClientOk.begin {call : Call} (h : ClientOk c role k m hist) (hinv : RingInv c m hist)
    (hperm : role.permits k.handle call = true) (hbegin : k.begin call m = some k') :
    ∃ r : Running, r.call = call ∧ r.entry = k.handle ∧ r.start = m ∧ k.running = none ∧
      Settles c hist hist k r m k' ∧ ClientOk c role k' m hist := by
  cases hr : k.running with
  | some r => simp [Client.begin, hr] at hbegin
  | none =>
      have hhandle : role.Handle c k.handle m := by rw [← h.idle hr]; exact h.entry
      have hbusy : Busy c hist hist
          ⟨call, k.handle, m, call.method m.toRegion k.handle, [m], false⟩ m :=
        { current := List.mem_singleton_self m
          safe := by
            have hseen : Running.seen
                ⟨call, k.handle, m, call.method m.toRegion k.handle, [m], false⟩ = {m} := by
              ext x
              simp [Running.seen]
            rw [hseen]
            exact Call.method_safe hperm hinv hhandle
          stores := Call.method_stores call m.toRegion k.handle
          last := fun hconsumer => Call.method_last hconsumer m.toRegion k.handle }
      simp only [Client.begin, hr, Option.some.injEq] at hbegin
      have hsettles := hbusy.settles hinv k
      rw [hbegin] at hsettles
      exact ⟨_, rfl, rfl, rfl, rfl, hsettles,
        hsettles.ok hbusy hperm hhandle.geometry (fun _ _ _ _ => hhandle) h.log⟩

/-- One access of the call in progress: `r` is the call before and `r'` after it. -/
structure Advanced (c : Setting) (k : Client) (m : Span) (hist : List Event) (r r' : Running)
    (op : Access) (k' : Client) (m' : Span) (now : List Event) : Prop where
  running : k.running = some r
  pending : k.pending = some op
  memory : m' = (@spanExec Unit op () m).2
  inv : RingInv c m' now
  control : r.call.control c hist r.entry k.handle op ⟨m, ⟨hist, r.seen⟩⟩
  guar : (r.call.protocol c).guar ⟨m, ⟨hist, r.seen⟩⟩ ⟨m', ⟨now, r'.seen⟩⟩
  same : r'.call = r.call ∧ r'.entry = r.entry ∧ r'.start = r.start
  settles : Settles c hist now k r' m' k'
  loads : ∀ l op' next, r'.process = .step l op' next →
    r.call = .tryAcquire ∨ r.call = .release → m' = m

theorem spanExec_load {ω : Type} {op : Access} {w : ω} (h : op.isStore = false) (m : Span) :
    (@spanExec ω op w m).2 = m := by
  cases op with
  | load offset length => rfl
  | store offset bytes => exact Bool.noConfusion h

/-- An access keeps what is known of the stores of a call. -/
theorem Busy.stores_step {call : Call} {l : SpscRing} {op : Access} {stored : Bool}
    {next : spanAccess.Res op → Process spanAccess SpscRing Reply} {answer : spanAccess.Res op}
    (h : if stored = true then (Process.step (S := spanAccess) l op next).Results call.Stores
      else (Process.step (S := spanAccess) l op next).ChangesOnlyFor Access.isStore call.Stores) :
    if (stored || op.isStore) = true then (next answer).Results call.Stores
      else (next answer).ChangesOnlyFor (S := spanAccess) Access.isStore call.Stores := by
  cases stored with
  | true =>
      rw [if_pos rfl] at h
      rw [if_pos (Bool.true_or _)]
      exact h answer
  | false =>
      rw [if_neg Bool.false_ne_true] at h
      rw [Bool.false_or]
      by_cases hstore : op.isStore = true
      · simp only [Process.ChangesOnlyFor, if_pos hstore] at h
        rw [if_pos hstore]
        exact h answer
      · simp only [Process.ChangesOnlyFor, if_neg hstore] at h
        rw [if_neg hstore]
        exact h answer

/-- A step of a client is an access of its call in progress. -/
theorem ClientOk.step (h : ClientOk c role k m hist) (hinv : RingInv c m hist)
    (hstep : k.step m = some (k', m')) :
    ∃ r r' op now, Advanced c k m hist r r' op k' m' now ∧
      role.permits r.entry r.call = true ∧ ClientOk c role k' m' now := by
  cases hr : k.running with
  | none => simp [Client.step, hr] at hstep
  | some r =>
      obtain ⟨hbusy, ⟨op, next, hp⟩, hperm⟩ := h.busy r hr
      obtain ⟨call, entry, start, process, instants, stored⟩ := r
      obtain rfl : process = .step k.handle op next := hp
      simp only [Client.step, hr, Option.some.injEq, Prod.mk.injEq] at hstep
      obtain ⟨hk', hm'⟩ := hstep
      obtain ⟨hcontrol, g, hinv', hguar, hsafe⟩ := hbusy.safe.advance
        (by rw [Call.protocol_inv]; exact ⟨hinv, hbusy.current⟩)
        (Call.protocol_rely_grow rfl rfl (fun _ hx => hx)) ()
      rw [hm'] at hk' hinv' hguar hsafe
      rw [Call.protocol_inv] at hinv'
      obtain ⟨hbound, hguar'⟩ := Call.guar_seen hguar
      -- The proof may as well have seen all memories that the call overlaps.
      have hseen : Running.seen ⟨call, entry, start, next (spanExec op () m).1, m' :: instants,
          stored || op.isStore⟩ = insert m' {m | m ∈ instants} := by
        ext x
        simp [Running.seen]
      have hbusy' : Busy c hist g.events ⟨call, entry, start, next (spanExec op () m).1,
          m' :: instants, stored || op.isStore⟩ m' :=
        { current := List.mem_cons_self
          safe := by
            rw [hseen]
            exact hsafe.stable (Call.protocol_rely_grow rfl rfl hbound)
              fun reply l hpost => Call.post_grow (x := ⟨m', g⟩) rfl rfl hbound hpost
          stores := Busy.stores_step hbusy.stores
          last := fun hconsumer => by
            have hlast := hbusy.last hconsumer
            by_cases hstore : op.isStore = true
            · simp only [Process.ChangesLast, if_pos hstore] at hlast
              obtain ⟨reply, l, hdone⟩ := hlast (spanExec op () m).1
              rw [show (Running.process ⟨call, entry, start, next (spanExec op () m).1,
                m' :: instants, stored || op.isStore⟩) = .done reply l from hdone]
              trivial
            · simp only [Process.ChangesLast, if_neg hstore] at hlast
              exact hlast _ }
      have hsettles := hbusy'.settles hinv'.1 k
      rw [hk'] at hsettles
      have hloads : ∀ l op' next', next (spanExec op () m).1 = .step l op' next' →
          call = .tryAcquire ∨ call = .release → m' = m := by
        intro l op' next' hpending hconsumer
        have hlast := hbusy.last hconsumer
        by_cases hstore : op.isStore = true
        · simp only [Process.ChangesLast, if_pos hstore] at hlast
          obtain ⟨reply, l', hdone⟩ := hlast (spanExec op () m).1
          rw [hpending] at hdone
          cases hdone
        · rw [← hm']
          exact spanExec_load (Bool.eq_false_iff.mpr hstore) m
      have hentry : role.Handle c entry m := by
        have hentry := h.entry
        rwa [Client.entry, hr] at hentry
      refine ⟨_, ⟨call, entry, start, next (spanExec op () m).1, m' :: instants,
        stored || op.isStore⟩, op, g.events, ?_, hperm, hsettles.ok hbusy' hperm hentry.geometry
        (fun l op' next' hpending => Role.handle_kept hperm hguar
          (hloads l op' next' hpending) hentry) h.log⟩
      exact
        { running := hr
          pending := by rw [Client.pending, hr]
          memory := hm'.symm
          inv := hinv'.1
          control := hcontrol
          guar := by rw [hseen]; exact hguar'
          same := ⟨rfl, rfl, rfl⟩
          settles := hsettles
          loads := hloads }

/-- `try_acquire` only loads. -/
theorem ClientOk.load_of_tryAcquire {r' : Running} {op : Access} (h : ClientOk c role k m hist)
    (hadv : Advanced c k m hist r r' op k' m' now) (hcall : r.call = .tryAcquire) : m' = m := by
  obtain ⟨hbusy, ⟨op', next, hp⟩, -⟩ := h.busy r hadv.running
  have hop : op' = op := by
    have hpending := hadv.pending
    obtain ⟨call, entry, start, process, instants, stored⟩ := r
    obtain rfl : process = .step k.handle op' next := hp
    rw [Client.pending, hadv.running] at hpending
    exact Option.some.inj hpending
  rw [hadv.memory, ← hop]
  refine spanExec_load (Bool.eq_false_iff.mpr fun hstore => ?_) m
  have hstores := hbusy.stores
  rw [hp, hcall] at hstores
  by_cases hstored : r.stored = true
  · rw [if_pos hstored] at hstores
    exact Process.not_results_false _ hstores
  · rw [if_neg hstored] at hstores
    simp only [Process.ChangesOnlyFor, if_pos hstore] at hstores
    obtain ⟨answer⟩ : Nonempty (spanAccess.Res op') := inferInstance
    exact Process.not_results_false _ (hstores answer)

@[simp] theorem Client.observe_entry (k : Client) (m : Span) :
    (k.observe m).entry = k.entry := by
  unfold Client.entry Client.observe
  cases k.running with
  | none => rfl
  | some r => rfl

/-- Other sides move. -/
theorem ClientOk.observe (h : ClientOk c role k m hist) (hentry : role.Handle c k.entry m')
    (hrely : ∀ r, k.running = some r → (r.call.protocol c).rely ⟨m, ⟨hist, r.seen⟩⟩
      ⟨m', ⟨hist', insert m' r.seen⟩⟩)
    (hhist : hist' = hist ∨ ∀ r event, k.running = some r → r.call ≠ .tryPublish event) :
    ClientOk c role (k.observe m') m' hist' where
  entry := by rw [Client.observe_entry]; exact hentry
  idle := by
    intro hnone
    rw [Client.observe_entry]
    exact h.idle (Option.map_eq_none_iff.mp hnone)
  busy := by
    intro r' hr'
    obtain ⟨r, hr, rfl⟩ := Option.map_eq_some_iff.mp hr'
    obtain ⟨hbusy, ⟨op, next, hp⟩, hperm⟩ := h.busy r hr
    have hmoved : Busy c hist hist' { r with instants := m' :: r.instants } m' :=
      { current := List.mem_cons_self
        safe := by
          have hseen : Running.seen { r with instants := m' :: r.instants } =
              insert m' r.seen := by
            ext x
            simp [Running.seen]
          have hsafe := hbusy.safe
          rw [hp] at hsafe
          rw [hseen, show Running.process { r with instants := m' :: r.instants } =
            .step k.handle op next from hp]
          exact hsafe.stable_step (hrely r hr)
        stores := hbusy.stores
        last := hbusy.last }
    refine ⟨hmoved.rebase ?_, ⟨op, next, hp⟩, hperm⟩
    obtain hsame | hother := hhist
    · exact .inl hsame
    · exact .inr fun event => hother r event hr
  log := h.log

/-- The consumer moves: what the producer's client tolerates. -/
theorem ClientOk.observe_producer (h : ClientOk c .producer k m hist)
    (hread : readPos m ≤ readPos m')
    (hrely : ∀ r event, k.running = some r → r.call = .tryPublish event →
      ProducerRely c m hist m' hist) : ClientOk c .producer (k.observe m') m' hist := by
  refine h.observe (ProducerHandle.mono h.entry hread) (fun r hr => ?_) (.inl rfl)
  obtain ⟨-, -, hperm⟩ := h.busy r hr
  have hrely' := hrely r
  generalize r.call = call at hperm hrely' ⊢
  cases call with
  | tryPublish event => exact ⟨hrely' event hr rfl, Set.subset_insert _ _⟩
  | tryAcquire => exact Bool.noConfusion hperm
  | release => exact Bool.noConfusion hperm
  | attach => exact Set.subset_insert _ _
  | closePublication => exact Bool.noConfusion hperm

/-- The producer or the creator moves: what the consumer's client tolerates. -/
theorem ClientOk.observe_consumer (h : ClientOk c .consumer k m hist)
    (hrely : ConsumerRely c m hist m' hist') : ClientOk c .consumer (k.observe m') m' hist' := by
  refine h.observe (ConsumerHandle.stable h.entry hrely) (fun r hr => ?_)
    (.inr fun r event hr => ?_)
  · obtain ⟨-, -, hperm⟩ := h.busy r hr
    generalize r.call = call at hperm ⊢
    cases call with
    | tryPublish event => exact Bool.noConfusion hperm
    | tryAcquire => exact ⟨hrely, Set.subset_insert _ _⟩
    | release => exact ⟨hrely, Set.subset_insert _ _⟩
    | attach => exact Set.subset_insert _ _
    | closePublication => exact Bool.noConfusion hperm
  · obtain ⟨-, -, hperm⟩ := h.busy r hr
    rintro hcall
    rw [hcall] at hperm
    exact Bool.noConfusion hperm

/-- Anyone moves: the creator's client tolerates everything. -/
theorem ClientOk.observe_creator (h : ClientOk c .creator k m hist) :
    ClientOk c .creator (k.observe m') m' hist' := by
  refine h.observe h.entry (fun r hr => ?_) (.inr fun r event hr => ?_)
  · obtain ⟨-, -, hperm⟩ := h.busy r hr
    generalize r.call = call at hperm ⊢
    cases call with
    | closePublication => exact Set.subset_insert _ _
    | tryPublish event => exact Bool.noConfusion hperm
    | tryAcquire => exact Bool.noConfusion hperm
    | release => exact Bool.noConfusion hperm
    | attach => exact Bool.noConfusion hperm
  · obtain ⟨-, -, hperm⟩ := h.busy r hr
    rintro hcall
    rw [hcall] at hperm
    exact Bool.noConfusion hperm

end EventEngine.Ring
