import EventEngine.Ring.WeakSystem

/-!
# The invariant of the ring with its memory orders

Each side is in its role in the memory it sees, with the events it knows to be published.
Learning moves a side to a later view, and an access of one side leaves the views of the
others as they are.
-/

namespace EventEngine.Ring

open Concurrency Memory

namespace WeakSystem

/-- What a side knows to be published. -/
def events (s : WeakSystem) (role : Role) : List Event :=
  eventsAt s.region s.published (s.region.view role)

/-- The invariant of the system. In a quiet ring a publication happens after every close, a
close after all publications, and whoever sees the ring closed sees everything. -/
structure Ok (g : Geometry) (q : Prop) (s : WeakSystem) : Prop where
  region : RegionOk g q s.region s.published
  client : ∀ role, ClientOk (.fresh g q) role (s.client role) (s.memory role) (s.events role)
  accesses : ∀ role, AccessesOk g role (s.client role) (s.memory role)
  all : writePos (s.memory .producer) = s.published.length
  producerLog : ProducerLog [] (s.client .producer) s.published
  consumerLog : ConsumerLog (.fresh g q) (s.client .consumer) (s.memory .consumer)
    (s.events .consumer)
  exclusive : q → s.Publishing → (s.client .creator).running = none ∧
    s.region.view .producer .creator = (s.region.log .creator).length
  informed : q → (s.client .creator).running ≠ none →
    writePos (s.memory .creator) = s.published.length
  final : q → ∀ v, s.region.Closed v → stateOf (s.region.visible v) = stateClosed →
    writePos (s.region.visible v) = s.published.length

variable {g : Geometry} {q : Prop} {s t : WeakSystem} {role role' : Role} {v w : View Role}
variable {m : Span} {handle : SpscRing}

theorem Ok.ring (h : Ok g q s) (role : Role) :
    RingInv (.fresh g q) (s.memory role) (s.events role) :=
  h.region.ring _ (h.region.causal.closed role)

/-- The producer knows all events. -/
theorem Ok.events_producer (h : Ok g q s) : s.events .producer = s.published := by
  change s.published.take (writePos (s.memory .producer)) = s.published
  rw [h.all, List.take_length]

/-- A side is in its role in every view that contains its own. -/
theorem Ok.client_at (h : Ok g q s) (hw : s.region.Closed w) (hle : s.region.view role ≤ w)
    (hsame : w role = s.region.view role role) :
    ClientOk (.fresh g q) role ((s.client role).observe (s.region.visible w))
      (s.region.visible w) (eventsAt s.region s.published w) := by
  cases role with
  | producer =>
      rw [h.region.eventsAt_congr hsame.symm]
      refine (h.client .producer).observe_producer (h.region.readPos_mono hw (hle _))
        fun r event hr hcall => ?_
      refine h.region.producerRely hw hle hsame.symm (fun hq => ?_) _
      obtain ⟨-, hall⟩ := h.exclusive hq (by rw [Publishing, hr, Option.bind_some, hcall]; rfl)
      exact h.region.stateOf_congr (Nat.le_antisymm (hle _) ((hw.le _).trans_eq hall.symm))
  | consumer =>
      refine (h.client .consumer).observe_consumer
        (h.region.consumerRely hw hle hsame.symm fun hq hclosed => ?_)
      have hlater : stateOf (s.region.visible w) = stateClosed := by
        obtain hstate | hstate := h.region.state_mono hw (hle _)
        · rw [hstate, hclosed]
        · exact hstate
      rw [eventsAt, eventsAt, h.final hq w hw hlater,
        h.final hq _ (h.region.causal.closed _) hclosed]
  | creator => exact (h.client .creator).observe_creator

section Learning

@[simp] theorem learn_published : (s.learn role w).published = s.published := rfl

theorem learn_client_self : (s.learn role w).client role =
    (s.client role).observe (s.region.visible (s.region.view role ⊔ w)) := by
  refine (Function.update_self role _ s.client).trans ?_
  rw [SharedRegion.memory, SharedRegion.learn_view_self]
  rfl

theorem learn_client_of_ne (h : role' ≠ role) :
    (s.learn role w).client role' = s.client role' := Function.update_of_ne h _ _

theorem learn_memory_self :
    (s.learn role w).memory role = s.region.visible (s.region.view role ⊔ w) := by
  rw [memory, learn, SharedRegion.memory, SharedRegion.learn_view_self]
  rfl

theorem learn_memory_of_ne (h : role' ≠ role) :
    (s.learn role w).memory role' = s.memory role' := by
  rw [memory, learn, SharedRegion.memory, SharedRegion.learn_view_of_ne h]
  rfl

theorem learn_events_self :
    (s.learn role w).events role = eventsAt s.region s.published (s.region.view role ⊔ w) := by
  rw [events, learn, SharedRegion.learn_view_self]
  rfl

theorem learn_events_of_ne (h : role' ≠ role) :
    (s.learn role w).events role' = s.events role' := by
  rw [events, learn, SharedRegion.learn_view_of_ne h]
  rfl

/-- The calls in progress are the same. -/
theorem learn_running (role' : Role) :
    ((s.learn role w).client role').running.map Running.call =
      (s.client role').running.map Running.call := by
  by_cases h : role' = role
  · subst h
    rw [learn_client_self]
    unfold Client.observe
    cases (s.client role').running with
    | none => rfl
    | some r => rfl
  · rw [learn_client_of_ne h]

theorem learn_publishing : (s.learn role w).Publishing ↔ s.Publishing := by
  have hsame : ∀ k : Client, (k.running.bind fun r => r.call.event) =
      (k.running.map Running.call).bind Call.event := by
    intro k
    cases k.running with
    | none => rfl
    | some r => rfl
  rw [Publishing, Publishing, hsame, hsame, learn_running]

/-- A side may learn any closed view at any time. -/
theorem Ok.learn (h : Ok g q s) (hw : s.region.Closed w) : Ok g q (s.learn role w) := by
  have hclosed := (h.region.causal.closed role).sup hw
  have hle : s.region.view role ≤ s.region.view role ⊔ w := le_sup_left
  have hsame := h.region.causal.learn_own (t := role) hw
  have hwrite := h.region.writePos_mono hclosed (hle .producer)
  have hread := h.region.readPos_mono hclosed (hle .consumer)
  exact
    { region := h.region.learn hw
      client := fun role' => by
        by_cases hrole : role' = role
        · subst hrole
          rw [learn_client_self, learn_memory_self, learn_events_self]
          exact h.client_at hclosed hle hsame
        · rw [learn_client_of_ne hrole, learn_memory_of_ne hrole, learn_events_of_ne hrole]
          exact h.client role'
      accesses := fun role' => by
        by_cases hrole : role' = role
        · subst hrole
          rw [learn_client_self, learn_memory_self]
          refine (h.accesses role').observe (fun hconsumer => ?_) hwrite
          subst hconsumer
          exact h.region.readPos_congr hsame.symm
        · rw [learn_client_of_ne hrole, learn_memory_of_ne hrole]
          exact h.accesses role'
      all := by
        by_cases hrole : role = .producer
        · subst hrole
          rw [learn_memory_self, h.region.writePos_congr hsame.symm]
          exact h.all
        · rw [learn_memory_of_ne (Ne.symm hrole)]
          exact h.all
      producerLog := by
        by_cases hrole : role = .producer
        · subst hrole
          rw [learn_client_self]
          exact h.producerLog
        · rw [learn_client_of_ne (Ne.symm hrole)]
          exact h.producerLog
      consumerLog := by
        by_cases hrole : role = .consumer
        · subst hrole
          rw [learn_client_self, learn_memory_self, learn_events_self]
          refine h.consumerLog.observe (h.ring .consumer) (h.client .consumer).entry
            (h.region.consumerRely hclosed hle hsame.symm fun hq hstate => ?_)
          have hlater : stateOf (s.region.visible (s.region.view .consumer ⊔ w)) =
              stateClosed := by
            obtain hkept | hnow := h.region.state_mono hclosed (hle _)
            · rw [hkept, hstate]
            · exact hnow
          rw [eventsAt, eventsAt, h.final hq _ hclosed hlater,
            h.final hq _ (h.region.causal.closed _) hstate]
        · rw [learn_client_of_ne (Ne.symm hrole), learn_memory_of_ne (Ne.symm hrole),
            learn_events_of_ne (Ne.symm hrole)]
          exact h.consumerLog
      exclusive := fun hq hpub => by
        obtain ⟨hidle, hall⟩ := h.exclusive hq (learn_publishing.mp hpub)
        refine ⟨?_, ?_⟩
        · have hrunning : ((s.learn role w).client .creator).running.map Running.call = _ :=
            learn_running .creator
          rw [hidle] at hrunning
          exact Option.map_eq_none_iff.mp hrunning
        · by_cases hrole : role = .producer
          · subst hrole
            change (s.region.learn .producer w).view .producer .creator = _
            rw [SharedRegion.learn_view_self]
            exact Nat.le_antisymm (hclosed.le _) (hall ▸ hle .creator)
          · change (s.region.learn role w).view .producer .creator = _
            rw [SharedRegion.learn_view_of_ne (Ne.symm hrole)]
            exact hall
      informed := fun hq hrun => by
        have hbefore : (s.client .creator).running ≠ none := by
          intro hidle
          refine hrun ?_
          have hrunning : ((s.learn role w).client .creator).running.map Running.call = _ :=
            learn_running .creator
          rw [hidle] at hrunning
          exact Option.map_eq_none_iff.mp hrunning
        have hall := h.informed hq hbefore
        by_cases hrole : role = .creator
        · subst hrole
          rw [learn_memory_self]
          exact Nat.le_antisymm (h.region.writePos_le hclosed) (hall ▸ hwrite)
        · rw [learn_memory_of_ne (Ne.symm hrole)]
          exact hall
      final := fun hq v hv => h.final hq v (SharedRegion.closed_learn_iff.mp hv) }

end Learning

/-- One side has moved: its client is `k`, and the other clients are as they were. -/
structure Moves (s t : WeakSystem) (role : Role) (k : Client) : Prop where
  self : t.client role = k
  other : ∀ role', role' ≠ role → t.client role' = s.client role'

section Beginning

variable {call : Call} {k : Client}

/-- A call begins in the memory its side sees. -/
theorem Ok.begin (h : Ok g q s) (hquiet : q → s.quietClosing (.begin role call))
    (hperm : role.permits (s.client role).handle call = true)
    (hbegin : (s.client role).begin call (s.memory role) = some k) (hmoves : Moves s t role k)
    (hregion : t.region = s.region) (hpublished : t.published = s.published) : Ok g q t := by
  obtain ⟨r, hcall, hentry, -, hidle, hsettles, hok⟩ :=
    (h.client role).begin (h.ring role) hperm hbegin
  have haccesses := AccessesOk.begin (h.client role) (h.ring role) hperm hbegin
  have hmemory : t.memory = s.memory := by
    funext role'
    rw [memory, hregion]
    rfl
  have hevents : t.events = s.events := by
    funext role'
    rw [events, hregion, hpublished]
    rfl
  have hperm' : role.permits r.entry r.call = true := by rw [hentry, hcall]; exact hperm
  exact
    { region := by rw [hregion, hpublished]; exact h.region
      client := fun role' => by
        rw [hmemory, hevents]
        by_cases hrole : role' = role
        · rw [hrole, hmoves.self]
          exact hok
        · rw [hmoves.other role' hrole]
          exact h.client role'
      accesses := fun role' => by
        rw [hmemory]
        by_cases hrole : role' = role
        · rw [hrole, hmoves.self]
          exact haccesses
        · rw [hmoves.other role' hrole]
          exact h.accesses role'
      all := by rw [hmemory, hpublished]; exact h.all
      producerLog := by
        rw [hpublished]
        by_cases hrole : Role.producer = role
        · subst hrole
          rw [hmoves.self]
          have hbefore := h.producerLog
          rw [← h.events_producer] at hbefore ⊢
          exact hsettles.producerLog hbefore hperm' (fun _ => rfl)
        · rw [hmoves.other _ hrole]
          exact h.producerLog
      consumerLog := by
        rw [hmemory, hevents]
        by_cases hrole : Role.consumer = role
        · subst hrole
          rw [hmoves.self]
          exact hsettles.consumerLog h.consumerLog (h.ring .consumer) rfl hperm'
            (hentry.trans ((h.client .consumer).idle hidle).symm) (h.client .consumer).entry
            (fun _ _ _ _ => rfl) (.inl rfl)
        · rw [hmoves.other _ hrole]
          exact h.consumerLog
      exclusive := fun hq hpub => by
        rw [hregion]
        have hbefore := hquiet hq
        by_cases hproducer : Role.producer = role
        · subst hproducer
          rw [hmoves.other .creator (by simp)]
          rw [Publishing, hmoves.self] at hpub
          obtain hrun | hrun := hsettles.running
          · rw [hrun, Option.bind_some, hcall] at hpub
            obtain ⟨event, rfl⟩ := Call.event_isSome hpub
            exact hbefore
          · rw [hrun] at hpub
            cases hpub
        · rw [Publishing, hmoves.other _ hproducer] at hpub
          by_cases hcreator : Role.creator = role
          · subst hcreator
            exact absurd hpub hbefore.1
          · rw [hmoves.other _ hcreator]
            exact h.exclusive hq hpub
      informed := fun hq hrun => by
        rw [hmemory, hpublished]
        by_cases hcreator : Role.creator = role
        · subst hcreator
          have hall := (hquiet hq).2
          have hsame : writePos (s.memory .creator) = writePos (s.memory .producer) := by
            refine h.region.writePos_congr ?_
            rw [h.region.causal.own, hall]
          rw [hsame]
          exact h.all
        · rw [hmoves.other _ hcreator] at hrun
          exact h.informed hq hrun
      final := by rw [hregion, hpublished]; exact h.final }

end Beginning

section Performing

variable {k : Client} {op : Access} {r r' : Running} {now : List Event}

/-- What an access of a side does to the system. -/
theorem perform_cases (hnext : s.perform role = some t) : ∃ op k m,
    (s.client role).pending = some op ∧ (s.client role).step (s.memory role) = some (k, m) ∧
      Moves s t role k ∧ t.region = s.region.record role op (memoryOrder role op) ∧
      t.published = s.published ++ (s.client role).publishing.toList := by
  unfold perform at hnext
  split at hnext
  case h_1 op k m hpending hstep =>
    obtain rfl := Option.some.inj hnext
    exact ⟨op, k, m, hpending, hstep,
      ⟨Function.update_self _ _ _, fun role' hne => Function.update_of_ne hne _ _⟩, rfl, rfl⟩
  case h_2 => cases hnext

/-- Only the producer publishes, and it knows what was published before. -/
theorem Ok.publishing_cases (h : Ok g q s) (hrun : (s.client role).running = some r)
    (hperm : role.permits r.entry r.call = true) :
    (s.client role).publishing.toList = [] ∨ (role = .producer ∧
      writePos (s.region.memory .producer) = s.published.length) := by
  by_cases hrole : role = .producer
  · exact .inr ⟨hrole, h.all⟩
  · exact .inl (by rw [Client.publishing_eq_none hrun hperm hrole]; rfl)

/-- What a side knows after an access is a part of what is published then. -/
theorem Ok.events_prefix (h : Ok g q s) (hrun : (s.client role).running = some r)
    (hperm : role.permits r.entry r.call = true) :
    s.events role ++ (s.client role).publishing.toList <+:
      s.published ++ (s.client role).publishing.toList := by
  obtain hnone | ⟨rfl, -⟩ := h.publishing_cases hrun hperm
  · rw [hnone, List.append_nil, List.append_nil]
    exact List.take_prefix _ _
  · simp only [h.events_producer, List.prefix_rfl]

/-- An access keeps the ring in every view: in each one that contains what its side sees, the
side would have performed the same access. -/
theorem Ok.access (h : Ok g q s) (hadv : Advanced (.fresh g q) (s.client role) (s.memory role)
    (s.events role) r r' op k m now) (hperm : role.permits r.entry r.call = true) :
    Performs g role (s.memory role) ⟨op, memoryOrder role op, s.region.after role⟩ ∧
      RegionOk g q (s.region.record role op (memoryOrder role op))
        (s.published ++ (s.client role).publishing.toList) := by
  have hperforms := hadv.performs (h.ring role) hperm (h.accesses role) (s.region.after role)
  refine ⟨hperforms, h.region.record hperforms (fun w hw hle hsame => ?_)
    (h.publishing_cases hadv.running hperm)⟩
  have hpending : ((s.client role).observe (s.region.visible w)).pending = some op := by
    rw [Client.observe_pending]
    exact hadv.pending
  obtain ⟨k', m', hstep⟩ := Client.step_isSome_of_pending hpending (s.region.visible w)
  obtain ⟨r1, r1', op', now', hadv', hperm', -⟩ :=
    (h.client_at hw hle hsame).step (h.region.ring w hw) hstep
  obtain rfl : op = op' := Option.some.inj (hpending.symm.trans hadv'.pending)
  have hnow := hadv'.now_eq hperm'
  rw [Client.observe_publishing] at hnow
  rw [← hnow, Access.effect_eq_spanExec, ← hadv'.memory]
  exact hadv'.inv

/-- The side sees the memory that its access leaves. -/
theorem Ok.perform_memory (h : Ok g q s)
    (hadv : Advanced (.fresh g q) (s.client role) (s.memory role) (s.events role) r r' op k m now)
    (hperm : role.permits r.entry r.call = true)
    (hregion : t.region = s.region.record role op (memoryOrder role op)) : t.memory role = m := by
  rw [memory, hregion, h.region.memory_record (h.access hadv hperm).1, hadv.memory]
  exact Access.effect_eq_spanExec op _

/-- In a quiet ring nothing is published where the producer may have seen the ring closed. -/
theorem Ok.open_of_publishes (h : Ok g q s) (hq : q)
    (hadv : Advanced (.fresh g q) (s.client .producer) (s.memory .producer)
      (s.events .producer) r r' op k m now)
    (hperm : Role.producer.permits r.entry r.call = true)
    (hpub : (s.client .producer).publishing.toList ≠ []) (hv : s.region.Closed v) :
    stateOf (s.region.visible v) ≠ stateClosed := by
  obtain ⟨⟨event, hcall⟩, hready⟩ := hadv.ready hperm hq hpub
  intro hclosed
  have hpublishing : s.Publishing := by
    rw [Publishing, hadv.running, Option.bind_some, hcall]
    rfl
  obtain ⟨-, hall⟩ := h.exclusive hq hpublishing
  have hlater : stateOf (s.memory .producer) = stateClosed := by
    obtain hstate | hstate := h.region.state_mono (v := v) (h.region.causal.closed .producer)
      ((hv.le _).trans_eq hall.symm)
    · exact hstate.trans hclosed
    · exact hstate
  rw [hready] at hlater
  exact absurd hlater (by decide)

/-- In a quiet ring a view that shows the ring closed shows all events, also after an access. -/
theorem Ok.perform_final (h : Ok g q s) (hq : q)
    (hadv : Advanced (.fresh g q) (s.client role) (s.memory role) (s.events role) r r' op k m now)
    (hperm : role.permits r.entry r.call = true)
    (hregion : t.region = s.region.record role op (memoryOrder role op))
    (hpublished : t.published = s.published ++ (s.client role).publishing.toList)
    (hring : RegionOk g q t.region t.published)
    (hall : role = .producer → writePos (t.memory .producer) = t.published.length)
    (hv : t.region.Closed v) (hclosed : stateOf (t.region.visible v) = stateClosed) :
    writePos (t.region.visible v) = t.published.length := by
  have hvisible : ∀ w, s.region.Closed w → t.region.visible w = s.region.visible w := by
    intro w hw
    rw [hregion]
    exact SharedRegion.visible_record hw.le
  obtain hold | ⟨hnew, hle, hw⟩ := h.region.causal.closed_record_cases (hregion ▸ hv)
  · rw [hvisible v hold] at hclosed ⊢
    obtain hnone | ⟨rfl, -⟩ := h.publishing_cases hadv.running hperm
    · rw [hpublished, hnone, List.append_nil]
      exact h.final hq v hold hclosed
    · by_cases hnone : (s.client .producer).publishing.toList = []
      · rw [hpublished, hnone, List.append_nil]
        exact h.final hq v hold hclosed
      · exact absurd hclosed (h.open_of_publishes hq hadv hperm hnone hold)
  · -- Without the access the view is one from before, `w`.
    have hother : ∀ role', role' ≠ role →
        Function.update v role (s.region.log role).length role' = v role' :=
      fun role' hne => Function.update_of_ne hne _ _
    generalize Function.update v role (s.region.log role).length = w at hle hw hother
    cases role with
    | producer =>
        have hsame : t.region.view .producer .producer = v .producer := by
          rw [hring.causal.own, hnew, hregion, SharedRegion.record_log_self, List.length_append]
          rfl
        rw [hring.writePos_congr hsame]
        exact hall rfl
    | consumer =>
        have hnone : (s.client .consumer).publishing.toList = [] := by
          rw [Client.publishing_eq_none hadv.running hperm (by simp)]
          rfl
        rw [hring.stateOf_congr (hother .creator (by simp)), hvisible w hw] at hclosed
        rw [hring.writePos_congr (hother .producer (by simp)), hvisible w hw, hpublished, hnone,
          List.append_nil]
        exact h.final hq w hw hclosed
    | creator =>
        have hnone : (s.client .creator).publishing.toList = [] := by
          rw [Client.publishing_eq_none hadv.running hperm (by simp)]
          rfl
        have hall := h.informed hq (by rw [hadv.running]; exact Option.some_ne_none r)
        rw [hring.writePos_congr (hother .producer (by simp)), hvisible w hw, hpublished, hnone,
          List.append_nil]
        exact Nat.le_antisymm (h.region.writePos_le hw)
          (hall ▸ h.region.writePos_mono hw (hle .producer))

/-- An access of one side, in the memory it sees. -/
theorem Ok.perform (h : Ok g q s) (hnext : s.perform role = some t) : Ok g q t := by
  obtain ⟨op, k, m, hpending, hstep, hmoves, hregion, hpublished⟩ := perform_cases hnext
  obtain ⟨r, r', op', now, hadv, hperm, hok⟩ := (h.client role).step (h.ring role) hstep
  obtain rfl : op = op' := Option.some.inj (hpending.symm.trans hadv.pending)
  have hring := (h.access hadv hperm).2
  obtain ⟨hcall', hentry', -⟩ := hadv.same
  have hnow : now = s.events role ++ (s.client role).publishing.toList := hadv.now_eq hperm
  have hsome := h.events_prefix hadv.running hperm
  rw [← hnow, ← hpublished] at hsome
  rw [← hregion, ← hpublished] at hring
  have hmemory : t.memory role = m := h.perform_memory hadv hperm hregion
  have hmemory_other : ∀ role', role' ≠ role → t.memory role' = s.memory role' := by
    intro role' hne
    rw [memory, hregion, h.region.memory_record_of_ne hne]
    rfl
  have hevents : t.events role = now := by
    change t.published.take (writePos (t.memory role)) = now
    rw [hmemory]
    exact hadv.inv.take_writePos hsome
  have hevents_other : ∀ role', role' ≠ role → t.events role' = s.events role' := by
    intro role' hne
    rw [events, hregion, hpublished, SharedRegion.record_view_of_ne hne]
    exact h.region.eventsAt_append (h.region.causal.closed role') _
  have hkept : role ≠ .producer → t.published = s.published := by
    intro hne
    obtain hnone | ⟨hrole, -⟩ := h.publishing_cases hadv.running hperm
    · rw [hpublished, hnone, List.append_nil]
    · exact absurd hrole hne
  have hperm' : role.permits r'.entry r'.call = true := by
    rw [hentry', hcall']
    exact hperm
  have hall : role = .producer → writePos (t.memory .producer) = t.published.length := by
    rintro rfl
    have hwrite := hadv.inv.write_eq
    rw [Nat.zero_add] at hwrite
    rw [hmemory, hwrite, hnow, h.events_producer, hpublished]
  exact
    { region := hring
      client := fun role' => by
        by_cases hrole : role' = role
        · rw [hrole, hmoves.self, hmemory, hevents]
          exact hok
        · rw [hmoves.other role' hrole, hmemory_other role' hrole, hevents_other role' hrole]
          exact h.client role'
      accesses := fun role' => by
        by_cases hrole : role' = role
        · rw [hrole, hmoves.self, hmemory]
          exact (h.accesses role).step hstep
        · rw [hmoves.other role' hrole, hmemory_other role' hrole]
          exact h.accesses role'
      all := by
        by_cases hrole : role = .producer
        · exact hall hrole
        · rw [hmemory_other _ (Ne.symm hrole), hkept hrole]
          exact h.all
      producerLog := by
        by_cases hrole : role = .producer
        · subst hrole
          rw [hmoves.self, hpublished, ← h.events_producer, ← hnow]
          have hbefore := h.producerLog
          rw [← h.events_producer] at hbefore
          exact hadv.settles.producerLog hbefore hperm'
            fun hattach => (hadv.consumerRely hperm).2.2 (hcall' ▸ hattach)
        · rw [hmoves.other _ (Ne.symm hrole), hkept hrole]
          exact h.producerLog
      consumerLog := by
        by_cases hrole : role = .consumer
        · subst hrole
          rw [hmoves.self, hmemory, hevents]
          have hrentry : r.entry = (s.client .consumer).entry := by
            rw [Client.entry, hadv.running]
          have hmem := hadv.consumer_memory (h.client .consumer) hperm
          refine hadv.settles.consumerLog h.consumerLog (h.ring .consumer)
            (hadv.consumerGuar hperm).history hperm' (hentry'.trans hrentry)
            (h.client .consumer).entry (fun l op' next hp => ?_)
            (by rw [hcall', hentry']; exact hmem)
          obtain hm | ⟨hrel, -⟩ := hmem
          · exact hm
          · exact hadv.loads l op' next hp (.inr hrel)
        · rw [hmoves.other _ (Ne.symm hrole), hmemory_other _ (Ne.symm hrole),
            hevents_other _ (Ne.symm hrole)]
          exact h.consumerLog
      exclusive := fun hq hpub => by
        have hbefore : s.Publishing := by
          by_cases hrole : role = .producer
          · subst hrole
            rw [Publishing, hmoves.self] at hpub
            rw [Publishing, hadv.running, Option.bind_some]
            obtain hrun | hrun := hadv.settles.running
            · rw [hrun, Option.bind_some, hcall'] at hpub
              exact hpub
            · rw [hrun] at hpub
              cases hpub
          · rwa [Publishing, hmoves.other _ (Ne.symm hrole)] at hpub
        obtain ⟨hidle, hknows⟩ := h.exclusive hq hbefore
        have hcreator : role ≠ .creator := by
          rintro rfl
          rw [hadv.running] at hidle
          cases hidle
        rw [hmoves.other _ hcreator.symm, hregion, SharedRegion.record_log_of_ne hcreator.symm]
        refine ⟨hidle, ?_⟩
        by_cases hrole : role = .producer
        · subst hrole
          rw [SharedRegion.record_view_self, SharedRegion.after_of_ne (by simp)]
          exact hknows
        · rw [SharedRegion.record_view_of_ne (Ne.symm hrole)]
          exact hknows
      informed := fun hq hrun => by
        cases role with
        | producer =>
            rw [hmoves.other _ (by simp)] at hrun
            rw [hmemory_other _ (by simp), hpublished]
            by_cases hnone : (s.client .producer).publishing.toList = []
            · rw [hnone, List.append_nil]
              exact h.informed hq hrun
            · obtain ⟨⟨event, hcall⟩, -⟩ := hadv.ready hperm hq hnone
              have hpublishing : s.Publishing := by
                rw [Publishing, hadv.running, Option.bind_some, hcall]
                rfl
              exact absurd (h.exclusive hq hpublishing).1 hrun
        | consumer =>
            rw [hmoves.other _ (by simp)] at hrun
            rw [hmemory_other _ (by simp), hkept (by simp)]
            exact h.informed hq hrun
        | creator =>
            have hbefore := h.informed hq (by rw [hadv.running]; exact Option.some_ne_none r)
            rw [hmemory, hkept (by simp), writePos, (hadv.creatorGuar hperm).write_eq]
            exact hbefore
      final := fun hq v hv hclosed =>
        h.perform_final hq hadv hperm hregion hpublished hring hall hv hclosed }

end Performing

section Reading

variable {view : EventView ByteRange} {start : Span} {offset : Nat}

/-- The view in hand shows the slot at the read position, which is queued. -/
theorem Ok.held (h : Ok g q s)
    (hview : (s.client .consumer).heldView = some (view, start)) :
    view = g.slotView (s.memory .consumer) (readPos (s.memory .consumer)) ∧
      view.payload.length ≤ g.capacity ∧
      readPos (s.memory .consumer) < writePos (s.memory .consumer) := by
  have hheld := h.consumerLog.held
  rw [hview] at hheld
  obtain ⟨hacquired, hslot, hlength, -⟩ := hheld
  exact ⟨hslot, hlength, ((h.client .consumer).entry.held hacquired).2⟩

/-- A payload byte of the view in hand is a byte of a queued slot. -/
theorem Ok.read_performs (h : Ok g q s)
    (hview : (s.client .consumer).heldView = some (view, start))
    (hlo : view.payload.offset ≤ offset)
    (hhi : offset < view.payload.offset + view.payload.length) :
    Performs g .consumer (s.memory .consumer) ⟨.load offset 1,
      memoryOrder .consumer (.load offset 1), s.region.after .consumer⟩ := by
  obtain ⟨rfl, hlength, hlt⟩ := h.held hview
  have hstride := g.metadata_add_capacity_le_stride
  refine ⟨rfl, fun _ => .inr (.inr (.inr (.inr ⟨rfl, ?_, ?_, hlt⟩))),
    fun hstore => (Bool.noConfusion hstore)⟩
  · exact (Nat.le_add_right _ _).trans hlo
  · simp only [Geometry.slotView, ringSlotMetadataBytes] at hhi hlength
    simp only [Access.offset, Access.length]
    omega

/-- The consumer reads a payload byte through the view in hand. -/
theorem Ok.read (h : Ok g q s)
    (hview : (s.client .consumer).heldView = some (view, start))
    (hlo : view.payload.offset ≤ offset)
    (hhi : offset < view.payload.offset + view.payload.length)
    (hregion : t.region = s.region.record .consumer (.load offset 1)
      (memoryOrder .consumer (.load offset 1)))
    (hclient : t.client = s.client) (hpublished : t.published = s.published) : Ok g q t := by
  have hperforms := h.read_performs hview hlo hhi
  have hring : RegionOk g q t.region t.published := by
    rw [hregion, hpublished, ← List.append_nil s.published]
    refine h.region.record hperforms (fun w hw _ _ => ?_) (.inl rfl)
    rw [List.append_nil]
    exact h.region.ring w hw
  have hmemory : ∀ role, t.memory role = s.memory role := by
    intro role
    rw [memory, hregion]
    by_cases hrole : role = .consumer
    · subst hrole
      exact h.region.memory_record hperforms
    · exact h.region.memory_record_of_ne hrole
  have hevents : ∀ role, t.events role = s.events role := by
    intro role
    change t.published.take (writePos (t.memory role)) = _
    rw [hmemory, hpublished]
    rfl
  exact
    { region := hring
      client := fun role => by rw [hclient, hmemory, hevents]; exact h.client role
      accesses := fun role => by rw [hclient, hmemory]; exact h.accesses role
      all := by rw [hmemory, hpublished]; exact h.all
      producerLog := by rw [hclient, hpublished]; exact h.producerLog
      consumerLog := by rw [hclient, hmemory, hevents]; exact h.consumerLog
      exclusive := fun hq hpub => by
        rw [Publishing, hclient] at hpub
        rw [hclient, hregion, SharedRegion.record_view_of_ne (by simp),
          SharedRegion.record_log_of_ne (by simp)]
        exact h.exclusive hq hpub
      informed := fun hq hrun => by
        rw [hclient] at hrun
        rw [hmemory, hpublished]
        exact h.informed hq hrun
      final := fun hq v hv hclosed => by
        have hvisible : ∀ w, s.region.Closed w → t.region.visible w = s.region.visible w := by
          intro w hw
          rw [hregion]
          exact SharedRegion.visible_record hw.le
        rw [hpublished]
        obtain hold | ⟨-, -, hw⟩ := h.region.causal.closed_record_cases (hregion ▸ hv)
        · rw [hvisible v hold] at hclosed ⊢
          exact h.final hq v hold hclosed
        · have hother : ∀ role, role ≠ .consumer →
              Function.update v .consumer (s.region.log .consumer).length role = v role :=
            fun role hne => Function.update_of_ne hne _ _
          rw [hring.stateOf_congr (hother .creator (by simp)), hvisible _ hw] at hclosed
          rw [hring.writePos_congr (hother .producer (by simp)), hvisible _ hw]
          exact h.final hq _ hw hclosed }

end Reading

/-- Every action keeps the invariant; a quiet ring needs the discipline of closing. -/
theorem Ok.next {a : WeakAction} (h : Ok g q s) (hquiet : q → s.quietClosing a)
    (hnext : s.next a = some t) : Ok g q t := by
  cases a with
  | begin role call =>
      simp only [WeakSystem.next] at hnext
      split at hnext
      case isFalse => cases hnext
      case isTrue hperm =>
        obtain ⟨k, hbegin, rfl⟩ := Option.map_eq_some_iff.mp hnext
        exact h.begin hquiet hperm hbegin
          ⟨Function.update_self _ _ _, fun _ hne => Function.update_of_ne hne _ _⟩ rfl rfl
  | step role source =>
      cases source with
      | none => exact h.perform hnext
      | some source =>
          obtain ⟨other, i⟩ := source
          simp only [WeakSystem.next] at hnext
          split at hnext
          case h_1 => cases hnext
          case h_2 op hpending =>
            split at hnext
            case h_1 => cases hnext
            case h_2 v hv =>
              exact (h.learn (h.region.causal.closed_of_synchronizes hv)).perform hnext
  | read offset =>
      simp only [WeakSystem.next] at hnext
      split at hnext
      case h_2 => cases hnext
      case h_1 view start _ hview =>
        split at hnext
        case isFalse => cases hnext
        case isTrue hin =>
          obtain rfl := Option.some.inj hnext
          exact h.read hview hin.1 hin.2 rfl rfl rfl
  | synchronize role other =>
      obtain rfl := Option.some.inj hnext
      exact h.learn (h.region.causal.closed other)

/-- The system of a ring that was just initialized has the invariant. -/
theorem ok_initial (hinit : Initialized g handle m) (q : Prop) : Ok g q (initial m handle) := by
  obtain ⟨rfl, hinv, hstate⟩ := hinit.spec q
  have hwrite : writePos m = 0 := hinv.write_eq
  have hread : readPos m = 0 := Nat.le_zero.mp (hwrite ▸ hinv.read_le)
  have hvisible : ∀ v, (SharedRegion.start m ringOwner).visible v = m :=
    SharedRegion.visible_start m ringOwner
  have hmemory : ∀ role, (initial m (g.handle true)).memory role = m := fun role => hvisible _
  have hevents : ∀ role, (initial m (g.handle true)).events role = [] := fun role =>
    List.take_nil
  exact
    { region :=
        { causal := SharedRegion.causal_start m ringOwner
          owner := rfl
          performed := fun role i e he => by cases he
          ring := fun v _ => by
            change RingInv _ ((SharedRegion.start m ringOwner).visible v)
              (List.take (writePos ((SharedRegion.start m ringOwner).visible v)) [])
            rw [hvisible, List.take_nil]
            exact hinv }
      client := fun role => by
        rw [hmemory, hevents]
        refine ⟨?_, fun _ => rfl, fun r hr => (by cases hr), fun e he => (by cases he)⟩
        cases role with
        | producer => exact g.producerHandle true m
        | consumer => exact g.consumerHandle true m
        | creator => exact g.handleGeometry true
      accesses := fun role r hr => by cases hr
      all := by rw [hmemory, hwrite]; rfl
      producerLog := rfl
      consumerLog := by
        rw [hmemory, hevents]
        exact
          { taken := fun _ => List.take_nil.symm
            releases := hread.symm
            held := rfl }
      exclusive := fun _ hpub => by cases hpub
      informed := fun _ hrun => absurd rfl hrun
      final := fun _ v _ hclosed => by
        change stateOf ((SharedRegion.start m ringOwner).visible v) = stateClosed at hclosed
        rw [hvisible, hstate] at hclosed
        exact absurd hclosed (by decide) }

/-- The invariant holds in every reachable state. -/
theorem reaches_ok {discipline : WeakSystem → WeakAction → Prop}
    (hinit : Initialized g handle m) (hquiet : ∀ u a, discipline u a → q → u.quietClosing a)
    (hrun : Reaches WeakSystem.next discipline (initial m handle) s) : Ok g q s :=
  hrun.invariant (ok_initial hinit q) fun _ a _ h ha hnext => h.next (hquiet _ a ha) hnext

end WeakSystem

end EventEngine.Ring
