import EventEngine.Ring.Closure
import EventEngine.Ring.WeakInvariant

/-!
# The ring is a queue under release and acquire

The memory orders of the source are enough: no two accesses race, the consumer obtains what
was published, byte for byte and in order, and when it finds the ring closed it has obtained
everything. Only the instants at which calls take effect are not those of one memory.
-/

namespace EventEngine.Ring

open Concurrency Memory

namespace WeakSystem

variable {g : Geometry} {q : Prop} {handle : SpscRing} {m : Span} {s t : WeakSystem}
variable {a : WeakAction} {role : Role} {v : View Role}

/-- One publication. -/
def samplePublication : List WeakAction :=
  .begin .producer (.tryPublish sampleEvent) :: List.replicate 8 (.step .producer none)

/-- An acquisition whose load of the producer cursor reads from its store. -/
def sampleAcquisition : List WeakAction :=
  .begin .consumer .tryAcquire :: List.replicate 2 (.step .consumer none) ++
    .step .consumer (some (.producer, 7)) :: List.replicate 7 (.step .consumer none)

/-- Every run is free of data races: each side stores to bytes of its own, loads relaxed only
its own cursor, and conflicting accesses of two sides are ordered unless both are atomic. A
load that synchronizes with a store obtains the bytes that were stored. -/
theorem race_free (hinit : Initialized g handle m)
    (hrun : Reaches WeakSystem.next anyAction (initial m handle) s) :
    s.region.RaceFree ∧
    (∀ (role : Role) (i : Nat) (e : Performed Role), (s.region.log role)[i]? = some e →
      e.access.isStore = true ∨ e.order = .relaxed → s.region.Owns role e.access) ∧
    (∀ (role other : Role) (op : Access) (order : MemoryOrder) (i : Nat) (v : View Role)
      (e : Performed Role) (offset : Nat) (bytes : Bytes),
      s.region.synchronizes role op order other i = some v → (s.region.log other)[i]? = some e →
      e.access = .store offset bytes →
      ((s.learn role v).memory role).read op.offset op.length = bytes) := by
  have hok : Ok g False s := reaches_ok hinit (fun _ _ _ h => h.elim) hrun
  have howns : ∀ (role : Role) (i : Nat) (e : Performed Role), (s.region.log role)[i]? = some e →
      e.access.isStore = true ∨ e.order = .relaxed → s.region.Owns role e.access := by
    intro role i e he hop
    have hperforms := hok.region.performed role i e he
    obtain hstore | hrelaxed := hop
    · exact (hperforms.store hstore).owns hok.region.owner
    · exact owns_of_relaxed (hperforms.order.symm.trans hrelaxed) hok.region.owner
  refine ⟨hok.region.raceFree, howns, ?_⟩
  intro role other op order i v e offset bytes hsync he hop
  rw [learn_memory_self]
  exact hok.region.causal.read_synchronized hsync he hop
    (howns other i e he (.inl (by rw [hop]; rfl)))

theorem race_free_sample :
    ∃ s, runActions WeakSystem.next anyAction (initial sampleMemory sampleHandle)
        (samplePublication ++ sampleAcquisition ++ [.read 224]) = some s ∧
      (s.region.log .producer).length = 8 ∧ (s.region.log .consumer).length = 11 ∧
      s.region.RaceFree := by
  have hrun : (runActions WeakSystem.next anyAction (initial sampleMemory sampleHandle)
      (samplePublication ++ sampleAcquisition ++ [.read 224])).map (fun s =>
        ((s.region.log .producer).length, (s.region.log .consumer).length)) =
      some (8, 11) := by
    decide +kernel
  obtain ⟨s, hs, hlog⟩ := Option.map_eq_some_iff.mp hrun
  obtain ⟨hproducer, hconsumer⟩ := Prod.mk.inj hlog
  exact ⟨s, hs, hproducer, hconsumer,
    (race_free initialized_sample (reaches_of_runActions hs)).1⟩

/-- The consumer obtains the published events in order, byte for byte, and a slot is not
stored to again before it was given back: while a view is in hand, its bytes are those of the
published event. -/
theorem fifo (hinit : Initialized g handle m)
    (hrun : Reaches WeakSystem.next anyAction (initial m handle) s) :
    (s.client .consumer).acquiredEvents <+: (s.client .producer).publishedEvents ∧
    (s.client .producer).publishedEvents.length ≤ (s.client .consumer).releases + g.slots ∧
    (∀ view start, (s.client .consumer).heldView = some (view, start) →
      (s.client .producer).publishedEvents[(s.client .consumer).releases]? =
        some (view.resolve (s.memory .consumer))) ∧
    (∀ e ∈ (s.client .consumer).completed, e.reply ≠ .acquire (.error .invalidSlot)) := by
  have hok : Ok g False s := reaches_ok hinit (fun _ _ _ h => h.elim) hrun
  have hpublished : s.published = (s.client .producer).publishedEvents := hok.producerLog
  have hreleases : (s.client .consumer).releases = readPos (s.memory .consumer) :=
    hok.consumerLog.releases
  have hsome : s.events .consumer <+: s.published := List.take_prefix _ _
  rw [← hpublished]
  refine ⟨?_, ?_, ?_, ?_⟩
  · rw [hok.consumerLog.taken trivial]
    exact (List.take_prefix _ _).trans hsome
  · have hfull : writePos (s.memory .producer) ≤ readPos (s.memory .producer) + g.slots :=
      (hok.ring .producer).write_le
    have hread : readPos (s.memory .producer) ≤ readPos (s.memory .consumer) := by
      refine hok.region.readPos_mono (hok.region.causal.closed _) ?_
      rw [hok.region.causal.own]
      exact (hok.region.causal.closed _).le _
    rw [hok.all] at hfull
    omega
  · intro view start hview
    obtain ⟨rfl, -, hlt⟩ := hok.held hview
    have hevent := (hok.ring .consumer).oldest hlt
    obtain ⟨hindex, -⟩ := List.getElem?_eq_some_iff.mp hevent
    rw [hreleases, List.prefix_iff_getElem?.mp hsome _ hindex, ← hevent]
    exact (List.getElem?_eq_getElem hindex).symm
  · intro e he hinvalid
    obtain ⟨⟨hist, l, now, hpost⟩, -⟩ := (hok.client .consumer).log e he
    rw [hinvalid] at hpost
    cases hcall : e.call with
    | tryAcquire =>
        rw [hcall] at hpost
        obtain ⟨r, hr, hacq⟩ := hpost
        obtain rfl := Reply.acquire.inj hr
        split at hacq
        · cases hacq.1
        · exact hacq.answer.2 trivial
    | tryPublish event => rw [hcall] at hpost; obtain ⟨r, hr, -⟩ := hpost; cases hr
    | release => rw [hcall] at hpost; obtain ⟨r, hr, -⟩ := hpost; cases hr
    | attach => rw [hcall] at hpost; cases hpost.1
    | closePublication => rw [hcall] at hpost; cases hpost.1

theorem fifo_sample :
    ∃ s, runActions WeakSystem.next anyAction (initial sampleMemory sampleHandle)
        (samplePublication ++ sampleAcquisition) = some s ∧
      (s.client .consumer).acquiredEvents = [sampleEvent] ∧
      (s.client .consumer).acquiredEvents <+: (s.client .producer).publishedEvents := by
  have hrun : (runActions WeakSystem.next anyAction (initial sampleMemory sampleHandle)
      (samplePublication ++ sampleAcquisition)).map
        (fun s => (s.client .consumer).acquiredEvents) = some [sampleEvent] := by
    decide +kernel
  obtain ⟨s, hs, hacquired⟩ := Option.map_eq_some_iff.mp hrun
  exact ⟨s, hs, hacquired, (fifo initialized_sample (reaches_of_runActions hs)).1⟩

/-- The same loads may all be old: then the acquisition answers `Empty`, though the
publication has returned. -/
example : (runActions WeakSystem.next anyAction (initial sampleMemory sampleHandle)
    (samplePublication ++ .begin .consumer .tryAcquire ::
      List.replicate 3 (.step .consumer none))).map (fun s =>
        ((s.client .producer).publishedEvents, (s.client .consumer).completed.length,
          (s.client .consumer).acquiredEvents)) = some ([sampleEvent], 1, []) := by
  decide +kernel

/-- An action only adds to what was performed: views stay closed and show the same, and no
side forgets. -/
structure Extends (s t : WeakSystem) : Prop where
  closed : ∀ v, s.region.Closed v → t.region.Closed v
  visible : ∀ v, s.region.Closed v → t.region.visible v = s.region.visible v
  view : ∀ role, s.region.view role ≤ t.region.view role

theorem Extends.trans {u : WeakSystem} (h : Extends s t) (h' : Extends t u) : Extends s u where
  closed v hv := h'.closed v (h.closed v hv)
  visible v hv := (h'.visible v (h.closed v hv)).trans (h.visible v hv)
  view role := (h.view role).trans (h'.view role)

theorem Extends.learn (s : WeakSystem) (role : Role) (w : View Role) :
    Extends s (s.learn role w) where
  closed v hv := SharedRegion.closed_learn_iff.mpr hv
  visible _ _ := rfl
  view role' := by
    change s.region.view role' ≤ (s.region.learn role w).view role'
    by_cases h : role' = role
    · subst h
      rw [SharedRegion.learn_view_self]
      exact le_sup_left
    · rw [SharedRegion.learn_view_of_ne h]

theorem Extends.record {op : Access} {order : MemoryOrder}
    (h : t.region = s.region.record role op order) : Extends s t where
  closed v hv := by rw [h]; exact hv.record
  visible v hv := by rw [h]; exact SharedRegion.visible_record hv.le
  view role' := by
    rw [h]
    by_cases hrole : role' = role
    · subst hrole
      rw [SharedRegion.record_view_self]
      exact s.region.view_le_after role'
    · rw [SharedRegion.record_view_of_ne hrole]

theorem Extends.perform (h : s.perform role = some t) : Extends s t := by
  obtain ⟨op, k, m, -, -, -, hregion, -⟩ := perform_cases h
  exact .record hregion

/-- A call that the consumer finishes in an action does so in the memory it sees then. -/
def Finishes (s t : WeakSystem) : Prop :=
  ∀ e ∈ (t.client .consumer).completed, e ∈ (s.client .consumer).completed ∨
    e.finish = t.memory .consumer

theorem Finishes.of_logMoves
    (h : LogMoves (s.client .consumer) m (t.client .consumer) (t.memory .consumer)) :
    Finishes s t := by
  intro e he
  cases h with
  | waits hsame _ => exact .inl (hsame ▸ he)
  | returns e' hnew _ hfinish _ =>
      rw [hnew] at he
      obtain rfl | hold := List.mem_cons.mp he
      · exact .inr hfinish
      · exact .inl hold

theorem Finishes.of_completed
    (h : (t.client .consumer).completed = (s.client .consumer).completed) : Finishes s t :=
  fun _ he => .inl (h ▸ he)

theorem Ok.perform_finishes (h : Ok g q s) (hnext : s.perform role = some t) :
    Finishes s t := by
  obtain ⟨op, k, m, hpending, hstep, hmoves, hregion, -⟩ := perform_cases hnext
  by_cases hrole : Role.consumer = role
  · subst hrole
    obtain ⟨r, r', op', now, hadv, hperm, -⟩ := (h.client .consumer).step (h.ring .consumer) hstep
    obtain rfl : op = op' := Option.some.inj (hpending.symm.trans hadv.pending)
    refine .of_logMoves (m := s.memory .consumer) ?_
    rw [hmoves.self, h.perform_memory hadv hperm hregion]
    exact .step hstep
  · exact .of_completed (by rw [hmoves.other _ hrole])

theorem Finishes.of_learn {w : View Role} (h : Finishes (s.learn role w) t) : Finishes s t := by
  intro e he
  obtain hold | hfinish := h e he
  · refine .inl ?_
    by_cases hrole : Role.consumer = role
    · subst hrole
      rwa [learn_client_self] at hold
    · rwa [learn_client_of_ne hrole] at hold
  · exact .inr hfinish

/-- What an action does to the views and to the log of the consumer. -/
theorem Ok.next_finishes (h : Ok g q s) (hnext : s.next a = some t) :
    Extends s t ∧ Finishes s t := by
  cases a with
  | begin role call =>
      simp only [WeakSystem.next] at hnext
      split at hnext
      case isFalse => cases hnext
      case isTrue hperm =>
        obtain ⟨k, hbegin, rfl⟩ := Option.map_eq_some_iff.mp hnext
        have hmoves : Moves s { s with client := Function.update s.client role k } role k :=
          ⟨Function.update_self _ _ _, fun _ hne => Function.update_of_ne hne _ _⟩
        refine ⟨⟨fun _ hv => hv, fun _ _ => rfl, fun _ => le_refl _⟩, ?_⟩
        by_cases hrole : Role.consumer = role
        · subst hrole
          refine .of_logMoves (m := s.memory .consumer) ?_
          rw [hmoves.self]
          exact .begin hbegin
        · exact .of_completed (by rw [hmoves.other _ hrole])
  | step role source =>
      cases source with
      | none => exact ⟨.perform hnext, h.perform_finishes hnext⟩
      | some source =>
          obtain ⟨other, i⟩ := source
          simp only [WeakSystem.next] at hnext
          split at hnext
          case h_1 => cases hnext
          case h_2 op hpending =>
            split at hnext
            case h_1 => cases hnext
            case h_2 v hv =>
              have hclosed := h.region.causal.closed_of_synchronizes hv
              exact ⟨(Extends.learn s role v).trans (.perform hnext),
                ((h.learn hclosed).perform_finishes hnext).of_learn⟩
  | read offset =>
      simp only [WeakSystem.next] at hnext
      split at hnext
      case h_2 => cases hnext
      case h_1 view start _ hview =>
        split at hnext
        case isFalse => cases hnext
        case isTrue hin =>
          obtain rfl := Option.some.inj hnext
          exact ⟨.record rfl, .of_completed rfl⟩
  | synchronize role other =>
      obtain rfl := Option.some.inj hnext
      exact ⟨.learn s role _, Finishes.of_learn fun e he => .inl he⟩

/-- A consumer that sees the ring drained sees it so from then on: what it learns later is
not more than was published before the close. -/
theorem Ok.drained_next (h : Ok g True t) (hext : Extends s t)
    (hok : Ok g True s) (hdrained : Drained (s.memory .consumer)) :
    Drained (t.memory .consumer) := by
  have hclosed := hok.region.causal.closed .consumer
  have hsame : t.region.visible (s.region.view .consumer) = s.memory .consumer :=
    hext.visible _ hclosed
  have hlater := h.region.causal.closed .consumer
  have hle := hext.view .consumer
  obtain ⟨hstate, hempty⟩ := hdrained
  rw [← hsame] at hstate hempty
  have hfinal : stateOf (t.memory .consumer) = stateClosed := by
    obtain hkept | hnow := h.region.state_mono hlater (hle _)
    · exact hkept.trans hstate
    · exact hnow
  refine ⟨hfinal, Nat.le_antisymm (h.ring .consumer).read_le ?_⟩
  calc writePos (t.memory .consumer)
    _ = t.published.length := h.final trivial _ hlater hfinal
    _ = readPos (t.region.visible (s.region.view .consumer)) := by
        rw [hempty]
        exact (h.final trivial _ (hext.closed _ hclosed) hstate).symm
    _ ≤ readPos (t.memory .consumer) := h.region.readPos_mono hlater (hle _)

/-- Once an acquisition was answered `Closed`, the consumer sees the ring drained. -/
theorem drained_of_sawClosed (hinit : Initialized g handle m)
    (hrun : Reaches WeakSystem.next quietClosing (initial m handle) s) :
    Ok g True s ∧ ∀ e ∈ (s.client .consumer).completed, e.SawClosed →
      Drained (s.memory .consumer) := by
  induction hrun with
  | refl => exact ⟨ok_initial hinit True, fun e he => by cases he⟩
  | tail _ hstep ih =>
      obtain ⟨hok, hdrained⟩ := ih
      obtain ⟨a, ha, hnext⟩ := hstep
      have hok' := hok.next (fun _ => ha) hnext
      obtain ⟨hext, hfinishes⟩ := hok.next_finishes hnext
      refine ⟨hok', fun e he hclosed => ?_⟩
      obtain hold | hfinish := hfinishes e he
      · exact hok'.drained_next hext hok (hdrained e hold hclosed)
      · rw [← hfinish]
        exact ((hok'.client .consumer).log e he).sawClosed hclosed

/-- If the creator closes after all publications that it may not have heard of, and no
publication begins before the producer knows of a close in progress, then a consumer that was
answered `Closed` has acquired and given back every event that was published: it does not
matter which of the stores it had seen when. -/
theorem closed_final (hinit : Initialized g handle m)
    (hrun : Reaches WeakSystem.next quietClosing (initial m handle) s) {e : Completed}
    (he : e ∈ (s.client .consumer).completed) (hclosed : e.reply = .acquire (.error .closed)) :
    (s.client .consumer).acquiredEvents = (s.client .producer).publishedEvents ∧
    (s.client .consumer).releases = (s.client .producer).publishedEvents.length ∧
    (s.client .consumer).heldView = none := by
  obtain ⟨hok, hall⟩ := drained_of_sawClosed hinit hrun
  obtain ⟨hstate, hempty⟩ := hall e he hclosed
  have hpublished : s.published = (s.client .producer).publishedEvents := hok.producerLog
  have hwrite : writePos (s.memory .consumer) = s.published.length :=
    hok.final trivial _ (hok.region.causal.closed _) hstate
  have hreleases : (s.client .consumer).releases = readPos (s.memory .consumer) :=
    hok.consumerLog.releases
  have hevents : s.events .consumer = s.published := by
    change s.published.take (writePos (s.memory .consumer)) = s.published
    rw [hwrite, List.take_length]
  have hfree : (s.client .consumer).heldView = none := by
    cases hview : (s.client .consumer).heldView with
    | none => rfl
    | some held =>
        obtain ⟨-, -, hlt⟩ := hok.held hview
        exact absurd hempty (Nat.ne_of_lt hlt)
  refine ⟨?_, ?_, hfree⟩
  · rw [hok.consumerLog.taken trivial, hevents, ← hpublished]
    refine List.take_of_length_le ?_
    have hstart : (Setting.fresh g True).start = 0 := rfl
    rw [hstart, Nat.sub_zero, ← hwrite, ← hempty]
    exact Nat.le_add_right _ _
  · rw [← hpublished, ← hwrite, ← hempty]
    exact hreleases

instance (s : WeakSystem) (a : WeakAction) : Decidable (s.quietClosing a) :=
  match a with
  | .begin .creator _ => inferInstanceAs (Decidable (¬ _ = true ∧ _ = _))
  | .begin .producer (.tryPublish _) => inferInstanceAs (Decidable (_ = none ∧ _ = _))
  | .begin .producer .tryAcquire => isTrue trivial
  | .begin .producer .release => isTrue trivial
  | .begin .producer .attach => isTrue trivial
  | .begin .producer .closePublication => isTrue trivial
  | .begin .consumer _ => isTrue trivial
  | .step _ _ => isTrue trivial
  | .read _ => isTrue trivial
  | .synchronize _ _ => isTrue trivial

/-- One publication and its acquisition, then the close. The last acquisition reads from the
close only, and so learns of everything the creator knew. -/
def sampleClosing : List WeakAction :=
  samplePublication ++ sampleAcquisition ++
    [.begin .consumer .release, .step .consumer none, .synchronize .creator .producer,
      .begin .creator .closePublication, .step .creator none, .begin .consumer .tryAcquire,
      .step .consumer none, .step .consumer (some (.creator, 0)), .step .consumer none]

theorem closed_final_sample :
    ∃ s, runActions WeakSystem.next quietClosing (initial sampleMemory sampleHandle)
        sampleClosing = some s ∧ (s.client .producer).publishedEvents = [sampleEvent] ∧
      (s.client .consumer).acquiredEvents = (s.client .producer).publishedEvents := by
  have hrun : (runActions WeakSystem.next quietClosing (initial sampleMemory sampleHandle)
      sampleClosing).map (fun s => ((s.client .producer).publishedEvents,
        (s.client .consumer).completed.head?.map fun e => e.reply.isClosed)) =
      some ([sampleEvent], some true) := by
    decide +kernel
  obtain ⟨s, hs, hlog⟩ := Option.map_eq_some_iff.mp hrun
  obtain ⟨hpublished, hhead⟩ := Prod.mk.inj hlog
  obtain ⟨e, he, hclosed⟩ := Option.map_eq_some_iff.mp hhead
  obtain ⟨older, holder⟩ := List.head?_eq_some_iff.mp he
  have hmem : e ∈ (s.client .consumer).completed := by
    rw [holder]
    exact List.mem_cons_self
  exact ⟨s, hs, hpublished, (closed_final initialized_sample (reaches_of_runActions hs) hmem
    (Reply.eq_of_isClosed hclosed)).1⟩

end WeakSystem

end EventEngine.Ring
