import EventEngine.Concurrency.Transition
import EventEngine.Ring.ClientLog
import EventEngine.Ring.Initialize
import EventEngine.Ring.Views

/-!
# The ring with the memory orders of its source

The same clients and the same calls as in the sequentially consistent system, but every side
has its own view of the shared memory. A load of the state or of the other side's cursor may
return an old value; when it returns a later one, it acquires what was released with it. Two
sides may also synchronize by other means, such as a thread that ends or a lock.
-/

namespace EventEngine.Ring

open Concurrency Memory

/-- The system; `published` are the events whose cursor store has been performed. -/
structure WeakSystem where
  region : SharedRegion Role
  client : Role → Client
  published : List Event

/-- `step` performs the next access of a call. It may name an access of another side, which
the load then reads from. `read` is a load of a payload byte through the view in hand. -/
inductive WeakAction where
  | begin (role : Role) (call : Call)
  | step (role : Role) (source : Option (Role × Nat))
  | read (offset : Nat)
  | synchronize (role other : Role)
  deriving DecidableEq, Repr

namespace WeakSystem

/-- All sides use the handle that `initialize` returned, after it happened. -/
def initial (m : Span) (handle : SpscRing) : WeakSystem :=
  ⟨.start m ringOwner, fun _ => ⟨handle, none, []⟩, []⟩

/-- What a side sees. -/
def memory (s : WeakSystem) (role : Role) : Span := s.region.memory role

/-- A side learns what is in `v`; its call goes on in the memory it then sees. -/
def learn (s : WeakSystem) (role : Role) (v : View Role) : WeakSystem :=
  { s with
    region := s.region.learn role v
    client := Function.update s.client role
      ((s.client role).observe ((s.region.learn role v).memory role)) }

/-- A side performs its next access in the memory it sees. -/
def perform (s : WeakSystem) (role : Role) : Option WeakSystem :=
  match (s.client role).pending, (s.client role).step (s.memory role) with
  | some op, some (k, _) =>
      some
        { region := s.region.record role op (memoryOrder role op)
          client := Function.update s.client role k
          published := s.published ++ (s.client role).publishing.toList }
  | _, _ => none

/-- One action, if it is possible. -/
def next (s : WeakSystem) : WeakAction → Option WeakSystem
  | .begin role call =>
      if role.permits (s.client role).handle call = true then
        ((s.client role).begin call (s.memory role)).map fun k =>
          { s with client := Function.update s.client role k }
      else none
  | .step role none => s.perform role
  | .step role (some (other, i)) =>
      match (s.client role).pending with
      | none => none
      | some op =>
          match s.region.synchronizes role op (memoryOrder role op) other i with
          | none => none
          | some v => (s.learn role v).perform role
  | .read offset =>
      match (s.client .consumer).running, (s.client .consumer).heldView with
      | none, some (view, _) =>
          if view.payload.offset ≤ offset ∧
            offset < view.payload.offset + view.payload.length then
            some { s with region := s.region.record .consumer (.load offset 1)
                            (memoryOrder .consumer (.load offset 1)) }
          else none
      | _, _ => none
  | .synchronize role other => some (s.learn role (s.region.view other))

/-- The producer is inside a `try_publish`. -/
def Publishing (s : WeakSystem) : Prop :=
  ((s.client .producer).running.bind fun r => r.call.event).isSome = true

/-- The contract of `close_publication`: it happens after everything the producer did, and no
publication begins before it has ended and the producer knows of it. -/
def quietClosing (s : WeakSystem) : WeakAction → Prop
  | .begin .creator _ => ¬ s.Publishing ∧
      s.region.view .creator .producer = (s.region.log .producer).length
  | .begin .producer (.tryPublish _) => (s.client .creator).running = none ∧
      s.region.view .producer .creator = (s.region.log .creator).length
  | _ => True

end WeakSystem

section Accesses

variable {g : Geometry} {q : Prop} {c : Setting} {role : Role} {k k' : Client} {r r' : Running}
variable {m m' : Span} {hist now : List Event} {op : Access} {call : Call}

@[simp] theorem Client.observe_pending (k : Client) (m : Span) :
    (k.observe m).pending = k.pending := by
  unfold Client.pending Client.observe
  cases k.running with
  | none => rfl
  | some r =>
      obtain ⟨call, entry, start, process, instants, stored⟩ := r
      cases process with
      | done reply l => rfl
      | step l op next => rfl

@[simp] theorem Client.observe_publishing (k : Client) (m : Span) :
    (k.observe m).publishing = k.publishing := by
  unfold Client.publishing
  rw [Client.observe_pending]
  unfold Client.observe
  cases k.running with
  | none => rfl
  | some r =>
      cases k.pending with
      | none => rfl
      | some op =>
          cases op with
          | load offset length => rfl
          | store offset bytes => rfl

/-- An access is pending exactly if the client can take a step. -/
theorem Client.step_isSome_of_pending (h : k.pending = some op) (m : Span) :
    ∃ k' m', k.step m = some (k', m') := by
  unfold Client.pending at h
  split at h
  case h_1 call entry start l op' next instants stored hr =>
    unfold Client.step
    rw [hr]
    exact ⟨_, _, rfl⟩
  case h_2 => cases h

/-- Only a producer publishes. -/
theorem Client.publishing_eq_none (hr : k.running = some r)
    (hperm : role.permits r.entry r.call = true) (hrole : role ≠ .producer) :
    k.publishing = none := by
  have hevent : r.call.event = none := by
    generalize r.call = call at hperm
    cases call with
    | tryPublish event =>
        cases role with
        | producer => exact absurd rfl hrole
        | consumer => cases hperm
        | creator => cases hperm
    | tryAcquire => rfl
    | release => rfl
    | attach => rfl
    | closePublication => rfl
  unfold Client.publishing
  rw [hr]
  split
  · split
    · obtain rfl := Option.some.inj (by assumption : some r = some _)
      exact hevent
    · rfl
  · rfl

/-- The history grows by what the access publishes. -/
theorem Advanced.now_eq (h : Advanced c k m hist r r' op k' m' now)
    (hperm : role.permits r.entry r.call = true) : now = hist ++ k.publishing.toList := by
  cases role with
  | producer => exact (h.consumerRely hperm).2.1
  | consumer =>
      rw [Client.publishing_eq_none h.running hperm (by simp), (h.consumerGuar hperm).history]
      exact (List.append_nil hist).symm
  | creator =>
      rw [Client.publishing_eq_none h.running hperm (by simp), (h.creatorGuar hperm).history]
      exact (List.append_nil hist).symm

/-- In a quiet ring the producer publishes only what it has found open. -/
theorem Advanced.ready (h : Advanced c k m hist r r' op k' m' now)
    (hperm : Role.producer.permits r.entry r.call = true) (hquiet : c.quiet)
    (hpub : k.publishing.toList ≠ []) :
    (∃ event, r.call = .tryPublish event) ∧ stateOf m = stateReady := by
  have hnow := h.now_eq hperm
  have hguar := h.guar
  obtain ⟨event, hcall⟩ : ∃ event, r.call = .tryPublish event := by
    refine Call.event_isSome (Option.isSome_iff_ne_none.mpr fun hnone => hpub ?_)
    unfold Client.publishing
    rw [h.running, h.pending]
    cases op with
    | load offset length => rfl
    | store offset bytes =>
        simp only [hnone, ite_self]
        rfl
  refine ⟨⟨event, hcall⟩, ?_⟩
  rw [hcall] at hguar
  have hproducer : ProducerGuar c (some event) m hist m' now := hguar.1
  obtain ⟨-, hsame⟩ | ⟨-, -, hready⟩ := hproducer.history
  · rw [hsame] at hnow
    exact absurd (List.self_eq_append_right.mp hnow) hpub
  · exact hready hquiet

/-- What is known of the accesses of the call in progress. -/
def AccessesOk (g : Geometry) (role : Role) (k : Client) (m : Span) : Prop :=
  ∀ r, k.running = some r → ∃ cursors : Cursors,
    (role = .consumer → cursors.read = readPos m) ∧ cursors.write ≤ writePos m ∧
      r.process.Meets cursorAnswers (AccessControl g r.call) (fun _ _ _ => True) cursors

theorem AccessesOk.observe (h : AccessesOk g role k m)
    (hread : role = .consumer → readPos m' = readPos m) (hwrite : writePos m ≤ writePos m') :
    AccessesOk g role (k.observe m') m' := by
  intro r' hr'
  obtain ⟨r, hr, rfl⟩ := Option.map_eq_some_iff.mp hr'
  obtain ⟨cursors, hcursors, hbound, hmeets⟩ := h r hr
  exact ⟨cursors, fun hrole => (hcursors hrole).trans (hread hrole).symm, hbound.trans hwrite,
    hmeets⟩

theorem AccessesOk.settle {cursors : Cursors}
    (hread : role = .consumer → cursors.read = readPos m) (hwrite : cursors.write ≤ writePos m)
    (hmeets : r.process.Meets cursorAnswers (AccessControl g r.call) (fun _ _ _ => True)
      cursors) : AccessesOk g role (k.settle r m) m := by
  intro r' hr'
  unfold Client.settle at hr'
  split at hr'
  · cases hr'
  · obtain rfl : r = r' := Option.some.inj hr'
    exact ⟨cursors, hread, hwrite, hmeets⟩

theorem AccessesOk.begin (h : ClientOk (.fresh g q) role k m hist)
    (hinv : RingInv (.fresh g q) m hist) (hperm : role.permits k.handle call = true)
    (hbegin : k.begin call m = some k') : AccessesOk g role k' m := by
  unfold Client.begin at hbegin
  split at hbegin
  · cases hbegin
  · obtain rfl := Option.some.inj hbegin
    have hread : role = .consumer → (⟨readPos m, writePos m⟩ : Cursors).read = readPos m :=
      fun _ => rfl
    refine AccessesOk.settle hread (Nat.le_refl _) ?_
    have hhandle := h.handle hinv
    refine Call.method_accesses hhandle.geometry fun hcall => ?_
    subst hcall
    cases role with
    | producer => cases hperm
    | consumer => exact hhandle.cached
    | creator => cases hperm

/-- The memory answers a load as the cursors in it allow. -/
theorem cursorAnswers_memory (op : Access) {cursors : Cursors}
    (hread : role = .consumer → cursors.read = readPos m) (hwrite : cursors.write ≤ writePos m) :
    ∃ cursors', cursorAnswers op (@spanExec Unit op () m).1 cursors cursors' ∧
      (role = .consumer → cursors'.read = readPos (@spanExec Unit op () m).2) ∧
      cursors'.write ≤ writePos (@spanExec Unit op () m).2 := by
  cases op with
  | store offset bytes => exact ⟨⟨_, _⟩, trivial, fun _ => rfl, Nat.le_refl _⟩
  | load offset length =>
      simp only [cursorAnswers, spanExec]
      split
      case isTrue h =>
        obtain ⟨rfl, rfl⟩ := h
        exact ⟨⟨readPos m, cursors.write⟩, ⟨rfl, rfl⟩, fun _ => rfl, hwrite⟩
      case isFalse =>
        split
        case isTrue h =>
          obtain ⟨rfl, rfl⟩ := h
          exact ⟨⟨cursors.read, writePos m⟩, ⟨rfl, Nat.le_refl _⟩, hread, Nat.le_refl _⟩
        case isFalse => exact ⟨cursors, rfl, hread, hwrite⟩

theorem AccessesOk.step (h : AccessesOk g role k m) (hstep : k.step m = some (k', m')) :
    AccessesOk g role k' m' := by
  unfold Client.step at hstep
  split at hstep
  case h_2 => cases hstep
  case h_1 call entry start l op next instants stored hr =>
    obtain ⟨rfl, rfl⟩ := Prod.mk.inj (Option.some.inj hstep)
    obtain ⟨cursors, hread, hwrite, hmeets⟩ := h _ hr
    obtain ⟨cursors', hanswer, hread', hwrite'⟩ :=
      cursorAnswers_memory op hread hwrite
    exact AccessesOk.settle hread' hwrite' (hmeets.2 _ _ hanswer)

/-- What the next access is. -/
theorem AccessesOk.control (h : AccessesOk g role k m) (hr : k.running = some r)
    (hpending : k.pending = some op) : ∃ l cursors,
      (role = .consumer → cursors.read = readPos m) ∧ cursors.write ≤ writePos m ∧
        AccessControl g r.call l op cursors := by
  obtain ⟨cursors, hread, hwrite, hmeets⟩ := h r hr
  unfold Client.pending at hpending
  rw [hr] at hpending
  split at hpending
  case h_1 call entry start l op' next instants stored heq =>
    obtain rfl := Option.some.inj heq
    obtain rfl := Option.some.inj hpending
    exact ⟨l, cursors, hread, hwrite, hmeets.1⟩
  case h_2 => cases hpending

/-- The consumer's store advances its cursor by one. -/
theorem ConsumerControl.storesAs {l : SpscRing} {y : World Span History}
    (h : ConsumerControl (.fresh g q) l op y) (hstore : op.isStore = true) :
    StoresAs g .consumer y.shared op := by
  obtain ⟨hat, hcontrol⟩ := h
  obtain ⟨hheld, rfl⟩ := hcontrol hstore
  obtain ⟨hpos, hlt⟩ := hat.handle.held hheld
  exact ⟨⟨rfl, length_leBytes _ _⟩, hlt, (release_store hat.inv hpos hlt).2.2.1⟩

/-- Every access of a client is one that its side may perform. -/
theorem Advanced.performs (h : Advanced (.fresh g q) k m hist r r' op k' m' now)
    (hinv : RingInv (.fresh g q) m hist) (hperm : role.permits r.entry r.call = true)
    (haccesses : AccessesOk g role k m) (v : View Role) :
    Performs g role m ⟨op, memoryOrder role op, v⟩ := by
  obtain ⟨l, cursors, hread, hwrite, hload, hclose⟩ := haccesses.control h.running h.pending
  have heffect : m' = op.effect m := h.memory.trans (Access.effect_eq_spanExec op m).symm
  refine ⟨rfl, fun hop => ?_, fun hop => ?_⟩
  · obtain hs | hp | hc | himm | ⟨hcall, hlo, hhi, hlt⟩ := hload hop
    · exact .inl hs
    · exact .inr (.inl hp)
    · exact .inr (.inr (.inl hc))
    · exact .inr (.inr (.inr (.inl himm)))
    · have hrole : role = .consumer := by
        rw [hcall] at hperm
        cases role with
        | producer => cases hperm
        | consumer => rfl
        | creator => cases hperm
      have hstride := g.metadata_add_capacity_le_stride
      rw [hread hrole] at hlo hhi hlt
      exact .inr (.inr (.inr (.inr
        ⟨hrole, hlo, hhi.trans (by omega), Nat.lt_of_lt_of_le hlt hwrite⟩)))
  · have hcontrol := h.control
    cases hcall : r.call with
    | tryPublish event =>
        rw [hcall] at hcontrol hperm
        cases role with
        | consumer => cases hperm
        | creator => cases hperm
        | producer =>
            obtain ⟨-, hstore⟩ := hcontrol
            obtain ⟨hfree, hcursor | hslot⟩ := hstore hop
            · refine ⟨hfree, .inl ⟨by rw [hcursor]; exact ⟨rfl, length_leBytes _ _⟩, ?_⟩⟩
              have hnow := h.publishes hcall
              have hpub : k.publishing = some event := by
                rw [Client.publishing, h.running, h.pending, hcursor]
                simp only [hcall, Call.event, if_pos]
              have hlength := congrArg List.length hnow
              have hbefore := hinv.write_eq
              have hafter := h.inv.write_eq
              rw [hpub, Option.toList_some, List.length_append, List.length_singleton] at hlength
              rw [← heffect]
              omega
            · exact ⟨hfree, .inr hslot⟩
    | tryAcquire =>
        rw [hcall] at hcontrol hperm
        cases role with
        | producer => cases hperm
        | creator => cases hperm
        | consumer =>
            have hat : ConsumerControl (.fresh g q) k.handle op ⟨m, ⟨hist, r.seen⟩⟩ := hcontrol
            exact hat.storesAs hop
    | release =>
        rw [hcall] at hcontrol hperm
        cases role with
        | producer => cases hperm
        | creator => cases hperm
        | consumer =>
            have hat : ConsumerControl (.fresh g q) k.handle op ⟨m, ⟨hist, r.seen⟩⟩ := hcontrol.2
            exact hat.storesAs hop
    | attach =>
        rw [hcall] at hcontrol
        have hnot := hcontrol.2
        rw [hop] at hnot
        cases hnot
    | closePublication =>
        obtain rfl := hclose hop hcall
        cases role with
        | producer => rw [hcall] at hperm; cases hperm
        | consumer => rw [hcall] at hperm; cases hperm
        | creator =>
            refine ⟨⟨rfl, length_leBytes _ _⟩, ?_⟩
            rw [← heffect]
            exact (h.creatorGuar hperm).state

end Accesses

end EventEngine.Ring
