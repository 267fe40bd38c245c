import EventEngine.Ring.Acquire
import EventEngine.Ring.Attach
import EventEngine.Ring.Client
import EventEngine.Ring.Footprint
import EventEngine.Ring.Publish

/-!
# Specifications of the calls on a handle

The specifications of the methods, put into one form for all calls: the protocol a call
runs under, what holds at each of its accesses, and what holds when it returns.
-/

namespace EventEngine.Ring

open Concurrency Memory

variable {c : Setting} {hist hist' : List Event} {entry l : SpscRing} {start m m' : Span}
variable {call : Call} {reply : Reply} {x y : World Span History}

namespace Call

/-- The protocol a call runs under. -/
def protocol (c : Setting) : Call → Protocol Span History
  | .tryPublish event => producerProtocol c (some event)
  | .tryAcquire | .release => consumerProtocol c
  | .attach => observerProtocol c
  | .closePublication => creatorProtocol c

/-- What holds whenever an access of the call is pending. -/
def control (c : Setting) (hist : List Event) (entry : SpscRing) :
    Call → SpscRing → Access → World Span History → Prop
  | .tryPublish _ => ProducerControl c hist
  | .tryAcquire => ConsumerControl c
  | .release => fun l op y => l = entry ∧ ConsumerControl c l op y
  | .attach => OnlyLoads entry
  | .closePublication => fun l _ _ => l = entry

/-- What holds when the call returns. -/
def post (c : Setting) (hist : List Event) (entry : SpscRing) (start : Span) :
    Call → Reply → SpscRing → World Span History → Prop
  | .tryPublish event, reply, l, y =>
      ∃ r, reply = .publish r ∧ Published c hist entry event r l y
  | .tryAcquire, reply, l, y => ∃ r, reply = .acquire r ∧
      if entry.acquired = true then
        r = .error .alreadyAcquired ∧ l = entry ∧ ConsumerHandle c.geometry l y.shared
      else Acquired c start r l y
  | .release, reply, l, y => ∃ r, reply = .release r ∧ Released c entry r l y
  | .attach, reply, l, _ => reply = .attach (.ok ()) ∧ l = c.geometry.handle false
  | .closePublication, reply, l, y => reply = .close entry.initializer ∧ l = entry ∧
      (entry.initializer = true → stateOf y.shared = stateClosed)

/-- The results for which a call may store. -/
def Stores : Call → Reply → Prop
  | .tryPublish _, reply => reply = .publish .ok
  | .tryAcquire, _ => False
  | .release, reply => reply = .release true
  | .attach, _ => True
  | .closePublication, reply => reply = .close true

theorem protocol_inv : ((call.protocol c).inv x) =
    (RingInv c x.shared x.ghost.events ∧ x.shared ∈ x.ghost.seen) := by
  cases call with
  | tryPublish event => rfl
  | tryAcquire => rfl
  | release => rfl
  | attach => rfl
  | closePublication => rfl

/-- Only the set of memories seen may grow without anyone moving. -/
theorem protocol_rely_grow (hshared : y.shared = x.shared)
    (hevents : y.ghost.events = x.ghost.events) (hseen : x.ghost.seen ⊆ y.ghost.seen) :
    (call.protocol c).rely x y := by
  cases call with
  | tryPublish event => exact ⟨by rw [hshared, hevents]; exact ProducerRely.refl .., hseen⟩
  | tryAcquire => exact ⟨by rw [hshared, hevents]; exact ConsumerRely.refl .., hseen⟩
  | release => exact ⟨by rw [hshared, hevents]; exact ConsumerRely.refl .., hseen⟩
  | attach => exact hseen
  | closePublication => exact hseen

/-- What the proof has seen after an access is bounded, and may be as large as that. -/
theorem guar_seen (h : (call.protocol c).guar x y) :
    y.ghost.seen ⊆ insert y.shared x.ghost.seen ∧
      (call.protocol c).guar x ⟨y.shared, ⟨y.ghost.events, insert y.shared x.ghost.seen⟩⟩ := by
  cases call with
  | tryPublish event => exact ⟨h.2, h.1, le_refl _⟩
  | tryAcquire => exact ⟨h.2, h.1, le_refl _⟩
  | release => exact ⟨h.2, h.1, le_refl _⟩
  | attach => exact ⟨h.2, h.1, le_refl _⟩
  | closePublication => exact ⟨h.2, h.1, le_refl _⟩

theorem post_grow (hshared : y.shared = x.shared) (hevents : y.ghost.events = x.ghost.events)
    (hseen : x.ghost.seen ⊆ y.ghost.seen) (h : call.post c hist entry start reply l x) :
    call.post c hist entry start reply l y := by
  obtain ⟨s, g⟩ := x
  obtain ⟨s', g'⟩ := y
  obtain ⟨ev, seen⟩ := g
  obtain ⟨ev', seen'⟩ := g'
  simp only at hshared hevents hseen
  subst hshared hevents
  have hat : ∀ {k}, ConsumerAt c k ⟨s', ⟨ev', seen⟩⟩ → ConsumerAt c k ⟨s', ⟨ev', seen'⟩⟩ :=
    fun h => ⟨h.inv, hseen h.seen, h.handle⟩
  cases call with
  | tryPublish event =>
      obtain ⟨r, hr, hpub⟩ := h
      exact ⟨r, hr,
        { hpub with
          instant := fun q => by
            obtain ⟨m, hm, hok⟩ := hpub.instant q
            exact ⟨m, hseen hm, hok⟩ }⟩
  | tryAcquire =>
      obtain ⟨r, hr, hacq⟩ := h
      refine ⟨r, hr, ?_⟩
      split at hacq
      case isTrue hheld =>
        rw [if_pos hheld]
        exact hacq
      case isFalse hfree =>
        rw [if_neg hfree]
        exact
          { hacq with
            toConsumerAt := hat hacq.toConsumerAt
            instant := fun t => by
              obtain ⟨m, hm, hok⟩ := hacq.instant t
              exact ⟨m, hseen hm, hok⟩ }
  | release =>
      obtain ⟨r, hr, hrel⟩ := h
      exact ⟨r, hr, { hrel with toConsumerAt := hat hrel.toConsumerAt }⟩
  | attach => exact h
  | closePublication => exact h

end Call

/-- The parts the holders of a handle can play on one ring. -/
inductive Role where
  | producer
  | consumer
  | creator
  deriving DecidableEq, Repr

namespace Role

/-- The calls of a role. A handle that holds a slot is not replaced. -/
def permits : Role → SpscRing → Call → Bool
  | .producer, _, .tryPublish _ => true
  | .producer, _, .attach => true
  | .consumer, _, .tryAcquire => true
  | .consumer, _, .release => true
  | .consumer, handle, .attach => !handle.acquired
  | .creator, _, .closePublication => true
  | _, _, _ => false

/-- What is known of the handle of a role at any time. -/
def Handle (c : Setting) : Role → SpscRing → Span → Prop
  | .producer, l, m => ProducerHandle c.geometry l m
  | .consumer, l, m => ConsumerHandle c.geometry l m
  | .creator, l, _ => HandleGeometry c.geometry l

variable {role : Role}

theorem handle_attached (c : Setting) (role : Role) (m : Span) :
    role.Handle c (c.geometry.handle false) m := by
  cases role with
  | producer => exact c.geometry.producerHandle false m
  | consumer => exact c.geometry.consumerHandle false m
  | creator => exact c.geometry.handleGeometry false

/-- The handle in the middle of a call. -/
theorem handle_of_control {op : Access} (hperm : role.permits entry call = true)
    (hentry : role.Handle c entry y.shared) (h : call.control c hist entry l op y) :
    role.Handle c l y.shared := by
  cases call with
  | tryPublish event =>
      cases role with
      | producer => exact h.1.handle
      | consumer => exact Bool.noConfusion hperm
      | creator => exact Bool.noConfusion hperm
  | tryAcquire =>
      cases role with
      | producer => exact Bool.noConfusion hperm
      | consumer => exact h.1.handle
      | creator => exact Bool.noConfusion hperm
  | release =>
      cases role with
      | producer => exact Bool.noConfusion hperm
      | consumer => exact h.2.1.handle
      | creator => exact Bool.noConfusion hperm
  | attach => exact h.1 ▸ hentry
  | closePublication => exact h ▸ hentry

theorem Handle.geometry (h : role.Handle c l m) : HandleGeometry c.geometry l := by
  cases role with
  | producer => exact h.toHandleGeometry
  | consumer => exact h.toHandleGeometry
  | creator => exact h

/-- The handle after a call. -/
theorem handle_of_post (hperm : role.permits entry call = true)
    (hentry : HandleGeometry c.geometry entry) (h : call.post c hist entry start reply l y) :
    role.Handle c l y.shared := by
  cases call with
  | tryPublish event =>
      obtain ⟨r, -, hpub⟩ := h
      cases role with
      | producer => exact hpub.handle
      | consumer => exact Bool.noConfusion hperm
      | creator => exact Bool.noConfusion hperm
  | tryAcquire =>
      obtain ⟨r, -, hacq⟩ := h
      cases role with
      | producer => exact Bool.noConfusion hperm
      | consumer =>
          split at hacq
          · exact hacq.2.2
          · exact hacq.handle
      | creator => exact Bool.noConfusion hperm
  | release =>
      obtain ⟨r, -, hrel⟩ := h
      cases role with
      | producer => exact Bool.noConfusion hperm
      | consumer => exact hrel.handle
      | creator => exact Bool.noConfusion hperm
  | attach =>
      rw [h.2]
      exact handle_attached c role y.shared
  | closePublication =>
      cases role with
      | producer => exact Bool.noConfusion hperm
      | consumer => exact Bool.noConfusion hperm
      | creator => exact h.2.1 ▸ hentry

/-- An access of the call leaves the handle with which it began valid, as long as the call
goes on. -/
theorem handle_kept {g g' : History} (hperm : role.permits entry call = true)
    (hguar : (call.protocol c).guar ⟨m, g⟩ ⟨m', g'⟩)
    (hload : call = .tryAcquire ∨ call = .release → m' = m) (h : role.Handle c entry m) :
    role.Handle c entry m' := by
  cases call with
  | tryPublish event =>
      cases role with
      | producer =>
          exact ProducerHandle.mono h (Nat.le_of_eq (congrArg UInt64.toNat hguar.1.read).symm)
      | consumer => exact Bool.noConfusion hperm
      | creator => exact Bool.noConfusion hperm
  | tryAcquire => rw [hload (.inl rfl)]; exact h
  | release => rw [hload (.inr rfl)]; exact h
  | attach =>
      obtain rfl : m' = m := hguar.1.1
      exact h
  | closePublication =>
      cases role with
      | producer => exact Bool.noConfusion hperm
      | consumer => exact Bool.noConfusion hperm
      | creator => exact h

end Role

/-- Every permitted call begins safely. -/
theorem Call.method_safe {role : Role} (hperm : role.permits l call = true)
    (hinv : RingInv c m hist) (hhandle : role.Handle c l m) :
    (call.method m.toRegion l).Safe (@spanExec Unit) (call.protocol c)
      (call.control c hist l) (call.post c hist l m) ⟨m, ⟨hist, {m}⟩⟩ := by
  cases call with
  | tryPublish event =>
      cases role with
      | producer =>
          have hat : ProducerAt c hist l ⟨m, ⟨hist, {m}⟩⟩ := ⟨hinv, rfl, rfl, hhandle⟩
          exact (tryPublish_safe hat).bind fun r l' y hpub => ⟨r, rfl, hpub⟩
      | consumer => exact Bool.noConfusion hperm
      | creator => exact Bool.noConfusion hperm
  | tryAcquire =>
      cases role with
      | producer => exact Bool.noConfusion hperm
      | consumer =>
          have hat : ConsumerAt c l ⟨m, ⟨hist, {m}⟩⟩ := ⟨hinv, rfl, hhandle⟩
          by_cases hheld : l.acquired = true
          · have hsafe : (SpscRing.tryAcquire l).Safe (@spanExec Unit) (consumerProtocol c)
                (ConsumerControl c) (fun r l' y => r = .error .alreadyAcquired ∧ l' = l ∧
                  ConsumerHandle c.geometry l' y.shared) ⟨m, ⟨hist, {m}⟩⟩ := by
              rw [SpscRing.tryAcquire, Method.bind_apply, Method.self_apply, Process.bind_done,
                hat.handle.header]
              simp only [hheld]
              exact ⟨rfl, rfl, hat.handle⟩
            refine hsafe.bind fun r l' y h => ⟨r, rfl, ?_⟩
            rw [if_pos hheld]
            exact h
          · refine (tryAcquire_safe hat (Bool.eq_false_iff.mpr hheld)).bind
              fun r l' y hacq => ⟨r, rfl, ?_⟩
            rw [if_neg hheld]
            exact hacq
      | creator => exact Bool.noConfusion hperm
  | release =>
      cases role with
      | producer => exact Bool.noConfusion hperm
      | consumer =>
          have hat : ConsumerAt c l ⟨m, ⟨hist, {m}⟩⟩ := ⟨hinv, rfl, hhandle⟩
          exact (release_safe hat).bind fun r l' y hrel => ⟨r, rfl, hrel⟩
      | creator => exact Bool.noConfusion hperm
  | attach =>
      refine (attach_safe hinv.formatted.memory hinv.formatted.size).bind ?_
      rintro _ _ y ⟨rfl, rfl⟩
      exact ⟨rfl, rfl⟩
  | closePublication =>
      refine (closePublication_safe hhandle.geometry).bind ?_
      rintro r l' y ⟨hr, hl, hclosed⟩
      exact ⟨by rw [← hr], hl, fun hinit => hclosed (hr.trans hinit)⟩

/-- A call stores only for the results that allow it. -/
theorem Call.method_stores (call : Call) (region : Region) (l : SpscRing) :
    (call.method region l).ChangesOnlyFor (S := spanAccess) Access.isStore call.Stores := by
  cases call with
  | tryPublish event =>
      refine Process.ChangesOnlyFor.map ?_
      have h := SpscRing.tryPublish_changesOnlyFor event l
      simpa only [Call.Stores, Reply.publish.injEq] using h
  | tryAcquire => exact Process.ChangesOnlyFor.map (SpscRing.tryAcquire_loadsOnly l)
  | release =>
      refine Process.ChangesOnlyFor.map ?_
      have h := SpscRing.release_changesOnlyFor l
      simpa only [Call.Stores, Reply.release.injEq] using h
  | attach =>
      have hany : ∀ p : Process spanAccess SpscRing Reply, p.Results fun _ => True := by
        intro p
        induction p with
        | done a l => trivial
        | step l op next ih => exact ih
      exact (hany _).changesOnlyFor
  | closePublication =>
      refine Process.ChangesOnlyFor.map ?_
      have h := SpscRing.closePublication_changesOnlyFor l
      simpa only [Call.Stores, Reply.close.injEq] using h

/-- The store of a consumer's call is its last access. -/
theorem Call.method_last (hconsumer : call = .tryAcquire ∨ call = .release) (region : Region)
    (l : SpscRing) :
    (call.method region l).ChangesLast (S := spanAccess) Access.isStore := by
  obtain rfl | rfl := hconsumer
  · exact Process.ChangesLast.map (SpscRing.tryAcquire_loadsOnly l).changesLast
  · refine Process.ChangesLast.map ?_
    rw [SpscRing.release, Method.bind_apply, Method.self_apply, Process.bind_done]
    split
    · exact fun r => ⟨_, _, rfl⟩
    · trivial

end EventEngine.Ring
