import EventEngine.Ring.Construction
import EventEngine.Ring.Operate
import EventEngine.Ring.Ownership

/-!
# Attaching while the ring is created

`initialize` runs on zero-filled memory, and other sides call `attach` on their mappings of the
same memory at any time. Each store and each load is one step. A side whose handle has been
returned may use it at once, while further attachments are still in progress.
-/

namespace EventEngine.Ring

open Concurrency Memory

/-- `creation` is the rest of `initialize` and `attempts` are the rests of the calls of `attach`,
in the order of their begin. `taken` says whose handle has been returned and is in use in the
ring. `ready` is the memory that `initialize` left when it stored `Ready`. -/
structure Startup where
  ring : System
  creation : Process spanAccess Unit (Except RingError SpscRing)
  attempts : List (Process spanAccess Unit (Except RingError SpscRing))
  taken : Role → Bool
  ready : Option Span

/-- A handle of `initialize`, or of the attempt with the index. -/
inductive Source where
  | creation
  | attempt (i : Nat)
  deriving DecidableEq, Repr

/-- `create` and `load` are the next accesses of `initialize` and of an attempt. `take` lets a
role of the ring use the handle of a source. -/
inductive StartupAction where
  | create
  | attach (memory : Region)
  | load (i : Nat)
  | take (role : Role) (source : Source)
  | operate (a : Action)

/-- The result of a process that has ended. -/
def resultOf {ℓ α : Type} : Process spanAccess ℓ α → Option α
  | .done a _ => some a
  | .step _ _ _ => none

/-- Let a role go on with another handle. -/
def System.setHandle (s : System) (role : Role) (handle : SpscRing) : System :=
  match role with
  | .producer => { s with producer := { s.producer with handle } }
  | .consumer => { s with consumer := { s.consumer with handle } }
  | .creator => { s with creator := { s.creator with handle } }

namespace Startup

/-- Nobody has a handle yet. -/
def initial (m : Span) (config : RingConfig) (instanceId : UInt64) : Startup where
  ring := .start m .movedFrom .movedFrom .movedFrom
  creation := SpscRing.initializeRing m.toRegion config instanceId ()
  attempts := []
  taken _ := false
  ready := none

/-- The handle that a source has returned. -/
def handleOf (s : Startup) : Source → Option SpscRing
  | .creation => (resultOf s.creation).bind Except.toOption
  | .attempt i => (s.attempts[i]?.bind resultOf).bind Except.toOption

/-- One action, if it is possible. A role takes a handle between two calls and when it holds
no slot. -/
def next (s : Startup) : StartupAction → Option Startup
  | .create =>
      match s.creation with
      | .done _ _ => none
      | .step _ op rest =>
          let answer := @spanExec Unit op () s.ring.memory
          some { s with
            ring := { s.ring with memory := answer.2 }
            creation := rest answer.1
            ready := s.ready.or (if stateOf answer.2 = stateReady then some answer.2 else none) }
  | .attach memory => some { s with attempts := s.attempts ++ [SpscRing.attach memory ()] }
  | .load i =>
      match s.attempts[i]? with
      | some (.step _ op rest) =>
          let answer := @spanExec Unit op () s.ring.memory
          some { s with
            ring := { s.ring with memory := answer.2 }
            attempts := s.attempts.set i (rest answer.1) }
      | _ => none
  | .take role source =>
      match s.handleOf source, (s.ring.client role).running with
      | some handle, none =>
          if (s.ring.client role).handle.acquired then none
          else some { s with
            ring := s.ring.setHandle role handle
            taken := Function.update s.taken role true }
      | _, _ => none
  | .operate a =>
      if s.taken a.actor then (s.ring.next a).map fun ring => { s with ring } else none

/-- Every attempt is made with a mapping of the whole segment, wherever it is mapped. -/
def Mapped (g : Geometry) : Startup → StartupAction → Prop
  | _, .attach memory => invalidMemory memory = false ∧ memory.size = g.size
  | _, _ => True

instance (g : Geometry) (s : Startup) (a : StartupAction) : Decidable (Mapped g s a) :=
  match a with
  | .attach _ => inferInstanceAs (Decidable (_ ∧ _))
  | .create => .isTrue trivial
  | .load _ => .isTrue trivial
  | .take _ _ => .isTrue trivial
  | .operate _ => .isTrue trivial

end Startup

section Observing

variable {α : Type} {g : Geometry} {p : Process spanAccess Unit α} {good : α → Prop}

/-- Whatever becomes of a ring with the invariant, the process ends with a good result. -/
def Observes (g : Geometry) (p : Process spanAccess Unit α) (good : α → Prop) : Prop :=
  ∀ (m : Span) (hist : List Event), p.Safe (@spanExec Unit) (observerProtocol ⟨g, 0, True, False⟩)
    (OnlyLoads ()) (fun a _ _ => good a) ⟨m, ⟨hist, Set.univ⟩⟩

theorem Observes.result {a : α} (h : Observes g p good) (hresult : resultOf p = some a) :
    good a := by
  cases p with
  | done a' l =>
      obtain rfl := Option.some.inj hresult
      exact h ⟨⟨0, 0⟩, fun _ => 0⟩ []
  | step l op next => cases hresult

/-- An access of the process is a load, and the rest of the process goes on like it. -/
theorem Observes.step {l : Unit} {op : Access} {next : spanAccess.Res op → _} {m : Span}
    {hist : List Event} (h : Observes g (.step l op next) good)
    (hinv : RingInv ⟨g, 0, True, False⟩ m hist) :
    (@spanExec Unit op () m).2 = m ∧ Observes g (next (@spanExec Unit op () m).1) good := by
  obtain ⟨⟨-, hload⟩, ghost, -, -, hnext⟩ :=
    (h m hist).advance ⟨hinv, Set.mem_univ m⟩ (subset_refl _) ()
  refine ⟨spanExec_load hload m, ?_⟩
  intro m' hist'
  exact hnext.stable (Set.subset_univ _) fun _ _ hgood => hgood

theorem attach_observes {memory : Region} (hmemory : invalidMemory memory = false)
    (hsize : memory.size = g.size) {good : Except RingError SpscRing → Prop}
    (hgood : good (.ok (g.handle false))) : Observes g (SpscRing.attach memory ()) good := by
  intro m hist
  refine (attach_safe (c := ⟨g, 0, True, False⟩) hmemory hsize).mono_post ?_
  rintro result l y ⟨rfl, -⟩
  exact hgood

theorem readyRest_observes : Observes g readyRest (fun result => result = .ok (g.handle true)) := by
  intro m hist
  refine ofHeader_safe.bind ?_
  rintro handle l y ⟨rfl, -⟩
  rfl

theorem loadU32_apply {offset : Nat} (next : UInt32 → Method spanAccess Unit α) :
    (loadU32 offset >>= next) () =
      .step () (.load offset 4) fun bytes => next (UInt32.ofNat (leNat bytes)) () := rfl

/-- The first access of `attach` decides whether the ring is looked at. -/
theorem attach_waits {memory : Region} (hmemory : invalidMemory memory = false) :
    ∃ rest, SpscRing.attach memory () = .step () (.load stateOffset 4) rest ∧
      ∀ m : Span, Unready m → rest (m.read stateOffset 4) = .done (.error .notReady) () := by
  rw [SpscRing.attach, hmemory, if_neg Bool.false_ne_true, loadU32_apply]
  refine ⟨_, rfl, ?_⟩
  intro m hunready
  have hstate : validateState (UInt32.ofNat (leNat (m.read stateOffset 4))) = .error .notReady :=
    hunready.notReady
  simp only [hstate]
  rfl

end Observing

section Handles

variable {c : Setting} {base hist : List Event} {s : System} {role : Role} {k : Client}
variable {m : Span} {handle : SpscRing}

theorem Client.entry_of_idle (hidle : k.running = none) : k.entry = k.handle := by
  rw [Client.entry, hidle]

theorem ClientOk.renew (h : ClientOk c role k m hist) (hidle : k.running = none)
    (hhandle : role.Handle c handle m) : ClientOk c role { k with handle } m hist where
  entry := by
    rw [show Client.entry { k with handle } = handle from Client.entry_of_idle hidle]
    exact hhandle
  idle _ := Client.entry_of_idle hidle
  busy r hr := by
    rw [hidle] at hr
    cases hr
  log := h.log

/-- A role may go on with any fresh handle for the ring, unless it is in a call or holds a
slot. -/
theorem System.Ok.setHandle (h : System.Ok c base hist s)
    (hidle : (s.client role).running = none) (hfree : (s.client role).handle.acquired = false)
    (initializer : Bool) :
    System.Ok c base hist (s.setHandle role (c.geometry.handle initializer)) := by
  cases role with
  | producer =>
      exact
        { h with
          producer := h.producer.renew hidle (c.geometry.producerHandle initializer s.memory) }
  | consumer =>
      have hacquired :
          (s.setHandle .consumer (c.geometry.handle initializer)).consumer.entry.acquired =
            s.consumer.entry.acquired := by
        have hsame : (s.setHandle .consumer (c.geometry.handle initializer)).consumer.running =
            none := hidle
        rw [Client.entry_of_idle hsame, h.consumer.idle hidle]
        exact hfree.symm
      exact
        { h with
          consumer := h.consumer.renew hidle (c.geometry.consumerHandle initializer s.memory)
          consumerLog :=
            { taken := by
                rw [hacquired]
                exact h.consumerLog.taken
              releases := h.consumerLog.releases
              held := by
                rw [hacquired]
                exact h.consumerLog.held } }
  | creator =>
      exact
        { h with creator := h.creator.renew hidle (c.geometry.handleGeometry initializer) }

end Handles

namespace Startup

variable {g : Geometry} {m : Span} {instanceId : UInt64} {s t : Startup}
variable {a : StartupAction}

/-- A client, or a client with a fresh handle if the role has not taken one. -/
def completed (g : Geometry) (taken : Bool) (k : Client) : Client :=
  if taken then k else { k with handle := g.handle true }

/-- The ring as if every role had a handle. -/
def view (g : Geometry) (s : Startup) : System :=
  { s.ring with
    producer := completed g (s.taken .producer) s.ring.producer
    consumer := completed g (s.taken .consumer) s.ring.consumer
    creator := completed g (s.taken .creator) s.ring.creator }

@[simp] theorem completed_true (k : Client) : completed g true k = k := rfl

theorem completed_observe (taken : Bool) (k : Client) (m : Span) :
    (completed g taken k).observe m = completed g taken (k.observe m) := by
  cases taken with
  | true => rfl
  | false => rfl

theorem view_memory (s : Startup) : (s.view g).memory = s.ring.memory := rfl

theorem view_setHandle (s : Startup) (role : Role) (handle : SpscRing) :
    view g { s with
      ring := s.ring.setHandle role handle, taken := Function.update s.taken role true } =
      (s.view g).setHandle role handle := by
  have hrenew : ∀ (taken : Bool) (k : Client),
      { completed g taken k with handle } = { k with handle } := by
    intro taken k
    cases taken with
    | true => rfl
    | false => rfl
  cases role with
  | producer => simp [view, System.setHandle, hrenew]
  | consumer => simp [view, System.setHandle, hrenew]
  | creator => simp [view, System.setHandle, hrenew]

theorem view_client (s : Startup) (role : Role) :
    (s.view g).client role = completed g (s.taken role) (s.ring.client role) := by
  cases role with
  | producer => rfl
  | consumer => rfl
  | creator => rfl

/-- The others do not matter to a role that has its handle. -/
theorem view_next {a : Action} {ring : System} (htaken : s.taken a.actor = true)
    (hnext : s.ring.next a = some ring) :
    (s.view g).next a = some (view g { s with ring }) := by
  have hclient : (s.view g).client a.actor = s.ring.client a.actor := by
    rw [view_client, htaken, completed_true]
  cases a with
  | begin role call =>
      have hrole : (s.view g).client role = s.ring.client role := hclient
      have htaken : s.taken role = true := htaken
      simp only [System.next, hrole, view_memory] at hnext ⊢
      split at hnext
      case isFalse => cases hnext
      case isTrue hperm =>
        rw [if_pos hperm]
        cases hbegin : (s.ring.client role).begin call s.ring.memory with
        | none =>
            rw [hbegin] at hnext
            cases hnext
        | some k =>
            rw [hbegin] at hnext
            cases role
            all_goals
              obtain rfl := Option.some.inj hnext
              simp [view, htaken]
  | step role =>
      have hrole : (s.view g).client role = s.ring.client role := hclient
      have htaken : s.taken role = true := htaken
      simp only [System.next, hrole, view_memory] at hnext ⊢
      cases hstep : (s.ring.client role).step s.ring.memory with
      | none =>
          rw [hstep] at hnext
          cases hnext
      | some moved =>
          obtain ⟨k, m'⟩ := moved
          rw [hstep] at hnext
          cases role
          all_goals
            obtain rfl := Option.some.inj hnext
            simp [view, completed_observe, htaken]

/-- The ring is not `Ready` yet. -/
structure Building (g : Geometry) (s : Startup) : Prop where
  idle : s.ring = .start s.ring.memory .movedFrom .movedFrom .movedFrom
  taken : ∀ role, s.taken role = false
  ready : s.ready = none
  unready : Unready s.ring.memory
  creation : s.creation.Until (@spanExec Unit) Unready
    (fun rest m => rest = readyRest ∧ Fresh g m) s.ring.memory
  attempts : ∀ p ∈ s.attempts,
    (∃ memory, invalidMemory memory = false ∧ memory.size = g.size ∧
      p = SpscRing.attach memory ()) ∨ p = .done (.error .notReady) ()

/-- What an attempt may answer. -/
def Whole (g : Geometry) (result : Except RingError SpscRing) : Prop :=
  result = .error .notReady ∨ result = .ok (g.handle false)

/-- The ring has been made `Ready`. -/
structure Built (g : Geometry) (s : Startup) : Prop where
  ready : ∃ m, s.ready = some m ∧ Fresh g m
  ring : ∃ hist, System.Ok ⟨g, 0, True, False⟩ [] hist (s.view g)
  stored : s.creation.Avoids Access.isStore
  creation : Observes g s.creation (fun result => result = .ok (g.handle true))
  attempts : ∀ p ∈ s.attempts, Observes g p (Whole g)

theorem initial_building (hmemory : invalidMemory m.toRegion = false) (hsize : m.size = g.size)
    (hzero : ∀ a < m.size, m.bytes a = 0) (hid : instanceId ≠ 0) :
    Building g (initial m g.config instanceId) := by
  have hheader : ringHeaderBytes ≤ g.size := by
    rw [g.size_eq.1, ringHeaderBytes]
    omega
  have hunready : Unready m := Unready.of_zero fun a _ ha => hzero a (by
    simp only [reservedBytesOffset, ringHeaderBytes] at *
    omega)
  exact
    { idle := rfl
      taken := fun _ => rfl
      ready := rfl
      unready := hunready
      creation := initializeRing_until hmemory hsize hid hunready
      attempts := fun p hp => by cases hp }

/-- The last store of `initialize` builds the ring. -/
theorem Building.built (h : Building g s) {m' : Span} (hfresh : Fresh g m') :
    Built g { s with
      ring := { s.ring with memory := m' }, creation := readyRest, ready := some m' } where
  ready := ⟨m', rfl, hfresh⟩
  ring := by
    refine ⟨[], ?_⟩
    have hview : view g { s with
        ring := { s.ring with memory := m' }, creation := readyRest, ready := some m' } =
        .start m' (g.handle true) (g.handle true) (g.handle true) := by
      rw [h.idle]
      simp [view, completed, h.taken, System.start, Client.idle]
    rw [hview]
    exact System.ok_start hfresh.inv (g.producerHandle true m') (g.consumerHandle true m')
      (g.handleGeometry true) hfresh.read rfl
  stored := ⟨rfl, fun _ => ⟨rfl, fun _ => ⟨rfl, fun _ => trivial⟩⟩⟩
  creation := readyRest_observes
  attempts p hp := by
    obtain ⟨memory, hmemory, hsize, rfl⟩ | rfl := h.attempts p hp
    · exact attach_observes hmemory hsize (.inr rfl)
    · exact fun _ _ => .inl rfl

theorem Building.noHandle (h : Building g s) (source : Source) : s.handleOf source = none := by
  cases source with
  | creation =>
      have hcreation := h.creation
      simp only [handleOf]
      cases hrest : s.creation with
      | done result l =>
          rw [hrest] at hcreation
          exact hcreation.elim
      | step l op rest => rfl
  | attempt i =>
      cases hattempt : s.attempts[i]? with
      | none =>
          simp only [handleOf, hattempt]
          rfl
      | some p =>
          obtain ⟨memory, hmemory, hsize, rfl⟩ | rfl :=
            h.attempts p (List.mem_of_getElem? hattempt)
          · obtain ⟨rest, hattach, -⟩ := attach_waits hmemory
            simp only [handleOf, hattempt, hattach]
            rfl
          · simp only [handleOf, hattempt]
            rfl

/-- Until the ring is `Ready`, every attempt finds it not to be, and nobody gets a handle. -/
theorem Building.next (h : Building g s) (hmapped : Mapped g s a) (hnext : s.next a = some t) :
    Building g t ∨ Built g t := by
  cases a with
  | create =>
      have hcreation := h.creation
      simp only [Startup.next] at hnext
      cases hrest : s.creation with
      | done result l =>
          rw [hrest] at hnext
          cases hnext
      | step l op rest =>
          rw [hrest] at hnext hcreation
          obtain rfl := Option.some.inj hnext
          rw [h.ready]
          obtain ⟨hdone, hfresh⟩ | ⟨hunready, hlater⟩ := hcreation
          · refine .inr ?_
            rw [hdone, if_pos hfresh.state]
            exact h.built hfresh
          · refine .inl ?_
            have hstate : stateOf (@spanExec Unit op () s.ring.memory).2 ≠ stateReady := by
              obtain hstate | hstate := hunready.state
              · rw [hstate]
                decide
              · rw [hstate]
                decide
            rw [if_neg hstate]
            exact
              { idle := by
                  rw [h.idle]
                  rfl
                taken := h.taken
                ready := rfl
                unready := hunready
                creation := hlater
                attempts := h.attempts }
  | attach memory =>
      obtain rfl := Option.some.inj hnext
      obtain ⟨hmemory, hsize⟩ := hmapped
      refine .inl { h with attempts := ?_ }
      intro p hp
      obtain hold | hnew := List.mem_append.mp hp
      · exact h.attempts p hold
      · exact .inl ⟨memory, hmemory, hsize, List.mem_singleton.mp hnew⟩
  | load i =>
      simp only [Startup.next] at hnext
      cases hattempt : s.attempts[i]? with
      | none =>
          rw [hattempt] at hnext
          cases hnext
      | some p =>
          obtain ⟨memory, hmemory, hsize, rfl⟩ | rfl := h.attempts p (List.mem_of_getElem? hattempt)
          · obtain ⟨rest, hattach, hrest⟩ := attach_waits hmemory
            rw [hattempt, hattach] at hnext
            obtain rfl := Option.some.inj hnext
            refine .inl { h with attempts := ?_ }
            intro p hp
            obtain hold | rfl := List.mem_or_eq_of_mem_set hp
            · exact h.attempts p hold
            · exact .inr (hrest s.ring.memory h.unready)
          · rw [hattempt] at hnext
            cases hnext
  | take role source =>
      simp only [Startup.next] at hnext
      rw [h.noHandle source] at hnext
      cases hnext
  | operate a =>
      simp only [Startup.next] at hnext
      rw [h.taken a.actor, if_neg Bool.false_ne_true] at hnext
      cases hnext

/-- A handle that was returned is a whole one. -/
theorem Built.handle (h : Built g s) {source : Source} {handle : SpscRing}
    (hhandle : s.handleOf source = some handle) : ∃ initializer, handle = g.handle initializer := by
  cases source with
  | creation =>
      obtain ⟨result, hresult, hok⟩ := Option.bind_eq_some_iff.mp hhandle
      obtain rfl := h.creation.result hresult
      exact ⟨true, (Option.some.inj hok).symm⟩
  | attempt i =>
      obtain ⟨result, hresult, hok⟩ := Option.bind_eq_some_iff.mp hhandle
      obtain ⟨p, hattempt, hresult⟩ := Option.bind_eq_some_iff.mp hresult
      obtain rfl | rfl := (h.attempts p (List.mem_of_getElem? hattempt)).result hresult
      · cases hok
      · exact ⟨false, (Option.some.inj hok).symm⟩

/-- From then on every attempt that looks at the ring finds it whole. -/
theorem Built.next (h : Built g s) (hmapped : Mapped g s a) (hnext : s.next a = some t) :
    Built g t := by
  obtain ⟨hist, hring⟩ := h.ring
  have hinv : RingInv ⟨g, 0, True, False⟩ s.ring.memory hist := hring.ring
  obtain ⟨m, hready, hfresh⟩ := h.ready
  cases a with
  | create =>
      have hcreation := h.creation
      have hstored := h.stored
      simp only [Startup.next] at hnext
      cases hrest : s.creation with
      | done result l =>
          rw [hrest] at hnext
          cases hnext
      | step l op rest =>
          rw [hrest] at hnext hcreation hstored
          obtain ⟨hsame, hlater⟩ := hcreation.step hinv
          obtain rfl := Option.some.inj hnext
          rw [hsame, hready]
          exact
            { ready := ⟨m, rfl, hfresh⟩
              ring := h.ring
              stored := hstored.2 _
              creation := hlater
              attempts := h.attempts }
  | attach memory =>
      obtain rfl := Option.some.inj hnext
      obtain ⟨hmemory, hsize⟩ := hmapped
      refine { h with attempts := ?_ }
      intro p hp
      obtain hold | hnew := List.mem_append.mp hp
      · exact h.attempts p hold
      · rw [List.mem_singleton.mp hnew]
        exact attach_observes hmemory hsize (.inr rfl)
  | load i =>
      simp only [Startup.next] at hnext
      split at hnext
      case h_1 l op rest hattempt =>
        have hold := h.attempts _ (List.mem_of_getElem? hattempt)
        obtain ⟨hsame, hlater⟩ := hold.step hinv
        obtain rfl := Option.some.inj hnext
        rw [hsame]
        refine { h with attempts := ?_ }
        intro p hp
        obtain hold | rfl := List.mem_or_eq_of_mem_set hp
        · exact h.attempts p hold
        · exact hlater
      case h_2 => cases hnext
  | take role source =>
      simp only [Startup.next] at hnext
      split at hnext
      case h_1 handle hhandle hidle =>
        split at hnext
        case isTrue => cases hnext
        case isFalse hheld =>
          obtain ⟨initializer, rfl⟩ := h.handle hhandle
          obtain rfl := Option.some.inj hnext
          have hview : ((s.view g).client role).running = none ∧
              ((s.view g).client role).handle.acquired = false := by
            rw [view_client]
            cases s.taken role with
            | true => exact ⟨hidle, Bool.eq_false_iff.mpr hheld⟩
            | false => exact ⟨hidle, rfl⟩
          refine { h with ring := ⟨hist, ?_⟩ }
          rw [view_setHandle]
          exact hring.setHandle hview.1 hview.2 initializer
      case h_2 => cases hnext
  | operate a =>
      simp only [Startup.next] at hnext
      split at hnext
      case isTrue htaken =>
        obtain ⟨ring, hring', rfl⟩ := Option.map_eq_some_iff.mp hnext
        obtain ⟨hist', hok, -⟩ := System.next_ok hring (fun hquiet => hquiet.elim)
          (view_next htaken hring')
        exact { h with ring := ⟨hist', hok⟩ }
      case isFalse => cases hnext

theorem reaches_built (hstart : Building g s) (hrun : Reaches Startup.next (Mapped g) s t) :
    Building g t ∨ Built g t := by
  apply hrun.invariant (I := fun s => Building g s ∨ Built g s) (.inl hstart)
  rintro s a t (h | h) hmapped hnext
  · exact h.next hmapped hnext
  · exact .inr (h.next hmapped hnext)

/-- Nobody sees a half-built ring. While `initialize` runs on zero-filled memory, an attempt
answers `NotReady` or it succeeds, and then `initialize` has stored everything: the handle has
the geometry of the creator's, and cursors and slot headers are those of an empty ring and of
what was done with it since. An `initialize` that fails has not touched the memory. -/
theorem no_half_built_ring (hmemory : invalidMemory m.toRegion = false) (hsize : m.size = g.size)
    (hzero : ∀ a < m.size, m.bytes a = 0) (hid : instanceId ≠ 0)
    (hrun : Reaches Startup.next (Mapped g) (initial m g.config instanceId) s) :
    (∀ result, resultOf s.creation = some result → result = .ok (g.handle true)) ∧
    (∀ p ∈ s.attempts, ∀ result, resultOf p = some result →
      result = .error .notReady ∨
        (result = .ok (g.handle false) ∧ s.creation.Avoids Access.isStore ∧
          (∃ m0, s.ready = some m0 ∧ Fresh g m0) ∧ Consistent g s.ring.memory ∧
          ∀ position, g.SlotReserved s.ring.memory position)) ∧
    ∀ (m : Span) (config : RingConfig) (instanceId : UInt64) (e : RingError) (m' : Span),
      (SpscRing.initializeRing m.toRegion config instanceId ()).run (@spanExec Unit) () m =
        (.error e, (), m') →
      m' = m ∧ (SpscRing.initializeRing m.toRegion config instanceId ()).trace
        (@spanExec Unit) () m = [] := by
  refine ⟨?_, ?_, ?_⟩
  · intro result hresult
    obtain hbuilding | hbuilt := reaches_built (initial_building hmemory hsize hzero hid) hrun
    · have hcreation := hbuilding.creation
      cases hrest : s.creation with
      | done result' l =>
          rw [hrest] at hcreation
          exact hcreation.elim
      | step l op rest =>
          rw [hrest] at hresult
          cases hresult
    · exact hbuilt.creation.result hresult
  · intro p hp result hresult
    obtain hbuilding | hbuilt := reaches_built (initial_building hmemory hsize hzero hid) hrun
    · obtain ⟨memory, hmemory', -, rfl⟩ | rfl := hbuilding.attempts p hp
      · obtain ⟨rest, hattach, -⟩ := attach_waits hmemory'
        rw [hattach] at hresult
        cases hresult
      · exact .inl (Option.some.inj hresult).symm
    · obtain hnotReady | hok := (hbuilt.attempts p hp).result hresult
      · exact .inl hnotReady
      · obtain ⟨hist, hring⟩ := hbuilt.ring
        exact .inr ⟨hok, hbuilt.stored, hbuilt.ready, hring.ring.consistent,
          hring.ring.reserved trivial⟩
  · intro m config instanceId e m' hrun
    obtain ⟨e', herror⟩ | hresults := initializeRing_error m.toRegion config instanceId ()
    · rw [herror] at hrun ⊢
      obtain ⟨-, rfl⟩ : e' = e ∧ m = m' := by simpa using hrun
      exact ⟨rfl, rfl⟩
    · have hok : (((SpscRing.initializeRing m.toRegion config instanceId ()).run
          (@spanExec Unit) () m).1).isOk = true := hresults.run () m
      rw [hrun] at hok
      cases hok

/-- A side attaches too early and another one while the creator already publishes. -/
def sampleStartup : List StartupAction :=
  .attach ⟨128, 320⟩ :: List.replicate 200 .create ++ .load 0 :: List.replicate 94 .create ++
    [.take .producer .creation, .operate (.begin .producer (.tryPublish sampleEvent)),
      .attach ⟨256, 320⟩] ++
    (List.replicate 8 [.operate (.step .producer), .load 1]).flatten ++ List.replicate 137 (.load 1)

theorem no_half_built_ring_sample :
    ∃ s, runActions Startup.next (Mapped sampleGeometry)
        (initial ⟨⟨128, 320⟩, fun _ => 0⟩ sampleGeometry.config 1) sampleStartup = some s ∧
      (∃ m0, s.ready = some m0 ∧ Fresh sampleGeometry m0) ∧
      Consistent sampleGeometry s.ring.memory := by
  have hsample : (runActions Startup.next (Mapped sampleGeometry)
      (initial ⟨⟨128, 320⟩, fun _ => 0⟩ sampleGeometry.config 1) sampleStartup).map (fun s =>
        s.attempts.map fun p => (resultOf p).map Except.isOk) =
      some [some false, some true] := by
    decide +kernel
  obtain ⟨s, hs, hattempts⟩ := Option.map_eq_some_iff.mp hsample
  have hzero : ∀ a < 320, (⟨⟨128, 320⟩, fun _ => 0⟩ : Span).bytes a = 0 := fun _ _ => rfl
  obtain ⟨-, hall, -⟩ :=
    no_half_built_ring rfl rfl hzero (by decide) (reaches_of_runActions hs)
  obtain ⟨first, rest, heq, -, hrest⟩ := List.map_eq_cons_iff.mp hattempts
  obtain ⟨second, last, rfl, hsecond, -⟩ := List.map_eq_cons_iff.mp hrest
  obtain ⟨result, hresult, hok⟩ := Option.map_eq_some_iff.mp hsecond
  have hmem : second ∈ s.attempts := by
    rw [heq]
    simp
  obtain rfl | ⟨-, -, hready, hconsistent, -⟩ := hall second hmem result hresult
  · cases hok
  · exact ⟨s, hs, hready, hconsistent⟩

end Startup

end EventEngine.Ring
