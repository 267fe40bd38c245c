import EventEngine.Receiver.Contracts
import EventEngine.Receiver.Receivers

/-!
# What one receiver has

Where a receiver is says what it has: nothing yet, all its resources, what its destructor has
not given back, or nothing any more. Each access keeps it so, and what a move leaves behind only
looks at its stop flag.
-/

namespace EventEngine

open Concurrency Memory Posix Transport EventEngine.Ring EventEngine.Shm

variable {r : Resources} {receiver : ReceiverObject} {stop : Bool} {t : Table}

/-- The receiver can be used, and has its resources. -/
def Resources.Alive (r : Resources) (t : Table) : ReceiverSlot → Prop
  | .idle receiver => r.Has receiver t
  | .running thread => r.running.Holds thread t
  | _ => False

/-- The destructor is closing the ring and giving everything back. -/
def Resources.Departing (r : Resources) (t : Table) : ReceiverSlot → Prop
  | .destroying log p => r.Leaving p log t
  | .destroyed log => log = r.farewell ∧ t = .empty
  | _ => False

namespace ReceiverSlot

variable {slot : ReceiverSlot} {op : HostOp} {resume : op.Res → ReceiverSlot}

/-- The receiver was moved from. -/
def Spent : ReceiverSlot → Prop
  | .idle receiver => Retired receiver
  | .running thread => retiredRun.Holds thread .empty
  | .destroyed log => log = []
  | _ => False

/-- What a receiver has, wherever it is. -/
inductive Ok (stop : Bool) : ReceiverSlot → Table → Prop
  | absent : Ok stop .absent .empty
  | failed (error : InitError) : Ok stop (.failed error) .empty
  | initializing {config : ReceiverConfig} {thread : Thread hostAccess Initializing} {t : Table}
      (holds : (Initializing.contract config).Holds thread t) :
      Ok stop (.initializing config thread) t
  | alive {r : Resources} {slot : ReceiverSlot} {t : Table} (alive : r.Alive t slot) :
      Ok stop slot t
  | departing {r : Resources} {slot : ReceiverSlot} {t : Table} (departing : r.Departing t slot) :
      Ok stop slot t
  | spent {slot : ReceiverSlot} (spent : slot.Spent) (stopped : stop = true) :
      Ok stop slot .empty

/-- The stop flag does not matter, unless the receiver was moved from. -/
theorem Ok.requestStop (hok : slot.Ok stop t) : slot.Ok true t := by
  cases hok with
  | absent => exact .absent
  | failed e => exact .failed e
  | initializing holds => exact .initializing holds
  | alive alive => exact .alive alive
  | departing departing => exact .departing departing
  | spent spent stopped => exact .spent spent rfl

theorem settleInitializing_ok {config : ReceiverConfig} {thread : Thread hostAccess Initializing}
    (hthread : (Initializing.contract config).Holds thread t) :
    (settleInitializing config thread).Ok stop t := by
  cases thread with
  | returned self =>
      obtain ⟨⟨e, hresult⟩, rfl⟩ | ⟨receiver, r, hresult, hlive, -, rfl⟩ := hthread
      · rw [settleInitializing, hresult]
        exact .failed e
      · rw [settleInitializing, hresult]
        exact .alive ⟨hlive, rfl⟩
  | head self => exact .initializing hthread
  | turn p => exact .initializing hthread
  | leaving p => exact .initializing hthread

/-- What `initialize` returns was made for the name in its configuration. -/
theorem settleInitializing_idle {config : ReceiverConfig}
    {thread : Thread hostAccess Initializing}
    (hthread : (Initializing.contract config).Holds thread t)
    (hidle : settleInitializing config thread = .idle receiver) :
    ∃ r : Resources, r.Live receiver ∧ r.name = config.egressShmName := by
  cases thread with
  | returned self =>
      obtain ⟨⟨e, hresult⟩, -⟩ | ⟨receiver', r, hresult, hlive, hname, -⟩ := hthread
      · rw [settleInitializing, hresult] at hidle
        cases hidle
      · rw [settleInitializing, hresult] at hidle
        cases hidle
        exact ⟨r, hlive, hname⟩
  | head self => cases hidle
  | turn p => cases hidle
  | leaving p => cases hidle

theorem settleRunning_alive {thread : Thread hostAccess ReceiverObject}
    (hthread : r.running.Holds thread t) : r.Alive t (settleRunning thread) := by
  cases thread with
  | returned self => exact hthread
  | head self => exact hthread
  | turn p => exact hthread
  | leaving p => exact hthread

theorem settleRunning_spent {thread : Thread hostAccess ReceiverObject}
    (hthread : retiredRun.Holds thread .empty) : (settleRunning thread).Spent := by
  cases thread with
  | returned self => exact hthread.1
  | head self => exact hthread
  | turn p => exact hthread
  | leaving p => exact hthread

theorem settleDestroying_departing {log : List HostOp} {p : Process hostAccess Unit Unit}
    (hleaving : r.Leaving p log t) : r.Departing t (settleDestroying log p) := by
  cases p with
  | done a l =>
      obtain ⟨hempty, hlog⟩ := hleaving
      exact ⟨hlog, hempty⟩
  | step l op next => exact hleaving

/-- What each access may be, and what the receiver keeps when it is answered. -/
theorem alive_resume (halive : r.Alive t slot) (hpending : slot.pending = some ⟨op, resume⟩) :
    HostAllowed t op ∧ ∀ result t', hostEnvironment (· = stop) op result t t' →
      r.Alive t' (resume result) := by
  cases slot with
  | running thread =>
      obtain ⟨⟨op', resume'⟩, hthread, heq⟩ := Option.map_eq_some_iff.mp hpending
      cases heq
      obtain ⟨⟨l, -, hallowed⟩, hresume⟩ := Loop.Contract.Holds.resume halive hthread
      refine ⟨hallowed, ?_⟩
      intro result t' henv
      exact settleRunning_alive (hresume result t' (henv.mono fun _ _ => trivial))
  | idle receiver => cases hpending
  | absent => cases hpending
  | failed e => cases hpending
  | initializing config thread => cases halive
  | destroying log p => cases halive
  | destroyed log => cases halive

theorem departing_resume (hdeparting : r.Departing t slot)
    (hpending : slot.pending = some ⟨op, resume⟩) :
    HostAllowed t op ∧ ∀ result t', hostEnvironment (· = stop) op result t t' →
      r.Departing t' (resume result) := by
  cases slot with
  | destroying log p =>
      cases p with
      | done a l => cases hpending
      | step l op' next =>
          cases hpending
          obtain ⟨⟨hallowed, -, -⟩, hnext⟩ := hdeparting
          refine ⟨hallowed, ?_⟩
          intro result t' henv
          apply settleDestroying_departing
          exact hnext result (t', log ++ [op]) ⟨henv.mono fun _ _ => trivial, rfl⟩
  | running thread => cases hdeparting
  | idle receiver => cases hdeparting
  | absent => cases hdeparting
  | failed e => cases hdeparting
  | initializing config thread => cases hdeparting
  | destroyed log => cases hpending

theorem spent_resume (hspent : slot.Spent) (hpending : slot.pending = some ⟨op, resume⟩) :
    op = .loadStop ∧ ∀ result t', hostEnvironment (· = true) op result .empty t' →
      t' = .empty ∧ (resume result).Spent := by
  cases slot with
  | running thread =>
      obtain ⟨⟨op', resume'⟩, hthread, heq⟩ := Option.map_eq_some_iff.mp hpending
      cases heq
      obtain ⟨⟨l, -, rfl⟩, hresume⟩ := Loop.Contract.Holds.resume hspent hthread
      refine ⟨rfl, ?_⟩
      intro result t' henv
      obtain rfl : t' = .empty := henv.2
      exact ⟨rfl, settleRunning_spent (hresume result _ henv)⟩
  | idle receiver => cases hpending
  | absent => cases hpending
  | failed e => cases hpending
  | initializing config thread => cases hspent
  | destroying log p => cases hspent
  | destroyed log => cases hpending

theorem alive_receiver (halive : r.Alive t slot) :
    ∃ receiver, slot.receiver = some receiver ∧ r.Has receiver t := by
  cases slot with
  | idle receiver => exact ⟨receiver, rfl, halive⟩
  | running thread =>
      refine ⟨thread.self, rfl, ?_⟩
      exact Loop.Contract.Holds.self (P := r.Has) halive (fun _ _ _ hop => hop.1)
        (fun _ _ hhas => hhas) (fun _ _ hhas => hhas) fun _ _ hhas => hhas
  | absent => cases halive
  | failed e => cases halive
  | initializing config thread => cases halive
  | destroying log p => cases halive
  | destroyed log => cases halive

theorem spent_receiver (hspent : slot.Spent) :
    (∃ receiver, slot.receiver = some receiver ∧ Retired receiver) ∨ slot.log = some [] := by
  cases slot with
  | idle receiver => exact .inl ⟨receiver, rfl, hspent⟩
  | running thread =>
      refine .inl ⟨thread.self, rfl, ?_⟩
      exact Loop.Contract.Holds.self (P := fun self _ => Retired self) hspent
        (fun _ _ _ hop => hop.1.1) (fun _ _ hretired => hretired.1)
        (fun _ _ hretired => hretired.1) fun _ _ hretired => hretired.1
  | destroyed log =>
      obtain rfl : log = [] := hspent
      exact .inr rfl
  | absent => cases hspent
  | failed e => cases hspent
  | initializing config thread => cases hspent
  | destroying log p => cases hspent

/-- A receiver that was moved from has nothing, and its stop flag is set. -/
theorem Ok.of_spent (hok : slot.Ok stop t) (hspent : slot.Spent) : stop = true ∧ t = .empty := by
  cases hok with
  | absent => cases hspent
  | failed e => cases hspent
  | initializing holds => cases hspent
  | spent spent stopped => exact ⟨stopped, rfl⟩
  | departing departing =>
      cases slot with
      | destroyed log =>
          obtain rfl : log = [] := hspent
          cases departing.1
      | destroying log p => cases hspent
      | _ => cases departing
  | alive alive =>
      obtain ⟨receiver, hreceiver, hlive, -⟩ := alive_receiver alive
      obtain ⟨receiver', hreceiver', hretired⟩ | hlog := spent_receiver hspent
      · rw [hreceiver] at hreceiver'
        obtain rfl := Option.some.inj hreceiver'
        have hno := hretired.initializer
        rw [hlive.initializer] at hno
        cases hno
      · cases slot with
        | destroyed log => cases alive
        | destroying log p => cases alive
        | _ => cases hlog

theorem Ok.step (hok : slot.Ok stop t) (hpending : slot.pending = some ⟨op, resume⟩) :
    HostAllowed t op ∧ ∀ result t', hostEnvironment (· = stop) op result t t' →
      (resume result).Ok stop t' := by
  cases hok with
  | absent => cases hpending
  | failed e => cases hpending
  | initializing holds =>
      obtain ⟨⟨op', resume'⟩, hthread, heq⟩ := Option.map_eq_some_iff.mp hpending
      cases heq
      obtain ⟨⟨l, hallowed⟩, hresume⟩ := Loop.Contract.Holds.resume holds hthread
      refine ⟨hallowed, ?_⟩
      intro result t' henv
      exact settleInitializing_ok (hresume result t' (henv.mono fun _ _ => trivial))
  | alive alive =>
      obtain ⟨hallowed, hresume⟩ := alive_resume alive hpending
      exact ⟨hallowed, fun result t' henv => .alive (hresume result t' henv)⟩
  | departing departing =>
      obtain ⟨hallowed, hresume⟩ := departing_resume departing hpending
      exact ⟨hallowed, fun result t' henv => .departing (hresume result t' henv)⟩
  | spent spent stopped =>
      subst stopped
      obtain ⟨rfl, hresume⟩ := spent_resume spent hpending
      refine ⟨trivial, ?_⟩
      intro result t' henv
      obtain ⟨rfl, hspent⟩ := hresume result t' henv
      exact .spent hspent rfl

end ReceiverSlot

end EventEngine
