import EventEngine.Concurrency.Transition
import EventEngine.Receiver.Object

/-!
# Any number of receivers

Receivers in any number of processes, with one kernel and one shared memory. A call on a receiver
goes on by one access at a time, interleaved with the calls on other receivers and with whatever
other programs do: their system calls, and their stores into the objects they see.
-/

namespace EventEngine

open Concurrency Memory Posix Transport EventEngine.Shm

/-- Where a receiver is. `log` are the accesses that its destructor has performed. -/
inductive ReceiverSlot where
  | absent
  | initializing (config : ReceiverConfig) (thread : Thread hostAccess Initializing)
  | failed (error : InitError)
  | idle (receiver : ReceiverObject)
  | running (thread : Thread hostAccess ReceiverObject)
  | destroying (log : List HostOp) (process : Process hostAccess Unit Unit)
  | destroyed (log : List HostOp)

namespace ReceiverSlot

/-- `initialize` goes on, or returns. -/
def settleInitializing (config : ReceiverConfig) : Thread hostAccess Initializing → ReceiverSlot
  | .returned self =>
      match self.result with
      | some (.ok receiver) => .idle receiver
      | some (.error e) => .failed e
      | none => .initializing config (.returned self)
  | thread => .initializing config thread

/-- `run` goes on, or returns. -/
def settleRunning : Thread hostAccess ReceiverObject → ReceiverSlot
  | .returned self => .idle self
  | thread => .running thread

/-- The destructor goes on, or it is done. -/
def settleDestroying (log : List HostOp) : Process hostAccess Unit Unit → ReceiverSlot
  | .done _ _ => .destroyed log
  | p => .destroying log p

/-- The next access, and where the receiver is behind it. -/
def pending : ReceiverSlot → Option ((op : HostOp) × (op.Res → ReceiverSlot))
  | .initializing config thread =>
      (Initializing.loop.pending thread).map fun ⟨op, resume⟩ =>
        ⟨op, fun r => settleInitializing config (resume r)⟩
  | .running thread =>
      (ReceiverObject.run.pending thread).map fun ⟨op, resume⟩ =>
        ⟨op, fun r => settleRunning (resume r)⟩
  | .destroying log (.step _ op next) =>
      some ⟨op, fun r => settleDestroying (log ++ [op]) (next r)⟩
  | _ => none

/-- The object, while it can be used. -/
def receiver : ReceiverSlot → Option ReceiverObject
  | .idle receiver => some receiver
  | .running thread => some thread.self
  | _ => none

/-- The accesses of the destructor so far, once it was called. -/
def log : ReceiverSlot → Option (List HostOp)
  | .destroying log _ => some log
  | .destroyed log => some log
  | _ => none

end ReceiverSlot

/-- The receivers are numbered. `holding` is what the calls on one of them have acquired and not
given back, and at `none` what all other programs have; only the proof sees it. -/
structure Receivers where
  kernel : Kernel := {}
  memory : Object → Nat → UInt8 := fun _ _ => 0
  slots : Nat → ReceiverSlot := fun _ => .absent
  stop : Nat → Bool := fun _ => false
  holding : Option Nat → Table := fun _ => .empty

/-- `answer` and `received` are what the system and the socket return if they are asked. `move`
constructs `h` from another receiver. -/
inductive LifecycleAction where
  | initializeReceiver (h : Nat) (config : ReceiverConfig)
  | step (h : Nat) (answer : (op : Op) → op.Res) (received : Received)
  | move (h other : Nat) (leftover : Name)
  | run (h : Nat)
  | requestStop (h : Nat)
  | destroy (h : Nat)
  | others (op : Op) (result : op.Res)
  | write (o : Object) (bytes : Nat → UInt8)

namespace Receivers

/-- Nothing exists yet. -/
def initial : Receivers := {}

/-- A system call of a receiver, or of the other programs. -/
def call (s : Receivers) (i : Option Nat) (op : Op) (result : op.Res) : Option Receivers :=
  (s.kernel.perform op result).map fun kernel =>
    { s with
      kernel
      holding := Function.update s.holding i (s.kernel.effect op result (s.holding i)) }

/-- The answer to an access of a receiver, and the state behind it. -/
def respond (s : Receivers) (h : Nat) (answer : (op : Op) → op.Res) (received : Received) :
    (op : HostOp) → Option (op.Res × Receivers)
  | .system op => (s.call (some h) op (answer op)).map fun t => (answer op, t)
  | .memory base access =>
      (s.kernel.table.mappings base).map fun mapping =>
        let answered := @spanExec Unit access ()
          ⟨⟨base, mapping.length.toNat⟩, s.memory mapping.object⟩
        (answered.1,
          { s with memory := Function.update s.memory mapping.object answered.2.bytes })
  | .loadStop => some (s.stop h, s)
  | .receive _ => some (received, s)

/-- One action, if it is possible. A receiver that runs is neither moved nor destroyed. -/
def next (inetPton : Bytes → Option UInt32) (s : Receivers) : LifecycleAction → Option Receivers
  | .initializeReceiver h config =>
      match s.slots h with
      | .absent =>
          some { s with
            slots := Function.update s.slots h
              (.settleInitializing config (Initializing.start inetPton config))
            stop := Function.update s.stop h false }
      | _ => none
  | .step h answer received =>
      match (s.slots h).pending with
      | none => none
      | some ⟨op, resume⟩ =>
          (s.respond h answer received op).map fun (r, t) =>
            { t with slots := Function.update t.slots h (resume r) }
  | .move h other leftover =>
      match s.slots h, s.slots other with
      | .absent, .idle receiver =>
          let (new, old) := receiver.move (s.stop other) leftover
          some { s with
            slots := Function.update (Function.update s.slots other (.idle old.1)) h (.idle new.1)
            stop := Function.update (Function.update s.stop other old.2) h new.2
            holding := Function.update
              (Function.update s.holding (some h) (s.holding (some other))) (some other) .empty }
      | _, _ => none
  | .run h =>
      match s.slots h with
      | .idle receiver =>
          some { s with slots := Function.update s.slots h (.running (.head receiver)) }
      | _ => none
  | .requestStop h =>
      (s.slots h).receiver.map fun _ => { s with stop := Function.update s.stop h true }
  | .destroy h =>
      match s.slots h with
      | .idle receiver =>
          some { s with
            slots := Function.update s.slots h (.settleDestroying [] (receiver.destroy ())) }
      | _ => none
  | .others op result => s.call none op result
  | .write o bytes =>
      if o < s.kernel.objects then some { s with memory := Function.update s.memory o bytes }
      else none

/-- Giving back succeeds for the receivers, and the other programs give back only what they
have. -/
def Reliable (s : Receivers) : LifecycleAction → Prop
  | .step _ answer _ => ∀ op, GivesBack op (answer op)
  | .others op _ => Possessed (s.holding none) op
  | _ => True

end Receivers

end EventEngine
