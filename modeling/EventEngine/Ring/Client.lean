import EventEngine.Ring.Contents

/-!
# A handle in use

A `Client` is a handle together with the call that is in progress on it and the calls that
have returned. A call begins without touching the ring; each of its accesses is then one
step; it returns with its last access. The memories that a call overlaps are recorded,
because its result is compared with what an uncached queue would say at one of them.
-/

namespace EventEngine.Ring

open Concurrency Memory

/-- A call on a handle. `attach` replaces the handle by a new one for the same mapping. -/
inductive Call where
  | tryPublish (event : Event)
  | tryAcquire
  | release
  | attach
  | closePublication
  deriving DecidableEq, Repr

inductive Reply where
  | publish (result : PublishResult)
  | acquire (result : Except AcquireError (EventView ByteRange))
  | release (result : Bool)
  | attach (result : Except RingError Unit)
  | close (result : Bool)

/-- The method that a call runs on a handle for the mapping `memory`. -/
def Call.method (memory : Region) : Call → Method spanAccess SpscRing Reply
  | .tryPublish event => Reply.publish <$> SpscRing.tryPublish event
  | .tryAcquire => Reply.acquire <$> SpscRing.tryAcquire
  | .release => Reply.release <$> SpscRing.release
  | .attach => do
      match ← SpscRing.attach memory with
      | .ok handle =>
          Method.assign fun _ => handle
          return .attach (.ok ())
      | .error e => return .attach (.error e)
  | .closePublication => Reply.close <$> SpscRing.closePublication

/-- The event that a call tries to publish. -/
def Call.event : Call → Option Event
  | .tryPublish event => some event
  | _ => none

theorem Call.event_isSome {call : Call} (h : call.event.isSome = true) :
    ∃ event, call = .tryPublish event := by
  cases call with
  | tryPublish event => exact ⟨event, rfl⟩
  | tryAcquire => cases h
  | release => cases h
  | attach => cases h
  | closePublication => cases h

/-- A call in progress. `entry` is the handle and `start` the memory when it began;
`instants` are the memories since then, latest first. -/
structure Running where
  call : Call
  entry : SpscRing
  start : Span
  process : Process spanAccess SpscRing Reply
  instants : List Span
  stored : Bool

/-- A call that has returned; `finish` is the memory when it did. -/
structure Completed where
  call : Call
  entry : SpscRing
  start : Span
  reply : Reply
  finish : Span
  instants : List Span
  stored : Bool

/-- A handle, its call in progress and its returned calls, latest first. -/
structure Client where
  handle : SpscRing
  running : Option Running
  completed : List Completed

namespace Client

/-- Let a call that has run up to its next access wait there, or return. -/
def settle (k : Client) (r : Running) (m : Span) : Client :=
  match r.process with
  | .done reply handle =>
      { handle
        running := none
        completed :=
          ⟨r.call, r.entry, r.start, reply, m, r.instants, r.stored⟩ :: k.completed }
  | .step handle _ _ => { k with handle, running := some r }

/-- Begin a call, unless one is in progress. -/
def begin (k : Client) (call : Call) (m : Span) : Option Client :=
  match k.running with
  | some _ => none
  | none =>
      some (k.settle ⟨call, k.handle, m, call.method m.toRegion k.handle, [m], false⟩ m)

/-- The access that the call in progress performs next. -/
def pending (k : Client) : Option Access :=
  match k.running with
  | some ⟨_, _, _, .step _ op _, _, _⟩ => some op
  | _ => none

/-- The event that the next access publishes by storing the producer cursor. -/
def publishing (k : Client) : Option Event :=
  match k.running, k.pending with
  | some r, some (.store offset _) => if offset = producerOffset then r.call.event else none
  | _, _ => none

/-- Perform the next access of the call in progress. -/
def step (k : Client) (m : Span) : Option (Client × Span) :=
  match k.running with
  | some ⟨call, entry, start, .step _ op next, instants, stored⟩ =>
      let answer := @spanExec Unit op () m
      some (k.settle ⟨call, entry, start, next answer.1, answer.2 :: instants,
        stored || op.isStore⟩ answer.2, answer.2)
  | _ => none

/-- Another side has changed the memory to `m`. -/
def observe (k : Client) (m : Span) : Client :=
  { k with running := k.running.map fun r => { r with instants := m :: r.instants } }

/-- The handle when the call in progress began, or the handle itself between calls. -/
def entry (k : Client) : SpscRing :=
  match k.running with
  | some r => r.entry
  | none => k.handle

end Client

namespace Completed

/-- The event of a successful publication. -/
def published (e : Completed) : Option Event :=
  match e.call, e.reply with
  | .tryPublish event, .publish .ok => some event
  | _, _ => none

/-- The event of a successful acquisition, read when the call returned. -/
def acquired (e : Completed) : Option Event :=
  match e.reply with
  | .acquire (.ok view) => some (view.resolve e.finish)
  | _ => none

/-- The call gave a slot back. -/
def released (e : Completed) : Bool :=
  match e.reply with
  | .release true => true
  | _ => false

end Completed

namespace Client

/-- The events whose publication returned `Ok`, in order. -/
def publishedEvents (k : Client) : List Event := k.completed.reverse.filterMap Completed.published

/-- The events returned by successful acquisitions, in order. -/
def acquiredEvents (k : Client) : List Event := k.completed.reverse.filterMap Completed.acquired

/-- How many slots the handle's owner has given back. -/
def releases (k : Client) : Nat := k.completed.countP Completed.released

/-- The view that was returned and not given back yet, with the memory at its return. -/
def heldView (k : Client) : Option (EventView ByteRange × Span) :=
  lastView k.completed
where
  lastView : List Completed → Option (EventView ByteRange × Span)
    | [] => none
    | e :: older =>
        match e.reply with
        | .acquire (.ok view) => some (view, e.finish)
        | .release true => none
        | _ => lastView older

end Client

end EventEngine.Ring
