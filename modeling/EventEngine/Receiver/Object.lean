import EventEngine.Concurrency.Within
import EventEngine.Receiver.Run
import EventEngine.Ring.Setup
import EventEngine.Shm.Segment

/-!
# A receiver with its resources

`Receiver`, from `initialize` to its destructor, cut at every system call and at every access to
the egress ring. The members are processes of their own; they run inside the methods of the
receiver. A system call goes to the kernel, and an access to the ring to the mapping that the
handle was made for.
-/

namespace EventEngine

open Concurrency Memory Posix Transport EventEngine.Ring EventEngine.Shm

variable {ℓ ℓ' α : Type}

/-- The accesses of a receiver. A datagram is received from the socket, if there is one. -/
inductive HostOp where
  | system (op : Posix.Op)
  | memory (base : Address) (access : Access)
  | loadStop
  | receive (socketFd : Option Descriptor)
  deriving DecidableEq

abbrev HostOp.Res : HostOp → Type
  | .system op => op.Res
  | .memory _ access => spanAccess.Res access
  | .loadStop => Bool
  | .receive _ => Received

abbrev hostAccess : Signature := ⟨HostOp, HostOp.Res⟩

namespace HostOp

def perform (op : HostOp) : Method hostAccess ℓ op.Res := Method.perform (S := hostAccess) op

/-- Run a process that only calls the system. -/
def onSystem (p : Process posixAccess ℓ' α) : Method hostAccess ℓ α :=
  p.within (fun op => perform (.system op)) fun _ l => l

/-- Run a process on the memory that is mapped at `base`. -/
def onMapping (base : Address) (p : Process spanAccess ℓ' α) : Method hostAccess ℓ α :=
  p.within (fun access => perform (.memory base access)) fun _ l => l

end HostOp

open HostOp

/-! ### The configuration -/

inductive DeliveryMode where
  | bestEffort
  | reliableOrdered
  deriving DecidableEq, Repr

structure Endpoint where
  address : Bytes
  port : UInt16
  deriving DecidableEq, Repr

/-- The fields that `initialize` reads; an `int` is an `Int32`. -/
structure ReceiverConfig where
  listen : Endpoint
  egressShmName : Name
  egressRing : RingConfig
  deliveryMode : DeliveryMode := .bestEffort
  cpu : Int32 := -1
  busyPollUs : Int32 := 0
  deriving DecidableEq, Repr

inductive InitError where
  | invalidConfig
  | sharedMemory
  | ring
  | addressResolution
  | socket
  | sessionId
  deriving DecidableEq, Repr

/-! ### The socket -/

/-- The descriptor is `-1` where the field is `none`. -/
structure UdpReceiver where
  socketFd : Option Descriptor := none
  localPort : UInt16 := 0
  deriving DecidableEq, Repr

namespace UdpReceiver

/-- The address family is always `AF_INET` here. -/
def bind (address : UdpAddress) : Method posixAccess ℓ (Except UdpError UdpReceiver) := do
  match ← Shm.perform .socket with
  | .error errno => return .error ⟨.socket, errno⟩
  | .ok socketFd =>
      match ← Shm.perform (.bind socketFd address.address address.port) with
      | .error errno =>
          let _ ← Shm.perform (.close socketFd)
          return .error ⟨.bind, errno⟩
      | .ok _ =>
          match ← Shm.perform (.getsockname socketFd) with
          | .error errno =>
              let _ ← Shm.perform (.close socketFd)
              return .error ⟨.bind, errno⟩
          | .ok localPort => return .ok ⟨some socketFd, localPort⟩

/-- The move constructor: the new object and what is left of the other one. -/
def move (other : UdpReceiver) : UdpReceiver × UdpReceiver :=
  (other, { other with socketFd := none })

/-- The destructor. -/
def destroy (self : UdpReceiver) : Method posixAccess ℓ Unit := do
  match self.socketFd with
  | none => return ()
  | some socketFd =>
      let _ ← Shm.perform (.close socketFd)

end UdpReceiver

/-! ### The receiver -/

/-- The members of a receiver; the stop flag is shared, so it is not here. The pointers of
`egress` count from `egressMemory`. -/
structure ReceiverObject extends Receiver where
  segment : SharedMemorySegment
  egress : SpscRing
  egressMemory : Address
  udp : UdpReceiver

namespace ReceiverObject

/-- The move constructor: the new object and what is left of the other one, each with its
stop flag. -/
def move (other : ReceiverObject) (stopRequested : Bool) (leftover : Name) :
    (ReceiverObject × Bool) × (ReceiverObject × Bool) :=
  let (receiver, receiver') := other.toReceiver.move stopRequested
  let (segment, segment') := other.segment.move leftover
  let (egress, egress') := other.egress.move
  let (udp, udp') := other.udp.move
  (({ other with toReceiver := receiver.1, segment, egress, udp }, receiver.2),
    ({ other with
      toReceiver := receiver'.1, segment := segment', egress := egress', udp := udp' },
      receiver'.2))

/-- The destructor, followed by those of the members in reverse order. -/
def destroy (self : ReceiverObject) : Method hostAccess ℓ Unit := do
  if self.segment.owner then
    let _ ← onMapping self.egressMemory (SpscRing.closePublication self.egress)
    let (segment, _) ← onSystem (self.segment.unlink ())
    onSystem (self.udp.destroy ())
    onSystem (segment.destroy ())
  else
    onSystem (self.udp.destroy ())
    onSystem (self.segment.destroy ())

/-- A call on the egress ring. -/
def onEgress (call : Method spanAccess SpscRing α) : Method hostAccess ReceiverObject α :=
  fun self => (call self.egress).within
    (fun access => HostOp.perform (.memory self.egressMemory access))
    (fun egress self => { self with egress }) self

/-- What an access of the thread is on the host. -/
def perform : (op : ReceiverOp) → Method hostAccess ReceiverObject op.Res
  | .loadStop => HostOp.perform .loadStop
  | .receive => fun self => HostOp.perform (.receive self.udp.socketFd) self
  | .tryPublish event => onEgress (SpscRing.tryPublish event)
  | .closePublication => onEgress SpscRing.closePublication

/-- A part of `run`. -/
def onThread (part : Method receiverAccess Receiver α) : Method hostAccess ReceiverObject α :=
  fun self => (part self.toReceiver).within perform
    (fun receiver self => { self with toReceiver := receiver }) self

def run : Loop hostAccess ReceiverObject where
  body := onThread Receiver.run.body
  after := onThread Receiver.run.after

end ReceiverObject

/-! ### `initialize` -/

/-- The local variables of `initialize`, and its result once it is known. -/
structure Initializing where
  config : ReceiverConfig
  size : Nat := 0
  udp : UdpReceiver := {}
  instanceId : UInt64 := 0
  result : Option (Except InitError ReceiverObject) := none

namespace Initializing

/-- Return an error. -/
def fail (error : InitError) : Method hostAccess Initializing Bool := do
  Method.assign fun self => { self with result := some (.error error) }
  return false

/-- Return an error while there is a socket. -/
def abandon (error : InitError) : Method hostAccess Initializing Bool := do
  let self ← Method.self
  onSystem (self.udp.destroy ())
  fail error

/-- Everything in front of the loop; false if `initialize` has failed. `c_str` ends an address
at the first zero. -/
def prepare (inetPton : Bytes → Option UInt32) : Method hostAccess Initializing Bool := do
  let { config, .. } ← Method.self
  if config.egressShmName = [] ∨ config.deliveryMode ≠ .bestEffort ∨ config.cpu ≠ -1 ∨
      config.busyPollUs ≠ 0 then
    fail .invalidConfig
  else
    match requiredBytes sizeBits config.egressRing with
    | .error _ => fail .invalidConfig
    | .ok size =>
        let address :=
          if config.listen.address = [] then ascii "0.0.0.0"
          else config.listen.address.takeWhile (· ≠ 0)
        match inetPton address with
        | none => fail .addressResolution
        | some address =>
            match ← onSystem (UdpReceiver.bind ⟨address, config.listen.port⟩ ()) with
            | .error _ => fail .socket
            | .ok udp =>
                Method.assign fun self => { self with size, udp }
                return true

/-- One turn of the loop that draws the identity of the ring. An interrupted call leaves it
zero, and the loop goes on while it is zero. -/
def drawInstanceId : Method hostAccess Initializing Bool := do
  match ← HostOp.perform (.system (.getrandom 8)) with
  | .error errno => if errno = eintr then return true else abandon .ring
  | .ok bytes =>
      if bytes.length ≠ 8 then abandon .ring
      else
        let instanceId := UInt64.ofNat (leNat bytes)
        Method.assign fun self => { self with instanceId }
        return instanceId = 0

/-- The value that is returned: a temporary is constructed, moved from and destroyed. What the
other moves leave behind owns nothing. -/
def succeed (segment : SharedMemorySegment) (egress : SpscRing) (egressMemory : Address) :
    Method hostAccess Initializing Unit := do
  let self ← Method.self
  let constructed : ReceiverObject := { segment, egress, egressMemory, udp := self.udp }
  let (returned, temporary) := constructed.move false []
  temporary.1.destroy
  Method.assign fun self => { self with result := some (.ok returned.1) }

/-- What follows the loop. -/
def createEgress : Method hostAccess Initializing Unit := do
  let self ← Method.self
  if self.result.isSome then return ()
  else
    match ← onSystem
        (SharedMemorySegment.createShm self.config.egressShmName (.ofNat self.size) ()) with
    | .error _ =>
        let _ ← abandon .sharedMemory
    | .ok segment =>
        let memory : Region := ⟨segment.address.getD 0, segment.size.toNat⟩
        match ← onMapping memory.base
            (SpscRing.initializeRing memory self.config.egressRing self.instanceId ()) with
        | .error _ =>
            let (segment, _) ← onSystem (segment.unlink ())
            onSystem (segment.destroy ())
            let _ ← abandon .ring
        | .ok egress => succeed segment egress memory.base

/-- The part of `initialize` from its loop. -/
def loop : Loop hostAccess Initializing where
  body := drawInstanceId
  after := createEgress

/-- A call of `initialize`. -/
def start (inetPton : Bytes → Option UInt32) (config : ReceiverConfig) :
    Thread hostAccess Initializing :=
  loop.settleTurn (prepare inetPton { config })

end Initializing

end EventEngine
