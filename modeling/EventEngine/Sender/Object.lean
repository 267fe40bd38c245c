import EventEngine.Posix.Residents
import EventEngine.Receiver.Object
import EventEngine.Ring.Attach
import EventEngine.Sender.Run

/-!
# A sender with its resources

`Sender`, from `initialize` to its destructor, cut at every system call, at every access to the
ingress ring and at every `sendto`. The members are processes of their own; they run inside the
methods of the sender.
-/

namespace EventEngine

open Concurrency Memory Posix Transport Protocol EventEngine.Ring EventEngine.Shm

variable {ℓ ℓ' α : Type}

/-- The accesses of a sender besides the system calls that acquire and give back. `sendto`
answers an error number, or how many bytes were sent. -/
inductive SenderHostOp where
  | memory (base : Address) (access : Access)
  | loadStop
  | requestStop
  | sendto (socketFd : Option Descriptor) (datagram : Bytes) (destination : UdpAddress)
  deriving DecidableEq

abbrev SenderHostOp.Res : SenderHostOp → Type
  | .memory _ access => spanAccess.Res access
  | .loadStop => Bool
  | .requestStop => Unit
  | .sendto _ _ _ => Except Errno Nat

abbrev senderOwnAccess : Signature := ⟨SenderHostOp, SenderHostOp.Res⟩

abbrev senderHostAccess : Signature := hosted senderOwnAccess

namespace SenderHostOp

def perform (op : SenderHostOp) : Method senderHostAccess ℓ op.Res :=
  HostedOp.performOwn (X := senderOwnAccess) op

/-- Run a process on the memory that is mapped at `base`. -/
def onMapping (base : Address) (p : Process spanAccess ℓ' α) : Method senderHostAccess ℓ α :=
  p.within (fun access => perform (.memory base access)) fun _ l => l

end SenderHostOp

/-- Run a process that only calls the system. -/
def onSenderSystem (p : Process posixAccess ℓ' α) : Method senderHostAccess ℓ α :=
  HostedOp.callSystem p

/-! ### The configuration -/

/-- The fields that `initialize` and `run` read; an `int` is an `Int32`. -/
structure SenderConfig where
  ingressShmName : Name
  receivers : List Endpoint
  maxDatagramBytes : UInt32 := 1416
  deliveryMode : DeliveryMode := .bestEffort
  cpu : Int32 := -1
  deriving DecidableEq, Repr

/-! ### The socket -/

/-- Parse a numeric endpoint. `c_str` ends an address at the first zero. -/
def Transport.UdpAddress.ipv4 (inetPton : Bytes → Option UInt32) (endpoint : Endpoint) :
    Except UdpError UdpAddress :=
  if endpoint.port = 0 then .error { code := .invalidPort }
  else
    match inetPton (endpoint.address.takeWhile (· ≠ 0)) with
    | none => .error { code := .invalidAddress }
    | some address => .ok ⟨address, endpoint.port⟩

/-- The descriptor is `-1` where the field is `none`. -/
structure UdpSender where
  socketFd : Option Descriptor := none
  deriving DecidableEq, Repr

namespace UdpSender

def «open» : Method posixAccess ℓ (Except UdpError UdpSender) := do
  match ← Shm.perform .socket with
  | .error errno => return .error ⟨.socket, errno⟩
  | .ok socketFd => return .ok ⟨some socketFd⟩

/-- The move constructor: the new object and what is left of the other one. -/
def move (other : UdpSender) : UdpSender × UdpSender := (other, ⟨none⟩)

/-- The destructor. -/
def destroy (self : UdpSender) : Method posixAccess ℓ Unit := do
  match self.socketFd with
  | none => return ()
  | some socketFd =>
      let _ ← Shm.perform (.close socketFd)

/-- A datagram that was sent in part counts as an error. -/
def sendTo (self : UdpSender) (datagram : Bytes) (destination : UdpAddress) :
    Method senderHostAccess ℓ (Except UdpError Unit) := do
  match ← SenderHostOp.perform (.sendto self.socketFd datagram destination) with
  | .error errno => return .error ⟨.send, errno⟩
  | .ok sent => if sent ≠ datagram.length then return .error { code := .send } else return .ok ()

end UdpSender

/-! ### The sender -/

/-- The members of a sender; the stop flag is shared, so it is not here. The pointers of
`ingress` count from `ingressMemory`. -/
structure SenderObject extends Sender where
  segment : SharedMemorySegment
  ingress : SpscRing
  ingressMemory : Address
  udp : UdpSender

/-- A sender whose `run` is executing, with the part of the packet buffer that may be used. -/
structure RunningSender extends SenderObject where
  output : Bytes

namespace RunningSender

def frame (self : RunningSender) : SenderFrame :=
  { toSender := self.toSender, output := self.output }

def putFrame (frame : SenderFrame) (self : RunningSender) : RunningSender :=
  { self with toSender := frame.toSender, output := frame.output }

/-- A call on the ingress ring. -/
def onIngress (call : Method spanAccess SpscRing α) : Method senderHostAccess RunningSender α :=
  fun self => (call self.ingress).within
    (fun access => SenderHostOp.perform (.memory self.ingressMemory access))
    (fun ingress self => { self with ingress }) self

/-- What an access of the thread is on the host. -/
def perform : (op : SenderOp) → Method senderHostAccess RunningSender op.Res
  | .loadStop => SenderHostOp.perform .loadStop
  | .requestStop => SenderHostOp.perform .requestStop
  | .tryAcquire => onIngress SpscRing.tryAcquire
  | .readByte offset => do
      let self ← Method.self
      let bytes ← SenderHostOp.perform (.memory self.ingressMemory (.load offset 1))
      return bytes.headD 0
  | .release => onIngress SpscRing.release
  | .sendTo datagram destination => do
      let self ← Method.self
      match ← self.udp.sendTo datagram destination with
      | .error _ => return false
      | .ok _ => return true

/-- A part of `run`. -/
def onThread (part : Method senderAccess SenderFrame α) :
    Method senderHostAccess RunningSender α :=
  fun self => (part self.frame).within perform putFrame self

def run : Loop senderHostAccess RunningSender where
  body := onThread Sender.run.body
  after := onThread Sender.run.after

end RunningSender

namespace SenderObject

/-- The locals of `run`. -/
def start (self : SenderObject) : RunningSender :=
  { self with output := self.toSender.frame.output }

/-- The move constructor: the new object and what is left of the other one, each with its
stop flag. -/
def move (other : SenderObject) (stopRequested : Bool) (leftover : Name) :
    (SenderObject × Bool) × (SenderObject × Bool) :=
  let (sender, sender') := other.toSender.move stopRequested
  let (segment, segment') := other.segment.move leftover
  let (ingress, ingress') := other.ingress.move
  let (udp, udp') := other.udp.move
  (({ other with toSender := sender.1, segment, ingress, udp }, sender.2),
    ({ other with toSender := sender'.1, segment := segment', ingress := ingress', udp := udp' },
      sender'.2))

/-- The destructor: those of the members, in reverse order. -/
def destroy (self : SenderObject) : Method senderHostAccess ℓ Unit := do
  onSenderSystem (self.udp.destroy ())
  onSenderSystem (self.segment.destroy ())

end SenderObject

/-! ### `initialize` -/

/-- The local variables of `initialize`, and its result once it is known. -/
structure InitializingSender where
  config : SenderConfig
  destinations : List UdpAddress := []
  segment : SharedMemorySegment := {}
  ingress : SpscRing := .movedFrom
  udp : UdpSender := {}
  sessionId : UInt32 := 0
  result : Option (Except InitError SenderObject) := none

/-- Parse the endpoints in order, up to the first one that is not numeric. -/
def parseReceivers (inetPton : Bytes → Option UInt32) :
    List Endpoint → Except UdpError (List UdpAddress)
  | [] => .ok []
  | endpoint :: rest => do
      let destination ← UdpAddress.ipv4 inetPton endpoint
      let destinations ← parseReceivers inetPton rest
      return destination :: destinations

namespace InitializingSender

/-- Return an error. -/
def fail (error : InitError) : Method senderHostAccess InitializingSender Bool := do
  Method.assign fun self => { self with result := some (.error error) }
  return false

/-- Return an error, with the destructors of the local variables. -/
def abandon (error : InitError) : Method senderHostAccess InitializingSender Bool := do
  let self ← Method.self
  onSenderSystem (self.udp.destroy ())
  onSenderSystem (self.segment.destroy ())
  fail error

/-- From the open segment to the loop. -/
def openIngress (segment : SharedMemorySegment) :
    Method senderHostAccess InitializingSender Bool := do
  Method.assign fun self => { self with segment }
  let memory : Region := ⟨segment.address.getD 0, segment.size.toNat⟩
  match ← SenderHostOp.onMapping memory.base (SpscRing.attach memory ()) with
  | .error _ => abandon .ring
  | .ok ingress =>
      match ← onSenderSystem (UdpSender.open ()) with
      | .error _ => abandon .socket
      | .ok udp =>
          Method.assign fun self => { self with ingress, udp }
          return true

/-- Everything in front of the loop; false if `initialize` has failed. -/
def prepare (inetPton : Bytes → Option UInt32) :
    Method senderHostAccess InitializingSender Bool := do
  let { config, .. } ← Method.self
  if config.ingressShmName = [] ∨ config.receivers = [] ∨
      config.maxDatagramBytes < UInt32.ofNat minDataPacketBytes ∨
      UInt32.ofNat maxPacketBytes < config.maxDatagramBytes ∨
      config.deliveryMode ≠ .bestEffort ∨ config.cpu ≠ -1 then
    fail .invalidConfig
  else
    match parseReceivers inetPton config.receivers with
    | .error _ => fail .addressResolution
    | .ok destinations =>
        Method.assign fun self => { self with destinations }
        match ← onSenderSystem (SharedMemorySegment.attachShm config.ingressShmName ()) with
        | .error _ => fail .sharedMemory
        | .ok segment => openIngress segment

/-- One turn of the loop that draws the session. An interrupted call leaves it zero, and the
loop goes on while it is zero. -/
def drawSessionId : Method senderHostAccess InitializingSender Bool := do
  match ← HostedOp.performSystem (.getrandom 4) with
  | .error errno => if errno = eintr then return true else abandon .sessionId
  | .ok bytes =>
      if bytes.length ≠ 4 then abandon .sessionId
      else
        let sessionId := UInt32.ofNat (leNat bytes)
        Method.assign fun self => { self with sessionId }
        return sessionId = 0

/-- The value that is returned: a temporary is constructed, moved from and destroyed. What the
other moves leave behind owns nothing. -/
def succeed : Method senderHostAccess InitializingSender Unit := do
  let self ← Method.self
  if self.result.isSome then return ()
  else
    let constructed : SenderObject :=
      { maxDatagramBytes := self.config.maxDatagramBytes
        destinations := self.destinations
        sessionId := self.sessionId
        packetSequence := 1
        stats := {}
        segment := self.segment
        ingress := self.ingress
        ingressMemory := self.segment.address.getD 0
        udp := self.udp }
    let (returned, temporary) := constructed.move false []
    temporary.1.destroy
    Method.assign fun self => { self with result := some (.ok returned.1) }

/-- The part of `initialize` from its loop. -/
def loop : Loop senderHostAccess InitializingSender where
  body := drawSessionId
  after := succeed

/-- A call of `initialize`. -/
def start (inetPton : Bytes → Option UInt32) (config : SenderConfig) :
    Thread senderHostAccess InitializingSender :=
  loop.settleTurn (prepare inetPton { config })

end InitializingSender

end EventEngine
