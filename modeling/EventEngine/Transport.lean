import EventEngine.Memory.Bytes

/-!
# The UDP sockets, seen from the sender and the receiver

What a socket answers is the choice of the environment; these are the types of its answers.
-/

namespace EventEngine.Transport

open Memory

inductive UdpErrorCode where
  | invalidAddress
  | invalidPort
  | socket
  | bind
  | poll
  | timeout
  | send
  | receive
  | datagramTooLarge
  deriving DecidableEq, Repr

structure UdpError where
  code : UdpErrorCode
  errorNumber : Int := 0
  deriving DecidableEq, Repr

/-- `EINTR` on the supported hosts. -/
def eintr : Int := 4

/-- A numeric IPv4 endpoint. -/
structure UdpAddress where
  address : UInt32
  port : UInt16
  deriving DecidableEq, Repr

/-- What `UdpReceiver::receive` returned; the datagram is what it left in the buffer. -/
abbrev Received := Except UdpError Bytes

end EventEngine.Transport
