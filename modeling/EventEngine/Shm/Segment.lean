import EventEngine.Posix.Kernel

/-!
# Shared memory segments

`SharedMemorySegment`, cut at the system calls. A method takes the segment and returns what it
becomes; the static functions return the new one.
-/

namespace EventEngine.Shm

open Concurrency Memory Posix

variable {ℓ : Type}

inductive SegmentOperation where
  | validate
  | «open»
  | resize
  | stat
  | map
  | unmap
  | close
  | unlink
  deriving DecidableEq, Repr

structure SegmentError where
  operation : SegmentOperation
  errorNumber : Errno
  deriving DecidableEq, Repr

/-! `EPERM`, `ENOENT` and `EINVAL` on the supported hosts. -/

def eperm : Errno := 1
def enoent : Errno := 2
def einval : Errno := 22

/-- The descriptor is `-1` and the address null where the fields are `none`. -/
structure SharedMemorySegment where
  name : Name := []
  descriptor : Option Descriptor := none
  address : Option Address := none
  size : UInt64 := 0
  owner : Bool := false
  linked : Bool := false
  deriving DecidableEq, Repr

def perform (op : Op) : Method posixAccess ℓ op.Res := Method.perform (S := posixAccess) op

/-- The bytes of an ASCII string. -/
def ascii (s : String) : Bytes := s.toList.map fun c => UInt8.ofNat c.toNat

def maxSegmentNameLength : Nat := 255

def allowedCharacters : Bytes :=
  ascii ("abcdefghijklmnopqrstuvwxyz" ++ "ABCDEFGHIJKLMNOPQRSTUVWXYZ" ++ "0123456789._-")

def isShmNameValid (name : Name) : Bool :=
  if name.length < 2 ∨ name.length > maxSegmentNameLength then false
  else if name.head? ≠ some (UInt8.ofNat '/'.toNat) then false
  else
    let identifier := name.drop 1
    identifier ≠ ascii "." && identifier ≠ ascii ".." &&
      identifier.all fun c => allowedCharacters.contains c

def cleanUpFailedCreation (name : Name) (descriptor : Descriptor) : Method posixAccess ℓ Unit := do
  let _ ← perform (.close descriptor)
  let _ ← perform (.shmUnlink name)

namespace SharedMemorySegment

/-- The private constructor. -/
def mapped (name : Name) (descriptor : Descriptor) (address : Address) (size : UInt64)
    (owner : Bool) : SharedMemorySegment where
  name := name
  descriptor := some descriptor
  address := some address
  size := size
  owner := owner
  linked := true

def createShm (name : Name) (size : UInt64) :
    Method posixAccess ℓ (Except SegmentError SharedMemorySegment) := do
  if !isShmNameValid name || size == 0 then return .error ⟨.validate, einval⟩
  else
    match ← perform (.shmCreate name) with
    | .error errno => return .error ⟨.open, errno⟩
    | .ok descriptor =>
        match ← perform (.ftruncate descriptor size.toInt64) with
        | .error errno =>
            cleanUpFailedCreation name descriptor
            return .error ⟨.resize, errno⟩
        | .ok _ =>
            match ← perform (.mmap size descriptor) with
            | .error errno =>
                cleanUpFailedCreation name descriptor
                return .error ⟨.map, errno⟩
            | .ok mapping => return .ok (mapped name descriptor mapping size true)

def attachShm (name : Name) :
    Method posixAccess ℓ (Except SegmentError SharedMemorySegment) := do
  if !isShmNameValid name then return .error ⟨.validate, einval⟩
  else
    match ← perform (.shmOpen name) with
    | .error errno => return .error ⟨.open, errno⟩
    | .ok descriptor =>
        match ← perform (.fstat descriptor) with
        | .error errno =>
            let _ ← perform (.close descriptor)
            return .error ⟨.stat, errno⟩
        | .ok status =>
            if status ≤ 0 then
              let _ ← perform (.close descriptor)
              return .error ⟨.validate, einval⟩
            else
              match ← perform (.mmap status.toUInt64 descriptor) with
              | .error errno =>
                  let _ ← perform (.close descriptor)
                  return .error ⟨.map, errno⟩
              | .ok mapping => return .ok (mapped name descriptor mapping status.toUInt64 false)

/-- The first half of `close_shm`, with the error of `munmap`, or zero. -/
def unmap (self : SharedMemorySegment) : Method posixAccess ℓ (SharedMemorySegment × Errno) := do
  match self.address with
  | none => return (self, 0)
  | some address =>
      match ← perform (.munmap address self.size) with
      | .error errno => return (self, errno)
      | .ok _ => return ({ self with address := none, size := 0 }, 0)

/-- The second half of `close_shm`, with the error of `close`, or zero. -/
def closeDescriptor (self : SharedMemorySegment) :
    Method posixAccess ℓ (SharedMemorySegment × Errno) := do
  match self.descriptor with
  | none => return (self, 0)
  | some descriptor =>
      match ← perform (.close descriptor) with
      | .error errno => return ({ self with descriptor := none }, errno)
      | .ok _ => return ({ self with descriptor := none }, 0)

def closeShm (self : SharedMemorySegment) :
    Method posixAccess ℓ (SharedMemorySegment × Except SegmentError Unit) := do
  let (self, unmapError) ← self.unmap
  let (self, closeError) ← self.closeDescriptor
  if unmapError ≠ 0 then return (self, .error ⟨.unmap, unmapError⟩)
  else if closeError ≠ 0 then return (self, .error ⟨.close, closeError⟩)
  else return (self, .ok ())

def unlink (self : SharedMemorySegment) :
    Method posixAccess ℓ (SharedMemorySegment × Except SegmentError Unit) := do
  if !self.owner then return (self, .error ⟨.unlink, eperm⟩)
  else if !self.linked then return (self, .ok ())
  else
    match ← perform (.shmUnlink self.name) with
    | .error errno =>
        if errno = enoent then return ({ self with linked := false }, .ok ())
        else return (self, .error ⟨.unlink, errno⟩)
    | .ok _ => return ({ self with linked := false }, .ok ())

/-- What is left of a segment that was moved from; its name may be anything. -/
def movedFrom (name : Name) : SharedMemorySegment := { name }

/-- The move constructor: the new segment and what is left of the other one. -/
def move (other : SharedMemorySegment) (leftover : Name) :
    SharedMemorySegment × SharedMemorySegment := (other, movedFrom leftover)

/-- The move assignment from another object: what the two become. -/
def moveAssign (self other : SharedMemorySegment) (leftover : Name) :
    Method posixAccess ℓ (SharedMemorySegment × SharedMemorySegment) := do
  let _ ← self.closeShm
  return other.move leftover

/-- The destructor. -/
def destroy (self : SharedMemorySegment) : Method posixAccess ℓ Unit := do
  let _ ← self.closeShm

end SharedMemorySegment

end EventEngine.Shm
