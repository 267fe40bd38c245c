import EventEngine.Ring.Consumer
import EventEngine.Sender.Object
import EventEngine.Shm.Contracts

/-!
# What a sender does to the table of its caller

Giving back succeeds. `initialize` fails with an empty table, or it returns an object that has
the whole table and draws on a valid configuration; `run` leaves the table and the configuration
alone, and the destructor empties it in a fixed order. No sender makes, removes or resizes
anything under a name, and of its ring it stores to the consumer cursor only. An object that was
moved from has nothing and does nothing.
-/

namespace EventEngine

open Concurrency Memory Posix Transport Protocol EventEngine.Ring EventEngine.Shm

variable {ℓ ℓ' α : Type}

/-- The calls that make, remove or resize what others find under a name. -/
def Posix.Op.alters : Op → Bool
  | .shmCreate _ => true
  | .shmUnlink _ => true
  | .ftruncate _ _ => true
  | _ => false

/-- What a sender does with what it has. -/
def SenderUses (h : Table) : HostedOp senderOwnAccess → Prop
  | .system op => Allowed h op ∧ op.alters = false
  | .own (.memory base access) =>
      (∃ o length, h.mappings base = some ⟨o, length⟩) ∧ ConsumerAccess access
  | .own (.sendto socketFd _ _) => ∃ d, socketFd = some d ∧ h.descriptors d = some .socket
  | .own .loadStop => True
  | .own .requestStop => True

/-- What is known of the stop flag. -/
def stopAnswers (flag : Bool → Prop) : (op : SenderHostOp) → op.Res → Prop
  | .loadStop, r => flag r
  | _, _ => True

abbrev senderHostEnvironment (flag : Bool → Prop) : Environment senderHostAccess Table :=
  HostedOp.environment (X := senderOwnAccess) (stopAnswers flag)

/-! ### The ring -/

/-- A process on a mapping leaves the table and the caller alone. -/
theorem onMapping_looks {l : ℓ} {base : Address} {p : Process spanAccess ℓ' α} {good : α → Prop}
    {flag : Bool → Prop} {control : ℓ → HostedOp senderOwnAccess → Table → Prop} {h : Table}
    (hp : p.Throughout (fun _ => True) ConsumerAccess good)
    (hcontrol : ∀ access, ConsumerAccess access → control l (.own (.memory base access)) h) :
    (SenderHostOp.onMapping base p l).Meets (senderHostEnvironment flag) control
      (fun a l' h' => good a ∧ l' = l ∧ h' = h) h := by
  apply hp.within (I := fun l' h' => l' = l ∧ h' = h)
  · intro _ l' h' _ hsame
    exact hsame
  · rintro access l' h' haccess ⟨rfl, rfl⟩
    exact ⟨hcontrol access haccess, fun r h' henv => ⟨rfl, henv.2⟩⟩
  · exact ⟨rfl, rfl⟩

/-! ### The configuration -/

/-- The checks in front of `initialize`. -/
def SenderConfig.Valid (config : SenderConfig) : Prop :=
  config.ingressShmName ≠ [] ∧ config.receivers ≠ [] ∧
    minDataPacketBytes ≤ config.maxDatagramBytes.toNat ∧
    config.maxDatagramBytes.toNat ≤ maxPacketBytes ∧
    config.deliveryMode = .bestEffort ∧ config.cpu = -1

/-- The sender sends what the configuration says, to the addresses in it. -/
structure Sender.Configured (inetPton : Bytes → Option UInt32) (config : SenderConfig)
    (sender : Sender) : Prop where
  valid : config.Valid
  maxDatagramBytes : sender.maxDatagramBytes = config.maxDatagramBytes
  destinations : parseReceivers inetPton config.receivers = .ok sender.destinations
  sessionId : sender.sessionId ≠ 0
  packetSequence : sender.packetSequence ≠ 0

namespace Sender

variable {inetPton : Bytes → Option UInt32} {config : SenderConfig} {frame : SenderFrame}

/-- Whatever the accesses answer, the sender stays configured. -/
abbrev StaysConfigured (inetPton : Bytes → Option UInt32) (config : SenderConfig)
    (p : Process senderAccess SenderFrame α) : Prop :=
  p.Along (fun frame => Configured inetPton config frame.toSender) fun _ => True

theorem readPayload_configured (offset n : Nat)
    (hframe : Configured inetPton config frame.toSender) :
    StaysConfigured inetPton config (readPayload offset n frame) := by
  induction n generalizing offset with
  | zero => exact ⟨hframe, trivial⟩
  | succ n ih =>
      refine ⟨hframe, fun b => (ih (offset + 1)).bind ?_⟩
      intro rest frame' hframe' _
      exact ⟨hframe', trivial⟩

theorem encode_configured (event : EventView ByteRange)
    (hframe : Configured inetPton config frame.toSender) :
    StaysConfigured inetPton config (encode event frame) := by
  rw [encode, Method.bind_apply, Method.self_apply, Process.bind_done]
  cases encodedSize event event.payload.length frame.sessionId frame.packetSequence
      frame.output.length with
  | error e => exact ⟨hframe, trivial⟩
  | ok packetSize =>
      apply (readPayload_configured _ _ hframe).bind
      intro payload frame' hframe' _
      exact ⟨{ hframe' with }, trivial⟩

theorem sendAll_configured (datagram : Bytes) (sentToAny : Bool) (destinations : List UdpAddress)
    (hframe : Configured inetPton config frame.toSender) :
    StaysConfigured inetPton config (sendAll datagram sentToAny destinations frame) := by
  induction destinations generalizing frame sentToAny with
  | nil => exact ⟨hframe, trivial⟩
  | cons destination rest ih =>
      refine ⟨hframe, fun sent => ?_⟩
      cases sent with
      | true => exact ih true { hframe with }
      | false => exact ih sentToAny { hframe with }

/-- The packet sequence ends before it wraps to zero. -/
theorem advance_configured (hframe : Configured inetPton config frame.toSender) :
    StaysConfigured inetPton config (advance frame) := by
  rw [advance, Method.bind_apply, Method.self_apply, Process.bind_done]
  split
  case isTrue => exact ⟨hframe, fun _ => ⟨hframe, trivial⟩⟩
  case isFalse hlast =>
    refine ⟨{ hframe with packetSequence := ?_ }, trivial⟩
    intro hwrap
    exact hlast ((eq_sub_of_add_eq hwrap).trans (by decide))

theorem deliver_configured (encoded : Except EncodeError Nat)
    (hframe : Configured inetPton config frame.toSender) :
    StaysConfigured inetPton config (deliver encoded frame) := by
  cases encoded with
  | error e => exact ⟨{ hframe with }, trivial⟩
  | ok packetSize =>
      rw [deliver, Method.bind_apply, Method.self_apply, Process.bind_done]
      apply (sendAll_configured _ _ _ hframe).bind
      intro sentToAny frame' hframe' _
      dsimp only
      split
      · exact advance_configured { hframe' with }
      · exact advance_configured { hframe' with }

theorem consume_configured (event : EventView ByteRange)
    (hframe : Configured inetPton config frame.toSender) :
    StaysConfigured inetPton config (consume event frame) := by
  have hcounted : Configured inetPton config
      { frame.toSender with
        stats := { frame.stats with eventsIn := frame.stats.eventsIn + 1 } } := { hframe with }
  rw [consume, Method.bind_apply, count, Method.assign_apply, Process.bind_done]
  apply (encode_configured event hcounted).bind
  intro encoded frame' hframe' _
  exact ⟨hframe', fun _ => deliver_configured encoded hframe'⟩

theorem turn_configured (hframe : Configured inetPton config frame.toSender) :
    StaysConfigured inetPton config (turn frame) := by
  refine ⟨hframe, fun stopRequested => ?_⟩
  cases stopRequested with
  | true => exact ⟨hframe, trivial⟩
  | false =>
      refine ⟨hframe, fun acquired => ?_⟩
      cases acquired with
      | error e =>
          cases e with
          | empty => exact ⟨hframe, trivial⟩
          | closed => exact ⟨hframe, trivial⟩
          | alreadyAcquired => exact ⟨{ hframe with }, trivial⟩
          | invalidSlot => exact ⟨{ hframe with }, trivial⟩
      | ok event => exact consume_configured event hframe

end Sender

/-! ### The thread -/

/-- What a sender has. -/
structure SenderResources where
  name : Name
  object : Object
  descriptor : Descriptor
  address : Address
  size : UInt64
  socketFd : Descriptor
  distinct : descriptor ≠ socketFd

namespace SenderResources

/-- The segment alone. -/
def attachedTable (descriptor : Descriptor) (address : Address) (object : Object) (size : UInt64) :
    Table :=
  (Table.empty.setDescriptor descriptor (some (.object object))).setMapping address
    (some ⟨object, size⟩)

def table (r : SenderResources) : Table :=
  (attachedTable r.descriptor r.address r.object r.size).setDescriptor r.socketFd (some .socket)

def segment (r : SenderResources) : SharedMemorySegment :=
  .mapped r.name r.descriptor r.address r.size false

/-- The object has these resources and is configured. -/
structure Live (r : SenderResources) (inetPton : Bytes → Option UInt32) (config : SenderConfig)
    (sender : SenderObject) : Prop where
  name : r.name = config.ingressShmName
  segment : sender.segment = r.segment
  ingressMemory : sender.ingressMemory = r.address
  ingress : Joined sender.ingress
  udp : sender.udp.socketFd = some r.socketFd
  configured : sender.toSender.Configured inetPton config

variable (r : SenderResources)

theorem table_mapping : r.table.mappings r.address = some ⟨r.object, r.size⟩ :=
  Function.update_self _ _ _

theorem table_socket : r.table.descriptors r.socketFd = some .socket := Function.update_self _ _ _

/-- The mapping may be accessed as a consumer does. -/
theorem memory_uses {access : Access} (haccess : ConsumerAccess access) :
    SenderUses r.table (.own (.memory r.address access)) :=
  ⟨⟨r.object, r.size, r.table_mapping⟩, haccess⟩

end SenderResources

/-- What a move leaves behind. -/
structure SenderRetired (sender : SenderObject) : Prop where
  segment : ∃ leftover, sender.segment = .movedFrom leftover
  udp : sender.udp.socketFd = none

theorem SenderObject.move_retired (sender : SenderObject) (stopRequested : Bool)
    (leftover : Name) : SenderRetired (sender.move stopRequested leftover).2.1 :=
  ⟨⟨leftover, rfl⟩, rfl⟩

namespace SenderResources

variable {r : SenderResources} {inetPton : Bytes → Option UInt32} {config : SenderConfig}
variable {self : RunningSender} {h : Table}

/-- The thread has its resources. -/
def Has (r : SenderResources) (inetPton : Bytes → Option UInt32) (config : SenderConfig)
    (self : RunningSender) (h : Table) : Prop :=
  r.Live inetPton config self.toSenderObject ∧ h = r.table

/-- The thread uses only what it has. -/
def Control (r : SenderResources) (inetPton : Bytes → Option UInt32) (config : SenderConfig)
    (self : RunningSender) (op : HostedOp senderOwnAccess) (h : Table) : Prop :=
  r.Has inetPton config self h ∧ SenderUses h op

theorem onIngress_has {call : Method spanAccess SpscRing α}
    (hcall : ∀ ring, Joined ring → Consumes Joined (fun _ => True) (call ring))
    (hhas : r.Has inetPton config self h) :
    (RunningSender.onIngress call self).Meets (senderHostEnvironment fun _ => True)
      (r.Control inetPton config) (fun _ => r.Has inetPton config) h := by
  have hlive := hhas.1
  apply ((hcall self.ingress hlive.ingress).within (I := r.Has inetPton config) ?_ ?_
    hhas).mono_post
  · rintro - self' h' ⟨-, hhas'⟩
    exact hhas'
  · rintro ring self' h' hring ⟨hlive', rfl⟩
    exact ⟨{ hlive' with ingress := hring }, rfl⟩
  · rintro access self' h' haccess ⟨hlive', rfl⟩
    refine ⟨⟨⟨hlive', rfl⟩, ?_⟩, fun _ h'' henv => ⟨hlive', henv.2⟩⟩
    rw [hlive.ingressMemory]
    exact r.memory_uses haccess

theorem perform_has (op : SenderOp) (hhas : r.Has inetPton config self h) :
    (RunningSender.perform op self).Meets (senderHostEnvironment fun _ => True)
      (r.Control inetPton config) (fun _ => r.Has inetPton config) h := by
  cases op with
  | tryAcquire => exact onIngress_has (fun _ => tryAcquire_consumes) hhas
  | release => exact onIngress_has (fun _ => release_consumes) hhas
  | loadStop => exact ⟨⟨hhas, trivial⟩, fun _ h' henv => ⟨hhas.1, henv.2.trans hhas.2⟩⟩
  | requestStop => exact ⟨⟨hhas, trivial⟩, fun _ h' henv => ⟨hhas.1, henv.2.trans hhas.2⟩⟩
  | readByte offset =>
      obtain ⟨hlive, rfl⟩ := hhas
      refine ⟨⟨⟨hlive, rfl⟩, ?_⟩, fun _ h' henv => ⟨hlive, henv.2⟩⟩
      rw [hlive.ingressMemory]
      exact r.memory_uses fun hstore => Bool.noConfusion hstore
  | sendTo datagram destination =>
      obtain ⟨hlive, rfl⟩ := hhas
      refine ⟨⟨⟨hlive, rfl⟩, ?_⟩, ?_⟩
      · exact ⟨r.socketFd, hlive.udp, r.table_socket⟩
      rintro sent h' ⟨-, rfl⟩
      cases sent with
      | error errno => exact ⟨hlive, rfl⟩
      | ok sent =>
          dsimp only [Process.bind_done]
          split
          · exact ⟨hlive, rfl⟩
          · exact ⟨hlive, rfl⟩

theorem onThread_has {part : Method senderAccess SenderFrame α}
    (hpart : ∀ frame : SenderFrame, frame.toSender.Configured inetPton config →
      Sender.StaysConfigured inetPton config (part frame))
    (hhas : r.Has inetPton config self h) :
    (RunningSender.onThread part self).Meets (senderHostEnvironment fun _ => True)
      (r.Control inetPton config) (fun _ => r.Has inetPton config) h := by
  apply ((hpart self.frame hhas.1.configured).within (I := r.Has inetPton config) ?_ ?_
    hhas).mono_post
  · rintro - self' h' ⟨-, hhas'⟩
    exact hhas'
  · rintro frame self' h' hframe ⟨hlive, rfl⟩
    exact ⟨{ hlive with configured := hframe }, rfl⟩
  · intro op self' h' hhas'
    exact perform_has op hhas'

/-- `run` keeps what the sender has. -/
def running (r : SenderResources) (inetPton : Bytes → Option UInt32) (config : SenderConfig) :
    RunningSender.run.Contract (senderHostEnvironment fun _ => True) where
  control := r.Control inetPton config
  head := r.Has inetPton config
  exit := r.Has inetPton config
  final := r.Has inetPton config
  body hhas := by
    apply (onThread_has (fun _ => Sender.turn_configured) hhas).mono_post
    intro goesOn self h hhas'
    cases goesOn with
    | true => exact hhas'
    | false => exact hhas'
  after hhas := onThread_has (fun _ hframe => ⟨hframe, trivial⟩) hhas

end SenderResources

/-- A sender that was moved from looks at its stop flag, and returns. -/
def senderRetiredRun : RunningSender.run.Contract (senderHostEnvironment (· = true)) where
  control self op h := (SenderRetired self.toSenderObject ∧ h = .empty) ∧ op = .own .loadStop
  head self h := SenderRetired self.toSenderObject ∧ h = .empty
  exit self h := SenderRetired self.toSenderObject ∧ h = .empty
  final self h := SenderRetired self.toSenderObject ∧ h = .empty
  body := by
    rintro self h ⟨hretired, rfl⟩
    refine ⟨⟨⟨{ hretired with }, rfl⟩, rfl⟩, ?_⟩
    rintro stopRequested h' ⟨rfl, rfl⟩
    exact ⟨{ hretired with }, rfl⟩
  after := by
    rintro self h ⟨hretired, rfl⟩
    exact ⟨{ hretired with }, rfl⟩

/-! ### The socket and the segment -/

section Members

variable {l : ℓ} {h : Table} {socketFd : Descriptor}

theorem UdpSender.open_keeps (h : Table) :
    Keeps True (UdpSender.open l) h (fun result h' =>
      (∃ e, result = .error e ∧ h' = h) ∨ ∃ udp socketFd, result = .ok udp ∧
        udp.socketFd = some socketFd ∧ h.descriptors socketFd = none ∧
        h' = h.setDescriptor socketFd (some .socket)) := by
  apply Method.perform_meets trivial
  intro result h1 henv
  obtain ⟨e, rfl, rfl⟩ | ⟨socketFd, rfl, hfree, rfl⟩ := henv.socket
  · exact .inl ⟨_, rfl, rfl⟩
  · exact .inr ⟨_, socketFd, rfl, rfl, hfree, rfl⟩

theorem UdpSender.open_avoids : (UdpSender.open l).Avoids Op.alters := by
  refine ⟨rfl, fun result => ?_⟩
  cases result with
  | error errno => trivial
  | ok socketFd => trivial

theorem UdpSender.destroy_keeps {udp : UdpSender} (hudp : udp.socketFd = some socketFd)
    (hopen : h.descriptors socketFd ≠ none) :
    Keeps True (udp.destroy l) h (fun _ h' => h' = h.setDescriptor socketFd none) := by
  rw [UdpSender.destroy, hudp]
  apply Method.perform_meets hopen
  intro result h1 henv
  exact henv.close.1

theorem UdpSender.destroy_avoids (udp : UdpSender) : (udp.destroy l).Avoids Op.alters := by
  rw [UdpSender.destroy]
  cases udp.socketFd with
  | none => trivial
  | some socketFd => exact ⟨rfl, fun _ => trivial⟩

theorem attachShm_avoids (name : Name) :
    (SharedMemorySegment.attachShm name l).Avoids Op.alters := by
  rw [SharedMemorySegment.attachShm]
  split
  · trivial
  refine ⟨rfl, fun opened => ?_⟩
  cases opened with
  | error errno => trivial
  | ok descriptor =>
      refine ⟨rfl, fun status => ?_⟩
      cases status with
      | error errno => exact ⟨rfl, fun _ => trivial⟩
      | ok status =>
          dsimp only [Process.bind_done]
          split
          · exact ⟨rfl, fun _ => trivial⟩
          · refine ⟨rfl, fun mapping => ?_⟩
            cases mapping with
            | error errno => exact ⟨rfl, fun _ => trivial⟩
            | ok mapping => trivial

theorem closeDescriptor_eq {segment : SharedMemorySegment} {d : Descriptor}
    (hdescriptor : segment.descriptor = some d) :
    segment.closeDescriptor l = .step l (.close d) fun closed =>
      .done ({ segment with descriptor := none },
        match closed with
        | .error errno => errno
        | .ok _ => 0) l := by
  rw [SharedMemorySegment.closeDescriptor, hdescriptor]
  refine congrArg (Process.step (S := posixAccess) l (.close d)) (funext fun closed => ?_)
  cases closed with
  | error errno => rfl
  | ok v => rfl

/-- The destructor of a segment that was attached. -/
theorem destroy_segment {segment : SharedMemorySegment} {a : Address} {d : Descriptor}
    (haddress : segment.address = some a) (hdescriptor : segment.descriptor = some d) :
    segment.destroy l = .step l (.munmap a segment.size) fun _ =>
      .step l (.close d) fun _ => .done () l := by
  have hreturn : ∀ (segment : SharedMemorySegment) (unmapError closeError : Errno),
      ((if unmapError ≠ 0 then pure (segment, .error ⟨.unmap, unmapError⟩)
        else if closeError ≠ 0 then pure (segment, .error ⟨.close, closeError⟩)
        else pure (segment, .ok ()) : Method posixAccess ℓ
          (SharedMemorySegment × Except SegmentError Unit)) l).bind
        (fun _ l => Process.done () l) = .done () l := by
    intro segment unmapError closeError
    split
    · rfl
    · split
      · rfl
      · rfl
  rw [SharedMemorySegment.destroy, SharedMemorySegment.closeShm, SharedMemorySegment.unmap,
    haddress]
  refine congrArg (Process.step (S := posixAccess) l (.munmap a segment.size))
    (funext fun unmapped => ?_)
  cases unmapped with
  | error e =>
      simp only [Process.bind_done, Method.bind_apply, Method.pure_apply,
        closeDescriptor_eq hdescriptor, Process.bind_step]
      exact congrArg (Process.step (S := posixAccess) l (.close d))
        (funext fun closed => hreturn _ _ _)
  | ok v =>
      have hclose := closeDescriptor_eq (l := l)
        (show ({ segment with address := none, size := 0 } : SharedMemorySegment).descriptor =
          some d from hdescriptor)
      simp only [Process.bind_done, Method.bind_apply, Method.pure_apply, hclose,
        Process.bind_step]
      exact congrArg (Process.step (S := posixAccess) l (.close d))
        (funext fun closed => hreturn _ _ _)

end Members

/-! ### The destructor -/

section Destructor

variable {l : ℓ} {r : SenderResources} {sender : SenderObject}
variable {inetPton : Bytes → Option UInt32} {config : SenderConfig}

/-- The accesses of the destructor of an object, in order. -/
def SenderObject.farewell (self : SenderObject) : List (HostedOp senderOwnAccess) :=
  self.udp.socketFd.toList.map (fun socketFd => .system (.close socketFd)) ++
  self.segment.address.toList.map (fun a => .system (.munmap a self.segment.size)) ++
  self.segment.descriptor.toList.map fun d => .system (.close d)

/-- An object that was moved from has nothing to give back. -/
theorem SenderRetired.destroy (hretired : SenderRetired sender) :
    sender.destroy l = .done () l ∧ sender.farewell = [] := by
  obtain ⟨⟨leftover, hsegment⟩, hudp⟩ := hretired
  constructor
  · rw [SenderObject.destroy, hsegment, UdpSender.destroy, hudp]
    rfl
  · rw [SenderObject.farewell, hsegment, hudp]
    rfl

/-- The table and the accesses that were performed. -/
def senderFarewellEnvironment :
    Environment senderHostAccess (Table × List (HostedOp senderOwnAccess)) := fun op r h h' =>
  senderHostEnvironment (fun _ => True) op r h.1 h'.1 ∧ h'.2 = h.2 ++ [op]

namespace SenderResources

/-- The accesses of the destructor. -/
def farewell (r : SenderResources) : List (HostedOp senderOwnAccess) :=
  [.system (.close r.socketFd), .system (.munmap r.address r.size),
    .system (.close r.descriptor)]

theorem Live.farewell (hlive : r.Live inetPton config sender) : sender.farewell = r.farewell := by
  rw [SenderObject.farewell, hlive.segment, hlive.udp]
  rfl

/-- The rest of the destructor performs the rest of its accesses, one after the other. -/
def Leaving (r : SenderResources) (p : Process senderHostAccess Unit Unit)
    (log : List (HostedOp senderOwnAccess)) (h : Table) : Prop :=
  p.Meets senderFarewellEnvironment
    (fun _ op x => SenderUses x.1 op ∧ x.2 ++ [op] <+: r.farewell)
    (fun _ _ x => x.1 = .empty ∧ x.2 = r.farewell) (h, log)

theorem Leaving.log {p : Process senderHostAccess Unit Unit}
    {log : List (HostedOp senderOwnAccess)} {h : Table} (hleaving : r.Leaving p log h) :
    log <+: r.farewell := by
  cases p with
  | done a l =>
      obtain ⟨-, rfl⟩ := hleaving
      exact List.prefix_refl _
  | step l op next => exact (List.prefix_append log [op]).trans hleaving.1.2

/-- One access of the destructor. -/
theorem leaving_step {op : Op} {next : op.Res → Process senderHostAccess Unit Unit}
    {log : List (HostedOp senderOwnAccess)} {h : Table}
    (huses : SenderUses h (.system op)) (hlog : log ++ [.system op] <+: r.farewell)
    (hnext : ∀ result h', Posix.environment True op result h h' →
      r.Leaving (next result) (log ++ [.system op]) h') :
    r.Leaving (.step () (.system op) next) log h := by
  refine ⟨⟨huses, hlog⟩, ?_⟩
  rintro result ⟨h', log'⟩ ⟨henv, rfl⟩
  exact hnext result h' henv

/-- What is left when everything was given back. -/
theorem table_givenBack (r : SenderResources) :
    ((r.table.setDescriptor r.socketFd none).setMapping r.address none).setDescriptor
      r.descriptor none = .empty := by
  apply Table.ext
  · rfl
  · change Function.update (Function.update (Function.update (Function.update _ _ _) _ _) _ _)
      _ _ = _
    rw [Function.update_idem, Function.update_comm r.distinct, Function.update_idem]
    simp [Table.empty]
  · exact (Function.update_idem _ _ _).trans (Function.update_eq_self r.address _)

theorem Live.destroy (hlive : r.Live inetPton config sender) :
    r.Leaving (sender.destroy ()) [] r.table := by
  have haddress : sender.segment.address = some r.address := by
    rw [hlive.segment]
    rfl
  have hdescriptor : sender.segment.descriptor = some r.descriptor := by
    rw [hlive.segment]
    rfl
  have hsize : sender.segment.size = r.size := by
    rw [hlive.segment]
    rfl
  rw [SenderObject.destroy, destroy_segment haddress hdescriptor, hsize, UdpSender.destroy,
    hlive.udp]
  have hsocket : SenderUses r.table (.system (.close r.socketFd)) :=
    ⟨by simp [Allowed, r.table_socket], rfl⟩
  apply leaving_step hsocket ⟨_, rfl⟩
  rintro result h1 henv
  obtain ⟨rfl, -⟩ := henv.close
  have hmapping : SenderUses (r.table.setDescriptor r.socketFd none)
      (.system (.munmap r.address r.size)) := ⟨⟨r.object, r.table_mapping⟩, rfl⟩
  apply leaving_step hmapping ⟨_, rfl⟩
  rintro result h2 henv
  obtain ⟨e, -, -, hunreliable⟩ | ⟨rfl, rfl⟩ := henv.munmap
  · exact absurd trivial hunreliable
  have hclose : SenderUses ((r.table.setDescriptor r.socketFd none).setMapping r.address none)
      (.system (.close r.descriptor)) := by
    refine ⟨?_, rfl⟩
    simp [Allowed, table, attachedTable, Function.update_of_ne r.distinct]
  apply leaving_step hclose ⟨_, rfl⟩
  rintro result h3 henv
  obtain ⟨rfl, -⟩ := henv.close
  exact ⟨r.table_givenBack, rfl⟩

end SenderResources

end Destructor

/-! ### `initialize` -/

section Initialize

variable {h : Table} {inetPton : Bytes → Option UInt32} {config : SenderConfig}
variable {self : InitializingSender}

namespace InitializingSender

/-- The caller uses only what it has. -/
abbrev Control (_ : InitializingSender) (op : HostedOp senderOwnAccess) (h : Table) : Prop :=
  SenderUses h op

/-- The configuration was checked, and its addresses are known. -/
structure Checked (inetPton : Bytes → Option UInt32) (config : SenderConfig)
    (locals : InitializingSender) : Prop where
  called : locals.config = config
  valid : config.Valid
  destinations : parseReceivers inetPton config.receivers = .ok locals.destinations
  result : locals.result = none

/-- There are a segment, a ring and a socket, and no result yet. -/
structure Open (inetPton : Bytes → Option UInt32) (config : SenderConfig)
    (locals : InitializingSender) (r : SenderResources) : Prop
    extends Checked inetPton config locals where
  name : r.name = config.ingressShmName
  segment : locals.segment = r.segment
  ingress : Joined locals.ingress
  udp : locals.udp.socketFd = some r.socketFd

/-- An error is returned, and there is nothing. -/
def Failed (self : InitializingSender) (h : Table) : Prop :=
  (∃ e, self.result = some (.error e)) ∧ h = .empty

/-- A sender with its resources is returned. -/
def Succeeded (inetPton : Bytes → Option UInt32) (config : SenderConfig)
    (self : InitializingSender) (h : Table) : Prop :=
  ∃ (sender : SenderObject) (r : SenderResources), self.result = some (.ok sender) ∧
    r.Live inetPton config sender ∧ h = r.table

/-- What holds in front of the loop that draws the session. -/
def Head (inetPton : Bytes → Option UInt32) (config : SenderConfig) (self : InitializingSender)
    (h : Table) : Prop :=
  ∃ r, self.Open inetPton config r ∧ h = r.table

/-- What holds behind it: a session was drawn, or there is an error. -/
def Exit (inetPton : Bytes → Option UInt32) (config : SenderConfig) (self : InitializingSender)
    (h : Table) : Prop :=
  (Head inetPton config self h ∧ self.sessionId ≠ 0) ∨ Failed self h

def Turned (inetPton : Bytes → Option UInt32) (config : SenderConfig) (goesOn : Bool)
    (self : InitializingSender) (h : Table) : Prop :=
  if goesOn = true then Head inetPton config self h else Exit inetPton config self h

theorem onSenderSystem_meets {p : Process posixAccess ℓ' α} {post : α → Table → Prop}
    (hp : Keeps True p h post) (havoids : p.Avoids Op.alters) :
    (onSenderSystem p self).Meets (senderHostEnvironment fun _ => True) Control
      (fun a self' h' => self' = self ∧ post a h') h :=
  HostedOp.callSystem_meets hp havoids fun _ _ hallowed hkind => ⟨hallowed, hkind⟩

theorem destroyAttached_keeps {name : Name} {d : Descriptor} {a : Address} {o : Object}
    {size : UInt64} {l : ℓ} :
    Keeps True ((SharedMemorySegment.mapped name d a size false).destroy l)
      (SenderResources.attachedTable d a o size) (fun _ h' => h' = .empty) := by
  rw [destroy_segment rfl rfl]
  refine ⟨⟨o, Function.update_self _ _ _⟩, ?_⟩
  rintro result h1 henv
  obtain ⟨e, -, -, hunreliable⟩ | ⟨rfl, rfl⟩ := henv.munmap
  · exact absurd trivial hunreliable
  refine ⟨?_, ?_⟩
  · simp [Allowed, SenderResources.attachedTable]
  rintro result h2 henv
  obtain ⟨rfl, -⟩ := henv.close
  apply Table.ext
  · rfl
  · exact (Function.update_idem _ _ _).trans (Function.update_eq_self d _)
  · exact (Function.update_idem _ _ _).trans (Function.update_eq_self a _)

theorem destroyAttached_avoids {name : Name} {d : Descriptor} {a : Address} {size : UInt64}
    {l : ℓ} : ((SharedMemorySegment.mapped name d a size false).destroy l).Avoids Op.alters := by
  rw [destroy_segment rfl rfl]
  exact ⟨rfl, fun _ => ⟨rfl, fun _ => trivial⟩⟩

/-- The destructor of the segment, and an error; there is no socket yet. -/
theorem abandon_unopened {d : Descriptor} {a : Address} {o : Object} {size : UInt64} (e : InitError)
    (hsegment : self.segment = .mapped config.ingressShmName d a size false)
    (hudp : self.udp.socketFd = none) :
    (abandon e self).Meets (senderHostEnvironment fun _ => True) Control
      (fun goesOn self' h' => goesOn = false ∧ Failed self' h')
      (SenderResources.attachedTable d a o size) := by
  rw [abandon, Method.bind_apply, Method.self_apply, Process.bind_done, UdpSender.destroy, hudp,
    hsegment]
  apply (onSenderSystem_meets destroyAttached_keeps destroyAttached_avoids).bind
  rintro - self' h' ⟨rfl, rfl⟩
  exact ⟨rfl, ⟨e, rfl⟩, rfl⟩

/-- The destructors of the socket and the segment, and an error. -/
theorem abandon_meets (e : InitError) {r : SenderResources} (hsegment : self.segment = r.segment)
    (hudp : self.udp.socketFd = some r.socketFd) :
    (abandon e self).Meets (senderHostEnvironment fun _ => True) Control
      (fun goesOn self' h' => goesOn = false ∧ Failed self' h') r.table := by
  have hopen : r.table.descriptors r.socketFd ≠ none := by simp [r.table_socket]
  apply (onSenderSystem_meets (UdpSender.destroy_keeps hudp hopen)
    (UdpSender.destroy_avoids _)).bind
  rintro - self' h' ⟨rfl, rfl⟩
  have hleft : r.table.setDescriptor r.socketFd none =
      SenderResources.attachedTable r.descriptor r.address r.object r.size := by
    apply Table.setDescriptor_undo
    exact (Function.update_of_ne r.distinct.symm _ _).trans rfl
  rw [hleft, hsegment]
  apply (onSenderSystem_meets destroyAttached_keeps destroyAttached_avoids).bind
  rintro - self'' h'' ⟨rfl, rfl⟩
  exact ⟨rfl, ⟨e, rfl⟩, rfl⟩

theorem drawSessionId_meets (hhead : Head inetPton config self h) :
    (drawSessionId self).Meets (senderHostEnvironment fun _ => True) Control
      (Turned inetPton config) h := by
  obtain ⟨r, hopen, rfl⟩ := hhead
  have hclosed : ∀ e, (abandon e self).Meets (senderHostEnvironment fun _ => True) Control
      (Turned inetPton config) r.table := by
    intro e
    apply (abandon_meets e hopen.segment hopen.udp).mono_post
    rintro goesOn self' h' ⟨rfl, hfailed⟩
    exact .inr hfailed
  refine ⟨⟨trivial, rfl⟩, ?_⟩
  intro result h' henv
  obtain rfl := Posix.environment.same henv (fun k => by cases result <;> rfl)
  cases result with
  | error errno =>
      simp only [Process.bind_done]
      split
      · exact ⟨r, hopen, rfl⟩
      · exact hclosed .sessionId
  | ok bytes =>
      simp only [Process.bind_done]
      split
      · exact hclosed .sessionId
      · have hassigned : Open inetPton config
            { self with sessionId := .ofNat (leNat bytes) } r := { hopen with }
        rw [Method.bind_apply, Method.assign_apply, Process.bind_done, Method.pure_apply]
        change Turned inetPton config _ _ _
        rw [Turned]
        split
        case isTrue => exact ⟨r, hassigned, rfl⟩
        case isFalse hdrawn =>
          exact .inl ⟨⟨r, hassigned, rfl⟩, fun hzero => hdrawn (decide_eq_true hzero)⟩

/-- What `succeed` returns has all the resources. -/
theorem succeed_meets (hexit : Exit inetPton config self h) :
    (succeed self).Meets (senderHostEnvironment fun _ => True) Control
      (fun _ self' h' => Failed self' h' ∨ Succeeded inetPton config self' h') h := by
  rw [succeed, Method.bind_apply, Method.self_apply, Process.bind_done]
  obtain ⟨⟨r, hopen, rfl⟩, hdrawn⟩ | hfailed := hexit
  · rw [hopen.result]
    dsimp only
    rw [Option.isSome_none, if_neg Bool.false_ne_true, Method.bind_apply,
      (SenderObject.move_retired _ false []).destroy.1]
    refine .inr ⟨_, r, rfl, ?_, rfl⟩
    exact
      { name := hopen.name
        segment := hopen.segment
        ingressMemory := by
          change self.segment.address.getD 0 = r.address
          rw [hopen.segment]
          rfl
        ingress := hopen.ingress
        udp := hopen.udp
        configured :=
          { valid := hopen.valid
            maxDatagramBytes := congrArg SenderConfig.maxDatagramBytes hopen.called
            destinations := hopen.destinations
            sessionId := hdrawn
            packetSequence := (by decide : (1 : UInt64) ≠ 0) } }
  · obtain ⟨⟨e, hresult⟩, rfl⟩ := hfailed
    rw [hresult]
    exact .inl ⟨⟨e, hresult⟩, rfl⟩

theorem openIngress_meets {d : Descriptor} {a : Address} {o : Object} {size : UInt64}
    (hchecked : Checked inetPton config self) (hudp : self.udp.socketFd = none) :
    (openIngress (.mapped config.ingressShmName d a size false) self).Meets
      (senderHostEnvironment fun _ => True) Control (Turned inetPton config)
      (SenderResources.attachedTable d a o size) := by
  have hclosed : ∀ (e : InitError) (self : InitializingSender),
      self.segment = .mapped config.ingressShmName d a size false → self.udp.socketFd = none →
      (abandon e self).Meets (senderHostEnvironment fun _ => True) Control (Turned inetPton config)
        (SenderResources.attachedTable d a o size) := by
    intro e self hsegment hudp
    apply (abandon_unopened e hsegment hudp).mono_post
    rintro goesOn self' h' ⟨rfl, hfailed⟩
    exact .inr hfailed
  rw [openIngress, Method.bind_apply, Method.assign_apply, Process.bind_done]
  have hmapping : ∃ o' length, (SenderResources.attachedTable d a o size).mappings a =
      some ⟨o', length⟩ := ⟨o, size, Function.update_self _ _ _⟩
  apply (onMapping_looks (attach_looks _) fun _ haccess => ⟨hmapping, haccess⟩).bind
  rintro attached self' h' ⟨hjoined, rfl, rfl⟩
  cases attached with
  | error e => exact hclosed _ _ rfl hudp
  | ok ingress =>
      apply (onSenderSystem_meets (UdpSender.open_keeps _) UdpSender.open_avoids).bind
      rintro opened self'' h'' ⟨rfl, ⟨e, rfl, rfl⟩ | ⟨udp, socketFd, rfl, hsocket, hfree, rfl⟩⟩
      · exact hclosed _ _ rfl hudp
      · have hdistinct : d ≠ socketFd := by
          rintro rfl
          simp [SenderResources.attachedTable] at hfree
        refine ⟨⟨config.ingressShmName, o, d, a, size, socketFd, hdistinct⟩, ?_, rfl⟩
        exact { hchecked with
          name := rfl
          segment := rfl
          ingress := hjoined ingress rfl
          udp := hsocket }

/-- Nothing is acquired for a configuration that is not valid. -/
theorem prepare_meets (inetPton : Bytes → Option UInt32) (config : SenderConfig) :
    (prepare inetPton { config }).Meets (senderHostEnvironment fun _ => True) Control
      (Turned inetPton config) .empty := by
  have hfail : ∀ (e : InitError) (self : InitializingSender),
      (fail e self).Meets (senderHostEnvironment fun _ => True) Control (Turned inetPton config)
        .empty := fun e self => .inr ⟨⟨e, rfl⟩, rfl⟩
  rw [prepare, Method.bind_apply, Method.self_apply, Process.bind_done]
  dsimp only
  split
  case isTrue => exact hfail _ _
  case isFalse hvalid =>
    cases hparse : parseReceivers inetPton config.receivers with
    | error e => exact hfail _ _
    | ok destinations =>
        dsimp only
        rw [Method.bind_apply, Method.assign_apply, Process.bind_done]
        apply (onSenderSystem_meets (SharedMemorySegment.attachShm_keeps _ _)
          (attachShm_avoids _)).bind
        rintro result self' h' ⟨rfl, hattached⟩
        cases result with
        | error e =>
            obtain rfl := hattached
            exact hfail _ _
        | ok segment =>
            obtain ⟨d, o, a, size, rfl, -, -, rfl⟩ := hattached
            refine openIngress_meets ?_ rfl
            simp only [not_or, not_not, UInt32.not_lt] at hvalid
            obtain ⟨hname, hreceivers, hleast, hmost, hmode, hcpu⟩ := hvalid
            exact ⟨rfl, ⟨hname, hreceivers, UInt32.le_iff_toNat_le.mp hleast,
              UInt32.le_iff_toNat_le.mp hmost, hmode, hcpu⟩, hparse, rfl⟩

/-- `initialize` returns an error and leaves nothing, or it returns a sender that has
everything. -/
def contract (inetPton : Bytes → Option UInt32) (config : SenderConfig) :
    loop.Contract (senderHostEnvironment fun _ => True) where
  control := Control
  head := Head inetPton config
  exit := Exit inetPton config
  final self h := Failed self h ∨ Succeeded inetPton config self h
  body := drawSessionId_meets
  after := succeed_meets

theorem start_holds (inetPton : Bytes → Option UInt32) (config : SenderConfig) :
    (contract inetPton config).Holds (start inetPton config) .empty :=
  Loop.Contract.settleTurn_holds (prepare_meets inetPton config)

end InitializingSender

end Initialize

end EventEngine
