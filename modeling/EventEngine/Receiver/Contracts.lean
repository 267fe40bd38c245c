import EventEngine.Receiver.Object
import EventEngine.Shm.Contracts

/-!
# What a receiver does to the table of its caller

Giving back succeeds. `initialize` fails with an empty table, or it returns an object that has
the whole table; `run` leaves the table alone, and the destructor empties it in a fixed order.
An object that was moved from has nothing and does nothing.
-/

namespace EventEngine

open Concurrency Memory Posix EventEngine.Ring EventEngine.Shm

/-- Memory is accessed through a mapping of an object that the caller has a name for. -/
def HostAllowed (h : Table) : HostOp → Prop
  | .system op => Allowed h op
  | .memory base _ => ∃ o length name,
      h.mappings base = some ⟨o, length⟩ ∧ h.names name = some o
  | _ => True

/-- Only system calls change the table; `flag` is what is known of the stop flag. -/
def hostEnvironment (flag : Bool → Prop) : Environment hostAccess Table
  | .system op, r, h, h' => Posix.environment True op r h h'
  | .loadStop, r, h, h' => flag r ∧ h' = h
  | _, _, h, h' => h' = h

theorem hostEnvironment.mono {flag flag' : Bool → Prop} {op : HostOp} {result : op.Res}
    {h h' : Table} (henv : hostEnvironment flag op result h h')
    (hflag : ∀ b, flag b → flag' b) : hostEnvironment flag' op result h h' := by
  cases op with
  | loadStop => exact ⟨hflag result henv.1, henv.2⟩
  | system op => exact henv
  | memory base access => exact henv
  | receive socketFd => exact henv

/-- What a receiver has while it owns its segment. -/
structure Resources where
  name : Name
  object : Object
  descriptor : Descriptor
  address : Address
  size : UInt64
  socketFd : Descriptor
  distinct : descriptor ≠ socketFd

namespace Resources

/-- The socket alone. -/
def socketTable (socketFd : Descriptor) : Table :=
  Table.empty.setDescriptor socketFd (some .socket)

def table (r : Resources) : Table :=
  (((socketTable r.socketFd).setName r.name (some r.object)).setDescriptor r.descriptor
    (some (.object r.object))).setMapping r.address (some ⟨r.object, r.size⟩)

def segment (r : Resources) : SharedMemorySegment :=
  .mapped r.name r.descriptor r.address r.size true

/-- The object has these resources. -/
structure Live (r : Resources) (receiver : ReceiverObject) : Prop where
  segment : receiver.segment = r.segment
  egressMemory : receiver.egressMemory = r.address
  header : receiver.egress.header = some 0
  initializer : receiver.egress.initializer = true
  udp : receiver.udp.socketFd = some r.socketFd

variable (r : Resources)

theorem table_name : r.table.names r.name = some r.object := Function.update_self _ _ _

theorem table_mapping : r.table.mappings r.address = some ⟨r.object, r.size⟩ :=
  Function.update_self _ _ _

/-- What is left without the segment. -/
theorem table_cleanedUp :
    ((r.table.setName r.name none).setMapping r.address none).setDescriptor r.descriptor none =
      socketTable r.socketFd := by
  apply Table.ext
  · exact (Function.update_idem _ _ _).trans (Function.update_eq_self r.name _)
  · apply (Function.update_idem _ _ _).trans
    apply Function.update_eq_self_iff.mpr
    simp [socketTable, Function.update_of_ne r.distinct]
  · exact (Function.update_idem _ _ _).trans (Function.update_eq_self r.address _)

/-- What is left when everything was given back. -/
theorem table_givenBack :
    (((r.table.setName r.name none).setDescriptor r.socketFd none).setMapping r.address
      none).setDescriptor r.descriptor none = .empty := by
  have hcomm : (((r.table.setName r.name none).setDescriptor r.socketFd none).setMapping r.address
      none).setDescriptor r.descriptor none =
      (((r.table.setName r.name none).setMapping r.address none).setDescriptor r.descriptor
        none).setDescriptor r.socketFd none := by
    apply Table.ext
    · rfl
    · exact Function.update_comm r.distinct.symm _ _ _
    · rfl
  rw [hcomm, r.table_cleanedUp]
  exact Table.setDescriptor_undo (t := .empty) rfl _

/-- The mapping may be accessed. -/
theorem memory_allowed (access : Access) : HostAllowed r.table (.memory r.address access) :=
  ⟨r.object, r.size, r.name, r.table_mapping, r.table_name⟩

end Resources

/-- What a move leaves behind. -/
structure Retired (receiver : ReceiverObject) : Prop where
  segment : ∃ leftover, receiver.segment = .movedFrom leftover
  initializer : receiver.egress.initializer = false
  udp : receiver.udp.socketFd = none

theorem ReceiverObject.move_retired (receiver : ReceiverObject) (stopRequested : Bool)
    (leftover : Name) : Retired (receiver.move stopRequested leftover).2.1 :=
  ⟨⟨leftover, rfl⟩, rfl, rfl⟩

section Embedding

variable {ℓ ℓ' α : Type} {flag : Bool → Prop} {h : Table} {l : ℓ}
variable {control : ℓ → HostOp → Table → Prop}

/-- A process that only calls the system keeps its contract on the host. -/
theorem onSystem_meets {p : Process posixAccess ℓ' α} {post : α → Table → Prop}
    (hp : Keeps True p h post)
    (hcontrol : ∀ op h, Allowed h op → control l (.system op) h) :
    (HostOp.onSystem p l).Meets (hostEnvironment flag) control
      (fun a l' h' => l' = l ∧ post a h') h := by
  apply Process.Meets.within (f := fun h => h) hp
  intro op h hallowed
  exact ⟨hcontrol op h hallowed, fun r h' henv => ⟨rfl, henv⟩⟩

/-- A process on a mapping leaves the table alone. -/
theorem onMapping_meets {base : Address} {p : Process spanAccess ℓ' α} {good : α → Prop}
    (hp : p.Results good) (hcontrol : ∀ access, control l (.memory base access) h) :
    (HostOp.onMapping base p l).Meets (hostEnvironment flag) control
      (fun a l' h' => good a ∧ l' = l ∧ h' = h) h := by
  apply (Process.Along.of_results hp).within (I := fun l' h' => l' = l ∧ h' = h)
  · intro _ l' h' _ hsame
    exact hsame
  · rintro access l' h' ⟨rfl, rfl⟩
    exact ⟨hcontrol access, fun r h' henv => ⟨rfl, henv⟩⟩
  · exact ⟨rfl, rfl⟩

end Embedding

/-! ### The thread -/

section Thread

/-- The handle is one that may close the ring. -/
def Closes (ring : SpscRing) : Prop := ring.header = some 0 ∧ ring.initializer = true

variable {ring : SpscRing} {α : Type}

theorem copyPayload_along (offset : Nat) (payload : Bytes) (hring : Closes ring) :
    (copyPayload offset payload ring).Along Closes fun _ => True := by
  induction payload generalizing offset with
  | nil => exact ⟨hring, trivial⟩
  | cons b rest ih => exact ⟨hring, fun _ => ih (offset + 1)⟩

theorem publishAt_along (self : SpscRing) (header : Nat) (writePos : UInt64) (event : Event)
    (hring : Closes ring) :
    (self.publishAt header writePos event ring).Along Closes fun _ => True := by
  have hfill : (fillSlotHeader (self.slotAddress writePos) event ring).Along Closes
      fun _ => True := by
    exact ⟨hring, fun _ => ⟨hring, fun _ => ⟨hring, fun _ => ⟨hring, fun _ => ⟨hring, trivial⟩⟩⟩⟩⟩
  apply hfill.bind
  rintro - ring' hring' -
  apply (copyPayload_along _ event.payload hring').bind
  rintro - ring'' hring'' -
  exact ⟨hring'', fun _ => ⟨hring'', trivial⟩⟩

theorem loadU32_along {offset : Nat} {next : UInt32 → Method spanAccess SpscRing α}
    {good : α → Prop} (hring : Closes ring) (hnext : ∀ v, (next v ring).Along Closes good) :
    ((loadU32 offset >>= next) ring).Along Closes good :=
  ⟨hring, fun _ => hnext _⟩

theorem loadU64_along {offset : Nat} {next : UInt64 → Method spanAccess SpscRing α}
    {good : α → Prop} (hring : Closes ring) (hnext : ∀ v, (next v ring).Along Closes good) :
    ((loadU64 offset >>= next) ring).Along Closes good :=
  ⟨hring, fun _ => hnext _⟩

/-- A publication keeps the handle that may close the ring. -/
theorem tryPublish_along (event : Event) (hring : Closes ring) :
    (SpscRing.tryPublish event ring).Along Closes fun _ => True := by
  rw [SpscRing.tryPublish, Method.bind_apply, Method.self_apply, Process.bind_done]
  simp only [hring.1]
  apply loadU32_along hring
  intro state
  split
  · exact ⟨hring, trivial⟩
  split
  · exact ⟨hring, trivial⟩
  apply loadU64_along hring
  intro writePos
  split
  · exact ⟨hring, trivial⟩
  split
  · apply loadU64_along hring
    intro readPos
    have hassigned : Closes { ring with cachedReadPosition := readPos } := hring
    rw [Method.bind_apply, Method.assign_apply, Process.bind_done]
    split
    · exact ⟨hassigned, trivial⟩
    split
    · exact ⟨hassigned, trivial⟩
    · exact publishAt_along _ _ _ event hassigned
  · exact publishAt_along _ _ _ event hring

/-- So does closing it. -/
theorem closePublication_along (hring : Closes ring) :
    (SpscRing.closePublication ring).Along Closes fun _ => True := by
  rw [SpscRing.closePublication, Method.bind_apply, Method.self_apply, Process.bind_done,
    if_pos hring.2]
  exact ⟨hring, fun _ => ⟨hring, trivial⟩⟩

end Thread

section Run

variable {r : Resources} {self : ReceiverObject} {h : Table}

/-- The thread has its resources. -/
def Resources.Has (r : Resources) (self : ReceiverObject) (h : Table) : Prop :=
  r.Live self ∧ h = r.table

/-- The thread uses only what it has. -/
def Resources.Control (r : Resources) (self : ReceiverObject) (op : HostOp) (h : Table) : Prop :=
  r.Has self h ∧ HostAllowed h op

theorem onEgress_has {α : Type} {call : Method spanAccess SpscRing α}
    (hcall : ∀ ring, Closes ring → (call ring).Along Closes fun _ => True)
    (hhas : r.Has self h) :
    (ReceiverObject.onEgress call self).Meets (hostEnvironment fun _ => True) r.Control
      (fun _ => r.Has) h := by
  have hlive := hhas.1
  apply ((hcall self.egress ⟨hlive.header, hlive.initializer⟩).within (I := r.Has) ?_ ?_
    hhas).mono_post
  · rintro - self' h' ⟨-, hhas'⟩
    exact hhas'
  · rintro ring self' h' hring ⟨hlive', rfl⟩
    exact ⟨{ hlive' with header := hring.1, initializer := hring.2 }, rfl⟩
  · rintro access self' h' ⟨hlive', rfl⟩
    refine ⟨⟨⟨hlive', rfl⟩, ?_⟩, fun _ h'' henv => ⟨hlive', henv⟩⟩
    rw [hlive.egressMemory]
    exact r.memory_allowed access

theorem perform_has (op : ReceiverOp) (hhas : r.Has self h) :
    (ReceiverObject.perform op self).Meets (hostEnvironment fun _ => True) r.Control
      (fun _ => r.Has) h := by
  obtain ⟨hlive, rfl⟩ := hhas
  cases op with
  | loadStop => exact ⟨⟨⟨hlive, rfl⟩, trivial⟩, fun _ h' henv => ⟨hlive, henv.2⟩⟩
  | receive => exact ⟨⟨⟨hlive, rfl⟩, trivial⟩, fun _ h' henv => ⟨hlive, henv⟩⟩
  | tryPublish event => exact onEgress_has (fun _ => tryPublish_along event) ⟨hlive, rfl⟩
  | closePublication => exact onEgress_has (fun _ => closePublication_along) ⟨hlive, rfl⟩

theorem onThread_has {α : Type} (part : Method receiverAccess Receiver α) (hhas : r.Has self h) :
    (ReceiverObject.onThread part self).Meets (hostEnvironment fun _ => True) r.Control
      (fun _ => r.Has) h := by
  apply ((Process.Along.trivial (part self.toReceiver)).within (I := r.Has) ?_ ?_ hhas).mono_post
  · rintro - self' h' ⟨-, hhas'⟩
    exact hhas'
  · rintro receiver self' h' - ⟨hlive, rfl⟩
    exact ⟨{ hlive with }, rfl⟩
  · intro op self' h' hhas'
    exact perform_has op hhas'

/-- `run` keeps what the receiver has. -/
def Resources.running (r : Resources) :
    ReceiverObject.run.Contract (hostEnvironment fun _ => True) where
  control := r.Control
  head := r.Has
  exit := r.Has
  final := r.Has
  body hhas := by
    apply (onThread_has _ hhas).mono_post
    intro goesOn self h hhas'
    cases goesOn with
    | true => exact hhas'
    | false => exact hhas'
  after hhas := onThread_has _ hhas

/-- A receiver that was moved from looks at its stop flag, and returns. -/
def retiredRun : ReceiverObject.run.Contract (hostEnvironment (· = true)) where
  control self op h := (Retired self ∧ h = .empty) ∧ op = .loadStop
  head self h := Retired self ∧ h = .empty
  exit self h := Retired self ∧ h = .empty
  final self h := Retired self ∧ h = .empty
  body := by
    rintro self h ⟨hretired, rfl⟩
    have hsame : Retired { self with toReceiver := self.toReceiver } := hretired
    refine ⟨⟨⟨hsame, rfl⟩, rfl⟩, ?_⟩
    rintro stopRequested h' ⟨rfl, rfl⟩
    exact ⟨hsame, rfl⟩
  after := by
    rintro self h ⟨hretired, rfl⟩
    have hclose : SpscRing.closePublication self.egress = .done false self.egress := by
      rw [SpscRing.closePublication, Method.bind_apply, Method.self_apply, Process.bind_done,
        hretired.initializer]
      rfl
    have hafter : ReceiverObject.run.after self = .done () self := by
      simp only [ReceiverObject.run, ReceiverObject.onThread, Receiver.run, Receiver.perform,
        Method.bind_apply, Method.perform_apply, Process.bind_step, Process.within,
        ReceiverObject.perform, ReceiverObject.onEgress, hclose]
      rfl
    rw [hafter]
    exact ⟨hretired, rfl⟩

end Run

/-! ### The destructor -/

section Destructor

variable {ℓ : Type} {l : ℓ} {r : Resources} {receiver : ReceiverObject}

/-- The accesses of the destructor of an object, in order. -/
def ReceiverObject.farewell (self : ReceiverObject) : List HostOp :=
  (if self.segment.owner then
    [.memory self.egressMemory (.store stateOffset (leBytes 4 stateClosed.toNat)),
      .system (.shmUnlink self.segment.name)]
  else []) ++
  self.udp.socketFd.toList.map (fun socketFd => .system (.close socketFd)) ++
  self.segment.address.toList.map (fun a => .system (.munmap a self.segment.size)) ++
  self.segment.descriptor.toList.map fun d => .system (.close d)

/-- An object that was moved from has nothing to give back. -/
theorem Retired.destroy (hretired : Retired receiver) :
    receiver.destroy l = .done () l ∧ receiver.farewell = [] := by
  obtain ⟨⟨leftover, hsegment⟩, -, hudp⟩ := hretired
  constructor
  · rw [ReceiverObject.destroy, hsegment, UdpReceiver.destroy, hudp]
    rfl
  · rw [ReceiverObject.farewell, hsegment, hudp]
    rfl

/-- The table and the accesses that were performed. -/
def farewellEnvironment : Environment hostAccess (Table × List HostOp) := fun op r h h' =>
  hostEnvironment (fun _ => True) op r h.1 h'.1 ∧ h'.2 = h.2 ++ [op]

/-- Everything is there until the ring is closed, and until the name is removed after that. -/
def Resources.Farewell (r : Resources) (log : List HostOp) (h : Table) : Prop :=
  log.length < 2 → h = r.table

/-- The accesses of the destructor. -/
def Resources.farewell (r : Resources) : List HostOp :=
  [.memory r.address (.store stateOffset (leBytes 4 stateClosed.toNat)),
    .system (.shmUnlink r.name), .system (.close r.socketFd),
    .system (.munmap r.address r.size), .system (.close r.descriptor)]

theorem Resources.Live.farewell (hlive : r.Live receiver) : receiver.farewell = r.farewell := by
  rw [ReceiverObject.farewell, hlive.segment, hlive.egressMemory, hlive.udp]
  rfl

/-- The rest of the destructor performs the rest of its accesses, one after the other. -/
def Resources.Leaving (r : Resources) (p : Process hostAccess Unit Unit) (log : List HostOp)
    (h : Table) : Prop :=
  p.Meets farewellEnvironment
    (fun _ op x => HostAllowed x.1 op ∧ x.2 ++ [op] <+: r.farewell ∧ r.Farewell x.2 x.1)
    (fun _ _ x => x.1 = .empty ∧ x.2 = r.farewell) (h, log)

theorem Resources.farewell_all : r.Farewell r.farewell .empty :=
  fun hshort => absurd hshort (by simp [Resources.farewell])

theorem Resources.Leaving.farewell {p : Process hostAccess Unit Unit} {log : List HostOp}
    {h : Table} (hleaving : r.Leaving p log h) : r.Farewell log h ∧ log <+: r.farewell := by
  cases p with
  | done a l =>
      obtain ⟨rfl, rfl⟩ := hleaving
      exact ⟨r.farewell_all, List.prefix_refl _⟩
  | step l op next =>
      obtain ⟨⟨-, hlog, hstage⟩, -⟩ := hleaving
      exact ⟨hstage, (List.prefix_append log [op]).trans hlog⟩

/-- One access of the destructor. -/
theorem Resources.leaving_step {op : HostOp} {next : op.Res → Process hostAccess Unit Unit}
    {log : List HostOp} {h : Table} (hallowed : HostAllowed h op)
    (hlog : log ++ [op] <+: r.farewell) (hstage : r.Farewell log h)
    (hnext : ∀ result h', hostEnvironment (fun _ => True) op result h h' →
      r.Leaving (next result) (log ++ [op]) h') :
    r.Leaving (.step () op next) log h := by
  refine ⟨⟨hallowed, hlog, hstage⟩, ?_⟩
  rintro result ⟨h', log'⟩ ⟨henv, rfl⟩
  exact hnext result h' henv

theorem Resources.Live.destroy (hlive : r.Live receiver) :
    r.Leaving (receiver.destroy ()) [] r.table := by
  have hlong : ∀ (log : List HostOp) (h : Table), 2 ≤ log.length → r.Farewell log h :=
    fun _ _ hlong hshort => absurd hlong (Nat.not_le.mpr hshort)
  have hclose : SpscRing.closePublication receiver.egress = .step receiver.egress
      (.store stateOffset (leBytes 4 stateClosed.toNat)) fun _ => .done true receiver.egress := by
    rw [SpscRing.closePublication, Method.bind_apply, Method.self_apply, Process.bind_done,
      hlive.initializer, hlive.header]
    rfl
  rw [ReceiverObject.destroy, hlive.segment, hlive.egressMemory, UdpReceiver.destroy, hlive.udp,
    hclose]
  apply Resources.leaving_step (r.memory_allowed _) ⟨_, rfl⟩ fun _ => rfl
  rintro _ h1 hsame
  obtain rfl : h1 = r.table := hsame
  have hname : HostAllowed r.table (.system (.shmUnlink r.name)) := by
    simp [HostAllowed, Allowed, r.table_name]
  apply Resources.leaving_step hname ⟨_, rfl⟩ fun _ => rfl
  rintro result h2 henv
  obtain ⟨e, -, -, hunreliable⟩ | ⟨rfl, rfl⟩ := Posix.environment.shmUnlink henv
  · exact absurd trivial hunreliable
  have hsocket : HostAllowed (r.table.setName r.name none) (.system (.close r.socketFd)) := by
    simp [HostAllowed, Allowed, Resources.table, Resources.socketTable,
      Function.update_of_ne r.distinct.symm]
  apply Resources.leaving_step hsocket ⟨_, rfl⟩ (hlong [_, _] _ (Nat.le_refl 2))
  rintro result h3 henv
  obtain ⟨rfl, hok⟩ := Posix.environment.close henv
  obtain rfl := hok trivial
  have hmapping : HostAllowed ((r.table.setName r.name none).setDescriptor r.socketFd none)
      (.system (.munmap r.address r.size)) := ⟨r.object, r.table_mapping⟩
  apply Resources.leaving_step hmapping ⟨_, rfl⟩ (hlong [_, _, _] _ (Nat.le_add_left 2 1))
  rintro result h4 henv
  obtain ⟨e, -, -, hunreliable⟩ | ⟨rfl, rfl⟩ := Posix.environment.munmap henv
  · exact absurd trivial hunreliable
  have hdescriptor : HostAllowed (((r.table.setName r.name none).setDescriptor r.socketFd
      none).setMapping r.address none) (.system (.close r.descriptor)) := by
    simp [HostAllowed, Allowed, Resources.table, Function.update_of_ne r.distinct]
  apply Resources.leaving_step hdescriptor ⟨[], rfl⟩ (hlong [_, _, _, _] _ (Nat.le_add_left 2 2))
  rintro result h5 henv
  obtain ⟨rfl, hok⟩ := Posix.environment.close henv
  obtain rfl := hok trivial
  exact ⟨r.table_givenBack, rfl⟩

end Destructor

/-! ### `initialize` -/

section Initialize

variable {ℓ : Type} {l : ℓ} {h : Table} {config : ReceiverConfig} {self : Initializing}

theorem UdpReceiver.bind_keeps (address : Transport.UdpAddress) (h : Table) :
    Keeps True (UdpReceiver.bind address l) h (fun result h' =>
      (∃ e, result = .error e ∧ h' = h) ∨ ∃ udp socketFd, result = .ok udp ∧
        udp.socketFd = some socketFd ∧ h' = h.setDescriptor socketFd (some .socket)) := by
  have hclose : ∀ (socketFd : Descriptor) (e : Transport.UdpError),
      h.descriptors socketFd = none →
      Keeps True ((do
        let _ ← Shm.perform (.close socketFd)
        return .error e : Method posixAccess ℓ (Except Transport.UdpError UdpReceiver)) l)
        (h.setDescriptor socketFd (some .socket)) (fun result h' =>
          (∃ e, result = .error e ∧ h' = h) ∨ ∃ udp socketFd, result = .ok udp ∧
            udp.socketFd = some socketFd ∧ h' = h.setDescriptor socketFd (some .socket)) := by
    intro socketFd e hfree
    apply Method.perform_meets
    · simp [Allowed]
    intro result h1 henv
    obtain ⟨rfl, -⟩ := henv.close
    exact .inl ⟨e, rfl, Table.setDescriptor_undo hfree _⟩
  apply Method.perform_meets trivial
  intro result h1 henv
  obtain ⟨e, rfl, rfl⟩ | ⟨socketFd, rfl, hfree, rfl⟩ := henv.socket
  · exact .inl ⟨_, rfl, rfl⟩
  apply Method.perform_meets trivial
  intro result h2 henv
  obtain rfl := henv.same (fun k => by cases result <;> rfl)
  cases result with
  | error e => exact hclose socketFd _ hfree
  | ok v =>
      apply Method.perform_meets trivial
      intro result h3 henv
      obtain rfl := henv.same (fun k => by cases result <;> rfl)
      cases result with
      | error e => exact hclose socketFd _ hfree
      | ok localPort => exact .inr ⟨_, socketFd, rfl, rfl, rfl⟩

theorem UdpReceiver.destroy_keeps {udp : UdpReceiver} {socketFd : Descriptor}
    (hudp : udp.socketFd = some socketFd) (hopen : h.descriptors socketFd ≠ none) :
    Keeps True (udp.destroy l) h (fun _ h' => h' = h.setDescriptor socketFd none) := by
  rw [UdpReceiver.destroy, hudp]
  apply Method.perform_meets hopen
  intro result h1 henv
  exact henv.close.1

/-- A ring that `initialize` returns may be closed by the same handle. -/
theorem initializeRing_results (memory : Region) (config : RingConfig) (instanceId : UInt64) :
    (SpscRing.initializeRing memory config instanceId l).Results
      fun result => ∀ ring, result = .ok ring → Closes ring := by
  have herror : ∀ (e : RingError) (ring : SpscRing), .error e = (Except.ok ring :
      Except RingError SpscRing) → Closes ring := by
    intro e ring hring
    cases hring
  rw [SpscRing.initializeRing]
  split
  · exact herror _
  cases requiredBytes sizeBits config with
  | error e => exact herror _
  | ok size =>
      dsimp only
      split
      · exact herror _
      · apply Process.Results.map
        apply Process.Results.bind
        rintro - l1
        apply Process.Results.bind
        rintro - l2
        refine fun _ _ => Process.Results.bind (constructSlots 0 config.slotCount.toNat l2) ?_
        rintro - l3 _ slotCount slotStride slotPayloadCapacity ring hring
        cases hring
        exact ⟨rfl, rfl⟩

namespace Initializing

/-- The caller gives back only what it has. -/
abbrev Control (_ : Initializing) (op : HostOp) (h : Table) : Prop := HostAllowed h op

/-- There is a socket, and no result yet. -/
def Open (config : ReceiverConfig) (self : Initializing) (h : Table) : Prop :=
  self.config = config ∧ self.result = none ∧
    ∃ socketFd, self.udp.socketFd = some socketFd ∧ h = Resources.socketTable socketFd

/-- An error is returned, and there is nothing. -/
def Failed (self : Initializing) (h : Table) : Prop :=
  (∃ e, self.result = some (.error e)) ∧ h = .empty

/-- A receiver with its resources is returned. -/
def Succeeded (config : ReceiverConfig) (self : Initializing) (h : Table) : Prop :=
  ∃ (receiver : ReceiverObject) (r : Resources), self.result = some (.ok receiver) ∧
    r.Live receiver ∧ r.name = config.egressShmName ∧ h = r.table

/-- What holds behind a turn of the loop, and in front of the first one. -/
def Turned (config : ReceiverConfig) (goesOn : Bool) (self : Initializing) (h : Table) : Prop :=
  if goesOn = true then Open config self h else Open config self h ∨ Failed self h

theorem abandon_meets (e : InitError) {socketFd : Descriptor}
    (hudp : self.udp.socketFd = some socketFd) :
    (abandon e self).Meets (hostEnvironment fun _ => True) Control
      (fun goesOn self' h' => goesOn = false ∧ Failed self' h')
      (Resources.socketTable socketFd) := by
  have hopen : (Resources.socketTable socketFd).descriptors socketFd ≠ none := by
    simp [Resources.socketTable]
  apply (onSystem_meets (UdpReceiver.destroy_keeps hudp hopen) fun _ _ hop => hop).bind
  rintro - self' h' ⟨rfl, rfl⟩
  exact ⟨rfl, ⟨e, rfl⟩, Table.setDescriptor_undo (t := .empty) rfl _⟩

theorem prepare_meets (inetPton : Bytes → Option UInt32) (config : ReceiverConfig) :
    (prepare inetPton { config }).Meets (hostEnvironment fun _ => True) Control
      (Turned config) .empty := by
  have hfail : ∀ (e : InitError) (self : Initializing),
      (fail e self).Meets (hostEnvironment fun _ => True) Control (Turned config) .empty :=
    fun e self => .inr ⟨⟨e, rfl⟩, rfl⟩
  rw [prepare, Method.bind_apply, Method.self_apply, Process.bind_done]
  dsimp only
  split
  · exact hfail _ _
  cases requiredBytes sizeBits config.egressRing with
  | error e => exact hfail _ _
  | ok size =>
      dsimp only
      generalize (if config.listen.address = [] then ascii "0.0.0.0"
        else config.listen.address.takeWhile (· ≠ 0)) = address
      cases inetPton address with
      | none => exact hfail _ _
      | some address =>
          apply (onSystem_meets (UdpReceiver.bind_keeps _ _) fun _ _ hop => hop).bind
          rintro result self h ⟨rfl, ⟨e, rfl, rfl⟩ | ⟨udp, socketFd, rfl, hudp, rfl⟩⟩
          · exact hfail _ _
          · exact ⟨rfl, rfl, socketFd, hudp, rfl⟩

theorem drawInstanceId_meets (hopen : Open config self h) :
    (drawInstanceId self).Meets (hostEnvironment fun _ => True) Control (Turned config) h := by
  have hclosed : ∀ (e : InitError) (self : Initializing) (h : Table), Open config self h →
      (abandon e self).Meets (hostEnvironment fun _ => True) Control (Turned config) h := by
    rintro e self h ⟨-, -, socketFd, hudp, rfl⟩
    apply (abandon_meets e hudp).mono_post
    rintro goesOn self' h' ⟨rfl, hfailed⟩
    exact .inr hfailed
  refine ⟨trivial, ?_⟩
  intro result h' henv
  obtain rfl := Posix.environment.same henv (fun k => by cases result <;> rfl)
  cases result with
  | error errno =>
      simp only [Process.bind_done]
      split
      · exact hopen
      · exact hclosed .ring self h' hopen
  | ok bytes =>
      simp only [Process.bind_done]
      split
      · exact hclosed .ring self h' hopen
      · have hassigned : Open config { self with instanceId := .ofNat (leNat bytes) } h' := hopen
        rw [Method.bind_apply, Method.assign_apply, Process.bind_done, Method.pure_apply]
        change Turned config _ _ _
        rw [Turned]
        split
        · exact hassigned
        · exact .inl hassigned

/-- What `succeed` returns has all the resources. -/
theorem succeed_meets {r : Resources} {egress : SpscRing} (hname : r.name = config.egressShmName)
    (hegress : Closes egress) (hudp : self.udp.socketFd = some r.socketFd) :
    (succeed r.segment egress r.address self).Meets (hostEnvironment fun _ => True) Control
      (fun _ => Succeeded config) r.table := by
  rw [succeed, Method.bind_apply, Method.self_apply, Process.bind_done]
  dsimp only
  rw [Method.bind_apply, (ReceiverObject.move_retired _ false []).destroy.1]
  exact ⟨_, r, rfl, ⟨rfl, rfl, hegress.1, hegress.2, hudp⟩, hname, rfl⟩

/-- A segment whose ring cannot be made is removed. -/
theorem cleanUp_meets {r : Resources} (hudp : self.udp.socketFd = some r.socketFd) :
    ((do
      let (segment, _) ← HostOp.onSystem (r.segment.unlink ())
      HostOp.onSystem (segment.destroy ())
      let _ ← abandon .ring : Method hostAccess Initializing Unit) self).Meets
      (hostEnvironment fun _ => True) Control (fun _ => Failed) r.table := by
  have hallowed : ∀ op h, Allowed h op → HostAllowed h (.system op) := fun _ _ hop => hop
  have howns : r.segment.Owns r.table :=
    { name := fun _ _ => ⟨r.object, r.table_name⟩
      descriptor := fun d hd => by
        cases hd
        exact ⟨r.object, Function.update_self _ _ _⟩
      mapping := fun a ha => by
        cases ha
        exact ⟨r.object, r.table_mapping⟩
      unmapped := fun hnone => by cases hnone }
  apply (onSystem_meets (SharedMemorySegment.unlink_keeps howns) hallowed).bind
  rintro ⟨segment, result⟩ self' h1 ⟨rfl, hunlinked⟩
  obtain ⟨rfl, rfl⟩ : segment = { r.segment with linked := false } ∧
      h1 = r.table.setName r.name none := by
    obtain ⟨-, -, hno⟩ | ⟨-, -, ⟨rfl, -, hremoved | ⟨-, hno⟩⟩ | ⟨-, -, -, hno⟩⟩ := hunlinked
    · cases hno
    · exact ⟨rfl, hremoved⟩
    · exact absurd trivial hno
    · exact absurd trivial hno
  have howns' : ({ r.segment with linked := false } : SharedMemorySegment).Owns
      (r.table.setName r.name none) :=
    { howns with name := fun _ hno => by cases hno }
  have hdestroy : Keeps True
      (({ r.segment with linked := false } : SharedMemorySegment).destroy ())
      (r.table.setName r.name none)
      (fun (_ : Unit) h' => h' = Resources.socketTable r.socketFd) := by
    apply (SharedMemorySegment.closeShm_keeps howns').bind
    rintro ⟨segment, result⟩ - h2 (⟨-, rfl⟩ | ⟨-, -, -, hno⟩)
    · exact r.table_cleanedUp
    · exact absurd trivial hno
  apply (onSystem_meets hdestroy hallowed).bind
  rintro - self' h2 ⟨rfl, rfl⟩
  apply (abandon_meets .ring hudp).bind
  rintro goesOn self'' h3 ⟨-, hfailed⟩
  exact hfailed

theorem createEgress_meets (hopen : Open config self h ∨ Failed self h) :
    (createEgress self).Meets (hostEnvironment fun _ => True) Control
      (fun _ self' h' => Failed self' h' ∨ Succeeded config self' h') h := by
  rw [createEgress, Method.bind_apply, Method.self_apply, Process.bind_done]
  obtain ⟨rfl, hresult, socketFd, hudp, rfl⟩ | ⟨⟨e, hresult⟩, rfl⟩ := hopen
  · rw [hresult]
    simp only [Option.isSome_none, Bool.false_eq_true, if_false]
    apply (onSystem_meets (SharedMemorySegment.createShm_keeps _ _ _) fun _ _ hop => hop).bind
    rintro result self' h1 ⟨rfl, hcreated⟩
    cases result with
    | error e =>
        obtain rfl := hcreated.2 trivial
        simp only
        apply (abandon_meets _ hudp).bind
        rintro goesOn self' h2 ⟨-, hfailed⟩
        exact .inl hfailed
    | ok segment =>
        obtain ⟨d, o, a, rfl, -, hfree, -, rfl⟩ := hcreated
        have hdistinct : d ≠ socketFd := by
          rintro rfl
          simp [Resources.socketTable] at hfree
        obtain ⟨r, hsegment, htable, hname, rfl⟩ : ∃ r : Resources,
            SharedMemorySegment.mapped self'.config.egressShmName d a (.ofNat self'.size) true =
              r.segment ∧
            (((Resources.socketTable socketFd).setName self'.config.egressShmName
              (some o)).setDescriptor d (some (.object o))).setMapping a
                (some ⟨o, .ofNat self'.size⟩) = r.table ∧
            r.name = self'.config.egressShmName ∧ r.socketFd = socketFd :=
          ⟨⟨_, o, d, a, _, socketFd, hdistinct⟩, rfl, rfl, rfl, rfl⟩
        rw [hsegment, htable]
        simp only
        apply (onMapping_meets (initializeRing_results _ _ _) r.memory_allowed).bind
        rintro result self'' h2 ⟨hring, rfl, rfl⟩
        cases result with
        | error e =>
            apply (cleanUp_meets hudp).mono_post
            intro _ _ _ hfailed
            exact .inl hfailed
        | ok egress =>
            apply (succeed_meets hname (hring egress rfl) hudp).mono_post
            intro _ _ _ hsucceeded
            exact .inr hsucceeded
  · rw [hresult]
    exact .inl ⟨⟨e, hresult⟩, rfl⟩

/-- `initialize` returns an error and leaves nothing, or it returns a receiver that has
everything. -/
def contract (config : ReceiverConfig) : loop.Contract (hostEnvironment fun _ => True) where
  control := Control
  head := Open config
  exit self h := Open config self h ∨ Failed self h
  final self h := Failed self h ∨ Succeeded config self h
  body := drawInstanceId_meets
  after := createEgress_meets

theorem start_holds (inetPton : Bytes → Option UInt32) (config : ReceiverConfig) :
    (contract config).Holds (start inetPton config) .empty :=
  Loop.Contract.settleTurn_holds (prepare_meets inetPton config)

end Initializing

end Initialize

end EventEngine
