import EventEngine.Sender.Contracts

/-!
# Any number of senders

Senders in any number of processes, with one kernel. Where a call on a sender is says what it
has, and each access keeps it so. What the ring, the stop flag's owner and the network answer is
left open.
-/

namespace EventEngine

open Concurrency Memory Posix Transport EventEngine.Ring EventEngine.Shm

/-- Where a sender is. `log` are the accesses that its destructor has performed. -/
inductive SenderStage where
  | absent
  | initializing (config : SenderConfig) (thread : Thread senderHostAccess InitializingSender)
  | failed (error : InitError)
  | idle (sender : SenderObject)
  | running (thread : Thread senderHostAccess RunningSender)
  | destroying (log : List (HostedOp senderOwnAccess))
      (process : Process senderHostAccess Unit Unit)
  | destroyed (log : List (HostedOp senderOwnAccess))

namespace SenderStage

/-- `initialize` goes on, or returns. -/
def settleInitializing (config : SenderConfig) :
    Thread senderHostAccess InitializingSender → SenderStage
  | .returned self =>
      match self.result with
      | some (.ok sender) => .idle sender
      | some (.error e) => .failed e
      | none => .initializing config (.returned self)
  | thread => .initializing config thread

/-- `run` goes on, or returns. -/
def settleRunning : Thread senderHostAccess RunningSender → SenderStage
  | .returned self => .idle self.toSenderObject
  | thread => .running thread

/-- The destructor goes on, or it is done. -/
def settleDestroying (log : List (HostedOp senderOwnAccess)) :
    Process senderHostAccess Unit Unit → SenderStage
  | .done _ _ => .destroyed log
  | p => .destroying log p

/-- The next access, and where the sender is behind it. -/
def pending : SenderStage → Option ((op : HostedOp senderOwnAccess) × (op.Res → SenderStage))
  | .initializing config thread =>
      (InitializingSender.loop.pending thread).map fun ⟨op, resume⟩ =>
        ⟨op, fun r => settleInitializing config (resume r)⟩
  | .running thread =>
      (RunningSender.run.pending thread).map fun ⟨op, resume⟩ =>
        ⟨op, fun r => settleRunning (resume r)⟩
  | .destroying log (.step _ op next) =>
      some ⟨op, fun r => settleDestroying (log ++ [op]) (next r)⟩
  | _ => none

/-- The object, while it can be used. -/
def sender : SenderStage → Option SenderObject
  | .idle sender => some sender
  | .running thread => some thread.self.toSenderObject
  | _ => none

/-- The accesses of the destructor so far, once it was called. -/
def log : SenderStage → Option (List (HostedOp senderOwnAccess))
  | .destroying log _ => some log
  | .destroyed log => some log
  | _ => none

end SenderStage

/-- A sender with its stop flag. -/
structure SenderSlot where
  stop : Bool := false
  stage : SenderStage := .absent

/-- The calls from outside. -/
inductive SenderCall where
  | initializeSender (config : SenderConfig)
  | run
  | requestStop
  | destroy

/-- The session has ended, and the sender stops itself. -/
def SenderHostOp.stops : HostedOp senderOwnAccess → Bool
  | .own .requestStop => true
  | _ => false

namespace SenderSlot

/-- There is no object yet. -/
def absent (slot : SenderSlot) : Bool :=
  match slot.stage with
  | .absent => true
  | _ => false

/-- A sender that runs is not destroyed. -/
def react (inetPton : Bytes → Option UInt32) (slot : SenderSlot) : SenderCall → Option SenderSlot
  | .initializeSender config =>
      match slot.stage with
      | .absent =>
          some ⟨false, .settleInitializing config (InitializingSender.start inetPton config)⟩
      | _ => none
  | .run =>
      match slot.stage with
      | .idle sender => some { slot with stage := .running (.head sender.start) }
      | _ => none
  | .requestStop => slot.stage.sender.map fun _ => { slot with stop := true }
  | .destroy =>
      match slot.stage with
      | .idle sender => some { slot with stage := .settleDestroying [] (sender.destroy ()) }
      | _ => none

def pending (slot : SenderSlot) :
    Option ((op : HostedOp senderOwnAccess) × (op.Res → SenderSlot)) :=
  slot.stage.pending.map fun ⟨op, resume⟩ =>
    ⟨op, fun r => ⟨slot.stop || SenderHostOp.stops op, resume r⟩⟩

/-- The stop flag is what it is; the rest is up to the memory and the network. -/
def answers (slot : SenderSlot) : (op : SenderHostOp) → op.Res → Bool
  | .loadStop, r => r == slot.stop
  | _, _ => true

/-- A sender that runs is not moved. -/
def construct (leftover : Name) (slot : SenderSlot) : Option (SenderSlot × SenderSlot) :=
  match slot.stage with
  | .idle sender =>
      let (new, old) := sender.move slot.stop leftover
      some (⟨new.2, .idle new.1⟩, ⟨old.2, .idle old.1⟩)
  | _ => none

end SenderSlot

/-- The senders of a host; `inetPton` parses a numeric address. -/
def senderKind (inetPton : Bytes → Option UInt32) : Kind where
  Place := SenderSlot
  own := senderOwnAccess
  Call := SenderCall
  absent := SenderSlot.absent
  react c slot := slot.react inetPton c
  pending := SenderSlot.pending
  answers := SenderSlot.answers
  construct := SenderSlot.construct

/-- Any number of senders with their kernel. -/
abbrev Senders (inetPton : Bytes → Option UInt32) := Residents (senderKind inetPton)

variable {inetPton : Bytes → Option UInt32} {config : SenderConfig} {r : SenderResources}
variable {sender : SenderObject} {t : Table}

namespace SenderStage

variable {stage : SenderStage} {op : HostedOp senderOwnAccess} {resume : op.Res → SenderStage}

/-- The sender can be used, and has its resources. -/
def Alive (inetPton : Bytes → Option UInt32) (config : SenderConfig) (r : SenderResources)
    (t : Table) : SenderStage → Prop
  | .idle sender => r.Live inetPton config sender ∧ t = r.table
  | .running thread => (r.running inetPton config).Holds thread t
  | _ => False

/-- The destructor is giving everything back. -/
def Departing (r : SenderResources) (t : Table) : SenderStage → Prop
  | .destroying log p => r.Leaving p log t
  | .destroyed log => log = r.farewell ∧ t = .empty
  | _ => False

/-- The sender was moved from. -/
def Spent : SenderStage → Prop
  | .idle sender => SenderRetired sender
  | .running thread => senderRetiredRun.Holds thread .empty
  | .destroyed log => log = []
  | _ => False

theorem settleInitializing_alive {thread : Thread senderHostAccess InitializingSender}
    (hthread : (InitializingSender.contract inetPton config).Holds thread t)
    (hidle : settleInitializing config thread = .idle sender) :
    ∃ r : SenderResources, r.Live inetPton config sender ∧ t = r.table := by
  cases thread with
  | returned self =>
      obtain ⟨⟨e, hresult⟩, -⟩ | ⟨sender', r, hresult, hlive, htable⟩ := hthread
      · rw [settleInitializing, hresult] at hidle
        cases hidle
      · rw [settleInitializing, hresult] at hidle
        cases hidle
        exact ⟨r, hlive, htable⟩
  | head self => cases hidle
  | turn p => cases hidle
  | leaving p => cases hidle

theorem settleRunning_alive {thread : Thread senderHostAccess RunningSender}
    (hthread : (r.running inetPton config).Holds thread t) :
    (settleRunning thread).Alive inetPton config r t := by
  cases thread with
  | returned self => exact hthread
  | head self => exact hthread
  | turn p => exact hthread
  | leaving p => exact hthread

theorem settleRunning_spent {thread : Thread senderHostAccess RunningSender}
    (hthread : senderRetiredRun.Holds thread .empty) : (settleRunning thread).Spent := by
  cases thread with
  | returned self => exact hthread.1
  | head self => exact hthread
  | turn p => exact hthread
  | leaving p => exact hthread

theorem settleDestroying_departing {log : List (HostedOp senderOwnAccess)}
    {p : Process senderHostAccess Unit Unit} (hleaving : r.Leaving p log t) :
    (settleDestroying log p).Departing r t := by
  cases p with
  | done a l =>
      obtain ⟨hempty, hlog⟩ := hleaving
      exact ⟨hlog, hempty⟩
  | step l op next => exact hleaving

/-- Each access of a live sender is one that its resources allow, and it stays alive. -/
theorem alive_resume (halive : stage.Alive inetPton config r t)
    (hpending : stage.pending = some ⟨op, resume⟩) :
    SenderUses t op ∧ ∀ result t', senderHostEnvironment (fun _ => True) op result t t' →
      (resume result).Alive inetPton config r t' := by
  cases stage with
  | running thread =>
      obtain ⟨⟨op', resume'⟩, hthread, heq⟩ := Option.map_eq_some_iff.mp hpending
      cases heq
      obtain ⟨⟨l, -, huses⟩, hresume⟩ := Loop.Contract.Holds.resume halive hthread
      exact ⟨huses, fun result t' henv => settleRunning_alive (hresume result t' henv)⟩
  | destroying log p => cases halive
  | initializing config thread => cases halive
  | _ => cases hpending

theorem departing_resume (hdeparting : stage.Departing r t)
    (hpending : stage.pending = some ⟨op, resume⟩) :
    SenderUses t op ∧ ∀ result t', senderHostEnvironment (fun _ => True) op result t t' →
      (resume result).Departing r t' := by
  cases stage with
  | destroying log p =>
      cases p with
      | done a l => cases hpending
      | step l op' next =>
          cases hpending
          obtain ⟨⟨huses, -⟩, hnext⟩ := hdeparting
          refine ⟨huses, fun result t' henv => ?_⟩
          exact settleDestroying_departing (hnext result (t', log ++ [op]) ⟨henv, rfl⟩)
  | running thread => cases hdeparting
  | initializing config thread => cases hdeparting
  | _ => cases hpending

theorem spent_resume (hspent : stage.Spent) (hpending : stage.pending = some ⟨op, resume⟩) :
    op = .own .loadStop ∧ ∀ result t', senderHostEnvironment (· = true) op result .empty t' →
      t' = .empty ∧ (resume result).Spent := by
  cases stage with
  | running thread =>
      obtain ⟨⟨op', resume'⟩, hthread, heq⟩ := Option.map_eq_some_iff.mp hpending
      cases heq
      obtain ⟨⟨l, -, rfl⟩, hresume⟩ := Loop.Contract.Holds.resume hspent hthread
      refine ⟨rfl, ?_⟩
      intro result t' henv
      obtain rfl : t' = .empty := henv.2
      exact ⟨rfl, settleRunning_spent (hresume result _ henv)⟩
  | destroying log p => cases hspent
  | initializing config thread => cases hspent
  | _ => cases hpending

theorem alive_sender (halive : stage.Alive inetPton config r t) :
    ∃ sender, stage.sender = some sender ∧ r.Live inetPton config sender ∧ t = r.table := by
  cases stage with
  | idle sender => exact ⟨sender, rfl, halive⟩
  | running thread =>
      refine ⟨thread.self.toSenderObject, rfl, ?_⟩
      exact Loop.Contract.Holds.self (P := r.Has inetPton config) halive
        (fun _ _ _ hop => hop.1) (fun _ _ hhas => hhas) (fun _ _ hhas => hhas) fun _ _ hhas => hhas
  | _ => cases halive

theorem spent_sender (hspent : stage.Spent) (hsender : stage.sender = some sender) :
    SenderRetired sender := by
  cases stage with
  | idle sender' =>
      cases hsender
      exact hspent
  | running thread =>
      cases hsender
      exact Loop.Contract.Holds.self (P := fun self _ => SenderRetired self.toSenderObject) hspent
        (fun _ _ _ hop => hop.1.1) (fun _ _ hretired => hretired.1)
        (fun _ _ hretired => hretired.1) fun _ _ hretired => hretired.1
  | _ => cases hsender

end SenderStage

namespace SenderSlot

variable {slot slot' : SenderSlot}

/-- What a sender has, wherever it is. -/
inductive Has (inetPton : Bytes → Option UInt32) : SenderSlot → Table → Prop
  | absent (stop : Bool) : Has inetPton ⟨stop, .absent⟩ .empty
  | failed (stop : Bool) (error : InitError) : Has inetPton ⟨stop, .failed error⟩ .empty
  | initializing {stop : Bool} {config : SenderConfig}
      {thread : Thread senderHostAccess InitializingSender} {t : Table}
      (holds : (InitializingSender.contract inetPton config).Holds thread t) :
      Has inetPton ⟨stop, .initializing config thread⟩ t
  | alive {slot : SenderSlot} {config : SenderConfig} {r : SenderResources} {t : Table}
      (alive : slot.stage.Alive inetPton config r t) : Has inetPton slot t
  | departing {slot : SenderSlot} {r : SenderResources} {t : Table}
      (departing : slot.stage.Departing r t) : Has inetPton slot t
  | spent {slot : SenderSlot} (spent : slot.stage.Spent) (stopped : slot.stop = true) :
      Has inetPton slot .empty

theorem stage_of_absent (habsent : slot.absent = true) : slot.stage = .absent := by
  rw [absent] at habsent
  split at habsent
  case h_1 hstage => exact hstage
  case h_2 => cases habsent

/-- A sender without an object has nothing. -/
theorem Has.unborn (hhas : slot.Has inetPton t)
    (hstage : slot.stage = .absent ∨ ∃ error, slot.stage = .failed error) : t = .empty := by
  cases hhas with
  | absent stop => rfl
  | failed stop error => rfl
  | spent spent stopped => rfl
  | initializing holds =>
      obtain hno | ⟨error, hno⟩ := hstage
      · cases hno
      · cases hno
  | alive alive =>
      obtain hno | ⟨error, hno⟩ := hstage
      · rw [hno] at alive
        cases alive
      · rw [hno] at alive
        cases alive
  | departing departing =>
      obtain hno | ⟨error, hno⟩ := hstage
      · rw [hno] at departing
        cases departing
      · rw [hno] at departing
        cases departing

/-- An object has all its resources, or it was moved from. -/
theorem Has.object (hhas : slot.Has inetPton t) (hsender : slot.stage.sender = some sender) :
    (∃ config r, slot.stage.Alive inetPton config r t ∧ r.Live inetPton config sender ∧
      t = r.table) ∨
      (slot.stage.Spent ∧ SenderRetired sender ∧ slot.stop = true ∧ t = .empty) := by
  cases hhas with
  | absent stop => cases hsender
  | failed stop error => cases hsender
  | initializing holds => cases hsender
  | alive alive =>
      obtain ⟨sender', hsender', hlive⟩ := SenderStage.alive_sender alive
      rw [hsender] at hsender'
      cases hsender'
      exact .inl ⟨_, _, alive, hlive⟩
  | departing departing =>
      cases hstage : slot.stage with
      | destroying log p =>
          rw [hstage] at hsender
          cases hsender
      | destroyed log =>
          rw [hstage] at hsender
          cases hsender
      | _ =>
          rw [hstage] at departing
          cases departing
  | spent spent stopped =>
      exact .inr ⟨spent, SenderStage.spent_sender spent hsender, stopped, rfl⟩

/-- What holds while `initialize` is called. -/
theorem Has.holds {thread : Thread senderHostAccess InitializingSender}
    (hhas : slot.Has inetPton t) (hstage : slot.stage = .initializing config thread) :
    (InitializingSender.contract inetPton config).Holds thread t := by
  cases hhas with
  | absent stop => cases hstage
  | failed stop error => cases hstage
  | initializing holds =>
      cases hstage
      exact holds
  | alive alive =>
      rw [hstage] at alive
      cases alive
  | departing departing =>
      rw [hstage] at departing
      cases departing
  | spent spent stopped =>
      rw [hstage] at spent
      cases spent

theorem Has.settled {thread : Thread senderHostAccess InitializingSender} {stop : Bool}
    (hthread : (InitializingSender.contract inetPton config).Holds thread t) :
    Has inetPton ⟨stop, .settleInitializing config thread⟩ t := by
  cases thread with
  | returned self =>
      obtain ⟨⟨e, hresult⟩, rfl⟩ | ⟨sender, r, hresult, hlive, htable⟩ := hthread
      · rw [SenderStage.settleInitializing, hresult]
        exact .failed stop e
      · rw [SenderStage.settleInitializing, hresult]
        exact .alive (r := r) ⟨hlive, htable⟩
  | head self => exact .initializing hthread
  | turn p => exact .initializing hthread
  | leaving p => exact .initializing hthread

/-- The stop flag does not matter, unless it is taken back. -/
theorem Has.requestStop (hhas : slot.Has inetPton t) : Has inetPton ⟨true, slot.stage⟩ t := by
  cases hhas with
  | absent stop => exact .absent true
  | failed stop error => exact .failed true error
  | initializing holds => exact .initializing holds
  | alive alive => exact .alive alive
  | departing departing => exact .departing departing
  | spent spent stopped => exact .spent spent rfl

theorem Has.react {call : SenderCall} (hhas : slot.Has inetPton t)
    (hreact : slot.react inetPton call = some slot') : slot'.Has inetPton t := by
  obtain ⟨stop, stage⟩ := slot
  cases call with
  | initializeSender config =>
      cases stage with
      | absent =>
          cases hreact
          obtain rfl := hhas.unborn (.inl rfl)
          exact .settled (InitializingSender.start_holds inetPton config)
      | _ => cases hreact
  | run =>
      cases stage with
      | idle sender =>
          cases hreact
          obtain ⟨config, r, -, hlive, rfl⟩ | ⟨-, hretired, rfl, rfl⟩ := hhas.object rfl
          · exact .alive (r := r) ⟨{ hlive with }, rfl⟩
          · exact .spent ⟨{ hretired with }, rfl⟩ rfl
      | _ => cases hreact
  | requestStop =>
      obtain ⟨sender, -, rfl⟩ := Option.map_eq_some_iff.mp hreact
      exact hhas.requestStop
  | destroy =>
      cases stage with
      | idle sender =>
          cases hreact
          obtain ⟨config, r, -, hlive, rfl⟩ | ⟨-, hretired, rfl, rfl⟩ := hhas.object rfl
          · exact .departing (r := r) (SenderStage.settleDestroying_departing hlive.destroy)
          · rw [hretired.destroy.1]
            exact .spent rfl rfl
      | _ => cases hreact

/-- What is known of an answer. -/
theorem answers_stop {op : SenderHostOp} {result : op.Res}
    (hanswers : slot.answers op result = true) : stopAnswers (· = slot.stop) op result := by
  cases op with
  | loadStop => exact eq_of_beq hanswers
  | _ => trivial

theorem Has.step {op : HostedOp senderOwnAccess} {resume : op.Res → SenderSlot}
    (hhas : slot.Has inetPton t) (hpending : slot.pending = some ⟨op, resume⟩) :
    SenderUses t op ∧ ∀ result t',
      HostedOp.environment (X := senderOwnAccess) (fun op r => slot.answers op r = true) op result
        t t' → (resume result).Has inetPton t' := by
  obtain ⟨⟨op', resume'⟩, hstage, heq⟩ := Option.map_eq_some_iff.mp hpending
  cases heq
  have hweaken : ∀ {result : op.Res} {t' : Table}, HostedOp.environment (X := senderOwnAccess)
      (fun op r => slot.answers op r = true) op result t t' →
      senderHostEnvironment (fun _ => True) op result t t' := by
    intro result t' henv
    apply henv.weaken
    intro op r _
    cases op with
    | _ => trivial
  cases hhas with
  | absent stop => cases hstage
  | failed stop error => cases hstage
  | initializing holds =>
      obtain ⟨⟨op', resume'⟩, hthread, heq⟩ := Option.map_eq_some_iff.mp hstage
      cases heq
      obtain ⟨⟨l, huses⟩, hresume⟩ := Loop.Contract.Holds.resume holds hthread
      exact ⟨huses, fun result t' henv => .settled (hresume result t' (hweaken henv))⟩
  | alive alive =>
      obtain ⟨huses, hresume⟩ := SenderStage.alive_resume alive hstage
      refine ⟨huses, fun result t' henv => ?_⟩
      exact .alive (hresume result t' (hweaken henv))
  | departing departing =>
      obtain ⟨huses, hresume⟩ := SenderStage.departing_resume departing hstage
      refine ⟨huses, fun result t' henv => ?_⟩
      exact .departing (hresume result t' (hweaken henv))
  | spent spent stopped =>
      obtain ⟨rfl, hresume⟩ := SenderStage.spent_resume spent hstage
      refine ⟨trivial, fun result t' henv => ?_⟩
      obtain ⟨rfl, hspent⟩ := hresume result t' (stopped ▸ henv.weaken fun _ _ => answers_stop)
      exact .spent hspent (by simp [stopped])

theorem Has.construct {leftover : Name} {new old : SenderSlot} (hhas : slot.Has inetPton t)
    (hconstruct : slot.construct leftover = some (new, old)) :
    slot.absent = false ∧ new.Has inetPton t ∧ old.Has inetPton .empty := by
  obtain ⟨stop, stage⟩ := slot
  cases stage with
  | idle sender =>
      cases hconstruct
      refine ⟨rfl, ?_, .spent (sender.move_retired stop leftover) rfl⟩
      obtain ⟨config, r, -, hlive, rfl⟩ | ⟨-, hretired, rfl, rfl⟩ := hhas.object rfl
      · exact .alive (r := r) ⟨{ hlive with }, rfl⟩
      · exact .spent { hretired with } rfl
  | _ => cases hconstruct


end SenderSlot

/-- What the senders of a host have. -/
def senderCustody (inetPton : Bytes → Option UInt32) : Custody (senderKind inetPton) where
  uses := SenderUses
  possesses huses := huses.1.possessed
  Has := SenderSlot.Has inetPton
  absent habsent hhas := hhas.unborn (.inl (SenderSlot.stage_of_absent habsent))
  react hhas hreact := hhas.react hreact
  step hhas hpending := hhas.step hpending
  construct hhas hconstruct := hhas.construct hconstruct

end EventEngine
