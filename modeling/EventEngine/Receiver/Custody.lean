import EventEngine.Receiver.Slots

/-!
# What the receivers have

The invariant of any number of receivers: where each one is says what it has, nobody has what
another one has, and everything there is belongs to somebody. What a receiver has goes on with it
from call to call, a move hands it to the new object, and what a move leaves behind has nothing.
-/

namespace EventEngine

open Concurrency Memory Posix Transport EventEngine.Ring EventEngine.Shm

variable {h : Nat} {r : Resources} {receiver : ReceiverObject} {t : Table}

namespace Receivers

variable {s u : Receivers} {a : LifecycleAction} {answer : (op : Op) → op.Res}
variable {received : Received} {inetPton : Bytes → Option UInt32}

/-- What is held is there, nobody holds what another has, and nothing is held by nobody. -/
structure Sound (s : Receivers) : Prop where
  shared : s.kernel.Shared s.holding
  cover : Table.Cover s.holding s.kernel.table
  distinct : s.kernel.Distinct

/-- The invariant. -/
structure Ok (s : Receivers) : Prop extends Sound s where
  slot : ∀ h, (s.slots h).Ok (s.stop h) (s.holding (some h))

theorem Sound.call {i : Option Nat} {op : Op} {result : op.Res} (hsound : s.Sound)
    (hpossessed : Possessed (s.holding i) op) (hcall : s.call i op result = some u) :
    u.Sound := by
  obtain ⟨k, hperform, rfl⟩ := Option.map_eq_some_iff.mp hcall
  exact
    { shared := hsound.shared.perform hpossessed hperform
      cover := Kernel.Shared.cover_perform hsound.cover hperform i
      distinct := hsound.distinct.perform hperform }

/-- An access of a receiver concerns its own holding. -/
structure Responded (s : Receivers) (h : Nat) (op : HostOp) (result : op.Res) (u : Receivers) :
    Prop where
  slots : u.slots = s.slots
  stop : u.stop = s.stop
  holding : ∀ i, i ≠ some h → u.holding i = s.holding i
  environment : hostEnvironment (· = s.stop h) op result (s.holding (some h)) (u.holding (some h))

theorem Sound.respond {op : HostOp} {result : op.Res} (hsound : s.Sound)
    (hgives : ∀ op, GivesBack op (answer op)) (hallowed : HostAllowed (s.holding (some h)) op)
    (hrespond : s.respond h answer received op = some (result, u)) :
    u.Sound ∧ s.Responded h op result u := by
  cases op with
  | system op =>
      obtain ⟨u', hcall, heq⟩ := Option.map_eq_some_iff.mp hrespond
      cases heq
      refine ⟨hsound.call (Allowed.possessed hallowed) hcall, ?_⟩
      obtain ⟨k, hperform, rfl⟩ := Option.map_eq_some_iff.mp hcall
      exact
        { slots := rfl
          stop := rfl
          holding := fun i hi => Function.update_of_ne hi _ _
          environment := by
            refine ⟨⟨s.kernel, hsound.shared.part _, (Kernel.perform_cases hperform).1, ?_⟩,
              fun _ => hgives op⟩
            exact Function.update_self _ _ _ }
  | memory base access =>
      obtain ⟨mapping, -, heq⟩ := Option.map_eq_some_iff.mp hrespond
      cases heq
      exact ⟨{ hsound with }, ⟨rfl, rfl, fun _ _ => rfl, rfl⟩⟩
  | loadStop =>
      cases hrespond
      exact ⟨hsound, ⟨rfl, rfl, fun _ _ => rfl, rfl, rfl⟩⟩
  | receive socketFd =>
      cases hrespond
      exact ⟨hsound, ⟨rfl, rfl, fun _ _ => rfl, rfl⟩⟩

/-- What a step of a receiver is. -/
theorem step_cases (hnext : s.next inetPton (.step h answer received) = some u) :
    ∃ (op : HostOp) (resume : op.Res → ReceiverSlot) (result : op.Res) (u' : Receivers),
      (s.slots h).pending = some ⟨op, resume⟩ ∧
      s.respond h answer received op = some (result, u') ∧
      u = { u' with slots := Function.update u'.slots h (resume result) } := by
  simp only [next] at hnext
  cases hpending : (s.slots h).pending with
  | none =>
      rw [hpending] at hnext
      cases hnext
  | some pair =>
      obtain ⟨op, resume⟩ := pair
      rw [hpending] at hnext
      obtain ⟨⟨result, u'⟩, hrespond, rfl⟩ := Option.map_eq_some_iff.mp hnext
      exact ⟨op, resume, result, u', rfl, hrespond, rfl⟩

/-- One access of a receiver that is where the invariant says. -/
theorem Ok.step (hok : s.Ok) (hgives : ∀ op, GivesBack op (answer op))
    (hnext : s.next inetPton (.step h answer received) = some u) :
    ∃ (op : HostOp) (resume : op.Res → ReceiverSlot) (result : op.Res) (u' : Receivers),
      (s.slots h).pending = some ⟨op, resume⟩ ∧ HostAllowed (s.holding (some h)) op ∧
      s.respond h answer received op = some (result, u') ∧ u'.Sound ∧
      s.Responded h op result u' ∧
      u = { u' with slots := Function.update u'.slots h (resume result) } := by
  obtain ⟨op, resume, result, u', hpending, hrespond, rfl⟩ := step_cases hnext
  obtain ⟨hallowed, -⟩ := (hok.slot h).step hpending
  obtain ⟨hsound, hresponded⟩ := hok.toSound.respond hgives hallowed hrespond
  exact ⟨op, resume, result, u', hpending, hallowed, hrespond, hsound, hresponded, rfl⟩

theorem initial_ok : Ok initial where
  shared := Kernel.Shared.initial _
  cover :=
    { names := fun _ _ hnone => by cases hnone
      descriptors := fun _ _ hnone => by cases hnone
      mappings := fun _ _ hnone => by cases hnone }
  distinct :=
    { allocated := fun _ _ hnone => by cases hnone
      injective := fun _ _ _ hnone => by cases hnone }
  slot _ := .absent

/-- The slots a move concerns. -/
theorem move_cases {other : Nat} {leftover : Name}
    (hnext : s.next inetPton (.move h other leftover) = some u) :
    ∃ receiver, s.slots h = .absent ∧ s.slots other = .idle receiver ∧
      u = { s with
        slots := Function.update (Function.update s.slots other
          (.idle (receiver.move (s.stop other) leftover).2.1)) h (.idle receiver)
        stop := Function.update (Function.update s.stop other true) h (s.stop other)
        holding := Function.update
          (Function.update s.holding (some h) (s.holding (some other))) (some other) .empty } := by
  simp only [next] at hnext
  cases hslot : s.slots h with
  | absent =>
      cases hother : s.slots other with
      | idle receiver =>
          rw [hslot, hother] at hnext
          obtain rfl := Option.some.inj hnext
          exact ⟨receiver, rfl, rfl, rfl⟩
      | _ =>
          rw [hslot, hother] at hnext
          cases hnext
  | _ =>
      rw [hslot] at hnext
      cases hnext

theorem initializeReceiver_cases {config : ReceiverConfig}
    (hnext : s.next inetPton (.initializeReceiver h config) = some u) :
    s.slots h = .absent ∧ u = { s with
      slots := Function.update s.slots h
        (.settleInitializing config (Initializing.start inetPton config))
      stop := Function.update s.stop h false } := by
  simp only [next] at hnext
  cases hslot : s.slots h with
  | absent =>
      rw [hslot] at hnext
      exact ⟨rfl, (Option.some.inj hnext).symm⟩
  | _ =>
      rw [hslot] at hnext
      cases hnext

theorem run_cases (hnext : s.next inetPton (.run h) = some u) :
    ∃ receiver, s.slots h = .idle receiver ∧
      u = { s with slots := Function.update s.slots h (.running (.head receiver)) } := by
  simp only [next] at hnext
  cases hslot : s.slots h with
  | idle receiver =>
      rw [hslot] at hnext
      exact ⟨receiver, rfl, (Option.some.inj hnext).symm⟩
  | _ =>
      rw [hslot] at hnext
      cases hnext

theorem destroy_cases (hnext : s.next inetPton (.destroy h) = some u) :
    ∃ receiver, s.slots h = .idle receiver ∧
      u = { s with
        slots := Function.update s.slots h (.settleDestroying [] (receiver.destroy ())) } := by
  simp only [next] at hnext
  cases hslot : s.slots h with
  | idle receiver =>
      rw [hslot] at hnext
      exact ⟨receiver, rfl, (Option.some.inj hnext).symm⟩
  | _ =>
      rw [hslot] at hnext
      cases hnext

/-- An object at rest has its resources, or it was moved from. -/
theorem Ok.idle (hok : s.Ok) (hidle : s.slots h = .idle receiver) :
    (∃ r : Resources, r.Live receiver ∧ s.holding (some h) = r.table) ∨
      (Retired receiver ∧ s.holding (some h) = .empty ∧ s.stop h = true) := by
  have hslot := hok.slot h
  generalize s.holding (some h) = t at hslot ⊢
  rw [hidle] at hslot
  cases hslot with
  | alive alive => exact .inl ⟨_, alive⟩
  | departing departing => cases departing
  | spent spent stopped => exact .inr ⟨spent, rfl, stopped⟩

theorem Ok.initializing {config : ReceiverConfig} {thread : Thread hostAccess Initializing}
    (hok : s.Ok) (hslot : s.slots h = .initializing config thread) :
    (Initializing.contract config).Holds thread (s.holding (some h)) := by
  have hok := hok.slot h
  generalize s.holding (some h) = t at hok ⊢
  rw [hslot] at hok
  cases hok with
  | initializing holds => exact holds
  | alive alive => cases alive
  | departing departing => cases departing
  | spent spent stopped => cases spent

theorem Ok.failed {error : InitError} (hok : s.Ok) (hfailed : s.slots h = .failed error) :
    s.holding (some h) = .empty := by
  have hslot := hok.slot h
  generalize s.holding (some h) = t at hslot ⊢
  rw [hfailed] at hslot
  cases hslot with
  | failed e => rfl
  | alive alive => cases alive
  | departing departing => cases departing
  | spent spent stopped => rfl

theorem Ok.absent (hok : s.Ok) (habsent : s.slots h = .absent) :
    s.holding (some h) = .empty := by
  have hslot := hok.slot h
  generalize s.holding (some h) = t at hslot ⊢
  rw [habsent] at hslot
  cases hslot with
  | absent => rfl
  | alive alive => cases alive
  | departing departing => cases departing
  | spent spent stopped => rfl

/-- The receiver `h` lives and has these resources. -/
def Bears (s : Receivers) (r : Resources) (h : Nat) : Prop :=
  r.Alive (s.holding (some h)) (s.slots h)

/-- The receiver `h` lives and owns the segment of this name. -/
def Owner (s : Receivers) (h : Nat) (name : Name) : Prop :=
  ∃ receiver, (s.slots h).receiver = some receiver ∧ receiver.segment.owner = true ∧
    receiver.segment.name = name

/-- A receiver that owns a name has everything. -/
theorem Ok.owner {name : Name} (hok : s.Ok) (howner : s.Owner h name) :
    ∃ r : Resources, s.Bears r h ∧ r.name = name := by
  obtain ⟨receiver, hreceiver, howner, rfl⟩ := howner
  have hslot := hok.slot h
  simp only [Bears]
  generalize s.holding (some h) = t at hslot ⊢
  generalize s.slots h = slot at hslot hreceiver ⊢
  cases hslot with
  | alive alive =>
      obtain ⟨receiver', hreceiver', hlive, -⟩ := ReceiverSlot.alive_receiver alive
      rw [hreceiver] at hreceiver'
      obtain rfl := Option.some.inj hreceiver'
      refine ⟨_, alive, ?_⟩
      rw [hlive.segment]
      rfl
  | departing departing =>
      cases slot with
      | destroying log p => cases hreceiver
      | destroyed log => cases hreceiver
      | _ => cases departing
  | spent spent stopped =>
      obtain ⟨receiver', hreceiver', hretired⟩ | hlog := ReceiverSlot.spent_receiver spent
      · rw [hreceiver] at hreceiver'
        obtain rfl := Option.some.inj hreceiver'
        obtain ⟨leftover, hsegment⟩ := hretired.segment
        rw [hsegment] at howner
        cases howner
      · cases slot with
        | destroyed log => cases hreceiver
        | destroying log p => cases hreceiver
        | _ => cases hlog
  | absent => cases hreceiver
  | failed e => cases hreceiver
  | initializing holds => cases hreceiver

theorem Bears.owner (hbears : s.Bears r h) : s.Owner h r.name := by
  obtain ⟨receiver, hreceiver, hlive, -⟩ := ReceiverSlot.alive_receiver hbears
  refine ⟨receiver, hreceiver, ?_, ?_⟩
  · rw [hlive.segment]
    rfl
  · rw [hlive.segment]
    rfl

theorem Bears.table (hbears : s.Bears r h) : s.holding (some h) = r.table := by
  obtain ⟨receiver, -, -, htable⟩ := ReceiverSlot.alive_receiver hbears
  exact htable

/-- The name of a living receiver exists. -/
theorem Bears.name (hbears : s.Bears r h) (hok : s.Ok) :
    s.kernel.table.names r.name = some r.object := by
  apply (hok.shared.part (some h)).names
  rw [hbears.table, r.table_name]

/-- What an action means for the receiver `h`: nothing, unless it is the one that acts. -/
inductive Fate (inetPton : Bytes → Option UInt32) (s : Receivers) (a : LifecycleAction)
    (u : Receivers) (h : Nat) : Prop
  | kept (slots : u.slots h = s.slots h) (holding : u.holding (some h) = s.holding (some h))
      (stop : u.stop h = s.stop h ∨ u.stop h = true)
  | began (config : ReceiverConfig) (absent : s.slots h = .absent)
      (slots : u.slots h = .settleInitializing config (Initializing.start inetPton config))
      (holding : u.holding (some h) = s.holding (some h))
  | stepped (op : HostOp) (resume : op.Res → ReceiverSlot) (result : op.Res)
      (pending : (s.slots h).pending = some ⟨op, resume⟩) (slots : u.slots h = resume result)
      (environment :
        hostEnvironment (· = s.stop h) op result (s.holding (some h)) (u.holding (some h)))
      (stop : u.stop h = s.stop h)
  | moved (other : Nat) (receiver : ReceiverObject) (absent : s.slots h = .absent)
      (idle : s.slots other = .idle receiver) (slots : u.slots h = .idle receiver)
      (holding : u.holding (some h) = s.holding (some other)) (stop : u.stop h = s.stop other)
  | left (new : Nat) (leftover : Name) (receiver : ReceiverObject)
      (idle : s.slots h = .idle receiver)
      (slots : u.slots h = .idle (receiver.move (s.stop h) leftover).2.1)
      (holding : u.holding (some h) = .empty) (stop : u.stop h = true)
      (newSlot : u.slots new = .idle receiver)
      (newHolding : u.holding (some new) = s.holding (some h))
  | ran (receiver : ReceiverObject) (idle : s.slots h = .idle receiver)
      (slots : u.slots h = .running (.head receiver))
      (holding : u.holding (some h) = s.holding (some h)) (stop : u.stop h = s.stop h)
  | ended (receiver : ReceiverObject) (called : a = .destroy h) (idle : s.slots h = .idle receiver)
      (slots : u.slots h = .settleDestroying [] (receiver.destroy ()))
      (holding : u.holding (some h) = s.holding (some h)) (stop : u.stop h = s.stop h)

/-- The holdings of a move. -/
theorem update_holding {holding : Option Nat → Table} {x : Nat} {t : Table} (hne : h ≠ x) :
    Function.update holding (some x) t (some h) = holding (some h) :=
  Function.update_of_ne (fun heq => hne (Option.some.inj heq)) _ _

theorem Ok.fate (hok : s.Ok) (hreliable : s.Reliable a) (hnext : s.next inetPton a = some u)
    (h : Nat) : Fate inetPton s a u h := by
  cases a with
  | initializeReceiver x config =>
      obtain ⟨habsent, rfl⟩ := initializeReceiver_cases hnext
      by_cases hx : h = x
      · subst hx
        exact .began config habsent (Function.update_self _ _ _) rfl
      · exact .kept (Function.update_of_ne hx _ _) rfl (.inl (Function.update_of_ne hx _ _))
  | step x answer received =>
      obtain ⟨op, resume, result, u', hpending, -, -, -, hresponded, rfl⟩ :=
        hok.step hreliable hnext
      by_cases hx : h = x
      · subst hx
        exact .stepped op resume result hpending (Function.update_self _ _ _)
          hresponded.environment (congrFun hresponded.stop h)
      · apply Fate.kept
        · simp only [Function.update_of_ne hx, hresponded.slots]
        · exact hresponded.holding (some h) fun heq => hx (Option.some.inj heq)
        · exact .inl (congrFun hresponded.stop h)
  | move x other leftover =>
      obtain ⟨receiver, habsent, hidle, rfl⟩ := move_cases hnext
      have hne : x ≠ other := by
        rintro rfl
        rw [hidle] at habsent
        cases habsent
      by_cases hx : h = x
      · subst hx
        apply Fate.moved other receiver habsent hidle
        · simp only [Function.update_self]
        · simp only [update_holding hne, Function.update_self]
        · simp only [Function.update_self]
      · by_cases hother : h = other
        · subst hother
          apply Fate.left x leftover receiver hidle
          · simp only [Function.update_of_ne hx, Function.update_self]
          · simp only [Function.update_self]
          · simp only [Function.update_of_ne hx, Function.update_self]
          · simp only [Function.update_self]
          · simp only [update_holding hne, Function.update_self]
        · apply Fate.kept
          · simp only [Function.update_of_ne hx, Function.update_of_ne hother]
          · simp only [update_holding hx, update_holding hother]
          · simp only [Function.update_of_ne hx, Function.update_of_ne hother, true_or]
  | run x =>
      obtain ⟨receiver, hidle, rfl⟩ := run_cases hnext
      by_cases hx : h = x
      · subst hx
        exact .ran receiver hidle (Function.update_self _ _ _) rfl rfl
      · exact .kept (Function.update_of_ne hx _ _) rfl (.inl rfl)
  | requestStop x =>
      obtain ⟨receiver, -, rfl⟩ := Option.map_eq_some_iff.mp hnext
      by_cases hx : h = x
      · subst hx
        exact .kept rfl rfl (.inr (Function.update_self _ _ _))
      · exact .kept rfl rfl (.inl (Function.update_of_ne hx _ _))
  | destroy x =>
      obtain ⟨receiver, hidle, rfl⟩ := destroy_cases hnext
      by_cases hx : h = x
      · subst hx
        exact .ended receiver rfl hidle (Function.update_self _ _ _) rfl rfl
      · exact .kept (Function.update_of_ne hx _ _) rfl (.inl rfl)
  | others op result =>
      obtain ⟨k, -, rfl⟩ := Option.map_eq_some_iff.mp hnext
      apply Fate.kept
      · rfl
      · simp only [Function.update_of_ne (Option.some_ne_none h)]
      · exact .inl rfl
  | write o bytes =>
      simp only [next] at hnext
      split at hnext
      case isTrue =>
        obtain rfl := Option.some.inj hnext
        exact .kept rfl rfl (.inl rfl)
      case isFalse => cases hnext

/-- Every action keeps the accounts. -/
theorem Ok.sound_next (hok : s.Ok) (hreliable : s.Reliable a)
    (hnext : s.next inetPton a = some u) : u.Sound := by
  cases a with
  | initializeReceiver x config =>
      obtain ⟨-, rfl⟩ := initializeReceiver_cases hnext
      exact { hok.toSound with }
  | step x answer received =>
      obtain ⟨op, resume, result, u', -, -, -, hsound, -, rfl⟩ := hok.step hreliable hnext
      exact { hsound with }
  | move x other leftover =>
      obtain ⟨receiver, habsent, hidle, rfl⟩ := move_cases hnext
      have hne : some x ≠ some other := by
        intro heq
        rw [Option.some.inj heq, hidle] at habsent
        cases habsent
      exact ⟨hok.shared.takeOver hne,
        Kernel.Shared.cover_takeOver hok.cover (hok.absent habsent), hok.distinct⟩
  | run x =>
      obtain ⟨receiver, -, rfl⟩ := run_cases hnext
      exact { hok.toSound with }
  | requestStop x =>
      obtain ⟨receiver, -, rfl⟩ := Option.map_eq_some_iff.mp hnext
      exact { hok.toSound with }
  | destroy x =>
      obtain ⟨receiver, -, rfl⟩ := destroy_cases hnext
      exact { hok.toSound with }
  | others op result => exact hok.toSound.call hreliable hnext
  | write o bytes =>
      simp only [next] at hnext
      split at hnext
      case isTrue =>
        obtain rfl := Option.some.inj hnext
        exact { hok.toSound with }
      case isFalse => cases hnext

/-- Every action keeps the invariant. -/
theorem next_ok (hok : s.Ok) (hreliable : s.Reliable a) (hnext : s.next inetPton a = some u) :
    u.Ok where
  toSound := hok.sound_next hreliable hnext
  slot h := by
    have hslot := hok.slot h
    cases hok.fate hreliable hnext h with
    | kept slots holding stop =>
        rw [slots, holding]
        obtain hstop | hstop := stop
        · rw [hstop]
          exact hslot
        · rw [hstop]
          exact hslot.requestStop
    | began config absent slots holding =>
        rw [slots, holding, hok.absent absent]
        exact ReceiverSlot.settleInitializing_ok (Initializing.start_holds inetPton config)
    | stepped op resume result pending slots environment stop =>
        rw [slots, stop]
        exact (hslot.step pending).2 result _ environment
    | moved other receiver absent idle slots holding stop =>
        rw [slots, holding, stop, ← idle]
        exact hok.slot other
    | left new leftover receiver idle slots holding stop newSlot newHolding =>
        rw [slots, holding]
        exact .spent (receiver.move_retired (s.stop h) leftover) stop
    | ran receiver idle slots holding stop =>
        rw [slots, holding]
        obtain ⟨r, hlive, htable⟩ | ⟨hretired, htable, hstop⟩ := hok.idle idle
        · exact .alive (r := r) ⟨hlive, htable⟩
        · rw [htable]
          exact .spent ⟨hretired, rfl⟩ (stop.trans hstop)
    | ended receiver called idle slots holding stop =>
        rw [slots, holding]
        obtain ⟨r, hlive, htable⟩ | ⟨hretired, htable, hstop⟩ := hok.idle idle
        · rw [htable]
          exact .departing (ReceiverSlot.settleDestroying_departing hlive.destroy)
        · rw [htable, hretired.destroy.1]
          exact .spent rfl (stop.trans hstop)

/-- The resources stay together until their owner is destroyed; a move hands them on. -/
theorem Bears.next (hbears : s.Bears r h) (hok : s.Ok) (hreliable : s.Reliable a)
    (hkept : a ≠ .destroy h) (hnext : s.next inetPton a = some u) : ∃ x, u.Bears r x := by
  cases hok.fate hreliable hnext h with
  | kept slots holding stop =>
      refine ⟨h, ?_⟩
      rw [Bears, slots, holding]
      exact hbears
  | began config absent slots holding =>
      rw [Bears, absent] at hbears
      cases hbears
  | stepped op resume result pending slots environment stop =>
      refine ⟨h, ?_⟩
      rw [Bears, slots]
      exact (ReceiverSlot.alive_resume hbears pending).2 result _ environment
  | moved other receiver absent idle slots holding stop =>
      rw [Bears, absent] at hbears
      cases hbears
  | left new leftover receiver idle slots holding stop newSlot newHolding =>
      rw [Bears, idle] at hbears
      refine ⟨new, ?_⟩
      rw [Bears, newSlot, newHolding]
      exact hbears
  | ran receiver idle slots holding stop =>
      rw [Bears, idle] at hbears
      refine ⟨h, ?_⟩
      rw [Bears, slots, holding]
      exact hbears
  | ended receiver called idle slots holding stop => exact absurd called hkept

/-- What a move leaves behind stays so. -/
theorem next_spent (hspent : (s.slots h).Spent) (hok : s.Ok) (hreliable : s.Reliable a)
    (hnext : s.next inetPton a = some u) : (u.slots h).Spent := by
  cases hok.fate hreliable hnext h with
  | kept slots holding stop =>
      rw [slots]
      exact hspent
  | began config absent slots holding =>
      rw [absent] at hspent
      cases hspent
  | stepped op resume result pending slots environment stop =>
      obtain ⟨hstop, hempty⟩ := (hok.slot h).of_spent hspent
      rw [hstop, hempty] at environment
      rw [slots]
      exact ((ReceiverSlot.spent_resume hspent pending).2 result _ environment).2
  | moved other receiver absent idle slots holding stop =>
      rw [absent] at hspent
      cases hspent
  | left new leftover receiver idle slots holding stop newSlot newHolding =>
      rw [slots]
      exact receiver.move_retired (s.stop h) leftover
  | ran receiver idle slots holding stop =>
      rw [idle] at hspent
      rw [slots]
      exact ⟨hspent, rfl⟩
  | ended receiver called idle slots holding stop =>
      rw [idle] at hspent
      rw [slots, (Retired.destroy hspent).1]
      rfl

/-- A destructor that was called goes on. -/
theorem next_departing (hdeparting : r.Departing (s.holding (some h)) (s.slots h)) (hok : s.Ok)
    (hreliable : s.Reliable a) (hnext : s.next inetPton a = some u) :
    r.Departing (u.holding (some h)) (u.slots h) := by
  have hnotIdle : ∀ receiver, s.slots h ≠ .idle receiver := by
    intro receiver hidle
    rw [hidle] at hdeparting
    cases hdeparting
  have hnotAbsent : s.slots h ≠ .absent := by
    intro habsent
    rw [habsent] at hdeparting
    cases hdeparting
  cases hok.fate hreliable hnext h with
  | kept slots holding stop =>
      rw [slots, holding]
      exact hdeparting
  | stepped op resume result pending slots environment stop =>
      rw [slots]
      exact (ReceiverSlot.departing_resume hdeparting pending).2 result _ environment
  | began config absent slots holding => exact absurd absent hnotAbsent
  | moved other receiver absent idle slots holding stop => exact absurd absent hnotAbsent
  | left new leftover receiver idle slots holding stop newSlot newHolding =>
      exact absurd idle (hnotIdle receiver)
  | ran receiver idle slots holding stop => exact absurd idle (hnotIdle receiver)
  | ended receiver called idle slots holding stop => exact absurd idle (hnotIdle receiver)

end Receivers

end EventEngine
