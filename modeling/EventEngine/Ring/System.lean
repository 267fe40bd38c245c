import EventEngine.Concurrency.Transition
import EventEngine.Ring.ClientLog
import EventEngine.Ring.Initialize

/-!
# A ring shared by its producer, its consumer and its creator

The state of the system is the memory and the three clients. An action begins a call or
performs one access of a call in progress, so a run is a sequentially consistent
interleaving at the granularity of single accesses. The three handles are those that
`initialize` returned; a producer or a consumer replaces its handle with `attach`.
-/

namespace EventEngine.Ring

open Concurrency Memory

/-- The ring is closed and has no event left. -/
def Drained (m : Span) : Prop := stateOf m = stateClosed ∧ readPos m = writePos m

/-- The system; `published` are the events whose cursor store has been executed. -/
structure System where
  memory : Span
  producer : Client
  consumer : Client
  creator : Client
  published : List Event

inductive Action where
  | begin (role : Role) (call : Call)
  | step (role : Role)
  deriving DecidableEq, Repr

/-- A handle on which nothing has been called yet. -/
def Client.idle (handle : SpscRing) : Client := ⟨handle, none, []⟩

namespace System

/-- The system right after the three sides got their handles. -/
def start (m : Span) (producer consumer creator : SpscRing) : System :=
  ⟨m, .idle producer, .idle consumer, .idle creator, []⟩

def client (s : System) : Role → Client
  | .producer => s.producer
  | .consumer => s.consumer
  | .creator => s.creator

/-- One action, if it is possible. -/
def next (s : System) : Action → Option System
  | .begin role call =>
      if role.permits (s.client role).handle call = true then
        match (s.client role).begin call s.memory with
        | none => none
        | some k =>
            match role with
            | .producer => some { s with producer := k }
            | .consumer => some { s with consumer := k }
            | .creator => some { s with creator := k }
      else none
  | .step role =>
      match (s.client role).step s.memory with
      | none => none
      | some (k, m) =>
          match role with
          | .producer => some ⟨m, k, s.consumer.observe m, s.creator.observe m,
              s.published ++ s.producer.publishing.toList⟩
          | .consumer => some ⟨m, s.producer.observe m, k, s.creator.observe m, s.published⟩
          | .creator => some ⟨m, s.producer.observe m, s.consumer.observe m, k, s.published⟩

/-- The producer is inside a `try_publish`. -/
def Publishing (s : System) : Prop :=
  (s.producer.running.bind fun r => r.call.event).isSome = true

/-- The contract of `close_publication`: it overlaps no `try_publish`. -/
def quietClosing (s : System) : Action → Prop
  | .begin .creator _ => ¬ s.Publishing
  | .begin .producer (.tryPublish _) => s.creator.running = none
  | _ => True

/-- The invariant of the system; `base` is the history at the start. -/
structure Ok (c : Setting) (base hist : List Event) (s : System) : Prop where
  ring : RingInv c s.memory hist
  producer : ClientOk c .producer s.producer s.memory hist
  consumer : ClientOk c .consumer s.consumer s.memory hist
  creator : ClientOk c .creator s.creator s.memory hist
  published : hist = base ++ s.published
  producerLog : ProducerLog base s.producer hist
  consumerLog : ConsumerLog c s.consumer s.memory hist
  quiet : c.quiet → s.creator.running = none ∨ ¬ s.Publishing

variable {c : Setting} {base hist : List Event} {s t : System}

/-- Fresh handles on a ring with the invariant. -/
theorem ok_start {m : Span} {producer consumer creator : SpscRing}
    (hinv : RingInv c m base) (hproducer : ProducerHandle c.geometry producer m)
    (hconsumer : ConsumerHandle c.geometry consumer m)
    (hcreator : HandleGeometry c.geometry creator) (hread : readPos m = c.start)
    (hfree : consumer.acquired = false) :
    Ok c base base (start m producer consumer creator) where
  ring := hinv
  producer :=
    { entry := hproducer
      idle := fun _ => rfl
      busy := fun _ h => by cases h
      log := fun _ h => by cases h }
  consumer :=
    { entry := hconsumer
      idle := fun _ => rfl
      busy := fun _ h => by cases h
      log := fun _ h => by cases h }
  creator :=
    { entry := hcreator
      idle := fun _ => rfl
      busy := fun _ h => by cases h
      log := fun _ h => by cases h }
  published := (List.append_nil base).symm
  producerLog := (List.append_nil base).symm
  consumerLog :=
    { taken := fun _ => by
        change [] = base.take (readPos m - c.start + if consumer.acquired = true then 1 else 0)
        rw [hread, hfree, Nat.sub_self]
        rfl
      releases := by
        change 0 + c.start = readPos m
        rw [hread, Nat.zero_add]
      held := hfree }
  quiet _ := .inl rfl

/-- How the memories and the histories of two states of a run are related. -/
structure Later (c : Setting) (s t : System) (hist hist' : List Event) : Prop where
  read : readPos s.memory ≤ readPos t.memory
  write : writePos s.memory ≤ writePos t.memory
  history : hist <+: hist'
  closed : stateOf s.memory = stateClosed → stateOf t.memory = stateClosed
  drained : c.quiet → Drained s.memory → Drained t.memory

theorem Later.of_eq (h : t.memory = s.memory) (hist : List Event) : Later c s t hist hist :=
  ⟨by rw [h], by rw [h], List.prefix_rfl, fun hc => by rwa [h], fun _ hd => by rwa [h]⟩

theorem Later.trans {u : System} {hist' hist'' : List Event} (h : Later c s t hist hist')
    (h' : Later c t u hist' hist'') : Later c s u hist hist'' :=
  ⟨Nat.le_trans h.read h'.read, Nat.le_trans h.write h'.write, h.history.trans h'.history,
    fun hc => h'.closed (h.closed hc), fun q hd => h'.drained q (h.drained q hd)⟩

/-- The steps of other sides do not begin a publication. -/
theorem not_publishing_observe {m : Span} {consumer creator : Client} {events : List Event}
    (h : ¬ s.Publishing) :
    ¬ Publishing ⟨m, s.producer.observe m, consumer, creator, events⟩ := by
  unfold Publishing Client.observe at *
  cases hrun : s.producer.running with
  | none => simp
  | some r => simpa [hrun] using h

theorem begin_ok {role : Role} {call : Call} (h : Ok c base hist s)
    (hquiet : c.quiet → s.quietClosing (.begin role call))
    (hnext : s.next (.begin role call) = some t) :
    Ok c base hist t ∧ Later c s t hist hist := by
  simp only [next] at hnext
  split at hnext
  case isFalse => cases hnext
  case isTrue hperm =>
    cases hbegin : (s.client role).begin call s.memory with
    | none => rw [hbegin] at hnext; cases hnext
    | some k =>
        rw [hbegin] at hnext
        cases role with
        | producer =>
            obtain rfl := Option.some.inj hnext
            obtain ⟨r, hcall, hentry, -, -, hsettles, hok⟩ := h.producer.begin h.ring hperm hbegin
            refine ⟨?_, Later.of_eq (by rfl) hist⟩
            exact
              { h with
                producer := hok
                producerLog := hsettles.producerLog h.producerLog
                  (by rw [hentry, hcall]; exact hperm) (fun _ => rfl)
                quiet := fun q => by
                  by_cases hpub : r.call.event.isSome = true
                  · obtain ⟨event, hevent⟩ := Call.event_isSome hpub
                    have hcreator := hquiet q
                    rw [← hcall, hevent] at hcreator
                    exact .inl hcreator
                  · refine .inr ?_
                    obtain hrun | hrun := hsettles.running
                    · simpa [Publishing, hrun] using hpub
                    · simp [Publishing, hrun] }
        | consumer =>
            obtain rfl := Option.some.inj hnext
            obtain ⟨r, hcall, hentry, -, hidle, hsettles, hok⟩ :=
              h.consumer.begin h.ring hperm hbegin
            refine ⟨?_, Later.of_eq (by rfl) hist⟩
            exact
              { h with
                consumer := hok
                consumerLog := hsettles.consumerLog h.consumerLog h.ring rfl
                  (by rw [hentry, hcall]; exact hperm)
                  (hentry.trans (h.consumer.idle hidle).symm) h.consumer.entry
                  (fun _ _ _ _ => rfl) (.inl rfl) }
        | creator =>
            obtain rfl := Option.some.inj hnext
            obtain ⟨r, -, -, -, -, -, hok⟩ := h.creator.begin h.ring hperm hbegin
            refine ⟨?_, Later.of_eq (by rfl) hist⟩
            exact
              { h with
                creator := hok
                quiet := fun q => .inr (hquiet q) }

/-- The producer performs an access. -/
theorem step_producer_ok (h : Ok c base hist s) (hnext : s.next (.step .producer) = some t) :
    ∃ hist', Ok c base hist' t ∧ Later c s t hist hist' := by
  simp only [next] at hnext
  cases hstep : (s.client .producer).step s.memory with
  | none => rw [hstep] at hnext; cases hnext
  | some result =>
      obtain ⟨k, m⟩ := result
      rw [hstep] at hnext
      obtain rfl := Option.some.inj hnext
      obtain ⟨r, r', op, now, hadv, hperm, hok⟩ := h.producer.step h.ring hstep
      obtain ⟨hcall', hentry', -⟩ := hadv.same
      obtain ⟨hrely, hnow, hattach⟩ := hadv.consumerRely hperm
      have hnow : now = hist ++ s.producer.publishing.toList := hnow
      refine ⟨now, ?_, ⟨Nat.le_of_eq hrely.readPos_eq.symm, hrely.write, hrely.history,
        hrely.closed, fun q hd => ⟨hrely.closed hd.1, hrely.drained h.ring hadv.inv q hd.1 hd.2⟩⟩⟩
      exact
        { ring := hadv.inv
          producer := hok
          consumer := h.consumer.observe_consumer hrely
          creator := h.creator.observe_creator
          published := by rw [hnow, ← List.append_assoc, ← h.published]
          producerLog := hadv.settles.producerLog h.producerLog
            (by rw [hentry', hcall']; exact hperm) (fun h => hattach (hcall' ▸ h))
          consumerLog := h.consumerLog.observe h.ring h.consumer.entry hrely
          quiet := fun q => by
            obtain hidle | hnot := h.quiet q
            · refine .inl ?_
              change (s.creator.observe m).running = none
              rw [Client.observe, hidle]
              rfl
            · refine .inr ?_
              have hbefore : ¬ r.call.event.isSome = true := by
                simpa [Publishing, hadv.running] using hnot
              obtain hrun | hrun := hadv.settles.running
              · simpa [Publishing, hrun, hcall'] using hbefore
              · simp [Publishing, hrun] }

/-- The consumer performs an access. -/
theorem step_consumer_ok (h : Ok c base hist s) (hnext : s.next (.step .consumer) = some t) :
    ∃ hist', Ok c base hist' t ∧ Later c s t hist hist' := by
  simp only [next] at hnext
  cases hstep : (s.client .consumer).step s.memory with
  | none => rw [hstep] at hnext; cases hnext
  | some result =>
      obtain ⟨k, m⟩ := result
      rw [hstep] at hnext
      obtain rfl := Option.some.inj hnext
      obtain ⟨r, r', op, now, hadv, hperm, hok⟩ := h.consumer.step h.ring hstep
      obtain ⟨hcall', hentry', -⟩ := hadv.same
      have hrentry : r.entry = s.consumer.entry := by
        rw [Client.entry, show s.consumer.running = some r from hadv.running]
      have hguar := hadv.consumerGuar hperm
      have hmem := hadv.consumer_memory h.consumer hperm
      have hwaits : ∀ l op' next, r'.process = .step l op' next → m = s.memory := by
        intro l op' next hp
        obtain hm | ⟨hrel, -⟩ := hmem
        · exact hm
        · exact hadv.loads l op' next hp (.inr hrel)
      have hnow : now = hist := hguar.history
      subst hnow
      have hrely : ProducerRely c s.memory now m now := hguar.producerRely
      have hwrite : writePos m = writePos s.memory := congrArg UInt64.toNat hrely.writePos_eq
      have hclosed : stateOf s.memory = stateClosed → stateOf m = stateClosed := by
        intro hclosed
        obtain hsame | hnow := hrely.state
        · rw [hsame, hclosed]
        · exact hnow
      have hdrained : Drained s.memory → Drained m := by
        rintro ⟨hstate, hempty⟩
        have hle := hadv.inv.read_le
        have hread := hguar.read
        exact ⟨hclosed hstate, by omega⟩
      refine ⟨now, ?_, ⟨hguar.read, Nat.le_of_eq hwrite.symm, List.prefix_rfl, hclosed,
        fun _ => hdrained⟩⟩
      exact
        { ring := hadv.inv
          producer := h.producer.observe_producer hguar.read fun _ _ _ _ => hrely
          consumer := hok
          creator := h.creator.observe_creator
          published := h.published
          producerLog := h.producerLog
          consumerLog := hadv.settles.consumerLog h.consumerLog h.ring rfl
            (by rw [hentry', hcall']; exact hperm) (hentry'.trans hrentry) h.consumer.entry
            hwaits (by rw [hcall', hentry']; exact hmem)
          quiet := fun q => by
            obtain hidle | hnot := h.quiet q
            · refine .inl ?_
              change (s.creator.observe m).running = none
              rw [Client.observe, hidle]
              rfl
            · exact .inr (not_publishing_observe hnot) }

/-- The creator performs its access. -/
theorem step_creator_ok (h : Ok c base hist s) (hnext : s.next (.step .creator) = some t) :
    ∃ hist', Ok c base hist' t ∧ Later c s t hist hist' := by
  simp only [next] at hnext
  cases hstep : (s.client .creator).step s.memory with
  | none => rw [hstep] at hnext; cases hnext
  | some result =>
      obtain ⟨k, m⟩ := result
      rw [hstep] at hnext
      obtain rfl := Option.some.inj hnext
      obtain ⟨r, r', op, now, hadv, hperm, hok⟩ := h.creator.step h.ring hstep
      have hguar := hadv.creatorGuar hperm
      have hnow : now = hist := hguar.history
      subst hnow
      have hrely : ConsumerRely c s.memory now m now := hguar.consumerRely
      have hread : readPos s.memory ≤ readPos m := Nat.le_of_eq hrely.readPos_eq.symm
      have hproducer : ∀ r' event, s.producer.running = some r' → r'.call = .tryPublish event →
          ProducerRely c s.memory now m now := by
        intro r' event hrun hcall
        refine hguar.producerRely fun q => ?_
        have hactive : s.creator.running = some r := hadv.running
        obtain hidle | hnot := h.quiet q
        · rw [hactive] at hidle
          cases hidle
        · exact hnot (by simp [Publishing, hrun, hcall, Call.event])
      refine ⟨now, ?_, ⟨hread, hrely.write, List.prefix_rfl, hrely.closed, fun q hd =>
        ⟨hrely.closed hd.1, hrely.drained h.ring hadv.inv q hd.1 hd.2⟩⟩⟩
      exact
        { ring := hadv.inv
          producer := h.producer.observe_producer hread hproducer
          consumer := h.consumer.observe_consumer hrely
          creator := hok
          published := h.published
          producerLog := h.producerLog
          consumerLog := h.consumerLog.observe h.ring h.consumer.entry hrely
          quiet := fun q => by
            have hactive : s.creator.running = some r := hadv.running
            obtain hidle | hnot := h.quiet q
            · rw [hactive] at hidle
              cases hidle
            · exact .inr (not_publishing_observe hnot) }

/-- Every action keeps the invariant; a quiet ring needs the discipline of closing. -/
theorem next_ok {a : Action} (h : Ok c base hist s) (hquiet : c.quiet → s.quietClosing a)
    (hnext : s.next a = some t) : ∃ hist', Ok c base hist' t ∧ Later c s t hist hist' := by
  cases a with
  | begin role call => exact ⟨hist, begin_ok h hquiet hnext⟩
  | step role =>
      cases role with
      | producer => exact step_producer_ok h hnext
      | consumer => exact step_consumer_ok h hnext
      | creator => exact step_creator_ok h hnext

/-- Every reachable state has the invariant and is later than the state it is reached
from. -/
theorem reaches_ok {discipline : System → Action → Prop} (h : Ok c base hist s)
    (hquiet : ∀ u a, discipline u a → c.quiet → u.quietClosing a)
    (hrun : Reaches next discipline s t) : ∃ hist', Ok c base hist' t ∧ Later c s t hist hist' := by
  induction hrun with
  | refl => exact ⟨hist, h, Later.of_eq rfl hist⟩
  | tail _ hstep ih =>
      obtain ⟨hist1, hok, hlater⟩ := ih
      obtain ⟨a, ha, hn⟩ := hstep
      obtain ⟨hist2, hok', hlater'⟩ := next_ok hok (hquiet _ a ha) hn
      exact ⟨hist2, hok', hlater.trans hlater'⟩

end System

end EventEngine.Ring
