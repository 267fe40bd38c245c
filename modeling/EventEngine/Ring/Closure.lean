import EventEngine.Ring.Queue

/-!
# Closure is final and loses nothing

The creator closes the ring while no publication is in progress. Once an acquisition has
answered `Closed`, the consumer has everything that was published, and stays closed.
-/

namespace EventEngine.Ring

open Concurrency Memory

variable {g : Geometry} {handle : SpscRing} {m m' : Span} {s t : System} {k k' : Client}
variable {c : Setting} {base hist : List Event}

/-- The acquisition was answered `Closed`. -/
def Completed.SawClosed (e : Completed) : Prop := e.reply = .acquire (.error .closed)

/-- How the log of a client evolves: a call in progress keeps the memory it began in, and a
call that returns does so in the new memory. -/
inductive LogMoves (k : Client) (m : Span) (k' : Client) (m' : Span) : Prop where
  | waits : k'.completed = k.completed →
      (∀ r', k'.running = some r' → r'.start = m ∨ ∃ r, k.running = some r ∧ r'.start = r.start) →
      LogMoves k m k' m'
  | returns (e : Completed) : k'.completed = e :: k.completed → k'.running = none →
      e.finish = m' → (e.start = m ∨ ∃ r, k.running = some r ∧ e.start = r.start) →
      LogMoves k m k' m'

theorem LogMoves.settle {r : Running}
    (hstart : r.start = m ∨ ∃ r0, k.running = some r0 ∧ r.start = r0.start) :
    LogMoves k m (k.settle r m') m' := by
  unfold Client.settle
  cases r.process with
  | done reply l => exact .returns _ rfl rfl rfl hstart
  | step l op next =>
      refine .waits rfl fun r' hr' => ?_
      obtain rfl : r = r' := Option.some.inj hr'
      exact hstart

theorem LogMoves.begin {call : Call} (h : k.begin call m = some k') : LogMoves k m k' m := by
  unfold Client.begin at h
  cases hr : k.running with
  | some r => rw [hr] at h; cases h
  | none =>
      rw [hr] at h
      obtain rfl := Option.some.inj h
      exact .settle (.inl rfl)

theorem LogMoves.step (h : k.step m = some (k', m')) : LogMoves k m k' m' := by
  unfold Client.step at h
  split at h
  case h_1 call entry start l op next instants stored hr =>
    obtain ⟨rfl, rfl⟩ := Prod.mk.inj (Option.some.inj h)
    exact .settle (.inr ⟨_, hr, rfl⟩)
  case h_2 => cases h

theorem LogMoves.observe : LogMoves k m (k.observe m') m' := by
  refine .waits rfl fun r' hr' => .inr ?_
  obtain ⟨r, hr, rfl⟩ := Option.map_eq_some_iff.mp hr'
  exact ⟨r, hr, rfl⟩

theorem LogMoves.refl : LogMoves k m k m := .waits rfl fun r' hr' => .inr ⟨r', hr', rfl⟩

theorem LogMoves.next {a : Action} (h : s.next a = some t) :
    LogMoves s.consumer s.memory t.consumer t.memory := by
  cases a with
  | begin role call =>
      simp only [System.next] at h
      split at h
      case isFalse => cases h
      case isTrue hperm =>
        cases hbegin : (s.client role).begin call s.memory with
        | none => rw [hbegin] at h; cases h
        | some k =>
            rw [hbegin] at h
            cases role with
            | producer => obtain rfl := Option.some.inj h; exact .refl
            | consumer => obtain rfl := Option.some.inj h; exact .begin hbegin
            | creator => obtain rfl := Option.some.inj h; exact .refl
  | step role =>
      simp only [System.next] at h
      cases hstep : (s.client role).step s.memory with
      | none => rw [hstep] at h; cases h
      | some result =>
          obtain ⟨k, m⟩ := result
          rw [hstep] at h
          cases role with
          | producer => obtain rfl := Option.some.inj h; exact .observe
          | consumer => obtain rfl := Option.some.inj h; exact .step hstep
          | creator => obtain rfl := Option.some.inj h; exact .observe

/-- After an answer `Closed`, the ring is drained, a call in progress began so, and every
later acquisition is answered `Closed` as well. -/
structure ClosedFinal (k : Client) (m : Span) : Prop where
  drained : ∀ e ∈ k.completed, e.SawClosed → Drained m ∧ ∀ r, k.running = some r → Drained r.start
  later : ∀ newer e older, k.completed = newer ++ e :: older → e.SawClosed →
    ∀ e' ∈ newer, e'.call = .tryAcquire → e'.SawClosed

/-- An acquisition answered `Closed` returned in a drained ring. -/
theorem EntryOk.sawClosed {e : Completed} (h : EntryOk c e) (hclosed : e.SawClosed) :
    Drained e.finish := by
  obtain ⟨⟨hist, l, now, hpost⟩, -⟩ := h
  rw [hclosed] at hpost
  cases hcall : e.call with
  | tryAcquire =>
      rw [hcall] at hpost
      obtain ⟨r, hr, hacq⟩ := hpost
      obtain rfl := Reply.acquire.inj hr
      split at hacq
      · cases hacq.1
      · exact hacq.answer.2
  | tryPublish event => rw [hcall] at hpost; obtain ⟨r, hr, -⟩ := hpost; cases hr
  | release => rw [hcall] at hpost; obtain ⟨r, hr, -⟩ := hpost; cases hr
  | attach => rw [hcall] at hpost; cases hpost.1
  | closePublication => rw [hcall] at hpost; cases hpost.1

/-- An acquisition that began in a drained ring is answered `Closed`, if it also returned in
one: then it held no slot. -/
theorem EntryOk.closed_of_drained {e : Completed} (h : EntryOk c e) (q : c.quiet)
    (hcall : e.call = .tryAcquire) (hstart : Drained e.start) (hfinish : Drained e.finish) :
    e.SawClosed := by
  obtain ⟨⟨hist, l, now, hpost⟩, -⟩ := h
  rw [hcall] at hpost
  obtain ⟨r, hr, hacq⟩ := hpost
  split at hacq
  case isTrue hheld =>
    obtain ⟨-, rfl, hhandle⟩ := hacq
    have hlt : readPos e.finish < writePos e.finish := (hhandle.held hheld).2
    have heq := hfinish.2
    omega
  case isFalse =>
    rw [Completed.SawClosed, hr, hacq.drained q hstart.1 hstart.2]

theorem ClosedFinal.next {hist' : List Event} (h : ClosedFinal s.consumer s.memory)
    (hok : System.Ok c base hist' t) (hlater : System.Later c s t hist hist') (q : c.quiet)
    (hmoves : LogMoves s.consumer s.memory t.consumer t.memory) :
    ClosedFinal t.consumer t.memory := by
  -- What a call in progress or just returned began in, once some answer was `Closed`.
  have hbegan : ∀ e ∈ s.consumer.completed, e.SawClosed → ∀ start,
      (start = s.memory ∨ ∃ r, s.consumer.running = some r ∧ start = r.start) →
        Drained start := by
    intro e he hclosed start hstart
    obtain ⟨hmem, hrunning⟩ := h.drained e he hclosed
    obtain rfl | ⟨r, hr, rfl⟩ := hstart
    · exact hmem
    · exact hrunning r hr
  cases hmoves with
  | waits hsame hstart =>
      constructor
      · intro e he hclosed
        rw [hsame] at he
        exact ⟨hlater.drained q (h.drained e he hclosed).1,
          fun r' hr' => hbegan e he hclosed _ (hstart r' hr')⟩
      · intro newer e older hsplit
        rw [hsame] at hsplit
        exact h.later newer e older hsplit
  | returns e hnew hidle hfinish hstart =>
      have hentry : EntryOk c e := hok.consumer.log e (by rw [hnew]; exact List.mem_cons_self)
      constructor
      · intro e0 he0 hclosed
        rw [hnew] at he0
        refine ⟨?_, fun r hr => by rw [hidle] at hr; cases hr⟩
        obtain rfl | hold := List.mem_cons.mp he0
        · rw [← hfinish]
          exact hentry.sawClosed hclosed
        · exact hlater.drained q (h.drained e0 hold hclosed).1
      · intro newer e0 older hsplit hclosed e' he' hcall
        rw [hnew] at hsplit
        cases newer with
        | nil => cases he'
        | cons first rest =>
            obtain ⟨rfl, hrest⟩ := List.cons.inj hsplit
            have hmem : e0 ∈ s.consumer.completed := by
              rw [hrest]
              exact List.mem_append_right _ List.mem_cons_self
            obtain rfl | hin := List.mem_cons.mp he'
            · refine hentry.closed_of_drained q hcall (hbegan e0 hmem hclosed _ hstart) ?_
              rw [hfinish]
              exact hlater.drained q (h.drained e0 hmem hclosed).1
            · exact h.later rest e0 older hrest hclosed e' hin hcall

/-- The invariant of closure holds in every state of a run with quiet closing. -/
theorem Initialized.closedFinal (hinit : Initialized g handle m)
    (hrun : Reaches System.next System.quietClosing (System.initial m handle) s) :
    ∃ hist, System.Ok ⟨g, 0, True, True⟩ [] hist s ∧ ClosedFinal s.consumer s.memory := by
  induction hrun with
  | refl =>
      obtain ⟨hist, hok⟩ := hinit.reaches_ok (q := True) (fun _ _ h _ => h) .refl
      refine ⟨hist, hok, ⟨fun e he => (by cases he), fun newer e older hsplit => ?_⟩⟩
      have hlen := congrArg List.length hsplit
      simp [System.initial, System.start, Client.idle] at hlen
  | tail _ hstep ih =>
      obtain ⟨hist, hok, hfinal⟩ := ih
      obtain ⟨a, ha, hn⟩ := hstep
      obtain ⟨hist', hok', hlater⟩ := System.next_ok hok (fun _ => ha) hn
      exact ⟨hist', hok', hfinal.next hok' hlater trivial (LogMoves.next hn)⟩

/-- In a drained ring the consumer has taken and given back everything. -/
theorem System.Ok.all_taken {q : Prop} (hok : System.Ok ⟨g, 0, True, q⟩ [] hist s)
    (hdrained : Drained s.memory) :
    s.consumer.acquiredEvents = s.producer.publishedEvents ∧
      s.consumer.releases = s.producer.publishedEvents.length ∧ s.consumer.heldView = none := by
  have hempty := hdrained.2
  have hpublished : hist = s.producer.publishedEvents := hok.producerLog
  have hwrite := hok.ring.write_eq
  have hreleases := hok.consumerLog.releases
  simp only [Nat.add_zero, Nat.zero_add] at hwrite hreleases
  -- A held slot would be a queued one.
  have hfree : s.consumer.entry.acquired = false := by
    by_contra hheld
    have hlt := (hok.consumer.entry.held (by simpa using hheld)).2
    omega
  refine ⟨?_, ?_, ?_⟩
  · rw [hok.consumerLog.taken trivial, hfree, ← hpublished]
    refine List.take_of_length_le ?_
    simp only [Bool.false_eq_true, if_false]
    omega
  · rw [← hpublished]
    omega
  · have hheld := hok.consumerLog.held
    rw [hfree] at hheld
    cases hview : s.consumer.heldView with
    | none => rfl
    | some pair =>
        rw [hview] at hheld
        exact Bool.noConfusion hheld.1

/-- If an acquisition answered `Closed`, the consumer has acquired and given back every
event whose publication returned `Ok`, and every later acquisition answers `Closed`; an
acquisition that begins after the close never answers `Empty`. -/
theorem closure_final (hinit : Initialized g handle m)
    (hrun : Reaches System.next System.quietClosing (System.initial m handle) s) :
    (∀ newer e older, s.consumer.completed = newer ++ e :: older →
      e.reply = .acquire (.error .closed) →
      s.consumer.acquiredEvents = s.producer.publishedEvents ∧
      s.consumer.releases = s.producer.publishedEvents.length ∧ s.consumer.heldView = none ∧
      ∀ e' ∈ newer, e'.call = .tryAcquire → e'.reply = .acquire (.error .closed)) ∧
    (∀ e ∈ s.consumer.completed, e.call = .tryAcquire → stateOf e.start = stateClosed →
      e.reply ≠ .acquire (.error .empty)) := by
  obtain ⟨hist, hok, hfinal⟩ := hinit.closedFinal hrun
  constructor
  · intro newer e older hsplit hclosed
    have hmem : e ∈ s.consumer.completed := by
      rw [hsplit]
      exact List.mem_append_right _ List.mem_cons_self
    obtain ⟨htaken, hreleases, hfree⟩ := hok.all_taken (hfinal.drained e hmem hclosed).1
    exact ⟨htaken, hreleases, hfree, hfinal.later newer e older hsplit hclosed⟩
  · intro e he _ hstart hempty
    exact (hok.consumer.log e he).began_open hempty hstart

/-- Whether a reply is the answer `Closed` to an acquisition. -/
def Reply.isClosed : Reply → Bool
  | .acquire (.error .closed) => true
  | _ => false

theorem Reply.eq_of_isClosed {reply : Reply} (h : reply.isClosed = true) :
    reply = .acquire (.error .closed) := by
  unfold Reply.isClosed at h
  split at h
  case h_1 => rfl
  case h_2 => cases h

/-- One publication and its acquisition, then the close, and an acquisition by a handle that
was attached after it. -/
def sampleClosing : List Action :=
  sampleActions ++ [.begin .consumer .release, .step .consumer,
    .begin .creator .closePublication, .step .creator, .begin .consumer .attach] ++
    List.replicate 145 (.step .consumer) ++ .begin .consumer .tryAcquire ::
    List.replicate 3 (.step .consumer)

theorem closure_final_sample :
    ∃ s, runActions System.next System.quietClosing (System.initial sampleMemory sampleHandle)
        sampleClosing = some s ∧ s.producer.publishedEvents = [sampleEvent] ∧
      s.consumer.acquiredEvents = s.producer.publishedEvents := by
  have hrun : (runActions System.next System.quietClosing
      (System.initial sampleMemory sampleHandle) sampleClosing).map (fun s =>
        (s.producer.publishedEvents, s.consumer.completed.head?.map fun e =>
          e.reply.isClosed)) = some ([sampleEvent], some true) := by
    decide +kernel
  obtain ⟨s, hs, hlog⟩ := Option.map_eq_some_iff.mp hrun
  obtain ⟨hpublished, hhead⟩ := Prod.mk.inj hlog
  obtain ⟨e, he, hclosed⟩ := Option.map_eq_some_iff.mp hhead
  obtain ⟨older, holder⟩ := List.head?_eq_some_iff.mp he
  refine ⟨s, hs, hpublished, ?_⟩
  exact ((closure_final initialized_sample (reaches_of_runActions hs)).1 [] e older holder
    (Reply.eq_of_isClosed hclosed)).1

end EventEngine.Ring
