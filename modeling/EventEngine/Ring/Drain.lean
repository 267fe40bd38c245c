import EventEngine.Ring.Operate

/-!
# A consumer that keeps acquiring and releasing

When only the consumer is left, each of its calls returns, and after the ring is closed every
acquisition takes the next event or answers `Closed`. So it gets to the end of the queue.
-/

namespace EventEngine.Ring

open Concurrency Memory

variable {c : Setting} {base hist : List Event} {s t : System} {call : Call}

/-- Only the consumer moves. -/
def ConsumerOnly (_ : System) (a : Action) : Prop := a.actor = .consumer

/-- An acquisition that held no slot and began after the close took an event or answered
`Closed`. -/
theorem EntryOk.taken_or_closed {e : Completed} (h : EntryOk c e) (trusted : c.trusted)
    (hcall : e.call = .tryAcquire) (hfree : e.entry.acquired = false)
    (hclosed : stateOf e.start = stateClosed) :
    (∃ view, e.reply = .acquire (.ok view)) ∨ e.reply = .acquire (.error .closed) := by
  obtain hview | hempty | hanswer := h.acquire_answer trusted hcall hfree
  · exact .inl hview
  · exact absurd hclosed (h.began_open hempty)
  · exact .inr hanswer

/-- Giving back a held slot succeeds. -/
theorem EntryOk.released_held {e : Completed} (h : EntryOk c e) (hcall : e.call = .release)
    (hheld : e.entry.acquired = true) : e.reply = .release true := by
  rw [h.released hcall, hheld]

theorem SameCalls.trans {k k' k'' : Client} (h : SameCalls k k') (h' : SameCalls k' k'') :
    SameCalls k k'' :=
  ⟨h'.completed.trans h.completed, h'.running.trans h.running, h'.entry.trans h.entry,
    h'.handle.trans h.handle⟩

namespace System

/-- Only the consumer moved between `s` and `t`. -/
structure Alone (c : Setting) (base hist : List Event) (s t : System) : Prop where
  reaches : Reaches next ConsumerOnly s t
  ok : Ok c base hist t
  closed : stateOf s.memory = stateClosed → stateOf t.memory = stateClosed
  producer : SameCalls s.producer t.producer
  creator : SameCalls s.creator t.creator

theorem Alone.refl (h : Ok c base hist s) : Alone c base hist s s :=
  ⟨.refl, h, id, .refl _, .refl _⟩

theorem Alone.trans {u : System} (h : Alone c base hist s t) (h' : Alone c base hist t u) :
    Alone c base hist s u :=
  ⟨Relation.ReflTransGen.trans h.reaches h'.reaches, h'.ok, fun hc => h'.closed (h.closed hc),
    h.producer.trans h'.producer, h.creator.trans h'.creator⟩

/-- Between `s` and `t` the consumer made the call `e`. -/
structure Called (c : Setting) (base hist : List Event) (s : System) (e : Completed)
    (t : System) : Prop extends Alone c base hist s t where
  idle : t.consumer.running = none
  completed : t.consumer.completed = e :: s.consumer.completed

/-- The history is what the producer's calls say. -/
theorem Ok.hist_eq {hist' : List Event} (h : Ok c base hist s) (h' : Ok c base hist' t)
    (hproducer : SameCalls s.producer t.producer) : hist' = hist := by
  have hbefore : hist = base ++ s.producer.publishedEvents := h.producerLog
  have hafter : hist' = base ++ t.producer.publishedEvents := h'.producerLog
  rw [hbefore, hafter, Client.publishedEvents, Client.publishedEvents, hproducer.completed]

/-- The consumer moves. -/
theorem Ok.consumer_moves {a : Action} (h : Ok c base hist s) (ha : a.actor = .consumer)
    (hnext : s.next a = some t) : Alone c base hist s t := by
  have hquiet : s.quietClosing a := by
    cases a with
    | begin role call =>
        obtain rfl : role = .consumer := ha
        trivial
    | step role => trivial
  obtain ⟨hist', hok, hlater⟩ := next_ok h (fun _ => hquiet) hnext
  obtain ⟨hothers, -⟩ := next_cases hnext
  rw [ha] at hothers
  have hproducer : SameCalls s.producer t.producer := hothers .producer (by simp)
  rw [h.hist_eq hok hproducer] at hok
  exact ⟨.single ⟨a, ha, hnext⟩, hok, hlater.closed, hproducer, hothers .creator (by simp)⟩

/-- A call in progress returns, by induction on what is left of it. -/
theorem Ok.finish (p : Process spanAccess SpscRing Reply) {s : System} {r : Running}
    (h : Ok c base hist s) (hr : s.consumer.running = some r) (hp : r.process = p) :
    ∃ e t, Called c base hist s e t ∧ e.call = r.call ∧ e.entry = r.entry ∧ e.start = r.start := by
  induction p generalizing s r with
  | done reply l =>
      obtain ⟨-, ⟨op, next, hstep⟩, -⟩ := h.consumer.busy r hr
      rw [hp] at hstep
      cases hstep
  | step l op next ih =>
      obtain ⟨call, entry, start, process, instants, stored⟩ := r
      obtain rfl : process = .step l op next := hp
      generalize hanswer : @spanExec Unit op () s.memory = answer
      let r' : Running := ⟨call, entry, start, next answer.1, answer.2 :: instants,
        stored || op.isStore⟩
      let t : System := ⟨answer.2, s.producer.observe answer.2, s.consumer.settle r' answer.2,
        s.creator.observe answer.2, s.published⟩
      have hstep : (s.client .consumer).step s.memory =
          some (s.consumer.settle r' answer.2, answer.2) := by
        change s.consumer.step s.memory = _
        simp only [Client.step, hr, hanswer]
        rfl
      have hnext : s.next (.step .consumer) = some t := by
        simp only [System.next, hstep]
        rfl
      have hfirst := h.consumer_moves rfl hnext
      cases hp' : next answer.1 with
      | done reply l' =>
          let e : Completed := ⟨call, entry, start, reply, answer.2, answer.2 :: instants,
            stored || op.isStore⟩
          have hconsumer : t.consumer = ⟨l', none, e :: s.consumer.completed⟩ := by
            change s.consumer.settle r' answer.2 = _
            simp only [Client.settle, r', hp']
            rfl
          refine ⟨e, t, ⟨hfirst, ?_, ?_⟩, rfl, rfl, rfl⟩
          · rw [hconsumer]
          · rw [hconsumer]
      | step l' op' next' =>
          have hconsumer : t.consumer = { s.consumer with handle := l', running := some r' } := by
            change s.consumer.settle r' answer.2 = _
            simp only [Client.settle, r', hp']
          have hrun : t.consumer.running = some r' := by rw [hconsumer]
          obtain ⟨e, u, hcalled, hcall, hentry, hstart⟩ := ih answer.1 hfirst.ok hrun rfl
          refine ⟨e, u, ⟨hfirst.trans hcalled.toAlone, hcalled.idle, ?_⟩, hcall, hentry, hstart⟩
          rw [hcalled.completed, hconsumer]

/-- A permitted call returns. -/
theorem Ok.calls (h : Ok c base hist s) (hidle : s.consumer.running = none)
    (hperm : Role.consumer.permits s.consumer.handle call = true) :
    ∃ e t, Called c base hist s e t ∧ e.call = call ∧ e.entry = s.consumer.handle ∧
      e.start = s.memory := by
  let r : Running := ⟨call, s.consumer.handle, s.memory,
    call.method s.memory.toRegion s.consumer.handle, [s.memory], false⟩
  let t : System := { s with consumer := s.consumer.settle r s.memory }
  have hbegin : s.consumer.begin call s.memory = some (s.consumer.settle r s.memory) := by
    simp only [Client.begin, hidle]
    rfl
  have hnext : s.next (.begin .consumer call) = some t := by
    simp only [System.next, System.client, hperm, hbegin]
    rfl
  have hfirst := h.consumer_moves rfl hnext
  cases hp : r.process with
  | done reply l =>
      let e : Completed :=
        ⟨call, s.consumer.handle, s.memory, reply, s.memory, [s.memory], false⟩
      have hconsumer : t.consumer = ⟨l, none, e :: s.consumer.completed⟩ := by
        change s.consumer.settle r s.memory = _
        simp only [Client.settle, hp]
        rfl
      refine ⟨e, t, ⟨hfirst, ?_, ?_⟩, rfl, rfl, rfl⟩
      · rw [hconsumer]
      · rw [hconsumer]
  | step l op next =>
      have hconsumer : t.consumer = { s.consumer with handle := l, running := some r } := by
        change s.consumer.settle r s.memory = _
        simp only [Client.settle, hp]
      have hrun : t.consumer.running = some r := by rw [hconsumer]
      obtain ⟨e, u, hcalled, hcall, hentry, hstart⟩ := hfirst.ok.finish r.process hrun rfl
      refine ⟨e, u, ⟨hfirst.trans hcalled.toAlone, hcalled.idle, ?_⟩, hcall, hentry, hstart⟩
      rw [hcalled.completed, hconsumer]

/-- The latest call of the consumer was answered `Closed`. -/
def AtEnd (t : System) : Prop :=
  t.consumer.running = none ∧
    ∃ e older, t.consumer.completed = e :: older ∧ e.reply = .acquire (.error .closed)

/-- The consumer gives back the slot it holds. -/
theorem Ok.release_held (h : Ok c base hist s) (hidle : s.consumer.running = none)
    (hheld : s.consumer.entry.acquired = true) :
    ∃ t, Alone c base hist s t ∧ t.consumer.running = none ∧
      t.consumer.entry.acquired = false ∧ readPos t.memory = readPos s.memory + 1 ∧
      writePos t.memory = writePos s.memory := by
  obtain ⟨e, t, hcalled, hcall, hentry, -⟩ :=
    h.calls hidle (rfl : Role.consumer.permits _ .release = true)
  have hentryOk : EntryOk c e := hcalled.ok.consumer.log e (by
    rw [hcalled.completed]
    exact List.mem_cons_self)
  have hreply := hentryOk.released_held hcall (by
    rw [hentry, ← h.consumer.idle hidle]
    exact hheld)
  refine ⟨t, hcalled.toAlone, hcalled.idle, ?_, ?_, ?_⟩
  · have hview : t.consumer.heldView = none := by
      rw [Client.heldView, hcalled.completed, Client.heldView.lastView, hreply]
    have hfree := hcalled.ok.consumerLog.held
    rw [hview] at hfree
    exact hfree
  · have hbefore := h.consumerLog.releases
    have hafter := hcalled.ok.consumerLog.releases
    rw [Client.releases, hcalled.completed,
      List.countP_cons_of_pos (by rw [Completed.released, hreply])] at hafter
    rw [Client.releases] at hbefore
    omega
  · rw [h.ring.write_eq, hcalled.ok.ring.write_eq]

/-- The consumer takes the next event, or is at the end. -/
theorem Ok.acquire_next (h : Ok c base hist s) (trusted : c.trusted)
    (hclosed : stateOf s.memory = stateClosed) (hidle : s.consumer.running = none)
    (hfree : s.consumer.entry.acquired = false) :
    ∃ t, Alone c base hist s t ∧ (AtEnd t ∨ (t.consumer.running = none ∧
      t.consumer.entry.acquired = true ∧ readPos t.memory = readPos s.memory)) := by
  obtain ⟨e, t, hcalled, hcall, hentry, hstart⟩ :=
    h.calls hidle (rfl : Role.consumer.permits _ .tryAcquire = true)
  have hentryOk : EntryOk c e := hcalled.ok.consumer.log e (by
    rw [hcalled.completed]
    exact List.mem_cons_self)
  have hanswer := hentryOk.taken_or_closed trusted hcall
    (by rw [hentry, ← h.consumer.idle hidle]; exact hfree) (by rw [hstart]; exact hclosed)
  refine ⟨t, hcalled.toAlone, ?_⟩
  obtain ⟨view, hreply⟩ | hreply := hanswer
  · refine .inr ⟨hcalled.idle, ?_, ?_⟩
    · have hview : t.consumer.heldView = some (view, e.finish) := by
        rw [Client.heldView, hcalled.completed, Client.heldView.lastView, hreply]
      have hheld := hcalled.ok.consumerLog.held
      rw [hview] at hheld
      exact hheld.1
    · have hbefore := h.consumerLog.releases
      have hafter := hcalled.ok.consumerLog.releases
      rw [Client.releases, hcalled.completed, List.countP_cons_of_neg (by
        rw [Completed.released, hreply]
        exact Bool.false_ne_true)] at hafter
      exact hafter.symm.trans hbefore
  · exact .inl ⟨hcalled.idle, e, s.consumer.completed, hcalled.completed, hreply⟩

/-- The consumer, idle and without a slot, gets to an answer `Closed`: by induction on the
number of events that are left. -/
theorem Ok.drain_idle (n : Nat) {s : System} (h : Ok c base hist s) (trusted : c.trusted)
    (hclosed : stateOf s.memory = stateClosed) (hidle : s.consumer.running = none)
    (hfree : s.consumer.entry.acquired = false)
    (hleft : writePos s.memory < readPos s.memory + n) :
    ∃ t, Alone c base hist s t ∧ AtEnd t := by
  induction n generalizing s with
  | zero =>
      have hle := h.ring.read_le
      omega
  | succ n ih =>
      obtain ⟨t, htaken, hend | ⟨hidle', hheld, hread⟩⟩ :=
        h.acquire_next trusted hclosed hidle hfree
      · exact ⟨t, htaken, hend⟩
      · obtain ⟨u, hreleased, hidle'', hfree', hread', hwrite⟩ :=
          htaken.ok.release_held hidle' hheld
        have hwrite' : writePos t.memory = writePos s.memory := by
          rw [htaken.ok.ring.write_eq, h.ring.write_eq]
        obtain ⟨v, hdrained, hend⟩ := ih hreleased.ok
          (hreleased.closed (htaken.closed hclosed)) hidle'' hfree' (by omega)
        exact ⟨v, (htaken.trans hreleased).trans hdrained, hend⟩

/-- The consumer's call in progress returns, if there is one. -/
theorem Ok.settled (h : Ok c base hist s) :
    ∃ t, Alone c base hist s t ∧ t.consumer.running = none := by
  cases hr : s.consumer.running with
  | none => exact ⟨s, .refl h, hr⟩
  | some r =>
      obtain ⟨e, t, hcalled, -⟩ := h.finish r.process hr rfl
      exact ⟨t, hcalled.toAlone, hcalled.idle⟩

/-- From any state of a closed ring the consumer gets to an answer `Closed`. -/
theorem Ok.drain (h : Ok c base hist s) (trusted : c.trusted)
    (hclosed : stateOf s.memory = stateClosed) : ∃ t, Alone c base hist s t ∧ AtEnd t := by
  obtain ⟨t, hsettled, hidle⟩ := h.settled
  have hclosed' := hsettled.closed hclosed
  cases hheld : t.consumer.entry.acquired with
  | false =>
      obtain ⟨u, hdrained, hend⟩ := hsettled.ok.drain_idle (writePos t.memory + 1) trusted
        hclosed' hidle hheld (by omega)
      exact ⟨u, hsettled.trans hdrained, hend⟩
  | true =>
      obtain ⟨u, hreleased, hidle', hfree, -⟩ := hsettled.ok.release_held hidle hheld
      obtain ⟨v, hdrained, hend⟩ := hreleased.ok.drain_idle (writePos u.memory + 1) trusted
        (hreleased.closed hclosed') hidle' hfree (by omega)
      exact ⟨v, (hsettled.trans hreleased).trans hdrained, hend⟩

end System

end EventEngine.Ring
