import EventEngine.Ring.ClientInvariant

/-!
# What the returned calls say about the history

The events whose publication returned `Ok` are the history, and the events that were
acquired are the part of it up to the read position, plus the one that is held. The view
that is held has not changed since it was returned.
-/

namespace EventEngine.Ring

open Concurrency Memory

variable {c : Setting} {k k' : Client} {r : Running} {m m' : Span}
variable {base hist now : List Event}

theorem filterMap_reverse_cons {α β : Type} (f : α → Option β) (a : α) (l : List α) :
    (a :: l).reverse.filterMap f = l.reverse.filterMap f ++ (f a).toList := by
  rw [List.reverse_cons, List.filterMap_append]
  cases h : f a with
  | none => simp [h]
  | some b => simp [h]

/-- The history consists of what was there at the start and what was published. -/
def ProducerLog (base : List Event) (k : Client) (hist : List Event) : Prop :=
  hist = base ++ k.publishedEvents

theorem Settles.producerLog (h : Settles c hist now k r m k') (hlog : ProducerLog base k hist)
    (hperm : Role.producer.permits r.entry r.call = true)
    (hattach : r.call = .attach → now = hist) : ProducerLog base k' now := by
  cases h with
  | waits l op next hp hhist =>
      have hsame : now = hist := by
        obtain hsame | hother := hhist
        · exact hsame
        · generalize r.call = call at hperm hattach hother
          cases call with
          | tryPublish event => exact absurd rfl (hother event)
          | attach => exact hattach rfl
          | tryAcquire => exact Bool.noConfusion hperm
          | release => exact Bool.noConfusion hperm
          | closePublication => exact Bool.noConfusion hperm
      rw [hsame]
      exact hlog
  | returns reply l hp hpost =>
      rw [ProducerLog, Client.publishedEvents, filterMap_reverse_cons, ← List.append_assoc]
      rw [ProducerLog, Client.publishedEvents] at hlog
      rw [← hlog]
      generalize hcall : r.call = call at hperm hattach hpost
      cases call with
      | tryPublish event =>
          obtain ⟨res, rfl, hpub⟩ := hpost
          have hnow : now = if res = .ok then hist ++ [event] else hist := hpub.history
          rw [hnow]
          cases res with
          | ok => simp [Completed.published]
          | full => simp [Completed.published]
          | payloadTooLarge => simp [Completed.published]
          | closed => simp [Completed.published]
      | attach => simp [Completed.published, hattach rfl]
      | tryAcquire => exact Bool.noConfusion hperm
      | release => exact Bool.noConfusion hperm
      | closePublication => exact Bool.noConfusion hperm

/-- The view in hand, if there is one, is the oldest queued slot as it was returned. -/
def HeldOk (c : Setting) (m : Span) (acquired : Bool) :
    Option (EventView ByteRange × Span) → Prop
  | none => acquired = false
  | some (view, m0) => acquired = true ∧ view = c.geometry.slotView m (readPos m) ∧
      view.payload.length ≤ c.geometry.capacity ∧
      Span.Agree (c.geometry.slotAt (readPos m))
        (c.geometry.slotAt (readPos m) + c.geometry.stride) m0 m

/-- What the returned calls of the consumer say about the current memory. -/
structure ConsumerLog (c : Setting) (k : Client) (m : Span) (hist : List Event) : Prop where
  taken : c.trusted → k.acquiredEvents =
    hist.take (readPos m - c.start + if k.entry.acquired = true then 1 else 0)
  releases : k.releases + c.start = readPos m
  held : HeldOk c m k.entry.acquired k.heldView

theorem ConsumerLog.observe (h : ConsumerLog c k m hist) (hinv : RingInv c m hist)
    (hentry : ConsumerHandle c.geometry k.entry m) (hrely : ConsumerRely c m hist m' now) :
    ConsumerLog c (k.observe m') m' now where
  taken trusted := by
    have hstart := hinv.start_le
    have hlast := hinv.write_eq
    have hread := hinv.read_le
    obtain ⟨rest, hrest⟩ := hrely.history
    rw [Client.observe_entry, hrely.readPos_eq, ← hrest, List.take_append_of_le_length]
    · exact h.taken trusted
    · by_cases hheld : k.entry.acquired = true
      · have := (hentry.held hheld).2
        rw [if_pos hheld]
        omega
      · rw [if_neg hheld]
        omega
  releases := h.releases.trans hrely.readPos_eq.symm
  held := by
    rw [Client.observe_entry, show (k.observe m').heldView = k.heldView from rfl]
    have hheld := h.held
    cases hview : k.heldView with
    | none => rwa [hview] at hheld
    | some pair =>
        obtain ⟨view, m0⟩ := pair
        rw [hview] at hheld
        obtain ⟨hacq, hslot, hlen, hagree⟩ := hheld
        have hstable := hrely.slots (readPos m) (Nat.le_refl _) (hentry.held hacq).2
        refine ⟨hacq, ?_, hlen, ?_⟩
        · rw [hrely.readPos_eq, c.geometry.slotView_congr hstable]
          exact hslot
        · rw [hrely.readPos_eq]
          exact hagree.trans hstable

/-- A call that neither took a slot nor gave one back changes nothing for the consumer. -/
theorem ConsumerLog.uneventful {e : Completed} {l : SpscRing} (h : ConsumerLog c k m hist)
    (hl : l.acquired = k.entry.acquired) (hacquired : e.acquired = none)
    (hreleased : e.released = false) :
    ConsumerLog c { handle := l, running := none, completed := e :: k.completed } m hist where
  taken trusted := by
    rw [Client.acquiredEvents, filterMap_reverse_cons, hacquired, Option.toList_none,
      List.append_nil]
    change k.acquiredEvents = hist.take (_ + if l.acquired = true then 1 else 0)
    rw [hl]
    exact h.taken trusted
  releases := by
    rw [Client.releases, List.countP_cons_of_neg (by rw [hreleased]; exact Bool.false_ne_true)]
    exact h.releases
  held := by
    have hview : Client.heldView { handle := l, running := none, completed := e :: k.completed } =
        k.heldView := by
      obtain ⟨call, entry, start, reply, finish, instants, stored⟩ := e
      cases reply with
      | publish res => rfl
      | acquire res =>
          cases res with
          | ok view => cases hacquired
          | error err => rfl
      | release res =>
          cases res with
          | true => cases hreleased
          | false => rfl
      | attach res => rfl
      | close res => rfl
    rw [hview]
    change HeldOk c m l.acquired k.heldView
    rw [hl]
    exact h.held

/-- The consumer takes the oldest event. -/
theorem ConsumerLog.acquire {e : Completed} {l : SpscRing} {view : EventView ByteRange}
    (h : ConsumerLog c k m hist) (hinv : RingInv c m hist) (hfree : k.entry.acquired = false)
    (hl : l.acquired = true) (hlt : readPos m < writePos m)
    (hview : view = c.geometry.slotView m (readPos m))
    (hlen : view.payload.length ≤ c.geometry.capacity) (hreply : e.reply = .acquire (.ok view))
    (hfinish : e.finish = m) :
    ConsumerLog c { handle := l, running := none, completed := e :: k.completed } m hist where
  taken trusted := by
    have htaken := h.taken trusted
    obtain ⟨-, hevent⟩ := hinv.queued trusted (readPos m) (Nat.le_refl _) hlt
    have hacquired : e.acquired = some (c.geometry.slotEvent m (readPos m)) := by
      rw [Completed.acquired, hreply, hfinish, hview]
      rfl
    rw [if_neg (by rw [hfree]; exact Bool.false_ne_true), Nat.add_zero] at htaken
    rw [Client.acquiredEvents, filterMap_reverse_cons, hacquired]
    change k.acquiredEvents ++ _ = hist.take (_ + if l.acquired = true then 1 else 0)
    rw [htaken, if_pos hl, List.take_add_one, hevent]
  releases := by
    have hreleased : e.released = false := by rw [Completed.released, hreply]
    rw [Client.releases, List.countP_cons_of_neg (by rw [hreleased]; exact Bool.false_ne_true)]
    exact h.releases
  held := by
    have hheld : Client.heldView { handle := l, running := none, completed := e :: k.completed } =
        some (view, m) := by
      simp only [Client.heldView, Client.heldView.lastView, hreply, hfinish]
    rw [hheld]
    exact ⟨hl, hview, hlen, Span.Agree.refl m⟩

/-- The consumer gives its slot back. -/
theorem ConsumerLog.release {e : Completed} {l : SpscRing} (h : ConsumerLog c k m hist)
    (hinv : RingInv c m hist) (hheld : k.entry.acquired = true) (hl : l.acquired = false)
    (hread : readPos m' = readPos m + 1) (hreply : e.reply = .release true) :
    ConsumerLog c { handle := l, running := none, completed := e :: k.completed } m' hist where
  taken trusted := by
    have htaken := h.taken trusted
    have hstart := hinv.start_le
    have hacquired : e.acquired = none := by rw [Completed.acquired, hreply]
    rw [if_pos hheld] at htaken
    rw [Client.acquiredEvents, filterMap_reverse_cons, hacquired, Option.toList_none,
      List.append_nil]
    change k.acquiredEvents = hist.take (_ + if l.acquired = true then 1 else 0)
    have hidx : readPos m - c.start + 1 = readPos m + 1 - c.start + 0 := by omega
    rw [htaken, if_neg (by rw [hl]; exact Bool.false_ne_true), hread, hidx]
  releases := by
    have hreleased : e.released = true := by rw [Completed.released, hreply]
    have hbefore := h.releases
    rw [Client.releases] at hbefore
    rw [Client.releases, List.countP_cons_of_pos hreleased]
    omega
  held := by
    have hnone : Client.heldView { handle := l, running := none, completed := e :: k.completed } =
        none := by
      simp only [Client.heldView, Client.heldView.lastView, hreply]
    rw [hnone]
    exact hl

/-- The consumer's own call goes on or returns. -/
theorem Settles.consumerLog (h : Settles c hist now k r m' k') (hlog : ConsumerLog c k m hist)
    (hinv : RingInv c m hist) (hnow : now = hist)
    (hperm : Role.consumer.permits r.entry r.call = true) (hrentry : r.entry = k.entry)
    (hentry : ConsumerHandle c.geometry k.entry m)
    (hwaits : ∀ l op next, r.process = .step l op next → m' = m)
    (hmem : m' = m ∨ (r.call = .release ∧ r.entry.acquired = true)) :
    ConsumerLog c k' m' now := by
  subst hnow
  cases h with
  | waits l op next hp hhist =>
      obtain rfl := hwaits l op next hp
      exact
        { taken := fun trusted => by
            have htaken := hlog.taken trusted
            rw [← hrentry] at htaken
            exact htaken
          releases := hlog.releases
          held := by
            have hheld := hlog.held
            rw [← hrentry] at hheld
            exact hheld }
  | returns reply l hp hpost =>
      generalize hcall : r.call = call at hperm hpost hmem
      have hsame : call ≠ .release ∨ r.entry.acquired = false → m' = m := by
        intro hno
        obtain hm | ⟨hrel, hacq⟩ := hmem
        · exact hm
        · obtain hne | hfree := hno
          · exact absurd hrel hne
          · rw [hacq] at hfree
            cases hfree
      cases call with
      | tryPublish event => exact Bool.noConfusion hperm
      | closePublication => exact Bool.noConfusion hperm
      | attach =>
          obtain rfl : m' = m := hsame (.inl (by simp))
          obtain ⟨rfl, rfl⟩ := hpost
          have hfree : r.entry.acquired = false := by simpa [Role.permits] using hperm
          exact hlog.uneventful (by rw [← hrentry, hfree]; rfl) rfl rfl
      | release =>
          obtain ⟨res, rfl, hrel⟩ := hpost
          obtain rfl : res = r.entry.acquired := hrel.result
          cases hacq : r.entry.acquired with
          | true =>
              have hpos : readPos m' = r.entry.acquiredPosition.toNat + 1 := hrel.position hacq
              have hheld : k.entry.acquired = true := hrentry ▸ hacq
              refine hlog.release hinv hheld hrel.free ?_ rfl
              rw [hpos, hrentry, (hentry.held hheld).1]
          | false =>
              obtain rfl : m' = m := hsame (.inr hacq)
              exact hlog.uneventful (by rw [hrel.free, ← hrentry, hacq]) rfl rfl
      | tryAcquire =>
          obtain rfl : m' = m := hsame (.inl (by simp))
          obtain ⟨res, rfl, hacq⟩ := hpost
          split at hacq
          case isTrue hheld =>
            obtain ⟨rfl, rfl, -⟩ := hacq
            exact hlog.uneventful (by rw [hrentry]) rfl rfl
          case isFalse hfree =>
            have hfree' : k.entry.acquired = false := by
              rw [← hrentry]
              exact Bool.eq_false_iff.mpr hfree
            have hanswer := hacq.answer
            cases res with
            | ok view =>
                obtain ⟨hl, hview, hlen⟩ := hanswer
                exact hlog.acquire hinv hfree' hl (hacq.handle.held hl).2 hview hlen rfl rfl
            | error err =>
                refine hlog.uneventful ?_ rfl rfl
                cases err with
                | empty => rw [hfree']; exact hanswer
                | closed => rw [hfree']; exact hanswer.1
                | alreadyAcquired => exact absurd rfl hacq.free
                | invalidSlot => rw [hfree']; exact hanswer.1

theorem cursor_succ_ne (pos : UInt64) : pos + 1 ≠ pos := by
  intro h
  have hlt := pos.toNat_lt
  have hnat := congrArg UInt64.toNat h
  rw [UInt64.toNat_add, UInt64.toNat_one] at hnat
  omega

/-- The history grows exactly when the producer cursor is stored. -/
theorem Advanced.publishes {r' : Running} {op : Access} {event : Event}
    (h : Advanced c k m hist r r' op k' m' now) (hcall : r.call = .tryPublish event) :
    now = hist ++ k.publishing.toList := by
  have hcontrol := h.control
  have hguar := h.guar
  rw [hcall] at hcontrol hguar
  obtain ⟨hat, hstore⟩ := hcontrol
  have hhistory := hguar.1.history
  have hmem := h.memory
  change m'.u64 producerOffset = m.u64 producerOffset ∧ now = hist ∨
    writePos m' = writePos m + 1 ∧ (∃ e, some event = some e ∧ now = hist ++ [e]) ∧ _ at hhistory
  have hkept : m'.u64 producerOffset = m.u64 producerOffset → now = hist := by
    intro hsame
    obtain ⟨-, hnow⟩ | ⟨hwrite, -⟩ := hhistory
    · exact hnow
    · rw [writePos, writePos, hsame] at hwrite
      omega
  cases op with
  | load offset length =>
      have hnone : k.publishing = none := by
        rw [Client.publishing, h.running, h.pending]
      rw [hnone, Option.toList_none, List.append_nil]
      exact hkept (by rw [hmem]; rfl)
  | store offset bs =>
      have hpub : k.publishing = if offset = producerOffset then some event else none := by
        rw [Client.publishing, h.running, h.pending]
        simp only [hcall, Call.event]
      obtain ⟨-, hcursor⟩ := hstore rfl
      rw [hpub]
      by_cases hoffset : offset = producerOffset
      · rw [if_pos hoffset]
        obtain ⟨hsame, -⟩ | ⟨-, ⟨e, he, hnow⟩, -⟩ := hhistory
        · exfalso
          obtain hop | hwritable := hcursor
          · obtain ⟨-, hbs⟩ := Access.store.inj hop
            rw [hmem, hoffset, hbs] at hsame
            have hsame' : m.u64 producerOffset + 1 = m.u64 producerOffset :=
              (Span.u64_write_same m producerOffset _).symm.trans hsame
            exact cursor_succ_ne _ hsame'
          · have hlow := (c.geometry.slotAt_add_stride_le (writePos m)).1
            have hin := hwritable.inside
            simp only [Access.offset, producerOffset] at hin hoffset
            omega
        · rw [hnow, ← Option.some.inj he]
          rfl
      · rw [if_neg hoffset, Option.toList_none, List.append_nil]
        obtain hop | hwritable := hcursor
        · exact absurd (Access.store.inj hop).1 hoffset
        · have hlow := (c.geometry.slotAt_add_stride_le (writePos m)).1
          have hin := hwritable.inside
          simp only [Access.offset] at hin
          refine hkept ?_
          rw [hmem]
          exact Span.u64_congr (Span.agree_write (.inl (by omega : 192 ≤ offset)))
            (Nat.zero_le _) (by decide)

/-- What an access of the producer promises the consumer. -/
theorem Advanced.consumerRely {r' : Running} {op : Access}
    (h : Advanced c k m hist r r' op k' m' now)
    (hperm : Role.producer.permits r.entry r.call = true) :
    ConsumerRely c m hist m' now ∧ now = hist ++ k.publishing.toList ∧
      (r.call = .attach → now = hist) := by
  have hguar := h.guar
  cases hcall : r.call with
  | tryPublish event =>
      rw [hcall] at hguar
      exact ⟨hguar.1.consumerRely, h.publishes hcall, fun h => by cases h⟩
  | attach =>
      rw [hcall] at hguar
      obtain ⟨hm, hnow⟩ := hguar.1
      have hm' : m' = m := hm
      have hnow' : now = hist := hnow
      have hnone : k.publishing = none := by
        rw [Client.publishing, h.running, h.pending]
        cases op with
        | load offset length => rfl
        | store offset bs => simp [hcall, Call.event]
      rw [hm', hnow', hnone]
      exact ⟨ConsumerRely.refl .., (List.append_nil hist).symm, fun _ => rfl⟩
  | tryAcquire => rw [hcall] at hperm; cases hperm
  | release => rw [hcall] at hperm; cases hperm
  | closePublication => rw [hcall] at hperm; cases hperm

theorem Advanced.consumerGuar {r' : Running} {op : Access}
    (h : Advanced c k m hist r r' op k' m' now)
    (hperm : Role.consumer.permits r.entry r.call = true) : ConsumerGuar m hist m' now := by
  have hguar := h.guar
  cases hcall : r.call with
  | tryPublish event => rw [hcall] at hperm; cases hperm
  | tryAcquire => rw [hcall] at hguar; exact hguar.1
  | release => rw [hcall] at hguar; exact hguar.1
  | attach =>
      rw [hcall] at hguar
      obtain ⟨hm, hnow⟩ := hguar.1
      have hm' : m' = m := hm
      have hnow' : now = hist := hnow
      rw [hm', hnow']
      exact ConsumerGuar.refl ..
  | closePublication => rw [hcall] at hperm; cases hperm

/-- Of the consumer's calls only `release` stores, and then it gives back the slot that it held
at its beginning. -/
theorem Advanced.consumer_memory {r' : Running} {op : Access}
    (h : Advanced c k m hist r r' op k' m' now) (hok : ClientOk c .consumer k m hist)
    (hperm : Role.consumer.permits r.entry r.call = true) :
    m' = m ∨ (r.call = .release ∧ r.entry.acquired = true) := by
  cases hcall : r.call with
  | tryPublish event => rw [hcall] at hperm; cases hperm
  | tryAcquire => exact .inl (hok.load_of_tryAcquire h hcall)
  | release =>
      have hcontrol := h.control
      rw [hcall] at hcontrol
      obtain ⟨hhandle, -, hstore⟩ := hcontrol
      by_cases hop : op.isStore = true
      · exact .inr ⟨rfl, hhandle ▸ (hstore hop).1⟩
      · refine .inl ?_
        rw [h.memory]
        exact spanExec_load (Bool.eq_false_iff.mpr hop) m
  | attach =>
      have hguar := h.guar
      rw [hcall] at hguar
      exact .inl hguar.1.1
  | closePublication => rw [hcall] at hperm; cases hperm

theorem Advanced.creatorGuar {r' : Running} {op : Access}
    (h : Advanced c k m hist r r' op k' m' now)
    (hperm : Role.creator.permits r.entry r.call = true) : CreatorGuar m hist m' now := by
  have hguar := h.guar
  cases hcall : r.call with
  | tryPublish event => rw [hcall] at hperm; cases hperm
  | tryAcquire => rw [hcall] at hperm; cases hperm
  | release => rw [hcall] at hperm; cases hperm
  | attach => rw [hcall] at hperm; cases hperm
  | closePublication => rw [hcall] at hguar; exact hguar.1

end EventEngine.Ring
