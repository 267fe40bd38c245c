import EventEngine.Receiver.Custody
import EventEngine.Ring.Contents

/-!
# From `initialize` to the destructor

What a receiver has is all or nothing: a failed `initialize` leaves nothing, and the name that a
successful one made is there as long as the receiver that owns it. Moves hand everything on, and
the destructor of the owner closes the ring and then removes the name.
-/

namespace EventEngine

open Concurrency Memory Posix Transport EventEngine.Ring EventEngine.Shm

namespace Receivers

variable {s t u : Receivers} {a : LifecycleAction} {h : Nat} {name : Name} {o : Object}
variable {receiver : ReceiverObject} {r : Resources}
variable {inetPton : Bytes → Option UInt32} {answer : (op : Op) → op.Res} {received : Received}

theorem reaches_ok (hrun : Reaches (next inetPton) Reliable initial s) : s.Ok :=
  hrun.invariant initial_ok fun _ _ _ hok hreliable hnext => next_ok hok hreliable hnext

/-- A receiver neither removes nor changes what others have made under a name. -/
theorem Ok.spares (hok : s.Ok) (hgives : ∀ op, GivesBack op (answer op))
    (hnext : s.next inetPton (.step h answer received) = some u)
    (hname : s.kernel.table.names name = some o)
    (hother : (s.holding (some h)).names name = none) :
    u.kernel.table.names name = some o ∧ u.kernel.sizes o = s.kernel.sizes o ∧
      u.memory o = s.memory o := by
  obtain ⟨op, resume, result, u', -, hallowed, hrespond, -, -, rfl⟩ := hok.step hgives hnext
  cases op with
  | system op =>
      obtain ⟨u'', hcall, heq⟩ := Option.map_eq_some_iff.mp hrespond
      cases heq
      obtain ⟨k, hperform, rfl⟩ := Option.map_eq_some_iff.mp hcall
      refine ⟨?_, ?_, rfl⟩
      · by_contra hremoved
        obtain ⟨rfl, -⟩ := Kernel.perform_removes hperform hname hremoved
        exact hallowed hother
      · exact Kernel.perform_sizes hok.distinct hperform (hok.shared.part _) hallowed hname hother
  | memory base access =>
      obtain ⟨mapping, hmapping, heq⟩ := Option.map_eq_some_iff.mp hrespond
      cases heq
      refine ⟨hname, rfl, ?_⟩
      obtain ⟨o', length, name', hbase, hname'⟩ := hallowed
      have hpart := hok.shared.part (some h)
      rw [hpart.mappings base _ hbase] at hmapping
      obtain rfl := Option.some.inj hmapping
      apply Function.update_of_ne
      rintro rfl
      have hsame := hok.distinct.injective _ _ _ hname (hpart.names name' _ hname')
      rw [← hsame, hother] at hname'
      cases hname'
  | loadStop =>
      cases hrespond
      exact ⟨hname, rfl, rfl⟩
  | receive socketFd =>
      cases hrespond
      exact ⟨hname, rfl, rfl⟩

/-- A step of the destructor of a receiver that had these resources. -/
theorem Ok.departing_step (hok : s.Ok)
    (hdeparting : r.Departing (s.holding (some h)) (s.slots h))
    (hgives : ∀ op, GivesBack op (answer op))
    (hnext : s.next inetPton (.step h answer received) = some u) :
    ∃ (log : List HostOp) (op : HostOp) (result : op.Res) (u' : Receivers),
      (s.slots h).log = some log ∧ log ++ [op] <+: r.farewell ∧
      r.Farewell log (s.holding (some h)) ∧ s.respond h answer received op = some (result, u') ∧
      u.kernel = u'.kernel ∧ u.memory = u'.memory := by
  obtain ⟨op, resume, result, u', hpending, -, hrespond, -, -, rfl⟩ := hok.step hgives hnext
  generalize s.slots h = slot at hdeparting hpending ⊢
  cases slot with
  | destroying log p =>
      cases p with
      | done a l => cases hpending
      | step l op' next =>
          cases hpending
          obtain ⟨⟨-, hlog, hstage⟩, -⟩ := hdeparting
          exact ⟨log, op, result, u', rfl, hlog, hstage, hrespond, rfl, rfl⟩
  | destroyed log => cases hpending
  | _ => cases hdeparting

/-- The state word of a ring. -/
def ringState (s : Receivers) (o : Object) : UInt32 := stateOf ⟨⟨0, 0⟩, s.memory o⟩

/-- The first access of the destructor closes the ring, and the second one removes the name. -/
theorem Ok.departing_effect (hok : s.Ok)
    (hdeparting : r.Departing (s.holding (some h)) (s.slots h))
    (hgives : ∀ op, GivesBack op (answer op))
    (hnext : s.next inetPton (.step h answer received) = some u) {log : List HostOp}
    (hlog : (s.slots h).log = some log) :
    (log = [] → u.ringState r.object = stateClosed) ∧
      (log.length = 1 → u.kernel.table.names r.name = none) := by
  obtain ⟨log', op, result, u', hlog', hpending, hstage, hrespond, hkernel, hmemory⟩ :=
    hok.departing_step hdeparting hgives hnext
  rw [hlog] at hlog'
  obtain rfl := Option.some.inj hlog'
  have hpart := hok.shared.part (some h)
  constructor
  · rintro rfl
    obtain ⟨rest, hrest⟩ := hpending
    obtain rfl : op = .memory r.address (.store stateOffset (leBytes 4 stateClosed.toNat)) :=
      (List.cons.inj hrest).1
    obtain ⟨mapping, hmapping, heq⟩ := Option.map_eq_some_iff.mp hrespond
    cases heq
    have hbase : (s.holding (some h)).mappings r.address = some ⟨r.object, r.size⟩ := by
      rw [hstage Nat.zero_lt_two, r.table_mapping]
    rw [hpart.mappings _ _ hbase] at hmapping
    obtain rfl := Option.some.inj hmapping
    rw [ringState, hmemory]
    simp only [Function.update_self]
    exact Span.u32_write_same _ _ _
  · intro hone
    obtain ⟨first, rfl⟩ := List.length_eq_one_iff.mp hone
    obtain ⟨rest, hrest⟩ := hpending
    obtain rfl : op = .system (.shmUnlink r.name) :=
      (List.cons.inj (List.cons.inj hrest).2).1
    obtain ⟨u'', hcall, heq⟩ := Option.map_eq_some_iff.mp hrespond
    cases heq
    obtain ⟨k, hperform, rfl⟩ := Option.map_eq_some_iff.mp hcall
    rw [hkernel]
    simp only
    rw [(Kernel.perform_cases hperform).2]
    have hok : answer (.shmUnlink r.name) = .ok () := hgives (.shmUnlink r.name)
    rw [hok]
    exact Function.update_self _ _ _

/-- What a destructor that has been called has done, and does next. -/
theorem Ok.departing (hok : s.Ok) (hdeparting : r.Departing (s.holding (some h)) (s.slots h)) :
    ∃ log, (s.slots h).log = some log ∧ log <+: r.farewell ∧
      (log.length < 2 → s.kernel.table.names r.name = some r.object) ∧
      (s.slots h = .destroyed log → log = r.farewell ∧ s.holding (some h) = .empty) ∧
      ∀ answer received u, s.Reliable (.step h answer received) →
        s.next inetPton (.step h answer received) = some u →
          (log = [] → u.ringState r.object = stateClosed) ∧
            (log.length = 1 → u.kernel.table.names r.name = none) := by
  have hstage : ∃ log, (s.slots h).log = some log ∧ r.Farewell log (s.holding (some h)) ∧
      log <+: r.farewell ∧
      (s.slots h = .destroyed log → log = r.farewell ∧ s.holding (some h) = .empty) := by
    have hdeparting := hdeparting
    generalize s.holding (some h) = t at hdeparting ⊢
    generalize s.slots h = slot at hdeparting ⊢
    cases slot with
    | destroying log p =>
        obtain ⟨hfarewell, hlog⟩ := Resources.Leaving.farewell hdeparting
        exact ⟨log, rfl, hfarewell, hlog, fun heq => by cases heq⟩
    | destroyed log =>
        obtain ⟨rfl, rfl⟩ := hdeparting
        exact ⟨_, rfl, r.farewell_all, List.prefix_refl _, fun _ => ⟨rfl, rfl⟩⟩
    | _ => cases hdeparting
  obtain ⟨log, hlog, hfarewell, hprefix, hdone⟩ := hstage
  refine ⟨log, hlog, hprefix, ?_, hdone, ?_⟩
  · intro hshort
    apply (hok.shared.part (some h)).names
    rw [hfarewell hshort, r.table_name]
  · intro answer received u hgives hnext
    exact hok.departing_effect hdeparting hgives hnext hlog

/-- The owner of the name is not destroyed. -/
def Spares (name : Name) (s : Receivers) (a : LifecycleAction) : Prop :=
  ∀ h, a = .destroy h → ¬ s.Owner h name

/-- As long as its owner is not destroyed, a name has an owner with the same resources. -/
theorem Bears.reaches (hbears : s.Bears r h) (hok : s.Ok)
    (hrun : Reaches (Receivers.next inetPton) (fun s a => s.Reliable a ∧ s.Spares r.name a) s t) :
    t.Ok ∧ ∃ x, t.Bears r x := by
  apply hrun.invariant (I := fun t => t.Ok ∧ ∃ x, t.Bears r x)
  · exact ⟨hok, h, hbears⟩
  · rintro t a u ⟨hok, x, hbears⟩ ⟨hreliable, hspares⟩ hnext
    have hkept : a ≠ .destroy x := by
      rintro rfl
      exact hspares x rfl hbears.owner
    exact ⟨next_ok hok hreliable hnext, hbears.next hok hreliable hkept hnext⟩

theorem Bears.unique {x : Nat} {r' : Resources} (hbears : s.Bears r h) (hbears' : s.Bears r' x)
    (hok : s.Ok) (hname : r'.name = r.name) : x = h := by
  by_contra hne
  have hdiffer : some x ≠ some h := fun heq => hne (Option.some.inj heq)
  obtain hnone | hnone := (hok.shared.apart _ _ hdiffer).names r.name
  · rw [hbears'.table, ← hname, r'.table_name] at hnone
    cases hnone
  · rw [hbears.table, r.table_name] at hnone
    cases hnone

/-- What a call of `initialize` that returns a receiver has made. -/
theorem Ok.succeeded {config : ReceiverConfig} {thread : Thread hostAccess Initializing}
    (hok : s.Ok) (hgives : ∀ op, GivesBack op (answer op))
    (hslot : s.slots h = .initializing config thread)
    (hnext : s.next inetPton (.step h answer received) = some u)
    (hidle : u.slots h = .idle receiver) : u.Owner h config.egressShmName := by
  obtain ⟨op, resume, result, u', hpending, -, -, -, hresponded, rfl⟩ := hok.step hgives hnext
  rw [hslot] at hpending
  obtain ⟨⟨op', resume'⟩, hthread, heq⟩ := Option.map_eq_some_iff.mp hpending
  cases heq
  have hholds := hok.initializing hslot
  obtain ⟨-, hresume⟩ := hholds.resume hthread
  have hbehind := hresume result _ (hresponded.environment.mono fun _ _ => trivial)
  simp only [Function.update_self] at hidle
  obtain ⟨r, hlive, hname⟩ := ReceiverSlot.settleInitializing_idle hbehind hidle
  refine ⟨receiver, ?_, ?_, ?_⟩
  · simp only [Function.update_self, hidle]
    rfl
  · rw [hlive.segment]
    rfl
  · rw [hlive.segment, ← hname]
    rfl

/-- A call of `initialize` that has failed left what there was before, unless the others have
changed what they have. -/
theorem Ok.undone {error : InitError} (hok : s.Ok) (hok' : t.Ok)
    (habsent : s.slots h = .absent) (hfailed : t.slots h = .failed error)
    (hothers : ∀ i, i ≠ some h → t.holding i = s.holding i) :
    t.kernel.table = s.kernel.table := by
  have hsame : t.holding = s.holding := by
    funext i
    by_cases hi : i = some h
    · rw [hi, hok'.failed hfailed, hok.absent habsent]
    · exact hothers i hi
  have hcover := hok'.cover
  have hpart := hok'.shared.part
  rw [hsame] at hcover hpart
  exact hcover.unique hok.cover hpart hok.shared.part

theorem next_move_owner {other : Nat} {leftover : Bytes}
    (hnext : s.next inetPton (.move h other leftover) = some t) (howner : s.Owner other name) :
    t.Owner h name := by
  obtain ⟨receiver, habsent, hidle, rfl⟩ := move_cases hnext
  obtain ⟨receiver', hreceiver, howner⟩ := howner
  rw [hidle] at hreceiver
  obtain rfl : receiver = receiver' := Option.some.inj hreceiver
  refine ⟨receiver, ?_, howner⟩
  simp only [Function.update_self]
  rfl

/-- A receiver that was moved from stays without anything to use or to give back. -/
theorem Ok.reaches_spent {other : Nat} {leftover : Bytes} (hok : s.Ok)
    (hnext : s.next inetPton (.move h other leftover) = some t)
    (hrun : Reaches (next inetPton) Reliable t u) : u.Ok ∧ (u.slots other).Spent := by
  have hok' := next_ok (a := .move h other leftover) hok trivial hnext
  obtain ⟨receiver, habsent, hidle, rfl⟩ := move_cases hnext
  have hne : other ≠ h := by
    rintro rfl
    rw [hidle] at habsent
    cases habsent
  apply hrun.invariant (I := fun u => u.Ok ∧ (u.slots other).Spent)
  · refine ⟨hok', ?_⟩
    simp only [Function.update_of_ne hne, Function.update_self]
    exact receiver.move_retired (s.stop other) leftover
  · rintro u a v ⟨hok, hspent⟩ hreliable hnext
    exact ⟨next_ok hok hreliable hnext, next_spent hspent hok hreliable hnext⟩

/-- A receiver whose destructor was called is on its way out, or gone. -/
theorem Ok.reaches_departing (hok : s.Ok) (hidle : s.slots h = .idle receiver)
    (hlive : r.Live receiver) (htable : s.holding (some h) = r.table)
    (hnext : s.next inetPton (.destroy h) = some t)
    (hrun : Reaches (next inetPton) Reliable t u) :
    u.Ok ∧ r.Departing (u.holding (some h)) (u.slots h) := by
  have hok' := next_ok (a := .destroy h) hok trivial hnext
  apply hrun.invariant (I := fun u => u.Ok ∧ r.Departing (u.holding (some h)) (u.slots h))
  · refine ⟨hok', ?_⟩
    obtain ⟨receiver', hidle', rfl⟩ := destroy_cases hnext
    rw [hidle] at hidle'
    cases hidle'
    simp only [Function.update_self, htable]
    exact ReceiverSlot.settleDestroying_departing hlive.destroy
  · rintro u a v ⟨hok, hdeparting⟩ hreliable hnext
    exact ⟨next_ok hok hreliable hnext, next_departing hdeparting hok hreliable hnext⟩

/-- The lifecycle of receivers from a state on. -/
structure AllOrNothing (inetPton : Bytes → Option UInt32) (s : Receivers) : Prop where
  /-- A call of `initialize` that fails has given everything back; unless the others have
  changed what they have, there is exactly what there was before. -/
  failed : ∀ h error t, s.slots h = .absent → Reaches (next inetPton) Reliable s t →
    t.slots h = .failed error → t.holding (some h) = .empty ∧
      ((∀ i, i ≠ some h → t.holding i = s.holding i) → t.kernel.table = s.kernel.table)
  /-- No access of a receiver removes or changes what others have made under a name. -/
  spares : ∀ h answer received t name o, s.Reliable (.step h answer received) →
    s.next inetPton (.step h answer received) = some t →
    s.kernel.table.names name = some o → (s.holding (some h)).names name = none →
      t.kernel.table.names name = some o ∧ t.kernel.sizes o = s.kernel.sizes o ∧
        t.memory o = s.memory o
  /-- A call that succeeds returns the owner of the name it was called with. -/
  succeeded : ∀ h config thread answer received t receiver,
    s.Reliable (.step h answer received) → s.slots h = .initializing config thread →
    s.next inetPton (.step h answer received) = some t → t.slots h = .idle receiver →
      t.Owner h config.egressShmName
  /-- A name with an owner exists, for the same object, as long as no owner of it is
  destroyed; there is one owner at a time. -/
  owned : ∀ h name, s.Owner h name → (∀ x, s.Owner x name → x = h) ∧
    ∃ o, s.kernel.table.names name = some o ∧
      ∀ t, Reaches (next inetPton) (fun s a => s.Reliable a ∧ s.Spares name a) s t →
        ∃ x, t.Owner x name ∧ t.kernel.table.names name = some o
  /-- A move makes the new receiver the owner; the other one only looks at its stop flag from
  then on, in `run` and in its destructor. -/
  moved : ∀ h other leftover t, s.next inetPton (.move h other leftover) = some t →
    (∀ name, s.Owner other name → t.Owner h name) ∧
      ∀ u, Reaches (next inetPton) Reliable t u →
        ∀ op resume, (u.slots other).pending = some ⟨op, resume⟩ → op = .loadStop
  /-- The destructor of an owner performs its farewell: the name is there until the ring was
  closed, and goes next. -/
  destroyed : ∀ h receiver t, s.slots h = .idle receiver → receiver.segment.owner = true →
    s.next inetPton (.destroy h) = some t →
    ∃ o, s.kernel.table.names receiver.segment.name = some o ∧
      ∀ u, Reaches (next inetPton) Reliable t u → ∃ log, (u.slots h).log = some log ∧
        log <+: receiver.farewell ∧
        (log.length < 2 → u.kernel.table.names receiver.segment.name = some o) ∧
        (u.slots h = .destroyed log → log = receiver.farewell ∧ u.holding (some h) = .empty) ∧
        ∀ answer received v, u.Reliable (.step h answer received) →
          u.next inetPton (.step h answer received) = some v →
            (log = [] → v.ringState o = stateClosed) ∧
              (log.length = 1 → v.kernel.table.names receiver.segment.name = none)

theorem Ok.allOrNothing (hok : s.Ok) : s.AllOrNothing inetPton where
  failed h error t habsent hrun hfailed := by
    have hok' : t.Ok := hrun.invariant hok fun _ _ _ hok hreliable hnext =>
      next_ok hok hreliable hnext
    exact ⟨hok'.failed hfailed, hok.undone hok' habsent hfailed⟩
  spares h answer received t name o hgives hnext hname hother :=
    hok.spares hgives hnext hname hother
  succeeded h config thread answer received t receiver hgives hslot hnext hidle :=
    hok.succeeded hgives hslot hnext hidle
  owned h name howner := by
    obtain ⟨r, hbears, rfl⟩ := hok.owner howner
    refine ⟨?_, r.object, hbears.name hok, ?_⟩
    · intro x hx
      obtain ⟨r', hbears', hname⟩ := hok.owner hx
      exact hbears.unique hbears' hok hname
    · intro t hrun
      obtain ⟨hok', x, hbears'⟩ := hbears.reaches hok hrun
      exact ⟨x, hbears'.owner, hbears'.name hok'⟩
  moved h other leftover t hnext := by
    refine ⟨fun name howner => next_move_owner hnext howner, ?_⟩
    intro u hrun op resume hpending
    obtain ⟨-, hspent⟩ := hok.reaches_spent hnext hrun
    exact (ReceiverSlot.spent_resume hspent hpending).1
  destroyed h receiver t hidle howner hnext := by
    obtain ⟨r, hlive, htable⟩ | ⟨hretired, -⟩ := hok.idle hidle
    · have hname : receiver.segment.name = r.name := by
        rw [hlive.segment]
        rfl
      rw [hname, hlive.farewell]
      refine ⟨r.object, Bears.name (r := r) (h := h) ?_ hok, ?_⟩
      · rw [Bears, hidle]
        exact ⟨hlive, htable⟩
      · intro u hrun
        obtain ⟨hok', hdeparting⟩ := hok.reaches_departing hidle hlive htable hnext hrun
        exact hok'.departing hdeparting
    · obtain ⟨leftover, hsegment⟩ := hretired.segment
      rw [hsegment] at howner
      cases howner

/-- However the calls on any number of receivers interleave with each other and with other
programs, and however they fail as long as giving back succeeds: a call of `initialize` leaves
nothing, or an owner of the name; moves and runs keep the name with its one owner, nothing that
a move leaves behind touches the ring, the name or the socket, and the destructor of the owner
closes the ring before it removes the name. -/
theorem receivers_all_or_nothing (hrun : Reaches (next inetPton) Reliable initial s) :
    s.AllOrNothing inetPton := (reaches_ok hrun).allOrNothing

/-- Every call succeeds. -/
def sampleAnswer : (op : Op) → op.Res
  | .shmCreate _ => .ok 4
  | .shmOpen _ => .ok 5
  | .fstat _ => .ok 320
  | .mmap _ _ => .ok 4096
  | .socket => .ok 3
  | .getsockname _ => .ok 9000
  | .getrandom _ => .ok [1, 0, 0, 0, 0, 0, 0, 0]
  | .ftruncate _ _ => .ok ()
  | .munmap _ _ => .ok ()
  | .close _ => .ok ()
  | .shmUnlink _ => .ok ()
  | .bind _ _ _ => .ok ()

/-- The receiver 0 is made, with a ring of two slots, and then moved. -/
def sampleActions : List LifecycleAction :=
  .initializeReceiver 0
      { listen := ⟨[], 0⟩, egressShmName := ascii "/ring", egressRing := ⟨2, 0⟩ } ::
    List.replicate 301 (.step 0 sampleAnswer (.ok [])) ++ [.move 1 0 []]

theorem sampleActions_reliable : ∀ a ∈ sampleActions, ∀ s : Receivers, s.Reliable a := by
  intro a ha s
  simp only [sampleActions, List.cons_append, List.mem_cons, List.mem_append,
    List.mem_replicate, List.not_mem_nil, or_false] at ha
  obtain rfl | ⟨-, rfl⟩ | rfl := ha
  · trivial
  · intro op
    cases op with
    | munmap a length => rfl
    | close d => rfl
    | shmUnlink name => rfl
    | _ => trivial
  · trivial

theorem receivers_all_or_nothing_sample :
    ∃ s, runActions (next fun _ => some 0) anyAction initial sampleActions = some s ∧
      s.Owner 1 (ascii "/ring") ∧
      ∀ t, Reaches (next fun _ => some 0)
        (fun s a => s.Reliable a ∧ s.Spares (ascii "/ring") a) s t →
          ∃ x, t.Owner x (ascii "/ring") := by
  have hsample : (runActions (next fun _ => some 0) anyAction initial sampleActions).map
      (fun s => (s.slots 1).receiver.map fun receiver => receiver.segment) =
        some (some (.mapped (ascii "/ring") 4 4096 320 true)) := by
    decide +kernel
  obtain ⟨s, hs, hsegment⟩ := Option.map_eq_some_iff.mp hsample
  obtain ⟨receiver, hreceiver, hmapped⟩ := Option.map_eq_some_iff.mp hsegment
  have howner : s.Owner 1 (ascii "/ring") := by
    refine ⟨receiver, hreceiver, ?_, ?_⟩
    · rw [hmapped]
      rfl
    · rw [hmapped]
      rfl
  refine ⟨s, hs, howner, ?_⟩
  intro t hrun
  have hreaches := reaches_of_allowed hs sampleActions_reliable
  obtain ⟨-, o, -, hkept⟩ := (receivers_all_or_nothing hreaches).owned 1 _ howner
  obtain ⟨x, hx, -⟩ := hkept t hrun
  exact ⟨x, hx⟩

end Receivers

end EventEngine
