import EventEngine.Concurrency.RelyGuarantee
import EventEngine.Ring.Operate

/-!
# The read cursor of a ring that may hold anything

Nothing is assumed here of the other side but that it leaves the read cursor alone: slots,
write cursor and state may change at any time. The consumer's calls still move the cursor by
one for every event taken and given back, and never past its end.
-/

namespace EventEngine.Ring

open Concurrency Memory

/-- Only the consumer stores the read cursor; all else may change between two accesses. -/
def cursorProtocol : Protocol Span Unit where
  inv _ := True
  rely x y := y.shared.u64 consumerOffset = x.shared.u64 consumerOffset
  guar _ _ := True
  rely_trans h h' := h'.trans h

/-- A consumer's handle that has taken `taken` events since the read cursor was `start`, and
holds the last of them if `holding`. -/
structure Taken (start taken : Nat) (holding : Bool) (l : SpscRing) (m : Span) : Prop where
  header : l.header = some 0
  acquired : l.acquired = holding
  position : holding = true → l.acquiredPosition = m.u64 consumerOffset
  room : holding = true → readPos m + 1 < 2 ^ 64
  cursor : readPos m + holding.toNat = start + taken

/-- What a consumer's call leaves behind. -/
def TakenAfter (start taken : Nat) : Reply → SpscRing → World Span Unit → Prop
  | .acquire (.ok _), l, y => Taken start (taken + 1) true l y.shared
  | .acquire (.error _), l, y => Taken start taken false l y.shared
  | .release _, l, y => Taken start taken false l y.shared
  | _, _, _ => False

/-- Whether a consumer holds an event when it makes a call. -/
def Call.whileHolding : Call → Option Bool
  | .tryAcquire => some false
  | .release => some true
  | _ => none

variable {start taken : Nat} {holding : Bool} {l k : SpscRing} {m m' : Span}

theorem Taken.transfer (h : Taken start taken holding l m)
    (hsame : m'.u64 consumerOffset = m.u64 consumerOffset) :
    Taken start taken holding l m' := by
  have hread : readPos m' = readPos m := congrArg UInt64.toNat hsame
  constructor
  · exact h.header
  · exact h.acquired
  · rw [hsame]
    exact h.position
  · rw [hread]
    exact h.room
  · rw [hread]
    exact h.cursor

theorem TakenAfter.transfer {reply : Reply} (h : TakenAfter start taken reply l ⟨m, ()⟩)
    (hsame : m'.u64 consumerOffset = m.u64 consumerOffset) :
    TakenAfter start taken reply l ⟨m', ()⟩ := by
  cases reply with
  | acquire r =>
      cases r with
      | ok view => exact Taken.transfer h hsame
      | error e => exact Taken.transfer h hsame
  | release r => exact Taken.transfer h hsame
  | publish r => cases h
  | attach r => cases h
  | close r => cases h

section Rules

variable {α : Type} {post : α → SpscRing → World Span Unit → Prop}

/-- A load reads what the memory holds by then. -/
theorem cursor_loadU32 {offset : Nat} {next : UInt32 → Method spanAccess SpscRing α}
    (h : ∀ m' v, m'.u64 consumerOffset = m.u64 consumerOffset →
      (next v l).Safe (@spanExec Unit) cursorProtocol (fun _ _ _ => True) post ⟨m', ()⟩) :
    ((loadU32 offset >>= next) l).Safe (@spanExec Unit) cursorProtocol (fun _ _ _ => True) post
      ⟨m, ()⟩ := by
  intro y _ hrely
  exact ⟨trivial, fun _ => ⟨(), trivial, trivial, h y.shared _ hrely⟩⟩

theorem cursor_loadU64 {offset : Nat} {next : UInt64 → Method spanAccess SpscRing α}
    (h : ∀ m', m'.u64 consumerOffset = m.u64 consumerOffset →
      (next (m'.u64 offset) l).Safe (@spanExec Unit) cursorProtocol (fun _ _ _ => True) post
        ⟨m', ()⟩) :
    ((loadU64 offset >>= next) l).Safe (@spanExec Unit) cursorProtocol (fun _ _ _ => True) post
      ⟨m, ()⟩ := by
  intro y _ hrely
  exact ⟨trivial, fun _ => ⟨(), trivial, trivial, h y.shared hrely⟩⟩

end Rules

theorem invalidSlot_cursor (slot : Nat) (payloadCapacity : UInt32) :
    (invalidSlot slot payloadCapacity l).Safe (@spanExec Unit) cursorProtocol
      (fun _ _ _ => True)
      (fun _ l' y => l' = l ∧ y.shared.u64 consumerOffset = m.u64 consumerOffset) ⟨m, ()⟩ := by
  apply cursor_loadU32
  intro m1 payloadLength h1
  by_cases hlarge : payloadLength > payloadCapacity
  · rw [if_pos hlarge]
    exact ⟨rfl, h1⟩
  · rw [if_neg hlarge]
    apply cursor_loadU32
    intro m2 reserved0 h2
    by_cases hreserved : reserved0 ≠ 0
    · rw [if_pos hreserved]
      exact ⟨rfl, h2.trans h1⟩
    · rw [if_neg hreserved]
      apply cursor_loadU32
      intro m3 reserved1 h3
      exact ⟨rfl, h3.trans (h2.trans h1)⟩

/-- An event is taken only behind the read cursor, so that the cursor can advance. -/
theorem acquireAt_cursor {readPos' writePos' : UInt64} (h : Taken start taken false l m)
    (hread : readPos' = m.u64 consumerOffset) (hne : readPos' ≠ writePos') :
    (k.acquireAt readPos' writePos' l).Safe (@spanExec Unit) cursorProtocol
      (fun _ _ _ => True) (fun r => TakenAfter start taken (.acquire r)) ⟨m, ()⟩ := by
  rw [SpscRing.acquireAt]
  by_cases hrange : readPos' > writePos' ∨ writePos' - readPos' > k.slotCount.toUInt64
  · rw [if_pos hrange]
    exact h
  · rw [if_neg hrange]
    have hle : readPos' ≤ writePos' := UInt64.not_lt.mp fun hlt => hrange (.inl hlt)
    have hroom : readPos m + 1 < 2 ^ 64 := by
      have hlt := writePos'.toNat_lt
      have hle' := UInt64.le_iff_toNat_le.mp hle
      have hne' : readPos'.toNat ≠ writePos'.toNat := fun heq => hne (UInt64.toNat_inj.mp heq)
      rw [readPos, ← hread]
      omega
    refine (invalidSlot_cursor _ _).bind ?_
    rintro invalid l' ⟨m0, ⟨⟩⟩ ⟨rfl, h0⟩
    beta_reduce
    by_cases hinvalid : invalid = true
    · rw [if_pos hinvalid]
      exact h.transfer h0
    · rw [if_neg hinvalid]
      have htaken : Taken start (taken + 1) true
          { l' with acquiredPosition := readPos', acquired := true } m := by
        constructor
        · exact h.header
        · rfl
        · intro _
          exact hread
        · intro _
          exact hroom
        · have hcursor := h.cursor
          rw [Bool.toNat_false, Nat.add_zero] at hcursor
          rw [Bool.toNat_true, hcursor, Nat.add_assoc]
      rw [Method.bind_apply, Method.assign_apply, Process.bind_done]
      apply cursor_loadU32
      intro m1 streamId h1
      apply cursor_loadU64
      intro m2 h2
      apply cursor_loadU64
      intro m3 h3
      apply cursor_loadU32
      intro m4 payloadLength h4
      exact htaken.transfer (h4.trans (h3.trans (h2.trans (h1.trans h0))))

theorem tryAcquire_cursor (h : Taken start taken false l m) :
    (SpscRing.tryAcquire l).Safe (@spanExec Unit) cursorProtocol (fun _ _ _ => True)
      (fun r => TakenAfter start taken (.acquire r)) ⟨m, ()⟩ := by
  rw [SpscRing.tryAcquire, Method.bind_apply, Method.self_apply, Process.bind_done, h.header]
  simp only [h.acquired]
  apply cursor_loadU64
  intro m1 h1
  have hread : m1.u64 (0 + consumerOffset) = m1.u64 consumerOffset := by rw [Nat.zero_add]
  generalize m1.u64 (0 + consumerOffset) = read at hread ⊢
  have htaken := h.transfer h1
  by_cases hcached : read ≥ l.cachedWritePosition
  · rw [if_pos hcached]
    apply cursor_loadU32
    intro m2 state h2
    apply cursor_loadU64
    intro m3 h3
    generalize m3.u64 (0 + producerOffset) = write
    have hlater := h3.trans h2
    have htaken' := htaken.transfer hlater
    rw [Method.bind_apply, Method.assign_apply, Process.bind_done]
    by_cases hempty : read = write
    · rw [if_pos hempty]
      exact { htaken' with }
    · rw [if_neg hempty]
      exact acquireAt_cursor { htaken' with } (hread.trans hlater.symm) hempty
  · rw [if_neg hcached]
    refine acquireAt_cursor htaken hread ?_
    rintro rfl
    exact hcached (UInt64.le_refl _)

theorem release_cursor (h : Taken start taken true l m) :
    (SpscRing.release l).Safe (@spanExec Unit) cursorProtocol (fun _ _ _ => True)
      (fun r => TakenAfter start taken (.release r)) ⟨m, ()⟩ := by
  rw [SpscRing.release, Method.bind_apply, Method.self_apply, Process.bind_done,
    if_pos h.acquired]
  intro y _ hrely
  refine ⟨trivial, fun _ => ⟨(), trivial, trivial, ?_⟩⟩
  have htaken := h.transfer hrely
  have hstored : (y.shared.write consumerOffset
      (leBytes 8 (l.acquiredPosition + 1).toNat)).u64 consumerOffset =
        y.shared.u64 consumerOffset + 1 := by
    rw [Span.u64_write_same, htaken.position rfl]
  have hread : readPos (y.shared.write consumerOffset
      (leBytes 8 (l.acquiredPosition + 1).toNat)) = readPos y.shared + 1 := by
    rw [readPos, hstored, UInt64.toNat_add, UInt64.toNat_one]
    exact Nat.mod_eq_of_lt (htaken.room rfl)
  have hheader : l.header.getD 0 + consumerOffset = consumerOffset := by
    rw [h.header, Option.getD_some, Nat.zero_add]
  change Taken start taken false _ (y.shared.write (l.header.getD 0 + consumerOffset) _)
  rw [hheader]
  generalize y.shared.write consumerOffset _ = m' at hread ⊢
  constructor
  · exact h.header
  · rfl
  · intro hholding
    cases hholding
  · intro hholding
    cases hholding
  · have hcursor := htaken.cursor
    rw [Bool.toNat_true] at hcursor
    rw [hread, hcursor]
    rfl

/-- One step of a call on a handle, with the reply if it has returned. -/
def Client.operate (k : Client) (m : Span) (call : Call) :
    Option (Client × Span × Option Reply) :=
  match k.running with
  | none => (k.begin call m).map fun k' => (k', m, k'.latest)
  | some _ => (k.step m).map fun next => (next.1, next.2, next.1.latest)

/-- Where the call of a consumer has got: it waits for an access, or it has returned. -/
inductive Proceeds (start taken : Nat) (call : Call) (k : Client) (m : Span) :
    Option Reply → Prop where
  | waits (r : Running) : k.running = some r → r.call = call →
      r.process.Safe (@spanExec Unit) cursorProtocol (fun _ _ _ => True)
        (TakenAfter start taken) ⟨m, ()⟩ → Proceeds start taken call k m none
  | returns (reply : Reply) : k.running = none →
      TakenAfter start taken reply k.handle ⟨m, ()⟩ → Proceeds start taken call k m (some reply)

theorem Proceeds.settle {k : Client} {r : Running}
    (h : r.process.Safe (@spanExec Unit) cursorProtocol (fun _ _ _ => True)
      (TakenAfter start taken) ⟨m, ()⟩) :
    Proceeds start taken r.call (k.settle r m) m (k.settle r m).latest := by
  unfold Client.settle
  cases hr : r.process with
  | done reply l =>
      rw [hr] at h
      exact .returns reply rfl h
  | step l op next => exact .waits r rfl rfl h

/-- A call of a consumer begins. -/
theorem Taken.method {call : Call} {region : Region} (h : Taken start taken holding l m)
    (hcall : call.whileHolding = some holding) :
    (call.method region l).Safe (@spanExec Unit) cursorProtocol (fun _ _ _ => True)
      (TakenAfter start taken) ⟨m, ()⟩ := by
  cases call with
  | tryAcquire =>
      obtain rfl := Option.some.inj hcall
      exact (tryAcquire_cursor h).bind fun r l' y hafter => hafter
  | release =>
      obtain rfl := Option.some.inj hcall
      exact (release_cursor h).bind fun r l' y hafter => hafter
  | tryPublish event => cases hcall
  | attach => cases hcall
  | closePublication => cases hcall

/-- One step of a call of a consumer. -/
theorem Client.operate_proceeds {k k' : Client} {call : Call} {reply : Option Reply}
    (hidle : k.running = none →
      Taken start taken holding k.handle m ∧ call.whileHolding = some holding)
    (hbusy : ∀ r, k.running = some r → r.call = call ∧
      r.process.Safe (@spanExec Unit) cursorProtocol (fun _ _ _ => True)
        (TakenAfter start taken) ⟨m, ()⟩)
    (h : k.operate m call = some (k', m', reply)) :
    Proceeds start taken call k' m' reply := by
  unfold Client.operate at h
  cases hrun : k.running with
  | none =>
      obtain ⟨htaken, hcall⟩ := hidle hrun
      rw [hrun] at h
      obtain ⟨k1, hbegin, heq⟩ := Option.map_eq_some_iff.mp h
      simp only [Prod.mk.injEq] at heq
      obtain ⟨rfl, rfl, rfl⟩ := heq
      rw [Client.begin, hrun] at hbegin
      obtain rfl := Option.some.inj hbegin
      exact Proceeds.settle (r := ⟨call, k.handle, m, _, _, _⟩) (htaken.method hcall)
  | some r =>
      obtain ⟨hcall, hsafe⟩ := hbusy r hrun
      rw [hrun] at h
      obtain ⟨⟨k1, m1⟩, hstep, heq⟩ := Option.map_eq_some_iff.mp h
      simp only [Prod.mk.injEq] at heq
      obtain ⟨rfl, rfl, rfl⟩ := heq
      unfold Client.step at hstep
      split at hstep
      case h_1 call' entry begun l op next instants stored hr =>
        obtain rfl := Option.some.inj (hrun.symm.trans hr)
        obtain ⟨rfl, rfl⟩ := Prod.mk.inj (Option.some.inj hstep)
        obtain ⟨-, ⟨⟩, -, -, hnext⟩ := hsafe.advance trivial rfl ()
        rw [← hcall]
        exact Proceeds.settle (r := ⟨call', entry, begun, _, _, _⟩) hnext
      case h_2 => cases hstep

/-- A handle that holds nothing yet. -/
def Unheld (r : Except RingError SpscRing) : Prop :=
  ∀ handle, r = .ok handle → handle.header = some 0 ∧ handle.acquired = false

theorem unheld_error (e : RingError) : Unheld (.error e) := by
  intro handle h
  cases h

section Attach

variable {ℓ : Type}

theorem attachGeometry_results (region : Region) (l : ℓ) :
    ((SpscRing.attachGeometry region : Method spanAccess ℓ (Except RingError SpscRing))
      l).Results Unheld := by
  rw [SpscRing.attachGeometry]
  apply Process.Results.bind
  intro slotCount l1
  apply Process.Results.bind
  intro slotPayloadCapacity l2
  beta_reduce
  cases requiredBytes sizeBits ⟨slotCount, slotPayloadCapacity⟩ with
  | error e => exact unheld_error _
  | ok size =>
      apply Process.Results.bind
      intro slotStride l3
      beta_reduce
      split
      · exact unheld_error _
      · apply Process.Results.bind
        intro segmentBytes l4
        beta_reduce
        split
        · exact unheld_error _
        · split
          · exact unheld_error _
          · intro count stride capacity handle h
            rw [← Except.ok.inj h]
            exact ⟨rfl, rfl⟩

/-- Whatever `attach` reads, the handle it returns holds nothing. -/
theorem attach_results (region : Region) (l : ℓ) :
    ((SpscRing.attach region : Method spanAccess ℓ (Except RingError SpscRing)) l).Results
      Unheld := by
  rw [SpscRing.attach]
  split
  · exact unheld_error _
  · apply Process.Results.bind
    intro state l1
    beta_reduce
    cases validateState state with
    | error e => exact unheld_error _
    | ok valid =>
        apply Process.Results.bind
        intro invalid l2
        beta_reduce
        split
        · exact unheld_error _
        · apply Process.Results.bind
          intro zero l3
          beta_reduce
          split
          · exact attachGeometry_results region l3
          · exact unheld_error _

end Attach

end EventEngine.Ring
