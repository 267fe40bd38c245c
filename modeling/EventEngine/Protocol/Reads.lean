import EventEngine.Concurrency.Thread
import EventEngine.Protocol.RoundTrip

/-!
# The reads of the decoder

`decode_data` once more, cut at everything it does with a datagram: it compares the size, reads
bytes, forms subspans and subtracts. What is known to be there are the bytes that the outcomes
of the comparisons so far have shown; nothing else makes a read safe. The payload of the
result is a range of the datagram.
-/

namespace EventEngine.Protocol

open Concurrency Memory

/-- A comparison of the size of a datagram. -/
inductive SizeCheck where
  /-- `size < n` -/
  | less (n : Nat)
  /-- `size > n` -/
  | greater (n : Nat)
  /-- `size != n` -/
  | differs (n : Nat)
  /-- `count <= size - offset` -/
  | fits (offset count : Nat)
  deriving DecidableEq, Repr

inductive DecoderOp where
  | compare (check : SizeCheck)
  | readByte (offset : Nat)
  | subspan (offset count : Nat)
  | subtract (a b : Nat)
  deriving DecidableEq, Repr

abbrev DecoderOp.Res : DecoderOp → Type
  | .compare _ => Bool
  | .readByte _ => UInt8
  | .subspan _ _ => ByteRange
  | .subtract _ _ => Nat

abbrev decoderAccess : Signature := ⟨DecoderOp, DecoderOp.Res⟩

/-- A decoder keeps nothing but its locals. -/
abbrev Decoder (α : Type) := Method decoderAccess Unit α

/-- A decoded packet whose payload still lies in the datagram. -/
structure DataView where
  sessionId : UInt32
  packetSequence : UInt64
  event : EventView ByteRange
  deriving DecidableEq, Repr

def DataView.resolve (view : DataView) (packet : Bytes) : DecodedDataView where
  sessionId := view.sessionId
  packetSequence := view.packetSequence
  event := { view.event with
    payload := bytesAt packet view.event.payload.offset view.event.payload.length }

namespace Decoder

def perform (op : DecoderOp) : Decoder op.Res := Method.perform (S := decoderAccess) op

def readU8 (offset : Nat) : Decoder UInt8 := perform (.readByte offset)

def readU16 (offset : Nat) : Decoder UInt16 := do
  let low ← readU8 offset
  let high ← readU8 (offset + 1)
  return low.toUInt16 ||| high.toUInt16 <<< 8

def readU32 (offset : Nat) : Decoder UInt32 := do
  let low ← readU16 offset
  let high ← readU16 (offset + 2)
  return low.toUInt32 ||| high.toUInt32 <<< 16

def readU64 (offset : Nat) : Decoder UInt64 := do
  let low ← readU32 offset
  let high ← readU32 (offset + 4)
  return low.toUInt64 ||| high.toUInt64 <<< 32

/-- `offset <= size && count <= size - offset`. -/
def hasBytes (offset count : Nat) : Decoder Bool := do
  if ← perform (.compare (.less offset)) then return false
  else perform (.compare (.fits offset count))

/-- `all_of` over a subspan: it stops at the first byte that is not zero. -/
def allZero (offset : Nat) : Nat → Decoder Bool
  | 0 => return true
  | n + 1 => do
      let value ← readU8 offset
      if value == 0 then allZero (offset + 1) n
      else return false

/-- `align_up`; the sum of its arguments is small. -/
def alignUp (value alignment : Nat) : Decoder Nat := do
  let remainder := value &&& (alignment - 1)
  if remainder = 0 then return value
  else perform (.subtract (value + alignment) remainder)

/-- The part of `decode_data` behind the common header. -/
def decodeFrame (sessionId : UInt32) : Decoder (Except DecodeError DataView) := do
  let packetSequence ← readU64 8
  if packetSequence = 0 then return .error .invalidPacketSequence
  else
    let eventSequence ← readU64 16
    if eventSequence = 0 then return .error .invalidEventSequence
    else
      let sourceTimestampNs ← readU64 24
      let streamId ← readU32 32
      if (← readU32 36) ≠ 0 then return .error .malformedFrame
      else
        let payloadSize := (← readU16 40).toNat
        if payloadSize > maxSingleEventPayloadBytes then return .error .malformedFrame
        else
          let frameSize ← alignUp (eventFrameHeaderBytes + payloadSize) eventFrameAlignmentBytes
          if ¬ (← hasBytes dataFixedBytes frameSize) then return .error .malformedFrame
          else
            let payloadOffset := dataFixedBytes + eventFrameHeaderBytes
            let paddingSize ← perform
              (.subtract (dataFixedBytes + frameSize) (payloadOffset + payloadSize))
            let padding ← perform (.subspan (payloadOffset + payloadSize) paddingSize)
            if ¬ (← allZero padding.offset padding.length) then return .error .nonZeroPadding
            else if ← perform (.compare (.differs (dataFixedBytes + frameSize))) then
              return .error .unsupportedBatch
            else
              let payload ← perform (.subspan payloadOffset payloadSize)
              return .ok {
                sessionId, packetSequence
                event := {
                  streamId, sourceTimestampNs, payload
                  sequence := eventSequence } }

def decodeData : Decoder (Except DecodeError DataView) := do
  if ← perform (.compare (.less commonHeaderBytes)) then return .error .truncated
  else if ← perform (.compare (.greater maxPacketBytes)) then return .error .packetTooLarge
  else if (← readU8 0) ≠ magic then return .error .invalidMagic
  else
    let versionAndType ← readU8 1
    if versionAndType >>> 4 ≠ version then return .error .unsupportedVersion
    else if versionAndType &&& 0x0f ≠ MessageType.data.value then return .error .unsupportedType
    else
      let packetSize ← readU16 2
      if ← perform (.compare (.differs packetSize.toNat)) then
        return .error .packetLengthMismatch
      else
        let sessionId ← readU32 4
        if sessionId = 0 then return .error .invalidSessionId
        else if ← perform (.compare (.less minDataPacketBytes)) then return .error .truncated
        else decodeFrame sessionId

end Decoder

/-- Unsigned subtraction, modulo the size of a word. -/
def wrappingSub (a b : Nat) : Nat := (a + 2 ^ sizeBits - b) % 2 ^ sizeBits

def SizeCheck.passes (size : Nat) : SizeCheck → Bool
  | .less n => decide (size < n)
  | .greater n => decide (size > n)
  | .differs n => decide (size ≠ n)
  | .fits offset count => decide (count ≤ wrappingSub size offset)

/-- The bytes that are there if the comparison has this outcome. -/
def SizeCheck.shows : SizeCheck → Bool → Nat
  | .less n, false => n
  | .greater n, true => n + 1
  | .differs n, false => n
  | .fits offset count, true => offset + count
  | _, _ => 0

/-- How a datagram answers; `shown` are the bytes known to be there. Outside of the datagram
any byte may be read. -/
def datagram (packet : Bytes) : Environment decoderAccess Nat
  | .compare check, r, shown, shown' =>
      r = check.passes packet.length ∧ shown' = max shown (check.shows r)
  | .readByte offset, r, shown, shown' =>
      (offset < packet.length → packet[offset]? = some r) ∧ shown' = shown
  | .subspan offset count, r, shown, shown' => r = ⟨offset, count⟩ ∧ shown' = shown
  | .subtract a b, r, shown, shown' => r = wrappingSub a b ∧ shown' = shown

/-- Bytes are read and ranges formed only where the checks so far have shown bytes; no
subtraction wraps. -/
def DecoderOp.Safe (size shown : Nat) : DecoderOp → Prop
  | .compare (.fits offset _) => offset ≤ size
  | .compare _ => True
  | .readByte offset => offset < shown
  | .subspan offset count => offset + count ≤ shown
  | .subtract a b => b ≤ a

def Inside (packet : Bytes) (_ : Unit) (op : DecoderOp) (shown : Nat) : Prop :=
  shown ≤ packet.length ∧ op.Safe packet.length shown

/-- The result of the decoder; a payload is the range that the packet announces. -/
structure Gives (packet : Bytes) (expected : Except DecodeError DecodedDataView)
    (result : Except DecodeError DataView) : Prop where
  decoded : result.map (fun view => view.resolve packet) = expected
  payload : ∀ view, result = .ok view →
    view.event.payload = ⟨42, (readU16 packet 40).toNat⟩ ∧
      42 + (readU16 packet 40).toNat ≤ packet.length

section Rules

variable {packet : Bytes} {shown size offset count n : Nat} {check : SizeCheck} {α : Type}
variable {post : α → Unit → Nat → Prop}

theorem wrappingSub_le {a b : Nat} (h : b ≤ a) : wrappingSub a b ≤ a - b := by
  rw [wrappingSub, Nat.sub_add_comm h, Nat.add_mod_right]
  exact Nat.mod_le _ _

theorem wrappingSub_eq {a b : Nat} (h : b ≤ a) (hfits : a < 2 ^ sizeBits) :
    wrappingSub a b = a - b := by
  rw [wrappingSub, Nat.sub_add_comm h, Nat.add_mod_right]
  exact Nat.mod_eq_of_lt (by omega)

/-- A comparison shows no byte that is not there. -/
theorem SizeCheck.shows_le (hsafe : DecoderOp.Safe size shown (.compare check)) :
    check.shows (check.passes size) ≤ size := by
  cases check with
  | less n =>
      by_cases h : size < n
      · simp [passes, shows, h]
      · have hle : n ≤ size := by omega
        simp [passes, shows, h, hle]
  | greater n =>
      by_cases h : size > n
      · have hle : n + 1 ≤ size := by omega
        simp [passes, shows, h, hle]
      · simp [passes, shows, h]
  | differs n =>
      by_cases h : size = n
      · simp [passes, shows, h]
      · simp [passes, shows, h]
  | fits offset count =>
      have hoffset : offset ≤ size := hsafe
      have hle := wrappingSub_le hoffset
      by_cases h : count ≤ wrappingSub size offset
      · simp only [passes, h, decide_true, shows]
        omega
      · simp [passes, shows, h]

/-- The decoder gets this value, after which so many bytes are known to be there. -/
def Answers (value : α) (shown : Nat) (r : α) (_ : Unit) (shown' : Nat) : Prop :=
  r = value ∧ shown' = shown

namespace Decoder

variable {β : Type} {x : Decoder β} {next : β → Decoder α} {value : β} {shown' : Nat}

theorem answers_bind
    (hx : (x ()).Meets (datagram packet) (Inside packet) (Answers value shown') shown)
    (hnext : (next value ()).Meets (datagram packet) (Inside packet) post shown') :
    ((x >>= next) ()).Meets (datagram packet) (Inside packet) post shown := by
  apply Process.Meets.bind hx
  rintro r l h ⟨rfl, rfl⟩
  exact hnext

theorem compare_meets (hshown : shown ≤ packet.length)
    (hsafe : DecoderOp.Safe packet.length shown (.compare check)) :
    (perform (.compare check) ()).Meets (datagram packet) (Inside packet)
      (Answers (check.passes packet.length)
        (max shown (check.shows (check.passes packet.length)))) shown := by
  refine ⟨⟨hshown, hsafe⟩, ?_⟩
  rintro r shown' ⟨rfl, rfl⟩
  exact ⟨rfl, rfl⟩

theorem subtract_meets {a b : Nat} (hshown : shown ≤ packet.length) (hsafe : b ≤ a)
    (hfits : a < 2 ^ sizeBits) :
    (perform (.subtract a b) ()).Meets (datagram packet) (Inside packet)
      (Answers (a - b) shown) shown := by
  refine ⟨⟨hshown, hsafe⟩, ?_⟩
  rintro r shown' ⟨rfl, rfl⟩
  exact ⟨wrappingSub_eq hsafe hfits, rfl⟩

theorem subspan_meets (hshown : shown ≤ packet.length) (hsafe : offset + count ≤ shown) :
    (perform (.subspan offset count) ()).Meets (datagram packet) (Inside packet)
      (Answers ⟨offset, count⟩ shown) shown := by
  refine ⟨⟨hshown, hsafe⟩, ?_⟩
  rintro r shown' ⟨rfl, rfl⟩
  exact ⟨rfl, rfl⟩

theorem readU8_meets (hshown : shown ≤ packet.length) (hsafe : offset < shown) :
    (readU8 offset ()).Meets (datagram packet) (Inside packet)
      (Answers (Protocol.readU8 packet offset) shown) shown := by
  refine ⟨⟨hshown, hsafe⟩, ?_⟩
  rintro r shown' ⟨hbyte, rfl⟩
  refine ⟨?_, rfl⟩
  rw [Protocol.readU8, List.getD_eq_getElem?_getD, hbyte (by omega), Option.getD_some]

theorem readU16_meets (hshown : shown ≤ packet.length) (hsafe : offset + 2 ≤ shown) :
    (readU16 offset ()).Meets (datagram packet) (Inside packet)
      (Answers (Protocol.readU16 packet offset) shown) shown := by
  apply answers_bind (readU8_meets hshown (by omega))
  apply answers_bind (readU8_meets hshown (by omega))
  exact ⟨rfl, rfl⟩

theorem readU32_meets (hshown : shown ≤ packet.length) (hsafe : offset + 4 ≤ shown) :
    (readU32 offset ()).Meets (datagram packet) (Inside packet)
      (Answers (Protocol.readU32 packet offset) shown) shown := by
  apply answers_bind (readU16_meets hshown (by omega))
  apply answers_bind (readU16_meets hshown (by omega))
  exact ⟨rfl, rfl⟩

theorem readU64_meets (hshown : shown ≤ packet.length) (hsafe : offset + 8 ≤ shown) :
    (readU64 offset ()).Meets (datagram packet) (Inside packet)
      (Answers (Protocol.readU64 packet offset) shown) shown := by
  apply answers_bind (readU32_meets hshown (by omega))
  apply answers_bind (readU32_meets hshown (by omega))
  exact ⟨rfl, rfl⟩

/-- `has_bytes` says what is there, and shows it. -/
theorem hasBytes_meets (hshown : shown ≤ packet.length)
    (hfits : packet.length < 2 ^ sizeBits) :
    (hasBytes offset count ()).Meets (datagram packet) (Inside packet)
      (fun r _ shown' => r = Protocol.hasBytes packet.length offset count ∧
        shown' ≤ packet.length ∧ shown ≤ shown' ∧ (r = true → offset + count ≤ shown'))
      shown := by
  have hsafe : DecoderOp.Safe packet.length shown (.compare (.less offset)) := trivial
  apply answers_bind (compare_meets hshown hsafe)
  by_cases hoffset : packet.length < offset
  · have hno : ¬ offset ≤ packet.length := by omega
    simp only [SizeCheck.passes, hoffset, decide_true, if_true]
    refine ⟨?_, ?_, ?_, fun h => by cases h⟩
    · simp [Protocol.hasBytes, hno]
    · simpa [SizeCheck.shows] using hshown
    · exact Nat.le_max_left _ _
  · have hyes : offset ≤ packet.length := by omega
    have hroom := wrappingSub_eq hyes hfits
    have hmax : max shown offset ≤ packet.length := Nat.max_le.mpr ⟨hshown, hyes⟩
    simp only [SizeCheck.passes, hoffset, decide_false, Bool.false_eq_true, if_false,
      SizeCheck.shows]
    have hsafe' : DecoderOp.Safe packet.length (max shown offset)
        (.compare (.fits offset count)) := hyes
    apply (compare_meets hmax hsafe').mono_post
    rintro r l shown' ⟨rfl, rfl⟩
    refine ⟨?_, Nat.max_le.mpr ⟨hmax, SizeCheck.shows_le hsafe'⟩, ?_, ?_⟩
    · simp [SizeCheck.passes, Protocol.hasBytes, hyes, hroom]
    · omega
    · intro hpasses
      rw [hpasses, SizeCheck.shows]
      exact Nat.le_max_right _ _

theorem allZero_meets (hshown : shown ≤ packet.length) (hsafe : offset + count ≤ shown) :
    (allZero offset count ()).Meets (datagram packet) (Inside packet)
      (Answers ((bytesAt packet offset count).all (· == 0)) shown) shown := by
  induction count generalizing offset with
  | zero => exact ⟨rfl, rfl⟩
  | succ n ih =>
      apply answers_bind (readU8_meets hshown (by omega))
      have hbytes : bytesAt packet offset (n + 1) =
          Protocol.readU8 packet offset :: bytesAt packet (offset + 1) n := by
        rw [Nat.add_comm, bytesAt_add, bytesAt_one (by omega)]
        rfl
      rw [hbytes, List.all_cons]
      by_cases hzero : (Protocol.readU8 packet offset == 0) = true
      · simp only [hzero, if_true, Bool.true_and]
        exact ih (by omega)
      · simp only [hzero, Bool.false_and]
        exact ⟨rfl, rfl⟩

theorem alignUp_meets {value alignment : Nat} (hshown : shown ≤ packet.length)
    (hsafe : value &&& (alignment - 1) ≤ value + alignment)
    (hfits : value + alignment < 2 ^ sizeBits) :
    (alignUp value alignment ()).Meets (datagram packet) (Inside packet)
      (Answers (Memory.alignUp sizeBits value alignment) shown) shown := by
  simp only [alignUp, Memory.alignUp]
  by_cases hzero : value &&& (alignment - 1) = 0
  · simp only [hzero, if_true]
    exact ⟨rfl, rfl⟩
  · simp only [hzero, if_false]
    rw [Nat.mod_eq_of_lt (by omega)]
    exact subtract_meets hshown hsafe hfits

/-- A check that rejects the packet, in the decoder as in its description. -/
theorem rejects_or {p : Prop} [Decidable p] {e : DecodeError}
    {expected : Except DecodeError DecodedDataView} {rest : Decoder (Except DecodeError DataView)}
    (hrest : ¬ p → (rest ()).Meets (datagram packet) (Inside packet)
      (fun result _ _ => Gives packet expected result) shown) :
    ((if p then pure (.error e) else rest : Decoder _) ()).Meets (datagram packet)
      (Inside packet) (fun result _ _ => Gives packet (if p then .error e else expected) result)
      shown := by
  by_cases hp : p
  · simp only [hp, if_true]
    exact ⟨rfl, fun view hview => by cases hview⟩
  · simp only [hp, if_false]
    exact hrest hp

/-- A comparison that rejects the packet; if it does not, it has shown some bytes. -/
theorem compare_rejects_or {p : Prop} [Decidable p] {e : DecodeError}
    {expected : Except DecodeError DecodedDataView} {rest : Decoder (Except DecodeError DataView)}
    (hshown : shown ≤ packet.length)
    (hsafe : DecoderOp.Safe packet.length shown (.compare check))
    (hp : check.passes packet.length = decide p)
    (hrest : ¬ p → max shown (check.shows false) ≤ packet.length →
      (rest ()).Meets (datagram packet) (Inside packet)
        (fun result _ _ => Gives packet expected result) (max shown (check.shows false))) :
    ((perform (.compare check) >>= fun r =>
      if r = true then pure (.error e) else rest : Decoder _) ()).Meets (datagram packet)
      (Inside packet) (fun result _ _ => Gives packet (if p then .error e else expected) result)
      shown := by
  have hshows := SizeCheck.shows_le hsafe
  apply answers_bind (compare_meets hshown hsafe)
  rw [hp] at hshows ⊢
  by_cases h : p
  · simp only [h, decide_true, if_true]
    exact ⟨rfl, fun view hview => by cases hview⟩
  · simp only [h, decide_false, Bool.false_eq_true, if_false] at hshows ⊢
    exact hrest h (Nat.max_le.mpr ⟨hshown, hshows⟩)

/-- Behind the common header the fixed fields are known to be there, then the frame. -/
theorem decodeFrame_meets (sessionId : UInt32) (hfixed : minDataPacketBytes ≤ shown)
    (hshown : shown ≤ packet.length) (hfits : packet.length ≤ maxPacketBytes) :
    (decodeFrame sessionId ()).Meets (datagram packet) (Inside packet)
      (fun result _ _ => Gives packet (Protocol.decodeFrame packet sessionId) result) shown := by
  rw [minDataPacketBytes] at hfixed
  apply answers_bind (readU64_meets hshown (by omega))
  apply rejects_or
  intro _
  apply answers_bind (readU64_meets hshown (by omega))
  apply rejects_or
  intro _
  apply answers_bind (readU64_meets hshown (by omega))
  apply answers_bind (readU32_meets hshown (by omega))
  apply answers_bind (readU32_meets hshown (by omega))
  apply rejects_or
  intro _
  apply answers_bind (readU16_meets hshown (by omega))
  apply rejects_or
  intro hpayload
  have hle : (Protocol.readU16 packet 40).toNat ≤ maxSingleEventPayloadBytes := by omega
  generalize hn : (Protocol.readU16 packet 40).toNat = n at hle ⊢
  have hframe := alignUp_frame' hle
  have hpad := le_packetBytes n
  have hsmall : maxPacketBytes < 2 ^ sizeBits := by decide
  have hmax := packetBytes_le hle
  have hremainder : (eventFrameHeaderBytes + n) &&& (eventFrameAlignmentBytes - 1) ≤
      eventFrameHeaderBytes + n := Nat.and_le_left
  have hsum : eventFrameHeaderBytes + n + eventFrameAlignmentBytes < 2 ^ sizeBits := by
    simp only [eventFrameHeaderBytes, eventFrameAlignmentBytes, maxSingleEventPayloadBytes,
      sizeBits] at hle ⊢
    omega
  apply answers_bind (alignUp_meets hshown (by omega) hsum)
  simp only [eventFrameHeaderBytes, eventFrameAlignmentBytes, dataFixedBytes] at hframe ⊢
  apply Process.Meets.bind (hasBytes_meets hshown (by omega))
  rintro r l shown' ⟨rfl, hshown', hgrows, hcovers⟩
  apply rejects_or
  intro hhas
  have hcovered := hcovers (by simpa using hhas)
  apply answers_bind (subtract_meets hshown' (by omega) (by omega))
  apply answers_bind (subspan_meets hshown' (by omega))
  apply answers_bind (allZero_meets hshown' (by dsimp only; omega))
  apply rejects_or
  intro _
  refine compare_rejects_or hshown' ?_ rfl fun _ hstill => ?_
  · trivial
  apply answers_bind (subspan_meets hstill (by omega))
  refine ⟨rfl, ?_⟩
  intro view hview
  obtain rfl := Except.ok.inj hview
  rw [hn]
  exact ⟨rfl, by omega⟩

end Decoder

end Rules

/-- Whatever the datagram holds, the decoder stays inside it: it reads bytes and forms subspans
only where an earlier check has shown bytes, no subtraction wraps, and its result is that of
`decodeData`, with the announced bytes from offset 42 on as the payload. -/
theorem decodeData_inside (packet : Bytes) :
    (Decoder.decodeData ()).Meets (datagram packet) (Inside packet)
      (fun result _ _ => Gives packet (decodeData packet) result) 0 := by
  refine Decoder.compare_rejects_or (Nat.zero_le _) ?_ rfl fun hheader hshown => ?_
  · trivial
  refine Decoder.compare_rejects_or hshown ?_ rfl fun hfits hshown => ?_
  · trivial
  simp only [SizeCheck.shows, Nat.zero_max, Nat.max_zero, commonHeaderBytes] at hshown ⊢
  apply Decoder.answers_bind (Decoder.readU8_meets hshown (by omega))
  apply Decoder.rejects_or
  intro _
  apply Decoder.answers_bind (Decoder.readU8_meets hshown (by omega))
  apply Decoder.rejects_or
  intro _
  apply Decoder.rejects_or
  intro _
  apply Decoder.answers_bind (Decoder.readU16_meets hshown (by omega))
  refine Decoder.compare_rejects_or hshown ?_ (decide_eq_decide.mpr ne_comm) fun _ hshown => ?_
  · trivial
  have hstill : 8 ≤ max 8 (readU16 packet 2).toNat := Nat.le_max_left _ _
  apply Decoder.answers_bind (Decoder.readU32_meets hshown (by simp only [SizeCheck.shows]; omega))
  apply Decoder.rejects_or
  intro _
  refine Decoder.compare_rejects_or hshown ?_ rfl fun hminimum hshown => ?_
  · trivial
  exact Decoder.decodeFrame_meets _ (Nat.le_max_right _ _) hshown (by omega)

end EventEngine.Protocol
