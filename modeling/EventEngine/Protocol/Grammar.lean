import EventEngine.Protocol.RoundTrip

/-!
# The documented grammar of a DATA packet

The protocol describes a packet with any number of event frames; the decoder parses one and
infers the rest from lengths. The reference parser here follows the description: fields are
numbers read at documented offsets, and frames are parsed from offset 36 until the packet
ends. It shares nothing with the decoder but `bytesAt`.
-/

namespace EventEngine.Protocol

open Memory

variable {p : Bytes}

/-- What a packet stores of one event. -/
structure Frame where
  timestampDeltaNs : Nat
  payload : Bytes
  deriving DecidableEq, Repr

/-- A frame is padded to a multiple of four. -/
def frameSize (payloadLength : Nat) : Nat := (6 + payloadLength + 3) / 4 * 4

/-- The frame at the front of `bytes`, with the bytes behind it. -/
def parseFrame (bytes : Bytes) : Option (Frame × Bytes) :=
  let payloadLength := leNat (bytesAt bytes 4 2)
  let size := frameSize payloadLength
  let padding := bytesAt bytes (6 + payloadLength) (size - (6 + payloadLength))
  if size ≤ bytes.length ∧ padding.all (· == 0) then
    some (⟨leNat (bytesAt bytes 0 4), bytesAt bytes 6 payloadLength⟩, bytes.drop size)
  else none

/-- Complete frames up to the end. A frame is not empty, so the length is enough fuel. -/
def parseFrames : Nat → Bytes → Option (List Frame)
  | _, [] => some []
  | 0, _ :: _ => none
  | fuel + 1, bytes => (parseFrame bytes).bind fun (frame, rest) =>
      (parseFrames fuel rest).map (frame :: ·)

/-- A DATA packet as the protocol describes it. -/
structure DataPacket where
  sessionId : UInt32
  packetSequence : UInt64
  events : List Event
  deriving DecidableEq, Repr

/-- A packet seen by a decoder that delivers single events only. -/
def DataPacket.decoded (packet : DataPacket) : Except DecodeError DecodedDataView :=
  match packet.events with
  | [event] => .ok ⟨packet.sessionId, packet.packetSequence, event⟩
  | _ => .error .unsupportedBatch

/-- Common validation: length, magic, version, type, packet length, size limit, session. -/
def CommonValid (p : Bytes) : Prop :=
  8 ≤ p.length ∧
  leNat (bytesAt p 0 1) = 0x4c ∧
  leNat (bytesAt p 1 1) / 16 = 1 ∧
  leNat (bytesAt p 1 1) % 16 = 1 ∧
  leNat (bytesAt p 2 2) = p.length ∧
  p.length ≤ 1416 ∧
  leNat (bytesAt p 4 4) ≠ 0

instance (p : Bytes) : Decidable (CommonValid p) := inferInstanceAs (Decidable (_ ∧ _))

/-- `first_event_sequence` and `base_timestamp_ns`. -/
def firstEventSequence (p : Bytes) : Nat := leNat (bytesAt p 16 8)
def baseTimestampNs (p : Bytes) : Nat := leNat (bytesAt p 24 8)

/-- DATA validation of the frames of a packet. -/
def DataValid (p : Bytes) (frames : List Frame) : Prop :=
  44 ≤ p.length ∧
  leNat (bytesAt p 8 8) ≠ 0 ∧
  firstEventSequence p ≠ 0 ∧
  frames ≠ [] ∧
  (frames.take 1).all (·.timestampDeltaNs = 0) ∧
  frames.all (baseTimestampNs p + ·.timestampDeltaNs < 2 ^ 64) ∧
  firstEventSequence p + (frames.length - 1) < 2 ^ 64

instance (p : Bytes) (frames : List Frame) : Decidable (DataValid p frames) :=
  inferInstanceAs (Decidable (_ ∧ _))

/-- The event that frame number `index` stands for. -/
def eventOfFrame (p : Bytes) (index : Nat) (frame : Frame) : Event where
  streamId := UInt32.ofNat (leNat (bytesAt p 32 4))
  sequence := UInt64.ofNat (firstEventSequence p + index)
  sourceTimestampNs := UInt64.ofNat (baseTimestampNs p + frame.timestampDeltaNs)
  payload := frame.payload

/-- The packet that a valid list of frames stands for. -/
def packetOfFrames (p : Bytes) (frames : List Frame) : DataPacket where
  sessionId := UInt32.ofNat (leNat (bytesAt p 4 4))
  packetSequence := UInt64.ofNat (leNat (bytesAt p 8 8))
  events := frames.mapIdx (eventOfFrame p)

/-- The reference parser: a packet is accepted or rejected as a whole. -/
def parseData (p : Bytes) : Option DataPacket :=
  if CommonValid p then
    (parseFrames p.length (p.drop 36)).bind fun frames =>
      if DataValid p frames then some (packetOfFrames p frames) else none
  else none

section Frames

variable {frame : Frame} {bytes rest : Bytes}

/-- Both numbers of a frame fit in their fields. -/
def Frame.Fits (frame : Frame) : Prop :=
  frame.timestampDeltaNs < 2 ^ 32 ∧ frame.payload.length < 2 ^ 16

/-- The bytes of a frame, field after field. -/
def Frame.wire (frame : Frame) : Bytes :=
  let n := frame.payload.length
  leBytes 4 frame.timestampDeltaNs ++ leBytes 2 n ++ frame.payload ++
    List.replicate (frameSize n - (6 + n)) 0

theorem le_frameSize (n : Nat) : 6 + n ≤ frameSize n := by
  rw [frameSize]
  omega

@[simp] theorem length_frame_wire (frame : Frame) :
    frame.wire.length = frameSize frame.payload.length := by
  have hle := le_frameSize frame.payload.length
  simp only [Frame.wire, List.length_append, length_leBytes, List.length_replicate]
  omega

/-- The fields of a frame where the parser looks for them. -/
theorem fields_of_frame (hbytes : bytes = frame.wire ++ rest) :
    bytesAt bytes 0 4 = leBytes 4 frame.timestampDeltaNs ∧
    bytesAt bytes 4 2 = leBytes 2 frame.payload.length ∧
    bytesAt bytes 6 frame.payload.length = frame.payload ∧
    bytesAt bytes (6 + frame.payload.length)
        (frameSize frame.payload.length - (6 + frame.payload.length)) =
      List.replicate (frameSize frame.payload.length - (6 + frame.payload.length)) 0 := by
  have hstart : bytes.drop 0 = frame.wire ++ rest := hbytes
  simp only [Frame.wire, List.append_assoc] at hstart
  obtain ⟨hdelta, hrest⟩ := bytesAt_of_append hstart (length_leBytes _ _)
  obtain ⟨hlength, hrest⟩ := bytesAt_of_append hrest (length_leBytes _ _)
  obtain ⟨hpayload, hrest⟩ := bytesAt_of_append hrest rfl
  obtain ⟨hpadding, -⟩ := bytesAt_of_append hrest List.length_replicate
  exact ⟨hdelta, hlength, hpayload, hpadding⟩

/-- The parser takes exactly the frames of the format off the front. -/
theorem parseFrame_eq_some_iff :
    parseFrame bytes = some (frame, rest) ↔ frame.Fits ∧ bytes = frame.wire ++ rest := by
  constructor
  · intro h
    simp only [parseFrame, Option.ite_none_right_eq_some, Option.some.injEq,
      Prod.mk.injEq] at h
    obtain ⟨⟨hsize, hpadding⟩, hframe, hrest⟩ := h
    have hle := le_frameSize (leNat (bytesAt bytes 4 2))
    have hpayload : frame.payload = bytesAt bytes 6 (leNat (bytesAt bytes 4 2)) := by
      rw [← hframe]
    have hdelta : frame.timestampDeltaNs = leNat (bytesAt bytes 0 4) := by rw [← hframe]
    have hn : frame.payload.length = leNat (bytesAt bytes 4 2) := by
      rw [hpayload, length_bytesAt (by omega)]
    rw [← hn] at hle hsize hpadding hrest hpayload
    have hdeltaLt := leNat_lt (bytesAt bytes 0 4)
    have hlengthLt := leNat_lt (bytesAt bytes 4 2)
    rw [length_bytesAt (by omega)] at hdeltaLt hlengthLt
    refine ⟨⟨hdelta ▸ hdeltaLt, hn ▸ hlengthLt⟩, ?_⟩
    have hzero := eq_replicate_of_all hpadding
    rw [length_bytesAt (by omega)] at hzero
    calc bytes = bytes.drop 0 := List.drop_zero.symm
      _ = leBytes 4 frame.timestampDeltaNs ++ (leBytes 2 frame.payload.length ++
          (frame.payload ++ (List.replicate _ 0 ++ bytes.drop (6 + frame.payload.length +
            (frameSize frame.payload.length - (6 + frame.payload.length)))))) := by
        rw [drop_eq_append (leBytes_of_leNat (n := 4) (by omega) hdelta).symm,
          drop_eq_append (leBytes_of_leNat (n := 2) (by omega) hn).symm,
          drop_eq_append hpayload.symm, drop_eq_append hzero]
      _ = frame.wire ++ rest := by
        rw [Nat.add_sub_cancel' hle, hrest]
        simp only [Frame.wire, List.append_assoc]
  · intro h
    obtain ⟨⟨hdelta, hpayload⟩, hbytes⟩ := h
    obtain ⟨hdeltaField, hlengthField, hpayloadField, hpaddingField⟩ := fields_of_frame hbytes
    have hlength : leNat (bytesAt bytes 4 2) = frame.payload.length := by
      rw [hlengthField, leNat_leBytes_of_lt hpayload]
    have hsize : frameSize frame.payload.length ≤ bytes.length := by
      rw [hbytes, List.length_append, length_frame_wire]
      exact Nat.le_add_right _ _
    have hrest : bytes.drop (frameSize frame.payload.length) = rest := by
      rw [hbytes, ← length_frame_wire, List.drop_left]
    have hdeltaValue : leNat (leBytes 4 frame.timestampDeltaNs) = frame.timestampDeltaNs :=
      leNat_leBytes_of_lt (n := 4) hdelta
    simp only [parseFrame, hlength, hpaddingField, hpayloadField, hdeltaField, hrest, hdeltaValue]
    rw [if_pos ⟨hsize, by simp⟩]

theorem flatMap_wire_eq_nil_iff {frames : List Frame} :
    frames.flatMap Frame.wire = [] ↔ frames = [] := by
  constructor
  · intro h
    cases frames with
    | nil => rfl
    | cons frame frames =>
        have hlength := congrArg List.length h
        have hle := le_frameSize frame.payload.length
        rw [List.flatMap_cons, List.length_append, length_frame_wire, List.length_nil] at hlength
        omega
  · intro h
    rw [h, List.flatMap_nil]

theorem parseFrames_nil_iff {fuel : Nat} {frames : List Frame} :
    parseFrames fuel [] = some frames ↔
      (∀ frame ∈ frames, frame.Fits) ∧ [] = frames.flatMap Frame.wire := by
  have hrun : parseFrames fuel [] = some [] := by cases fuel <;> rfl
  rw [hrun, Option.some.injEq]
  constructor
  · rintro rfl
    exact ⟨by simp, rfl⟩
  · intro h
    exact (flatMap_wire_eq_nil_iff.mp h.2.symm).symm

theorem parseFrames_succ {fuel : Nat} (hbytes : bytes ≠ []) :
    parseFrames (fuel + 1) bytes = (parseFrame bytes).bind fun (frame, rest) =>
      (parseFrames fuel rest).map (frame :: ·) := by
  cases bytes with
  | nil => exact absurd rfl hbytes
  | cons byte bytes => rfl

/-- The parser of a list of frames accepts exactly their concatenation. -/
theorem parseFrames_eq_some_iff {fuel : Nat} {frames : List Frame}
    (hfuel : bytes.length ≤ fuel) :
    parseFrames fuel bytes = some frames ↔
      (∀ frame ∈ frames, frame.Fits) ∧ bytes = frames.flatMap Frame.wire := by
  induction fuel generalizing bytes frames with
  | zero =>
      obtain rfl : bytes = [] := List.eq_nil_of_length_eq_zero (Nat.le_zero.mp hfuel)
      exact parseFrames_nil_iff
  | succ fuel ih =>
      by_cases hnil : bytes = []
      · subst hnil
        exact parseFrames_nil_iff
      rw [parseFrames_succ hnil]
      simp only [Option.bind_eq_some_iff, Option.map_eq_some_iff, Prod.exists]
      -- What follows a frame is shorter, so the fuel suffices for it.
      have hshorter : ∀ {frame rest}, bytes = Frame.wire frame ++ rest → rest.length ≤ fuel := by
        intro frame rest hbytes
        have hle := le_frameSize frame.payload.length
        rw [hbytes, List.length_append, length_frame_wire] at hfuel
        omega
      constructor
      · rintro ⟨frame, rest, hframe, tail, htail, rfl⟩
        obtain ⟨hfits, hbytes⟩ := parseFrame_eq_some_iff.mp hframe
        obtain ⟨htailFits, hrest⟩ := (ih (hshorter hbytes)).mp htail
        refine ⟨List.forall_mem_cons.mpr ⟨hfits, htailFits⟩, ?_⟩
        rw [hbytes, hrest, List.flatMap_cons]
      · rintro ⟨hfits, hbytes⟩
        cases frames with
        | nil => exact absurd hbytes hnil
        | cons frame tail =>
            obtain ⟨hframe, htail⟩ := List.forall_mem_cons.mp hfits
            rw [List.flatMap_cons] at hbytes
            refine ⟨frame, _, parseFrame_eq_some_iff.mpr ⟨hframe, hbytes⟩, tail, ?_, rfl⟩
            exact (ih (hshorter hbytes)).mpr ⟨htail, rfl⟩

end Frames

/-- What the reference parser accepts, and as what. -/
theorem parseData_eq_some_iff {packet : DataPacket} :
    parseData p = some packet ↔
      CommonValid p ∧ ∃ frames, (∀ frame ∈ frames, frame.Fits) ∧
        p.drop 36 = frames.flatMap Frame.wire ∧ DataValid p frames ∧
        packet = packetOfFrames p frames := by
  have hframes : ∀ frames, parseFrames p.length (p.drop 36) = some frames ↔ _ := fun frames =>
    parseFrames_eq_some_iff (by rw [List.length_drop]; exact Nat.sub_le _ _)
  simp only [parseData, Option.ite_none_right_eq_some, Option.bind_eq_some_iff, hframes,
    Option.some.injEq]
  constructor
  · rintro ⟨hcommon, frames, ⟨hfits, hdrop⟩, hdata, hpacket⟩
    exact ⟨hcommon, frames, hfits, hdrop, hdata, hpacket.symm⟩
  · rintro ⟨hcommon, frames, hfits, hdrop, hdata, hpacket⟩
    exact ⟨hcommon, frames, ⟨hfits, hdrop⟩, hdata, hpacket.symm⟩

section Decoder

variable {frame : Frame} {rest : Bytes}

theorem readU32_eq_ofNat {offset : Nat} (h : offset + 4 ≤ p.length) :
    readU32 p offset = UInt32.ofNat (leNat (bytesAt p offset 4)) := by
  rw [← readU32_toNat h, UInt32.ofNat_toNat]

theorem readU64_eq_ofNat {offset : Nat} (h : offset + 8 ≤ p.length) :
    readU64 p offset = UInt64.ofNat (leNat (bytesAt p offset 8)) := by
  rw [← readU64_toNat h, UInt64.ofNat_toNat]

theorem ne_zero_of_leNat {offset : Nat} (h : offset + 8 ≤ p.length)
    (hne : leNat (bytesAt p offset 8) ≠ 0) : readU64 p offset ≠ 0 := by
  intro hzero
  apply hne
  rw [← readU64_toNat h, hzero]
  rfl

/-- Common validation is what the decoder checks before it looks at DATA fields. -/
theorem decodeData_of_common (hcommon : CommonValid p) (hmin : 44 ≤ p.length) :
    decodeData p = decodeFrame p (readU32 p 4) := by
  obtain ⟨hlength, hmagic, hversion, htype, hsize, hmax, hsession⟩ := hcommon
  have hreadMagic : readU8 p 0 = magic := by
    apply UInt8.toNat_inj.mp
    rw [readU8_toNat (by omega), hmagic]
    rfl
  have hreadByte : readU8 p 1 = 0x11 := by
    apply UInt8.toNat_inj.mp
    rw [readU8_toNat (by omega)]
    change leNat (bytesAt p 1 1) = 17
    omega
  obtain ⟨hreadVersion, hreadType⟩ := versionAndType_eq.mpr hreadByte
  have hreadSize : (readU16 p 2).toNat = p.length := by
    rw [readU16_toNat (by omega), hsize]
  have hreadSession : readU32 p 4 ≠ 0 := by
    intro hzero
    apply hsession
    rw [← readU32_toNat (by omega), hzero]
    rfl
  have hnotShort : ¬ p.length < commonHeaderBytes := Nat.not_lt.mpr hlength
  have hnotLong : ¬ p.length > maxPacketBytes := Nat.not_lt.mpr hmax
  have hnotTruncated : ¬ p.length < minDataPacketBytes := Nat.not_lt.mpr hmin
  simp only [decodeData, hnotShort, hnotLong, hreadMagic, hreadVersion, hreadType, hreadSize,
    hreadSession, hnotTruncated, ne_eq, not_true_eq_false, if_false]

/-- With a valid first frame, all that is left for the decoder to look at is whether the
packet ends there. -/
theorem decodeFrame_of_frame (hmin : 44 ≤ p.length) (hmax : p.length ≤ 1416)
    (hsequence : leNat (bytesAt p 8 8) ≠ 0) (hevent : firstEventSequence p ≠ 0)
    (hfits : frame.Fits) (hdelta : frame.timestampDeltaNs = 0)
    (hframe : p.drop 36 = frame.wire ++ rest) (sessionId : UInt32) :
    decodeFrame p sessionId =
      if rest = [] then
        .ok ⟨sessionId, readU64 p 8,
          ⟨readU32 p 32, readU64 p 16, readU64 p 24, frame.payload⟩⟩
      else .error .unsupportedBatch := by
  obtain ⟨hdeltaField, hlengthField, hpayloadField, hpaddingField⟩ := fields_of_frame hframe
  have hfield : ∀ offset n, bytesAt (p.drop 36) offset n = bytesAt p (36 + offset) n := by
    intro offset n
    rw [bytesAt, bytesAt, List.drop_drop]
  rw [hfield] at hdeltaField hlengthField hpayloadField hpaddingField
  have hlength : p.length = packetBytes frame.payload.length + rest.length := by
    have h := congrArg List.length hframe
    rw [List.length_drop, List.length_append, length_frame_wire, frameSize] at h
    rw [packetBytes]
    omega
  have hpayload : frame.payload.length ≤ maxSingleEventPayloadBytes := by
    rw [packetBytes] at hlength
    rw [maxSingleEventPayloadBytes]
    omega
  have hreserved : readU32 p 36 = 0 :=
    readU32_eq (v := 0) (by rw [hdeltaField, hdelta]; rfl)
  have hpayloadSize : (readU16 p 40).toNat = frame.payload.length := by
    rw [readU16_toNat (by omega), hlengthField, leNat_leBytes_of_lt hfits.2]
  have hframeSize := alignUp_frame' hpayload
  have hhas : hasBytes p.length dataFixedBytes
      (alignUp sizeBits (eventFrameHeaderBytes + frame.payload.length)
        eventFrameAlignmentBytes) = true := by
    rw [hasBytes, decide_eq_true (by omega), decide_eq_true (by omega)]
    rfl
  have hpadding : (bytesAt p (dataFixedBytes + eventFrameHeaderBytes + frame.payload.length)
      (packetBytes frame.payload.length - (dataFixedBytes + eventFrameHeaderBytes +
        frame.payload.length))).all (· == 0) = true := by
    have hoffset : dataFixedBytes + eventFrameHeaderBytes + frame.payload.length =
        36 + (6 + frame.payload.length) := by
      rw [dataFixedBytes, eventFrameHeaderBytes, Nat.add_assoc]
    have hcount : packetBytes frame.payload.length - (36 + (6 + frame.payload.length)) =
        frameSize frame.payload.length - (6 + frame.payload.length) := by
      rw [packetBytes, frameSize]
      omega
    rw [hoffset, hcount, hpaddingField, List.all_replicate]
    simp
  have hreadPayload : bytesAt p (dataFixedBytes + eventFrameHeaderBytes) frame.payload.length =
      frame.payload := hpayloadField
  have hend : p.length = packetBytes frame.payload.length ↔ rest = [] := by
    rw [hlength, ← List.length_eq_zero_iff]
    omega
  have hnotLarge : ¬ frame.payload.length > maxSingleEventPayloadBytes := Nat.not_lt.mpr hpayload
  simp only [decodeFrame, ne_zero_of_leNat (by omega) hsequence,
    ne_zero_of_leNat (by omega) hevent, hreserved, hpayloadSize, hframeSize, hhas, hpadding,
    hreadPayload, hend, hnotLarge, ne_eq, not_true_eq_false, if_false]
  rw [ite_not]

/-- What the decoder returns for a packet of the grammar, by its number of frames. -/
theorem decodeData_of_frames {frames : List Frame} (hcommon : CommonValid p)
    (hfits : ∀ frame ∈ frames, frame.Fits) (hframes : p.drop 36 = frames.flatMap Frame.wire)
    (hdata : DataValid p frames) :
    decodeData p = (packetOfFrames p frames).decoded := by
  obtain ⟨hmin, hsequence, hevent, hnonempty, hfirst, -, -⟩ := hdata
  cases frames with
  | nil => exact absurd rfl hnonempty
  | cons frame tail =>
      have hdelta : frame.timestampDeltaNs = 0 := by simpa using hfirst
      rw [List.flatMap_cons] at hframes
      rw [decodeData_of_common hcommon hmin,
        decodeFrame_of_frame hmin hcommon.2.2.2.2.2.1 hsequence hevent
          (hfits frame List.mem_cons_self) hdelta hframes]
      simp only [flatMap_wire_eq_nil_iff]
      cases tail with
      | nil =>
          simp only [if_true, packetOfFrames, DataPacket.decoded, List.mapIdx_cons,
            List.mapIdx_nil, eventOfFrame, hdelta, Nat.add_zero]
          rw [readU32_eq_ofNat (by omega), readU64_eq_ofNat (by omega),
            readU32_eq_ofNat (by omega), readU64_eq_ofNat (by omega),
            readU64_eq_ofNat (by omega)]
          rfl
      | cons second tail =>
          rw [if_neg (List.cons_ne_nil _ _)]
          simp only [packetOfFrames, DataPacket.decoded, List.mapIdx_cons]

/-- The single frame of a packet the decoder accepts. -/
theorem Fields.drop_eq_wire {d : DecodedDataView} (h : Fields p d) :
    p.drop 36 = Frame.wire ⟨0, d.event.payload⟩ := by
  have hle := le_packetBytes d.event.payload.length
  have hend : p.drop (42 + d.event.payload.length +
      (packetBytes d.event.payload.length - (42 + d.event.payload.length))) = [] := by
    apply List.drop_of_length_le
    rw [h.length]
    omega
  have hcount : packetBytes d.event.payload.length - (42 + d.event.payload.length) =
      frameSize d.event.payload.length - (6 + d.event.payload.length) := by
    rw [packetBytes, frameSize]
    omega
  rw [drop_eq_append h.reserved, drop_eq_append h.payloadSize, drop_eq_append h.payload,
    drop_eq_append h.padding, hend, hcount, List.append_nil]
  simp only [Frame.wire, List.append_assoc]

/-- The grammar accepts what the decoder accepts. -/
theorem parseData_isSome_of_decodeData {d : DecodedDataView} (h : decodeData p = .ok d) :
    ∃ packet, parseData p = some packet := by
  obtain ⟨hfields, hd⟩ := fields_of_decodeData h
  have hlength := hfields.length
  have hmax := packetBytes_le hd.payload
  have hmin : 44 ≤ packetBytes d.event.payload.length := by
    rw [packetBytes]
    omega
  have hnonzero : ∀ {n : Nat} {v : UInt64}, bytesAt p n 8 = leBytes 8 v.toNat → v ≠ 0 →
      leNat (bytesAt p n 8) ≠ 0 := by
    intro n v hfield hne hzero
    rw [hfield, leNat_leBytes_of_lt v.toNat_lt] at hzero
    exact hne (UInt64.toNat_inj.mp hzero)
  have hcommon : CommonValid p := by
    refine ⟨by omega, ?_, ?_, ?_, ?_, hlength ▸ hmax, ?_⟩
    · rw [hfields.magic]
      rfl
    · rw [hfields.versionAndType]
      rfl
    · rw [hfields.versionAndType]
      rfl
    · rw [hfields.packetSize, leNat_leBytes_of_lt (lt_of_le_of_lt hmax (by decide)), hlength]
    · rw [hfields.sessionId, leNat_leBytes_of_lt d.sessionId.toNat_lt]
      intro hzero
      exact hd.sessionId (UInt32.toNat_inj.mp hzero)
  have hdata : DataValid p [⟨0, d.event.payload⟩] := by
    refine ⟨by omega, hnonzero hfields.packetSequence hd.packetSequence,
      hnonzero hfields.eventSequence hd.eventSequence, List.cons_ne_nil _ _, rfl, ?_, ?_⟩
    · have hlt := leNat_lt (bytesAt p 24 8)
      rw [length_bytesAt (by omega)] at hlt
      simpa [baseTimestampNs] using hlt
    · have hlt := leNat_lt (bytesAt p 16 8)
      rw [length_bytesAt (by omega)] at hlt
      simpa [firstEventSequence] using hlt
  refine ⟨_, parseData_eq_some_iff.mpr ⟨hcommon, [⟨0, d.event.payload⟩], ?_, ?_, hdata, rfl⟩⟩
  · intro frame hframe
    obtain rfl := List.mem_singleton.mp hframe
    exact ⟨Nat.two_pow_pos 32, lt_of_le_of_lt hd.payload (by decide)⟩
  · rw [hfields.drop_eq_wire, List.flatMap_singleton]

/-- A packet of the grammar is decoded by its number of frames. -/
theorem decodeData_of_parseData {packet : DataPacket} (h : parseData p = some packet) :
    decodeData p = packet.decoded := by
  obtain ⟨hcommon, frames, hfits, hframes, hdata, rfl⟩ := parseData_eq_some_iff.mp h
  exact decodeData_of_frames hcommon hfits hframes hdata

theorem decoded_eq_ok_iff {packet : DataPacket} {d : DecodedDataView} :
    packet.decoded = .ok d ↔ packet = ⟨d.sessionId, d.packetSequence, [d.event]⟩ := by
  constructor
  · intro h
    simp only [DataPacket.decoded] at h
    split at h
    · case h_1 event hevents =>
        obtain rfl := Except.ok.inj h
        cases packet
        simp_all
    · cases h
  · rintro rfl
    rfl

end Decoder

/-- The decoder and the documented grammar agree. A datagram is decoded exactly if the
reference parser accepts it with one event, which is then the result; a datagram accepted
with more events is refused as a batch. -/
theorem decoder_matches_grammar (p : Bytes) :
    (∀ d, decodeData p = .ok d ↔
      parseData p = some ⟨d.sessionId, d.packetSequence, [d.event]⟩) ∧
    ∀ packet, parseData p = some packet → 2 ≤ packet.events.length →
      decodeData p = .error .unsupportedBatch := by
  constructor
  · intro d
    constructor
    · intro h
      obtain ⟨packet, hpacket⟩ := parseData_isSome_of_decodeData h
      rw [decodeData_of_parseData hpacket, decoded_eq_ok_iff] at h
      rw [hpacket, h]
    · intro h
      exact decodeData_of_parseData h
  · intro packet hpacket htwo
    rw [decodeData_of_parseData hpacket, DataPacket.decoded]
    split
    · case h_1 event hevents =>
        rw [hevents, List.length_singleton] at htwo
        omega
    · rfl

/-- A packet of two frames, the second three nanoseconds later with a payload of one byte. -/
def batchOfTwo : Bytes :=
  [magic, 0x11] ++ leBytes 2 52 ++ leBytes 4 7 ++ leBytes 8 1 ++ leBytes 8 5 ++ leBytes 8 100 ++
    leBytes 4 9 ++ Frame.wire ⟨0, []⟩ ++ Frame.wire ⟨3, [0xab]⟩

theorem decoder_matches_grammar_sample :
    parseData batchOfTwo = some ⟨7, 1, [⟨9, 5, 100, []⟩, ⟨9, 6, 103, [0xab]⟩]⟩ ∧
      decodeData batchOfTwo = .error .unsupportedBatch := by
  have hparse : parseData batchOfTwo =
      some ⟨7, 1, [⟨9, 5, 100, []⟩, ⟨9, 6, 103, [0xab]⟩]⟩ := by decide
  exact ⟨hparse, (decoder_matches_grammar batchOfTwo).2 _ hparse (by decide)⟩

end EventEngine.Protocol
