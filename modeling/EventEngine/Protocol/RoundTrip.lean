import EventEngine.Protocol.Codec

/-!
# The DATA format

`DecodedDataView.wire` is the format itself: the packet of a view, field after field.
`Fields` reads a datagram at the offsets of the format. The encoder writes exactly `wire`,
and the decoder accepts exactly the datagrams whose fields are those of a well-formed view,
so both directions of the round trip meet in this one description.
-/

namespace EventEngine.Protocol

open Memory

variable {d : DecodedDataView} {p : Bytes}

/-- The size of a packet with `n` payload bytes: the frame is padded to a multiple of four. -/
def packetBytes (n : Nat) : Nat := 36 + (n + 6 + 3) / 4 * 4

/-- What both sides of the codec insist on. -/
structure DecodedDataView.WellFormed (d : DecodedDataView) : Prop where
  sessionId : d.sessionId ≠ 0
  packetSequence : d.packetSequence ≠ 0
  eventSequence : d.event.sequence ≠ 0
  payload : d.event.payload.length ≤ maxSingleEventPayloadBytes

/-- The packet of a view, field after field. -/
def DecodedDataView.wire (d : DecodedDataView) : Bytes :=
  let n := d.event.payload.length
  [magic] ++ [0x11] ++ leBytes 2 (packetBytes n) ++ leBytes 4 d.sessionId.toNat ++
    leBytes 8 d.packetSequence.toNat ++ leBytes 8 d.event.sequence.toNat ++
    leBytes 8 d.event.sourceTimestampNs.toNat ++ leBytes 4 d.event.streamId.toNat ++
    leBytes 4 0 ++ leBytes 2 n ++ d.event.payload ++
    List.replicate (packetBytes n - (42 + n)) 0

/-- The fields of a datagram at their offsets. -/
structure Fields (p : Bytes) (d : DecodedDataView) : Prop where
  magic : bytesAt p 0 1 = [magic]
  versionAndType : bytesAt p 1 1 = [0x11]
  packetSize : bytesAt p 2 2 = leBytes 2 (packetBytes d.event.payload.length)
  sessionId : bytesAt p 4 4 = leBytes 4 d.sessionId.toNat
  packetSequence : bytesAt p 8 8 = leBytes 8 d.packetSequence.toNat
  eventSequence : bytesAt p 16 8 = leBytes 8 d.event.sequence.toNat
  sourceTimestampNs : bytesAt p 24 8 = leBytes 8 d.event.sourceTimestampNs.toNat
  streamId : bytesAt p 32 4 = leBytes 4 d.event.streamId.toNat
  reserved : bytesAt p 36 4 = leBytes 4 0
  payloadSize : bytesAt p 40 2 = leBytes 2 d.event.payload.length
  payload : bytesAt p 42 d.event.payload.length = d.event.payload
  padding : bytesAt p (42 + d.event.payload.length)
      (packetBytes d.event.payload.length - (42 + d.event.payload.length)) =
    List.replicate (packetBytes d.event.payload.length - (42 + d.event.payload.length)) 0
  length : p.length = packetBytes d.event.payload.length

theorem le_packetBytes (n : Nat) : 42 + n ≤ packetBytes n := by
  rw [packetBytes]
  omega

theorem packetBytes_le {n : Nat} (h : n ≤ maxSingleEventPayloadBytes) :
    packetBytes n ≤ maxPacketBytes := by
  rw [maxSingleEventPayloadBytes] at h
  rw [packetBytes, maxPacketBytes]
  omega

/-- The frame size that both sides compute. -/
theorem alignUp_frame {n : Nat} (h : n ≤ maxSingleEventPayloadBytes) :
    alignUp sizeBits (n + eventFrameHeaderBytes) eventFrameAlignmentBytes + dataFixedBytes =
      packetBytes n := by
  rw [maxSingleEventPayloadBytes] at h
  have halign : alignUp sizeBits (n + 6) (2 ^ 2) = (n + 6 + (2 ^ 2 - 1)) / 2 ^ 2 * 2 ^ 2 :=
    alignUp_eq 2 (by rw [sizeBits]; omega)
  change alignUp sizeBits (n + 6) (2 ^ 2) + 36 = packetBytes n
  rw [halign, packetBytes]
  omega

/-- A field and what follows it. -/
theorem drop_eq_append {bs : Bytes} {offset n : Nat} (h : bytesAt p offset n = bs) :
    p.drop offset = bs ++ p.drop (offset + n) := by
  rw [← h, bytesAt, ← List.drop_drop, List.take_append_drop]

theorem bytesAt_of_append {bs rest : Bytes} {offset n : Nat} (h : p.drop offset = bs ++ rest)
    (hbs : bs.length = n) : bytesAt p offset n = bs ∧ p.drop (offset + n) = rest := by
  constructor
  · rw [bytesAt, h, ← hbs, List.take_left]
  · rw [← List.drop_drop, h, ← hbs, List.drop_left]

@[simp] theorem length_wire (d : DecodedDataView) :
    d.wire.length = packetBytes d.event.payload.length := by
  have hle := le_packetBytes d.event.payload.length
  simp only [DecodedDataView.wire, List.length_append, length_leBytes, List.length_replicate,
    List.length_singleton]
  omega

/-- The format has its fields where the decoder looks for them. -/
theorem fields_wire (d : DecodedDataView) : Fields d.wire d := by
  suffices hall : ∀ p : Bytes, p.drop 0 = d.wire → Fields p d from hall _ List.drop_zero
  intro p hstart
  have length : p.length = packetBytes d.event.payload.length := by
    rw [← length_wire, ← hstart, List.drop_zero]
  simp only [DecodedDataView.wire, List.append_assoc] at hstart
  obtain ⟨magic, hrest⟩ := bytesAt_of_append hstart rfl
  obtain ⟨versionAndType, hrest⟩ := bytesAt_of_append hrest rfl
  obtain ⟨packetSize, hrest⟩ := bytesAt_of_append hrest (length_leBytes _ _)
  obtain ⟨sessionId, hrest⟩ := bytesAt_of_append hrest (length_leBytes _ _)
  obtain ⟨packetSequence, hrest⟩ := bytesAt_of_append hrest (length_leBytes _ _)
  obtain ⟨eventSequence, hrest⟩ := bytesAt_of_append hrest (length_leBytes _ _)
  obtain ⟨sourceTimestampNs, hrest⟩ := bytesAt_of_append hrest (length_leBytes _ _)
  obtain ⟨streamId, hrest⟩ := bytesAt_of_append hrest (length_leBytes _ _)
  obtain ⟨reserved, hrest⟩ := bytesAt_of_append hrest (length_leBytes _ _)
  obtain ⟨payloadSize, hrest⟩ := bytesAt_of_append hrest (length_leBytes _ _)
  obtain ⟨payload, hrest⟩ := bytesAt_of_append hrest rfl
  rw [← List.append_nil (List.replicate _ _)] at hrest
  obtain ⟨padding, -⟩ := bytesAt_of_append hrest List.length_replicate
  exact
    { magic, versionAndType, packetSize, sessionId, packetSequence, eventSequence,
      sourceTimestampNs, streamId, reserved, payloadSize, payload, padding, length }

/-- The fields of a datagram are all there is in it. -/
theorem Fields.eq_wire (h : Fields p d) : p = d.wire := by
  have hle := le_packetBytes d.event.payload.length
  have hend : p.drop (42 + d.event.payload.length +
      (packetBytes d.event.payload.length - (42 + d.event.payload.length))) = [] := by
    apply List.drop_of_length_le
    rw [h.length]
    omega
  calc p = p.drop 0 := List.drop_zero.symm
    _ = d.wire := by
      rw [drop_eq_append h.magic, drop_eq_append h.versionAndType, drop_eq_append h.packetSize,
        drop_eq_append h.sessionId, drop_eq_append h.packetSequence,
        drop_eq_append h.eventSequence, drop_eq_append h.sourceTimestampNs,
        drop_eq_append h.streamId, drop_eq_append h.reserved, drop_eq_append h.payloadSize,
        drop_eq_append h.payload, drop_eq_append h.padding, hend, List.append_nil]
      simp only [DecodedDataView.wire, List.append_assoc]

/-- The stores of the encoder leave the packet in front of the untouched rest. -/
theorem writePacket_eq (h : d.event.payload.length ≤ maxSingleEventPayloadBytes)
    (output : Bytes) :
    writePacket d.event d.sessionId d.packetSequence (packetBytes d.event.payload.length)
      output = d.wire ++ output.drop (packetBytes d.event.payload.length) := by
  have hle := le_packetBytes d.event.payload.length
  have hmax := packetBytes_le h
  have hsize : (UInt16.ofNat (packetBytes d.event.payload.length)).toNat =
      packetBytes d.event.payload.length := by
    rw [UInt16.toNat_ofNat', Nat.mod_eq_of_lt]
    exact lt_of_le_of_lt hmax (by decide)
  have hpayload : (UInt16.ofNat d.event.payload.length).toNat = d.event.payload.length := by
    rw [UInt16.toNat_ofNat', Nat.mod_eq_of_lt]
    exact lt_of_le_of_lt h (by decide)
  have hstart : writeAt output 0 [magic] = ([magic] : Bytes) ++ output.drop 1 :=
    @writeAt_append [] output [magic] 0 rfl
  simp only [writePacket]
  rw [hstart, writeAt_append (by simp), writeU16_append _ (by simp), writeU32_append _ (by simp),
    writeU64_append _ (by simp), writeU64_append _ (by simp), writeU64_append _ (by simp),
    writeU32_append _ (by simp), writeU32_append _ (by simp), writeU16_append _ (by simp),
    writeAt_append (by simp), writeAt_append (by simp; omega), hsize, hpayload]
  simp only [DecodedDataView.wire, List.drop_drop, List.length_replicate, List.length_singleton]
  congr 2
  omega

theorem ite_error_eq_ok {ε α : Type} {c : Prop} [Decidable c] {e : ε} {x : Except ε α} {a : α} :
    (if c then .error e else x) = .ok a ↔ ¬ c ∧ x = .ok a := by
  by_cases h : c
  · simp [h]
  · simp [h]

/-- The encoder's checks are those of a well-formed view whose packet fits. -/
theorem encodedSize_eq_ok_iff {size k : Nat} :
    encodedSize d.event d.event.payload.length d.sessionId d.packetSequence size = .ok k ↔
      d.WellFormed ∧ packetBytes d.event.payload.length ≤ size ∧
        k = packetBytes d.event.payload.length := by
  simp only [encodedSize, ite_error_eq_ok]
  constructor
  · rintro ⟨hsession, hsequence, hevent, hpayload, hfits, hk⟩
    have hpayload' := Nat.not_lt.mp hpayload
    rw [alignUp_frame hpayload'] at hfits hk
    exact ⟨⟨hsession, hsequence, hevent, hpayload'⟩, Nat.not_lt.mp hfits,
      (Except.ok.inj hk).symm⟩
  · rintro ⟨h, hfits, rfl⟩
    rw [alignUp_frame h.payload]
    exact ⟨h.sessionId, h.packetSequence, h.eventSequence, Nat.not_lt.mpr h.payload,
      Nat.not_lt.mpr hfits, rfl⟩

/-- What `encode_data` does on success. -/
theorem encodeData_eq {output : Bytes} (h : d.WellFormed)
    (hfits : packetBytes d.event.payload.length ≤ output.length) :
    encodeData d.event d.sessionId d.packetSequence output =
      (.ok (packetBytes d.event.payload.length),
        d.wire ++ output.drop (packetBytes d.event.payload.length)) := by
  simp only [encodeData, encodedSize_eq_ok_iff.mpr ⟨h, hfits, rfl⟩, writePacket_eq h.payload]

/-- The frame size in the decoder, with the summands the other way round. -/
theorem alignUp_frame' {n : Nat} (h : n ≤ maxSingleEventPayloadBytes) :
    dataFixedBytes + alignUp sizeBits (eventFrameHeaderBytes + n) eventFrameAlignmentBytes =
      packetBytes n := by
  rw [Nat.add_comm eventFrameHeaderBytes, Nat.add_comm, alignUp_frame h]

theorem alignUp_payload {n : Nat} (h : n ≤ maxSingleEventPayloadBytes) :
    36 + alignUp sizeBits (6 + n) 4 = packetBytes n := alignUp_frame' h

theorem eq_replicate_of_all {bs : Bytes} (h : bs.all (· == 0) = true) :
    bs = List.replicate bs.length 0 := by
  apply List.eq_replicate_of_mem
  intro b hb
  exact eq_of_beq (List.all_eq_true.mp h b hb)

/-- The version in the high half and the message type in the low half pin the byte. -/
theorem versionAndType_eq {b : UInt8} :
    (b >>> 4 = version ∧ b &&& 0x0f = MessageType.data.value) ↔ b = 0x11 := by
  constructor
  · rintro ⟨hversion, htype⟩
    have hhigh : b.toNat >>> 4 = 1 := congrArg UInt8.toNat hversion
    have hlow : b.toNat &&& (2 ^ 4 - 1) = 1 := congrArg UInt8.toNat htype
    rw [Nat.shiftRight_eq_div_pow] at hhigh
    rw [Nat.and_two_pow_sub_one_eq_mod] at hlow
    apply UInt8.toNat_inj.mp
    change b.toNat = 17
    omega
  · intro h
    rw [h]
    decide

/-- A datagram with the fields of a well-formed view is accepted as that view. -/
theorem decodeData_of_fields (hfields : Fields p d) (h : d.WellFormed) :
    decodeData p = .ok d := by
  have hmin : minDataPacketBytes ≤ packetBytes d.event.payload.length := by
    rw [minDataPacketBytes, packetBytes]
    omega
  have hmax := packetBytes_le h.payload
  have hframe := alignUp_frame' h.payload
  have hsize : (readU16 p 2).toNat = packetBytes d.event.payload.length := by
    rw [readU16_toNat (by rw [hfields.length]; exact le_trans (by decide) hmin),
      hfields.packetSize, leNat_leBytes_of_lt (lt_of_le_of_lt hmax (by decide))]
  have hpayloadSize : (readU16 p 40).toNat = d.event.payload.length := by
    rw [readU16_toNat (by rw [hfields.length]; exact le_trans (by decide) hmin),
      hfields.payloadSize, leNat_leBytes_of_lt (lt_of_le_of_lt h.payload (by decide))]
  obtain ⟨hversion, htype⟩ := versionAndType_eq.mpr (readU8_eq hfields.versionAndType)
  simp only [decodeData, decodeFrame, ite_error_eq_ok, hpayloadSize, hfields.length, hsize,
    readU8_eq hfields.magic, hversion, htype, readU32_eq hfields.sessionId,
    readU64_eq hfields.packetSequence, readU64_eq hfields.eventSequence,
    readU64_eq hfields.sourceTimestampNs, readU32_eq hfields.streamId,
    @readU32_eq 36 p 0 hfields.reserved, hframe]
  have hfits : hasBytes (packetBytes d.event.payload.length) dataFixedBytes
      (alignUp sizeBits (eventFrameHeaderBytes + d.event.payload.length)
        eventFrameAlignmentBytes) = true := by
    rw [← hframe, hasBytes, Nat.add_sub_cancel_left, decide_eq_true (Nat.le_add_right _ _),
      decide_eq_true (Nat.le_refl _)]
    rfl
  have hpadding : (bytesAt p (dataFixedBytes + eventFrameHeaderBytes + d.event.payload.length)
      (packetBytes d.event.payload.length - (dataFixedBytes + eventFrameHeaderBytes +
        d.event.payload.length))).all (· == 0) = true := by
    have hzero := hfields.padding
    change bytesAt p (dataFixedBytes + eventFrameHeaderBytes + d.event.payload.length) _ = _
      at hzero
    rw [dataFixedBytes, eventFrameHeaderBytes] at hzero ⊢
    rw [hzero, List.all_replicate]
    simp
  have hpayload : bytesAt p (dataFixedBytes + eventFrameHeaderBytes) d.event.payload.length =
      d.event.payload := hfields.payload
  have hcommon : commonHeaderBytes ≤ packetBytes d.event.payload.length :=
    le_trans (by decide) hmin
  refine ⟨Nat.not_lt.mpr hcommon, Nat.not_lt.mpr hmax, not_not.mpr rfl, not_not.mpr rfl,
    not_not.mpr rfl, not_not.mpr rfl, h.sessionId, Nat.not_lt.mpr hmin, h.packetSequence,
    h.eventSequence, not_not.mpr rfl, Nat.not_lt.mpr h.payload, not_not.mpr hfits,
    not_not.mpr hpadding, not_not.mpr rfl, ?_⟩
  rw [hpayload]

/-- What the decoder accepts has the fields of a well-formed view. -/
theorem fields_of_decodeData (h : decodeData p = .ok d) : Fields p d ∧ d.WellFormed := by
  simp only [decodeData, decodeFrame, ite_error_eq_ok, not_not, not_lt] at h
  obtain ⟨-, hmax, hmagic, hversion, htype, hsize, hsession, hmin, hsequence, hevent,
    hreserved, hpayloadSize, -, hpadding, hlength, hview⟩ := h
  have hd := Except.ok.inj hview
  have hsessionId : d.sessionId = readU32 p 4 := by rw [← hd]
  have hpacketSequence : d.packetSequence = readU64 p 8 := by rw [← hd]
  have heventSequence : d.event.sequence = readU64 p 16 := by rw [← hd]
  have hsourceTimestampNs : d.event.sourceTimestampNs = readU64 p 24 := by rw [← hd]
  have hstreamId : d.event.streamId = readU32 p 32 := by rw [← hd]
  have hpayload : d.event.payload = bytesAt p 42 (readU16 p 40).toNat := by rw [← hd]; rfl
  rw [alignUp_frame' hpayloadSize] at hlength hpadding
  have hle := le_packetBytes (readU16 p 40).toNat
  have hn : d.event.payload.length = (readU16 p 40).toNat := by
    rw [hpayload, length_bytesAt (by omega)]
  have hinside : ∀ n, n ≤ 42 → n ≤ p.length := fun n hn => by omega
  rw [← hn] at hle hlength hpadding hpayload
  constructor
  · exact
      { magic := by rw [bytesAt_one (hinside 1 (by decide)), hmagic]
        versionAndType := by
          rw [bytesAt_one (hinside 2 (by decide)), versionAndType_eq.mp ⟨hversion, htype⟩]
        packetSize := by rw [bytesAt_two (hinside _ (by decide)), hsize, hlength]
        sessionId := by rw [bytesAt_four (hinside _ (by decide)), hsessionId]
        packetSequence := by rw [bytesAt_eight (hinside _ (by decide)), hpacketSequence]
        eventSequence := by rw [bytesAt_eight (hinside _ (by decide)), heventSequence]
        sourceTimestampNs := by rw [bytesAt_eight (hinside _ (by decide)), hsourceTimestampNs]
        streamId := by rw [bytesAt_four (hinside _ (by decide)), hstreamId]
        reserved := by rw [bytesAt_four (hinside _ (by decide)), hreserved]; rfl
        payloadSize := by rw [bytesAt_two (hinside _ (by decide)), hn]
        payload := hpayload.symm
        padding := by
          have hzero := eq_replicate_of_all hpadding
          rw [length_bytesAt (by rw [dataFixedBytes, eventFrameHeaderBytes]; omega)] at hzero
          exact hzero
        length := hlength }
  · exact
      { sessionId := by rw [hsessionId]; exact hsession
        packetSequence := by rw [hpacketSequence]; exact hsequence
        eventSequence := by rw [heventSequence]; exact hevent
        payload := by rw [hn]; exact hpayloadSize }

/-- The decoder accepts exactly the packets of the well-formed views. -/
theorem decodeData_eq_ok_iff : decodeData p = .ok d ↔ d.WellFormed ∧ p = d.wire := by
  constructor
  · intro h
    obtain ⟨hfields, hd⟩ := fields_of_decodeData h
    exact ⟨hd, hfields.eq_wire⟩
  · rintro ⟨hd, rfl⟩
    exact decodeData_of_fields (fields_wire d) hd

/-- The encoder and the decoder are inverse to each other, whatever the buffer held: what is
encoded decodes to the same values, and what is decoded encodes to the same bytes. -/
theorem data_codec_inverse :
    (∀ (event : Event) (sessionId : UInt32) (packetSequence : UInt64) (output : Bytes),
      sessionId ≠ 0 → packetSequence ≠ 0 → event.sequence ≠ 0 →
      event.payload.length ≤ 1374 →
      36 + (event.payload.length + 6 + 3) / 4 * 4 ≤ output.length →
      ∃ k, (encodeData event sessionId packetSequence output).1 = .ok k ∧
        decodeData ((encodeData event sessionId packetSequence output).2.take k) =
          .ok ⟨sessionId, packetSequence, event⟩) ∧
    (∀ (p : Bytes) (d : DecodedDataView) (output : Bytes),
      decodeData p = .ok d → p.length ≤ output.length →
      encodeData d.event d.sessionId d.packetSequence output =
        (.ok p.length, p ++ output.drop p.length)) ∧
    ∀ (p p' : Bytes) (d : DecodedDataView),
      decodeData p = .ok d → decodeData p' = .ok d → p = p' := by
  refine ⟨?_, ?_, ?_⟩
  · intro event sessionId packetSequence output hsession hsequence hevent hpayload hfits
    have hd : (⟨sessionId, packetSequence, event⟩ : DecodedDataView).WellFormed :=
      ⟨hsession, hsequence, hevent, hpayload⟩
    have hencode := encodeData_eq hd hfits
    refine ⟨packetBytes event.payload.length, ?_, ?_⟩
    · rw [hencode]
    · rw [hencode, ← length_wire ⟨sessionId, packetSequence, event⟩, List.take_left]
      exact decodeData_eq_ok_iff.mpr ⟨hd, rfl⟩
  · intro p d output h hfits
    obtain ⟨hd, hp⟩ := decodeData_eq_ok_iff.mp h
    rw [hp, length_wire] at hfits ⊢
    exact encodeData_eq hd hfits
  · intro p p' d h h'
    rw [(decodeData_eq_ok_iff.mp h).2, (decodeData_eq_ok_iff.mp h').2]

/-- The smallest packet, written over a buffer of other bytes. -/
theorem data_codec_inverse_sample :
    ∃ k, (encodeData ⟨1, 2, 3, [9]⟩ 7 1 (List.replicate 44 0xff)).1 = .ok k ∧
      decodeData ((encodeData ⟨1, 2, 3, [9]⟩ 7 1 (List.replicate 44 0xff)).2.take k) =
        .ok ⟨7, 1, ⟨1, 2, 3, [9]⟩⟩ :=
  data_codec_inverse.1 ⟨1, 2, 3, [9]⟩ 7 1 (List.replicate 44 0xff) (by decide) (by decide)
    (by decide) (by decide) (by decide)

end EventEngine.Protocol
