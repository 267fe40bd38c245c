import EventEngine.Protocol.RoundTrip

/-!
# The stores of the encoder

`encode_data` as the list of its stores, in order. Each store begins where the one before it
ended, so they tile the packet without a hole and without an overrun, and what the buffer held
shows only behind the packet.
-/

namespace EventEngine.Protocol

open Memory

/-- Some bytes, and the offset where they are stored. -/
abbrev Store := Nat × Bytes

variable {stores stores' : List Store} {lo mid hi k : Nat} {pre rest output output' : Bytes}

/-- Perform some stores, one after the other. -/
def applyStores (stores : List Store) (output : Bytes) : Bytes :=
  stores.foldl (fun output store => writeAt output store.1 store.2) output

theorem applyStores_append (stores stores' : List Store) (output : Bytes) :
    applyStores (stores ++ stores') output = applyStores stores' (applyStores stores output) :=
  List.foldl_append

/-- The stores begin at `lo`, each where the one before it ended, and end at `hi`. -/
def Tiles (lo hi : Nat) : List Store → Prop
  | [] => lo = hi
  | store :: rest => store.1 = lo ∧ Tiles (lo + store.2.length) hi rest

theorem Tiles.append (h : Tiles lo mid stores) (h' : Tiles mid hi stores') :
    Tiles lo hi (stores ++ stores') := by
  induction stores generalizing lo with
  | nil =>
      obtain rfl : lo = mid := h
      exact h'
  | cons store rest ih =>
      obtain ⟨hstart, hrest⟩ := h
      exact ⟨hstart, ih hrest⟩

theorem Tiles.length (h : Tiles lo hi stores) :
    lo + (stores.flatMap Prod.snd).length = hi := by
  induction stores generalizing lo with
  | nil => exact h
  | cons store rest ih =>
      obtain ⟨-, hrest⟩ := h
      rw [List.flatMap_cons, List.length_append, ← Nat.add_assoc]
      exact ih hrest

/-- No store reaches outside what is tiled. -/
theorem Tiles.inside (h : Tiles lo hi stores) :
    ∀ store ∈ stores, lo ≤ store.1 ∧ store.1 + store.2.length ≤ hi := by
  induction stores generalizing lo with
  | nil =>
      intro store hstore
      cases hstore
  | cons first rest ih =>
      obtain ⟨hstart, hrest⟩ := h
      have hlength := hrest.length
      intro store hstore
      obtain rfl | hlater := List.mem_cons.mp hstore
      · omega
      · have hinside := ih hrest store hlater
        omega

/-- What is tiled becomes the stored bytes; what is behind stays. -/
theorem Tiles.apply (h : Tiles lo hi stores) (hpre : pre.length = lo) :
    applyStores stores (pre ++ rest) =
      (pre ++ stores.flatMap Prod.snd) ++ rest.drop (stores.flatMap Prod.snd).length := by
  induction stores generalizing lo pre rest with
  | nil => simp [applyStores]
  | cons store later ih =>
      obtain ⟨hstart, hlater⟩ := h
      have hfirst : writeAt (pre ++ rest) store.1 store.2 =
          (pre ++ store.2) ++ rest.drop store.2.length :=
        writeAt_append (hpre.trans hstart.symm)
      have hnext : applyStores later ((pre ++ store.2) ++ rest.drop store.2.length) = _ :=
        ih hlater (by rw [List.length_append, hpre])
      rw [List.drop_drop] at hnext
      rw [List.flatMap_cons, List.length_append, ← List.append_assoc, ← hnext, ← hfirst]
      rfl

/-- So stores that tile a buffer from its start leave nothing of it in front of `hi`. -/
theorem Tiles.apply_start (h : Tiles 0 hi stores) (output : Bytes) :
    applyStores stores output = stores.flatMap Prod.snd ++ output.drop hi := by
  have hlength := h.length
  have happly : applyStores stores ([] ++ output) = _ := h.apply rfl
  rw [Nat.zero_add] at hlength
  rw [List.nil_append, List.nil_append, hlength] at happly
  exact happly

def u16Stores (offset : Nat) (value : UInt16) : List Store :=
  [(offset, [value.toUInt8]), (offset + 1, [(value >>> 8).toUInt8])]

def u32Stores (offset : Nat) (value : UInt32) : List Store :=
  u16Stores offset value.toUInt16 ++ u16Stores (offset + 2) (value >>> 16).toUInt16

def u64Stores (offset : Nat) (value : UInt64) : List Store :=
  u32Stores offset value.toUInt32 ++ u32Stores (offset + 4) (value >>> 32).toUInt32

theorem u16Stores_tile (offset : Nat) (value : UInt16) :
    Tiles offset (offset + 2) (u16Stores offset value) := ⟨rfl, rfl, rfl⟩

theorem u32Stores_tile (offset : Nat) (value : UInt32) :
    Tiles offset (offset + 4) (u32Stores offset value) :=
  (u16Stores_tile offset _).append (u16Stores_tile (offset + 2) _)

theorem u64Stores_tile (offset : Nat) (value : UInt64) :
    Tiles offset (offset + 8) (u64Stores offset value) :=
  (u32Stores_tile offset _).append (u32Stores_tile (offset + 4) _)

/-- The stores of `encode_data` behind its checks, byte by byte where the source writes bytes;
the payload and the padding are one each. -/
def packetStores (event : Event) (sessionId : UInt32) (packetSequence : UInt64)
    (packetSize : Nat) : List Store :=
  let payloadSize := event.payload.length
  [(0, [magic]), (1, [(version <<< 4) ||| MessageType.data.value])] ++
    u16Stores 2 (UInt16.ofNat packetSize) ++ u32Stores 4 sessionId ++
    u64Stores 8 packetSequence ++ u64Stores 16 event.sequence ++
    u64Stores 24 event.sourceTimestampNs ++ u32Stores 32 event.streamId ++ u32Stores 36 0 ++
    u16Stores 40 (UInt16.ofNat payloadSize) ++ [(42, event.payload),
      (42 + payloadSize, List.replicate (packetSize - (42 + payloadSize)) 0)]

section Packet

variable (event : Event) (sessionId : UInt32) (packetSequence : UInt64) (packetSize : Nat)

theorem writePacket_eq_stores (output : Bytes) :
    writePacket event sessionId packetSequence packetSize output =
      applyStores (packetStores event sessionId packetSequence packetSize) output := by
  simp only [packetStores, applyStores_append]
  rfl

/-- The fields, the payload and the padding leave no hole. -/
theorem packetStores_tile :
    Tiles 0 (max packetSize (42 + event.payload.length))
      (packetStores event sessionId packetSequence packetSize) := by
  have hheader : Tiles 0 42 ([(0, [magic]), (1, [(version <<< 4) ||| MessageType.data.value])] ++
      u16Stores 2 (UInt16.ofNat packetSize) ++ u32Stores 4 sessionId ++
      u64Stores 8 packetSequence ++ u64Stores 16 event.sequence ++
      u64Stores 24 event.sourceTimestampNs ++ u32Stores 32 event.streamId ++ u32Stores 36 0 ++
      u16Stores 40 (UInt16.ofNat event.payload.length)) := by
    have htypes : Tiles 0 2 [(0, [magic]), (1, [(version <<< 4) ||| MessageType.data.value])] :=
      ⟨rfl, rfl, rfl⟩
    exact ((((((((htypes.append (u16Stores_tile 2 _)).append (u32Stores_tile 4 _)).append
      (u64Stores_tile 8 _)).append (u64Stores_tile 16 _)).append (u64Stores_tile 24 _)).append
      (u32Stores_tile 32 _)).append (u32Stores_tile 36 _)).append (u16Stores_tile 40 _))
  apply hheader.append
  refine ⟨rfl, rfl, ?_⟩
  simp only [Tiles, List.length_replicate]
  omega

/-- The start of the packet does not depend on what the buffer held. -/
theorem take_writePacket (hk : k ≤ max packetSize (42 + event.payload.length))
    (output output' : Bytes) :
    (writePacket event sessionId packetSequence packetSize output).take k =
      (writePacket event sessionId packetSequence packetSize output').take k := by
  have htiles := packetStores_tile event sessionId packetSequence packetSize
  have hlength := htiles.length
  rw [Nat.zero_add] at hlength
  rw [writePacket_eq_stores, writePacket_eq_stores, htiles.apply_start, htiles.apply_start,
    List.take_append_of_le_length (by omega), List.take_append_of_le_length (by omega)]

theorem length_writePacket (output : Bytes) :
    (writePacket event sessionId packetSequence packetSize output).length =
      max output.length (max packetSize (42 + event.payload.length)) := by
  have htiles := packetStores_tile event sessionId packetSequence packetSize
  have hlength := htiles.length
  rw [writePacket_eq_stores, htiles.apply_start, List.length_append, List.length_drop]
  omega

end Packet

/-- All stores of `encode_data`: none if a check fails. -/
def encodeStores (event : Event) (sessionId : UInt32) (packetSequence : UInt64)
    (outputSize : Nat) : List Store :=
  match encodedSize event event.payload.length sessionId packetSequence outputSize with
  | .error _ => []
  | .ok packetSize => packetStores event sessionId packetSequence packetSize

theorem encodeData_eq_stores (event : Event) (sessionId : UInt32) (packetSequence : UInt64)
    (output : Bytes) :
    (encodeData event sessionId packetSequence output).2 =
      applyStores (encodeStores event sessionId packetSequence output.length) output := by
  simp only [encodeData, encodeStores]
  cases encodedSize event event.payload.length sessionId packetSequence output.length with
  | error e => rfl
  | ok packetSize => exact writePacket_eq_stores event sessionId packetSequence packetSize output

/-- What `encode_data` does to a buffer; `k` is the size of the packet. -/
structure Encoded (event : Event) (sessionId : UInt32) (packetSequence : UInt64)
    (output : Bytes) (k : Nat) : Prop where
  size : k = 36 + alignUp sizeBits (6 + event.payload.length) 4
  aligned : k % 4 = 0
  bounds : 44 ≤ k ∧ k ≤ 1416
  field : (readU16 (encodeData event sessionId packetSequence output).2 2).toNat = k
  tiles : Tiles 0 k (encodeStores event sessionId packetSequence output.length)
  inside : ∀ store ∈ encodeStores event sessionId packetSequence output.length,
    store.1 + store.2.length ≤ k
  length : (encodeData event sessionId packetSequence output).2.length = output.length
  behind : (encodeData event sessionId packetSequence output).2.drop k = output.drop k
  packet : ∀ output' : Bytes, k ≤ output'.length →
    (encodeData event sessionId packetSequence output').2.take k =
      (encodeData event sessionId packetSequence output).2.take k

/-- The result of `encode_data` is that of its checks. -/
theorem encodeData_ok_iff {event : Event} {sessionId : UInt32} {packetSequence : UInt64} :
    (encodeData event sessionId packetSequence output).1 = .ok k ↔
      DecodedDataView.WellFormed ⟨sessionId, packetSequence, event⟩ ∧
        packetBytes event.payload.length ≤ output.length ∧
        k = packetBytes event.payload.length := by
  rw [← encodedSize_eq_ok_iff]
  simp only [encodeData]
  cases encodedSize event event.payload.length sessionId packetSequence output.length with
  | error e =>
    constructor
    · intro h
      cases h
    · intro h
      cases h
  | ok packetSize => exact Iff.rfl

theorem encodeData_encoded {event : Event} {sessionId : UInt32} {packetSequence : UInt64}
    (h : (encodeData event sessionId packetSequence output).1 = .ok k) :
    Encoded event sessionId packetSequence output k := by
  obtain ⟨hwf, hfits, rfl⟩ := encodeData_ok_iff.mp h
  have hsize : encodedSize event event.payload.length sessionId packetSequence output.length =
      .ok (packetBytes event.payload.length) := encodedSize_eq_ok_iff.mpr ⟨hwf, hfits, rfl⟩
  have hpayload : event.payload.length ≤ maxSingleEventPayloadBytes := hwf.payload
  have hle := le_packetBytes event.payload.length
  have hmax := packetBytes_le hpayload
  have hdata := encodeData_eq hwf hfits
  have hwire : (DecodedDataView.wire ⟨sessionId, packetSequence, event⟩).length =
      packetBytes event.payload.length := length_wire _
  have htiles : Tiles 0 (packetBytes event.payload.length)
      (encodeStores event sessionId packetSequence output.length) := by
    have hpacket := packetStores_tile event sessionId packetSequence
      (packetBytes event.payload.length)
    rw [Nat.max_eq_left hle] at hpacket
    rw [encodeStores, hsize]
    exact hpacket
  have htake : ∀ output' : Bytes, packetBytes event.payload.length ≤ output'.length →
      (encodeData event sessionId packetSequence output').2.take
        (packetBytes event.payload.length) =
      DecodedDataView.wire ⟨sessionId, packetSequence, event⟩ := by
    intro output' hfits'
    rw [encodeData_eq hwf hfits', ← hwire, List.take_left]
  exact
    { size := (alignUp_payload hpayload).symm
      aligned := by
        rw [packetBytes]
        omega
      bounds := by
        refine ⟨?_, hmax⟩
        rw [packetBytes]
        omega
      field := by
        have hfield : bytesAt (encodeData event sessionId packetSequence output).2 2 2 =
            leBytes 2 (packetBytes event.payload.length) := by
          have hwireField := (fields_wire ⟨sessionId, packetSequence, event⟩).packetSize
          rw [hdata, ← hwireField, bytesAt, List.drop_append_of_le_length (by omega),
            List.take_append_of_le_length (by rw [List.length_drop]; omega)]
          rfl
        rw [readU16_toNat (le_length_of_bytesAt hfield (length_leBytes 2 _) (by decide)), hfield,
          leNat_leBytes_of_lt (lt_of_le_of_lt hmax (by decide))]
      tiles := htiles
      inside := fun store hstore => (htiles.inside store hstore).2
      length := by
        rw [hdata, List.length_append, hwire, List.length_drop]
        exact Nat.add_sub_cancel' hfits
      behind := by
        rw [hdata]
        exact List.drop_left' hwire
      packet := fun output' hfits' => (htake output' hfits').trans (htake output hfits).symm }

end EventEngine.Protocol
