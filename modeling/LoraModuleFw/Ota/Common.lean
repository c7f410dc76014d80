import LoraModuleFw.Lib.Retry
import LoraModuleFw.Lora

/-! The OTA messages of `module-runtime/src/ota/common.rs`, their bytes, and
the two ways of sending one. -/

namespace LoraModuleFw.Ota

open Postcard Lora Retry

inductive OtaError where
  | deserialize
  | serialize
  | transmit
  | receive
  | invalidPacketType
  | alreadyStarted
  | notStarted
  | memoryWriteFailed
  deriving DecidableEq, Repr

structure OtaInitPacket where
  binarySize : UInt32
  binarySha256 : Vector UInt8 32
  blockSize : UInt16
  blockCount : UInt16
  deriving DecidableEq

abbrev Block := Heapless.Vec UInt8 96

structure OtaDataPacket where
  index : UInt16
  data : Block
  deriving DecidableEq

structure OtaStatusPacket where
  receivedIndexes : Heapless.Vec UInt16 32
  validUpToIndex : UInt16
  deriving DecidableEq

inductive OtaPacket where
  | init (p : OtaInitPacket)
  | initAck
  | data (p : OtaDataPacket)
  | status (p : OtaStatusPacket)
  | done
  | doneAck
  | abort
  | abortAck
  deriving DecidableEq

/-! ## Bytes -/

def OtaInitPacket.wire : Wire OtaInitPacket :=
  (Wire.u32.seq ((Wire.u8.array 32).seq (Wire.u16.seq Wire.u16))).iso
    (fun t => ⟨t.1, t.2.1, t.2.2.1, t.2.2.2⟩)
    (fun p => (p.binarySize, p.binarySha256, p.blockSize, p.blockCount)) (fun _ => rfl)

def OtaDataPacket.wire : Wire OtaDataPacket :=
  (Wire.u16.seq (Wire.u8.vec 96 (by decide))).iso (fun t => ⟨t.1, t.2⟩)
    (fun p => (p.index, p.data)) (fun _ => rfl)

def OtaStatusPacket.wire : Wire OtaStatusPacket :=
  ((Wire.u16.vec 32 (by decide)).seq Wire.u16).iso (fun t => ⟨t.1, t.2⟩)
    (fun p => (p.receivedIndexes, p.validUpToIndex)) (fun _ => rfl)

namespace OtaPacket

/-- The variant number, then the fields. -/
def encode : OtaPacket → Bytes
  | .init p => Wire.u32.encode 0 ++ OtaInitPacket.wire.encode p
  | .initAck => Wire.u32.encode 1
  | .data p => Wire.u32.encode 2 ++ OtaDataPacket.wire.encode p
  | .status p => Wire.u32.encode 3 ++ OtaStatusPacket.wire.encode p
  | .done => Wire.u32.encode 4
  | .doneAck => Wire.u32.encode 5
  | .abort => Wire.u32.encode 6
  | .abortAck => Wire.u32.encode 7

def decodeBody (tag : UInt32) (r : Bytes) : Option (OtaPacket × Bytes) :=
  match tag with
  | 0 => (OtaInitPacket.wire.decode r).map fun (p, r) => (.init p, r)
  | 1 => some (.initAck, r)
  | 2 => (OtaDataPacket.wire.decode r).map fun (p, r) => (.data p, r)
  | 3 => (OtaStatusPacket.wire.decode r).map fun (p, r) => (.status p, r)
  | 4 => some (.done, r)
  | 5 => some (.doneAck, r)
  | 6 => some (.abort, r)
  | 7 => some (.abortAck, r)
  | _ => none

def wire : Wire OtaPacket where
  encode := encode
  decode bs := (Wire.u32.decode bs).bind fun (tag, r) => decodeBody tag r
  decode_encode m rest := by
    cases m with
    | init p => simp [encode, List.append_assoc, decodeBody]
    | data p => simp [encode, List.append_assoc, decodeBody]
    | status p => simp [encode, List.append_assoc, decodeBody]
    | _ => simp [encode, decodeBody]

end OtaPacket

/-- `postcard::to_vec` into the payload of a packet. -/
def toVec (m : OtaPacket) : Option Payload := Heapless.Vec.collect (OtaPacket.wire.encode m)

/-- `postcard::from_bytes`; bytes past the message are ignored. -/
def fromBytes (payload : Payload) : Option OtaPacket :=
  (OtaPacket.wire.decode payload.toList).map Prod.fst

theorem fromBytes_of_toVec {m : OtaPacket} {payload : Payload} (h : toVec m = some payload) :
    fromBytes payload = some m := by
  have hl : payload.toList = OtaPacket.wire.encode m := Heapless.Vec.collect_eq_some.mp h
  have hd := OtaPacket.wire.decode_encode m []
  rw [List.append_nil] at hd
  rw [fromBytes, hl, hd]
  rfl

/-! Every message fits the payload of a packet. -/

theorem length_init_le (p : OtaInitPacket) : (OtaInitPacket.wire.encode p).length ≤ 43 := by
  have h1 := Wire.length_u32_le p.binarySize
  have h2 := Wire.length_array_le Wire.u8 1 32 (fun _ => Nat.le_refl 1) p.binarySha256
  have h3 := Wire.length_u16_le p.blockSize
  have h4 := Wire.length_u16_le p.blockCount
  simp only [OtaInitPacket.wire, Wire.iso, Wire.seq, List.length_append]
  omega

theorem length_data_le (p : OtaDataPacket) : (OtaDataPacket.wire.encode p).length ≤ 104 := by
  have h1 := Wire.length_u16_le p.index
  have h2 := Wire.length_vec_le Wire.u8 1 96 (by decide) (fun _ => Nat.le_refl 1) p.data
  simp only [OtaDataPacket.wire, Wire.iso, Wire.seq, List.length_append]
  omega

theorem length_status_le (p : OtaStatusPacket) :
    (OtaStatusPacket.wire.encode p).length ≤ 104 := by
  have h1 := Wire.length_u16_le p.validUpToIndex
  have h2 := Wire.length_vec_le Wire.u16 3 32 (by decide) Wire.length_u16_le p.receivedIndexes
  simp only [OtaStatusPacket.wire, Wire.iso, Wire.seq, List.length_append]
  omega

theorem length_encode_le (m : OtaPacket) : (OtaPacket.wire.encode m).length ≤ payloadLength := by
  have ht (n : UInt32) := Wire.length_u32_le n
  simp only [OtaPacket.wire, payloadLength, packetLength, headerLength, checksumLength]
  cases m with
  | init p =>
    have := ht 0
    have := length_init_le p
    simp only [OtaPacket.encode, List.length_append]
    omega
  | data p =>
    have := ht 2
    have := length_data_le p
    simp only [OtaPacket.encode, List.length_append]
    omega
  | status p =>
    have := ht 3
    have := length_status_le p
    simp only [OtaPacket.encode, List.length_append]
    omega
  | _ => exact Nat.le_trans (ht _) (by omega)

theorem toVec_isSome (m : OtaPacket) : ∃ payload, toVec m = some payload :=
  ⟨⟨_, length_encode_le m⟩, Heapless.Vec.collect_eq_some.mpr rfl⟩

namespace OtaPacket

/-- A packet from `source` to `destination` that carries the message. -/
def packet (m : OtaPacket) (source destination : UInt32) : LoRaPacket :=
  { source, destination, packetType := .ota, payload := ⟨_, length_encode_le m⟩ }

theorem toVec_packet (m : OtaPacket) (source destination : UInt32) :
    toVec m = some (m.packet source destination).payload := Heapless.Vec.collect_eq_some.mpr rfl

@[simp] theorem fromBytes_packet (m : OtaPacket) (source destination : UInt32) :
    fromBytes (m.packet source destination).payload = some m :=
  fromBytes_of_toVec (m.toVec_packet source destination)

end OtaPacket

/-! ## Sending -/

def loraTransmit (lora : ModuleLoRa) (destination : UInt32) (packet : OtaPacket) :
    Except OtaError Unit × ModuleLoRa :=
  match toVec packet with
  | none => (.error .serialize, lora)
  | some payload =>
    match lora.transmit { LoRaPacket.new destination .ota with payload } with
    | (.error _, lora) => (.error .transmit, lora)
    | (.ok (), lora) => (.ok (), lora)

/-- The retry loop; unwrapping an absent `lastError` panics (`none`). -/
def transmitLoop (p : LoRaPacket) :
    Nat → Option OtaError → ModuleLoRa → Option (Except OtaError OtaPacket × ModuleLoRa)
  | 0, lastError, lora => lastError.map fun e => (.error e, lora)
  | n + 1, _, lora =>
    match lora.transmit p with
    | (.error _, lora) => some (.error .transmit, lora)
    | (.ok (), lora) =>
      match lora.receiveSingle with
      | (.ok packet, lora) =>
        match fromBytes packet.payload with
        | some ret => some (.ok ret, lora)
        | none => transmitLoop p n (some .deserialize) lora
      | (.error _, lora) => transmitLoop p n (some .receive) lora

def loraTransmitUntilResponse (lora : ModuleLoRa) (destination : UInt32) (packet : OtaPacket)
    (retries : Nat) : Option (Except OtaError OtaPacket × ModuleLoRa) :=
  match toVec packet with
  | none => some (.error .serialize, lora)
  | some payload =>
    transmitLoop { LoRaPacket.new destination .ota with payload } retries none lora

theorem loraTransmit_eq (lora : ModuleLoRa) (destination : UInt32) (m : OtaPacket) :
    loraTransmit lora destination m =
      ((lora.transmit (m.packet 0 destination)).1.mapError fun _ => .transmit,
        (lora.transmit (m.packet 0 destination)).2) := by
  have hpacket : { LoRaPacket.new destination .ota with
      payload := (m.packet 0 destination).payload } = m.packet 0 destination := rfl
  simp only [loraTransmit, m.toVec_packet 0 destination, hpacket]
  rcases lora.transmit (m.packet 0 destination) with ⟨_ | ⟨⟩, l⟩ <;> rfl

/-- Sending a message succeeds with exactly that message on the air, or fails
with nothing sent. -/
theorem loraTransmit_cases (lora : ModuleLoRa) (destination : UInt32) (m : OtaPacket) :
    (∃ t : Transmission, (loraTransmit lora destination m).1 = .ok () ∧
      (loraTransmit lora destination m).2.sent = lora.sent ++ [t] ∧
      t.packet.packetType = .ota ∧ t.packet.source = lora.address ∧
      t.packet.destination = destination ∧ fromBytes t.packet.payload = some m) ∨
    ((loraTransmit lora destination m).1 = .error .transmit ∧
      (loraTransmit lora destination m).2.sent = lora.sent) := by
  obtain ⟨payload, hp⟩ := toVec_isSome m
  have hok := @ModuleLoRa.transmit_sent_of_ok lora { LoRaPacket.new destination .ota with payload }
  have herr {e} :=
    @ModuleLoRa.transmit_sent_of_error lora { LoRaPacket.new destination .ota with payload } e
  simp only [loraTransmit, hp]
  generalize lora.transmit { LoRaPacket.new destination .ota with payload } = done at hok herr ⊢
  rcases done with ⟨e | ⟨⟩, l⟩
  · exact Or.inr ⟨rfl, herr rfl⟩
  · exact Or.inl ⟨_, rfl, hok rfl, rfl, rfl, rfl, fromBytes_of_toVec hp⟩

/-! ## The retry loop, round by round -/

/-- The error that a round leaves behind, unless it received a message. -/
def responseError : Except RadioError LoRaPacket → Option OtaError
  | .error _ => some .receive
  | .ok packet =>
    match fromBytes packet.payload with
    | some _ => none
    | none => some .deserialize

/-- One round of the loop. -/
def transmitRound (p : LoRaPacket) (lora : ModuleLoRa) :
    Outcome (Except OtaError OtaPacket) OtaError × ModuleLoRa :=
  match lora.transmit p with
  | (.error _, lora) => (.stop (.error .transmit), lora)
  | (.ok (), lora) =>
    match lora.receiveSingle with
    | (.ok packet, lora) =>
      match fromBytes packet.payload with
      | some ret => (.stop (.ok ret), lora)
      | none => (.again .deserialize, lora)
    | (.error _, lora) => (.again .receive, lora)

def roundResult : Outcome (Except OtaError OtaPacket) OtaError → Except OtaError OtaPacket
  | .stop r => r
  | .again e => .error e

/-- Everything a round can do. -/
theorem transmitRound_cases (p : LoRaPacket) (lora : ModuleLoRa) :
    (∃ e, (lora.transmit p).1 = .error e ∧
      transmitRound p lora = (.stop (.error .transmit), (lora.transmit p).2)) ∨
    (∃ packet resp, (lora.transmit p).1 = .ok () ∧
      (lora.transmit p).2.receiveSingle.1 = .ok packet ∧ fromBytes packet.payload = some resp ∧
      transmitRound p lora = (.stop (.ok resp), (lora.transmit p).2.receiveSingle.2)) ∨
    (∃ e, (lora.transmit p).1 = .ok () ∧
      responseError (lora.transmit p).2.receiveSingle.1 = some e ∧
      transmitRound p lora = (.again e, (lora.transmit p).2.receiveSingle.2)) := by
  unfold transmitRound
  rcases lora.transmit p with ⟨e | ⟨⟩, l₁⟩
  · exact Or.inl ⟨e, rfl, rfl⟩
  · right
    dsimp only
    rcases l₁.receiveSingle with ⟨e | packet, l₂⟩
    · exact Or.inr ⟨.receive, rfl, rfl, rfl⟩
    · dsimp only
      cases hd : fromBytes packet.payload with
      | some resp => exact Or.inl ⟨packet, resp, rfl, rfl, hd, rfl⟩
      | none => exact Or.inr ⟨.deserialize, rfl, by simp only [responseError, hd], rfl⟩

theorem transmitRound_later (p : LoRaPacket) (lora : ModuleLoRa) :
    lora.Later (transmitRound p lora).2 := by
  have hsent := lora.transmit_later p
  have hheard := hsent.trans (lora.transmit p).2.receiveSingle_later
  rcases transmitRound_cases p lora with ⟨_, _, hr⟩ | ⟨_, _, _, _, _, hr⟩ | ⟨_, _, _, hr⟩
  · rw [hr]
    exact hsent
  · rw [hr]
    exact hheard
  · rw [hr]
    exact hheard

/-- The loop is a bounded retry of its rounds. -/
theorem transmitLoop_eq (p : LoRaPacket) (n : Nat) (last : Option OtaError) (lora : ModuleLoRa) :
    transmitLoop p n last lora =
      (retry (transmitRound p) n last lora).map fun r => (roundResult r.1, r.2) := by
  induction n generalizing last lora with
  | zero => cases last <;> rfl
  | succ n ih =>
    unfold transmitLoop retry transmitRound
    rcases lora.transmit p with ⟨e | ⟨⟩, l₁⟩
    · rfl
    · dsimp only
      rcases l₁.receiveSingle with ⟨e | packet, l₂⟩
      · exact ih _ _
      · dsimp only
        cases fromBytes packet.payload with
        | some resp => rfl
        | none => exact ih _ _

theorem transmitLoop_stop {p : LoRaPacket} {n : Nat} {last : Option OtaError}
    {lora lora' : ModuleLoRa} {r : Except OtaError OtaPacket}
    (h : transmitRound p lora = (.stop r, lora')) :
    transmitLoop p (n + 1) last lora = some (r, lora') := by
  rw [transmitLoop_eq, retry_stop (congrArg Prod.fst h), h]
  rfl

theorem transmitLoop_again {p : LoRaPacket} {n : Nat} {last : Option OtaError}
    {lora lora' : ModuleLoRa} {e : OtaError} (h : transmitRound p lora = (.again e, lora')) :
    transmitLoop p (n + 1) last lora = transmitLoop p n (some e) lora' := by
  rw [transmitLoop_eq, transmitLoop_eq, retry_again (congrArg Prod.fst h), h]

/-- A response is a packet that was heard, for this module, and decodes. -/
theorem transmitLoop_ok {p : LoRaPacket} {n : Nat} {last : Option OtaError}
    {lora lora' : ModuleLoRa} {resp : OtaPacket}
    (h : transmitLoop p n last lora = some (.ok resp, lora')) :
    ∃ packet, lora.Hears packet ∧ fromBytes packet.payload = some resp := by
  rw [transmitLoop_eq] at h
  obtain ⟨⟨o, l⟩, hrun, hr⟩ := Option.map_eq_some_iff.mp h
  cases o with
  | again e => cases hr
  | stop r =>
    cases hr
    obtain ⟨k, _, hfail, hstop, _⟩ := retry_eq_stop hrun
    have hlater : lora.Later (after (transmitRound p) k lora) :=
      hfail.invariant (P := fun _ l => lora.Later l)
        (fun _ l _ hl _ => hl.trans (transmitRound_later p l)) (.refl lora)
    rcases transmitRound_cases p (after (transmitRound p) k lora) with
      ⟨e, _, hround⟩ | ⟨packet, resp', _, hheard, hd, hround⟩ | ⟨e, _, _, hround⟩
    · rw [hround] at hstop
      cases hstop
    · rw [hround] at hstop
      cases hstop
      have hp := ModuleLoRa.receiveSingle_ok (Prod.ext hheard rfl)
      exact ⟨packet, .of_later (hlater.trans (ModuleLoRa.transmit_later _ p)) hp, hd⟩
    · rw [hround] at hstop
      cases hstop

theorem loraTransmitUntilResponse_eq {m : OtaPacket} {payload : Payload}
    (hp : toVec m = some payload) (lora : ModuleLoRa) (destination : UInt32) (retries : Nat) :
    loraTransmitUntilResponse lora destination m retries =
      transmitLoop { LoRaPacket.new destination .ota with payload } retries none lora := by
  simp only [loraTransmitUntilResponse, hp]

theorem loraTransmitUntilResponse_isSome (lora : ModuleLoRa) (destination : UInt32)
    (m : OtaPacket) {retries : Nat} (h : retries ≠ 0) :
    ∃ r, loraTransmitUntilResponse lora destination m retries = some r := by
  obtain ⟨payload, hp⟩ := toVec_isSome m
  obtain ⟨r, hr⟩ := retry_isSome h none lora
  rw [loraTransmitUntilResponse_eq hp, transmitLoop_eq, hr]
  exact ⟨_, rfl⟩

theorem loraTransmitUntilResponse_ok {lora lora' : ModuleLoRa} {destination : UInt32}
    {m resp : OtaPacket} {retries : Nat}
    (h : loraTransmitUntilResponse lora destination m retries = some (.ok resp, lora')) :
    ∃ packet, lora.Hears packet ∧ fromBytes packet.payload = some resp := by
  obtain ⟨payload, hp⟩ := toVec_isSome m
  rw [loraTransmitUntilResponse_eq hp] at h
  exact transmitLoop_ok h

end LoraModuleFw.Ota
