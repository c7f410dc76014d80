import LoraModuleFw.Lib.Postcard

/-! The messages between the host computer and the gateway,
`gateway-host-schema/src/lib.rs`, and their bytes.  Addresses are `usize`, 32
bits wide on the gateway. -/

namespace LoraModuleFw.Schema

open Postcard

structure OtaInitRequest where
  destinationAddress : UInt32
  binarySize : UInt32
  binarySha256 : Vector UInt8 32
  blockSize : UInt16
  blockCount : UInt16
  deriving DecidableEq

structure OtaData where
  index : UInt16
  data : Heapless.Vec UInt8 96
  deriving DecidableEq

structure OtaStatus where
  inProgress : Bool
  notAcked : Heapless.Vec UInt16 64
  lastAcked : UInt16
  deriving DecidableEq

structure SoilSensorRequest where
  destinationAddress : UInt32
  deriving DecidableEq

inductive HostPacket where
  | pingRequest
  | otaGetStatus
  | otaInit (r : OtaInitRequest)
  | otaData (d : OtaData)
  | otaDoneRequest
  | otaAbortRequest
  | soilSensor (r : SoilSensorRequest)
  deriving DecidableEq

inductive GatewayPacket where
  | pingResponse
  | otaInitAck
  | otaStatus (s : OtaStatus)
  | otaDoneAck
  | otaAbortAck
  | soilSensorMoisture (v : Vector UInt16 4)
  deriving DecidableEq

/-! ## Bytes -/

def OtaInitRequest.wire : Wire OtaInitRequest :=
  (Wire.u32.seq (Wire.u32.seq ((Wire.u8.array 32).seq (Wire.u16.seq Wire.u16)))).iso
    (fun t => ⟨t.1, t.2.1, t.2.2.1, t.2.2.2.1, t.2.2.2.2⟩)
    (fun r => (r.destinationAddress, r.binarySize, r.binarySha256, r.blockSize, r.blockCount))
    (fun _ => rfl)

theorem block_capacity : 96 < 2 ^ 32 := by decide

def OtaData.wire : Wire OtaData :=
  (Wire.u16.seq (Wire.u8.vec 96 block_capacity)).iso (fun t => ⟨t.1, t.2⟩)
    (fun d => (d.index, d.data)) (fun _ => rfl)

def OtaStatus.wire : Wire OtaStatus :=
  (Wire.bool.seq ((Wire.u16.vec 64 (by decide)).seq Wire.u16)).iso
    (fun t => ⟨t.1, t.2.1, t.2.2⟩) (fun s => (s.inProgress, s.notAcked, s.lastAcked))
    (fun _ => rfl)

def SoilSensorRequest.wire : Wire SoilSensorRequest :=
  Wire.u32.iso (fun a => ⟨a⟩) (fun r => r.destinationAddress) (fun _ => rfl)

namespace HostPacket

/-- The variant number, then the fields. -/
def encode : HostPacket → Bytes
  | .pingRequest => Wire.u32.encode 0
  | .otaGetStatus => Wire.u32.encode 1
  | .otaInit r => Wire.u32.encode 2 ++ OtaInitRequest.wire.encode r
  | .otaData d => Wire.u32.encode 3 ++ OtaData.wire.encode d
  | .otaDoneRequest => Wire.u32.encode 4
  | .otaAbortRequest => Wire.u32.encode 5
  | .soilSensor r => Wire.u32.encode 6 ++ SoilSensorRequest.wire.encode r

def decodeBody (tag : UInt32) (r : Bytes) : Option (HostPacket × Bytes) :=
  match tag with
  | 0 => some (.pingRequest, r)
  | 1 => some (.otaGetStatus, r)
  | 2 => (OtaInitRequest.wire.decode r).map fun (p, r) => (.otaInit p, r)
  | 3 => (OtaData.wire.decode r).map fun (p, r) => (.otaData p, r)
  | 4 => some (.otaDoneRequest, r)
  | 5 => some (.otaAbortRequest, r)
  | 6 => (SoilSensorRequest.wire.decode r).map fun (p, r) => (.soilSensor p, r)
  | _ => none

def wire : Wire HostPacket where
  encode := encode
  decode bs := (Wire.u32.decode bs).bind fun (tag, r) => decodeBody tag r
  decode_encode p rest := by
    cases p with
    | otaInit r => simp [encode, List.append_assoc, decodeBody]
    | otaData d => simp [encode, List.append_assoc, decodeBody]
    | soilSensor r => simp [encode, List.append_assoc, decodeBody]
    | _ => simp [encode, decodeBody]

end HostPacket

namespace GatewayPacket

/-- The variant number, then the fields. -/
def encode : GatewayPacket → Bytes
  | .pingResponse => Wire.u32.encode 0
  | .otaInitAck => Wire.u32.encode 1
  | .otaStatus s => Wire.u32.encode 2 ++ OtaStatus.wire.encode s
  | .otaDoneAck => Wire.u32.encode 3
  | .otaAbortAck => Wire.u32.encode 4
  | .soilSensorMoisture v => Wire.u32.encode 5 ++ (Wire.u16.array 4).encode v

def decodeBody (tag : UInt32) (r : Bytes) : Option (GatewayPacket × Bytes) :=
  match tag with
  | 0 => some (.pingResponse, r)
  | 1 => some (.otaInitAck, r)
  | 2 => (OtaStatus.wire.decode r).map fun (s, r) => (.otaStatus s, r)
  | 3 => some (.otaDoneAck, r)
  | 4 => some (.otaAbortAck, r)
  | 5 => ((Wire.u16.array 4).decode r).map fun (v, r) => (.soilSensorMoisture v, r)
  | _ => none

def wire : Wire GatewayPacket where
  encode := encode
  decode bs := (Wire.u32.decode bs).bind fun (tag, r) => decodeBody tag r
  decode_encode p rest := by
    cases p with
    | otaStatus s => simp [encode, List.append_assoc, decodeBody]
    | soilSensorMoisture v => simp [encode, List.append_assoc, decodeBody]
    | _ => simp [encode, decodeBody]

end GatewayPacket

/-! No packet has no bytes, and the longest ones are those with a vector. -/

theorem HostPacket.length_encode (p : HostPacket) :
    0 < (HostPacket.wire.encode p).length ∧ (HostPacket.wire.encode p).length ≤ 109 := by
  have ht (n : UInt32) := Wire.length_u32_le n
  have hpos (n : UInt32) := Wire.length_u32_pos n
  simp only [HostPacket.wire]
  cases p with
  | otaInit r =>
    have := ht 2
    have := hpos 2
    have := Wire.length_u32_le r.destinationAddress
    have := Wire.length_u32_le r.binarySize
    have := Wire.length_array_le Wire.u8 1 32 (fun _ => Nat.le_refl 1) r.binarySha256
    have := Wire.length_u16_le r.blockSize
    have := Wire.length_u16_le r.blockCount
    simp only [encode, OtaInitRequest.wire, Wire.iso, Wire.seq, List.length_append]
    omega
  | otaData d =>
    have := ht 3
    have := hpos 3
    have := Wire.length_u16_le d.index
    have := Wire.length_vec_le Wire.u8 1 96 (by decide) (fun _ => Nat.le_refl 1) d.data
    simp only [encode, OtaData.wire, Wire.iso, Wire.seq, List.length_append]
    omega
  | soilSensor r =>
    have := ht 6
    have := hpos 6
    have := Wire.length_u32_le r.destinationAddress
    simp only [encode, SoilSensorRequest.wire, Wire.iso, List.length_append]
    omega
  | _ => exact ⟨hpos _, Nat.le_trans (ht _) (by decide)⟩

theorem GatewayPacket.length_encode (p : GatewayPacket) :
    0 < (GatewayPacket.wire.encode p).length ∧ (GatewayPacket.wire.encode p).length ≤ 206 := by
  have ht (n : UInt32) := Wire.length_u32_le n
  have hpos (n : UInt32) := Wire.length_u32_pos n
  simp only [GatewayPacket.wire]
  cases p with
  | otaStatus s =>
    have := ht 2
    have := hpos 2
    have := Wire.length_vec_le Wire.u16 3 64 (by decide) Wire.length_u16_le s.notAcked
    have := Wire.length_u16_le s.lastAcked
    have hbool : (Wire.bool.encode s.inProgress).length = 1 := rfl
    simp only [encode, OtaStatus.wire, Wire.iso, Wire.seq, List.length_append]
    omega
  | soilSensorMoisture v =>
    have := ht 5
    have := hpos 5
    have := Wire.length_array_le Wire.u16 3 4 Wire.length_u16_le v
    simp only [encode, List.length_append]
    omega
  | _ => exact ⟨hpos _, Nat.le_trans (ht _) (by decide)⟩

end LoraModuleFw.Schema
