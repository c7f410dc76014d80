import LoraModuleFw.Ota.Producer

/-! The gateway's session, `module-gateway/src/gateway.rs`, and what
`gateway_task` of `module-gateway/src/main.rs` does with a received packet.
As for the producer, `none` is a panic. -/

namespace LoraModuleFw.ModuleGateway

open Lora Ota Schema

inductive Error where
  | ota (e : OtaError)
  | lora (e : RadioError)
  deriving DecidableEq, Repr

structure Gateway where
  ota : Option OtaProducer
  deriving DecidableEq

abbrev Reply (α : Type) := Option (Except Error α × Gateway × ModuleLoRa)

namespace Gateway

def new : Gateway := { ota := none }

def initDownload (g : Gateway) (lora : ModuleLoRa) (init : OtaInitRequest) :
    Reply GatewayPacket :=
  let ota := OtaProducer.new
    { binarySize := init.binarySize
      blockSize := init.blockSize
      blockCount := init.blockCount
      binarySha256 := init.binarySha256 } init.destinationAddress
  (ota.initDownload lora).map fun
    | (.ok ret, ota, lora) => (.ok ret, { g with ota := some ota }, lora)
    | (.error e, _, lora) => (.error (.ota e), g, lora)

def continueDownload (g : Gateway) (lora : ModuleLoRa) (data : OtaData) : Reply Unit :=
  match g.ota with
  | some ota =>
    (ota.continueDownload lora { index := data.index, data := data.data }).map fun
      | (.ok (), ota, lora) => (.ok (), { g with ota := some ota }, lora)
      | (.error e, ota, lora) => (.error (.ota e), { g with ota := some ota }, lora)
  | none => some (.error (.ota .notStarted), g, lora)

/-- A request to the stored producer, whose answer goes to the host. -/
def forward (g : Gateway) (r : Option (Except OtaError GatewayPacket × OtaProducer × ModuleLoRa)) :
    Reply (Option GatewayPacket) :=
  r.map fun
    | (.ok ret, ota, lora) => (.ok (some ret), { g with ota := some ota }, lora)
    | (.error e, ota, lora) => (.error (.ota e), { g with ota := some ota }, lora)

def processHostMessage (g : Gateway) (lora : ModuleLoRa) (packet : HostPacket) :
    Reply (Option GatewayPacket) :=
  match packet with
  | .pingRequest => some (.ok (some .pingResponse), g, lora)
  | .otaInit init =>
    let start := (g.initDownload lora init).map fun
      | (.ok ret, g, lora) => (.ok (some ret), g, lora)
      | (.error e, g, lora) => (.error e, g, lora)
    match g.ota with
    | some ota => if ota.isDone then start else some (.error (.ota .alreadyStarted), g, lora)
    | none => start
  | .otaData data =>
    (g.continueDownload lora data).map fun
      | (.ok (), g, lora) => (.ok none, g, lora)
      | (.error e, g, lora) => (.error e, g, lora)
  | .otaDoneRequest =>
    match g.ota with
    | some ota => g.forward (ota.doneDownload lora)
    | none => some (.ok (some .otaDoneAck), g, lora)
  | .otaAbortRequest =>
    match g.ota with
    | some ota => g.forward (ota.abortDownload lora)
    | none => some (.ok (some .otaAbortAck), g, lora)
  | .otaGetStatus =>
    match g.ota with
    | some ota => ota.getStatus.map fun s => (.ok (some (.otaStatus s)), g, lora)
    | none =>
      some (.ok (some (.otaStatus { inProgress := false, notAcked := .empty, lastAcked := 0 })),
        g, lora)
  | .soilSensor req =>
    ((Heapless.Vec.empty : Payload).push 0).map fun payload =>
      match lora.transmit { LoRaPacket.new req.destinationAddress .soilSensor with payload } with
      | (.ok (), lora) => (.ok none, g, lora)
      | (.error e, lora) => (.error (.lora e), g, lora)

def processPeerMessage (g : Gateway) (lora : ModuleLoRa) (packet : LoRaPacket) :
    Reply (Option GatewayPacket) :=
  match g.ota with
  | some ota =>
    (ota.processResponseRaw packet).map fun
      | (.ok ret, ota) => (.ok (some ret), { g with ota := some ota }, lora)
      | (.error e, ota) => (.error (.ota e), { g with ota := some ota }, lora)
  | none => some (.ok none, g, lora)

/-- The `i`-th little-endian `u16` of a soil report; slicing past the end panics. -/
def moistureAt (payload : List UInt8) (i : Nat) : Option UInt16 :=
  match payload[2 * i]?, payload[2 * i + 1]? with
  | some b0, some b1 => some (u16FromLe b0 b1)
  | _, _ => none

/-- `gateway_task` on a packet from `receive_continuous`: what it sends to the
host, with the gateway afterwards. -/
def dispatch (g : Gateway) (lora : ModuleLoRa) (p : LoRaPacket) :
    Option (Option GatewayPacket × Gateway × ModuleLoRa) :=
  match p.packetType with
  | .ota =>
    (g.processPeerMessage lora p).map fun
      | (.ok resp, g, lora) => (resp, g, lora)
      | (.error _, g, lora) => (none, g, lora)
  | .soilSensor =>
    match moistureAt p.payload.toList 0, moistureAt p.payload.toList 1,
      moistureAt p.payload.toList 2, moistureAt p.payload.toList 3 with
    | some a, some b, some c, some d => some (some (.soilSensorMoisture #v[a, b, c, d]), g, lora)
    | _, _, _, _ => none
  | .ping => some (none, g, lora)

end Gateway

end LoraModuleFw.ModuleGateway
