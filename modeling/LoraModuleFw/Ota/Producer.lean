import LoraModuleFw.Ota.Common
import LoraModuleFw.Schema

/-! The gateway's side of a download, `module-runtime/src/ota/producer.rs`.
A function that can panic returns an `Option`; `none` is the panic. -/

namespace LoraModuleFw.Ota

open Lora Schema

inductive OtaProducerState where
  | init | download | done
  deriving DecidableEq, Repr

structure OtaProducer where
  params : OtaInitPacket
  destinationAddress : UInt32
  state : OtaProducerState
  notAckedIndexes : Heapless.Vec UInt16 128
  highestSentIndex : UInt16
  lastAckedIndex : UInt16
  deriving DecidableEq

/-- Integer division, which panics on a zero divisor. -/
def checkedDiv (a b : Nat) : Option Nat := if b = 0 then none else some (a / b)

namespace OtaProducer

def new (params : OtaInitPacket) (destinationAddress : UInt32) : OtaProducer :=
  { params, destinationAddress, state := .init, notAckedIndexes := .empty,
    highestSentIndex := 0, lastAckedIndex := 0 }

def isDone (p : OtaProducer) : Bool := p.state == .done

/-- Collecting more than 64 outstanding indexes panics. -/
def getStatus (p : OtaProducer) : Option OtaStatus :=
  (Heapless.Vec.collect p.notAckedIndexes.toList).map fun notAcked =>
    { notAcked, inProgress := p.state == .download, lastAcked := p.lastAckedIndex }

/-- The outstanding indexes after a status has acknowledged some. -/
def acknowledge (notAcked : Heapless.Vec UInt16 128) (received : List UInt16) :
    Heapless.Vec UInt16 128 :=
  received.foldl (fun v i => v.swapRemoveFirst i) notAcked

/-- The completion test; the division is only reached when nothing is outstanding. -/
def allAcked (p : OtaProducer) : Option Bool :=
  if p.notAckedIndexes.toList = [] then
    (checkedDiv p.params.binarySize.toNat p.params.blockSize.toNat).map
      fun n => p.highestSentIndex.toNat == n
  else some false

def processStatus (p : OtaProducer) (status : OtaStatusPacket) :
    Option (Except OtaError GatewayPacket × OtaProducer) :=
  let p := { p with
    notAckedIndexes := acknowledge p.notAckedIndexes status.receivedIndexes.toList
    lastAckedIndex := status.validUpToIndex }
  p.allAcked.bind fun finished =>
    if finished then some (.ok .otaDoneAck, { p with state := .done })
    else p.getStatus.map fun s => (.ok (.otaStatus s), p)

def processResponse (p : OtaProducer) (packet : OtaPacket) :
    Option (Except OtaError GatewayPacket × OtaProducer) :=
  match packet with
  | .init _ => some (.error .invalidPacketType, p)
  | .data _ => some (.error .invalidPacketType, p)
  | .done => some (.error .invalidPacketType, p)
  | .abort => some (.error .invalidPacketType, p)
  | .initAck =>
    if p.state = .init then some (.ok .otaInitAck, { p with state := .download })
    else some (.error .invalidPacketType, p)
  | .status status =>
    if p.state ≠ .init then p.processStatus status
    else some (.error .invalidPacketType, p)
  | .doneAck => some (.ok .otaDoneAck, { p with state := .done })
  | .abortAck => some (.ok .otaAbortAck, { p with state := .done })

def processResponseRaw (p : OtaProducer) (packet : LoRaPacket) :
    Option (Except OtaError GatewayPacket × OtaProducer) :=
  match fromBytes packet.payload with
  | none => some (.error .deserialize, p)
  | some m => p.processResponse m

/-- Send a request and feed the first response to `processResponse`: the
common body of the three requests below. -/
def request (p : OtaProducer) (lora : ModuleLoRa) (packet : OtaPacket) :
    Option (Except OtaError GatewayPacket × OtaProducer × ModuleLoRa) :=
  (loraTransmitUntilResponse lora p.destinationAddress packet 10).bind fun
    | (.error e, lora) => some (.error e, p, lora)
    | (.ok resp, lora) => (p.processResponse resp).map fun (r, p) => (r, p, lora)

def initDownload (p : OtaProducer) (lora : ModuleLoRa) :
    Option (Except OtaError GatewayPacket × OtaProducer × ModuleLoRa) :=
  p.request lora (.init p.params)

def doneDownload (p : OtaProducer) (lora : ModuleLoRa) :
    Option (Except OtaError GatewayPacket × OtaProducer × ModuleLoRa) :=
  p.request lora .done

def abortDownload (p : OtaProducer) (lora : ModuleLoRa) :
    Option (Except OtaError GatewayPacket × OtaProducer × ModuleLoRa) :=
  p.request lora .abort

/-- The bookkeeping for a block that was sent; a full list panics. -/
def recordSent (p : OtaProducer) (index : UInt16) : Option OtaProducer :=
  (if index ∈ p.notAckedIndexes.toList then some p.notAckedIndexes
    else p.notAckedIndexes.push index).map fun notAckedIndexes =>
      { p with
        notAckedIndexes
        highestSentIndex := if index > p.highestSentIndex then index else p.highestSentIndex }

def continueDownload (p : OtaProducer) (lora : ModuleLoRa) (data : OtaDataPacket) :
    Option (Except OtaError Unit × OtaProducer × ModuleLoRa) :=
  match loraTransmit lora p.destinationAddress (.data data) with
  | (.error e, lora) => some (.error e, p, lora)
  | (.ok (), lora) => (p.recordSent data.index).map fun p => (.ok (), p, lora)

end OtaProducer

end LoraModuleFw.Ota
