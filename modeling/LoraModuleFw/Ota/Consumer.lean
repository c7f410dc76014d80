import LoraModuleFw.Lib.Runs
import LoraModuleFw.Ota.Common

/-! The node's side of a download, `module-runtime/src/ota/consumer.rs`. -/

namespace LoraModuleFw.Ota

open Lora

/-- The memory a consumer writes into: any state with a `write`, which reports
whether it took the block. -/
class OtaMemoryDelegate (M : Type) where
  write : M → (validUpTo offset : Nat) → (data : Block) → Bool × M

structure SessionParams where
  params : OtaInitPacket
  sourceAddress : UInt32
  deriving DecidableEq

structure OtaConsumer (M : Type) where
  session : Option SessionParams
  memory : M
  recentIndexes : Heapless.Vec UInt16 32
  validUpToIndex : UInt16

/-- The body of the `valid_up_to_index` loop, for the `n` indexes from `i` on;
`v` is the current `valid_up_to_index`. -/
def advance (recent : Heapless.Vec UInt16 32) : (n : Nat) → (i v : UInt16) → UInt16
  | 0, _, v => v
  | n + 1, i, v => if i ∈ recent.toList then advance recent n (i + 1) i else v

/-- Append an index to the window unless it is there; a full window drops its oldest. -/
def pushRecent (recent : Heapless.Vec UInt16 32) (index : UInt16) : Heapless.Vec UInt16 32 :=
  if index ∈ recent.toList then recent
  else
    let recent := if recent.isFull then recent.removeFirst else recent
    (recent.push index).getD recent

namespace OtaConsumer

variable {M : Type}

def new (memory : M) : OtaConsumer M :=
  { session := none, recentIndexes := .empty, validUpToIndex := 0, memory }

def getStatus (c : OtaConsumer M) : OtaStatusPacket :=
  { receivedIndexes := c.recentIndexes, validUpToIndex := c.validUpToIndex }

def isDone (c : OtaConsumer M) : Bool :=
  match c.session with
  | some p => c.validUpToIndex + 1 == p.params.blockCount
  | none => false

def handleInit (c : OtaConsumer M) (lora : ModuleLoRa) (session : SessionParams) :
    Except OtaError Unit × OtaConsumer M × ModuleLoRa :=
  let source := session.sourceAddress
  let c := { c with session := some session, recentIndexes := .empty, validUpToIndex := 0 }
  let (r, lora) := loraTransmit lora source .initAck
  (r, c, lora)

/-- The bookkeeping for a block the memory took. -/
def accept (c : OtaConsumer M) (index : UInt16) : OtaConsumer M :=
  let recent := pushRecent c.recentIndexes index
  { c with
    recentIndexes := recent
    -- the range `valid_up_to_index..u16::MAX` is fixed when the loop starts
    validUpToIndex :=
      advance recent (65535 - c.validUpToIndex.toNat) c.validUpToIndex c.validUpToIndex }

section
variable [OtaMemoryDelegate M]

/-- What `memory.write` does with a block of the session: block sizes and
indexes have 16 bits, so the `usize` products stay below 2^32. -/
def writeBlock (c : OtaConsumer M) (session : SessionParams) (data : OtaDataPacket) : Bool × M :=
  let blockSize := session.params.blockSize.toNat
  OtaMemoryDelegate.write c.memory
    (c.validUpToIndex.toNat * blockSize + data.data.toList.length)
    (blockSize * data.index.toNat) data.data

def handleData (c : OtaConsumer M) (lora : ModuleLoRa) (data : OtaDataPacket) :
    Except OtaError Unit × OtaConsumer M × ModuleLoRa :=
  match c.session with
  | none => (.error .invalidPacketType, c, lora)
  | some session =>
    let (written, memory) := c.writeBlock session data
    let c := { c with memory }
    let c := if written then c.accept data.index else c
    let (r, lora) := loraTransmit lora session.sourceAddress (.status c.getStatus)
    (r, c, lora)

end

def handleDone (c : OtaConsumer M) (lora : ModuleLoRa) :
    Except OtaError Unit × OtaConsumer M × ModuleLoRa :=
  match c.session with
  | none => (.error .invalidPacketType, c, lora)
  | some session =>
    if c.isDone then
      let (r, lora) := loraTransmit lora session.sourceAddress .doneAck
      (r, c, lora)
    else
      let (r, lora) := loraTransmit lora session.sourceAddress (.status c.getStatus)
      (r, c, lora)

def handleAbort (c : OtaConsumer M) (lora : ModuleLoRa) (sourceAddress : UInt32) :
    Except OtaError Unit × OtaConsumer M × ModuleLoRa :=
  let c := { c with session := none }
  let (r, lora) := loraTransmit lora sourceAddress .abortAck
  (r, c, lora)

def processMessage [OtaMemoryDelegate M] (c : OtaConsumer M) (lora : ModuleLoRa)
    (packet : LoRaPacket) : Except OtaError Unit × OtaConsumer M × ModuleLoRa :=
  match fromBytes packet.payload with
  | none => (.error .deserialize, c, lora)
  | some (.init init) =>
    c.handleInit lora { params := init, sourceAddress := packet.source }
  | some (.data data) => c.handleData lora data
  | some .initAck => (.error .invalidPacketType, c, lora)
  | some (.status _) => (.error .invalidPacketType, c, lora)
  | some .done => c.handleDone lora
  | some .doneAck => (.error .invalidPacketType, c, lora)
  | some .abort => c.handleAbort lora packet.source
  | some .abortAck => (.error .invalidPacketType, c, lora)

/-- A Data packet of an open session writes its block, and the session stays open. -/
theorem processMessage_data [OtaMemoryDelegate M] {c : OtaConsumer M} {packet : LoRaPacket}
    {data : OtaDataPacket} {session : SessionParams}
    (hm : fromBytes packet.payload = some (.data data)) (hs : c.session = some session)
    (lora : ModuleLoRa) :
    (c.processMessage lora packet).2.1.session = some session ∧
      (c.processMessage lora packet).2.1.memory = (c.writeBlock session data).2 := by
  cases hw : (c.writeBlock session data).1 <;>
    simp [processMessage, handleData, accept, hm, hs, hw]

end OtaConsumer

end LoraModuleFw.Ota
