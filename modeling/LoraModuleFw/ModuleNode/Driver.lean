import LoraModuleFw.ModuleNode.OtaMemory

/-! The node's receive loop around a consumer, `main` of
`module-node/src/main.rs` with the page writes that are commented out there,
and how a binary is cut into blocks. -/

namespace LoraModuleFw.ModuleNode

open Lora Ota

/-! ## Binaries and their blocks -/

def blockCount (binary : List UInt8) (blockSize : Nat) : Nat :=
  (binary.length + blockSize - 1) / blockSize

/-- Block `index`; only the last one may be shorter than `blockSize`. -/
def blockOf (binary : List UInt8) (blockSize index : Nat) : List UInt8 :=
  (binary.drop (blockSize * index)).take blockSize

/-- The Init announces this binary. -/
def InitFor (binary : List UInt8) (init : OtaInitPacket) : Prop :=
  init.binarySize.toNat = binary.length ∧
    init.blockCount.toNat = blockCount binary init.blockSize.toNat

/-- A Data packet with exactly the bytes of its block. -/
def Carries (binary : List UInt8) (init : OtaInitPacket) (data : OtaDataPacket) : Prop :=
  data.index.toNat < init.blockCount.toNat ∧
    data.data.toList = blockOf binary init.blockSize.toNat data.index.toNat

instance (binary : List UInt8) (init : OtaInitPacket) (data : OtaDataPacket) :
    Decidable (Carries binary init data) := inferInstanceAs (Decidable (_ ∧ _))

theorem mul_lt_length {binary : List UInt8} {blockSize i : Nat} (h1 : 1 ≤ blockSize) :
    i < blockCount binary blockSize ↔ blockSize * i < binary.length := by
  rw [blockCount, Nat.lt_div_iff_mul_lt (by omega), Nat.mul_comm]
  omega

theorem getElem?_blockOf (binary : List UInt8) (blockSize index j : Nat) :
    (blockOf binary blockSize index)[j]? =
      if j < blockSize then binary[blockSize * index + j]? else none := by
  rw [blockOf, List.getElem?_take, List.getElem?_drop]

theorem length_blockOf (binary : List UInt8) (blockSize index : Nat) :
    (blockOf binary blockSize index).length =
      min blockSize (binary.length - blockSize * index) := by
  rw [blockOf, List.length_take, List.length_drop]

/-- The packet carries block `j`. -/
def CarriesAt (binary : List UInt8) (init : OtaInitPacket) (j : Nat) (packet : LoRaPacket) :
    Prop :=
  ∃ data, fromBytes packet.payload = some (.data data) ∧ data.index.toNat = j ∧
    data.data.toList = blockOf binary init.blockSize.toNat j

theorem CarriesAt.carries {binary : List UInt8} {init : OtaInitPacket} {j : Nat}
    {packet : LoRaPacket} (h : CarriesAt binary init j packet) (hj : j < init.blockCount.toNat) :
    ∃ data, fromBytes packet.payload = some (.data data) ∧ Carries binary init data := by
  obtain ⟨data, hm, rfl, hdata⟩ := h
  exact ⟨data, hm, hj, hdata⟩

/-- The packets carry the blocks from `j` on, once each and in order. -/
def Delivers (binary : List UInt8) (init : OtaInitPacket) : Nat → List LoRaPacket → Prop
  | j, [] => j = init.blockCount.toNat
  | j, p :: ps => CarriesAt binary init j p ∧ Delivers binary init (j + 1) ps

theorem Delivers.length {binary : List UInt8} {init : OtaInitPacket} {j : Nat}
    {packets : List LoRaPacket} (h : Delivers binary init j packets) :
    j + packets.length = init.blockCount.toNat := by
  induction packets generalizing j with
  | nil => exact h
  | cons p ps ih =>
    have := ih h.2
    rw [List.length_cons]
    omega

/-- Only the last block may be short. -/
theorem full_block {binary : List UInt8} {init : OtaInitPacket} {j : Nat}
    (hinit : InitFor binary init) (hsize : 1 ≤ init.blockSize.toNat)
    (hj : j + 1 < init.blockCount.toNat) : init.blockSize.toNat * (j + 1) ≤ binary.length := by
  rw [hinit.2] at hj
  exact Nat.le_of_lt ((mul_lt_length hsize).mp hj)

/-! ## A sender -/

/-- The Init for a binary. -/
def initFor (binary : List UInt8) (blockSize : Nat) : OtaInitPacket :=
  { binarySize := UInt32.ofNat binary.length, binarySha256 := .replicate 32 0,
    blockSize := UInt16.ofNat blockSize
    blockCount := UInt16.ofNat (blockCount binary blockSize) }

/-- The Init in a packet from gateway 1 to node 3. -/
def initPacket (binary : List UInt8) (blockSize : Nat) : LoRaPacket :=
  (OtaPacket.init (initFor binary blockSize)).packet 1 3

/-- Block `index` of a binary in a packet from gateway 1 to node 3. -/
def dataPacket (binary : List UInt8) (blockSize index : Nat) : LoRaPacket :=
  (OtaPacket.data ⟨UInt16.ofNat index, ⟨(blockOf binary blockSize index).take 96,
    List.length_take_le ..⟩⟩).packet 1 3

section
variable {binary : List UInt8} {blockSize : Nat}

theorem initFor_blockSize (h : blockSize ≤ 96) :
    (initFor binary blockSize).blockSize.toNat = blockSize :=
  Nat.mod_eq_of_lt (Nat.lt_of_le_of_lt h (by decide))

theorem initFor_initFor (h : blockSize ≤ 96) (hlen : binary.length < 2 ^ 32)
    (hcount : blockCount binary blockSize < 2 ^ 16) : InitFor binary (initFor binary blockSize) := by
  refine ⟨Nat.mod_eq_of_lt hlen, ?_⟩
  rw [initFor_blockSize h]
  exact Nat.mod_eq_of_lt hcount

theorem dataPacket_carriesAt (h : blockSize ≤ 96) {i : Nat} (hi : i < 2 ^ 16) :
    CarriesAt binary (initFor binary blockSize) i (dataPacket binary blockSize i) := by
  refine ⟨_, OtaPacket.fromBytes_packet .., Nat.mod_eq_of_lt hi, ?_⟩
  rw [initFor_blockSize h]
  refine List.take_of_length_le ?_
  rw [length_blockOf]
  omega

theorem dataPackets_deliver (h : blockSize ≤ 96) {j n : Nat}
    (hn : j + n = (initFor binary blockSize).blockCount.toNat) :
    Delivers binary (initFor binary blockSize) j
      ((List.range' j n).map (dataPacket binary blockSize)) := by
  have hlt := (initFor binary blockSize).blockCount.toNat_lt
  induction n generalizing j with
  | zero => exact hn
  | succ n ih => exact ⟨dataPacket_carriesAt h (by omega), ih (by omega)⟩

end

/-! ## The loop -/

structure Driver where
  consumer : OtaConsumer OtaMemory
  lora : ModuleLoRa
  pages : List OtaPage

namespace Driver

def start (lora : ModuleLoRa) : Driver := { consumer := .new .new, lora, pages := [] }

def receive (d : Driver) (packet : LoRaPacket) : Driver :=
  let r := d.consumer.processMessage d.lora packet
  { d with consumer := r.2.1, lora := r.2.2 }

/-- `get_page`, with the page it hands out. -/
def writePage (d : Driver) : Driver :=
  let r := d.consumer.memory.getPage
  { d with consumer := { d.consumer with memory := r.2 }, pages := d.pages ++ r.1.toList }

/-- `get_last_page`, with the page it hands out. -/
def writeLastPage (d : Driver) : Driver :=
  let r := d.consumer.memory.getLastPage
  { d with consumer := { d.consumer with memory := r.2 }, pages := d.pages ++ r.1.toList }

/-- One message, then `get_page`. -/
def step (d : Driver) (packet : LoRaPacket) : Driver := (d.receive packet).writePage

/-- The whole loop body: after `get_page`, a finished download drains the last page. -/
def stepAndFinish (d : Driver) (packet : LoRaPacket) : Driver :=
  let d := d.step packet
  if d.consumer.isDone then d.writeLastPage else d

/-- A Data packet of an open session changes the memory by the write of its block. -/
theorem receive_data {d : Driver} {packet : LoRaPacket} {data : OtaDataPacket}
    {session : SessionParams} (hm : fromBytes packet.payload = some (.data data))
    (hs : d.consumer.session = some session) :
    (d.receive packet).consumer.session = some session ∧
      (d.receive packet).consumer.memory = (d.consumer.writeBlock session data).2 ∧
      (d.receive packet).pages = d.pages := by
  obtain ⟨h1, h2⟩ := OtaConsumer.processMessage_data hm hs d.lora
  exact ⟨h1, h2, rfl⟩

theorem start_init (lora : ModuleLoRa) {packet : LoRaPacket} {init : OtaInitPacket}
    (hm : fromBytes packet.payload = some (.init init)) :
    ((start lora).step packet).consumer =
        { session := some ⟨init, packet.source⟩, memory := .new, recentIndexes := .empty,
          validUpToIndex := 0 } ∧
      ((start lora).step packet).pages = [] := by
  simp [step, start, receive, writePage, OtaConsumer.processMessage, OtaConsumer.handleInit,
    OtaConsumer.new, OtaMemory.new, OtaMemory.getPage, hm]

end Driver

end LoraModuleFw.ModuleNode
