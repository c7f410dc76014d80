import LoraModuleFw.Lib.Postcard

/-! The LoRa link of `module-runtime/src/lora.rs`: packets, their byte layout,
and the radio.  The radio driver is outside the repository, so what it does
next is part of the state: `txResults` are its answers to the coming
transmissions, `rxEvents` what it hears while listening. -/

namespace LoraModuleFw.Lora

open Postcard

def packetLength : Nat := 128
def headerLength : Nat := 5
def checksumLength : Nat := 4
def payloadLength : Nat := packetLength - headerLength - checksumLength

inductive LoRaPacketType where
  | ping | ota | soilSensor
  deriving DecidableEq, Repr

abbrev Payload := Heapless.Vec UInt8 payloadLength

/-- Addresses are `usize`, 32 bits wide on the target. -/
structure LoRaPacket where
  source : UInt32
  destination : UInt32
  packetType : LoRaPacketType
  payload : Payload
  deriving DecidableEq

/-- The errors of the radio driver; `driver` stands for those the code never names. -/
inductive RadioError where
  | busy
  | payloadSizeUnexpected (length : Nat)
  | receiveTimeout
  | driver (code : Nat)
  deriving DecidableEq, Repr

/-! ## Byte layout -/

def u16ToLe (n : UInt16) : Bytes := [UInt8.ofNat n.toNat, UInt8.ofNat (n.toNat / 256)]

def u16FromLe (b0 b1 : UInt8) : UInt16 := UInt16.ofNat (b0.toNat + 256 * b1.toNat)

def u32ToLe (n : UInt32) : Bytes :=
  [UInt8.ofNat n.toNat, UInt8.ofNat (n.toNat / 256), UInt8.ofNat (n.toNat / 65536),
    UInt8.ofNat (n.toNat / 16777216)]

/-- The value of little-endian bytes. -/
def leToNat : Bytes → Nat
  | [] => 0
  | b :: bs => b.toNat + 256 * leToNat bs

def LoRaPacketType.toByte : LoRaPacketType → UInt8
  | .ping => 0
  | .ota => 1
  | .soilSensor => 2

def LoRaPacketType.ofByte : UInt8 → Option LoRaPacketType
  | 0 => some .ping
  | 1 => some .ota
  | 2 => some .soilSensor
  | _ => none

namespace LoRaPacket

def new (destination : UInt32) (packetType : LoRaPacketType) : LoRaPacket :=
  { source := 0, destination, packetType, payload := .empty }

def parse (buff : Bytes) : Option LoRaPacket :=
  if buff.length ≤ headerLength ∨ buff.length > packetLength then none
  else match buff with
    | d0 :: d1 :: s0 :: s1 :: t :: rest =>
      (LoRaPacketType.ofByte t).bind fun packetType =>
        (Heapless.Vec.collect rest).map fun payload =>
          { destination := (u16FromLe d0 d1).toUInt32
            source := (u16FromLe s0 s1).toUInt32
            packetType, payload }
    | _ => none

/-- The bytes written into a buffer of length `len`; `none` when they do not fit. -/
def serialize (p : LoRaPacket) (len : Nat) : Option Bytes :=
  if headerLength + p.payload.toList.length > len then none
  else some (u16ToLe p.destination.toUInt16 ++ u16ToLe p.source.toUInt16 ++
    [p.packetType.toByte] ++ p.payload.toList)

end LoRaPacket

/-! ## The radio -/

/-- What the radio reports while it listens: the bytes of a frame, an error of
the driver, or nothing until the five-second timer fires. -/
inductive RadioEvent where
  | frame (bytes : Bytes)
  | error (e : RadioError)
  | timeout
  deriving DecidableEq, Repr

/-- A frame that went on the air, with the packet it was built from. -/
structure Transmission where
  packet : LoRaPacket
  frame : Bytes
  deriving DecidableEq

/-- `crc` is the function the CRC unit computes of the bytes fed since its
reset.  Past the end of `txResults` every transmission succeeds, past the end
of `rxEvents` the air is silent. -/
structure ModuleLoRa where
  address : UInt32
  crc : Bytes → UInt32
  txResults : List (Except RadioError Unit)
  rxEvents : List RadioEvent
  sent : List Transmission

namespace ModuleLoRa

/-- A radio whose transmissions all succeed and that hears nothing. -/
def quiet (address : UInt32) : ModuleLoRa :=
  { address, crc := fun _ => 0, txResults := [], rxEvents := [], sent := [] }

/-- The body and its checksum, as they go into the transmit buffer. -/
def buildFrame (lora : ModuleLoRa) (packet : LoRaPacket) : Except RadioError Bytes :=
  match packet.serialize (packetLength - checksumLength) with
  | none => .error (.payloadSizeUnexpected packet.payload.toList.length)
  | some buff => .ok (buff ++ u32ToLe (lora.crc buff))

/-- The driver's `prepare_for_tx` and `tx`. -/
def tx (lora : ModuleLoRa) (t : Transmission) : Except RadioError Unit × ModuleLoRa :=
  match lora.txResults with
  | [] => (.ok (), { lora with sent := lora.sent ++ [t] })
  | .ok () :: rest => (.ok (), { lora with txResults := rest, sent := lora.sent ++ [t] })
  | .error e :: rest => (.error e, { lora with txResults := rest })

def transmit (lora : ModuleLoRa) (packet : LoRaPacket) : Except RadioError Unit × ModuleLoRa :=
  let packet := { packet with source := lora.address }
  match lora.buildFrame packet with
  | .error e => (.error e, lora)
  | .ok frame => lora.tx ⟨packet, frame⟩

/-- `receive` on the bytes the driver reports. -/
def receive (lora : ModuleLoRa) (buff : Bytes) : Except RadioError LoRaPacket :=
  if buff.length > checksumLength + headerLength then
    let payload := buff.take (buff.length - checksumLength)
    let checksum := buff.drop (buff.length - checksumLength)
    if (lora.crc payload).toNat = leToNat checksum then
      match LoRaPacket.parse payload with
      | some p => .ok p
      | none => .error .busy
    else .error .busy
  else .error .busy

/-- The loop of `receive_addressed` over what the radio hears: its result, or
`none` when the timer fires first, and the events left. -/
def receiveAddressed (lora : ModuleLoRa) :
    List RadioEvent → Option (Except RadioError LoRaPacket) × List RadioEvent
  | [] => (none, [])
  | .timeout :: rest => (none, rest)
  | .error e :: rest => (some (.error e), rest)
  | .frame buff :: rest =>
    match lora.receive buff with
    | .ok packet =>
      if packet.destination = lora.address then (some (.ok packet), rest)
      else lora.receiveAddressed rest
    | .error e => (some (.error e), rest)

def receiveSingle (lora : ModuleLoRa) : Except RadioError LoRaPacket × ModuleLoRa :=
  match lora.receiveAddressed lora.rxEvents with
  | (some r, rest) => (r, { lora with rxEvents := rest })
  | (none, rest) => (.error .receiveTimeout, { lora with rxEvents := rest })

/-- `receive_continuous` on what the radio hears; `none` while it goes on listening. -/
def receiveContinuous (lora : ModuleLoRa) :
    Option (Except RadioError LoRaPacket) × ModuleLoRa :=
  let (r, rest) := lora.receiveAddressed lora.rxEvents
  (r, { lora with rxEvents := rest })

end ModuleLoRa

/-! ## What the radio operations do -/

namespace LoRaPacket

/-- The header and the payload. -/
def body (p : LoRaPacket) : Bytes :=
  u16ToLe p.destination.toUInt16 ++ u16ToLe p.source.toUInt16 ++ [p.packetType.toByte] ++
    p.payload.toList

theorem length_body (p : LoRaPacket) : p.body.length = headerLength + p.payload.toList.length := by
  simp only [body, u16ToLe, List.length_append, List.length_cons, List.length_nil, headerLength]

theorem serialize_eq (p : LoRaPacket) (len : Nat) :
    p.serialize len = if headerLength + p.payload.toList.length > len then none else some p.body :=
  rfl

end LoRaPacket

namespace ModuleLoRa

/-- The bytes on the air: the body and its checksum. -/
def frameOf (lora : ModuleLoRa) (p : LoRaPacket) : Bytes := p.body ++ u32ToLe (lora.crc p.body)

theorem buildFrame_eq (lora : ModuleLoRa) (p : LoRaPacket) :
    lora.buildFrame p = .ok (lora.frameOf p) := by
  have hle := p.payload.length_le
  simp only [payloadLength, packetLength, headerLength, checksumLength] at hle
  unfold buildFrame
  rw [LoRaPacket.serialize_eq, if_neg]
  · rfl
  · simp only [packetLength, headerLength, checksumLength]
    omega

/-- A transmission either puts exactly the packet on the air or nothing. -/
theorem transmit_cases (lora : ModuleLoRa) (packet : LoRaPacket) :
    ((lora.transmit packet).1 = .ok () ∧ (lora.transmit packet).2.sent = lora.sent ++
      [⟨{ packet with source := lora.address },
        lora.frameOf { packet with source := lora.address }⟩]) ∨
    (∃ e, (lora.transmit packet).1 = .error e ∧ (lora.transmit packet).2.sent = lora.sent) := by
  simp only [transmit, buildFrame_eq, tx]
  rcases lora.txResults with _ | ⟨_ | ⟨⟩, rest⟩
  · exact Or.inl ⟨rfl, rfl⟩
  · exact Or.inr ⟨_, rfl, rfl⟩
  · exact Or.inl ⟨rfl, rfl⟩

theorem transmit_sent_of_ok {lora : ModuleLoRa} {packet : LoRaPacket}
    (h : (lora.transmit packet).1 = .ok ()) :
    (lora.transmit packet).2.sent = lora.sent ++
      [⟨{ packet with source := lora.address },
        lora.frameOf { packet with source := lora.address }⟩] := by
  rcases lora.transmit_cases packet with ⟨_, hs⟩ | ⟨e, he, _⟩
  · exact hs
  · rw [h] at he
    cases he

theorem transmit_sent_of_error {lora : ModuleLoRa} {packet : LoRaPacket} {e : RadioError}
    (h : (lora.transmit packet).1 = .error e) : (lora.transmit packet).2.sent = lora.sent := by
  rcases lora.transmit_cases packet with ⟨hok, _⟩ | ⟨_, _, hs⟩
  · rw [h] at hok
    cases hok
  · exact hs

/-- The driver takes the next transmission. -/
def Accepts (lora : ModuleLoRa) : Prop := ∀ e, lora.txResults.head? ≠ some (.error e)

theorem Accepts.transmit {lora : ModuleLoRa} (h : lora.Accepts) (packet : LoRaPacket) :
    (lora.transmit packet).1 = .ok () := by
  simp only [ModuleLoRa.transmit, buildFrame_eq, tx]
  rcases hr : lora.txResults with _ | ⟨e | ⟨⟩, rest⟩
  · rfl
  · exact absurd (by rw [hr]; rfl) (h e)
  · rfl

/-- Every transmission takes the next of the driver's answers. -/
theorem transmit_txResults (lora : ModuleLoRa) (packet : LoRaPacket) :
    (lora.transmit packet).2.txResults = lora.txResults.drop 1 := by
  simp only [transmit, buildFrame_eq, tx]
  rcases lora.txResults with _ | ⟨_ | ⟨⟩, rest⟩ <;> rfl

theorem receiveSingle_sent (lora : ModuleLoRa) : lora.receiveSingle.2.sent = lora.sent := by
  unfold receiveSingle
  split <;> rfl

theorem receiveSingle_txResults (lora : ModuleLoRa) :
    lora.receiveSingle.2.txResults = lora.txResults := by
  unfold receiveSingle
  split <;> rfl

/-- The same radio later on: it hears nothing that was not to come. -/
structure Later (lora lora' : ModuleLoRa) : Prop where
  address : lora'.address = lora.address
  crc : lora'.crc = lora.crc
  rxEvents : ∀ e ∈ lora'.rxEvents, e ∈ lora.rxEvents

theorem Later.refl (lora : ModuleLoRa) : lora.Later lora := ⟨rfl, rfl, fun _ he => he⟩

theorem Later.trans {a b c : ModuleLoRa} (h : a.Later b) (h' : b.Later c) : a.Later c :=
  ⟨h'.address.trans h.address, h'.crc.trans h.crc, fun e he => h.rxEvents e (h'.rxEvents e he)⟩

theorem transmit_later (lora : ModuleLoRa) (packet : LoRaPacket) :
    lora.Later (lora.transmit packet).2 := by
  simp only [transmit, buildFrame_eq, tx]
  rcases lora.txResults with _ | ⟨_ | ⟨⟩, rest⟩ <;> exact ⟨rfl, rfl, fun _ he => he⟩

/-- A packet that the radio takes in: its frame comes, checks out and is for this module. -/
def Hears (lora : ModuleLoRa) (p : LoRaPacket) : Prop :=
  ∃ buff, .frame buff ∈ lora.rxEvents ∧ lora.receive buff = .ok p ∧ p.destination = lora.address

theorem Hears.of_later {lora lora' : ModuleLoRa} {p : LoRaPacket} (h : lora.Later lora')
    (hp : lora'.Hears p) : lora.Hears p := by
  obtain ⟨buff, hmem, hr, hd⟩ := hp
  refine ⟨buff, h.rxEvents _ hmem, ?_, hd.trans h.address⟩
  rw [← hr]
  simp only [receive, h.crc]

theorem receiveAddressed_cases (lora : ModuleLoRa) (events : List RadioEvent) :
    (∀ e ∈ (lora.receiveAddressed events).2, e ∈ events) ∧
      ∀ p, (lora.receiveAddressed events).1 = some (.ok p) →
        ∃ buff, .frame buff ∈ events ∧ lora.receive buff = .ok p ∧
          p.destination = lora.address := by
  induction events with
  | nil => exact ⟨fun _ he => he, nofun⟩
  | cons e rest ih =>
    have hrest : ∀ e' ∈ rest, e' ∈ e :: rest := fun _ he => List.mem_cons_of_mem _ he
    cases e with
    | timeout => exact ⟨hrest, nofun⟩
    | error e => exact ⟨hrest, nofun⟩
    | frame buff =>
      unfold receiveAddressed
      cases hr : lora.receive buff with
      | error e => exact ⟨hrest, nofun⟩
      | ok p =>
        simp only
        split
        · next hd =>
          refine ⟨hrest, fun q hq => ?_⟩
          cases hq
          exact ⟨buff, by simp, hr, hd⟩
        · refine ⟨fun e' he' => hrest _ (ih.1 e' he'), fun q hq => ?_⟩
          obtain ⟨buff', hmem, hr', hd'⟩ := ih.2 q hq
          exact ⟨buff', hrest _ hmem, hr', hd'⟩

theorem receiveSingle_later (lora : ModuleLoRa) : lora.Later lora.receiveSingle.2 := by
  have h := (lora.receiveAddressed_cases lora.rxEvents).1
  unfold receiveSingle
  split <;> next heq => exact ⟨rfl, rfl, fun e he => h e (by rw [heq]; exact he)⟩

theorem receiveSingle_ok {lora lora' : ModuleLoRa} {p : LoRaPacket}
    (h : lora.receiveSingle = (.ok p, lora')) : lora.Hears p := by
  have hall := (lora.receiveAddressed_cases lora.rxEvents).2
  unfold receiveSingle at h
  split at h
  · next heq =>
    cases h
    exact hall p (by rw [heq])
  · cases h

end ModuleLoRa

end LoraModuleFw.Lora
