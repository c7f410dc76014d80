import LoraModuleFw.Lora

/-! What a frame of `transmit` is to the radios that hear it.  Addresses have 32
bits in a packet and 16 on the air. -/

namespace LoraModuleFw.Lora

open Postcard

/-! ## Little-endian bytes -/

theorem u16FromLe_toLe (n : UInt16) :
    u16FromLe (UInt8.ofNat n.toNat) (UInt8.ofNat (n.toNat / 256)) = n := by
  have hlt := n.toNat_lt
  have hval : (UInt8.ofNat n.toNat).toNat + 256 * (UInt8.ofNat (n.toNat / 256)).toNat =
      n.toNat := by
    simp only [UInt8.toNat_ofNat']
    omega
  rw [u16FromLe, hval, UInt16.ofNat_toNat]

theorem leToNat_u32ToLe (n : UInt32) : leToNat (u32ToLe n) = n.toNat := by
  have hlt := n.toNat_lt
  simp only [u32ToLe, leToNat, UInt8.toNat_ofNat']
  omega

theorem length_u32ToLe (n : UInt32) : (u32ToLe n).length = checksumLength := rfl

theorem ofByte_toByte (t : LoRaPacketType) : LoRaPacketType.ofByte t.toByte = some t := by
  cases t <;> rfl

/-- An address as it comes out of its two bytes. -/
def onWire (address : UInt32) : UInt32 := address.toUInt16.toUInt32

theorem toNat_onWire (address : UInt32) : (onWire address).toNat = address.toNat % 65536 := by
  simp [onWire]

theorem onWire_eq_iff (address : UInt32) : onWire address = address ↔ address.toNat < 65536 := by
  rw [← UInt32.toNat_inj, toNat_onWire]
  omega

/-! ## Bodies and frames -/

namespace LoRaPacket

/-- The packet with its addresses cut to 16 bits. -/
def cut (p : LoRaPacket) : LoRaPacket :=
  { p with source := onWire p.source, destination := onWire p.destination }

/-- A body reads as its packet, but without a payload it is too short. -/
theorem parse_body (p : LoRaPacket) :
    parse p.body = if p.payload.toList = [] then none else some p.cut := by
  have hlen : p.body.length = 5 + p.payload.toList.length := p.length_body
  have hle : p.payload.toList.length ≤ 119 := p.payload.length_le
  unfold parse
  simp only [headerLength, packetLength, hlen]
  by_cases hnil : p.payload.toList = []
  · have hshort : 5 + p.payload.toList.length ≤ 5 := by rw [hnil]; exact Nat.le_refl 5
    rw [if_pos hnil, if_pos (Or.inl hshort)]
  · have hpos := List.length_pos_iff.mpr hnil
    have hfits : ¬ (5 + p.payload.toList.length ≤ 5 ∨ 5 + p.payload.toList.length > 128) := by
      omega
    rw [if_neg hnil, if_neg hfits]
    have hcollect : Heapless.Vec.collect p.payload.toList = some p.payload :=
      Heapless.Vec.collect_eq_some.mpr rfl
    simp only [body, u16ToLe, List.cons_append, List.nil_append, ofByte_toByte, u16FromLe_toLe,
      Option.bind_some, hcollect, Option.map_some]
    rfl

end LoRaPacket

namespace ModuleLoRa

theorem length_frameOf (lora : ModuleLoRa) (p : LoRaPacket) :
    (lora.frameOf p).length = headerLength + p.payload.toList.length + checksumLength := by
  rw [frameOf, List.length_append, p.length_body, length_u32ToLe]

theorem length_frameOf_le (lora : ModuleLoRa) (p : LoRaPacket) :
    (lora.frameOf p).length ≤ packetLength := by
  have hle := p.payload.length_le
  rw [length_frameOf]
  simp only [payloadLength, packetLength, headerLength, checksumLength] at hle ⊢
  omega

theorem take_frameOf (lora : ModuleLoRa) (p : LoRaPacket) :
    (lora.frameOf p).take ((lora.frameOf p).length - checksumLength) = p.body := by
  rw [length_frameOf, Nat.add_sub_cancel, ← p.length_body, frameOf, List.take_left]

theorem drop_frameOf (lora : ModuleLoRa) (p : LoRaPacket) :
    (lora.frameOf p).drop ((lora.frameOf p).length - checksumLength) =
      u32ToLe (lora.crc p.body) := by
  rw [length_frameOf, Nat.add_sub_cancel, ← p.length_body, frameOf, List.drop_left]

/-- A radio with the same CRC takes in a frame, unless its packet has no payload. -/
theorem receive_frameOf {lora receiver : ModuleLoRa} (hcrc : receiver.crc = lora.crc)
    (p : LoRaPacket) : receiver.receive (lora.frameOf p) =
      if p.payload.toList = [] then .error .busy else .ok p.cut := by
  have hlen := lora.length_frameOf p
  unfold receive
  simp only [take_frameOf, drop_frameOf, hcrc, leToNat_u32ToLe, if_true, p.parse_body]
  by_cases hnil : p.payload.toList = []
  · simp only [if_pos hnil, ite_self]
  · have hpos := List.length_pos_iff.mpr hnil
    rw [if_neg hnil, if_neg hnil, if_pos (by omega)]

/-- What a successful transmission puts on the air. -/
theorem transmit_sent {lora : ModuleLoRa} {packet : LoRaPacket} {t : Transmission}
    (h : (lora.transmit packet).2.sent = lora.sent ++ [t]) :
    t = ⟨{ packet with source := lora.address },
      lora.frameOf { packet with source := lora.address }⟩ := by
  rcases lora.transmit_cases packet with ⟨_, hs⟩ | ⟨_, _, hs⟩
  · rw [hs] at h
    exact (List.singleton_inj.mp (List.append_cancel_left h)).symm
  · rw [hs] at h
    exact absurd h.symm (by simp)

/-- A radio that is free to send. -/
theorem transmit_of_quiet {lora : ModuleLoRa} (h : lora.txResults = []) (packet : LoRaPacket) :
    (lora.transmit packet).2.sent = lora.sent ++
      [⟨{ packet with source := lora.address },
        lora.frameOf { packet with source := lora.address }⟩] := by
  simp only [transmit, buildFrame_eq, tx, h]

end ModuleLoRa

/-! ## Addressing -/

/-- A frame on the air carries the packet's destination and the module's
address, no other node takes it in, and without a frame there is an error. -/
structure Addressed (lora : ModuleLoRa) (packet : LoRaPacket) : Prop where
  body : ∀ t, (lora.transmit packet).2.sent = lora.sent ++ [t] →
    ∃ p, LoRaPacket.parse (t.frame.take (t.frame.length - checksumLength)) = some p ∧
      p.destination = packet.destination ∧ p.source = lora.address
  others : ∀ t, (lora.transmit packet).2.sent = lora.sent ++ [t] →
    ∀ node : ModuleLoRa, node.crc = lora.crc → node.address ≠ packet.destination →
      ∀ p, (node.receiveAddressed [.frame t.frame]).1 ≠ some (.ok p)
  error : (¬ ∃ t, (lora.transmit packet).2.sent = lora.sent ++ [t]) →
    ∃ e, (lora.transmit packet).1 = .error e

/-- **Requests reach the right node**, whatever the radio does, exactly when both
addresses have 16 bits and there is a payload. -/
theorem addressed_iff (address : UInt32) (crc : Bytes → UInt32) (packet : LoRaPacket) :
    (∀ lora : ModuleLoRa, lora.address = address → lora.crc = crc → Addressed lora packet) ↔
      packet.destination.toNat < 65536 ∧ address.toNat < 65536 ∧ packet.payload.toList ≠ [] := by
  constructor
  · intro h
    let lora : ModuleLoRa := ⟨address, crc, [], [], []⟩
    obtain ⟨p, hp, hd, hs⟩ := (h lora rfl rfl).body _ (ModuleLoRa.transmit_of_quiet rfl packet)
    rw [ModuleLoRa.take_frameOf, LoRaPacket.parse_body] at hp
    split at hp
    · cases hp
    · next hne =>
      cases hp
      exact ⟨(onWire_eq_iff _).mp hd, (onWire_eq_iff _).mp hs, hne⟩
  · rintro ⟨hd, ha, hne⟩ lora rfl rfl
    have hcut : LoRaPacket.cut { packet with source := lora.address } =
        { packet with source := lora.address } := by
      simp only [LoRaPacket.cut, (onWire_eq_iff _).mpr hd, (onWire_eq_iff _).mpr ha]
    refine ⟨?_, ?_, ?_⟩
    · intro t ht
      rw [ModuleLoRa.transmit_sent ht, ModuleLoRa.take_frameOf, LoRaPacket.parse_body, if_neg hne,
        hcut]
      exact ⟨_, rfl, rfl, rfl⟩
    · intro t ht node hcrc haddr p
      rw [ModuleLoRa.transmit_sent ht]
      unfold ModuleLoRa.receiveAddressed
      rw [ModuleLoRa.receive_frameOf hcrc, if_neg hne, hcut]
      simp only
      rw [if_neg (Ne.symm haddr)]
      intro h
      cases h
    · intro hnone
      rcases lora.transmit_cases packet with ⟨_, hs⟩ | ⟨e, he, _⟩
      · exact absurd ⟨_, hs⟩ hnone
      · exact ⟨e, he⟩

/-- A soil request for address 65539 is taken in by node 3. -/
theorem request_reaches_node_three :
    let packet : LoRaPacket := ⟨0, 65539, .soilSensor, ⟨[0], by decide⟩⟩
    ¬ Addressed (.quiet 1) packet ∧
      ∃ t p, ((ModuleLoRa.quiet 1).transmit packet).2.sent = [t] ∧
        ((ModuleLoRa.quiet 3).receiveAddressed [.frame t.frame]).1 = some (.ok p) := by
  intro packet
  have hsent := @ModuleLoRa.transmit_of_quiet (.quiet 1) rfl packet
  have hheard : ((ModuleLoRa.quiet 3).receiveAddressed [.frame ((ModuleLoRa.quiet 1).frameOf
      { packet with source := 1 })]).1 = some (.ok (LoRaPacket.cut { packet with source := 1 })) := by
    decide +kernel
  refine ⟨fun h => ?_, _, _, hsent, hheard⟩
  exact h.others _ hsent (.quiet 3) rfl (by decide) _ hheard

end LoraModuleFw.Lora
