import LoraModuleFw.Link
import LoraModuleFw.Ota.Common

/-! OTA messages over the air: the message in the payload, the payload in a
frame, and back. -/

namespace LoraModuleFw.Ota

open Postcard Lora

theorem encode_ne_nil (m : OtaPacket) : OtaPacket.wire.encode m ≠ [] := by
  have htag (n : UInt32) : Wire.u32.encode n ≠ [] := List.length_pos_iff.mp (Wire.length_u32_pos n)
  cases m <;>
    simp only [OtaPacket.wire, OtaPacket.encode, ne_eq, List.append_eq_nil_iff, htag, false_and,
      not_false_eq_true]

theorem toVec_ne_nil {m : OtaPacket} {payload : Payload} (h : toVec m = some payload) :
    payload.toList ≠ [] := by
  rw [Heapless.Vec.collect_eq_some.mp h]
  exact encode_ne_nil m

/-- **Every message survives the air**: it fits a frame, the driver willing that frame is
what is sent, and a radio with the same CRC gets the message back from it, with its
source and destination. -/
theorem message_survives (m : OtaPacket) (lora receiver : ModuleLoRa)
    (hcrc : receiver.crc = lora.crc) (destination : UInt32) (hs : lora.address.toNat < 65536)
    (hd : destination.toNat < 65536) :
    ∃ payload frame, toVec m = some payload ∧
      lora.buildFrame { LoRaPacket.new destination .ota with payload, source := lora.address } =
        .ok frame ∧
      frame.length ≤ packetLength ∧
      (lora.Accepts → (loraTransmit lora destination m).1 = .ok () ∧
        (loraTransmit lora destination m).2.sent = lora.sent ++
          [⟨{ LoRaPacket.new destination .ota with payload, source := lora.address }, frame⟩]) ∧
      (∀ t, (loraTransmit lora destination m).2.sent = lora.sent ++ [t] → t.frame = frame) ∧
      ∃ p, receiver.receive frame = .ok p ∧ p.source = lora.address ∧
        p.destination = destination ∧ fromBytes p.payload = some m := by
  let packet : LoRaPacket := m.packet lora.address destination
  have hp : toVec m = some packet.payload := m.toVec_packet lora.address destination
  have hcut : packet.cut = packet := by
    simp only [LoRaPacket.cut, packet, OtaPacket.packet, (onWire_eq_iff _).mpr hs,
      (onWire_eq_iff _).mpr hd]
  have hsent := loraTransmit_eq lora destination m
  refine ⟨packet.payload, lora.frameOf packet, hp, lora.buildFrame_eq packet,
    lora.length_frameOf_le packet, ?_, ?_, packet, ?_, rfl, rfl, fromBytes_of_toVec hp⟩
  · intro h
    have hok := h.transmit (m.packet 0 destination)
    rw [hsent, hok]
    exact ⟨rfl, ModuleLoRa.transmit_sent_of_ok hok⟩
  · intro t ht
    rw [hsent] at ht
    rw [ModuleLoRa.transmit_sent ht]
    rfl
  · rw [ModuleLoRa.receive_frameOf hcrc, if_neg (toVec_ne_nil hp), hcut]

/-- The longest status, between the highest addresses. -/
theorem message_survives_status :
    let status : OtaPacket := .status ⟨⟨.replicate 32 65535, by decide⟩, 65535⟩
    ∃ payload frame, toVec status = some payload ∧
      (ModuleLoRa.quiet 65535).buildFrame
        { LoRaPacket.new 65534 .ota with payload, source := 65535 } = .ok frame ∧
      frame.length ≤ packetLength ∧
      (loraTransmit (.quiet 65535) 65534 status).1 = .ok () ∧
      (loraTransmit (.quiet 65535) 65534 status).2.sent =
        [⟨{ LoRaPacket.new 65534 .ota with payload, source := 65535 }, frame⟩] ∧
      ∃ p, (ModuleLoRa.quiet 65534).receive frame = .ok p ∧ p.source = 65535 ∧
        p.destination = 65534 ∧ fromBytes p.payload = some status := by
  intro status
  obtain ⟨payload, frame, hp, hf, hle, hsend, _, hrec⟩ :=
    message_survives status (.quiet 65535) (.quiet 65534) rfl 65534 (by decide) (by decide)
  obtain ⟨hok, hsent⟩ := hsend fun e h => by cases h
  exact ⟨payload, frame, hp, hf, hle, hok, hsent, hrec⟩

end LoraModuleFw.Ota
