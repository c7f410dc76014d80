import LoraModuleFw.Link

/-! What `receive` takes in: exactly the frames of `transmit` for packets with a
payload and 16-bit addresses. -/

namespace LoraModuleFw.Lora

open Postcard

/-! ## The receive buffer -/

/-- `buff[start..end]`; a range that is not inside the buffer panics. -/
def slice (buff : Bytes) (start stop : Nat) : Option Bytes :=
  if start ≤ stop ∧ stop ≤ buff.length then some ((buff.take stop).drop start) else none

/-- `receive` on its buffer and the length the driver reports, slice by slice.
`none` is a panic. -/
def ModuleLoRa.receiveBuffer (lora : ModuleLoRa) (buff : Bytes) (len : Nat) :
    Option (Except RadioError LoRaPacket) :=
  if len > checksumLength + headerLength then
    (slice buff 0 (len - checksumLength)).bind fun payload =>
      (slice buff (len - checksumLength) len).bind fun checksum =>
        -- the `try_into().unwrap()` of the checksum
        if checksum.length = checksumLength then
          if (lora.crc payload).toNat = leToNat checksum then
            match LoRaPacket.parse payload with
            | some p => some (.ok p)
            | none => some (.error .busy)
          else some (.error .busy)
        else none
  else some (.error .busy)

/-- A reported length inside the buffer makes no slice fail. -/
theorem ModuleLoRa.receiveBuffer_append (lora : ModuleLoRa) (frame rest : Bytes) :
    lora.receiveBuffer (frame ++ rest) frame.length = some (lora.receive frame) := by
  unfold receiveBuffer receive
  by_cases hlen : frame.length > checksumLength + headerLength
  · have hbody : slice (frame ++ rest) 0 (frame.length - checksumLength) =
        some (frame.take (frame.length - checksumLength)) := by
      rw [slice, if_pos ⟨Nat.zero_le _, by rw [List.length_append]; omega⟩, List.drop_zero,
        List.take_append_of_le_length (Nat.sub_le ..)]
    have hsum : slice (frame ++ rest) (frame.length - checksumLength) frame.length =
        some (frame.drop (frame.length - checksumLength)) := by
      rw [slice, if_pos ⟨Nat.sub_le .., by rw [List.length_append]; omega⟩, List.take_left]
    have hfour : (frame.drop (frame.length - checksumLength)).length = checksumLength := by
      rw [List.length_drop]
      omega
    rw [if_pos hlen, if_pos hlen, hbody, Option.bind_some, hsum, Option.bind_some, if_pos hfour]
    dsimp only
    split
    · cases LoRaPacket.parse (frame.take (frame.length - checksumLength)) <;> rfl
    · rfl
  · rw [if_neg hlen, if_neg hlen]

/-! ## Reading bytes back -/

theorem u16ToLe_fromLe (b0 b1 : UInt8) : u16ToLe (u16FromLe b0 b1) = [b0, b1] := by
  have h0 := b0.toNat_lt
  have h1 := b1.toNat_lt
  have hval : (u16FromLe b0 b1).toNat = b0.toNat + 256 * b1.toNat := by
    rw [u16FromLe, UInt16.toNat_ofNat']
    omega
  have hlow : UInt8.ofNat (b0.toNat + 256 * b1.toNat) = b0 := by
    rw [← UInt8.toNat_inj, UInt8.toNat_ofNat']
    omega
  have hhigh : UInt8.ofNat ((b0.toNat + 256 * b1.toNat) / 256) = b1 := by
    rw [← UInt8.toNat_inj, UInt8.toNat_ofNat']
    omega
  rw [u16ToLe, hval, hlow, hhigh]

theorem toByte_ofByte {b : UInt8} {t : LoRaPacketType} (h : LoRaPacketType.ofByte b = some t) :
    t.toByte = b := by
  unfold LoRaPacketType.ofByte at h
  split at h <;> cases h <;> rfl

/-- Four bytes with the value of a number are its bytes. -/
theorem eq_u32ToLe {bytes : Bytes} {n : UInt32} (hlen : bytes.length = checksumLength)
    (h : n.toNat = leToNat bytes) : bytes = u32ToLe n := by
  obtain ⟨a, b, c, d, rfl⟩ : ∃ a b c d, bytes = [a, b, c, d] := by
    rcases bytes with _ | ⟨a, _ | ⟨b, _ | ⟨c, _ | ⟨d, _ | _⟩⟩⟩⟩ <;> simp [checksumLength] at hlen
    exact ⟨a, b, c, d, rfl⟩
  have ha := a.toNat_lt
  have hb := b.toNat_lt
  have hc := c.toNat_lt
  have hd := d.toNat_lt
  simp only [leToNat] at h
  simp only [u32ToLe, List.cons.injEq, and_true, ← UInt8.toNat_inj, UInt8.toNat_ofNat']
  omega

theorem toNat_u16_lt (n : UInt16) : n.toUInt32.toNat < 65536 := by
  rw [UInt16.toNat_toUInt32]
  exact n.toNat_lt

namespace LoRaPacket

/-- Packets that survive the link: a payload to carry and 16-bit addresses. -/
structure Sendable (p : LoRaPacket) : Prop where
  payload : 1 ≤ p.payload.toList.length ∧ p.payload.toList.length ≤ payloadLength
  source : p.source.toNat < 65536
  destination : p.destination.toNat < 65536

theorem Sendable.cut_eq {p : LoRaPacket} (h : p.Sendable) : p.cut = p := by
  simp only [cut, (onWire_eq_iff _).mpr h.source, (onWire_eq_iff _).mpr h.destination]

/-- What parses is the body of a sendable packet. -/
theorem parse_eq_some {buff : Bytes} {p : LoRaPacket} :
    parse buff = some p ↔ p.Sendable ∧ buff = p.body := by
  constructor
  · intro h
    unfold parse at h
    split at h
    · cases h
    · next hlen =>
      split at h
      · next d0 d1 s0 s1 t rest =>
        obtain ⟨packetType, ht, h⟩ := Option.bind_eq_some_iff.mp h
        obtain ⟨payload, hc, rfl⟩ := Option.map_eq_some_iff.mp h
        have hrest : payload.toList = rest := Heapless.Vec.collect_eq_some.mp hc
        have hpos : 1 ≤ rest.length := by
          simp only [headerLength, List.length_cons] at hlen
          omega
        refine ⟨⟨⟨hrest ▸ hpos, payload.length_le⟩, toNat_u16_lt _, toNat_u16_lt _⟩, ?_⟩
        simp only [body, UInt16.toUInt16_toUInt32, u16ToLe_fromLe, toByte_ofByte ht, hrest]
        rfl
      · cases h
  · rintro ⟨h, rfl⟩
    have hne : p.payload.toList ≠ [] := List.length_pos_iff.mp h.payload.1
    rw [parse_body, if_neg hne, h.cut_eq]

end LoRaPacket

namespace ModuleLoRa

/-- The CRC check and the parser let exactly the frames of sendable packets through. -/
theorem receive_eq_ok {lora : ModuleLoRa} {frame : Bytes} {p : LoRaPacket} :
    lora.receive frame = .ok p ↔ p.Sendable ∧ frame = lora.frameOf p := by
  constructor
  · intro h
    unfold receive at h
    split at h
    · next hlen =>
      simp only at h
      split at h
      · next hcrc =>
        split at h
        · next q hq =>
          cases h
          obtain ⟨hsend, hbody⟩ := LoRaPacket.parse_eq_some.mp hq
          have hfour : (frame.drop (frame.length - checksumLength)).length = checksumLength := by
            rw [List.length_drop]
            omega
          have hsum := eq_u32ToLe hfour hcrc
          refine ⟨hsend, ?_⟩
          rw [frameOf, ← hbody, ← hsum, List.take_append_drop]
        · cases h
      · cases h
    · cases h
  · rintro ⟨h, rfl⟩
    have hne : p.payload.toList ≠ [] := List.length_pos_iff.mp h.payload.1
    rw [receive_frameOf rfl, if_neg hne, h.cut_eq]

/-- Every transmission of `p` from its own address that goes through puts `frame` on the air. -/
def Emits (crc : Bytes → UInt32) (p : LoRaPacket) (frame : Bytes) : Prop :=
  ∀ sender : ModuleLoRa, sender.address = p.source → sender.crc = crc →
    (sender.transmit p).1 = .ok () → (sender.transmit p).2.sent = sender.sent ++ [⟨p, frame⟩]

theorem emits_iff {lora : ModuleLoRa} {p : LoRaPacket} {frame : Bytes} :
    Emits lora.crc p frame ↔ frame = lora.frameOf p := by
  constructor
  · intro h
    let sender : ModuleLoRa := ⟨p.source, lora.crc, [], [], []⟩
    have hsent := transmit_of_quiet (show sender.txResults = [] from rfl) p
    have hok : (sender.transmit p).1 = .ok () := by
      simp only [transmit, buildFrame_eq, tx, sender]
    have hall := h sender rfl rfl hok
    rw [hsent] at hall
    cases hall
    rfl
  · rintro rfl sender haddr hcrc hok
    rw [transmit_sent_of_ok hok, haddr]
    simp only [frameOf, hcrc]

/-- **The link accepts exactly what it sends**: a frame at the front of the
buffer is received as a packet exactly when it is what the packet's source
emits, and everything else is an error. -/
theorem receive_exact (lora : ModuleLoRa) (frame rest : Bytes) :
    (∀ p, lora.receiveBuffer (frame ++ rest) frame.length = some (.ok p) ↔
      p.Sendable ∧ Emits lora.crc p frame) ∧
    ((¬ ∃ p : LoRaPacket, p.Sendable ∧ Emits lora.crc p frame) →
      ∃ e, lora.receiveBuffer (frame ++ rest) frame.length = some (.error e)) := by
  have hok : ∀ p, lora.receiveBuffer (frame ++ rest) frame.length = some (.ok p) ↔
      p.Sendable ∧ Emits lora.crc p frame := by
    intro p
    rw [receiveBuffer_append, Option.some_inj, receive_eq_ok, emits_iff]
  refine ⟨hok, fun hnone => ?_⟩
  cases hr : lora.receive frame with
  | error e => exact ⟨e, by rw [receiveBuffer_append, hr]⟩
  | ok p => exact absurd ⟨p, (hok p).mp (by rw [receiveBuffer_append, hr])⟩ hnone

end ModuleLoRa

end LoraModuleFw.Lora
