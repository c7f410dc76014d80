import Mathlib.Data.Nat.Bitwise
import LoraModuleFw.Lib.Crc
import LoraModuleFw.Frames

/-! The CRC unit as `init` of `module-runtime/src/lib.rs` sets it up, and what
damage on the air the radios notice with it. -/

namespace LoraModuleFw.Lora

open Postcard

/-! ## The unit -/

def crcPolynomial : BitVec 32 := 79764919#32

def crcInitial : BitVec 32 := 4294967295#32

/-- The bits of a byte in the order in which the unit takes them: its input is
reversed byte by byte. -/
def byteBits (b : UInt8) : List Bool := Crc.bitsOf b.toBitVec.reverse

def bits (bytes : Bytes) : List Bool := bytes.flatMap byteBits

/-- The register after `reset` and `feed_bytes`. -/
def register (bytes : Bytes) : BitVec 32 := Crc.feed crcPolynomial crcInitial (bits bytes)

/-- What is read from the unit: its output is reversed as well. -/
def crcUnit (bytes : Bytes) : UInt32 := ⟨(register bytes).reverse⟩

/-- The digits 1 to 9 under CRC-32 without its final complement. -/
example : crcUnit [49, 50, 51, 52, 53, 54, 55, 56, 57] = 0x340BC6D9 := by decide +kernel

theorem bits_append (l l' : Bytes) : bits (l ++ l') = bits l ++ bits l' := List.flatMap_append ..

theorem length_bits (bytes : Bytes) : (bits bytes).length = 8 * bytes.length := by
  induction bytes with
  | nil => rfl
  | cons b bytes ih =>
    have hbyte : (byteBits b).length = 8 := by
      rw [byteBits, Crc.bitsOf, List.length_map, List.length_range]
    change (byteBits b ++ bits bytes).length = _
    rw [List.length_append, hbyte, ih, List.length_cons]
    omega

/-- Lowest bit first. -/
theorem byteBits_ofNat (n : ℕ) : byteBits (UInt8.ofNat n) = (List.range 8).map n.testBit := by
  apply List.map_congr_left
  intro i hi
  have hlt : i < 8 := List.mem_range.mp hi
  rw [BitVec.getMsbD_reverse, UInt8.toBitVec_ofNat', BitVec.getLsbD_ofNat, decide_eq_true hlt,
    Bool.true_and]

theorem bits_u32ToLe (n : UInt32) : bits (u32ToLe n) = Crc.bitsOf n.toBitVec.reverse := by
  have hbyte (k : ℕ) (i : ℕ) : (n.toNat / 2 ^ k).testBit i = n.toNat.testBit (k + i) := by
    rw [Nat.testBit_div_two_pow, Nat.add_comm]
  have h1 := hbyte 8
  have h2 := hbyte 16
  have h3 := hbyte 24
  simp only [Nat.reducePow] at h1 h2 h3
  have hbit (i : ℕ) : n.toBitVec.reverse.getMsbD i = n.toNat.testBit i := by
    rw [BitVec.getMsbD_reverse]
    rfl
  simp only [u32ToLe, bits, List.flatMap_cons, List.flatMap_nil, byteBits_ofNat, Crc.bitsOf,
    List.append_nil]
  rw [List.map_congr_left fun i _ => hbit i]
  simp [List.range, List.range.loop, h1, h2, h3]

/-- **A frame empties the register.** -/
theorem register_frameOf {lora : ModuleLoRa} (hcrc : lora.crc = crcUnit) (p : LoRaPacket) :
    register (lora.frameOf p) = 0#32 := by
  have hcheck : bits (u32ToLe (lora.crc p.body)) = Crc.bitsOf (register p.body) := by
    rw [hcrc, bits_u32ToLe]
    exact congrArg Crc.bitsOf (BitVec.reverse_reverse_eq)
  rw [ModuleLoRa.frameOf, register, bits_append, Crc.feed_append, hcheck]
  exact Crc.feed_bitsOf (register p.body)

/-! ## Damage -/

/-- Damage that the air may do to a frame: within 32 bits, or to any two.  Bits are counted
in the order in which the unit takes them, of each byte the lowest first; counted the
other way, a burst of 26 bits may spread over more than 32 of these. -/
def Damaged (frame frame' : Bytes) : Prop :=
  ∃ pattern, pattern.length = (bits frame).length ∧ bits frame' = Crc.damage pattern (bits frame) ∧
    (Crc.Burst 32 pattern ∨ Crc.Pair pattern)

theorem pair_caught {k : ℕ} (h : k < 1023) :
    Crc.feed crcPolynomial crcPolynomial (List.replicate k false) ≠ BitVec.twoPow 32 (32 - 1) :=
  Crc.feed_ne_of_avoids (by decide +kernel : Crc.avoids _ _ 1023 crcPolynomial = true) k h

theorem register_damaged {frame frame' : Bytes} (hlen : frame.length ≤ packetLength)
    (hd : Damaged frame frame') : register frame' ≠ register frame := by
  obtain ⟨pattern, hp, hbits, hkind⟩ := hd
  have hodd : crcPolynomial.getLsbD 0 = true := by decide
  have hpattern : Crc.feed crcPolynomial 0#32 pattern ≠ 0#32 := by
    rcases hkind with hburst | hpair
    · exact Crc.feed_burst hodd hburst
    · refine Crc.feed_pair hodd hpair ?_ fun k hk => pair_caught hk
      rw [hp, length_bits]
      simp only [packetLength] at hlen
      omega
  rw [register, hbits, Crc.feed_damage hp]
  intro he
  exact hpattern (BitVec.xor_right_inj (register frame) |>.mp (he.trans BitVec.xor_zero.symm))

/-- What a radio takes in is not a damaged frame of another. -/
theorem not_damaged {lora receiver : ModuleLoRa} (hcrc : lora.crc = crcUnit)
    (hcrc' : receiver.crc = crcUnit) {p q : LoRaPacket} {frame : Bytes}
    (h : receiver.receive frame = .ok q) : ¬ Damaged (lora.frameOf p) frame := by
  intro hd
  apply register_damaged (lora.length_frameOf_le p) hd
  rw [(ModuleLoRa.receive_eq_ok.mp h).2, register_frameOf hcrc', register_frameOf hcrc]

/-- **Damaged frames are rejected**, by every radio with the unit: where two bits are
flipped, or some within 32 in the order of the unit. -/
theorem damaged_rejected (lora receiver : ModuleLoRa) (hcrc : lora.crc = crcUnit)
    (hcrc' : receiver.crc = crcUnit) (p : LoRaPacket) (frame : Bytes)
    (hd : Damaged (lora.frameOf p) frame) : ∃ e, receiver.receive frame = .error e := by
  cases hr : receiver.receive frame with
  | error e => exact ⟨e, rfl⟩
  | ok q => exact absurd hd (not_damaged hcrc hcrc' hr)

/-- A soil request from the gateway with the lowest bit of its payload flipped. -/
theorem damaged_rejected_request :
    let lora : ModuleLoRa := { ModuleLoRa.quiet 1 with crc := crcUnit }
    let request : LoRaPacket := ⟨1, 3, .soilSensor, ⟨[0], by decide⟩⟩
    ∃ e, lora.receive ((lora.frameOf request).set 5 1) = .error e := by
  intro lora request
  refine damaged_rejected lora lora rfl rfl request _ ?_
  refine ⟨List.replicate 40 false ++ [true] ++ List.replicate 39 false, by decide +kernel,
    by decide +kernel, Or.inl ⟨40, [true], 39, rfl, by decide, by decide⟩⟩

end LoraModuleFw.Lora
