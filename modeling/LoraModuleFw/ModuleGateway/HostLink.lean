import LoraModuleFw.Host
import LoraModuleFw.Schema

/-! The two ends of `main` in `module-gateway/src/main.rs`: frames from the host
become packets, and packets for the host become frames. -/

namespace LoraModuleFw.ModuleGateway

open Postcard Schema Host

def uartBufferSize : Nat := 128
def txBufferSize : Nat := 256

/-- `postcard::to_slice` into a buffer of the given capacity. -/
def toSlice (p : GatewayPacket) (capacity : Nat) : Option Bytes :=
  if (GatewayPacket.wire.encode p).length ≤ capacity then some (GatewayPacket.wire.encode p)
  else none

/-- What `main` makes of what the UART delivers; it drops what is in error. -/
def readHostPacket (received : Except UartError Bytes) : Option (Option HostPacket) :=
  (ModuleHost.read received uartBufferSize).map fun
    | .ok bytes => (HostPacket.wire.decode bytes).map Prod.fst
    | .error _ => none

/-- The frame that `main` sends for a packet; a packet in error is dropped. -/
def writeGatewayPacket (p : GatewayPacket) : Option (Option Bytes) :=
  match toSlice p txBufferSize with
  | none => some none
  | some b => (ModuleHost.write b).map fun
    | .ok frame => some frame
    | .error _ => none

theorem decode_all {α : Type} (w : Wire α) (a : α) :
    (w.decode (w.encode a)).map Prod.fst = some a := by
  have h := w.decode_encode a []
  rw [List.append_nil] at h
  rw [h]
  rfl

theorem length_frame_lt {d : Bytes} {n : Nat} (hd : d.length ≤ n) (hn : 2 * n < 512) :
    (hostStuffing.stuff d).length < hostUartBufferSize := by
  have h : (hostStuffing.stuff d).length ≤ 2 * d.length := hostStuffing.length_stuff_le d
  exact Nat.lt_of_le_of_lt (Nat.le_trans h (Nat.mul_le_mul_left 2 hd)) hn

theorem readHostPacket_frame (p : HostPacket) :
    readHostPacket (.ok (hostStuffing.stuff (HostPacket.wire.encode p) ++ [255])) =
      some (some p) := by
  have hlen := p.length_encode.2
  have hfits : (HostPacket.wire.encode p).length < uartBufferSize := by
    simp only [uartBufferSize]
    omega
  simp only [readHostPacket, ModuleHost.read, maxvalDecode_frame hfits, Option.map_some,
    List.take_left, decode_all]

/-- **Every message of the host link fits and survives the framing**, in both
directions and with the buffers of either end. -/
theorem host_link_round_trip :
    (∀ p : HostPacket, ∃ frame,
      maxvalEncode (HostPacket.wire.encode p) hostUartBufferSize 254 = some (.ok frame) ∧
      frame.length ≤ hostUartBufferSize ∧ readHostPacket (.ok frame) = some (some p)) ∧
    ∀ p : GatewayPacket, ∃ bytes frame,
      toSlice p txBufferSize = some bytes ∧
      maxvalEncode bytes hostUartBufferSize 254 = some (.ok frame) ∧
      writeGatewayPacket p = some (some frame) ∧ frame.length ≤ hostUartBufferSize ∧
      ∀ capacity, bytes.length < capacity → ∃ out,
        maxvalDecode frame capacity 254 = some (.ok (bytes.length, out)) ∧
        (GatewayPacket.wire.decode (out.take bytes.length)).map Prod.fst = some p := by
  constructor
  · intro p
    obtain ⟨hpos, hle⟩ := p.length_encode
    have hfits := length_frame_lt hle (by decide)
    refine ⟨_, maxvalEncode_of_lt (List.length_pos_iff.mp hpos) hfits, ?_, readHostPacket_frame p⟩
    rw [List.length_append, List.length_singleton]
    exact hfits
  · intro p
    obtain ⟨hpos, hle⟩ := p.length_encode
    have hfits := length_frame_lt hle (by decide)
    have hslice : toSlice p txBufferSize = some (GatewayPacket.wire.encode p) :=
      if_pos (Nat.le_trans hle (by decide))
    have hframe := maxvalEncode_of_lt (List.length_pos_iff.mp hpos) hfits
    refine ⟨_, _, hslice, hframe, ?_, ?_, ?_⟩
    · simp only [writeGatewayPacket, hslice, ModuleHost.write, hframe, Option.map_some]
    · rw [List.length_append, List.length_singleton]
      exact hfits
    · intro capacity hcapacity
      refine ⟨_, maxvalDecode_frame hcapacity, ?_⟩
      rw [List.take_left, decode_all]

end LoraModuleFw.ModuleGateway
