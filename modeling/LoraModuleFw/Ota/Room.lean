import LoraModuleFw.Ota.Outstanding

/-! A session of the gateway that has room: nothing a node answers makes it panic. -/

namespace LoraModuleFw.Ota.OtaProducer

open Lora

/-- A session that can take any response: its block size is not zero, and what is
outstanding fits a status for the host. -/
structure Roomy (p : OtaProducer) : Prop where
  sized : p.params.blockSize ≠ 0
  room : p.notAckedIndexes.toList.length ≤ 64

/-- The block is outstanding already, or there is a place for it. -/
def Admits (p : OtaProducer) (index : UInt16) : Prop :=
  index ∈ p.notAckedIndexes.toList ∨ p.notAckedIndexes.toList.length < 64

instance (p : OtaProducer) (index : UInt16) : Decidable (p.Admits index) :=
  inferInstanceAs (Decidable (_ ∨ _))

variable {p : OtaProducer}

theorem roomy_new {params : OtaInitPacket} (h : params.blockSize ≠ 0) (destination : UInt32) :
    (new params destination).Roomy := ⟨h, Nat.zero_le _⟩

/-- A response only takes blocks off the list. -/
theorem Roomy.processResponse (h : p.Roomy) (m : OtaPacket) :
    ∃ r p', p.processResponse m = some (r, p') ∧ p'.Roomy := by
  cases hr : p.processResponse m with
  | none =>
    obtain ⟨_, status, rfl, hs⟩ := processResponse_eq_none.mp hr
    have hle := length_acknowledge_le p.notAckedIndexes status.receivedIndexes.toList
    have hroom := h.room
    rcases processStatus_eq_none.mp hs with hdiv | hfull
    · exact absurd (allAcked_eq_none.mp hdiv).2 h.sized
    · change 64 < (acknowledge p.notAckedIndexes status.receivedIndexes.toList).toList.length
        at hfull
      omega
  | some x =>
    obtain ⟨r, p'⟩ := x
    refine ⟨r, p', rfl, by rw [(processResponse_answered hr).params]; exact h.sized, ?_⟩
    rcases processResponse_marks hr with ⟨hn, _⟩ | ⟨status, _, hn, _⟩
    · rw [hn]
      exact h.room
    · rw [hn]
      exact (length_acknowledge_le _ _).trans h.room

theorem Roomy.processResponseRaw (h : p.Roomy) (packet : LoRaPacket) :
    ∃ r p', p.processResponseRaw packet = some (r, p') ∧ p'.Roomy := by
  unfold OtaProducer.processResponseRaw
  cases fromBytes packet.payload with
  | none => exact ⟨_, p, rfl, h⟩
  | some m => exact h.processResponse m

/-- Whatever answers a request. -/
theorem Roomy.request (h : p.Roomy) (lora : ModuleLoRa) (m : OtaPacket) :
    ∃ r p' lora', p.request lora m = some (r, p', lora') ∧ p'.Roomy := by
  obtain ⟨⟨res, l⟩, hloop⟩ := loraTransmitUntilResponse_isSome lora p.destinationAddress m
    (show 10 ≠ 0 by decide)
  unfold OtaProducer.request
  rw [hloop]
  cases res with
  | error e => exact ⟨_, p, l, rfl, h⟩
  | ok resp =>
    obtain ⟨r, p', hr, hp'⟩ := h.processResponse resp
    exact ⟨r, p', l, Option.map_eq_some_iff.mpr ⟨_, hr, rfl⟩, hp'⟩

theorem Roomy.continueDownload (h : p.Roomy) (lora : ModuleLoRa) (data : OtaDataPacket)
    (hroom : p.Admits data.index) :
    ∃ r p' lora', p.continueDownload lora data = some (r, p', lora') ∧ p'.Roomy := by
  cases ht : (loraTransmit lora p.destinationAddress (.data data)).1 with
  | error e => exact ⟨_, p, _, continueDownload_refused ht, h⟩
  | ok u =>
    rw [continueDownload_taken ht]
    cases hr : p.recordSent data.index with
    | none =>
      obtain ⟨hnew, hfull⟩ := recordSent_eq_none.mp hr
      rcases hroom with hin | hlt
      · exact absurd hin hnew
      · omega
    | some p' =>
      obtain ⟨hfields, hlist⟩ := recordSent_eq_some hr
      refine ⟨_, p', _, rfl, by rw [hfields]; exact h.sized, ?_⟩
      rw [hlist]
      split
      · exact h.room
      · next hnew =>
        have hlt := hroom.resolve_left hnew
        rw [List.length_append, List.length_singleton]
        omega

end LoraModuleFw.Ota.OtaProducer
