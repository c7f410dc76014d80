import LoraModuleFw.Frames
import LoraModuleFw.ModuleNode.SoilSensor
import LoraModuleFw.ModuleGateway.Gateway

/-! Soil reports from the node's samples to the gateway's host. -/

namespace LoraModuleFw.ModuleGateway

open Lora Ota Schema ModuleNode SoilSensor

/-- The value of a sample in a report. -/
def moisture : SoilSensorResult → UInt16
  | .timeout => 0
  | .ok d => d

theorem reportBytes_eq (r : SoilSensorResult) :
    [(reportBytes r).1, (reportBytes r).2] = u16ToLe (moisture r) := by
  cases r <;> rfl

theorem length_flatMap_u16ToLe (values : List UInt16) :
    (values.flatMap u16ToLe).length = 2 * values.length := by
  induction values with
  | nil => rfl
  | cons v values ih =>
    rw [List.flatMap_cons, List.length_append, ih, List.length_cons]
    change 2 + 2 * values.length = _
    omega

/-- Eight bytes fit, so no `unwrap` fails. -/
theorem pushSamples_eq_some {results : List SoilSensorResult} {payload : Payload}
    (h : payload.toList.length + 2 * results.length ≤ 119) :
    ∃ payload', pushSamples results payload = some payload' ∧
      payload'.toList = payload.toList ++ results.flatMap fun r => u16ToLe (moisture r) := by
  induction results generalizing payload with
  | nil => exact ⟨payload, rfl, (List.append_nil _).symm⟩
  | cons r results ih =>
    rw [List.length_cons] at h
    obtain ⟨p₁, h₁, hl₁⟩ := Heapless.Vec.push_of_lt (v := payload) (reportBytes r).1
      (show payload.toList.length < 119 by omega)
    have hlen₁ : p₁.toList.length = payload.toList.length + 1 := by
      rw [hl₁, List.length_append, List.length_singleton]
    obtain ⟨p₂, h₂, hl₂⟩ := Heapless.Vec.push_of_lt (v := p₁) (reportBytes r).2
      (show p₁.toList.length < 119 by omega)
    have hlen₂ : p₂.toList.length = p₁.toList.length + 1 := by
      rw [hl₂, List.length_append, List.length_singleton]
    obtain ⟨p', hrun, hl'⟩ := ih (show p₂.toList.length + 2 * results.length ≤ 119 by omega)
    refine ⟨p', ?_, ?_⟩
    · unfold pushSamples
      rw [h₁, Option.bind_some, h₂, Option.bind_some, hrun]
    · rw [hl', hl₂, hl₁, List.flatMap_cons, ← reportBytes_eq]
      simp only [List.append_assoc, List.cons_append, List.nil_append]

/-- A report has the four values and nothing else. -/
theorem soilReport_eq_some (results : Vector SoilSensorResult 4) (destination : UInt32) :
    ∃ resp, soilReport results destination = some resp ∧ resp.packetType = .soilSensor ∧
      resp.payload.toList = (results.map moisture).toList.flatMap u16ToLe := by
  have hlen : (LoRaPacket.new destination .soilSensor).payload.toList.length +
      2 * results.toList.length ≤ 119 := by
    rw [Vector.length_toList]
    exact (by decide : 0 + 2 * 4 ≤ 119)
  obtain ⟨payload, hpush, hp⟩ := pushSamples_eq_some hlen
  refine ⟨{ LoRaPacket.new destination .soilSensor with payload }, ?_, rfl, ?_⟩
  · exact congrArg (Option.map _) hpush
  · rw [Vector.toList_map, List.flatMap_map]
    exact hp

/-- Once the channels are averaged, the report goes out. -/
theorem measureAndTransmit_isSome_iff (outcomes : Fin 4 → Vector SoilSensorResult samples)
    (lora : ModuleLoRa) (destination : UInt32) :
    (soilSensorMeasureAndTransmit outcomes lora destination).isSome ↔
      (sampleAllAverage outcomes).isSome := by
  unfold soilSensorMeasureAndTransmit
  cases sampleAllAverage outcomes with
  | none => exact Iff.rfl
  | some results =>
    obtain ⟨resp, hresp, _⟩ := soilReport_eq_some results destination
    rw [Option.bind_some, hresp]
    exact Iff.rfl

namespace Gateway

/-- The values are read where they were written. -/
theorem moistureAt_flatMap (values : List UInt16) (rest : Postcard.Bytes) {i : Nat}
    (h : i < values.length) :
    moistureAt (values.flatMap u16ToLe ++ rest) i = some values[i] := by
  induction values generalizing i with
  | nil => exact absurd h (Nat.not_lt_zero i)
  | cons v values ih =>
    cases i with
    | zero => exact congrArg some (u16FromLe_toLe v)
    | succ i => exact ih (Nat.lt_of_succ_lt_succ h)

/-- The report of a payload that starts with four values. -/
theorem dispatch_values {q : LoRaPacket} {values : Vector UInt16 4} {rest : Postcard.Bytes}
    (ht : q.packetType = .soilSensor)
    (hp : q.payload.toList = values.toList.flatMap u16ToLe ++ rest) (g : Gateway)
    (lora : ModuleLoRa) :
    g.dispatch lora q = some (some (.soilSensorMoisture values), g, lora) := by
  have hvalue : ∀ i (hi : i < 4), moistureAt q.payload.toList i = some values[i] := by
    intro i hi
    rw [hp]
    exact moistureAt_flatMap values.toList rest (by rw [Vector.length_toList]; exact hi)
  simp only [dispatch, ht, hvalue 0 (by decide), hvalue 1 (by decide), hvalue 2 (by decide),
    hvalue 3 (by decide), vector_four]

/-- A payload of less than eight bytes makes the task panic. -/
theorem dispatch_short {q : LoRaPacket} (ht : q.packetType = .soilSensor)
    (hlen : q.payload.toList.length < 8) (g : Gateway) (lora : ModuleLoRa) :
    g.dispatch lora q = none := by
  have hnone : moistureAt q.payload.toList 3 = none := by
    have hend : q.payload.toList[2 * 3 + 1]? = none := List.getElem?_eq_none (by omega)
    unfold moistureAt
    rw [hend]
    cases q.payload.toList[2 * 3]? <;> rfl
  simp only [dispatch, ht, hnone]
  split
  · next h => cases h
  · rfl

/-- The packet is dropped, or four values from its payload are reported. -/
def Handles (g : Gateway) (lora : ModuleLoRa) (q : LoRaPacket) : Prop :=
  g.dispatch lora q = some (none, g, lora) ∨
    ∃ (values : Vector UInt16 4) (rest : Postcard.Bytes),
      q.payload.toList = values.toList.flatMap u16ToLe ++ rest ∧
        g.dispatch lora q = some (some (.soilSensorMoisture values), g, lora)

/-- Bytes in pairs are values. -/
theorem exists_values (n : Nat) {l : Postcard.Bytes} (h : 2 * n ≤ l.length) :
    ∃ (values : List UInt16) (rest : Postcard.Bytes), values.length = n ∧
      l = values.flatMap u16ToLe ++ rest := by
  induction n generalizing l with
  | zero => exact ⟨[], l, rfl, rfl⟩
  | succ n ih =>
    rcases l with _ | ⟨b0, _ | ⟨b1, l⟩⟩
    · exact absurd h (by rw [List.length_nil]; omega)
    · exact absurd h (by rw [List.length_singleton]; omega)
    · rw [List.length_cons, List.length_cons] at h
      obtain ⟨values, rest, hlen, rfl⟩ := ih (show 2 * n ≤ l.length by omega)
      refine ⟨u16FromLe b0 b1 :: values, rest, congrArg (· + 1) hlen, ?_⟩
      rw [List.flatMap_cons, u16ToLe_fromLe]
      rfl

theorem handles_iff {q : LoRaPacket} (ht : q.packetType = .soilSensor) (g : Gateway)
    (lora : ModuleLoRa) : g.Handles lora q ↔ 8 ≤ q.payload.toList.length := by
  constructor
  · intro h
    by_contra hlen
    have hpanic := dispatch_short ht (Nat.lt_of_not_le hlen) g lora
    rcases h with h | ⟨_, _, _, h⟩
    · rw [hpanic] at h
      cases h
    · rw [hpanic] at h
      cases h
  · intro hlen
    obtain ⟨values, rest, hfour, hp⟩ := exists_values 4 hlen
    let v : Vector UInt16 4 := ⟨values.toArray, hfour⟩
    have hv : q.payload.toList = v.toList.flatMap u16ToLe ++ rest := hp
    exact Or.inr ⟨v, rest, hv, dispatch_values ht hv g lora⟩

end Gateway

/-- **Soil reports** come through the link with their values, and the gateway handles
exactly the packets with at least eight bytes of payload. -/
theorem soil_reports (g : Gateway) (lora : ModuleLoRa) :
    (∀ (results : Vector SoilSensorResult 4) (destination address : UInt32),
      ∃ resp bytes q, soilReport results destination = some resp ∧
        LoRaPacket.serialize { resp with source := address } (packetLength - checksumLength) =
          some bytes ∧
        LoRaPacket.parse bytes = some q ∧
        g.dispatch lora q = some (some (.soilSensorMoisture (results.map moisture)), g, lora)) ∧
    ∀ bytes q, LoRaPacket.parse bytes = some q → q.packetType = .soilSensor →
      (g.Handles lora q ↔ 8 ≤ q.payload.toList.length) := by
  refine ⟨fun results destination address => ?_, fun _ q _ ht => Gateway.handles_iff ht g lora⟩
  obtain ⟨resp, hresp, ht, hp⟩ := soilReport_eq_some results destination
  let sent : LoRaPacket := { resp with source := address }
  have hlen : sent.payload.toList.length = 8 := by
    change resp.payload.toList.length = 8
    rw [hp, length_flatMap_u16ToLe, Vector.length_toList]
  refine ⟨resp, sent.body, sent.cut, hresp, ?_, ?_, ?_⟩
  · rw [LoRaPacket.serialize_eq, if_neg]
    rw [hlen]
    decide
  · rw [LoRaPacket.parse_body, if_neg]
    rw [← List.length_eq_zero_iff, hlen]
    decide
  · have hvalues : sent.cut.payload.toList = (results.map moisture).toList.flatMap u16ToLe ++ [] :=
      hp.trans (List.append_nil _).symm
    exact Gateway.dispatch_values ht hvalues g lora

/-- The gateway's own request has a payload of one byte. -/
theorem soil_reports_request :
    let request : LoRaPacket := ⟨1, 3, .soilSensor, ⟨[0], by decide⟩⟩
    LoRaPacket.parse request.body = some request ∧ ¬ Gateway.new.Handles (.quiet 1) request := by
  intro request
  refine ⟨by decide, ?_⟩
  rw [Gateway.handles_iff rfl]
  decide

end LoraModuleFw.ModuleGateway
