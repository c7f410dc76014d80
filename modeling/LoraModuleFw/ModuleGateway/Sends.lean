import LoraModuleFw.Ota.Requests
import LoraModuleFw.ModuleGateway.Opening

/-! What the gateway puts on the air: only what the host asks for.  And what it
tells the host while it carries that out. -/

namespace LoraModuleFw

open Lora Ota Schema

namespace Ota

theorem OtaProducer.request_sent {p p' : OtaProducer} {lora lora' : ModuleLoRa} {m : OtaPacket}
    {r : Except OtaError GatewayPacket} (h : p.request lora m = some (r, p', lora')) :
    ∃ payload, toVec m = some payload ∧ ∀ t ∈ lora'.sent, t ∈ lora.sent ∨
      t = transmissionOf { LoRaPacket.new p.destinationAddress .ota with payload } lora := by
  obtain ⟨payload, hp⟩ := toVec_isSome m
  refine ⟨payload, hp, ?_⟩
  rcases request_cases h with ⟨_, hloop, _⟩ | ⟨_, hloop, _⟩
  · rw [loraTransmitUntilResponse_eq hp] at hloop
    exact transmitLoop_sent hloop
  · rw [loraTransmitUntilResponse_eq hp] at hloop
    exact transmitLoop_sent hloop

/-- No response of a peer makes a soil report. -/
theorem OtaProducer.processResponse_told {p p' : OtaProducer} {m : OtaPacket}
    {ret : GatewayPacket} (h : p.processResponse m = some (.ok ret, p')) (v : Vector UInt16 4) :
    ret ≠ .soilSensorMoisture v := by
  rcases processResponse_cases h with
    ⟨hr, _⟩ | ⟨_, _, hr, _⟩ | ⟨status, _, _, hs⟩ | ⟨hm, _⟩
  · cases hr
  · cases hr
    nofun
  · obtain ⟨finished, _, hs⟩ := Option.bind_eq_some_iff.mp hs
    cases finished with
    | true =>
      cases hs
      nofun
    | false =>
      obtain ⟨s, _, he⟩ := Option.map_eq_some_iff.mp hs
      cases he
      nofun
  · rcases hm with rfl | rfl
    · cases h
      nofun
    · cases h
      nofun

theorem OtaProducer.request_told {p p' : OtaProducer} {lora lora' : ModuleLoRa} {m : OtaPacket}
    {ret : GatewayPacket} (h : p.request lora m = some (.ok ret, p', lora'))
    (v : Vector UInt16 4) : ret ≠ .soilSensorMoisture v := by
  rcases request_cases h with ⟨_, _, hr, _⟩ | ⟨_, _, hr⟩
  · cases hr
  · exact processResponse_told hr v

end Ota

namespace ModuleGateway

namespace Gateway

/-- The packets that a host packet makes the gateway transmit. -/
inductive Sends (g : Gateway) : HostPacket → LoRaPacket → Prop
  | init (request : OtaInitRequest) {payload : Payload} :
      toVec (.init (initPacket request)) = some payload →
      Sends g (.otaInit request) { LoRaPacket.new request.destinationAddress .ota with payload }
  | data (data : OtaData) {p : OtaProducer} {payload : Payload} : g.ota = some p →
      toVec (.data ⟨data.index, data.data⟩) = some payload →
      Sends g (.otaData data) { LoRaPacket.new p.destinationAddress .ota with payload }
  | done {p : OtaProducer} {payload : Payload} : g.ota = some p → toVec .done = some payload →
      Sends g .otaDoneRequest { LoRaPacket.new p.destinationAddress .ota with payload }
  | abort {p : OtaProducer} {payload : Payload} : g.ota = some p → toVec .abort = some payload →
      Sends g .otaAbortRequest { LoRaPacket.new p.destinationAddress .ota with payload }
  | soil (request : SoilSensorRequest) {payload : Payload} : payload.toList = [0] →
      Sends g (.soilSensor request)
        { LoRaPacket.new request.destinationAddress .soilSensor with payload }

theorem forward_lora {g g' : Gateway} {lora : ModuleLoRa}
    {req : Option (Except OtaError GatewayPacket × OtaProducer × ModuleLoRa)}
    {r : Except Error (Option GatewayPacket)} (h : g.forward req = some (r, g', lora)) :
    ∃ res p, req = some (res, p, lora) := by
  obtain ⟨⟨res, p, l⟩, hr, he⟩ := Option.map_eq_some_iff.mp h
  cases res with
  | ok ret =>
    cases he
    exact ⟨_, _, hr⟩
  | error e =>
    cases he
    exact ⟨_, _, hr⟩

/-- **Only what the host asks for.** -/
theorem processHostMessage_sent {g g' : Gateway} {lora lora' : ModuleLoRa} {packet : HostPacket}
    {r : Except Error (Option GatewayPacket)}
    (h : g.processHostMessage lora packet = some (r, g', lora')) :
    ∀ t ∈ lora'.sent, t ∈ lora.sent ∨ ∃ q, g.Sends packet q ∧ t = transmissionOf q lora := by
  have hrequest {p : OtaProducer} {m : OtaPacket} {res : Except OtaError GatewayPacket}
      {p' : OtaProducer} (hreq : p.request lora m = some (res, p', lora'))
      (hs : ∀ payload, toVec m = some payload →
        g.Sends packet { LoRaPacket.new p.destinationAddress .ota with payload }) :
      ∀ t ∈ lora'.sent, t ∈ lora.sent ∨ ∃ q, g.Sends packet q ∧ t = transmissionOf q lora := by
    obtain ⟨payload, hp, hsent⟩ := OtaProducer.request_sent hreq
    exact fun t ht => (hsent t ht).imp_right fun he => ⟨_, hs payload hp, he⟩
  cases packet with
  | pingRequest =>
    cases h
    exact fun t ht => Or.inl ht
  | otaInit init =>
    rcases otaInit_eq_some.mp h with ⟨_, res, hi, _⟩ | ⟨_, _, _, rfl⟩
    · obtain ⟨⟨res', p, l⟩, hreq, he⟩ := Option.map_eq_some_iff.mp hi
      have hl : l = lora' := by cases res' <;> cases he <;> rfl
      subst hl
      exact hrequest hreq fun payload hp => .init init hp
    · exact fun t ht => Or.inl ht
  | otaData data =>
    obtain ⟨⟨res, g₁, l⟩, hc, he⟩ := Option.map_eq_some_iff.mp h
    have hl : l = lora' := by cases res <;> cases he <;> rfl
    subst hl
    unfold continueDownload at hc
    cases ho : g.ota with
    | none =>
      simp only [ho] at hc
      cases hc
      exact fun t ht => Or.inl ht
    | some p =>
      simp only [ho] at hc
      obtain ⟨⟨res', p', l'⟩, hp, he'⟩ := Option.map_eq_some_iff.mp hc
      have hl : l' = l := by cases res' <;> cases he' <;> rfl
      subst hl
      rw [OtaProducer.continueDownload_lora hp]
      obtain ⟨payload, hv, hs⟩ :=
        loraTransmit_sent lora p.destinationAddress (.data ⟨data.index, data.data⟩)
      intro t ht
      rcases hs with hs | hs
      · rw [hs] at ht
        exact Or.inl ht
      · rw [hs] at ht
        exact (List.mem_append.mp ht).imp_right fun he =>
          ⟨_, .data data ho hv, List.mem_singleton.mp he⟩
  | otaDoneRequest =>
    simp only [processHostMessage] at h
    split at h
    · next p ho =>
      obtain ⟨res, p', hreq⟩ := forward_lora h
      exact hrequest hreq fun payload hp => .done ho hp
    · cases h
      exact fun t ht => Or.inl ht
  | otaAbortRequest =>
    simp only [processHostMessage] at h
    split at h
    · next p ho =>
      obtain ⟨res, p', hreq⟩ := forward_lora h
      exact hrequest hreq fun payload hp => .abort ho hp
    · cases h
      exact fun t ht => Or.inl ht
  | otaGetStatus =>
    simp only [processHostMessage] at h
    split at h
    · obtain ⟨s, _, he⟩ := Option.map_eq_some_iff.mp h
      cases he
      exact fun t ht => Or.inl ht
    · cases h
      exact fun t ht => Or.inl ht
  | soilSensor req =>
    unfold processHostMessage at h
    obtain ⟨payload, hpush, he⟩ := Option.map_eq_some_iff.mp h
    have hpayload : payload.toList = [0] := (Heapless.Vec.push_eq_some.mp hpush).2
    have hsent := lora.transmit_cases { LoRaPacket.new req.destinationAddress .soilSensor with
      payload }
    generalize lora.transmit { LoRaPacket.new req.destinationAddress .soilSensor with payload } =
      sent at he hsent
    obtain ⟨res, l⟩ := sent
    have hl : l = lora' := by cases res <;> cases he <;> rfl
    subst hl
    intro t ht
    rcases hsent with ⟨_, hs⟩ | ⟨_, _, hs⟩
    · rw [hs] at ht
      exact (List.mem_append.mp ht).imp_right fun he =>
        ⟨_, .soil req hpayload, List.mem_singleton.mp he⟩
    · rw [hs] at ht
      exact Or.inl ht

/-- A session that is opened is with the node of the request. -/
theorem initDownload_destination {g g' : Gateway} {lora lora' : ModuleLoRa}
    {init : OtaInitRequest} {ret : GatewayPacket}
    (h : g.initDownload lora init = some (.ok ret, g', lora')) {p : OtaProducer}
    (hp : g'.ota = some p) : p.destinationAddress = init.destinationAddress := by
  obtain ⟨⟨res, q, l⟩, hr, he⟩ := Option.map_eq_some_iff.mp h
  cases res <;> cases he
  cases hp
  exact (OtaProducer.request_answered hr).destination

theorem forward_told {g g' : Gateway} {lora lora' : ModuleLoRa} {p : OtaProducer} {m : OtaPacket}
    {r : Except Error (Option GatewayPacket)}
    (h : g.forward (p.request lora m) = some (r, g', lora')) (v : Vector UInt16 4) :
    r ≠ .ok (some (.soilSensorMoisture v)) := by
  obtain ⟨⟨res, p', l⟩, hreq, he⟩ := Option.map_eq_some_iff.mp h
  cases res with
  | error e =>
    cases he
    nofun
  | ok ret =>
    cases he
    intro hr
    cases hr
    exact OtaProducer.request_told hreq v rfl

/-- A host packet is not answered with a soil report. -/
theorem processHostMessage_told {g g' : Gateway} {lora lora' : ModuleLoRa} {packet : HostPacket}
    {r : Except Error (Option GatewayPacket)}
    (h : g.processHostMessage lora packet = some (r, g', lora')) (v : Vector UInt16 4) :
    r ≠ .ok (some (.soilSensorMoisture v)) := by
  cases packet with
  | pingRequest =>
    cases h
    intro hr
    cases hr
  | otaInit init =>
    rcases otaInit_eq_some.mp h with ⟨_, res, hi, rfl⟩ | ⟨_, rfl, _⟩
    · obtain ⟨⟨res', p, l⟩, hreq, he⟩ := Option.map_eq_some_iff.mp hi
      cases res' with
      | error e =>
        cases he
        intro hr
        cases hr
      | ok ret =>
        cases he
        intro hr
        cases hr
        exact OtaProducer.request_told hreq v rfl
    · intro hr
      cases hr
  | otaData data =>
    obtain ⟨⟨res, g₁, l⟩, _, he⟩ := Option.map_eq_some_iff.mp h
    cases res <;> cases he <;> intro hr <;> cases hr
  | otaDoneRequest =>
    simp only [processHostMessage] at h
    split at h
    · exact forward_told h v
    · cases h
      intro hr
      cases hr
  | otaAbortRequest =>
    simp only [processHostMessage] at h
    split at h
    · exact forward_told h v
    · cases h
      intro hr
      cases hr
  | otaGetStatus =>
    simp only [processHostMessage] at h
    split at h
    · obtain ⟨s, _, he⟩ := Option.map_eq_some_iff.mp h
      cases he
      intro hr
      cases hr
    · cases h
      intro hr
      cases hr
  | soilSensor req =>
    unfold processHostMessage at h
    obtain ⟨payload, _, he⟩ := Option.map_eq_some_iff.mp h
    generalize lora.transmit { LoRaPacket.new req.destinationAddress .soilSensor with payload } =
      sent at he
    obtain ⟨res, l⟩ := sent
    cases res <;> cases he <;> intro hr <;> cases hr

theorem processPeerMessage_told {g g' : Gateway} {lora lora' : ModuleLoRa} {p : LoRaPacket}
    {r : Except Error (Option GatewayPacket)}
    (h : g.processPeerMessage lora p = some (r, g', lora')) :
    lora' = lora ∧ ∀ v, r ≠ .ok (some (.soilSensorMoisture v)) := by
  unfold processPeerMessage at h
  cases ho : g.ota with
  | none =>
    simp only [ho] at h
    cases h
    exact ⟨rfl, nofun⟩
  | some ota =>
    simp only [ho] at h
    obtain ⟨⟨res, ota'⟩, hraw, he⟩ := Option.map_eq_some_iff.mp h
    cases res with
    | error e =>
      cases he
      exact ⟨rfl, nofun⟩
    | ok ret =>
      cases he
      refine ⟨rfl, fun v hr => ?_⟩
      cases hr
      unfold OtaProducer.processResponseRaw at hraw
      split at hraw
      · cases hraw
      · exact OtaProducer.processResponse_told hraw v rfl

/-- What a packet from the air does to the gateway: an OTA message goes to the session,
and only a soil report is passed on as one. -/
theorem dispatch_cases {g g' : Gateway} {lora lora' : ModuleLoRa} {p : LoRaPacket}
    {r : Option GatewayPacket} (h : g.dispatch lora p = some (r, g', lora')) :
    lora' = lora ∧
      (p.packetType = .ota ∧ g.step (.peer lora p) = some g' ∧
          (∀ v, r ≠ some (.soilSensorMoisture v)) ∨
        p.packetType = .soilSensor ∧ g' = g ∨
        p.packetType = .ping ∧ g' = g ∧ r = none) := by
  unfold dispatch at h
  split at h
  · next ht =>
    obtain ⟨⟨res, g₁, l⟩, hp, he⟩ := Option.map_eq_some_iff.mp h
    obtain ⟨rfl, hnot⟩ := processPeerMessage_told hp
    have hstep : g.step (.peer l p) = some g₁ := Option.map_eq_some_iff.mpr ⟨_, hp, rfl⟩
    cases res with
    | error e =>
      cases he
      exact ⟨rfl, Or.inl ⟨ht, hstep, nofun⟩⟩
    | ok ret =>
      cases he
      exact ⟨rfl, Or.inl ⟨ht, hstep, fun v hr => hnot v (congrArg Except.ok hr)⟩⟩
  · next ht =>
    split at h
    · cases h
      exact ⟨rfl, Or.inr (Or.inl ⟨ht, rfl⟩)⟩
    · cases h
  · next ht =>
    cases h
    exact ⟨rfl, Or.inr (Or.inr ⟨ht, rfl, rfl⟩)⟩

end Gateway

end ModuleGateway

end LoraModuleFw
