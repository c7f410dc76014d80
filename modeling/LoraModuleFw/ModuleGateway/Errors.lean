import LoraModuleFw.ModuleGateway.Session

/-! A message that ends in an error leaves the gateway as it was. -/

namespace LoraModuleFw

open Lora Ota Schema

namespace Ota.OtaProducer

theorem processResponse_error {p p' : OtaProducer} {m : OtaPacket} {e : OtaError}
    (h : p.processResponse m = some (.error e, p')) : p' = p := by
  rcases processResponse_cases h with
    ⟨_, hp, _⟩ | ⟨_, _, hr, _⟩ | ⟨status, _, _, hs⟩ | ⟨_, ⟨ret, hr⟩, _⟩
  · exact hp
  · cases hr
  · obtain ⟨_, ⟨_, hr, _⟩ | ⟨_, ⟨s, hr⟩, _⟩⟩ := processStatus_eq_some hs <;> cases hr
  · cases hr

theorem request_error {p p' : OtaProducer} {lora lora' : ModuleLoRa} {m : OtaPacket}
    {e : OtaError} (h : p.request lora m = some (.error e, p', lora')) : p' = p := by
  rcases OtaProducer.request_cases h with ⟨_, _, _, hp⟩ | ⟨resp, _, hp⟩
  · exact hp
  · exact processResponse_error hp

end Ota.OtaProducer

namespace ModuleGateway

namespace Gateway

theorem forward_error {g g' : Gateway} {p : OtaProducer}
    {req : Option (Except OtaError GatewayPacket × OtaProducer × ModuleLoRa)} {e : Error}
    {lora : ModuleLoRa} (hp : g.ota = some p)
    (hreq : ∀ e p' l, req = some (.error e, p', l) → p' = p)
    (h : g.forward req = some (.error e, g', lora)) : g' = g := by
  obtain ⟨⟨res, p', l⟩, hr, he⟩ := Option.map_eq_some_iff.mp h
  cases res with
  | ok ret => cases he
  | error e =>
    cases he
    rw [hreq _ _ _ hr, ← hp]

theorem initDownload_error {g g' : Gateway} {lora lora' : ModuleLoRa} {init : OtaInitRequest}
    {e : Error} (h : g.initDownload lora init = some (.error e, g', lora')) : g' = g := by
  rcases initDownload_eq_some h with ⟨_, hr, _⟩ | ⟨_, _, hg⟩
  · cases hr
  · exact hg

theorem continueDownload_error {g g' : Gateway} {lora lora' : ModuleLoRa} {data : OtaData}
    {e : Error} (h : g.continueDownload lora data = some (.error e, g', lora')) : g' = g := by
  unfold continueDownload at h
  cases hp : g.ota with
  | none =>
    simp only [hp] at h
    cases h
    rfl
  | some p =>
    simp only [hp] at h
    obtain ⟨⟨res, p', l⟩, hc, he⟩ := Option.map_eq_some_iff.mp h
    rcases OtaProducer.continueDownload_eq_some hc with ⟨rfl, _⟩ | ⟨rfl, rfl⟩
    · cases he
    · cases he
      rw [← hp]

theorem processHostMessage_error {g g' : Gateway} {lora lora' : ModuleLoRa} {packet : HostPacket}
    {e : Error} (h : g.processHostMessage lora packet = some (.error e, g', lora')) : g' = g := by
  unfold processHostMessage at h
  cases packet with
  | pingRequest => cases h
  | otaInit init =>
    rcases otaInit_eq_some.mp h with ⟨_, res, hi, he⟩ | ⟨_, _, hg, _⟩
    · cases res <;> cases he
      exact initDownload_error hi
    · exact hg
  | otaData data =>
    obtain ⟨⟨res, g₁, l⟩, hc, he⟩ := Option.map_eq_some_iff.mp h
    cases res <;> cases he
    exact continueDownload_error hc
  | otaDoneRequest =>
    simp only at h
    split at h
    · next p hp => exact forward_error hp (fun _ _ _ hr => OtaProducer.request_error hr) h
    · cases h
  | otaAbortRequest =>
    simp only at h
    split at h
    · next p hp => exact forward_error hp (fun _ _ _ hr => OtaProducer.request_error hr) h
    · cases h
  | otaGetStatus =>
    simp only at h
    split at h
    · obtain ⟨s, _, he⟩ := Option.map_eq_some_iff.mp h
      cases he
    · cases h
  | soilSensor req =>
    obtain ⟨payload, _, he⟩ := Option.map_eq_some_iff.mp h
    split at he <;> cases he
    rfl

theorem processPeerMessage_error {g g' : Gateway} {lora lora' : ModuleLoRa} {packet : LoRaPacket}
    {e : Error} (h : g.processPeerMessage lora packet = some (.error e, g', lora')) : g' = g := by
  unfold processPeerMessage at h
  split at h
  · next p hp =>
    obtain ⟨⟨res, p'⟩, hr, he⟩ := Option.map_eq_some_iff.mp h
    cases res with
    | ok ret => cases he
    | error e =>
      cases he
      unfold OtaProducer.processResponseRaw at hr
      split at hr
      · cases hr
        rw [← hp]
      · rw [OtaProducer.processResponse_error hr, ← hp]
  · cases h

end Gateway

/-- **Errors are atomic**: whatever the message, the radio and the session. -/
theorem errors_atomic (g : Gateway) (lora : ModuleLoRa) :
    (∀ packet e g' lora', g.processHostMessage lora packet = some (.error e, g', lora') →
      g' = g) ∧
    ∀ packet e g' lora', g.processPeerMessage lora packet = some (.error e, g', lora') →
      g' = g :=
  ⟨fun _ _ _ _ h => Gateway.processHostMessage_error h,
    fun _ _ _ _ h => Gateway.processPeerMessage_error h⟩

/-- A Done request that hears a stray Init, and an Init from the air. -/
theorem errors_atomic_stray_init :
    let init : OtaInitPacket := ⟨100, .replicate 32 0, 64, 2⟩
    let g : Gateway := ⟨some { OtaProducer.new init 3 with state := .download }⟩
    (∃ g' lora', g.processHostMessage (hears (.init init) 9) .otaDoneRequest =
        some (.error (.ota .invalidPacketType), g', lora') ∧ g' = g) ∧
      ∃ g' lora', g.processPeerMessage (.quiet 1) ((OtaPacket.init init).packet 9 1) =
        some (.error (.ota .invalidPacketType), g', lora') ∧ g' = g := by
  intro init g
  have hdone : ∃ r, g.processHostMessage (hears (.init init) 9) .otaDoneRequest = some r ∧
      r.1 = .error (.ota .invalidPacketType) := by
    decide +kernel
  have hpeer : ∃ r, g.processPeerMessage (.quiet 1) ((OtaPacket.init init).packet 9 1) = some r ∧
      r.1 = .error (.ota .invalidPacketType) := by
    decide +kernel
  obtain ⟨⟨_, g', lora'⟩, hd, rfl⟩ := hdone
  obtain ⟨⟨_, g₁, lora₁⟩, hp, rfl⟩ := hpeer
  exact ⟨⟨g', lora', hd, (errors_atomic g (hears (.init init) 9)).1 .otaDoneRequest _ g' lora' hd⟩,
    ⟨g₁, lora₁, hp, (errors_atomic g (.quiet 1)).2 _ _ g₁ lora₁ hp⟩⟩

end ModuleGateway

end LoraModuleFw
