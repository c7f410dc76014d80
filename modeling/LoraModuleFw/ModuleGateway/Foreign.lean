import LoraModuleFw.ModuleGateway.Session

/-! Which received packets reach the gateway's session.  Nothing on the way
looks at the source of a packet: a packet for the gateway that decodes counts
as an answer of its session, whoever sent it. -/

namespace LoraModuleFw.ModuleGateway

open Lora Ota Schema

namespace Gateway

theorem dispatch_changes {g g' : Gateway} {lora lora' : ModuleLoRa} {p : LoRaPacket}
    {resp : Option GatewayPacket} (h : g.dispatch lora p = some (resp, g', lora'))
    (hne : g'.ota ≠ g.ota) : p.packetType = .ota ∧ ∃ m, fromBytes p.payload = some m := by
  unfold dispatch at h
  split at h
  · next htype =>
    refine ⟨htype, ?_⟩
    cases hm : fromBytes p.payload with
    | some m => exact ⟨m, rfl⟩
    | none =>
      obtain ⟨⟨r, g₁, l⟩, hr, he⟩ := Option.map_eq_some_iff.mp h
      have hsame : g₁.ota = g.ota := by
        unfold processPeerMessage at hr
        cases hp : g.ota with
        | none =>
          simp only [hp] at hr
          cases hr
          exact hp
        | some ota =>
          simp only [hp, OtaProducer.processResponseRaw, hm] at hr
          cases hr
          rfl
      cases r <;> cases he <;> exact absurd hsame hne
  · split at h
    · cases h
      exact absurd rfl hne
    · cases h
  · cases h
    exact absurd rfl hne

end Gateway

/-- **What reaches a session**: from the dispatch only packets of type OTA that
decode; as the response to a request only packets for the gateway that decode. -/
theorem session_input (g : Gateway) (lora : ModuleLoRa) :
    (∀ p resp g' lora', g.dispatch lora p = some (resp, g', lora') → g'.ota ≠ g.ota →
      p.packetType = .ota ∧ ∃ m, fromBytes p.payload = some m) ∧
    ∀ destination request retries resp lora',
      loraTransmitUntilResponse lora destination request retries = some (.ok resp, lora') →
        ∃ p, lora.Hears p ∧ fromBytes p.payload = some resp :=
  ⟨fun _ _ _ _ h hne => Gateway.dispatch_changes h hne,
    fun _ _ _ _ _ h => loraTransmitUntilResponse_ok h⟩

/-- An AbortAck of node 3 reaches its session either way. -/
theorem session_input_abort :
    let packet := OtaPacket.abortAck.packet 3 1
    (packet.packetType = .ota ∧ ∃ m, fromBytes packet.payload = some m) ∧
      ∃ p, (hears .abortAck 3).Hears p ∧ fromBytes p.payload = some .abortAck := by
  intro packet
  let ota := { OtaProducer.new ⟨100, .replicate 32 0, 64, 2⟩ 3 with state := .download }
  obtain ⟨hdispatch, hrequest⟩ := session_input ⟨some ota⟩ (hears .abortAck 3)
  constructor
  · exact hdispatch packet _ ⟨some { ota with state := .done }⟩ _ rfl (by decide)
  · exact hrequest 3 .abort 10 .abortAck _ rfl

/-- The session of node 3 is over when node 9 says AbortAck. -/
theorem foreign_abort_ends_session :
    let ota := { OtaProducer.new ⟨100, .replicate 32 0, 64, 2⟩ 3 with state := .download }
    let packet := OtaPacket.abortAck.packet 9 1
    packet.source ≠ ota.destinationAddress ∧
      ∃ g', Gateway.dispatch ⟨some ota⟩ (.quiet 1) packet =
          some (some .otaAbortAck, g', .quiet 1) ∧
        g'.ota.map OtaProducer.state = some .done := by
  intro ota packet
  exact ⟨by decide, ⟨some { ota with state := .done }⟩, rfl, rfl⟩

end LoraModuleFw.ModuleGateway
