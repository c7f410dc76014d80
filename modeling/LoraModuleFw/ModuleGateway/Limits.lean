import LoraModuleFw.Ota.Room
import LoraModuleFw.ModuleGateway.Opening
import LoraModuleFw.ModuleGateway.SoilReports
import LoraModuleFw.ModuleGateway.Serial

/-! The limits within which `gateway_task` cannot panic, from one packet up to any
interleaving of the two tasks. -/

namespace LoraModuleFw.ModuleGateway

open Lora Ota Schema Runs

/-! ## The gateway -/

/-- A download that is asked for has a block size other than zero. -/
def SizedRequest : HostPacket → Prop
  | .otaInit init => init.blockSize ≠ 0
  | _ => True

instance : DecidablePred SizedRequest
  | .otaInit init => inferInstanceAs (Decidable (init.blockSize ≠ 0))
  | .pingRequest | .otaData _ | .otaDoneRequest | .otaAbortRequest | .otaGetStatus
  | .soilSensor _ => .isTrue trivial

/-- Four values can be read from a soil report. -/
def Readable (p : LoRaPacket) : Prop := p.packetType = .soilSensor → 8 ≤ p.payload.toList.length

instance : DecidablePred Readable := fun _ => inferInstanceAs (Decidable (_ → _))

namespace Gateway

/-- The stored session, if there is one, can take any response. -/
def Roomy (g : Gateway) : Prop := ∀ p, g.ota = some p → p.Roomy

/-- There is a place for the block, if the packet brings one. -/
def Admits (g : Gateway) : HostPacket → Prop
  | .otaData data => ∀ p ∈ g.ota, p.Admits data.index
  | _ => True

instance (g : Gateway) : DecidablePred g.Admits
  | .otaData data => inferInstanceAs (Decidable (∀ p ∈ g.ota, p.Admits data.index))
  | .pingRequest | .otaInit _ | .otaDoneRequest | .otaAbortRequest | .otaGetStatus
  | .soilSensor _ => .isTrue trivial

variable {g : Gateway}

theorem roomy_stored {p : OtaProducer} (h : p.Roomy) : ({ ota := some p } : Gateway).Roomy := by
  intro q hq
  cases hq
  exact h

theorem roomy_forward {r : Option (Except OtaError GatewayPacket × OtaProducer × ModuleLoRa)}
    (h : ∃ res p lora, r = some (res, p, lora) ∧ p.Roomy) (g : Gateway) :
    ∃ res g' lora, g.forward r = some (res, g', lora) ∧ g'.Roomy := by
  obtain ⟨res, p, lora, rfl, hp⟩ := h
  cases res <;> exact ⟨_, _, _, rfl, roomy_stored hp⟩

theorem Roomy.initDownload (h : g.Roomy) (lora : ModuleLoRa) {init : OtaInitRequest}
    (hsized : init.blockSize ≠ 0) :
    ∃ res g' lora', g.initDownload lora init = some (res, g', lora') ∧ g'.Roomy := by
  have hnew : (OtaProducer.new (initPacket init) init.destinationAddress).Roomy :=
    OtaProducer.roomy_new hsized init.destinationAddress
  obtain ⟨res, p, l, hr, hp⟩ := hnew.request lora (.init (initPacket init))
  cases res with
  | error e => exact ⟨_, g, l, Option.map_eq_some_iff.mpr ⟨_, hr, rfl⟩, h⟩
  | ok ret => exact ⟨_, _, l, Option.map_eq_some_iff.mpr ⟨_, hr, rfl⟩, roomy_stored hp⟩

theorem Roomy.otaInit (h : g.Roomy) (lora : ModuleLoRa) {init : OtaInitRequest}
    (hsized : init.blockSize ≠ 0) :
    ∃ r g' lora', g.processHostMessage lora (.otaInit init) = some (r, g', lora') ∧ g'.Roomy := by
  obtain ⟨res, g', l, hi, hg'⟩ := h.initDownload lora hsized
  by_cases hdone : ∀ p, g.ota = some p → p.state = .done
  · exact ⟨_, g', l, otaInit_eq_some.mpr (Or.inl ⟨hdone, res, hi, rfl⟩), hg'⟩
  · exact ⟨_, g, lora, otaInit_eq_some.mpr (Or.inr ⟨hdone, rfl, rfl, rfl⟩), h⟩

theorem Roomy.continueDownload (h : g.Roomy) (lora : ModuleLoRa) {data : OtaData}
    (hroom : g.Admits (.otaData data)) :
    ∃ r g' lora', g.continueDownload lora data = some (r, g', lora') ∧ g'.Roomy := by
  unfold Gateway.continueDownload
  cases hp : g.ota with
  | none => exact ⟨_, g, lora, rfl, h⟩
  | some p =>
    obtain ⟨res, p', l, hr, hp'⟩ :=
      (h p hp).continueDownload lora { index := data.index, data := data.data } (hroom p hp)
    cases res <;> exact ⟨_, _, l, Option.map_eq_some_iff.mpr ⟨_, hr, rfl⟩, roomy_stored hp'⟩

/-- **No packet of the host makes the gateway panic**, within the limits. -/
theorem Roomy.processHostMessage (h : g.Roomy) (lora : ModuleLoRa) {packet : HostPacket}
    (hsized : SizedRequest packet) (hroom : g.Admits packet) :
    ∃ r g' lora', g.processHostMessage lora packet = some (r, g', lora') ∧ g'.Roomy := by
  cases packet with
  | pingRequest => exact ⟨_, g, lora, rfl, h⟩
  | otaInit init => exact h.otaInit lora hsized
  | otaData data =>
    obtain ⟨r, g', l, hr, hg'⟩ := h.continueDownload lora hroom
    cases r <;> exact ⟨_, g', l, Option.map_eq_some_iff.mpr ⟨_, hr, rfl⟩, hg'⟩
  | otaDoneRequest =>
    simp only [Gateway.processHostMessage]
    split
    · next p hp => exact roomy_forward ((h p hp).request lora .done) g
    · exact ⟨_, g, lora, rfl, h⟩
  | otaAbortRequest =>
    simp only [Gateway.processHostMessage]
    split
    · next p hp => exact roomy_forward ((h p hp).request lora .abort) g
    · exact ⟨_, g, lora, rfl, h⟩
  | otaGetStatus =>
    simp only [Gateway.processHostMessage]
    split
    · next p hp =>
      cases hs : p.getStatus with
      | none =>
        have hfull := OtaProducer.getStatus_eq_none.mp hs
        have hle := (h p hp).room
        omega
      | some s => exact ⟨_, g, lora, rfl, h⟩
    · exact ⟨_, g, lora, rfl, h⟩
  | soilSensor req =>
    simp only [Gateway.processHostMessage]
    obtain ⟨payload, hp⟩ : ∃ payload, (Heapless.Vec.empty : Payload).push 0 = some payload :=
      ⟨_, rfl⟩
    rw [hp, Option.map_some]
    split <;> exact ⟨_, g, _, rfl, h⟩

/-- **No packet from the air makes the gateway panic**, within the limits. -/
theorem Roomy.dispatch (h : g.Roomy) (lora : ModuleLoRa) {packet : LoRaPacket}
    (hread : Readable packet) :
    ∃ r g' lora', g.dispatch lora packet = some (r, g', lora') ∧ g'.Roomy := by
  cases ht : packet.packetType with
  | ota =>
    simp only [Gateway.dispatch, ht, processPeerMessage]
    cases hp : g.ota with
    | none => exact ⟨none, g, lora, rfl, h⟩
    | some p =>
      obtain ⟨res, p', hr, hp'⟩ := (h p hp).processResponseRaw packet
      simp only [hr, Option.map_some]
      cases res <;> exact ⟨_, _, _, rfl, roomy_stored hp'⟩
  | soilSensor =>
    rcases (handles_iff ht g lora).mpr (hread ht) with hd | ⟨_, _, _, hd⟩ <;>
      exact ⟨_, g, lora, hd, h⟩
  | ping =>
    simp only [Gateway.dispatch, ht]
    exact ⟨none, g, lora, rfl, h⟩

/-- A packet that the host or a node can send within the limits. -/
def Allows (g : Gateway) : GatewayEvent → Prop
  | .host _ p => SizedRequest p ∧ g.Admits p
  | .peer _ p => Readable p

theorem Roomy.serve (h : g.Roomy) {e : GatewayEvent} (he : g.Allows e)
    (responses : List GatewayPacket) :
    ∃ g' more, serve (g, responses) e = some (g', responses ++ more) ∧ g'.Roomy := by
  cases e with
  | host lora p =>
    obtain ⟨r, g', l, hr, hg'⟩ := h.processHostMessage lora he.1 he.2
    exact ⟨g', _, Option.map_eq_some_iff.mpr ⟨_, hr, rfl⟩, hg'⟩
  | peer lora p =>
    obtain ⟨r, g', l, hr, hg'⟩ := h.dispatch lora he
    exact ⟨g', _, Option.map_eq_some_iff.mpr ⟨_, hr, rfl⟩, hg'⟩

end Gateway

/-! ## The two tasks -/

namespace Tasks

/-- What may happen to the tasks: the host asks for no download with block size 0 and
sends no new block while 64 are outstanding, and no node sends a short soil report. -/
def Within (s : Tasks) : TaskEvent → Prop
  | .frame p => ∀ packet ∈ p, SizedRequest packet
  | .heard r => ∀ packet ∈ r.toOption, Readable packet
  | .processed _ => ∀ packet ∈ s.task.request, s.gateway.Admits packet
  | _ => True

instance (s : Tasks) : DecidablePred s.Within
  | .frame p => inferInstanceAs (Decidable (∀ packet ∈ p, SizedRequest packet))
  | .heard r => inferInstanceAs (Decidable (∀ packet ∈ r.toOption, Readable packet))
  | .processed _ => inferInstanceAs (Decidable (∀ packet ∈ s.task.request, s.gateway.Admits packet))
  | .hostSent | .mainFlashed | .response | .written | .request | .responseSent | .taskFlashed
  | .ledDone => .isTrue trivial

/-- The packets that have come in are allowed, and the session can take any response. -/
structure Limited (s : Tasks) (h : History) : Prop where
  serial : Serial s h
  decoded : ∀ p ∈ h.decoded, SizedRequest p
  heard : ∀ p ∈ h.heard, Readable p
  roomy : s.gateway.Roomy

variable {s s' : Tasks} {h : History}

/-- The packet in hand is allowed. -/
theorem Limited.host (hs : Limited s h) {p : HostPacket} (ht : s.task = .host p) :
    SizedRequest p := by
  apply hs.decoded
  rw [hs.serial.decoded, toGateway, ht]
  exact List.mem_append_right _ List.mem_cons_self

theorem Limited.peer (hs : Limited s h) {p : LoRaPacket} (ht : s.task = .peer p) : Readable p := by
  apply hs.heard
  rw [hs.serial.heard, ht]
  exact List.mem_append_right _ List.mem_cons_self

theorem Limited.allows (hs : Limited s h) {lora : ModuleLoRa}
    (hwithin : s.Within (.processed lora)) {e : GatewayEvent} (he : e ∈ s.task.event lora) :
    s.gateway.Allows e := by
  cases ht : s.task with
  | host p =>
    rw [ht] at he
    rw [List.mem_singleton.mp he]
    exact ⟨hs.host ht, hwithin p (by rw [ht]; exact List.mem_singleton_self p)⟩
  | peer p =>
    rw [ht] at he
    rw [List.mem_singleton.mp he]
    exact hs.peer ht
  | _ =>
    rw [ht] at he
    cases he

/-- A step that serves nothing leaves the gateway alone. -/
theorem Limited.unserved (hs : Limited s h) {h' : History} (hserial : Serial s' h')
    (hserved : h'.served = h.served) : s'.gateway.Roomy := by
  have heq := hserial.served
  rw [hserved, hs.serial.served] at heq
  have hgateway : s.gateway = s'.gateway := congrArg Prod.fst (Option.some.inj heq)
  rw [← hgateway]
  exact hs.roomy

/-- **Step lemma.** -/
theorem Limited.step (hs : Limited s h) {e : TaskEvent} (hwithin : s.Within e)
    (hstep : s.step e = some s') : Limited s' (s.record e h) := by
  have hserial := hs.serial.step hstep
  cases e with
  | frame p =>
    refine ⟨hserial, ?_, hs.heard, hs.unserved hserial rfl⟩
    intro q hq
    rcases List.mem_append.mp hq with hq | hq
    · exact hs.decoded q hq
    · exact hwithin q (Option.mem_toList.mp hq)
  | heard r =>
    refine ⟨hserial, hs.decoded, ?_, hs.unserved hserial rfl⟩
    intro q hq
    rcases List.mem_append.mp hq with hq | hq
    · exact hs.heard q hq
    · exact hwithin q (Option.mem_toList.mp hq)
  | processed lora =>
    obtain ⟨e, response, hone, hserve⟩ := processed_serves hstep
    have hallows := hs.allows hwithin (e := e) (by rw [hone]; exact List.mem_singleton_self e)
    obtain ⟨g', more, hg, hroomy⟩ := hs.roomy.serve hallows []
    rw [hserve] at hg
    cases hg
    exact ⟨hserial, hs.decoded, hs.heard, hroomy⟩
  | _ => exact ⟨hserial, hs.decoded, hs.heard, hs.unserved hserial rfl⟩

/-- **Run lemma.** -/
theorem Limited.run (hs : Limited s h) {events : List TaskEvent} {h' : History}
    (hwithin : AlongOpt (logged Tasks.step record) (fun x e => x.1.Within e) (s, h) events)
    (hrun : runOpt (logged Tasks.step record) (s, h) events = some (s', h')) : Limited s' h' := by
  refine AlongOpt.forall_prefix (P := fun x : Tasks × History => Limited x.1 x.2) ?_ hs hwithin
    events (s', h') (List.prefix_refl _) hrun
  intro x e y hx hw hstep
  obtain ⟨hstep, hlog⟩ := logged_eq_some.mp hstep
  rw [hlog]
  exact hx.step hw hstep

end Tasks

end LoraModuleFw.ModuleGateway
