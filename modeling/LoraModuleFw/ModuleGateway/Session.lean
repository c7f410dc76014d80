import LoraModuleFw.Ota.ProducerRuns
import LoraModuleFw.ModuleGateway.Gateway

/-! The gateway's session over its whole life: what host messages, packets from
the air and the radio can make of the stored producer. -/

namespace LoraModuleFw.ModuleGateway

open Lora Ota Schema Runs

/-- A message for the gateway, with the radio as it is found. -/
inductive GatewayEvent where
  | host (lora : ModuleLoRa) (packet : HostPacket)
  | peer (lora : ModuleLoRa) (packet : LoRaPacket)

namespace Gateway

def step (g : Gateway) : GatewayEvent → Option Gateway
  | .host lora packet => (g.processHostMessage lora packet).map fun (_, g, _) => g
  | .peer lora packet => (g.processPeerMessage lora packet).map fun (_, g, _) => g

/-- The same session, at most moved from Download to Done. -/
def SameSession : Option OtaProducer → Option OtaProducer → Prop
  | none, none => True
  | some p, some p' =>
    p'.params = p.params ∧ p'.destinationAddress = p.destinationAddress ∧
      (p'.state = p.state ∨ p.state = .download ∧ p'.state = .done)
  | _, _ => False

/-- The event is an OtaInit, no download is in progress, and the gateway
afterwards is the one that `init_download` returned with Ok. -/
def Replaced (g g' : Gateway) (e : GatewayEvent) : Prop :=
  ∃ lora init ret lora', e = .host lora (.otaInit init) ∧
    (∀ p, g.ota = some p → p.state = .done) ∧
    g.initDownload lora init = some (.ok ret, g', lora')

/-- No stored producer is in state Init. -/
def Started (g : Gateway) : Prop := ∀ p, g.ota = some p → p.state ≠ .init

theorem SameSession.refl {g : Gateway} : SameSession g.ota g.ota := by
  cases g.ota with
  | none => trivial
  | some p => exact ⟨rfl, rfl, Or.inl rfl⟩

/-- A started producer that has been answered keeps its session. -/
theorem sameSession_of_answered {p p' : OtaProducer} {r : Except OtaError GatewayPacket}
    (h : OtaProducer.Answered p p' r) (hp : p.state ≠ .init) :
    SameSession (some p) (some p') := by
  refine ⟨h.params, h.destination, ?_⟩
  rcases h.state with hs | hs | ⟨hs, _⟩
  · exact Or.inl hs
  · cases hstate : p.state with
    | init => exact absurd hstate hp
    | download => exact Or.inr ⟨rfl, hs⟩
    | done => exact Or.inl hs
  · exact absurd hs hp

theorem forward_sameSession {g g' : Gateway} {p : OtaProducer}
    {req : Option (Except OtaError GatewayPacket × OtaProducer × ModuleLoRa)}
    {r : Except Error (Option GatewayPacket)} {lora : ModuleLoRa} (hp : g.ota = some p)
    (hs : p.state ≠ .init)
    (hreq : ∀ r p' l, req = some (r, p', l) → OtaProducer.Answered p p' r)
    (h : g.forward req = some (r, g', lora)) : SameSession g.ota g'.ota := by
  obtain ⟨⟨res, p', l⟩, hr, he⟩ := Option.map_eq_some_iff.mp h
  have := sameSession_of_answered (hreq res p' l hr) hs
  cases res <;> cases he <;> rwa [hp]

theorem continueDownload_sameSession {g g' : Gateway} {lora lora' : ModuleLoRa} {data : OtaData}
    {r : Except Error Unit} (h : g.continueDownload lora data = some (r, g', lora')) :
    SameSession g.ota g'.ota := by
  unfold Gateway.continueDownload at h
  cases hp : g.ota with
  | none =>
    simp only [hp] at h
    cases h
    rw [hp]
    trivial
  | some p =>
    simp only [hp] at h
    obtain ⟨⟨res, p', l⟩, hc, he⟩ := Option.map_eq_some_iff.mp h
    have hsame : SameSession (some p) (some p') := by
      rcases OtaProducer.continueDownload_eq_some hc with ⟨_, hr⟩ | ⟨_, rfl⟩
      · rw [(OtaProducer.recordSent_eq_some hr).1]
        exact ⟨rfl, rfl, Or.inl rfl⟩
      · exact ⟨rfl, rfl, Or.inl rfl⟩
    cases res <;> cases he <;> exact hsame

/-- A download that starts leaves a started producer, one that fails leaves all as it was. -/
theorem initDownload_eq_some {g g' : Gateway} {lora lora' : ModuleLoRa} {init : OtaInitRequest}
    {r : Except Error GatewayPacket} (h : g.initDownload lora init = some (r, g', lora')) :
    (∃ ret, r = .ok ret ∧ g'.Started) ∨ (∃ e, r = .error e ∧ g' = g) := by
  obtain ⟨⟨res, p, l⟩, hr, he⟩ := Option.map_eq_some_iff.mp h
  cases res with
  | error e =>
    cases he
    exact Or.inr ⟨_, rfl, rfl⟩
  | ok ret =>
    cases he
    refine Or.inl ⟨ret, rfl, fun q hq => ?_⟩
    cases hq
    exact (OtaProducer.request_answered hr).started ret rfl

/-- An OtaInit that is let through. -/
theorem start_cases {g g' : Gateway} {lora lora' : ModuleLoRa} {init : OtaInitRequest}
    {r : Except Error GatewayPacket} (hdone : ∀ p, g.ota = some p → p.state = .done)
    (h : g.initDownload lora init = some (r, g', lora')) :
    SameSession g.ota g'.ota ∨ Replaced g g' (.host lora (.otaInit init)) := by
  rcases initDownload_eq_some h with ⟨ret, rfl, _⟩ | ⟨_, _, rfl⟩
  · exact Or.inr ⟨lora, init, ret, lora', rfl, hdone, h⟩
  · exact Or.inl SameSession.refl

/-- Unless a download is open, an OtaInit is answered as `init_download` says. -/
theorem otaInit_eq_some {g g' : Gateway} {lora lora' : ModuleLoRa} {init : OtaInitRequest}
    {r : Except Error (Option GatewayPacket)} :
    g.processHostMessage lora (.otaInit init) = some (r, g', lora') ↔
      ((∀ p, g.ota = some p → p.state = .done) ∧
        ∃ res, g.initDownload lora init = some (res, g', lora') ∧ r = res.map some) ∨
      (¬ (∀ p, g.ota = some p → p.state = .done) ∧
        r = .error (.ota .alreadyStarted) ∧ g' = g ∧ lora' = lora) := by
  have hstart (f : Except Error GatewayPacket × Gateway × ModuleLoRa →
        Except Error (Option GatewayPacket) × Gateway × ModuleLoRa)
      (hf : ∀ x, f x = (x.1.map some, x.2)) :
      (g.initDownload lora init).map f = some (r, g', lora') ↔
        ∃ res, g.initDownload lora init = some (res, g', lora') ∧ r = res.map some := by
    rw [funext hf, Option.map_eq_some_iff]
    constructor
    · rintro ⟨⟨res, g₁, l⟩, hi, he⟩
      cases he
      exact ⟨res, hi, rfl⟩
    · rintro ⟨res, hi, rfl⟩
      exact ⟨_, hi, rfl⟩
  unfold processHostMessage
  cases hp : g.ota with
  | none =>
    have hdone : ∀ p, (none : Option OtaProducer) = some p → p.state = .done := by
      intro p he
      cases he
    rw [or_iff_left fun h => h.1 hdone, and_iff_right hdone]
    apply hstart
    rintro ⟨_ | _, _⟩ <;> rfl
  | some p =>
    have hdone : (∀ q, some p = some q → q.state = .done) ↔ p.isDone = true := by
      rw [OtaProducer.isDone, beq_iff_eq]
      exact ⟨fun h => h p rfl, fun h q hq => by cases hq; exact h⟩
    simp only [hdone]
    cases p.isDone with
    | true =>
      rw [or_iff_left fun h => h.1 rfl, and_iff_right rfl]
      apply hstart
      rintro ⟨_ | _, _⟩ <;> rfl
    | false =>
      rw [or_iff_right fun h => Bool.false_ne_true h.1, and_iff_right Bool.false_ne_true]
      constructor
      · intro h
        cases h
        exact ⟨rfl, rfl, rfl⟩
      · rintro ⟨rfl, rfl, rfl⟩
        rfl

theorem otaInit_session {g g' : Gateway} {lora lora' : ModuleLoRa} {init : OtaInitRequest}
    {r : Except Error (Option GatewayPacket)}
    (h : g.processHostMessage lora (.otaInit init) = some (r, g', lora')) :
    SameSession g.ota g'.ota ∨ Replaced g g' (.host lora (.otaInit init)) := by
  rcases otaInit_eq_some.mp h with ⟨hdone, res, hi, _⟩ | ⟨_, _, rfl, _⟩
  · exact start_cases hdone hi
  · exact Or.inl SameSession.refl

theorem host_session {g g' : Gateway} {lora lora' : ModuleLoRa} {packet : HostPacket}
    {r : Except Error (Option GatewayPacket)} (hg : g.Started)
    (h : g.processHostMessage lora packet = some (r, g', lora')) :
    SameSession g.ota g'.ota ∨ Replaced g g' (.host lora packet) := by
  unfold processHostMessage at h
  cases packet with
  | pingRequest =>
    cases h
    exact Or.inl SameSession.refl
  | otaInit init => exact otaInit_session h
  | otaData data =>
    obtain ⟨⟨res, g₁, l⟩, hc, he⟩ := Option.map_eq_some_iff.mp h
    have := continueDownload_sameSession hc
    cases res <;> cases he <;> exact Or.inl this
  | otaDoneRequest =>
    simp only at h
    split at h
    · next p hp =>
      exact Or.inl (forward_sameSession hp (hg p hp)
        (fun _ _ _ hreq => OtaProducer.request_answered hreq) h)
    · cases h
      exact Or.inl SameSession.refl
  | otaAbortRequest =>
    simp only at h
    split at h
    · next p hp =>
      exact Or.inl (forward_sameSession hp (hg p hp)
        (fun _ _ _ hreq => OtaProducer.request_answered hreq) h)
    · cases h
      exact Or.inl SameSession.refl
  | otaGetStatus =>
    simp only at h
    split at h
    · obtain ⟨s, _, he⟩ := Option.map_eq_some_iff.mp h
      cases he
      exact Or.inl SameSession.refl
    · cases h
      exact Or.inl SameSession.refl
  | soilSensor req =>
    obtain ⟨payload, _, he⟩ := Option.map_eq_some_iff.mp h
    generalize lora.transmit { LoRaPacket.new req.destinationAddress .soilSensor with payload } =
      sent at he
    obtain ⟨res, l⟩ := sent
    cases res <;> cases he <;> exact Or.inl SameSession.refl

theorem peer_session {g g' : Gateway} {lora lora' : ModuleLoRa} {packet : LoRaPacket}
    {r : Except Error (Option GatewayPacket)} (hg : g.Started)
    (h : g.processPeerMessage lora packet = some (r, g', lora')) : SameSession g.ota g'.ota := by
  unfold processPeerMessage at h
  cases hp : g.ota with
  | none =>
    simp only [hp] at h
    cases h
    exact hp ▸ SameSession.refl
  | some p =>
    simp only [hp] at h
    obtain ⟨⟨res, p'⟩, hraw, he⟩ := Option.map_eq_some_iff.mp h
    have hsame : SameSession (some p) (some p') := by
      unfold OtaProducer.processResponseRaw at hraw
      split at hraw
      · cases hraw
        exact ⟨rfl, rfl, Or.inl rfl⟩
      · exact sameSession_of_answered (OtaProducer.processResponse_answered hraw) (hg p hp)
    cases res <;> cases he <;> exact hsame

/-- **Step lemma.** -/
theorem step_session {g g' : Gateway} {e : GatewayEvent} (hg : g.Started)
    (h : g.step e = some g') : SameSession g.ota g'.ota ∨ Replaced g g' e := by
  cases e with
  | host lora packet =>
    obtain ⟨⟨r, g₁, l⟩, hr, rfl⟩ := Option.map_eq_some_iff.mp h
    exact host_session hg hr
  | peer lora packet =>
    obtain ⟨⟨r, g₁, l⟩, hr, rfl⟩ := Option.map_eq_some_iff.mp h
    exact Or.inl (peer_session hg hr)

theorem started_step {g g' : Gateway} {e : GatewayEvent} (hg : g.Started)
    (h : g.step e = some g') : g'.Started := by
  rcases step_session hg h with hsame | ⟨lora, init, ret, lora', _, _, hi⟩
  · intro p' hp'
    rw [hp'] at hsame
    cases hp : g.ota with
    | none => simp [hp, SameSession] at hsame
    | some p =>
      rw [hp] at hsame
      obtain ⟨_, _, hs | ⟨_, hs⟩⟩ := hsame
      · rw [hs]
        exact hg p hp
      · rw [hs]
        nofun
  · rcases initDownload_eq_some hi with ⟨_, _, hs⟩ | ⟨_, hr, _⟩
    · exact hs
    · cases hr

/-- During a download an OtaInit is refused, and the radio is not touched. -/
theorem already_started {g : Gateway} {p : OtaProducer} (hp : g.ota = some p)
    (hs : p.state = .download) (lora : ModuleLoRa) (init : OtaInitRequest) :
    g.processHostMessage lora (.otaInit init) =
      some (.error (.ota .alreadyStarted), g, lora) := by
  have hd : p.isDone = false := by simp [OtaProducer.isDone, hs]
  simp [processHostMessage, hp, hd]

end Gateway

/-- **A session in progress is protected** in every reachable state. -/
theorem session_protected (events : List GatewayEvent) (g : Gateway)
    (hrun : runOpt Gateway.step Gateway.new events = some g) :
    (∀ p, g.ota = some p → p.state ≠ .init) ∧
    (∀ e g', g.step e = some g' →
      Gateway.SameSession g.ota g'.ota ∨ Gateway.Replaced g g' e) ∧
    ∀ p, g.ota = some p → p.state = .download → ∀ lora init,
      g.processHostMessage lora (.otaInit init) =
        some (.error (.ota .alreadyStarted), g, lora) := by
  have hg : g.Started := runOpt_invariant (A := fun _ => True)
    (fun _ _ _ hs _ h => Gateway.started_step hs h) (fun _ hp => by cases hp)
    (fun _ _ => trivial) hrun
  exact ⟨hg, fun e g' h => Gateway.step_session hg h,
    fun p hp hs lora init => Gateway.already_started hp hs lora init⟩

/-- A radio that hears `m`, sent to gateway 1 from `source`. -/
def hears (m : OtaPacket) (source : UInt32) : ModuleLoRa :=
  { ModuleLoRa.quiet 1 with
    rxEvents := (((m.packet source 1).serialize packetLength).map fun buff =>
      RadioEvent.frame (buff ++ u32ToLe 0)).toList }

/-- A download to node 3 that has been acknowledged. -/
theorem session_protected_download :
    let init : OtaInitRequest := ⟨3, 100, .replicate 32 0, 64, 2⟩
    ∃ g, runOpt Gateway.step Gateway.new [.host (hears .initAck 3) (.otaInit init)] = some g ∧
      g.processHostMessage (.quiet 1) (.otaInit init) =
        some (.error (.ota .alreadyStarted), g, .quiet 1) := by
  intro init
  have hrun : ∃ g, runOpt Gateway.step Gateway.new [.host (hears .initAck 3) (.otaInit init)] =
      some g ∧ g.ota.map OtaProducer.state = some .download := by
    decide +kernel
  obtain ⟨g, hrun, hstate⟩ := hrun
  obtain ⟨p, hp, hs⟩ := Option.map_eq_some_iff.mp hstate
  exact ⟨g, hrun, (session_protected _ g hrun).2.2 p hp hs (.quiet 1) init⟩

end LoraModuleFw.ModuleGateway
