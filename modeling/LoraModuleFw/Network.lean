import LoraModuleFw.Checksum
import LoraModuleFw.Ota.Exchange
import LoraModuleFw.ModuleNode.Node
import LoraModuleFw.ModuleGateway.Sends
import LoraModuleFw.ModuleGateway.SoilReports

/-! A gateway with its host and any number of nodes on one radio channel.  What
was transmitted may be heard late, repeatedly, out of order or never, by whoever
listens, and damaged in the ways that the CRC unit notices. -/

namespace LoraModuleFw

open Lora Ota Schema ModuleGateway ModuleNode SoilSensor Runs

/-! ## Stations on the air -/

/-- The addresses of the gateway and of the nodes, which have 16 bits on the air. -/
structure Stations (ι : Type) where
  gateway : UInt32
  node : ι → UInt32
  gateway_lt : gateway.toNat < 65536
  node_ne : ∀ i, node i ≠ gateway

/-- `air` is everything that was ever transmitted; the lists after it remember what
the host asked for and was told, and what the nodes measured. -/
structure Network (ι : Type) where
  gateway : Gateway
  nodes : ι → OtaConsumer OtaMemory
  air : List Transmission
  asked : List HostPacket
  told : List GatewayPacket
  measured : List (ι × Vector SoilSensorResult 4)

/-- What happens next, with the radio as it is found. -/
inductive NetworkEvent (ι : Type) where
  /-- The gateway takes a packet of the host. -/
  | host (lora : ModuleLoRa) (packet : HostPacket)
  /-- The gateway listens. -/
  | gateway (lora : ModuleLoRa)
  /-- A node listens; `outcomes` is what its sensor would measure. -/
  | node (i : ι) (lora : ModuleLoRa) (outcomes : Fin 4 → Vector SoilSensorResult samples)

/-- A frame that reaches a radio is one of the frames on the air, or one of them damaged. -/
def Heard (air : List Transmission) (frame : Postcard.Bytes) : Prop :=
  ∃ t ∈ air, frame = t.frame ∨ Damaged t.frame frame

/-- The radio of a station, hearing what is on the air. -/
structure Tuned (address : UInt32) (air : List Transmission) (lora : ModuleLoRa) : Prop where
  address : lora.address = address
  crc : lora.crc = crcUnit
  heard : ∀ frame, .frame frame ∈ lora.rxEvents → Heard air frame

namespace Network

variable {ι : Type}

/-- The measurement that a packet makes a node take, if any. -/
def measurement (outcomes : Fin 4 → Vector SoilSensorResult samples) (p : LoRaPacket) :
    Option (Vector SoilSensorResult 4) :=
  match p.packetType with
  | .soilSensor => sampleAllAverage outcomes
  | _ => none

def start : Network ι :=
  { gateway := .new, nodes := fun _ => .new .new, air := [], asked := [], told := [],
    measured := [] }

/-- `none` is a panic. -/
def step [DecidableEq ι] (s : Network ι) : NetworkEvent ι → Option (Network ι)
  | .host lora packet =>
    (s.gateway.processHostMessage (fresh lora) packet).map fun (r, gateway, lora) =>
      { s with
        gateway
        air := s.air ++ lora.sent
        asked := s.asked ++ [packet]
        told := s.told ++ (r.toOption.bind id).toList }
  | .gateway lora =>
    match (fresh lora).receiveContinuous with
    | (some (.ok p), lora) =>
      (s.gateway.dispatch lora p).map fun (r, gateway, lora) =>
        { s with gateway, air := s.air ++ lora.sent, told := s.told ++ r.toList }
    | _ => some s
  | .node i lora outcomes =>
    match (fresh lora).receiveContinuous with
    | (some (.ok p), lora) =>
      (Node.dispatch (s.nodes i) lora outcomes p).map fun (c, lora) =>
        { s with
          nodes := Function.update s.nodes i c
          air := s.air ++ lora.sent
          measured := s.measured ++ ((measurement outcomes p).map (i, ·)).toList }
    | _ => some s

/-- What the world does to the network.  During a request the gateway may hear anything. -/
def Physical (stations : Stations ι) (s : Network ι) : NetworkEvent ι → Prop
  | .host lora _ => lora.address = stations.gateway ∧ lora.crc = crcUnit
  | .gateway lora => Tuned stations.gateway s.air lora
  | .node i lora _ => Tuned (stations.node i) s.air lora

end Network

/-! ## What is on the air -/

/-- A message of a session that the host asked for with `request`. -/
inductive OtaCommand (asked : List HostPacket) (request : OtaInitRequest) : OtaPacket → Prop
  | init : OtaCommand asked request (.init (ModuleGateway.initPacket request))
  | data {data : OtaData} : .otaData data ∈ asked →
      OtaCommand asked request (.data ⟨data.index, data.data⟩)
  | done : .otaDoneRequest ∈ asked → OtaCommand asked request .done
  | abort : .otaAbortRequest ∈ asked → OtaCommand asked request .abort

/-- A packet that carries out something the host asked for, at the node it asked for.  Only
the low 16 bits of the address in the request get on the air: who asks for 65539 asks for
node 3. -/
inductive Commanded (asked : List HostPacket) (p : LoRaPacket) : Prop
  | ota {request : OtaInitRequest} {m : OtaPacket} : .otaInit request ∈ asked →
      OtaCommand asked request m → p.destination = onWire request.destinationAddress →
      p.packetType = .ota → fromBytes p.payload = some m → Commanded asked p
  | soil {request : SoilSensorRequest} : .soilSensor request ∈ asked →
      p.destination = onWire request.destinationAddress → p.packetType = .soilSensor →
      p.payload.toList = [0] → Commanded asked p

/-- A packet of a node: an OTA message, or the report of something it measured. -/
inductive Reported {ι : Type} (measured : List (ι × Vector SoilSensorResult 4)) (i : ι)
    (p : LoRaPacket) : Prop
  | ota : p.packetType = .ota → Reported measured i p
  | soil {results : Vector SoilSensorResult 4} : p.packetType = .soilSensor →
      (i, results) ∈ measured →
      p.payload.toList = (results.map moisture).toList.flatMap u16ToLe → Reported measured i p

/-- A packet of the gateway, for the host, or of a node, for the gateway. -/
inductive Sent {ι : Type} (stations : Stations ι) (asked : List HostPacket)
    (measured : List (ι × Vector SoilSensorResult 4)) (p : LoRaPacket) : Prop
  | gateway : p.source = stations.gateway → Commanded asked p → Sent stations asked measured p
  | node (i : ι) : p.destination = stations.gateway → Reported measured i p →
      Sent stations asked measured p

/-- A frame with its checksum, of a packet that reads as one of these. -/
structure OnAir {ι : Type} (stations : Stations ι) (asked : List HostPacket)
    (measured : List (ι × Vector SoilSensorResult 4)) (t : Transmission) : Prop where
  frame : t.frame = t.packet.body ++ u32ToLe (crcUnit t.packet.body)
  sent : Sent stations asked measured t.packet.cut

/-- A block that the host sent into a session for this address, as addresses are on the air. -/
def FromHost (asked : List HostPacket) (address : UInt32) (offset : Nat) (block : Block) : Prop :=
  ∃ request data, .otaInit request ∈ asked ∧ onWire request.destinationAddress = address ∧
    .otaData data ∈ asked ∧ offset = request.blockSize.toNat * data.index.toNat ∧
    block = data.data

/-- A session that the host asked for at this address, as addresses are on the air. -/
def OpenedBy (asked : List HostPacket) (gateway address : UInt32) (session : SessionParams) :
    Prop :=
  session.sourceAddress = gateway ∧ ∃ request, .otaInit request ∈ asked ∧
    onWire request.destinationAddress = address ∧ session.params = ModuleGateway.initPacket request

/-- A node with sessions and firmware from the host only. -/
structure Loyal (asked : List HostPacket) (gateway address : UInt32) (c : OtaConsumer OtaMemory) :
    Prop where
  session : ∀ session, c.session = some session → OpenedBy asked gateway address session
  memory : c.memory.OnlyFrom (FromHost asked address)

namespace Network

variable {ι : Type}

/-- The invariant. -/
structure Sound (stations : Stations ι) (s : Network ι) : Prop where
  started : s.gateway.Started
  destination : ∀ p, s.gateway.ota = some p →
    ∃ request, .otaInit request ∈ s.asked ∧ p.destinationAddress = request.destinationAddress
  air : ∀ t ∈ s.air, OnAir stations s.asked s.measured t
  loyal : ∀ i, Loyal s.asked stations.gateway (stations.node i) (s.nodes i)
  told : ∀ v, .soilSensorMoisture v ∈ s.told →
    ∃ i results, (i, results) ∈ s.measured ∧ v = results.map moisture

theorem sound_start (stations : Stations ι) : (start : Network ι).Sound stations where
  started := nofun
  destination := nofun
  air := nofun
  loyal _ := ⟨nofun, OtaMemory.onlyFrom_new⟩
  told := nofun

end Network

/-! ## What the host has asked for stays asked -/

section Asked

variable {ι : Type} {asked asked' : List HostPacket}
  {measured measured' : List (ι × Vector SoilSensorResult 4)}

theorem OtaCommand.mono (h : asked ⊆ asked') {request : OtaInitRequest} {m : OtaPacket}
    (hc : OtaCommand asked request m) : OtaCommand asked' request m := by
  cases hc with
  | init => exact .init
  | data hd => exact .data (h hd)
  | done hd => exact .done (h hd)
  | abort ha => exact .abort (h ha)

theorem Commanded.mono (h : asked ⊆ asked') {p : LoRaPacket} (hc : Commanded asked p) :
    Commanded asked' p := by
  cases hc with
  | ota hr hm hd ht hp => exact .ota (h hr) (hm.mono h) hd ht hp
  | soil hr hd ht hp => exact .soil (h hr) hd ht hp

/-- The message of a command; a soil request carries none. -/
theorem Commanded.message {p : LoRaPacket} (hc : Commanded asked p) {m : OtaPacket}
    (hm : fromBytes p.payload = some m) : ∃ request, .otaInit request ∈ asked ∧
      OtaCommand asked request m ∧ p.destination = onWire request.destinationAddress := by
  cases hc with
  | soil _ _ _ hp =>
    have hnot : fromBytes p.payload = none := by
      rw [fromBytes, hp]
      decide
    rw [hnot] at hm
    cases hm
  | ota hr hcmd hd _ hm' =>
    rw [hm'] at hm
    cases hm
    exact ⟨_, hr, hcmd, hd⟩

theorem Reported.mono (h : measured ⊆ measured') {i : ι} {p : LoRaPacket}
    (hr : Reported measured i p) : Reported measured' i p := by
  cases hr with
  | ota ht => exact .ota ht
  | soil ht hm hp => exact .soil ht (h hm) hp

theorem OnAir.mono {stations : Stations ι} (ha : asked ⊆ asked') (hm : measured ⊆ measured')
    {t : Transmission} (h : OnAir stations asked measured t) :
    OnAir stations asked' measured' t := by
  refine ⟨h.frame, ?_⟩
  cases h.sent with
  | gateway hs hc => exact .gateway hs (hc.mono ha)
  | node i hd hr => exact .node i hd (hr.mono hm)

theorem FromHost.mono (h : asked ⊆ asked') {address : UInt32} {offset : Nat} {block : Block}
    (hf : FromHost asked address offset block) : FromHost asked' address offset block := by
  obtain ⟨request, data, hr, hd, hdata, he⟩ := hf
  exact ⟨request, data, h hr, hd, h hdata, he⟩

theorem OpenedBy.mono (h : asked ⊆ asked') {gateway address : UInt32} {session : SessionParams}
    (ho : OpenedBy asked gateway address session) : OpenedBy asked' gateway address session := by
  obtain ⟨hs, request, hr, hd, hp⟩ := ho
  exact ⟨hs, request, h hr, hd, hp⟩

theorem Loyal.mono (h : asked ⊆ asked') {gateway address : UInt32} {c : OtaConsumer OtaMemory}
    (hc : Loyal asked gateway address c) : Loyal asked' gateway address c :=
  ⟨fun session hs => (hc.session session hs).mono h, hc.memory.mono fun _ _ hb => hb.mono h⟩

end Asked

/-! ## What a command does to a node -/

section Node

variable {asked : List HostPacket} {gateway address : UInt32} {c : OtaConsumer OtaMemory}
  {p : LoRaPacket}

theorem Loyal.session_step (h : Loyal asked gateway address c) (hs : p.source = gateway)
    (hd : p.destination = address) (hc : Commanded asked p) {lora : ModuleLoRa}
    {session : SessionParams} (hsess : (c.processMessage lora p).2.1.session = some session) :
    OpenedBy asked gateway address session := by
  rcases OtaConsumer.processMessage_session hsess with hold | ⟨init, hm, rfl⟩
  · exact h.session session hold
  · obtain ⟨request, hr, hcmd, hdest⟩ := hc.message hm
    cases hcmd
    exact ⟨hs, request, hr, hdest.symm.trans hd, rfl⟩

theorem Loyal.memory_step (h : Loyal asked gateway address c) (hc : Commanded asked p)
    (lora : ModuleLoRa) :
    (c.processMessage lora p).2.1.memory.OnlyFrom (FromHost asked address) := by
  have hwrite {data : OtaDataPacket} {session : SessionParams}
      (hm : fromBytes p.payload = some (.data data)) (hs : c.session = some session) :
      (c.writeBlock session data).2.OnlyFrom (FromHost asked address) := by
    obtain ⟨_, opening, hopen, hdest, hparams⟩ := h.session session hs
    refine h.memory.write _ ?_
    obtain ⟨_, _, hcmd, _⟩ := hc.message hm
    cases hcmd with
    | @data d hd =>
      refine ⟨opening, d, hopen, hdest, hd, ?_, rfl⟩
      rw [hparams]
      rfl
  rcases c.processMessage_cases lora p with
    ⟨_, _, hr⟩ | ⟨data, session, hm, hs, _, hr⟩ | ⟨data, session, hm, hs, _, hr⟩ | ⟨_, hr⟩ |
      ⟨_, _, hr⟩
  · rw [hr]
    exact h.memory
  · rw [hr]
    exact hwrite hm hs
  · rw [hr]
    exact hwrite hm hs
  · rw [hr]
    exact h.memory
  · rw [hr]
    exact h.memory

end Node

/-! ## What a station takes in -/

section Radio

variable {address : UInt32} {air : List Transmission} {lora lora' : ModuleLoRa} {p : LoRaPacket}

theorem transmissionOf_frame (q : LoRaPacket) (hcrc : lora.crc = crcUnit) :
    (transmissionOf q lora).frame = (transmissionOf q lora).packet.body ++
      u32ToLe (crcUnit (transmissionOf q lora).packet.body) := by
  rw [← hcrc]
  rfl

/-- **A station takes in what was sent to it**, damaged frames are noticed. -/
theorem Tuned.receives (h : Tuned address air lora)
    (hair : ∀ t ∈ air, t.frame = t.packet.body ++ u32ToLe (crcUnit t.packet.body))
    (hr : (fresh lora).receiveContinuous = (some (.ok p), lora')) :
    (∃ t ∈ air, p = t.packet.cut) ∧ p.destination = address ∧ lora'.address = address ∧
      lora'.crc = crcUnit ∧ lora'.sent = [] := by
  have hcases := ((fresh lora).receiveAddressed_cases (fresh lora).rxEvents).2
  rw [ModuleLoRa.receiveContinuous] at hr
  obtain ⟨hp, rfl⟩ := Prod.mk.inj hr
  obtain ⟨frame, hmem, hrec, hd⟩ := hcases p hp
  have hcrc : (fresh lora).crc = crcUnit := h.crc
  refine ⟨?_, hd.trans h.address, h.address, h.crc, rfl⟩
  obtain ⟨t, ht, hframe⟩ := h.heard frame hmem
  have hof : t.frame = (fresh lora).frameOf t.packet := by
    rw [hair t ht, ModuleLoRa.frameOf, hcrc]
  rw [hof] at hframe
  rcases hframe with rfl | hdamaged
  · rw [ModuleLoRa.receive_frameOf rfl] at hrec
    split at hrec
    · cases hrec
    · exact ⟨t, ht, (Except.ok.inj hrec).symm⟩
  · exact absurd hdamaged (not_damaged hcrc hcrc hrec)

end Radio

/-! ## Steps -/

namespace Network

variable {ι : Type} {stations : Stations ι} {s s' : Network ι}

theorem step_host [DecidableEq ι] {lora : ModuleLoRa} {packet : HostPacket}
    (h : s.step (.host lora packet) = some s') :
    ∃ r g l, s.gateway.processHostMessage (fresh lora) packet = some (r, g, l) ∧
      s' = { s with
        gateway := g
        air := s.air ++ l.sent
        asked := s.asked ++ [packet]
        told := s.told ++ (r.toOption.bind id).toList } := by
  obtain ⟨⟨r, g, l⟩, hr, rfl⟩ := Option.map_eq_some_iff.mp h
  exact ⟨r, g, l, hr, rfl⟩

theorem step_gateway [DecidableEq ι] {lora : ModuleLoRa}
    (h : s.step (.gateway lora) = some s') :
    s' = s ∨ ∃ p l r g l', (fresh lora).receiveContinuous = (some (.ok p), l) ∧
      s.gateway.dispatch l p = some (r, g, l') ∧
      s' = { s with gateway := g, air := s.air ++ l'.sent, told := s.told ++ r.toList } := by
  simp only [step] at h
  split at h
  · next p l hrec =>
    obtain ⟨⟨r, g, l'⟩, hd, rfl⟩ := Option.map_eq_some_iff.mp h
    exact Or.inr ⟨p, l, r, g, l', hrec, hd, rfl⟩
  · exact Or.inl (Option.some.inj h).symm

theorem step_node [DecidableEq ι] {i : ι} {lora : ModuleLoRa}
    {outcomes : Fin 4 → Vector SoilSensorResult samples}
    (h : s.step (.node i lora outcomes) = some s') :
    s' = s ∨ ∃ p l c l', (fresh lora).receiveContinuous = (some (.ok p), l) ∧
      Node.dispatch (s.nodes i) l outcomes p = some (c, l') ∧
      s' = { s with
        nodes := Function.update s.nodes i c
        air := s.air ++ l'.sent
        measured := s.measured ++ ((measurement outcomes p).map (i, ·)).toList } := by
  simp only [step] at h
  split at h
  · next p l hrec =>
    obtain ⟨⟨c, l'⟩, hd, rfl⟩ := Option.map_eq_some_iff.mp h
    exact Or.inr ⟨p, l, c, l', hrec, hd, rfl⟩
  · exact Or.inl (Option.some.inj h).symm

/-- A session goes on with the node it was opened with. -/
theorem Sound.destination_step (h : s.Sound stations) {e : GatewayEvent} {g' : Gateway}
    (hg : s.gateway.step e = some g') {asked : List HostPacket} (hasked : s.asked ⊆ asked)
    (he : ∀ lora packet, e = .host lora packet → packet ∈ asked) :
    ∀ p, g'.ota = some p →
      ∃ request, .otaInit request ∈ asked ∧ p.destinationAddress = request.destinationAddress := by
  intro p' hp'
  rcases Gateway.step_session h.started hg with hsame | ⟨lora, init, ret, lora', rfl, _, hi⟩
  · cases hp : s.gateway.ota with
    | none =>
      rw [hp, hp'] at hsame
      exact hsame.elim
    | some p =>
      rw [hp, hp'] at hsame
      obtain ⟨request, hr, hd⟩ := h.destination p hp
      exact ⟨request, hasked hr, hsame.2.1.trans hd⟩
  · exact ⟨init, he _ _ rfl, Gateway.initDownload_destination hi hp'⟩

/-- What the gateway transmits carries out what it was asked. -/
theorem Sound.commanded (h : s.Sound stations) {packet : HostPacket} {q : LoRaPacket}
    (hq : s.gateway.Sends packet q) (source : UInt32) :
    Commanded (s.asked ++ [packet]) (LoRaPacket.cut { q with source }) := by
  have hlast : packet ∈ s.asked ++ [packet] := List.mem_append_right _ (List.mem_singleton_self _)
  have hopen {p : OtaProducer} (hp : s.gateway.ota = some p) : ∃ request,
      HostPacket.otaInit request ∈ s.asked ++ [packet] ∧
        p.destinationAddress = request.destinationAddress := by
    obtain ⟨request, hr, hd⟩ := h.destination p hp
    exact ⟨request, List.mem_append_left _ hr, hd⟩
  cases hq with
  | init request hp => exact .ota hlast .init rfl rfl (fromBytes_of_toVec hp)
  | data data hp hm =>
    obtain ⟨request, hr, hd⟩ := hopen hp
    exact .ota hr (.data hlast) (congrArg onWire hd) rfl (fromBytes_of_toVec hm)
  | done hp hm =>
    obtain ⟨request, hr, hd⟩ := hopen hp
    exact .ota hr (.done hlast) (congrArg onWire hd) rfl (fromBytes_of_toVec hm)
  | abort hp hm =>
    obtain ⟨request, hr, hd⟩ := hopen hp
    exact .ota hr (.abort hlast) (congrArg onWire hd) rfl (fromBytes_of_toVec hm)
  | soil request hp => exact .soil hlast rfl rfl hp

theorem Sound.host [DecidableEq ι] (h : s.Sound stations) {lora : ModuleLoRa} {packet : HostPacket}
    (hphys : Physical stations s (.host lora packet)) (hs : s.step (.host lora packet) = some s') :
    s'.Sound stations := by
  obtain ⟨haddr, hcrc⟩ := hphys
  obtain ⟨r, g, l, hr, rfl⟩ := step_host hs
  have hstep : s.gateway.step (.host (fresh lora) packet) = some g :=
    Option.map_eq_some_iff.mpr ⟨_, hr, rfl⟩
  have hasked : s.asked ⊆ s.asked ++ [packet] := List.subset_append_left ..
  refine ⟨Gateway.started_step h.started hstep, ?_, ?_, ?_, ?_⟩
  · refine h.destination_step hstep hasked fun _ _ he => ?_
    cases he
    exact List.mem_append_right _ (List.mem_singleton_self _)
  · intro t ht
    rcases List.mem_append.mp ht with ht | ht
    · exact (h.air t ht).mono hasked (List.Subset.refl _)
    · rcases Gateway.processHostMessage_sent hr t ht with hold | ⟨q, hq, rfl⟩
      · exact absurd hold List.not_mem_nil
      · refine ⟨transmissionOf_frame q hcrc, .gateway ?_ (h.commanded hq _)⟩
        change onWire lora.address = _
        rw [haddr]
        exact (onWire_eq_iff _).mpr stations.gateway_lt
  · exact fun i => (h.loyal i).mono hasked
  · intro v hv
    rcases List.mem_append.mp hv with hv | hv
    · exact h.told v hv
    · refine absurd ?_ (Gateway.processHostMessage_told hr v)
      rcases r with e | _ | ret
      · exact absurd hv List.not_mem_nil
      · exact absurd hv List.not_mem_nil
      · rw [List.mem_singleton.mp hv]

theorem Sound.frames (h : s.Sound stations) :
    ∀ t ∈ s.air, t.frame = t.packet.body ++ u32ToLe (crcUnit t.packet.body) :=
  fun t ht => (h.air t ht).frame

theorem Sound.gateway [DecidableEq ι] (h : s.Sound stations) {lora : ModuleLoRa}
    (hphys : Physical stations s (.gateway lora)) (hs : s.step (.gateway lora) = some s') :
    s'.Sound stations := by
  rcases step_gateway hs with rfl | ⟨p, l, r, g, l', hrec, hd, rfl⟩
  · exact h
  obtain ⟨⟨t, ht, rfl⟩, _, _, _, hsent⟩ := hphys.receives h.frames hrec
  obtain ⟨rfl, hcases⟩ := Gateway.dispatch_cases hd
  rw [hsent, List.append_nil]
  have hstep : g.Started ∧ ∀ p, g.ota = some p → ∃ request, .otaInit request ∈ s.asked ∧
      p.destinationAddress = request.destinationAddress := by
    rcases hcases with ⟨_, hg, _⟩ | ⟨_, rfl⟩ | ⟨_, rfl, _⟩
    · refine ⟨Gateway.started_step h.started hg, ?_⟩
      exact h.destination_step hg (List.Subset.refl _) nofun
    · exact ⟨h.started, h.destination⟩
    · exact ⟨h.started, h.destination⟩
  refine ⟨hstep.1, hstep.2, h.air, h.loyal, fun v hv => ?_⟩
  rcases List.mem_append.mp hv with hv | hv
  · exact h.told v hv
  have hr : r = some (.soilSensorMoisture v) := Option.mem_toList.mp hv
  rcases hcases with ⟨_, _, hnot⟩ | ⟨htype, rfl⟩ | ⟨_, _, hnone⟩
  · exact absurd hr (hnot v)
  · cases (h.air t ht).sent with
    | gateway _ hc =>
      cases hc with
      | ota _ _ _ hota =>
        rw [htype] at hota
        cases hota
      | soil _ _ _ hp =>
        -- the gateway hears its own request, which is too short
        have hlen : t.packet.cut.payload.toList.length < 8 := by
          rw [hp]
          decide
        rw [Gateway.dispatch_short htype hlen] at hd
        cases hd
    | node i _ hrep =>
      cases hrep with
      | ota hota =>
        rw [htype] at hota
        cases hota
      | @soil results _ hmem hp =>
        have hvalues := hp.trans (List.append_nil _).symm
        rw [Gateway.dispatch_values htype hvalues] at hd
        cases hd
        cases hr
        exact ⟨i, results, hmem, rfl⟩
  · rw [hr] at hnone
    cases hnone

/-- **A node takes in commands only**, and from the gateway. -/
theorem Sound.takes_in (h : s.Sound stations) {i : ι} {lora l : ModuleLoRa} {p : LoRaPacket}
    (htuned : Tuned (stations.node i) s.air lora)
    (hrec : (fresh lora).receiveContinuous = (some (.ok p), l)) :
    p.source = stations.gateway ∧ p.destination = stations.node i ∧ Commanded s.asked p := by
  obtain ⟨⟨t, ht, rfl⟩, hd, _⟩ := htuned.receives h.frames hrec
  cases (h.air t ht).sent with
  | gateway hs hc => exact ⟨hs, hd, hc⟩
  | node _ hg _ => exact absurd (hd.symm.trans hg) (stations.node_ne i)

/-- What a node transmits is for the gateway. -/
theorem Sound.reported (h : s.Sound stations) {i : ι} {p q : LoRaPacket}
    {outcomes : Fin 4 → Vector SoilSensorResult samples} (hs : p.source = stations.gateway)
    (hq : Node.Sends (s.nodes i) outcomes p q) (source : UInt32) :
    Sent stations s.asked (s.measured ++ ((measurement outcomes p).map (i, ·)).toList)
      (LoRaPacket.cut { q with source }) := by
  have hgateway : onWire stations.gateway = stations.gateway :=
    (onWire_eq_iff _).mpr stations.gateway_lt
  cases hq with
  | @ota m destination payload _ ha _ =>
    have hdest : destination = stations.gateway := by
      cases ha with
      | initAck => exact hs
      | status _ hsess => exact ((h.loyal i).session _ hsess).1
      | doneAck hsess => exact ((h.loyal i).session _ hsess).1
      | abortAck => exact hs
    exact .node i ((congrArg onWire hdest).trans hgateway) (.ota rfl)
  | @soil results _ htype hr hreport =>
    obtain ⟨resp, hresp, ht, hp⟩ := soilReport_eq_some results p.source
    rw [hreport] at hresp
    cases hresp
    obtain ⟨payload, _, rfl⟩ := Option.map_eq_some_iff.mp hreport
    have hmeasured : measurement outcomes p = some results := by
      simp only [measurement, htype, hr]
    refine .node i ((congrArg onWire hs).trans hgateway) (.soil rfl ?_ hp)
    rw [hmeasured]
    exact List.mem_append_right _ (List.mem_singleton_self _)

theorem Sound.node [DecidableEq ι] (h : s.Sound stations) {i : ι} {lora : ModuleLoRa}
    {outcomes : Fin 4 → Vector SoilSensorResult samples}
    (hphys : Physical stations s (.node i lora outcomes))
    (hs : s.step (.node i lora outcomes) = some s') : s'.Sound stations := by
  rcases step_node hs with rfl | ⟨p, l, c, l', hrec, hd, rfl⟩
  · exact h
  obtain ⟨hsource, hdest, hc⟩ := h.takes_in hphys hrec
  obtain ⟨_, _, _, hcrc, hsent⟩ := hphys.receives h.frames hrec
  have hmeasured : s.measured ⊆ s.measured ++ ((measurement outcomes p).map (i, ·)).toList :=
    List.subset_append_left ..
  refine ⟨h.started, h.destination, ?_, ?_, ?_⟩
  · intro t ht
    rcases List.mem_append.mp ht with ht | ht
    · exact (h.air t ht).mono (List.Subset.refl _) hmeasured
    · rcases Node.dispatch_sent hd t ht with hold | ⟨q, hq, rfl⟩
      · rw [hsent] at hold
        exact absurd hold List.not_mem_nil
      · exact ⟨transmissionOf_frame q hcrc, h.reported hsource hq _⟩
  · refine (Function.forall_update_iff s.nodes fun j c =>
      Loyal s.asked stations.gateway (stations.node j) c).mpr ⟨?_, fun j _ => h.loyal j⟩
    rcases Node.dispatch_consumer hd with ⟨_, rfl⟩ | ⟨_, rfl⟩
    · exact ⟨fun _ hsess => (h.loyal i).session_step hsource hdest hc hsess,
        (h.loyal i).memory_step hc l⟩
    · exact h.loyal i
  · intro v hv
    obtain ⟨j, results, hmem, he⟩ := h.told v hv
    exact ⟨j, results, hmeasured hmem, he⟩

/-- **Step lemma.** -/
theorem Sound.step [DecidableEq ι] (h : s.Sound stations) {e : NetworkEvent ι}
    (hphys : Physical stations s e) (hs : s.step e = some s') : s'.Sound stations := by
  cases e with
  | host lora packet => exact h.host hphys hs
  | gateway lora => exact h.gateway hphys hs
  | node i lora outcomes => exact h.node hphys hs

/-- **Run lemma.** -/
theorem Sound.run [DecidableEq ι] {events : List (NetworkEvent ι)}
    (hphys : AlongOpt Network.step (Physical stations) start events)
    (hrun : runOpt Network.step start events = some s) : s.Sound stations :=
  hphys.forall_prefix (fun _ _ _ h hp hs => Sound.step h hp hs) (sound_start stations) events s
    (List.prefix_refl events) hrun

end Network

/-! ## Runs of the network -/

section

variable {ι : Type} [DecidableEq ι]

/-- **Soil reports are genuine.**  In every run the host is told what some node measured. -/
theorem soil_reports_genuine (stations : Stations ι) (events : List (NetworkEvent ι))
    (s : Network ι)
    (hphys : AlongOpt Network.step (Network.Physical stations) Network.start events)
    (hrun : runOpt Network.step Network.start events = some s) (v : Vector UInt16 4)
    (hv : .soilSensorMoisture v ∈ s.told) :
    ∃ i results, (i, results) ∈ s.measured ∧ v = results.map moisture :=
  (Network.Sound.run hphys hrun).told v hv

end

/-! ## A gateway and one node -/

/-- A radio that hears these frames. -/
def tuned (address : UInt32) (frames : List Postcard.Bytes) : ModuleLoRa :=
  { ModuleLoRa.quiet address with crc := crcUnit, rxEvents := frames.map .frame }

theorem tuned_tuned {address : UInt32} {air : List Transmission} {frames : List Postcard.Bytes}
    (h : frames ⊆ air.map Transmission.frame) : Tuned address air (tuned address frames) := by
  refine ⟨rfl, rfl, fun frame hmem => ?_⟩
  obtain ⟨frame', hf, he⟩ := List.mem_map.mp hmem
  cases he
  obtain ⟨t, ht, rfl⟩ := List.mem_map.mp (h hf)
  exact ⟨t, ht, Or.inl rfl⟩

/-- Gateway 1 and node 3. -/
def pair : Stations Unit where
  gateway := 1
  node _ := 3
  gateway_lt := by decide
  node_ne _ := by decide

/-- The frames on the air after a run. -/
def framesAfter (events : List (NetworkEvent Unit)) : Option (List Postcard.Bytes) :=
  (runOpt Network.step Network.start events).map fun s => s.air.map Transmission.frame

theorem air_of_framesAfter {events : List (NetworkEvent Unit)} {s : Network Unit}
    {frames : List Postcard.Bytes} (hrun : runOpt Network.step Network.start events = some s)
    (h : framesAfter events = some frames) : s.air.map Transmission.frame = frames := by
  rw [framesAfter, hrun] at h
  exact Option.some.inj h

/-- A soil request, and the report of four channels at 700 microseconds. -/
theorem soil_reports_genuine_pair :
    let request := (tuned 1 []).frameOf ⟨1, 3, .soilSensor, ⟨[0], by decide⟩⟩
    let report := (tuned 3 []).frameOf
      ⟨3, 1, .soilSensor, ⟨[188, 2, 188, 2, 188, 2, 188, 2], by decide⟩⟩
    let events : List (NetworkEvent Unit) := [.host (tuned 1 []) (.soilSensor ⟨3⟩),
      .node () (tuned 3 [request]) fun _ => .replicate samples (.ok 700),
      .gateway (tuned 1 [report])]
    ∃ s, runOpt Network.step Network.start events = some s ∧
      ∃ i results, (i, results) ∈ s.measured ∧ #v[700, 700, 700, 700] = results.map moisture := by
  intro request report events
  have hrequest : framesAfter (events.take 1) = some [request] := by decide +kernel
  have hreport : framesAfter (events.take 2) = some [request, report] := by decide +kernel
  have hphys : AlongOpt Network.step (Network.Physical pair) Network.start events := by
    intro s₁ h₁
    refine ⟨⟨rfl, rfl⟩, fun s₂ h₂ => ⟨tuned_tuned ?_, fun s₃ h₃ => ⟨tuned_tuned ?_, trivial⟩⟩⟩
    · have hrun : runOpt Network.step Network.start (events.take 1) = some s₁ :=
        runOpt_cons.mpr ⟨s₁, h₁, rfl⟩
      rw [air_of_framesAfter hrun hrequest]
      exact List.Subset.refl _
    · have hrun : runOpt Network.step Network.start (events.take 2) = some s₂ :=
        runOpt_cons.mpr ⟨s₁, h₁, runOpt_cons.mpr ⟨s₂, h₂, rfl⟩⟩
      rw [air_of_framesAfter hrun hreport]
      exact List.subset_cons_self ..
  have htold : (runOpt Network.step Network.start events).map Network.told =
      some [.soilSensorMoisture #v[700, 700, 700, 700]] := by decide +kernel
  obtain ⟨s, hrun, ht⟩ := Option.map_eq_some_iff.mp htold
  refine ⟨s, hrun, soil_reports_genuine pair events s hphys hrun _ ?_⟩
  rw [ht]
  exact List.mem_singleton_self _

end LoraModuleFw
