import LoraModuleFw.Ota.Completion
import LoraModuleFw.Network

/-! What it means on the whole network that a node is done: the host has asked
for that download and has sent every block of it. -/

namespace LoraModuleFw

open Lora Ota Schema ModuleGateway ModuleNode SoilSensor Runs

/-- A message that is not an Init adds at most the index of its block. -/
theorem Ota.Watched.mem_accepted_step {M : Type} [OtaMemoryDelegate M] {w : Watched M}
    {p : LoRaPacket} {i : UInt16} (hi : i ∈ (w.step p).accepted) :
    i ∈ w.accepted ∨ ∃ data, fromBytes p.payload = some (.data data) ∧ data.index = i := by
  have hcases (h : i ∈ w.accepted ++ (w.consumer.acceptedBlock p).toList) :
      i ∈ w.accepted ∨ ∃ data, fromBytes p.payload = some (.data data) ∧ data.index = i := by
    rcases List.mem_append.mp h with h | h
    · exact Or.inl h
    · have hblock := Option.mem_toList.mp h
      unfold OtaConsumer.acceptedBlock at hblock
      split at hblock
      · next data _ hm _ =>
        split at hblock
        · exact Or.inr ⟨data, hm, Option.some.inj hblock⟩
        · cases hblock
      · cases hblock
  simp only [Watched.step] at hi
  split at hi
  · cases hi
  · exact hcases hi

/-! ## Blocks from the host -/

/-- The host has sent a block of this index. -/
def BlockSent (asked : List HostPacket) (index : Nat) : Prop :=
  ∃ data, HostPacket.otaData data ∈ asked ∧ data.index.toNat = index

/-- A download that the host asked for at this address, as addresses are on the air, and
sent in full.  A node with a download of one block is done before it has any. -/
def SentInFull (asked : List HostPacket) (address : UInt32) (params : OtaInitPacket) : Prop :=
  ∃ request, .otaInit request ∈ asked ∧ onWire request.destinationAddress = address ∧
    params = ModuleGateway.initPacket request ∧
    (request.blockCount.toNat ≠ 1 → ∀ j < request.blockCount.toNat, BlockSent asked j)

/-- The blocks that a node has accepted are among those that the host has sent. -/
def Supplied (asked : List HostPacket) (c : OtaConsumer OtaMemory) : Prop :=
  ∃ w : Watched OtaMemory, w.consumer = c ∧ w.Truthful ∧
    ∀ i ∈ w.accepted, BlockSent asked i.toNat

section

variable {asked asked' : List HostPacket} {gateway address : UInt32} {c : OtaConsumer OtaMemory}

theorem BlockSent.mono (h : asked ⊆ asked') {j : Nat} (hs : BlockSent asked j) :
    BlockSent asked' j := by
  obtain ⟨data, hd, hj⟩ := hs
  exact ⟨data, h hd, hj⟩

theorem SentInFull.mono (h : asked ⊆ asked') {params : OtaInitPacket}
    (hs : SentInFull asked address params) : SentInFull asked' address params := by
  obtain ⟨request, hr, hd, hp, hall⟩ := hs
  exact ⟨request, h hr, hd, hp, fun hone j hj => (hall hone j hj).mono h⟩

theorem Supplied.mono (h : asked ⊆ asked') (hs : Supplied asked c) : Supplied asked' c := by
  obtain ⟨w, hw, ht, hall⟩ := hs
  exact ⟨w, hw, ht, fun i hi => (hall i hi).mono h⟩

theorem supplied_new (asked : List HostPacket) : Supplied asked (.new .new) :=
  ⟨.start .new (.quiet 1), rfl, Watched.truthful_start .., nofun⟩

/-- A node that is done. -/
theorem Supplied.sentInFull (hs : Supplied asked c) (hloyal : Loyal asked gateway address c)
    {session : SessionParams} (hsess : c.session = some session) (hd : c.isDone = true) :
    SentInFull asked address session.params := by
  obtain ⟨w, rfl, ht, hall⟩ := hs
  obtain ⟨_, request, hr, hdest, hparams⟩ := hloyal.session session hsess
  refine ⟨request, hr, hdest, hparams, fun hone j hj => ?_⟩
  have hcount : session.params.blockCount = request.blockCount := by
    rw [hparams]
    rfl
  rw [← hcount] at hone hj
  obtain ⟨i, hi, rfl⟩ := ht.all_accepted hsess hd hone j hj
  exact hall i hi

/-- **A command supplies a node** with a block that the host sent, or with none. -/
theorem Supplied.processMessage (hs : Supplied asked c) {p : LoRaPacket} (hc : Commanded asked p)
    (lora : ModuleLoRa) : Supplied asked (c.processMessage lora p).2.1 := by
  obtain ⟨w, rfl, ht, hall⟩ := hs
  have hradio : Watched.Truthful { w with lora } := ⟨ht.lt, ht.window, ht.contiguous⟩
  refine ⟨Watched.step { w with lora } p, rfl, hradio.step p, fun i hi => ?_⟩
  rcases Watched.mem_accepted_step hi with hold | ⟨data, hm, rfl⟩
  · exact hall i hold
  · obtain ⟨_, _, hcmd, _⟩ := hc.message hm
    cases hcmd with
    | @data d hd => exact ⟨d, hd, rfl⟩

end

/-! ## Steps -/

/-- If a node acknowledges a whole download here, the host has sent it one in full. -/
def AckBacked {ι : Type} (stations : Stations ι) (asked : List HostPacket) (q : LoRaPacket) :
    Prop :=
  q.packetType = .ota → fromBytes q.payload = some .doneAck →
    ∃ i params, q.source = stations.node i ∧ SentInFull asked (stations.node i) params

namespace Network

variable {ι : Type} {stations : Stations ι} {s s' : Network ι}

/-- The invariant. -/
structure Supplying (stations : Stations ι) (s : Network ι) : Prop where
  sound : s.Sound stations
  nodes : ∀ i, Supplied s.asked (s.nodes i)
  air : ∀ t ∈ s.air, AckBacked stations s.asked t.packet

theorem supplying_start (stations : Stations ι) : (start : Network ι).Supplying stations where
  sound := sound_start stations
  nodes _ := supplied_new []
  air := nofun

/-- The gateway acknowledges nothing to a node. -/
theorem not_doneAck {g : Gateway} {packet : HostPacket} {q : LoRaPacket} (hq : g.Sends packet q)
    (ht : q.packetType = .ota) : fromBytes q.payload ≠ some .doneAck := by
  have hother {m : OtaPacket} {payload : Payload} (hp : toVec m = some payload)
      (hm : m ≠ .doneAck) : fromBytes payload ≠ some .doneAck := by
    rw [fromBytes_of_toVec hp]
    exact fun he => hm (Option.some.inj he)
  cases hq with
  | init _ hp => exact hother hp nofun
  | data _ _ hp => exact hother hp nofun
  | done _ hp => exact hother hp nofun
  | abort _ hp => exact hother hp nofun
  | soil _ _ => cases ht

theorem Supplying.host [DecidableEq ι] (h : s.Supplying stations) {lora : ModuleLoRa}
    {packet : HostPacket} (hphys : Physical stations s (.host lora packet))
    (hs : s.step (.host lora packet) = some s') : s'.Supplying stations := by
  have hsound := h.sound.host hphys hs
  obtain ⟨r, g, l, hr, rfl⟩ := step_host hs
  have hasked : s.asked ⊆ s.asked ++ [packet] := List.subset_append_left ..
  refine ⟨hsound, fun i => (h.nodes i).mono hasked, fun t ht htype hack => ?_⟩
  rcases List.mem_append.mp ht with ht | ht
  · obtain ⟨i, params, hsource, hfull⟩ := h.air t ht htype hack
    exact ⟨i, params, hsource, hfull.mono hasked⟩
  · rcases Gateway.processHostMessage_sent hr t ht with hold | ⟨q, hq, rfl⟩
    · exact absurd hold List.not_mem_nil
    · exact (not_doneAck hq htype hack).elim

theorem Supplying.gateway [DecidableEq ι] (h : s.Supplying stations) {lora : ModuleLoRa}
    (hphys : Physical stations s (.gateway lora)) (hs : s.step (.gateway lora) = some s') :
    s'.Supplying stations := by
  have hsound := h.sound.gateway hphys hs
  rcases step_gateway hs with rfl | ⟨p, l, r, g, l', hrec, hd, rfl⟩
  · exact h
  obtain ⟨_, _, _, _, hsent⟩ := hphys.receives h.sound.frames hrec
  obtain ⟨rfl, _⟩ := Gateway.dispatch_cases hd
  refine ⟨hsound, h.nodes, ?_⟩
  rw [hsent, List.append_nil]
  exact h.air

theorem Supplying.node [DecidableEq ι] (h : s.Supplying stations) {i : ι} {lora : ModuleLoRa}
    {outcomes : Fin 4 → Vector SoilSensorResult samples}
    (hphys : Physical stations s (.node i lora outcomes))
    (hs : s.step (.node i lora outcomes) = some s') : s'.Supplying stations := by
  have hsound := h.sound.node hphys hs
  rcases step_node hs with rfl | ⟨p, l, c, l', hrec, hd, rfl⟩
  · exact h
  obtain ⟨_, _, hc⟩ := h.sound.takes_in hphys hrec
  obtain ⟨_, _, haddr, _, hsent⟩ := hphys.receives h.sound.frames hrec
  refine ⟨hsound, ?_, fun t ht htype hack => ?_⟩
  · refine (Function.forall_update_iff s.nodes fun _ c => Supplied s.asked c).mpr
      ⟨?_, fun j _ => h.nodes j⟩
    rcases Node.dispatch_consumer hd with ⟨_, rfl⟩ | ⟨_, rfl⟩
    · exact (h.nodes i).processMessage hc l
    · exact h.nodes i
  · rcases List.mem_append.mp ht with ht | ht
    · exact h.air t ht htype hack
    · rcases Node.dispatch_sent hd t ht with hold | ⟨q, hq, rfl⟩
      · rw [hsent] at hold
        exact absurd hold List.not_mem_nil
      · cases hq with
        | @ota m destination payload _ hreply hp =>
          have hm : m = .doneAck := by
            have hread := (fromBytes_of_toVec hp).symm.trans hack
            exact Option.some.inj hread
          subst hm
          cases hreply with
          | doneAck hsess hdone =>
            exact ⟨i, _, haddr, (h.nodes i).sentInFull (h.sound.loyal i) hsess hdone⟩
        | @soil results _ _ _ hreport =>
          obtain ⟨resp, hresp, htsoil, _⟩ := soilReport_eq_some results p.source
          rw [hreport] at hresp
          cases hresp
          obtain ⟨payload, _, rfl⟩ := Option.map_eq_some_iff.mp hreport
          cases htype

/-- **Step lemma.** -/
theorem Supplying.step [DecidableEq ι] (h : s.Supplying stations) {e : NetworkEvent ι}
    (hphys : Physical stations s e) (hs : s.step e = some s') : s'.Supplying stations := by
  cases e with
  | host lora packet => exact h.host hphys hs
  | gateway lora => exact h.gateway hphys hs
  | node i lora outcomes => exact h.node hphys hs

/-- **Run lemma.** -/
theorem Supplying.run [DecidableEq ι] {events : List (NetworkEvent ι)}
    (hphys : AlongOpt Network.step (Physical stations) start events)
    (hrun : runOpt Network.step start events = some s) : s.Supplying stations :=
  hphys.forall_prefix (fun _ _ _ h hp hs => Supplying.step h hp hs) (supplying_start stations)
    events s (List.prefix_refl events) hrun

end Network

end LoraModuleFw
