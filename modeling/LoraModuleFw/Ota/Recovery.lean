import Mathlib.Data.List.Perm.Subperm
import LoraModuleFw.ModuleNode.FirstPage
import LoraModuleFw.Ota.Finishing
import LoraModuleFw.Ota.Resending
import LoraModuleFw.Ota.Room

/-! A download that has gone wrong in any way can still be brought to its end: from
every state of a session that was not aborted, whatever was lost, repeated or sent
out of order in it. -/

namespace LoraModuleFw.Ota

open Lora Runs ModuleNode

/-! ## The gateway -/

namespace OtaProducer

/-- A block goes out and is acknowledged: no more is outstanding than before. -/
theorem Roomy.block {p : OtaProducer} (h : p.Roomy) (hnodup : p.notAckedIndexes.toList.Nodup)
    (hlt : p.notAckedIndexes.toList.length < 64) (hstate : p.state ≠ .init) {index : UInt16}
    {status : OtaStatusPacket} (hack : index ∈ status.receivedIndexes.toList) :
    ∃ p₁ r p', p.recordSent index = some p₁ ∧ p₁.processResponse (.status status) = some (r, p') ∧
      p'.params = p.params ∧ p'.state ≠ .init ∧ p'.notAckedIndexes.toList.length < 64 := by
  cases hr : p.recordSent index with
  | none =>
    have hfull := (recordSent_eq_none.mp hr).2
    omega
  | some p₁ =>
    obtain ⟨hfields, hlist⟩ := recordSent_eq_some hr
    obtain ⟨hnodup₁, hmem₁⟩ := mem_recordSent hr hnodup
    have hstate₁ : p₁.state ≠ .init := by rw [hfields]; exact hstate
    have hroomy₁ : p₁.Roomy := by
      refine ⟨by rw [hfields]; exact h.sized, ?_⟩
      rw [hlist]
      split
      · exact h.room
      · rw [List.length_append, List.length_singleton]
        omega
    obtain ⟨r, p', hp, _⟩ := hroomy₁.processResponse (.status status)
    have hanswered := processResponse_answered hp
    refine ⟨p₁, r, p', rfl, hp, ?_, ?_, ?_⟩
    · rw [hanswered.params, hfields]
    · rcases hanswered.state with hs | hs | ⟨hs, _⟩
      · rw [hs]
        exact hstate₁
      · rw [hs]
        nofun
      · exact absurd hs hstate₁
    · rcases processResponse_cases hp with
        ⟨_, _, hi⟩ | ⟨hm, _⟩ | ⟨status', he, _, hs⟩ | ⟨hm | hm, _⟩
      · exact absurd (hi status rfl) hstate₁
      · cases hm
      · cases he
        obtain ⟨hnodup', hmem'⟩ := mem_acknowledge hnodup₁ status.receivedIndexes.toList
        rw [(processStatus_eq_some hs).1]
        refine (hnodup'.subperm ?_).length_le.trans_lt hlt
        intro i hi
        obtain ⟨hin, hnot⟩ := (hmem' i).mp hi
        rcases (hmem₁ i).mp hin with hold | rfl
        · exact hold
        · exact absurd hack hnot
      · cases hm
      · cases hm

end OtaProducer

/-! ## The node -/

/-- While it has this property, a memory takes the blocks and keeps the property. -/
def TakesBlocks {M : Type} [OtaMemoryDelegate M] (takes : M → Prop) (blockSize : ℕ)
    (blocks : List OtaDataPacket) : Prop :=
  ∀ m, takes m → ∀ validUpTo, ∀ data ∈ blocks,
    (OtaMemoryDelegate.write m validUpTo (blockSize * data.index.toNat) data.data).1 = true ∧
      takes (OtaMemoryDelegate.write m validUpTo (blockSize * data.index.toNat) data.data).2

namespace Watched

variable {M : Type} {params : OtaInitPacket} {blocks : List OtaDataPacket} {takes : M → Prop}

/-- The node is in a session with these parameters, and has only taken blocks of it. -/
structure Serves (params : OtaInitPacket) (w : Watched M) : Prop where
  session : w.consumer.session.map SessionParams.params = some params
  below : ∀ i ∈ w.accepted, i.toNat < params.blockCount.toNat

variable [OtaMemoryDelegate M]

theorem serves_init (w : Watched M) {packet : LoRaPacket}
    (hm : fromBytes packet.payload = some (.init params)) : (w.step packet).Serves params ∧
      (w.step packet).consumer.memory = w.consumer.memory := by
  have hstep : (w.step packet).consumer = { w.consumer with
        session := some ⟨params, packet.source⟩, recentIndexes := .empty, validUpToIndex := 0 } ∧
      (w.step packet).accepted = [] := by
    simp only [Watched.step, OtaConsumer.processMessage, OtaConsumer.handleInit, hm, and_self]
  obtain ⟨hcons, hacc⟩ := hstep
  refine ⟨⟨?_, ?_⟩, ?_⟩
  · rw [hcons]
    rfl
  · rw [hacc]
    exact fun _ hi => absurd hi List.not_mem_nil
  · rw [hcons]

/-- A block of the session. -/
theorem Serves.block {w : Watched M} (h : w.Serves params)
    (htakes : TakesBlocks takes params.blockSize.toNat blocks) (hw : takes w.consumer.memory)
    {packet : LoRaPacket} {data : OtaDataPacket} (hm : fromBytes packet.payload = some (.data data))
    (hdata : data ∈ blocks) (hlt : data.index.toNat < params.blockCount.toNat) :
    (w.step packet).Serves params ∧ takes (w.step packet).consumer.memory ∧
      ∃ memory, (w.step packet).consumer = { w.consumer with memory }.accept data.index := by
  obtain ⟨session, hs, rfl⟩ := Option.map_eq_some_iff.mp h.session
  obtain ⟨htaken, hafter⟩ := htakes _ hw (w.consumer.validUpToIndex.toNat *
    session.params.blockSize.toNat + data.data.toList.length) data hdata
  have hwrite : (w.consumer.writeBlock session data).1 = true := htaken
  obtain ⟨hcons, hacc⟩ := step_taken hm hs hwrite
  refine ⟨⟨?_, ?_⟩, ?_, _, hcons⟩
  · rw [hcons]
    exact h.session
  · rw [hacc]
    intro i hi
    rcases List.mem_append.mp hi with hi | hi
    · exact h.below i hi
    · rwa [List.mem_singleton.mp hi]
  · rw [hcons]
    exact hafter

end Watched

/-! ## Runs of one session -/

namespace Exchange

variable {M : Type}

/-- The host sends blocks of its binary and Dones, in any order and as often as it
likes, but not before the session is open, and does not abort. -/
def Own (blocks : List OtaDataPacket) (s : Exchange M) : ExchangeEvent → Prop
  | .data _ data => s.producer.state ≠ .init ∧ data ∈ blocks
  | .done => s.producer.state ≠ .init
  | .abort => False
  | _ => True

instance (blocks : List OtaDataPacket) (s : Exchange M) :
    (e : ExchangeEvent) → Decidable (s.Own blocks e)
  | .data _ _ => inferInstanceAs (Decidable (_ ∧ _))
  | .done => inferInstanceAs (Decidable (_ ≠ _))
  | .abort => .isFalse id
  | .transmit _ | .timeout | .receive | .deliver _ | .loseToNode _ | .loseToGateway _ =>
    .isTrue trivial

theorem own_of_automatic {blocks : List OtaDataPacket} {s : Exchange M} {e : ExchangeEvent}
    (h : e.Automatic) : s.Own blocks e := by
  cases e with
  | data _ _ => exact h.elim
  | done => exact h.elim
  | abort => exact h.elim
  | _ => trivial

section
variable (params : OtaInitPacket) (blocks : List OtaDataPacket) (takes : M → Prop)

/-- What holds all along such a run. -/
structure Live (s : Exchange M) : Prop where
  truthful : s.node.Truthful
  settled : s.node.consumer.Settled
  memory : takes s.node.consumer.memory
  nodup : s.producer.notAckedIndexes.toList.Nodup
  announced : s.producer.params = params
  request : ∀ m, s.control.request = some m →
    m = .init params ∨ m = .done ∧ s.producer.state ≠ .init
  channel : ∀ p ∈ s.toNode, ∀ m, fromBytes p.payload = some m →
    m = .init params ∨ (m = .done ∨ ∃ data ∈ blocks, m = .data data) ∧ s.producer.state ≠ .init
  -- the node says nothing before it has opened the session
  serves : s.producer.state ≠ .init ∨ s.toGateway ≠ [] → s.node.Serves params

end

variable {params : OtaInitPacket} {blocks : List OtaDataPacket} {takes : M → Prop}
  {s s' : Exchange M}

theorem live_start {node : Watched M} (ht : node.Truthful) (hs : node.consumer.Settled)
    (hm : takes node.consumer.memory) (destination : UInt32) :
    (start node params destination).Live params blocks takes where
  truthful := ht
  settled := hs
  memory := hm
  nodup := List.nodup_nil
  announced := rfl
  request := fun _ hm => Or.inl (Control.request_again (n := 10) hm)
  channel := fun _ hp => nomatch hp
  serves := fun h => by rcases h with h | h <;> exact absurd rfl h

/-- A response that the gateway takes. -/
theorem Live.respond (h : s.Live params blocks takes) {packet : LoRaPacket}
    (hmem : packet ∈ s.toGateway) {m : OtaPacket} {r : Except OtaError Schema.GatewayPacket}
    {producer : OtaProducer} (hr : s.producer.processResponse m = some (r, producer))
    {control : Control} (hc : s.control.Keeps control)
    (toGateway : List LoRaPacket) :
    Live params blocks takes { s with control, producer, toGateway } := by
  have hanswered := OtaProducer.processResponse_answered hr
  have hstate (hs : s.producer.state ≠ .init) : producer.state ≠ .init := by
    rcases hanswered.state with he | he | ⟨he, _⟩
    · rwa [he]
    · rw [he]
      nofun
    · exact absurd he hs
  have hnodup : producer.notAckedIndexes.toList.Nodup := by
    rcases OtaProducer.processResponse_marks hr with ⟨hn, _⟩ | ⟨status, _, hn, _⟩
    · rw [hn]
      exact h.nodup
    · rw [hn]
      exact (OtaProducer.mem_acknowledge h.nodup _).1
  refine ⟨h.truthful, h.settled, h.memory, hnodup, hanswered.params.trans h.announced, ?_, ?_, ?_⟩
  · exact fun m' hm' => (h.request m' (hc m' hm')).imp_right fun ⟨hd, hs⟩ => ⟨hd, hstate hs⟩
  · exact fun p hp m' hm' => (h.channel p hp m' hm').imp_right fun ⟨hd, hs⟩ => ⟨hd, hstate hs⟩
  · exact fun _ => h.serves (Or.inr (List.ne_nil_of_mem hmem))

/-- The gateway's loop goes on without a response. -/
theorem Live.wait (h : s.Live params blocks takes) {control : Control}
    (hc : s.control.Keeps control) {toGateway : List LoRaPacket}
    (hsub : toGateway ⊆ s.toGateway) : Live params blocks takes { s with control, toGateway } := by
  refine ⟨h.truthful, h.settled, h.memory, h.nodup, h.announced,
    fun m hm => h.request m (hc m hm), h.channel, fun hs => h.serves (hs.imp_right ?_)⟩
  intro hne hnil
  rw [hnil] at hsub
  exact hne (List.subset_nil.mp hsub)

variable [OtaMemoryDelegate M]

theorem Live.transmit (h : s.Live params blocks takes) {lora : ModuleLoRa}
    (hstep : s.step (.transmit lora) = some s') : s'.Live params blocks takes := by
  obtain ⟨m, left, hc, ⟨packets, hair, rfl⟩ | rfl⟩ := step_transmit_cases hstep
  · have hm := h.request m (by rw [hc]; rfl)
    refine ⟨h.truthful, h.settled, h.memory, h.nodup, h.announced, ?_, ?_, h.serves⟩
    · intro m' hm'
      cases hm'
      exact hm
    · intro p hp m' hm'
      rcases List.mem_append.mp hp with hp | hp
      · exact h.channel p hp m' hm'
      · cases (hair p hp).symm.trans hm'
        exact hm.imp_right (And.imp_left Or.inl)
  · exact h.wait s.control.keeps_idle (List.Subset.refl _)

theorem Live.receive (h : s.Live params blocks takes) (hstep : s.step .receive = some s') :
    s'.Live params blocks takes := by
  obtain ⟨packet, rest, control, hg, hkeeps, hcases⟩ := step_receive_cases hstep
  have hmem : packet ∈ s.toGateway := by rw [hg]; exact List.mem_cons_self
  have hsub : rest ⊆ s.toGateway := by rw [hg]; exact List.subset_cons_self ..
  rcases hcases with rfl | ⟨m, r, producer, _, hr, rfl⟩
  · exact h.wait hkeeps hsub
  · exact h.respond hmem hr hkeeps rest

theorem Live.data (h : s.Live params blocks takes) {lora : ModuleLoRa} {data : OtaDataPacket}
    (hcond : s.Own blocks (.data lora data)) (hstep : s.step (.data lora data) = some s') :
    s'.Live params blocks takes := by
  obtain ⟨hstate, hdata⟩ := hcond
  obtain ⟨hc, ⟨producer, p, hp, hm, rfl⟩ | rfl⟩ := step_data hstep
  · have hfields := (OtaProducer.recordSent_eq_some hp).1
    have hsame : producer.state = s.producer.state := by rw [hfields]
    refine ⟨h.truthful, h.settled, h.memory, (OtaProducer.mem_recordSent hp h.nodup).1,
      by rw [hfields]; exact h.announced, by rw [hc]; nofun, ?_, fun _ => h.serves (Or.inl hstate)⟩
    intro q hq m hm'
    rcases List.mem_append.mp hq with hq | hq
    · exact (h.channel q hq m hm').imp_right fun ⟨hd, hs⟩ => ⟨hd, by rwa [hsame]⟩
    · rw [List.mem_singleton.mp hq, hm] at hm'
      cases hm'
      exact Or.inr ⟨Or.inr ⟨data, hdata, rfl⟩, by rwa [hsame]⟩
  · exact h

/-- What a packet does to a node that it may reach. -/
theorem Live.node (h : s.Live params blocks takes)
    (htakes : TakesBlocks takes params.blockSize.toNat blocks)
    (hbelow : ∀ data ∈ blocks, data.index.toNat < params.blockCount.toNat) {packet : LoRaPacket}
    (hmem : packet ∈ s.toNode) (lora : ModuleLoRa) :
    takes (Watched.step { s.node with lora := fresh lora } packet).consumer.memory ∧
      (s.producer.state ≠ .init ∨ s.toGateway ++
          onAir (Watched.step { s.node with lora := fresh lora } packet).lora ≠ [] →
        (Watched.step { s.node with lora := fresh lora } packet).Serves params) := by
  by_cases hinit : fromBytes packet.payload = some (.init params)
  · obtain ⟨hserves, hmemory⟩ := Watched.serves_init { s.node with lora := fresh lora } hinit
    rw [hmemory]
    exact ⟨h.memory, fun _ => hserves⟩
  by_cases hdata : ∃ data, fromBytes packet.payload = some (.data data)
  · obtain ⟨data, hm⟩ := hdata
    rcases h.channel packet hmem _ hm with he | ⟨hd | ⟨data', hdata', he⟩, hstate⟩
    · cases he
    · cases hd
    · cases he
      have hserves : Watched.Serves params { s.node with lora := fresh lora } :=
        ⟨(h.serves (Or.inl hstate)).session, (h.serves (Or.inl hstate)).below⟩
      obtain ⟨hnext, htaken, _⟩ := hserves.block htakes h.memory hm hdata' (hbelow data hdata')
      exact ⟨htaken, fun _ => hnext⟩
  · have hother : ∀ m, fromBytes packet.payload = some m → m = .done := by
      intro m hm
      rcases h.channel packet hmem m hm with rfl | ⟨rfl | ⟨data, _, rfl⟩, _⟩
      · exact absurd hm hinit
      · rfl
      · exact absurd ⟨data, hm⟩ hdata
    obtain ⟨hcons, hacc⟩ := step_other (w := { s.node with lora := fresh lora }) hother
    rw [hcons]
    refine ⟨h.memory, fun hs => ?_⟩
    have hserves : s.node.Serves params := by
      cases hm : fromBytes packet.payload with
      | none =>
        -- the node does not answer what it cannot read
        have hsilent :
            onAir (Watched.step { s.node with lora := fresh lora } packet).lora = [] := by
          simp only [Watched.step, OtaConsumer.processMessage, hm]
          rfl
        rw [hsilent, List.append_nil] at hs
        exact h.serves hs
      | some m =>
        rcases h.channel packet hmem m hm with rfl | ⟨_, hstate⟩
        · exact absurd hm hinit
        · exact h.serves (Or.inl hstate)
    exact ⟨by rw [hcons]; exact hserves.session, by rw [hacc]; exact hserves.below⟩

/-- **Step lemma.** -/
theorem Live.step (h : s.Live params blocks takes)
    (htakes : TakesBlocks takes params.blockSize.toNat blocks)
    (hbelow : ∀ data ∈ blocks, data.index.toNat < params.blockCount.toNat) {e : ExchangeEvent}
    (hcond : s.Own blocks e) (hstep : s.step e = some s') : s'.Live params blocks takes := by
  cases e with
  | transmit lora => exact h.transmit hstep
  | timeout =>
    obtain ⟨control, hkeeps, rfl⟩ := step_timeout_cases hstep
    exact h.wait hkeeps (List.Subset.refl _)
  | receive => exact h.receive hstep
  | data lora data => exact h.data hcond hstep
  | done =>
    simp only [Exchange.step] at hstep
    split at hstep
    · cases hstep
      exact ⟨h.truthful, h.settled, h.memory, h.nodup, h.announced,
        fun m hm => Or.inr ⟨Control.request_again (n := 10) hm, hcond⟩, h.channel, h.serves⟩
    · cases hstep
  | abort => exact hcond.elim
  | deliver lora =>
    simp only [Exchange.step] at hstep
    split at hstep
    · cases hstep
    · next packet rest hhead =>
      cases hstep
      obtain ⟨hmemory, hserves⟩ := h.node htakes hbelow
        (by rw [hhead]; exact List.mem_cons_self : packet ∈ s.toNode) lora
      have hradio : Watched.Truthful { s.node with lora := fresh lora } :=
        ⟨h.truthful.lt, h.truthful.window, h.truthful.contiguous⟩
      refine ⟨hradio.step packet, h.settled.step (.message (fresh lora) packet), hmemory, h.nodup,
        h.announced, h.request, fun p hp => h.channel p ?_, hserves⟩
      rw [hhead]
      exact List.mem_cons_of_mem packet hp
  | loseToNode i =>
    cases hstep
    exact ⟨h.truthful, h.settled, h.memory, h.nodup, h.announced, h.request,
      fun p hp => h.channel p (List.mem_of_mem_eraseIdx hp), h.serves⟩
  | loseToGateway i =>
    cases hstep
    exact h.wait (fun _ hm => hm) (List.eraseIdx_subset ..)

/-- A run of the one session leads from one state to the other. -/
def OwnTo (blocks : List OtaDataPacket) (s s' : Exchange M) : Prop :=
  Leads Exchange.step (Own blocks) s s'

theorem AutomaticTo.ownTo {blocks : List OtaDataPacket} (h : s.AutomaticTo s') :
    s.OwnTo blocks s' :=
  Leads.mono (fun _ _ hc => own_of_automatic hc) h

/-- **Run lemma.** -/
theorem Live.run (h : s.Live params blocks takes)
    (htakes : TakesBlocks takes params.blockSize.toNat blocks)
    (hbelow : ∀ data ∈ blocks, data.index.toNat < params.blockCount.toNat)
    (hto : s.OwnTo blocks s') : s'.Live params blocks takes :=
  Leads.invariant (fun _ _ _ h hcond hstep => h.step htakes hbelow hcond hstep) hto h

/-! ## Going on -/

/-- Nothing is on its way, and the gateway has room for another block. -/
structure Ready (params : OtaInitPacket) (blocks : List OtaDataPacket) (takes : M → Prop)
    (s : Exchange M) : Prop where
  live : s.Live params blocks takes
  idle : s.control = .idle
  toNode : s.toNode = []
  toGateway : s.toGateway = []
  started : s.producer.state ≠ .init
  room : s.producer.notAckedIndexes.toList.length < 64

section

variable (htakes : TakesBlocks takes params.blockSize.toNat blocks) (hnum : Numbered blocks)
  (hcount : blocks.length = params.blockCount.toNat) (hsize : params.blockSize ≠ 0)
include htakes hnum hcount

omit [OtaMemoryDelegate M] htakes in
theorem below_of_numbered : ∀ data ∈ blocks, data.index.toNat < params.blockCount.toNat := by
  intro data hdata
  obtain ⟨i, hi⟩ := List.getElem?_of_mem hdata
  obtain ⟨hlt, _⟩ := List.getElem?_eq_some_iff.mp hi
  rw [hnum.index hi]
  omega

include hsize

/-- One block more, whichever it is. -/
theorem Ready.block (h : s.Ready params blocks takes) {data : OtaDataPacket}
    (hdata : data ∈ blocks) : ∃ s', s.OwnTo blocks s' ∧ s'.Ready params blocks takes ∧
      ∃ memory, s'.node.consumer = { s.node.consumer with memory }.accept data.index := by
  have hbelow := below_of_numbered hnum hcount
  have hserves : Watched.Serves params { s.node with lora := fresh air } :=
    ⟨(h.live.serves (Or.inl h.started)).session, (h.live.serves (Or.inl h.started)).below⟩
  obtain ⟨session, hsess, _⟩ := Option.map_eq_some_iff.mp hserves.session
  have hroomy : s.producer.Roomy := ⟨by rw [h.live.announced]; exact hsize, h.room.le⟩
  have htaken {packet : LoRaPacket} (hm : fromBytes packet.payload = some (.data data)) :=
    (hserves.block htakes h.live.memory hm hdata (hbelow data hdata)).2.2
  -- the answer acknowledges the block, whatever else it says
  have hstatus {packet : LoRaPacket} (hm : fromBytes packet.payload = some (.data data)) :
      data.index ∈ (Watched.step { s.node with lora := fresh air }
        packet).consumer.getStatus.receivedIndexes.toList := by
    obtain ⟨memory, hc⟩ := htaken hm
    rw [hc]
    exact mem_pushRecent_self _ _
  cases hrec : s.producer.recordSent data.index with
  | none =>
    have hfull := (OtaProducer.recordSent_eq_none.mp hrec).2
    have hroom := h.room
    omega
  | some producer =>
    obtain ⟨packet, producer', hm, ⟨hstate, hroom⟩, hto⟩ := round_data (C := Own blocks)
      (P := fun p => p.state ≠ .init ∧ p.notAckedIndexes.toList.length < 64)
      (fun _ _ ha _ => own_of_automatic ha) ⟨h.started, hdata⟩ h.idle h.toNode h.toGateway hsess
      hrec (by
        intro packet hm
        obtain ⟨p₁, r, p', hp₁, hr, _, hkept⟩ :=
          hroomy.block h.live.nodup h.room h.started (hstatus hm)
        cases hrec.symm.trans hp₁
        exact ⟨r, p', hr, hkept⟩)
    exact ⟨_, hto, ⟨h.live.run htakes hbelow hto, h.idle, h.toNode, h.toGateway, hstate, hroom⟩,
      htaken hm⟩

/-- **Stage lemma.**  Three blocks take the frontier past `i`. -/
theorem Ready.stage (h : s.Ready params blocks takes) {i : ℕ} (hi : i + 1 < blocks.length)
    (hle : i ≤ s.node.consumer.validUpToIndex.toNat) : ∃ s', s.OwnTo blocks s' ∧
      s'.Ready params blocks takes ∧ i + 1 ≤ s'.node.consumer.validUpToIndex.toNat := by
  have hv : blocks[i].index.toNat = i := hnum.index (List.getElem?_eq_getElem (by omega))
  have hv' : blocks[i + 1].index.toNat = i + 1 := hnum.index (List.getElem?_eq_getElem hi)
  have hlt := params.blockCount.toNat_lt
  obtain ⟨s₁, hto₁, h₁, m₁, hc₁⟩ :=
    h.block htakes hnum hcount hsize (List.getElem_mem (by omega : i < blocks.length))
  obtain ⟨s₂, hto₂, h₂, m₂, hc₂⟩ := h₁.block htakes hnum hcount hsize (List.getElem_mem hi)
  obtain ⟨s₃, hto₃, h₃, m₃, hc₃⟩ :=
    h₂.block htakes hnum hcount hsize (List.getElem_mem (by omega : i < blocks.length))
  refine ⟨s₃, (hto₁.trans hto₂).trans hto₃, h₃, ?_⟩
  have hpast := OtaConsumer.accept_past h.live.settled hle hv hv' (by omega)
  rw [hc₃, hc₂, hc₁]
  exact hpast

/-- As far as the host likes. -/
theorem Ready.frontier (h : s.Ready params blocks takes) {i : ℕ} (hi : i < blocks.length) :
    ∃ s', s.OwnTo blocks s' ∧ s'.Ready params blocks takes ∧
      i ≤ s'.node.consumer.validUpToIndex.toNat := by
  induction i with
  | zero => exact ⟨s, .refl s, h, Nat.zero_le _⟩
  | succ i ih =>
    obtain ⟨s₁, hto₁, h₁, hle₁⟩ := ih (by omega)
    obtain ⟨s₂, hto₂, h₂, hle₂⟩ := h₁.stage htakes hnum hcount hsize hi hle₁
    exact ⟨s₂, hto₁.trans hto₂, h₂, hle₂⟩

omit htakes hnum hsize in
/-- With all its blocks the node acknowledges a Done. -/
theorem Ready.done (h : s.Ready params blocks takes) (hpos : 1 ≤ blocks.length)
    (hfront : blocks.length - 1 ≤ s.node.consumer.validUpToIndex.toNat) :
    ∃ s', s.OwnTo blocks s' ∧ s'.producer.isDone = true ∧ s'.node.consumer.isDone = true := by
  have hserves := h.live.serves (Or.inl h.started)
  obtain ⟨session, hsess, hparams⟩ := Option.map_eq_some_iff.mp hserves.session
  have hlt : s.node.consumer.validUpToIndex.toNat < params.blockCount.toNat := by
    by_cases hzero : 0 < s.node.consumer.validUpToIndex.toNat
    · exact hserves.below _ (toNat_mem_indexSet.mp
        (h.live.truthful.contiguous hzero _ (Nat.le_refl _)))
    · omega
  have hdone : s.node.consumer.isDone = true := by
    refine (OtaConsumer.isDone_iff hsess h.live.settled.lt).mpr ?_
    rw [hparams]
    omega
  obtain ⟨s', hto, hended, hcons⟩ := round_done (C := Own blocks)
    (fun _ _ ha _ => own_of_automatic ha) h.started h.idle h.toNode h.toGateway hsess hdone
  refine ⟨s', hto, hended, ?_⟩
  rw [hcons]
  exact hdone

end

end Exchange

/-- **No dead end.**  From every state of a session, whatever was lost, repeated or sent out
of order in it, and however far the frontier has fallen behind, the host can still bring
a download of at least one block to its end.  It must have got its Init through, the
block size must not be 0, fewer blocks than a report to the host has room for may be
outstanding, and the memory has to take the blocks. -/
theorem download_recovers {M : Type} [OtaMemoryDelegate M] (memory : M) (lora : ModuleLoRa)
    (history : List LoRaPacket) (params : OtaInitPacket) (destination : UInt32)
    (blocks : List OtaDataPacket) (hnum : Numbered blocks)
    (hcount : blocks.length = params.blockCount.toNat) (hpos : 1 ≤ blocks.length)
    (hsize : params.blockSize ≠ 0) (takes : M → Prop)
    (htakes : TakesBlocks takes params.blockSize.toNat blocks)
    (hmemory : takes (run Watched.step (.start memory lora) history).consumer.memory)
    (s : Exchange M)
    (hto : (Exchange.start (run Watched.step (.start memory lora) history) params
      destination).OwnTo blocks s)
    (hopen : s.producer.state ≠ .init) (hroom : s.producer.notAckedIndexes.toList.length < 64) :
    ∃ s', s.OwnTo blocks s' ∧ s'.producer.isDone = true ∧ s'.node.consumer.isDone = true := by
  have hsettled : (run Watched.step (Watched.start memory lora) history).consumer.Settled :=
    run_invariant (P := fun w : Watched M => w.consumer.Settled)
      (fun w p h => h.step (.message w.lora p)) (OtaConsumer.settled_new memory) history
  have hstart : (Exchange.start (run Watched.step (.start memory lora) history) params
      destination).Live params blocks takes :=
    Exchange.live_start ((Watched.truthful_start memory lora).run history) hsettled hmemory
      destination
  obtain ⟨s₁, hstill, hidle, hnode, hgateway, _, hproducer⟩ := s.to_still
  have hrest : s.OwnTo blocks s₁ := hstill.ownTo
  have hlive := hstart.run htakes (Exchange.below_of_numbered hnum hcount) (hto.trans hrest)
  have hready : s₁.Ready params blocks takes := ⟨hlive, hidle, hnode, hgateway,
    by rw [hproducer]; exact hopen, by rw [hproducer]; exact hroom⟩
  obtain ⟨s₂, hto₂, h₂, hfront⟩ :=
    hready.frontier htakes hnum hcount hsize (i := blocks.length - 1) (by omega)
  obtain ⟨s₃, hto₃, hend⟩ := h₂.done hcount hpos hfront
  exact ⟨s₃, (hrest.trans hto₂).trans hto₃, hend⟩

/-- The memory of a node at its first page, which has room, with nothing queued. -/
structure Filling (m : OtaMemory) : Prop where
  atStart : m.AtStart
  queue : m.queue.entries = []
  room : m.currentPage.lastAddress < pageSize

theorem filling_new : Filling OtaMemory.new := ⟨OtaMemory.atStart_new, rfl, by decide⟩

/-- It takes a download that does not fill that page. -/
theorem takesBlocks_filling {blockSize : ℕ} {blocks : List OtaDataPacket}
    (h : ∀ data ∈ blocks, blockSize * data.index.toNat + data.data.toList.length < pageSize) :
    TakesBlocks Filling blockSize blocks := by
  intro m hm validUpTo data hdata
  have hlt := h data hdata
  have hstart := hm.atStart.write validUpTo (blockSize * data.index.toNat) data.data
  have hpage : m.flushedPage = m.currentPage := by
    rw [OtaMemory.flushedPage, hm.queue, List.filter_nil, OtaPage.writeAll_nil]
  have hqueue : m.flushedQueue.entries = [] :=
    OtaMemory.flushedQueue_nil fun e he => by rw [hm.queue] at he; cases he
  change (m.write validUpTo _ data.data).1 = true ∧ Filling (m.write validUpTo _ data.data).2
  rw [OtaMemory.write_eq, hm.atStart.current, if_neg (Nat.not_lt_zero _), hpage] at hstart ⊢
  rcases m.currentPage.write_cases (blockSize * data.index.toNat) data.data.toList with
    ⟨_, _, hw⟩ | ⟨hno, _⟩
  · rw [hw, if_pos rfl] at hstart ⊢
    refine ⟨rfl, hstart, hqueue, ?_⟩
    change blockSize * data.index.toNat - m.currentPage.address + data.data.toList.length < pageSize
    rw [hm.atStart.current]
    exact hlt
  · rw [hm.atStart.current] at hno
    have hroom := hm.room
    omega

/-- Three blocks, of which the second was never sent, the first got lost, and the
acknowledgement of the third as well. -/
theorem download_recovers_three :
    let blocks := (List.range 3).map fun i =>
      (⟨UInt16.ofNat i, ⟨List.replicate 64 1, by decide⟩⟩ : OtaDataPacket)
    let node := run Watched.step (.start OtaMemory.new air) []
    ∃ s s', runOpt Exchange.step (.start node ⟨192, .replicate 32 0, 64, 3⟩ 3)
        [.transmit air, .deliver air, .receive, .data air ⟨0, ⟨List.replicate 64 1, by decide⟩⟩,
          .data air ⟨2, ⟨List.replicate 64 1, by decide⟩⟩, .loseToNode 0, .deliver air,
          .loseToGateway 0] = some s ∧
      s.OwnTo blocks s' ∧ s'.producer.isDone = true ∧ s'.node.consumer.isDone = true := by
  intro blocks node
  have hrun : ∃ s, runOpt Exchange.step (.start node ⟨192, .replicate 32 0, 64, 3⟩ 3)
        [.transmit air, .deliver air, .receive, .data air ⟨0, ⟨List.replicate 64 1, by decide⟩⟩,
          .data air ⟨2, ⟨List.replicate 64 1, by decide⟩⟩, .loseToNode 0, .deliver air,
          .loseToGateway 0] = some s ∧
      s.producer.state ≠ .init ∧ s.producer.notAckedIndexes.toList.length < 64 := by
    decide +kernel
  obtain ⟨s, hrun, hopen, hroom⟩ := hrun
  obtain ⟨s', hend⟩ := download_recovers OtaMemory.new air [] ⟨192, .replicate 32 0, 64, 3⟩ 3 blocks
    (by decide) rfl (by decide) (by decide) Filling (takesBlocks_filling (by decide)) filling_new s
    ⟨_, by decide +kernel, hrun⟩ hopen hroom
  exact ⟨s, s', hrun, hend⟩

end LoraModuleFw.Ota
