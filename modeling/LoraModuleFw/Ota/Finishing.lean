import LoraModuleFw.Ota.Delivery
import LoraModuleFw.Ota.Outstanding

/-! How an orderly download ends: once every block is out the host can always get
its Done acknowledged, and over a channel that loses nothing it gets that far. -/

namespace LoraModuleFw.Ota

open Lora Runs ModuleNode

/-- A radio that never refuses to transmit. -/
def air : ModuleLoRa := .quiet 0

theorem accepts_air : air.Accepts := fun _ h => by cases h

theorem loraTransmit_air (destination : UInt32) (m : OtaPacket) :
    (loraTransmit (fresh air) destination m).1 = .ok () := by
  have haccepts : (fresh air).Accepts := accepts_air
  rw [loraTransmit_eq, haccepts.transmit]
  rfl

theorem onAir_air (destination : UInt32) (m : OtaPacket) :
    ∃ p, onAir (loraTransmit (fresh air) destination m).2 = [p] ∧ fromBytes p.payload = some m :=
  onAir_of_ok (loraTransmit_air destination m)

/-- No packet gets lost, and no response is given up. -/
def ExchangeEvent.Lossless : ExchangeEvent → Prop
  | .loseToNode _ | .loseToGateway _ | .timeout => False
  | _ => True

/-- The host does nothing, and what is on its way to the node gets there. -/
def ExchangeEvent.Automatic : ExchangeEvent → Prop
  | .transmit _ | .timeout | .receive | .deliver _ | .loseToGateway _ => True
  | _ => False

namespace OtaProducer

/-- The first outstanding block. -/
theorem recordSent_alone {p : OtaProducer} (h : p.notAckedIndexes.toList = []) (index : UInt16) :
    ∃ p', p.recordSent index = some p' ∧ p'.notAckedIndexes.toList = [index] ∧
      p'.params = p.params ∧ p'.state = p.state ∧
      p'.highestSentIndex = if index > p.highestSentIndex then index else p.highestSentIndex := by
  cases hr : p.recordSent index with
  | none =>
    have hfull := (recordSent_eq_none.mp hr).2
    rw [h] at hfull
    cases hfull
  | some p' =>
    obtain ⟨hfields, hlist⟩ := recordSent_eq_some hr
    rw [h, if_neg List.not_mem_nil] at hlist
    exact ⟨p', rfl, hlist, by rw [hfields], by rw [hfields], by rw [hfields]⟩

/-- The status that acknowledges the only outstanding block. -/
theorem processResponse_alone {p : OtaProducer} {index : UInt16} {status : OtaStatusPacket}
    (h : p.notAckedIndexes.toList = [index]) (hack : index ∈ status.receivedIndexes.toList)
    (hstate : p.state = .download) (hsize : p.params.blockSize.toNat ≠ 0) :
    ∃ r p', p.processResponse (.status status) = some (r, p') ∧
      p'.notAckedIndexes.toList = [] ∧ p'.highestSentIndex = p.highestSentIndex ∧
      (p.highestSentIndex.toNat ≠ p.params.binarySize.toNat / p.params.blockSize.toNat →
        p'.state = .download) := by
  have hnodup : p.notAckedIndexes.toList.Nodup := by
    rw [h]
    exact List.nodup_singleton index
  have hnone : (acknowledge p.notAckedIndexes status.receivedIndexes.toList).toList = [] := by
    apply List.eq_nil_iff_forall_not_mem.mpr
    intro i hi
    obtain ⟨hin, hnot⟩ := ((mem_acknowledge hnodup _).2 i).mp hi
    rw [h, List.mem_singleton] at hin
    exact hnot (hin ▸ hack)
  cases hr : p.processResponse (.status status) with
  | none =>
    obtain ⟨_, status', he, hs⟩ := processResponse_eq_none.mp hr
    cases he
    rcases processStatus_eq_none.mp hs with hz | hlt
    · have hzero : p.params.blockSize = 0 := (allAcked_eq_none.mp hz).2
      exact absurd (congrArg UInt16.toNat hzero) hsize
    · have hnil : (p.marked status).notAckedIndexes.toList = [] := hnone
      rw [hnil] at hlt
      cases hlt
  | some answer =>
    obtain ⟨r, p'⟩ := answer
    rcases processResponse_cases hr with
      ⟨_, _, hinit⟩ | ⟨hm, _⟩ | ⟨status', he, _, hs⟩ | ⟨hm | hm, _⟩
    · rw [hinit status rfl] at hstate
      cases hstate
    · cases hm
    · cases he
      obtain ⟨hfields, hend⟩ := processStatus_eq_some hs
      refine ⟨r, p', rfl, by rw [hfields]; exact hnone, by rw [hfields], ?_⟩
      intro hne
      rcases hend with ⟨hall, _, _⟩ | ⟨_, _, hsame⟩
      · -- the completion test looks at the highest index sent
        rw [hfields] at hall
        simp only [allAcked, hnone, if_true, checkedDiv, if_neg hsize, Option.map_some,
          Option.some.injEq, beq_iff_eq] at hall
        exact absurd hall hne
      · exact hsame.trans hstate
    · cases hm
    · cases hm

end OtaProducer

/-- The answer to a block that the session expects. -/
theorem OtaConsumer.processMessage_data_reply {M : Type} [OtaMemoryDelegate M] {c : OtaConsumer M}
    {session : SessionParams} {packet : LoRaPacket} {data : OtaDataPacket}
    (hm : fromBytes packet.payload = some (.data data)) (hs : c.session = some session) :
    ∃ q, onAir (c.processMessage (fresh air) packet).2.2 = [q] ∧ fromBytes q.payload =
      some (.status (c.processMessage (fresh air) packet).2.1.getStatus) := by
  obtain ⟨q, hq, hr⟩ := onAir_air session.sourceAddress
    (.status (c.processMessage (fresh air) packet).2.1.getStatus)
  refine ⟨q, ?_, hr⟩
  rw [← hq]
  simp only [processMessage, hm, handleData, hs]

namespace Exchange

variable {M : Type} [OtaMemoryDelegate M] {blocks : List OtaDataPacket} {s : Exchange M}

/-- An orderly run leads from one state to the other. -/
def OrderlyTo (blocks : List OtaDataPacket) (s s' : Exchange M) : Prop :=
  Leads Exchange.step (Orderly blocks) s s'

/-- So does one in which nothing gets lost. -/
def LosslessTo (blocks : List OtaDataPacket) (s s' : Exchange M) : Prop :=
  Leads Exchange.step (fun s e => s.Orderly blocks e ∧ e.Lossless) s s'

theorem LosslessTo.orderlyTo {s s' : Exchange M}
    (h : s.LosslessTo blocks s') : s.OrderlyTo blocks s' :=
  Leads.mono (fun _ _ hc => hc.1) h

omit [OtaMemoryDelegate M] in
theorem orderly_of_automatic {s : Exchange M} {e : ExchangeEvent} (h : e.Automatic) :
    s.Orderly blocks e := by
  cases e with
  | data _ _ => exact h.elim
  | loseToNode _ => exact h.elim
  | abort => exact h.elim
  | _ => trivial

omit [OtaMemoryDelegate M] in
theorem lossless_of_automatic (s : Exchange M) (e : ExchangeEvent) (h : e.Automatic)
    (hl : e.Lossless) : s.Orderly blocks e ∧ e.Lossless := ⟨orderly_of_automatic h, hl⟩

/-! ## Coming to rest -/

/-- By itself the exchange gets from one state to the other. -/
def AutomaticTo (s s' : Exchange M) : Prop := Leads Exchange.step (fun _ e => e.Automatic) s s'

theorem AutomaticTo.orderlyTo {s s' : Exchange M} (h : s.AutomaticTo s') : s.OrderlyTo blocks s' :=
  Leads.mono (fun _ _ hc => orderly_of_automatic hc) h

theorem again_idle {m : OtaPacket} {n : Nat} {s : Exchange M} (hc : s.control = .again m n) :
    ∃ s', s.AutomaticTo s' ∧ s'.control = .idle ∧ s'.transmitted = s.transmitted ∧
      s'.producer = s.producer := by
  induction n generalizing s with
  | zero => exact ⟨s, .refl s, hc, rfl, rfl⟩
  | succ n ih =>
    obtain ⟨payload, hp⟩ := toVec_isSome m
    obtain ⟨toNode, hstep⟩ := step_transmit hc hp air
    rw [accepts_air.transmit] at hstep
    obtain ⟨s', hrun, hend⟩ := ih (s := { s with control := .again m n, toNode }) rfl
    exact ⟨s', .head hstep trivial (.head (a := .timeout) rfl trivial hrun), hend⟩

/-- The gateway gives up its request, if it is busy with one. -/
theorem to_idle (s : Exchange M) :
    ∃ s', s.AutomaticTo s' ∧ s'.control = .idle ∧ s'.transmitted = s.transmitted ∧
      s'.producer = s.producer := by
  cases hc : s.control with
  | idle => exact ⟨s, .refl s, hc, rfl, rfl⟩
  | transmit m left => exact again_idle (n := left + 1) hc
  | receive m left =>
    have hstep : s.step .timeout = some { s with control := .again m left } := by
      simp only [step, hc]
    obtain ⟨s', hrun, hend⟩ := again_idle (s := { s with control := .again m left }) rfl
    exact ⟨s', .head hstep trivial hrun, hend⟩

/-- Everything on its way to the node arrives. -/
theorem to_delivered (s : Exchange M) : ∃ s', s.AutomaticTo s' ∧ s'.toNode = [] ∧
    s'.control = s.control ∧ s'.transmitted = s.transmitted ∧ s'.producer = s.producer := by
  generalize hn : s.toNode = toNode
  induction toNode generalizing s with
  | nil => exact ⟨s, .refl s, hn, rfl, rfl, rfl⟩
  | cons packet toNode ih =>
    obtain ⟨t, hstep, hrest, hcontrol, hsent, hproducer⟩ : ∃ t, s.step (.deliver air) = some t ∧
        t.toNode = toNode ∧ t.control = s.control ∧ t.transmitted = s.transmitted ∧
        t.producer = s.producer := by
      simp only [step, hn]
      exact ⟨_, rfl, rfl, rfl, rfl, rfl⟩
    rw [← hcontrol, ← hsent, ← hproducer]
    obtain ⟨s', hrun, hfinal⟩ := ih t hrest
    exact ⟨s', .head hstep trivial hrun, hfinal⟩

/-- Everything on its way to the gateway gets lost. -/
theorem to_silent (s : Exchange M) : ∃ s', s.AutomaticTo s' ∧ s'.toGateway = [] ∧
    s'.toNode = s.toNode ∧ s'.control = s.control ∧ s'.transmitted = s.transmitted ∧
    s'.producer = s.producer := by
  generalize hg : s.toGateway = toGateway
  induction toGateway generalizing s with
  | nil => exact ⟨s, .refl s, hg, rfl, rfl, rfl, rfl⟩
  | cons packet toGateway ih =>
    have hstep : s.step (.loseToGateway 0) = some { s with toGateway } := by
      simp only [step, hg, List.eraseIdx_cons_zero]
    obtain ⟨s', hrun, hfinal⟩ := ih { s with toGateway } rfl
    exact ⟨s', .head hstep trivial hrun, hfinal⟩

/-- By itself the exchange can come to a state with nothing on its way. -/
theorem to_still (s : Exchange M) : ∃ s', s.AutomaticTo s' ∧ s'.control = .idle ∧
    s'.toNode = [] ∧ s'.toGateway = [] ∧ s'.transmitted = s.transmitted ∧
    s'.producer = s.producer := by
  obtain ⟨s₁, hto₁, hidle, hsent₁, hprod₁⟩ := s.to_idle
  obtain ⟨s₂, hto₂, hnode, hcontrol₂, hsent₂, hprod₂⟩ := s₁.to_delivered
  obtain ⟨s₃, hto₃, hgateway, hnode₃, hcontrol₃, hsent₃, hprod₃⟩ := s₂.to_silent
  exact ⟨s₃, (hto₁.trans hto₂).trans hto₃, (hcontrol₃.trans hcontrol₂).trans hidle,
    hnode₃.trans hnode, hgateway, (hsent₃.trans hsent₂).trans hsent₁,
    (hprod₃.trans hprod₂).trans hprod₁⟩

/-! ## A request and its response -/

/-- A round in which nothing gets lost. -/
theorem round (resp : OtaPacket) {m : OtaPacket} {left : Nat} {r : Except OtaError Schema.GatewayPacket}
    {producer : OtaProducer} (hc : s.control = .transmit m left) (hn : s.toNode = [])
    (hg : s.toGateway = [])
    (hanswer : ∀ packet, fromBytes packet.payload = some m → ∃ destination,
      (s.node.consumer.processMessage (fresh air) packet).2.2 =
        (loraTransmit (fresh air) destination resp).2)
    (hresp : s.producer.processResponse resp = some (r, producer)) :
    ∃ packet, fromBytes packet.payload = some m ∧
      Leads Exchange.step (fun _ e => e.Automatic ∧ e.Lossless) s { s with
        control := .idle, producer
        node := Watched.step { s.node with lora := fresh air } packet } := by
  obtain ⟨packet, hair, hm⟩ := onAir_air s.producer.destinationAddress m
  obtain ⟨destination, hreply⟩ := hanswer packet hm
  obtain ⟨reply, hreplied, hr⟩ := onAir_air destination resp
  have hlora : onAir (Watched.step { s.node with lora := fresh air } packet).lora = [reply] := by
    rw [← hreplied, ← hreply]
    rfl
  have htransmit : s.step (.transmit air) = some { s with
      control := .receive m left, toNode := [packet] } := by
    have hok := loraTransmit_air s.producer.destinationAddress m
    simp only [step, hc, hn, List.nil_append]
    split
    · next heq =>
      rw [← hair, heq]
    · next heq =>
      rw [heq] at hok
      cases hok
  refine ⟨packet, hm, .head htransmit ⟨trivial, trivial⟩
    (.head (a := .deliver air) rfl ⟨trivial, trivial⟩ ?_)⟩
  refine .single (a := .receive) ?_ ⟨trivial, trivial⟩
  simp only [step, hg, hlora, List.nil_append, hr, hresp, Option.map_some]
  rw [hn]

/-- A block, its status, and what the gateway makes of it. -/
theorem round_data {C : Exchange M → ExchangeEvent → Prop} {P : OtaProducer → Prop}
    {data : OtaDataPacket} {session : SessionParams} {producer : OtaProducer}
    (hauto : ∀ s e, e.Automatic → e.Lossless → C s e) (hdata : C s (.data air data))
    (hc : s.control = .idle) (hn : s.toNode = []) (hg : s.toGateway = [])
    (hsess : s.node.consumer.session = some session)
    (hrec : s.producer.recordSent data.index = some producer)
    (hresp : ∀ packet, fromBytes packet.payload = some (.data data) → ∃ r producer',
      producer.processResponse (.status (Watched.step { s.node with lora := fresh air }
        packet).consumer.getStatus) = some (r, producer') ∧ P producer') :
    ∃ packet producer', fromBytes packet.payload = some (.data data) ∧ P producer' ∧
      Leads Exchange.step C s { s with
        producer := producer', transmitted := s.transmitted ++ [data.index]
        node := Watched.step { s.node with lora := fresh air } packet } := by
  obtain ⟨packet, hair, hm⟩ := onAir_air s.producer.destinationAddress (.data data)
  obtain ⟨r, producer', hstatus, hp⟩ := hresp packet hm
  obtain ⟨q, hreply, hq⟩ := OtaConsumer.processMessage_data_reply hm hsess
  have hsend : s.step (.data air data) = some { s with
      producer, toNode := [packet], transmitted := s.transmitted ++ [data.index] } := by
    simp only [Exchange.step, hc, OtaProducer.continueDownload_taken (loraTransmit_air ..), hrec,
      Option.map_some, hair, hn, List.nil_append]
  have hdeliver : Exchange.step { s with
      producer, toNode := [packet], transmitted := s.transmitted ++ [data.index] }
      (.deliver air) = some { s with
        producer, transmitted := s.transmitted ++ [data.index]
        node := Watched.step { s.node with lora := fresh air } packet, toGateway := [q] } := by
    simp only [Exchange.step, hg, List.nil_append]
    rw [← hreply, hn]
    rfl
  have hreceive : Exchange.step { s with
        producer, transmitted := s.transmitted ++ [data.index]
        node := Watched.step { s.node with lora := fresh air } packet, toGateway := [q] } .receive =
      some { s with
        producer := producer', transmitted := s.transmitted ++ [data.index]
        node := Watched.step { s.node with lora := fresh air } packet } := by
    have hraw : producer.processResponseRaw q = some (r, producer') := by
      rw [OtaProducer.processResponseRaw, hq]
      exact hstatus
    simp only [Exchange.step, hc, hraw, Option.map_some]
    rw [hg]
  refine ⟨packet, producer', hm, hp, .head hsend hdata ?_⟩
  exact .head hdeliver (hauto _ _ trivial trivial) (.single hreceive (hauto _ _ trivial trivial))

/-- A Done to a node that has every block. -/
theorem round_done {C : Exchange M → ExchangeEvent → Prop} {session : SessionParams}
    (hauto : ∀ s e, e.Automatic → e.Lossless → C s e) (hask : C s .done) (hc : s.control = .idle)
    (hn : s.toNode = []) (hg : s.toGateway = []) (hsess : s.node.consumer.session = some session)
    (hdone : s.node.consumer.isDone = true) :
    ∃ s', Leads Exchange.step C s s' ∧ s'.producer.isDone = true ∧
      s'.node.consumer = s.node.consumer := by
  have hrequest : s.step .done = some { s with control := .transmit .done 9 } := by
    simp only [Exchange.step, hc, if_true]
    rfl
  have hanswer : ∀ packet, fromBytes packet.payload = some .done → ∃ destination,
      (s.node.consumer.processMessage (fresh air) packet).2.2 =
        (loraTransmit (fresh air) destination .doneAck).2 := by
    intro packet hm
    refine ⟨session.sourceAddress, ?_⟩
    simp only [OtaConsumer.processMessage, hm, OtaConsumer.handleDone, hsess, hdone, if_true]
  obtain ⟨packet, hm, hround⟩ := round .doneAck (s := { s with control := .transmit .done 9 }) rfl
    hn hg hanswer rfl
  have honly : ∀ m, fromBytes packet.payload = some m → m = .done := by
    intro m hm'
    exact Option.some.inj (hm'.symm.trans hm)
  obtain ⟨hcons, _⟩ := step_other (w := { s.node with lora := fresh air }) honly
  exact ⟨_, .head hrequest hask (Leads.mono (fun s e hc => hauto s e hc.1 hc.2) hround), rfl, hcons⟩

/-! ## The end of a download -/

section

variable {params : OtaInitPacket} {memory₀ final : M}
  (hnum : Numbered blocks) (hcount : blocks.length = params.blockCount.toNat)
  (hwrite : runOpt (install params.blockSize.toNat) memory₀ blocks = some final)
include hnum hcount hwrite

theorem InOrder.leads {s' : Exchange M} (h : s.InOrder params blocks memory₀)
    (hto : s.OrderlyTo blocks s') : s'.InOrder params blocks memory₀ := by
  have hlt := params.blockCount.toNat_lt
  exact Leads.invariant (fun _ _ _ h hcond hstep => h.step hnum hwrite (by omega) hcond hstep) hto h

omit hnum in
/-- When nothing is on its way, a Done is acknowledged. -/
theorem InOrder.done (h : s.InOrder params blocks memory₀) (hpos : 1 ≤ blocks.length)
    (hall : s.transmitted.length = blocks.length) (hidle : s.control = .idle)
    (hnode : s.toNode = []) (hgateway : s.toGateway = []) :
    ∃ s', s.LosslessTo blocks s' ∧ s'.producer.isDone = true ∧
      s'.node.consumer.isDone = true ∧ s'.node.consumer.memory = final := by
  have hempty : s.inFlight = [] := by rw [inFlight, hnode, List.filterMap_nil]
  obtain ⟨htaken, hdone, hmemory⟩ := h.complete hcount hpos hwrite hall hempty
  obtain ⟨session, hsess, _⟩ := Option.map_eq_some_iff.mp htaken.session
  obtain ⟨s', hto, hended, hcons⟩ := round_done (C := fun s e => Orderly blocks s e ∧ e.Lossless)
    lossless_of_automatic ⟨trivial, trivial⟩ hidle hnode hgateway hsess hdone
  refine ⟨s', hto, hended, ?_, ?_⟩
  · rw [hcons]
    exact hdone
  · rw [hcons]
    exact hmemory

/-! ## A download that loses nothing -/

/-- Between two blocks: all sent so far have been taken and acknowledged. -/
structure Resting (params : OtaInitPacket) (blocks : List OtaDataPacket) (memory₀ : M) (k : ℕ)
    (s : Exchange M) : Prop where
  inOrder : s.InOrder params blocks memory₀
  idle : s.control = .idle
  toNode : s.toNode = []
  toGateway : s.toGateway = []
  sent : s.transmitted.length = k
  state : k < blocks.length → s.producer.state = .download
  acked : s.producer.notAckedIndexes.toList = []
  highest : s.producer.highestSentIndex.toNat = k - 1

/-- The Init and its acknowledgement. -/
theorem resting_start {node : Watched M} (hnode : node.Truthful) (destination : UInt32)
    (hmemory : node.consumer.memory = memory₀) :
    ∃ s, (start node params destination).LosslessTo blocks s ∧
      s.Resting params blocks memory₀ 0 := by
  have hstart : (start node params destination).InOrder params blocks memory₀ := by
    rw [← hmemory]
    exact inOrder_start hnode destination
  obtain ⟨packet, hm, hround⟩ := round .initAck (s := start node params destination) rfl rfl rfl (by
      intro packet hm
      refine ⟨packet.source, ?_⟩
      simp only [start, OtaConsumer.processMessage, hm, OtaConsumer.handleInit]) rfl
  have hto : (start node params destination).LosslessTo blocks _ :=
    Leads.mono (fun s e hc => lossless_of_automatic s e hc.1 hc.2) hround
  refine ⟨_, hto, ?_⟩
  exact ⟨hstart.leads hnum hcount hwrite hto.orderlyTo, rfl, rfl, rfl, rfl, fun _ => rfl, rfl, rfl⟩

/-- One block more. -/
theorem Resting.block {k : ℕ} (h : s.Resting params blocks memory₀ k) {data : OtaDataPacket}
    (hk : blocks[k]? = some data) (hsize : params.blockSize.toNat ≠ 0)
    (hfits : blocks.length ≤ params.binarySize.toNat / params.blockSize.toNat + 1) :
    ∃ s', s.LosslessTo blocks s' ∧ s'.Resting params blocks memory₀ (k + 1) := by
  have hindex : data.index.toNat = k := hnum.index hk
  obtain ⟨hlt, _⟩ := List.getElem?_eq_some_iff.mp hk
  have htaken : s.Taken params blocks memory₀ k := by
    rcases h.inOrder.stage with hw | ⟨j, ht⟩
    · exact absurd (h.state hlt) hw.state
    · have hdrained := ht.drained (by rw [inFlight, h.toNode, List.filterMap_nil])
      rwa [h.sent] at hdrained
  obtain ⟨session, hsess, rfl⟩ := Option.map_eq_some_iff.mp htaken.session
  obtain ⟨after, hafter⟩ := htaken.installs hwrite hk
  obtain ⟨producer, hrec, hout, hparams, hstate, hhigh⟩ :=
    OtaProducer.recordSent_alone h.acked data.index
  have hcond : s.Orderly blocks (.data air data) := ⟨h.state hlt, by rw [h.sent]; exact hk⟩
  obtain ⟨packet, producer', _, ⟨hacked, hhigh', hstill⟩, hto⟩ :=
    round_data (C := fun s e => Orderly blocks s e ∧ e.Lossless)
      (P := fun p => p.notAckedIndexes.toList = [] ∧
        p.highestSentIndex = producer.highestSentIndex ∧
        (producer.highestSentIndex.toNat ≠
          producer.params.binarySize.toNat / producer.params.blockSize.toNat →
            p.state = .download))
      lossless_of_automatic ⟨hcond, trivial⟩ h.idle h.toNode h.toGateway hsess hrec (by
        intro packet hm
        obtain ⟨hcons, _⟩ := OtaConsumer.processMessage_install hm hsess
          (by rw [hindex]; exact htaken.counted) hafter (fresh air)
        refine OtaProducer.processResponse_alone hout ?_ (hstate.trans (h.state hlt))
          (by rwa [hparams, h.inOrder.announced])
        simp only [Watched.step, hcons]
        exact mem_pushRecent_self _ _)
  have htop : producer'.highestSentIndex.toNat = k := by
    have hbefore := h.highest
    rw [hhigh', hhigh]
    split
    · exact hindex
    · next hle =>
      have hle' := UInt16.le_iff_toNat_le.mp (UInt16.not_lt.mp hle)
      omega
  refine ⟨_, hto, h.inOrder.leads hnum hcount hwrite (LosslessTo.orderlyTo hto), h.idle, h.toNode,
    h.toGateway, ?_, ?_, hacked, ?_⟩
  · simp only [List.length_append, List.length_singleton, h.sent]
  · intro hmore
    apply hstill
    rw [← hhigh', htop, hparams, h.inOrder.announced]
    omega
  · exact htop

/-- From the Init to any block. -/
theorem resting_at {node : Watched M} (hnode : node.Truthful) (destination : UInt32)
    (hmemory : node.consumer.memory = memory₀) (hsize : params.blockSize.toNat ≠ 0)
    (hfits : blocks.length ≤ params.binarySize.toNat / params.blockSize.toNat + 1) {k : ℕ}
    (hk : k ≤ blocks.length) : ∃ s, (start node params destination).LosslessTo blocks s ∧
      s.Resting params blocks memory₀ k := by
  induction k with
  | zero => exact resting_start hnum hcount hwrite hnode destination hmemory
  | succ k ih =>
    obtain ⟨s, hto, hrest⟩ := ih (by omega)
    have hget : blocks[k]? = some blocks[k] := List.getElem?_eq_getElem (by omega)
    obtain ⟨s', hto', hrest'⟩ := hrest.block hnum hcount hwrite hget hsize hfits
    exact ⟨s', hto.trans hto', hrest'⟩

end

end Exchange

/-- **A download completes** over a channel that loses nothing, if what the node has been
through before has left a memory that takes the blocks in order, at least one; the memory
is `final` then. -/
theorem download_completes {M : Type} [OtaMemoryDelegate M] (memory : M) (lora : ModuleLoRa)
    (history : List LoRaPacket) (params : OtaInitPacket) (destination : UInt32)
    (blocks : List OtaDataPacket) (hnum : Numbered blocks)
    (hcount : blocks.length = params.blockCount.toNat) (hpos : 1 ≤ blocks.length)
    (hsize : params.blockSize.toNat ≠ 0)
    (hfits : blocks.length ≤ params.binarySize.toNat / params.blockSize.toNat + 1) (final : M)
    (hwrite : runOpt (install params.blockSize.toNat)
      (run Watched.step (.start memory lora) history).consumer.memory blocks = some final) :
    ∃ s, (Exchange.start (run Watched.step (.start memory lora) history) params
        destination).LosslessTo blocks s ∧ s.producer.isDone = true ∧
      s.node.consumer.isDone = true ∧ s.node.consumer.memory = final := by
  obtain ⟨s, hto, hrest⟩ := Exchange.resting_at hnum hcount hwrite
    ((Watched.truthful_start memory lora).run history) destination rfl hsize hfits (Nat.le_refl _)
  obtain ⟨s', hto', hend⟩ := hrest.inOrder.done hcount hwrite hpos hrest.sent hrest.idle
    hrest.toNode hrest.toGateway
  exact ⟨s', hto.trans hto', hend⟩

/-- Forty blocks for a node that has an unfinished session. -/
theorem download_completes_forty :
    let blocks := (List.range 40).map fun i =>
      (⟨UInt16.ofNat i, ⟨[7], by decide⟩⟩ : OtaDataPacket)
    let history := [(OtaPacket.init ⟨9, .replicate 32 0, 1, 9⟩).packet 1 3]
    ∃ final s, (Exchange.start (run Watched.step (.start OtaMemory.new air) history)
        ⟨40, .replicate 32 0, 1, 40⟩ 3).LosslessTo blocks s ∧ s.producer.isDone = true ∧
      s.node.consumer.isDone = true ∧ s.node.consumer.memory = final := by
  intro blocks history
  have hwrite : ∃ final, runOpt (install 1) (run Watched.step
      (.start OtaMemory.new air) history).consumer.memory blocks = some final :=
    Option.isSome_iff_exists.mp (by decide +kernel)
  obtain ⟨final, hwrite⟩ := hwrite
  obtain ⟨s, hend⟩ := download_completes OtaMemory.new air history ⟨40, .replicate 32 0, 1, 40⟩ 3
    blocks (by decide) rfl (by decide) (by decide) (by decide) final hwrite
  exact ⟨final, s, hend⟩

end LoraModuleFw.Ota
