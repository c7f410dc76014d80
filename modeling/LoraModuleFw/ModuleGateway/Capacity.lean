import LoraModuleFw.Ota.Outstanding
import LoraModuleFw.ModuleGateway.Session

/-! How many blocks may be outstanding: a producer records up to 128, a status
for the host holds 64, and the gateway does not hold the host back. -/

namespace LoraModuleFw.ModuleGateway

open Lora Ota Schema Runs

/-! ## Reporting the outstanding blocks -/

/-- The outstanding blocks can be reported, and neither the host asking for them
nor a status of the node stops the gateway, short of a zero block size. -/
structure StatusAvailable (p : OtaProducer) : Prop where
  status : ∃ s, p.getStatus = some s ∧ s.notAcked.toList = p.notAckedIndexes.toList
  host : ∀ lora, (Gateway.processHostMessage ⟨some p⟩ lora .otaGetStatus).isSome
  peer : p.params.blockSize ≠ 0 → ∀ lora packet status,
    fromBytes packet.payload = some (.status status) →
      (Gateway.processPeerMessage ⟨some p⟩ lora packet).isSome

theorem statusAvailable_iff (p : OtaProducer) :
    StatusAvailable p ↔ p.notAckedIndexes.toList.length ≤ 64 := by
  constructor
  · intro h
    obtain ⟨s, hs, _⟩ := h.status
    by_contra hgt
    rw [OtaProducer.getStatus_eq_none.mpr (by omega)] at hs
    cases hs
  · intro hle
    have hcollect : Heapless.Vec.collect (N := 64) p.notAckedIndexes.toList =
        some ⟨p.notAckedIndexes.toList, hle⟩ := Heapless.Vec.collect_eq_some.mpr rfl
    have hstatus : p.getStatus = some
        { notAcked := ⟨p.notAckedIndexes.toList, hle⟩, inProgress := p.state == .download,
          lastAcked := p.lastAckedIndex } := by
      rw [OtaProducer.getStatus, hcollect]
      rfl
    refine ⟨⟨_, hstatus, rfl⟩, ?_, ?_⟩
    · intro lora
      simp only [Gateway.processHostMessage, hstatus, Option.map_some, Option.isSome_some]
    · intro hsize lora packet status hm
      simp only [Gateway.processPeerMessage, OtaProducer.processResponseRaw, hm,
        Option.isSome_map]
      rw [Option.isSome_iff_ne_none]
      intro hnone
      obtain ⟨_, status, _, hstatus⟩ := OtaProducer.processResponse_eq_none.mp hnone
      rcases OtaProducer.processStatus_eq_none.mp hstatus with hdiv | hgt
      · exact hsize (OtaProducer.allAcked_eq_none.mp hdiv).2
      · have hshort : (p.marked status).notAckedIndexes.toList.length ≤
            p.notAckedIndexes.toList.length := OtaProducer.length_acknowledge_le _ _
        omega

/-- A block that the radio takes is outstanding already, or comes while fewer
than 64 are. -/
def KeepsRoom (p : OtaProducer) : ProducerEvent → Prop
  | .send lora data =>
    (loraTransmit lora p.destinationAddress (.data data)).1 = .ok () →
      data.index ∈ p.notAckedIndexes.toList ∨ p.notAckedIndexes.toList.length < 64
  | .response _ => True

/-- **Step lemma.** -/
theorem keepsRoom_iff {p p' : OtaProducer} {e : ProducerEvent}
    (hle : p.notAckedIndexes.toList.length ≤ 64) (h : p.step e = some p') :
    p'.notAckedIndexes.toList.length ≤ 64 ↔ KeepsRoom p e := by
  cases e with
  | send lora data =>
    obtain ⟨⟨r, q, l⟩, hc, rfl⟩ := Option.map_eq_some_iff.mp h
    have hroom : KeepsRoom p (.send lora data) ↔
        ((loraTransmit lora p.destinationAddress (.data data)).1 = .ok () →
          data.index ∈ p.notAckedIndexes.toList ∨ p.notAckedIndexes.toList.length < 64) := Iff.rfl
    rw [hroom]
    cases ht : (loraTransmit lora p.destinationAddress (.data data)).1 with
    | error e =>
      rw [OtaProducer.continueDownload_refused ht] at hc
      cases hc
      exact iff_of_true hle fun hok => by cases hok
    | ok u =>
      rw [OtaProducer.continueDownload_taken ht] at hc
      obtain ⟨q', hq, he⟩ := Option.map_eq_some_iff.mp hc
      cases he
      rw [imp_iff_right rfl, (OtaProducer.recordSent_eq_some hq).2]
      split
      · next hin => exact iff_of_true hle (Or.inl hin)
      · next hnew =>
        rw [List.length_append, List.length_singleton, or_iff_right hnew]
        omega
  | response m =>
    obtain ⟨⟨r, q⟩, hr, rfl⟩ := Option.map_eq_some_iff.mp h
    refine iff_of_true ?_ trivial
    rcases OtaProducer.processResponse_marks hr with ⟨hn, _⟩ | ⟨status, _, hn, _⟩
    · rw [hn]
      exact hle
    · rw [hn]
      exact Nat.le_trans (OtaProducer.length_acknowledge_le _ _) hle

/-- **A status can be produced** in every state of a download exactly as long as
no block takes the outstanding ones above 64. -/
theorem status_available_iff (init : OtaInitPacket) (destination : UInt32)
    (events : List ProducerEvent) :
    (∀ events' p, events' <+: events →
      runOpt OtaProducer.step (.new init destination) events' = some p → StatusAvailable p) ↔
    AlongOpt OtaProducer.step KeepsRoom (.new init destination) events := by
  simp only [statusAvailable_iff]
  exact forall_prefix_iff_alongOpt (fun _ _ _ hle h => keepsRoom_iff hle h) (Nat.zero_le _) events

/-- A download to node 3 of `n` small blocks, none of them acknowledged yet. -/
def unacknowledged (n : Nat) : List ProducerEvent :=
  .response .initAck ::
    (List.range n).map fun i => .send (.quiet 1) ⟨UInt16.ofNat i, .empty⟩

/-- With 65 blocks outstanding, neither the host nor the node gets its answer. -/
theorem status_panics_above_64 :
    ∃ p, runOpt OtaProducer.step (.new ⟨4160, .replicate 32 0, 64, 65⟩ 3) (unacknowledged 65) =
        some p ∧
      ¬ StatusAvailable p ∧
      Gateway.processHostMessage ⟨some p⟩ (.quiet 1) .otaGetStatus = none ∧
      Gateway.processPeerMessage ⟨some p⟩ (.quiet 1)
        ((OtaPacket.status ⟨.empty, 0⟩).packet 3 1) = none := by
  have hrun : ∃ p, runOpt OtaProducer.step (.new ⟨4160, .replicate 32 0, 64, 65⟩ 3)
        (unacknowledged 65) = some p ∧
      p.notAckedIndexes.toList.length = 65 ∧
      Gateway.processHostMessage ⟨some p⟩ (.quiet 1) .otaGetStatus = none ∧
      Gateway.processPeerMessage ⟨some p⟩ (.quiet 1)
        ((OtaPacket.status ⟨.empty, 0⟩).packet 3 1) = none := by
    decide +kernel
  obtain ⟨p, hrun, hlen, hhost, hpeer⟩ := hrun
  refine ⟨p, hrun, ?_, hhost, hpeer⟩
  rw [statusAvailable_iff]
  omega

/-! ## Sending a block -/

/-- A block is refused, with nothing changed or sent, or it is sent and outstanding. -/
def BlockTracked (g : Gateway) (lora : ModuleLoRa) (data : OtaData) : Prop :=
  (∃ e lora', g.processHostMessage lora (.otaData data) = some (.error e, g, lora') ∧
    lora'.sent = lora.sent) ∨
  ∃ g' p t lora', g.processHostMessage lora (.otaData data) = some (.ok none, g', lora') ∧
    lora'.sent = lora.sent ++ [t] ∧
    fromBytes t.packet.payload = some (.data ⟨data.index, data.data⟩) ∧
    g'.ota = some p ∧ data.index ∈ p.notAckedIndexes.toList

/-- There is no session, the radio does not take the block, the block is
outstanding already, or fewer than 128 are. -/
def HasRoom (g : Gateway) (lora : ModuleLoRa) (data : OtaData) : Prop :=
  ∀ p, g.ota = some p →
    (loraTransmit lora p.destinationAddress (.data ⟨data.index, data.data⟩)).1 = .ok () →
      data.index ∈ p.notAckedIndexes.toList ∨ p.notAckedIndexes.toList.length < 128

/-- A panic is neither. -/
theorem not_blockTracked {g : Gateway} {lora : ModuleLoRa} {data : OtaData}
    (h : g.processHostMessage lora (.otaData data) = none) : ¬ BlockTracked g lora data := by
  rintro (⟨e, lora', he, _⟩ | ⟨g', p, t, lora', he, _⟩)
  · rw [h] at he
    cases he
  · rw [h] at he
    cases he

theorem blockTracked_iff (g : Gateway) (lora : ModuleLoRa) (data : OtaData) :
    BlockTracked g lora data ↔ HasRoom g lora data := by
  rcases g with ⟨_ | p⟩
  · exact iff_of_true (Or.inl ⟨_, lora, rfl, rfl⟩) fun _ hp => by cases hp
  · have hroom : HasRoom ⟨some p⟩ lora data ↔
        ((loraTransmit lora p.destinationAddress (.data ⟨data.index, data.data⟩)).1 = .ok () →
          data.index ∈ p.notAckedIndexes.toList ∨ p.notAckedIndexes.toList.length < 128) :=
      ⟨fun h => h p rfl, fun h q hq => by cases hq; exact h⟩
    rw [hroom]
    rcases loraTransmit_cases lora p.destinationAddress (.data ⟨data.index, data.data⟩) with
      ⟨t, hok, hsent, _, _, _, ht⟩ | ⟨herr, hsent⟩
    · rw [imp_iff_right hok]
      have hle := p.notAckedIndexes.length_le
      cases hr : p.recordSent data.index with
      | none =>
        have hpanic : Gateway.processHostMessage ⟨some p⟩ lora (.otaData data) = none := by
          simp only [Gateway.processHostMessage, Gateway.continueDownload,
            OtaProducer.continueDownload_taken hok, hr, Option.map_none]
        obtain ⟨hnew, hfull⟩ := OtaProducer.recordSent_eq_none.mp hr
        refine iff_of_false (not_blockTracked hpanic) ?_
        rintro (hin | hlt)
        · exact hnew hin
        · omega
      | some p' =>
        have hstep : Gateway.processHostMessage ⟨some p⟩ lora (.otaData data) =
            some (.ok none, ⟨some p'⟩, (loraTransmit lora p.destinationAddress
              (.data ⟨data.index, data.data⟩)).2) := by
          simp only [Gateway.processHostMessage, Gateway.continueDownload,
            OtaProducer.continueDownload_taken hok, hr, Option.map_some]
        have hin : data.index ∈ p'.notAckedIndexes.toList := by
          rw [(OtaProducer.recordSent_eq_some hr).2]
          split
          · assumption
          · exact List.mem_append_right _ (List.mem_singleton_self _)
        refine iff_of_true (Or.inr ⟨_, p', t, _, hstep, hsent, ht, rfl, hin⟩) ?_
        by_contra hno
        rw [not_or] at hno
        have hnone := OtaProducer.recordSent_eq_none.mpr ⟨hno.1, by omega⟩
        rw [hr] at hnone
        cases hnone
    · have hstep : Gateway.processHostMessage ⟨some p⟩ lora (.otaData data) =
          some (.error (.ota .transmit), ⟨some p⟩, (loraTransmit lora p.destinationAddress
            (.data ⟨data.index, data.data⟩)).2) := by
        simp only [Gateway.processHostMessage, Gateway.continueDownload,
          OtaProducer.continueDownload_refused herr, Option.map_some]
      refine iff_of_true (Or.inl ⟨_, _, hstep, hsent⟩) ?_
      intro hok
      rw [herr] at hok
      cases hok

/-- **Sending a block never crashes and is never untracked** in a run exactly
when every OtaData of the run finds room. -/
theorem blocks_tracked_iff (events : List GatewayEvent) :
    (∀ before lora data g, before ++ [.host lora (.otaData data)] <+: events →
      runOpt Gateway.step Gateway.new before = some g → BlockTracked g lora data) ↔
    ∀ before lora data g, before ++ [.host lora (.otaData data)] <+: events →
      runOpt Gateway.step Gateway.new before = some g → HasRoom g lora data := by
  constructor
  · intro h before lora data g hprefix hrun
    exact (blockTracked_iff g lora data).mp (h before lora data g hprefix hrun)
  · intro h before lora data g hprefix hrun
    exact (blockTracked_iff g lora data).mpr (h before lora data g hprefix hrun)

/-- The block after 128 unacknowledged ones goes on the air, and then the gateway panics. -/
theorem block_panics_above_128 :
    let init : OtaInitRequest := ⟨3, 8256, .replicate 32 0, 64, 129⟩
    let block (i : Nat) : OtaData := ⟨UInt16.ofNat i, .empty⟩
    ∃ g, runOpt Gateway.step Gateway.new (.host (hears .initAck 3) (.otaInit init) ::
        (List.range 128).map fun i => .host (.quiet 1) (.otaData (block i))) = some g ∧
      (∃ t, (loraTransmit (.quiet 1) 3 (.data ⟨128, .empty⟩)).2.sent = [t]) ∧
      g.processHostMessage (.quiet 1) (.otaData (block 128)) = none ∧
      ¬ BlockTracked g (.quiet 1) (block 128) := by
  intro init block
  have hrun : ∃ g, runOpt Gateway.step Gateway.new (.host (hears .initAck 3) (.otaInit init) ::
        (List.range 128).map fun i => .host (.quiet 1) (.otaData (block i))) = some g ∧
      g.processHostMessage (.quiet 1) (.otaData (block 128)) = none := by
    decide +kernel
  obtain ⟨g, hrun, hnone⟩ := hrun
  exact ⟨g, hrun, ⟨_, rfl⟩, hnone, not_blockTracked hnone⟩

end LoraModuleFw.ModuleGateway
