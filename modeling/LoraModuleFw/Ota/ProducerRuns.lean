import LoraModuleFw.Lib.Runs
import LoraModuleFw.Ota.ConsumerRuns
import LoraModuleFw.Ota.Producer

/-! What the producer's operations do to its list of outstanding blocks, and
its completion test against the whole history of a download. -/

namespace LoraModuleFw.Ota

open Lora Schema Runs

namespace OtaProducer

/-! ## The operations -/

theorem mem_acknowledge {v : Heapless.Vec UInt16 128} (hv : v.toList.Nodup) (received : List UInt16) :
    (acknowledge v received).toList.Nodup ∧
      ∀ i, i ∈ (acknowledge v received).toList ↔ i ∈ v.toList ∧ i ∉ received := by
  induction received generalizing v with
  | nil => simpa [acknowledge] using hv
  | cons r received ih =>
    have hperm := v.swapRemoveFirst_perm r
    obtain ⟨hn, hmem⟩ := ih (hperm.nodup_iff.mpr (hv.erase r))
    refine ⟨hn, fun i => ?_⟩
    change i ∈ (acknowledge (v.swapRemoveFirst r) received).toList ↔ _
    rw [hmem, hperm.mem_iff, hv.mem_erase_iff, List.mem_cons]
    tauto

theorem length_acknowledge_le (v : Heapless.Vec UInt16 128) (received : List UInt16) :
    (acknowledge v received).toList.length ≤ v.toList.length := by
  induction received generalizing v with
  | nil => exact Nat.le_refl _
  | cons r received ih =>
    have hrest : (acknowledge (v.swapRemoveFirst r) received).toList.length ≤
        (v.swapRemoveFirst r).toList.length := ih (v.swapRemoveFirst r)
    rw [(v.swapRemoveFirst_perm r).length_eq] at hrest
    exact Nat.le_trans hrest List.length_erase_le

theorem recordSent_eq_some {p p' : OtaProducer} {index : UInt16}
    (h : p.recordSent index = some p') :
    p' = { p with
      notAckedIndexes := p'.notAckedIndexes
      highestSentIndex := if index > p.highestSentIndex then index else p.highestSentIndex } ∧
    p'.notAckedIndexes.toList =
      if index ∈ p.notAckedIndexes.toList then p.notAckedIndexes.toList
      else p.notAckedIndexes.toList ++ [index] := by
  obtain ⟨v, hv, rfl⟩ := Option.map_eq_some_iff.mp h
  refine ⟨rfl, ?_⟩
  by_cases hi : index ∈ p.notAckedIndexes.toList
  · rw [if_pos hi] at hv ⊢
    cases hv
    rfl
  · rw [if_neg hi] at hv ⊢
    exact (Heapless.Vec.push_eq_some.mp hv).2

theorem mem_recordSent {p p' : OtaProducer} {index : UInt16} (h : p.recordSent index = some p')
    (hp : p.notAckedIndexes.toList.Nodup) : p'.notAckedIndexes.toList.Nodup ∧
      ∀ i, i ∈ p'.notAckedIndexes.toList ↔ i ∈ p.notAckedIndexes.toList ∨ i = index := by
  rw [(recordSent_eq_some h).2]
  split
  · next hin =>
    refine ⟨hp, fun i => ⟨Or.inl, ?_⟩⟩
    rintro (hi | rfl)
    · exact hi
    · exact hin
  · next hin =>
    refine ⟨List.concat_eq_append ▸ hp.concat hin, fun i => ?_⟩
    rw [List.mem_append, List.mem_singleton]

/-- Everything a status can do to a producer. -/
theorem processStatus_eq_some {p p' : OtaProducer} {status : OtaStatusPacket}
    {r : Except OtaError GatewayPacket} (h : p.processStatus status = some (r, p')) :
    p' = { p with
      notAckedIndexes := acknowledge p.notAckedIndexes status.receivedIndexes.toList
      lastAckedIndex := status.validUpToIndex, state := p'.state } ∧
    ((p'.allAcked = some true ∧ r = .ok .otaDoneAck ∧ p'.state = .done) ∨
      (p'.allAcked = some false ∧ (∃ s, r = .ok (.otaStatus s)) ∧ p'.state = p.state)) := by
  obtain ⟨finished, hf, h⟩ := Option.bind_eq_some_iff.mp h
  cases finished with
  | true =>
    cases h
    exact ⟨rfl, Or.inl ⟨hf, rfl, rfl⟩⟩
  | false =>
    obtain ⟨s, hs, he⟩ := Option.map_eq_some_iff.mp h
    cases he
    exact ⟨rfl, Or.inr ⟨hf, ⟨s, rfl⟩, rfl⟩⟩

/-- Everything a response can do to a producer. -/
theorem processResponse_cases {p p' : OtaProducer} {m : OtaPacket}
    {r : Except OtaError GatewayPacket} (h : p.processResponse m = some (r, p')) :
    (r = .error .invalidPacketType ∧ p' = p ∧ ∀ status, m = .status status → p.state = .init) ∨
    (m = .initAck ∧ p.state = .init ∧ r = .ok .otaInitAck ∧ p' = { p with state := .download }) ∨
    (∃ status, m = .status status ∧ p.state ≠ .init ∧ p.processStatus status = some (r, p')) ∨
    ((m = .doneAck ∨ m = .abortAck) ∧ (∃ ret, r = .ok ret) ∧ p' = { p with state := .done }) := by
  unfold processResponse at h
  cases m with
  | initAck =>
    simp only at h
    split at h
    · next hi =>
      cases h
      exact Or.inr (Or.inl ⟨rfl, hi, rfl, rfl⟩)
    · cases h
      exact Or.inl ⟨rfl, rfl, nofun⟩
  | status status =>
    simp only at h
    split at h
    · next hne => exact Or.inr (Or.inr (Or.inl ⟨status, rfl, hne, h⟩))
    · next hi =>
      cases h
      exact Or.inl ⟨rfl, rfl, fun _ _ => not_not.mp hi⟩
  | doneAck =>
    cases h
    exact Or.inr (Or.inr (Or.inr ⟨Or.inl rfl, ⟨_, rfl⟩, rfl⟩))
  | abortAck =>
    cases h
    exact Or.inr (Or.inr (Or.inr ⟨Or.inr rfl, ⟨_, rfl⟩, rfl⟩))
  | _ =>
    cases h
    exact Or.inl ⟨rfl, rfl, nofun⟩

/-- Only a status moves the producer's acknowledgements. -/
theorem processResponse_marks {p p' : OtaProducer} {m : OtaPacket}
    {r : Except OtaError GatewayPacket} (h : p.processResponse m = some (r, p')) :
    (p'.notAckedIndexes = p.notAckedIndexes ∧ p'.lastAckedIndex = p.lastAckedIndex) ∨
    (∃ status, m = .status status ∧
      p'.notAckedIndexes = acknowledge p.notAckedIndexes status.receivedIndexes.toList ∧
      p'.lastAckedIndex = status.validUpToIndex) := by
  rcases processResponse_cases h with
    ⟨_, rfl, _⟩ | ⟨_, _, _, rfl⟩ | ⟨status, rfl, _, hs⟩ | ⟨_, _, rfl⟩
  · exact Or.inl ⟨rfl, rfl⟩
  · exact Or.inl ⟨rfl, rfl⟩
  · rw [(processStatus_eq_some hs).1]
    exact Or.inr ⟨status, rfl, rfl, rfl⟩
  · exact Or.inl ⟨rfl, rfl⟩

/-- What a response can do to the state of a producer; its session stays. -/
structure Answered (p p' : OtaProducer) (r : Except OtaError GatewayPacket) : Prop where
  params : p'.params = p.params
  destination : p'.destinationAddress = p.destinationAddress
  state : p'.state = p.state ∨ p'.state = .done ∨ (p.state = .init ∧ p'.state = .download)
  started : ∀ ret, r = .ok ret → p'.state ≠ .init

theorem processResponse_answered {p p' : OtaProducer} {m : OtaPacket}
    {r : Except OtaError GatewayPacket} (h : p.processResponse m = some (r, p')) :
    Answered p p' r := by
  rcases processResponse_cases h with
    ⟨rfl, rfl, _⟩ | ⟨_, hi, _, rfl⟩ | ⟨status, _, hne, hs⟩ | ⟨_, _, rfl⟩
  · exact ⟨rfl, rfl, Or.inl rfl, nofun⟩
  · exact ⟨rfl, rfl, Or.inr (Or.inr ⟨hi, rfl⟩), fun _ _ => nofun⟩
  · obtain ⟨hfields, ⟨_, _, hstate⟩ | ⟨_, _, hstate⟩⟩ := processStatus_eq_some hs
    · exact ⟨by rw [hfields], by rw [hfields], Or.inr (Or.inl hstate),
        fun _ _ => by rw [hstate]; nofun⟩
    · exact ⟨by rw [hfields], by rw [hfields], Or.inl hstate, fun _ _ => by rw [hstate]; exact hne⟩
  · exact ⟨rfl, rfl, Or.inr (Or.inl rfl), fun _ _ => nofun⟩

/-- Everything a request can do to a producer. -/
theorem request_cases {p p' : OtaProducer} {lora lora' : ModuleLoRa} {m : OtaPacket}
    {r : Except OtaError GatewayPacket} (h : p.request lora m = some (r, p', lora')) :
    (∃ e, loraTransmitUntilResponse lora p.destinationAddress m 10 = some (.error e, lora') ∧
      r = .error e ∧ p' = p) ∨
    (∃ resp, loraTransmitUntilResponse lora p.destinationAddress m 10 = some (.ok resp, lora') ∧
      p.processResponse resp = some (r, p')) := by
  obtain ⟨⟨res, l⟩, hloop, h⟩ := Option.bind_eq_some_iff.mp h
  cases res with
  | error e =>
    cases h
    exact Or.inl ⟨e, hloop, rfl, rfl⟩
  | ok resp =>
    obtain ⟨⟨r', p₁⟩, hp, he⟩ := Option.map_eq_some_iff.mp h
    cases he
    exact Or.inr ⟨resp, hloop, hp⟩

/-- A request answers with the producer as its response left it. -/
theorem request_answered {p p' : OtaProducer} {lora lora' : ModuleLoRa} {m : OtaPacket}
    {r : Except OtaError GatewayPacket} (h : p.request lora m = some (r, p', lora')) :
    Answered p p' r := by
  rcases request_cases h with ⟨e, _, rfl, rfl⟩ | ⟨resp, _, hp⟩
  · exact ⟨rfl, rfl, Or.inl rfl, nofun⟩
  · exact processResponse_answered hp

/-- The radio does not take the block. -/
theorem continueDownload_refused {p : OtaProducer} {lora : ModuleLoRa} {data : OtaDataPacket}
    {e : OtaError} (h : (loraTransmit lora p.destinationAddress (.data data)).1 = .error e) :
    p.continueDownload lora data =
      some (.error e, p, (loraTransmit lora p.destinationAddress (.data data)).2) := by
  unfold continueDownload
  rcases hl : loraTransmit lora p.destinationAddress (.data data) with ⟨res, l⟩
  rw [hl] at h
  cases h
  rfl

/-- The block goes on the air first, and into the books afterwards. -/
theorem continueDownload_taken {p : OtaProducer} {lora : ModuleLoRa} {data : OtaDataPacket}
    (h : (loraTransmit lora p.destinationAddress (.data data)).1 = .ok ()) :
    p.continueDownload lora data = (p.recordSent data.index).map fun p' =>
      (.ok (), p', (loraTransmit lora p.destinationAddress (.data data)).2) := by
  unfold continueDownload
  rcases hl : loraTransmit lora p.destinationAddress (.data data) with ⟨res, l⟩
  rw [hl] at h
  cases h
  rfl

/-- A block that was sent, or nothing. -/
theorem continueDownload_eq_some {p p' : OtaProducer} {lora lora' : ModuleLoRa}
    {data : OtaDataPacket} {r : Except OtaError Unit}
    (h : p.continueDownload lora data = some (r, p', lora')) :
    (r = .ok () ∧ p.recordSent data.index = some p') ∨ (r = .error .transmit ∧ p' = p) := by
  rcases loraTransmit_cases lora p.destinationAddress (.data data) with
    ⟨_, hok, _⟩ | ⟨herr, _⟩
  · rw [continueDownload_taken hok] at h
    obtain ⟨q, hq, he⟩ := Option.map_eq_some_iff.mp h
    cases he
    exact Or.inl ⟨rfl, hq⟩
  · rw [continueDownload_refused herr] at h
    cases h
    exact Or.inr ⟨rfl, rfl⟩

theorem continueDownload_lora {p p' : OtaProducer} {lora lora' : ModuleLoRa}
    {data : OtaDataPacket} {r : Except OtaError Unit}
    (h : p.continueDownload lora data = some (r, p', lora')) :
    lora' = (loraTransmit lora p.destinationAddress (.data data)).2 := by
  rcases loraTransmit_cases lora p.destinationAddress (.data data) with
    ⟨_, hok, _⟩ | ⟨herr, _⟩
  · rw [continueDownload_taken hok] at h
    obtain ⟨q, _, he⟩ := Option.map_eq_some_iff.mp h
    cases he
    rfl
  · rw [continueDownload_refused herr] at h
    cases h
    rfl

end OtaProducer

/-! ## Tracked runs -/

/-- A producer with the blocks it has put on the air, in order. -/
structure Tracked where
  producer : OtaProducer
  sent : List UInt16

inductive DownloadEvent where
  | send (lora : ModuleLoRa) (data : OtaDataPacket)
  | status (status : OtaStatusPacket)

/-- Blocks are sent below the block count only. -/
def DownloadEvent.Below (init : OtaInitPacket) : DownloadEvent → Prop
  | .send _ data => data.index.toNat < init.blockCount.toNat
  | .status _ => True

namespace Tracked

/-- A producer that has just been told InitAck. -/
def start (init : OtaInitPacket) (destination : UInt32) : Tracked :=
  { producer := { OtaProducer.new init destination with state := .download }, sent := [] }

def step (t : Tracked) : DownloadEvent → Option Tracked
  | .send lora data => (t.producer.continueDownload lora data).map fun
    | (.ok _, producer, _) => { producer, sent := t.sent ++ [data.index] }
    | (.error _, producer, _) => { t with producer }
  | .status status => (t.producer.processResponse (.status status)).map fun (_, producer) =>
    { t with producer }

/-- What the two scalars and the list of a producer say about its history. -/
structure Faithful (init : OtaInitPacket) (t : Tracked) : Prop where
  params : t.producer.params = init
  nodup : t.producer.notAckedIndexes.toList.Nodup
  below : ∀ i ∈ t.sent, i.toNat < init.blockCount.toNat
  highest : ∀ i ∈ t.sent, i.toNat ≤ t.producer.highestSentIndex.toNat
  attained : t.producer.highestSentIndex ∈ t.sent ∨ t.producer.highestSentIndex = 0

theorem faithful_start (init : OtaInitPacket) (destination : UInt32) :
    (start init destination).Faithful init where
  params := rfl
  nodup := List.nodup_nil
  below := fun _ hi => nomatch hi
  highest := fun _ hi => nomatch hi
  attained := Or.inr rfl

/-- **Step lemma.** -/
theorem Faithful.step {init : OtaInitPacket} {t t' : Tracked} (h : t.Faithful init)
    {e : DownloadEvent} (he : e.Below init) (hstep : t.step e = some t') : t'.Faithful init := by
  cases e with
  | send lora data =>
    obtain ⟨⟨r, p, lora'⟩, hc, hr⟩ := Option.map_eq_some_iff.mp hstep
    rcases OtaProducer.continueDownload_eq_some hc with ⟨rfl, hp⟩ | ⟨rfl, rfl⟩
    · cases hr
      have hfields := (OtaProducer.recordSent_eq_some hp).1
      have hhigh := congrArg OtaProducer.highestSentIndex hfields
      simp only at hhigh
      refine ⟨by rw [hfields]; exact h.params, (OtaProducer.mem_recordSent hp h.nodup).1, ?_, ?_, ?_⟩
      · intro i hi
        rcases List.mem_append.mp hi with hi | hi
        · exact h.below i hi
        · rw [List.mem_singleton.mp hi]
          exact he
      · intro i hi
        simp only [hhigh]
        rcases List.mem_append.mp hi with hi | hi
        · have := h.highest i hi
          split
          · next hgt =>
            have := UInt16.lt_iff_toNat_lt.mp hgt
            omega
          · exact this
        · rw [List.mem_singleton.mp hi]
          split
          · exact Nat.le_refl _
          · next hgt =>
            rw [gt_iff_lt, UInt16.lt_iff_toNat_lt] at hgt
            omega
      · simp only [hhigh]
        split
        · exact Or.inl (by simp)
        · exact h.attained.imp_left fun hi => List.mem_append_left _ hi
    · cases hr
      exact h
  | status status =>
    obtain ⟨⟨r, p⟩, hc, hr⟩ := Option.map_eq_some_iff.mp hstep
    cases hr
    unfold OtaProducer.processResponse at hc
    simp only at hc
    split at hc
    · obtain ⟨hfields, _⟩ := OtaProducer.processStatus_eq_some hc
      simp only
      rw [hfields]
      exact ⟨h.params, (OtaProducer.mem_acknowledge h.nodup _).1, h.below, h.highest, h.attained⟩
    · cases hc
      exact h

theorem Faithful.highest_iff {init : OtaInitPacket} {t : Tracked} (h : t.Faithful init)
    (hcount : 1 ≤ init.blockCount.toNat) :
    t.producer.highestSentIndex.toNat = init.blockCount.toNat - 1 ↔
      init.blockCount.toNat - 1 ∈ indexSet t.sent ∨ init.blockCount.toNat = 1 := by
  constructor
  · intro he
    rcases h.attained with hi | hz
    · exact Or.inl ⟨_, hi, he⟩
    · rw [hz] at he
      have : (0 : UInt16).toNat = 0 := rfl
      omega
  · have hlt : t.producer.highestSentIndex.toNat < init.blockCount.toNat := by
      rcases h.attained with hi | hz
      · exact h.below _ hi
      · rw [hz]
        exact hcount
    rintro (⟨i, hi, he⟩ | hone)
    · have := h.highest i hi
      omega
    · omega

end Tracked

/-! ## The completion test -/

/-- The status moves the producer to Done and yields OtaDoneAck. -/
def Tracked.Finishes (t : Tracked) (status : OtaStatusPacket) : Prop :=
  ∃ p, t.producer.processResponse (.status status) = some (.ok .otaDoneAck, p) ∧ p.state = .done

/-- Every block has been sent, and none is outstanding once the status is in. -/
def Tracked.AllDelivered (t : Tracked) (status : OtaStatusPacket) : Prop :=
  (∀ i < t.producer.params.blockCount.toNat, i ∈ indexSet t.sent) ∧
    (OtaProducer.acknowledge t.producer.notAckedIndexes
      status.receivedIndexes.toList).toList = []

/-- The status leaves a block outstanding; or the block size divides the binary
and a block has not been sent; or it does not, and either every block has been
sent or the last one, which is not the only one, has not. -/
def Tracked.TestApplies (t : Tracked) (status : OtaStatusPacket) : Prop :=
  let init := t.producer.params
  (∃ i ∈ t.producer.notAckedIndexes.toList, i ∉ status.receivedIndexes.toList) ∨
  (init.blockSize.toNat ∣ init.binarySize.toNat ∧
    ∃ i < init.blockCount.toNat, i ∉ indexSet t.sent) ∨
  (¬ init.blockSize.toNat ∣ init.binarySize.toNat ∧
    ((∀ i < init.blockCount.toNat, i ∈ indexSet t.sent) ∨
      init.blockCount.toNat - 1 ∉ indexSet t.sent ∧ init.blockCount.toNat ≠ 1))

namespace Tracked

theorem finishes_iff {t : Tracked} (hstate : t.producer.state = .download)
    (hsize : 1 ≤ t.producer.params.blockSize.toNat) (status : OtaStatusPacket) :
    t.Finishes status ↔
      (OtaProducer.acknowledge t.producer.notAckedIndexes
        status.receivedIndexes.toList).toList = [] ∧
      t.producer.highestSentIndex.toNat =
        t.producer.params.binarySize.toNat / t.producer.params.blockSize.toNat := by
  have hresp : t.producer.processResponse (.status status) = t.producer.processStatus status :=
    if_pos (by rw [hstate]; decide)
  have hdiv : checkedDiv t.producer.params.binarySize.toNat t.producer.params.blockSize.toNat =
      some (t.producer.params.binarySize.toNat / t.producer.params.blockSize.toNat) :=
    if_neg (by omega)
  unfold Finishes
  rw [hresp]
  constructor
  · rintro ⟨p, hp, _⟩
    obtain ⟨hfields, ⟨hall, _⟩ | ⟨_, ⟨s, hr⟩, _⟩⟩ := OtaProducer.processStatus_eq_some hp
    · rw [hfields] at hall
      unfold OtaProducer.allAcked at hall
      split at hall
      · next hnil =>
        simp only [hdiv, Option.map_some, Option.some.injEq, beq_iff_eq] at hall
        exact ⟨hnil, hall⟩
      · cases hall
    · cases hr
  · rintro ⟨hnil, hhigh⟩
    refine ⟨{ t.producer with
      notAckedIndexes := OtaProducer.acknowledge t.producer.notAckedIndexes
        status.receivedIndexes.toList
      lastAckedIndex := status.validUpToIndex, state := .done }, ?_, rfl⟩
    simp [OtaProducer.processStatus, OtaProducer.allAcked, hnil, hdiv, hhigh]

end Tracked

/-- The number of blocks and the last index that the test expects. -/
theorem blockCount_cases {size blockSize count : Nat} (hsize : 1 ≤ blockSize) (hpos : 1 ≤ size)
    (hcount : count = (size + blockSize - 1) / blockSize) :
    1 ≤ count ∧ (blockSize ∣ size ∧ size / blockSize = count ∨
      ¬ blockSize ∣ size ∧ size / blockSize = count - 1) := by
  have hsplit := Nat.div_add_mod size blockSize
  have hmod := Nat.mod_lt size hsize
  by_cases hdvd : blockSize ∣ size
  · obtain ⟨n, rfl⟩ := hdvd
    have hn : 1 ≤ n := Nat.pos_of_ne_zero (by rintro rfl; omega)
    have hc : count = n := by
      rw [hcount, Nat.add_sub_assoc hsize, Nat.mul_add_div hsize,
        Nat.div_eq_of_lt (by omega), Nat.add_zero]
    rw [Nat.mul_div_cancel_left n hsize, hc]
    exact ⟨hn, Or.inl ⟨Nat.dvd_mul_right .., rfl⟩⟩
  · have hr : size % blockSize ≠ 0 := fun h => hdvd (Nat.dvd_of_mod_eq_zero h)
    have hsum : size + blockSize - 1 =
        blockSize * (size / blockSize + 1) + (size % blockSize - 1) := by
      rw [Nat.mul_succ]
      omega
    have hc : count = size / blockSize + 1 := by
      have hrest : (size % blockSize - 1) / blockSize = 0 := Nat.div_eq_of_lt (by omega)
      rw [hcount, hsum, Nat.mul_add_div hsize, hrest]
    rw [hc]
    exact ⟨Nat.succ_pos _, Or.inr ⟨hdvd, rfl⟩⟩

/-- **The completion test** is right in a reachable state exactly when it applies. -/
theorem completion_test_iff (init : OtaInitPacket) (hsize : 1 ≤ init.blockSize.toNat)
    (hbinary : 1 ≤ init.binarySize.toNat)
    (hcount : init.blockCount.toNat =
      (init.binarySize.toNat + init.blockSize.toNat - 1) / init.blockSize.toNat)
    (destination : UInt32) (events : List DownloadEvent) (hevents : ∀ e ∈ events, e.Below init)
    (t : Tracked) (hrun : runOpt Tracked.step (Tracked.start init destination) events = some t)
    (hstate : t.producer.state = .download) (status : OtaStatusPacket) :
    (t.Finishes status ↔ t.AllDelivered status) ↔ t.TestApplies status := by
  have hf : t.Faithful init := runOpt_invariant (fun _ _ _ h he hs => h.step he hs)
    (Tracked.faithful_start init destination) hevents hrun
  obtain ⟨hone, hdiv⟩ := blockCount_cases hsize hbinary hcount
  have hhigh := hf.highest_iff hone
  have hlt : t.producer.highestSentIndex.toNat < init.blockCount.toNat := by
    rcases hf.attained with hi | hz
    · exact hf.below _ hi
    · rw [hz]
      exact hone
  have hacked : (OtaProducer.acknowledge t.producer.notAckedIndexes
      status.receivedIndexes.toList).toList = [] ↔
        ¬ ∃ i ∈ t.producer.notAckedIndexes.toList, i ∉ status.receivedIndexes.toList := by
    rw [List.eq_nil_iff_forall_not_mem]
    simp only [(OtaProducer.mem_acknowledge hf.nodup _).2, not_exists]
  rw [Tracked.finishes_iff hstate (by rw [hf.params]; exact hsize), Tracked.AllDelivered,
    Tracked.TestApplies, hf.params, hacked]
  have hlast : (∀ i < init.blockCount.toNat, i ∈ indexSet t.sent) →
      init.blockCount.toNat - 1 ∈ indexSet t.sent := fun h => h _ (by omega)
  by_cases hleft : ∃ i ∈ t.producer.notAckedIndexes.toList, i ∉ status.receivedIndexes.toList
  · simp only [hleft, not_true_eq_false, false_and, and_false, true_or]
  · simp only [hleft, not_false_eq_true, true_and, and_true, false_or]
    rcases hdiv with ⟨hdvd, hq⟩ | ⟨hdvd, hq⟩
    · have hne : ¬ t.producer.highestSentIndex.toNat =
          init.binarySize.toNat / init.blockSize.toNat := by omega
      simp only [hne, hdvd, false_iff, true_and, not_true_eq_false, false_and, or_false,
        not_forall, exists_prop]
    · rw [hq, hhigh]
      simp only [hdvd, not_false_eq_true, true_and, false_and, false_or]
      by_cases hall : ∀ i < init.blockCount.toNat, i ∈ indexSet t.sent
      · exact iff_of_true (iff_of_true (Or.inl (hlast hall)) hall) (Or.inl hall)
      · simp only [hall, iff_false, false_or, not_or]

/-- A hundred bytes in two blocks of 64, both sent and acknowledged. -/
theorem completion_test_two_blocks :
    let init : OtaInitPacket := ⟨100, .replicate 32 0, 64, 2⟩
    let block (i : UInt16) := DownloadEvent.send (.quiet 1) ⟨i, .empty⟩
    let acked : OtaStatusPacket := ⟨⟨[0, 1], by decide⟩, 1⟩
    ∃ t, runOpt Tracked.step (Tracked.start init 3) [block 0, block 1] = some t ∧
      (t.Finishes acked ↔ t.AllDelivered acked) := by
  intro init block acked
  have hrun : ∃ t, runOpt Tracked.step (Tracked.start init 3) [block 0, block 1] = some t ∧
      t.producer.state = .download ∧ t.sent = [0, 1] ∧ t.producer.params = init := by
    decide +kernel
  obtain ⟨t, hrun, hstate, hsent, hparams⟩ := hrun
  have hbelow : ∀ e ∈ [block 0, block 1], e.Below init := by
    intro e he
    rcases List.mem_cons.mp he with rfl | he
    · exact Nat.zero_lt_succ 1
    · rw [List.mem_singleton.mp he]
      exact Nat.one_lt_two
  refine ⟨t, hrun, (completion_test_iff init (by decide) (by decide) (by decide) 3
    [block 0, block 1] hbelow t hrun hstate acked).mpr (Or.inr (Or.inr ?_))⟩
  rw [hsent, hparams]
  decide

/-- 128 bytes in two blocks of 64, both sent and acknowledged: the test waits
for block 2. -/
theorem exact_multiple_never_done :
    let init : OtaInitPacket := ⟨128, .replicate 32 0, 64, 2⟩
    let block (i : UInt16) := DownloadEvent.send (.quiet 1) ⟨i, .empty⟩
    ∃ t, runOpt Tracked.step (Tracked.start init 3) [block 0, block 1] = some t ∧
      t.producer.state = .download ∧
      ∃ status, t.AllDelivered status ∧ ¬ t.Finishes status := by
  intro init block
  let acked : OtaStatusPacket := ⟨⟨[0, 1], by decide⟩, 1⟩
  have hrun : ∃ t, runOpt Tracked.step (Tracked.start init 3) [block 0, block 1] = some t ∧
      t.producer.state = .download ∧ t.sent = [0, 1] ∧ t.producer.params.blockCount.toNat = 2 ∧
      (OtaProducer.acknowledge t.producer.notAckedIndexes acked.receivedIndexes.toList).toList = [] ∧
      (t.producer.processResponse (.status acked)).map (fun r => r.2.state) = some .download := by
    decide +kernel
  obtain ⟨t, hrun, hstate, hsent, hcount, hacked, hnext⟩ := hrun
  refine ⟨t, hrun, hstate, acked, ⟨?_, hacked⟩, ?_⟩
  · rw [hsent, hcount]
    decide
  · rintro ⟨p, hp, hdone⟩
    rw [hp, Option.map_some, hdone] at hnext
    cases hnext

end LoraModuleFw.Ota
