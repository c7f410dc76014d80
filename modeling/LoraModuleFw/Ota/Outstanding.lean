import Mathlib.Data.List.Infix
import LoraModuleFw.Lib.Ledger
import LoraModuleFw.Ota.ProducerRuns

/-! The producer's list of outstanding blocks over a whole download: which
blocks it holds, and when an operation on it panics. -/

namespace LoraModuleFw.Ota

open Lora Schema Runs Ledger

namespace OtaProducer

/-! ## When an operation panics -/

theorem recordSent_eq_none {p : OtaProducer} {index : UInt16} :
    p.recordSent index = none ↔
      index ∉ p.notAckedIndexes.toList ∧ p.notAckedIndexes.toList.length = 128 := by
  have hle := p.notAckedIndexes.length_le
  unfold recordSent
  rw [Option.map_eq_none_iff]
  split
  · next hin => simp [hin]
  · next hin =>
    rw [Heapless.Vec.push_eq_none]
    constructor
    · exact fun h => ⟨hin, by omega⟩
    · exact fun h => by omega

theorem getStatus_eq_none {p : OtaProducer} :
    p.getStatus = none ↔ 64 < p.notAckedIndexes.toList.length := by
  rw [getStatus, Option.map_eq_none_iff, Heapless.Vec.collect_eq_none]

theorem allAcked_eq_none {p : OtaProducer} :
    p.allAcked = none ↔ p.notAckedIndexes.toList = [] ∧ p.params.blockSize = 0 := by
  unfold allAcked checkedDiv
  split
  · next hnil => simp [hnil, ← UInt16.toNat_inj]
  · next hnil => simp [hnil]

/-- A status taken into the books, before the completion test. -/
def marked (p : OtaProducer) (status : OtaStatusPacket) : OtaProducer :=
  { p with
    notAckedIndexes := acknowledge p.notAckedIndexes status.receivedIndexes.toList
    lastAckedIndex := status.validUpToIndex }

/-- A status panics in the completion test, or in collecting what it leaves outstanding. -/
theorem processStatus_eq_none {p : OtaProducer} {status : OtaStatusPacket} :
    p.processStatus status = none ↔
      (p.marked status).allAcked = none ∨
        64 < (p.marked status).notAckedIndexes.toList.length := by
  have heq : p.processStatus status = (p.marked status).allAcked.bind fun finished =>
      if finished then some (.ok .otaDoneAck, { p.marked status with state := .done })
      else (p.marked status).getStatus.map fun s => (.ok (.otaStatus s), p.marked status) := rfl
  rw [heq]
  cases ha : (p.marked status).allAcked with
  | none => simp
  | some finished =>
    rw [Option.bind_some]
    cases finished with
    | true =>
      -- the test has passed, so nothing is outstanding
      have hnil : (p.marked status).notAckedIndexes.toList = [] := by
        unfold allAcked at ha
        split at ha
        · assumption
        · cases ha
      simp [hnil]
    | false => simp [getStatus_eq_none]

/-- Of the responses, only a status can panic. -/
theorem processResponse_eq_none {p : OtaProducer} {m : OtaPacket} :
    p.processResponse m = none ↔
      p.state ≠ .init ∧ ∃ status, m = .status status ∧ p.processStatus status = none := by
  unfold processResponse
  cases m with
  | initAck => cases p.state <;> simp
  | status status =>
    by_cases hs : p.state = .init
    · simp [hs]
    · simp [hs]
  | _ => simp

end OtaProducer

/-! ## The history of a download -/

inductive ProducerEvent where
  | send (lora : ModuleLoRa) (data : OtaDataPacket)
  | response (packet : OtaPacket)

/-- What an event says about blocks: one went on the air, or some were acknowledged. -/
def ProducerEvent.entry (destination : UInt32) : ProducerEvent → Option (Entry UInt16)
  | .send lora data =>
    match (loraTransmit lora destination (.data data)).1 with
    | .ok () => some (.sent data.index)
    | .error _ => none
  | .response (.status status) => some (.acked status.receivedIndexes.toList)
  | .response _ => none

theorem ProducerEvent.entry_taken {destination : UInt32} {lora : ModuleLoRa} {data : OtaDataPacket}
    (h : (loraTransmit lora destination (.data data)).1 = .ok ()) :
    (send lora data).entry destination = some (.sent data.index) := by
  simp only [entry, h]

theorem ProducerEvent.entry_refused {destination : UInt32} {lora : ModuleLoRa}
    {data : OtaDataPacket} {e : OtaError}
    (h : (loraTransmit lora destination (.data data)).1 = .error e) :
    (send lora data).entry destination = none := by
  simp only [entry, h]

def history (destination : UInt32) (events : List ProducerEvent) : List (Entry UInt16) :=
  events.filterMap (ProducerEvent.entry destination)

theorem history_nil (destination : UInt32) : history destination [] = [] := rfl

theorem history_cons (destination : UInt32) (e : ProducerEvent) (events : List ProducerEvent) :
    history destination (e :: events) =
      (e.entry destination).toList ++ history destination events := by
  rw [history, List.filterMap_cons]
  cases e.entry destination <;> rfl

namespace OtaProducer

def step (p : OtaProducer) : ProducerEvent → Option OtaProducer
  | .send lora data => (p.continueDownload lora data).map fun (_, p, _) => p
  | .response packet => (p.processResponse packet).map fun (_, p) => p

/-- The producer's books agree with the history of its download. -/
structure Books (init : OtaInitPacket) (destination : UInt32) (h : List (Entry UInt16))
    (p : OtaProducer) : Prop where
  params : p.params = init
  destination : p.destinationAddress = destination
  started : p.state ≠ .init
  nodup : p.notAckedIndexes.toList.Nodup
  mem : ∀ i, i ∈ p.notAckedIndexes.toList ↔ Outstanding h i
  highest : p.highestSentIndex = (sentItems h).foldl max 0

variable {init : OtaInitPacket} {destination : UInt32} {h : List (Entry UInt16)}
  {p p' : OtaProducer}

theorem Books.length (hb : Books init destination h p) :
    p.notAckedIndexes.toList.length = (outstandingItems h).length :=
  length_eq_of_mem_iff hb.nodup hb.mem

theorem max_eq_ite (a b : UInt16) : max a b = if b > a then b else a := by
  change (if a ≤ b then b else a) = _
  split <;> split
  · rfl
  · next hle hlt =>
    apply UInt16.le_antisymm
    · exact UInt16.not_lt.mp hlt
    · exact hle
  · next hle hlt => exact absurd (UInt16.le_of_lt hlt) hle
  · rfl

/-- A block that went on the air. -/
theorem Books.sent (hb : Books init destination h p) {index : UInt16}
    (hr : p.recordSent index = some p') : Books init destination (h ++ [.sent index]) p' := by
  obtain ⟨hfields, _⟩ := recordSent_eq_some hr
  obtain ⟨hnodup, hmem⟩ := mem_recordSent hr hb.nodup
  have hhigh : p'.highestSentIndex = max p.highestSentIndex index := by
    rw [max_eq_ite]
    exact congrArg OtaProducer.highestSentIndex hfields
  refine ⟨by rw [hfields]; exact hb.params, by rw [hfields]; exact hb.destination,
    by rw [hfields]; exact hb.started, hnodup, ?_, ?_⟩
  · intro i
    rw [hmem, hb.mem, outstanding_sent]
  · rw [hhigh, hb.highest, sentItems_sent, List.foldl_append]
    rfl

/-- Blocks that a status lists. -/
theorem Books.marked (hb : Books init destination h p) (status : OtaStatusPacket) :
    Books init destination (h ++ [.acked status.receivedIndexes.toList]) (p.marked status) := by
  obtain ⟨hnodup, hmem⟩ := mem_acknowledge hb.nodup status.receivedIndexes.toList
  refine ⟨hb.params, hb.destination, hb.started, hnodup, ?_, ?_⟩
  · intro i
    rw [outstanding_acked, ← hb.mem]
    exact hmem i
  · rw [sentItems_acked]
    exact hb.highest

theorem Books.acked (hb : Books init destination h p) {status : OtaStatusPacket}
    {r : Except OtaError GatewayPacket} (hs : p.processStatus status = some (r, p')) :
    Books init destination (h ++ [.acked status.receivedIndexes.toList]) p' := by
  obtain ⟨hfields, hstate⟩ := processStatus_eq_some hs
  have hmarked := hb.marked status
  have hstarted : p'.state ≠ .init := by
    rcases hstate with ⟨_, _, hdone⟩ | ⟨_, _, hsame⟩
    · rw [hdone]
      intro hne
      cases hne
    · rw [hsame]
      exact hb.started
  rw [hfields]
  exact ⟨hmarked.params, hmarked.destination, hstarted, hmarked.nodup, hmarked.mem,
    hmarked.highest⟩

/-- **Step lemma.** -/
theorem Books.step (hb : Books init destination h p) {e : ProducerEvent}
    (hs : p.step e = some p') : Books init destination (h ++ (e.entry destination).toList) p' := by
  have hsame : Books init destination (h ++ (none : Option (Entry UInt16)).toList) p := by
    rwa [Option.toList_none, List.append_nil]
  cases e with
  | send lora data =>
    obtain ⟨⟨r, q, l⟩, hc, rfl⟩ := Option.map_eq_some_iff.mp hs
    have hd := hb.destination
    cases ht : (loraTransmit lora p.destinationAddress (.data data)).1 with
    | error e =>
      rw [continueDownload_refused ht] at hc
      cases hc
      rw [hd] at ht
      rwa [ProducerEvent.entry_refused ht]
    | ok u =>
      rw [continueDownload_taken ht] at hc
      obtain ⟨q', hq, he⟩ := Option.map_eq_some_iff.mp hc
      cases he
      rw [hd] at ht
      rw [ProducerEvent.entry_taken ht]
      exact hb.sent hq
  | response m =>
    obtain ⟨⟨r, q⟩, hr, rfl⟩ := Option.map_eq_some_iff.mp hs
    have hother (hm : ∀ status, m ≠ .status status) :
        (ProducerEvent.response m).entry destination = none := by
      cases m with
      | status status => exact absurd rfl (hm status)
      | _ => rfl
    rcases processResponse_cases hr with
      ⟨_, rfl, hi⟩ | ⟨_, hi, _⟩ | ⟨status, rfl, _, hstatus⟩ | ⟨hm, _, rfl⟩
    · rw [hother fun status hm => hb.started (hi status hm)]
      exact hsame
    · exact absurd hi hb.started
    · exact hb.acked hstatus
    · have hstarted : OtaProducerState.done ≠ .init := by decide
      rw [hother fun status hs => by rcases hm with rfl | rfl <;> cases hs]
      exact ⟨hsame.params, hsame.destination, hstarted, hsame.nodup, hsame.mem, hsame.highest⟩

/-- With room for the event, it does not panic. -/
theorem Books.progress (hb : Books init destination h p) (hsize : init.blockSize ≠ 0)
    {e : ProducerEvent}
    (hroom : (outstandingItems (h ++ (e.entry destination).toList)).length ≤ 64) :
    ∃ p', p.step e = some p' := by
  apply Option.ne_none_iff_exists'.mp
  intro hnone
  cases e with
  | send lora data =>
    have hc := Option.map_eq_none_iff.mp hnone
    have hd := hb.destination
    cases ht : (loraTransmit lora p.destinationAddress (.data data)).1 with
    | error e =>
      rw [continueDownload_refused ht] at hc
      cases hc
    | ok u =>
      rw [continueDownload_taken ht, Option.map_eq_none_iff, recordSent_eq_none] at hc
      obtain ⟨hnew, hfull⟩ := hc
      have hlen := hb.length
      rw [hb.mem, ← mem_outstandingItems] at hnew
      rw [hd] at ht
      rw [ProducerEvent.entry_taken ht, Option.toList_some, outstandingItems_concat, enter,
        if_neg hnew, List.length_append, List.length_singleton] at hroom
      omega
  | response m =>
    have hr := Option.map_eq_none_iff.mp hnone
    obtain ⟨_, status, rfl, hstatus⟩ := processResponse_eq_none.mp hr
    have hmarked := hb.marked status
    rcases processStatus_eq_none.mp hstatus with hdiv | hfull
    · rw [allAcked_eq_none, hmarked.params] at hdiv
      exact hsize hdiv.2
    · rw [hmarked.length] at hfull
      have hle : (outstandingItems (h ++ [.acked status.receivedIndexes.toList])).length ≤ 64 :=
        hroom
      omega

/-- **Run lemma.** -/
theorem Books.run (hb : Books init destination h p) (hsize : init.blockSize ≠ 0)
    {events : List ProducerEvent}
    (hroom : ∀ events', events' <+: events →
      (outstandingItems (h ++ history destination events')).length ≤ 64) :
    ∃ p', runOpt OtaProducer.step p events = some p' ∧
      Books init destination (h ++ history destination events) p' := by
  induction events generalizing h p with
  | nil => exact ⟨p, rfl, by rwa [history_nil, List.append_nil]⟩
  | cons e events ih =>
    have hfirst : (outstandingItems (h ++ (e.entry destination).toList)).length ≤ 64 := by
      have := hroom [e] ⟨events, rfl⟩
      rwa [history_cons, history_nil, List.append_nil] at this
    obtain ⟨p₁, hs⟩ := hb.progress hsize hfirst
    obtain ⟨p', hrun, hb'⟩ := ih (hb.step hs) fun events' hp => by
      have := hroom (e :: events') (List.cons_prefix_cons.mpr ⟨rfl, hp⟩)
      rwa [history_cons, ← List.append_assoc] at this
    refine ⟨p', runOpt_cons.mpr ⟨p₁, hs, hrun⟩, ?_⟩
    rwa [history_cons, ← List.append_assoc]

/-- A producer that has just been told InitAck. -/
def opened (init : OtaInitPacket) (destination : UInt32) : OtaProducer :=
  { OtaProducer.new init destination with state := .download }

theorem books_opened (init : OtaInitPacket) (destination : UInt32) :
    Books init destination [] (opened init destination) where
  params := rfl
  destination := rfl
  started := fun hne => by cases hne
  nodup := List.nodup_nil
  mem := fun i => iff_of_false List.not_mem_nil (not_outstanding_nil i)
  highest := rfl

end OtaProducer

/-- **The outstanding list is exact**: as long as at most 64 blocks are
outstanding, the download goes on, the list holds the outstanding blocks and no
others, each once, and the highest index is the maximum of those sent. -/
theorem outstanding_exact (init : OtaInitPacket) (destination : UInt32)
    (events : List ProducerEvent) (hsize : 1 ≤ init.blockSize.toNat)
    (hroom : ∀ events', events' <+: events →
      (outstandingItems (history destination events')).length ≤ 64) :
    ∃ p, runOpt OtaProducer.step (OtaProducer.opened init destination) events = some p ∧
      p.notAckedIndexes.toList.Nodup ∧
      (∀ i, i ∈ p.notAckedIndexes.toList ↔ Outstanding (history destination events) i) ∧
      p.highestSentIndex = (sentItems (history destination events)).foldl max 0 := by
  have hne : init.blockSize ≠ 0 := by
    intro hz
    rw [hz] at hsize
    exact absurd hsize (by decide)
  obtain ⟨p, hrun, hb⟩ := (OtaProducer.books_opened init destination).run hne
    (by simpa only [List.nil_append] using hroom)
  exact ⟨p, hrun, hb.nodup, hb.mem, hb.highest⟩

/-- Block 0 is acknowledged, then sent again; block 2 never gets on the air. -/
theorem outstanding_exact_resent :
    let init : OtaInitPacket := ⟨192, .replicate 32 0, 64, 3⟩
    let block (lora : ModuleLoRa) (i : UInt16) := ProducerEvent.send lora ⟨i, .empty⟩
    let busy := { ModuleLoRa.quiet 1 with txResults := [.error .busy] }
    let events := [block (.quiet 1) 0, block (.quiet 1) 1, .response .initAck,
      .response (.status ⟨⟨[0, 7], by decide⟩, 0⟩), block busy 2, block (.quiet 1) 0]
    ∃ p, runOpt OtaProducer.step (OtaProducer.opened init 3) events = some p ∧
      p.notAckedIndexes.toList = [1, 0] ∧
      (∀ i, i ∈ p.notAckedIndexes.toList ↔ Outstanding (history 3 events) i) ∧
      p.highestSentIndex = (sentItems (history 3 events)).foldl max 0 := by
  intro init block busy events
  have hroom : ∀ events', events' <+: events →
      (outstandingItems (history 3 events')).length ≤ 64 := by
    intro events' hp
    have hall : ∀ l ∈ events.inits, (outstandingItems (history 3 l)).length ≤ 64 := by
      decide +kernel
    exact hall events' ((List.mem_inits _ _).mpr hp)
  have hlist : (runOpt OtaProducer.step (OtaProducer.opened init 3) events).map
      (fun p => p.notAckedIndexes.toList) = some [1, 0] := by
    decide +kernel
  obtain ⟨p, hrun, _, hmem, hhigh⟩ := outstanding_exact init 3 events (by decide) hroom
  rw [hrun] at hlist
  exact ⟨p, hrun, Option.some.inj hlist, hmem, hhigh⟩

end LoraModuleFw.Ota
