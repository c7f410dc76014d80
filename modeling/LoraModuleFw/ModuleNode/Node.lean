import LoraModuleFw.Ota.ConsumerRuns
import LoraModuleFw.Ota.Requests
import LoraModuleFw.ModuleNode.OtaMemory
import LoraModuleFw.ModuleNode.SoilSensor

/-! The node as it runs, the loop in `main` of `module-node/src/main.rs`: what it
does with a packet, what it puts on the air, and what gets into its memory. -/

namespace LoraModuleFw

open Lora Ota

namespace Ota

namespace OtaConsumer

variable {M : Type}

/-- The answers of a consumer, and where they go. -/
inductive Replies (c : OtaConsumer M) (packet : LoRaPacket) : OtaPacket → UInt32 → Prop
  | initAck {init : OtaInitPacket} : fromBytes packet.payload = some (.init init) →
      Replies c packet .initAck packet.source
  | status {session : SessionParams} (status : OtaStatusPacket) : c.session = some session →
      Replies c packet (.status status) session.sourceAddress
  | doneAck {session : SessionParams} : c.session = some session → c.isDone = true →
      Replies c packet .doneAck session.sourceAddress
  | abortAck : fromBytes packet.payload = some .abort →
      Replies c packet .abortAck packet.source

variable [OtaMemoryDelegate M]

/-- A consumer transmits by way of `lora_transmit`, once for a message or not at all. -/
theorem processMessage_lora (c : OtaConsumer M) (lora : ModuleLoRa) (packet : LoRaPacket) :
    (c.processMessage lora packet).2.2 = lora ∨
      ∃ m destination, c.Replies packet m destination ∧
        (c.processMessage lora packet).2.2 = (loraTransmit lora destination m).2 := by
  unfold processMessage
  cases hm : fromBytes packet.payload with
  | none => exact Or.inl rfl
  | some m =>
    cases m with
    | init init => exact Or.inr ⟨_, _, .initAck hm, rfl⟩
    | data data =>
      simp only [handleData]
      cases hs : c.session with
      | none => exact Or.inl rfl
      | some session => exact Or.inr ⟨_, _, .status _ hs, rfl⟩
    | done =>
      simp only [handleDone]
      cases hs : c.session with
      | none => exact Or.inl rfl
      | some session =>
        cases hd : c.isDone with
        | true => exact Or.inr ⟨_, _, .doneAck hs hd, rfl⟩
        | false => exact Or.inr ⟨_, _, .status _ hs, rfl⟩
    | abort => exact Or.inr ⟨_, _, .abortAck hm, rfl⟩
    | _ => exact Or.inl rfl

/-- A session is the one before or comes with an Init. -/
theorem processMessage_session {c : OtaConsumer M} {lora : ModuleLoRa} {packet : LoRaPacket}
    {session : SessionParams} (h : (c.processMessage lora packet).2.1.session = some session) :
    c.session = some session ∨
      ∃ init, fromBytes packet.payload = some (.init init) ∧ session = ⟨init, packet.source⟩ := by
  rcases c.processMessage_cases lora packet with
    ⟨init, hm, hc⟩ | ⟨_, _, _, _, _, hc⟩ | ⟨_, _, _, _, _, hc⟩ | ⟨_, hc⟩ | ⟨_, _, hc⟩
  · rw [hc] at h
    exact Or.inr ⟨init, hm, (Option.some.inj h).symm⟩
  · rw [hc] at h
    exact Or.inl h
  · rw [hc] at h
    exact Or.inl h
  · rw [hc] at h
    cases h
  · rw [hc] at h
    exact Or.inl h

end OtaConsumer

end Ota

namespace ModuleNode

open SoilSensor

namespace Node

variable {M : Type} [OtaMemoryDelegate M]

/-- What `main` does with a packet; `outcomes` is what the sensor would measure now. -/
def dispatch (c : OtaConsumer M) (lora : ModuleLoRa)
    (outcomes : Fin 4 → Vector SoilSensorResult samples) (p : LoRaPacket) :
    Option (OtaConsumer M × ModuleLoRa) :=
  match p.packetType with
  | .ota => some (c.processMessage lora p).2
  | .soilSensor => (soilSensorMeasureAndTransmit outcomes lora p.source).map fun lora => (c, lora)
  | .ping => some (c, lora)

/-- Only OTA messages reach the consumer. -/
theorem dispatch_consumer {c c' : OtaConsumer M} {lora lora' : ModuleLoRa}
    {outcomes : Fin 4 → Vector SoilSensorResult samples} {p : LoRaPacket}
    (h : dispatch c lora outcomes p = some (c', lora')) :
    p.packetType = .ota ∧ c' = (c.processMessage lora p).2.1 ∨ p.packetType ≠ .ota ∧ c' = c := by
  unfold dispatch at h
  split at h
  · next ht => exact Or.inl ⟨ht, (congrArg Prod.fst (Option.some.inj h)).symm⟩
  · next ht =>
    obtain ⟨l, _, he⟩ := Option.map_eq_some_iff.mp h
    cases he
    exact Or.inr ⟨by rw [ht]; nofun, rfl⟩
  · next ht =>
    cases h
    exact Or.inr ⟨by rw [ht]; nofun, rfl⟩

/-- The packets that a packet makes a node transmit. -/
inductive Sends (c : OtaConsumer M) (outcomes : Fin 4 → Vector SoilSensorResult samples)
    (p : LoRaPacket) : LoRaPacket → Prop
  | ota {m : OtaPacket} {destination : UInt32} {payload : Payload} : p.packetType = .ota →
      c.Replies p m destination → toVec m = some payload →
      Sends c outcomes p { LoRaPacket.new destination .ota with payload }
  | soil {results : Vector SoilSensorResult 4} {q : LoRaPacket} : p.packetType = .soilSensor →
      sampleAllAverage outcomes = some results → soilReport results p.source = some q →
      Sends c outcomes p q

theorem dispatch_sent {c c' : OtaConsumer M} {lora lora' : ModuleLoRa}
    {outcomes : Fin 4 → Vector SoilSensorResult samples} {p : LoRaPacket}
    (h : dispatch c lora outcomes p = some (c', lora')) :
    ∀ t ∈ lora'.sent, t ∈ lora.sent ∨ ∃ q, Sends c outcomes p q ∧ t = transmissionOf q lora := by
  unfold dispatch at h
  split at h
  · next ht =>
    have hl : (c.processMessage lora p).2.2 = lora' := congrArg Prod.snd (Option.some.inj h)
    rw [← hl]
    rcases c.processMessage_lora lora p with hsame | ⟨m, destination, ha, hsent⟩
    · rw [hsame]
      exact fun t ht => Or.inl ht
    · obtain ⟨payload, hp, hs⟩ := loraTransmit_sent lora destination m
      rw [hsent]
      intro t hmem
      rcases hs with hs | hs
      · rw [hs] at hmem
        exact Or.inl hmem
      · rw [hs] at hmem
        exact (List.mem_append.mp hmem).imp_right fun he =>
          ⟨_, .ota ht ha hp, List.mem_singleton.mp he⟩
  · next ht =>
    obtain ⟨l, hmeasure, he⟩ := Option.map_eq_some_iff.mp h
    cases he
    obtain ⟨results, hr, hreport⟩ := Option.bind_eq_some_iff.mp hmeasure
    obtain ⟨q, hq, rfl⟩ := Option.map_eq_some_iff.mp hreport
    intro t hmem
    rcases lora.transmit_cases q with ⟨_, hs⟩ | ⟨_, _, hs⟩
    · rw [hs] at hmem
      exact (List.mem_append.mp hmem).imp_right fun he =>
        ⟨q, .soil ht hr hq, List.mem_singleton.mp he⟩
    · rw [hs] at hmem
      exact Or.inl hmem
  · cases h
    exact fun t ht => Or.inl ht

end Node

/-! ## What gets into the memory -/

/-- The byte at an address, as one of the blocks has it. -/
def ByteOf (blocks : Nat → Block → Prop) (a : Nat) (b : UInt8) : Prop :=
  ∃ offset data, blocks offset data ∧ offset ≤ a ∧ data.toList[a - offset]? = some b

/-- Where no byte of a block has been written, the page is zero. -/
def OtaPage.OnlyFrom (blocks : Nat → Block → Prop) (p : OtaPage) : Prop :=
  ∀ k, p.buffer k = 0 ∨ ByteOf blocks (p.address + k.val) (p.buffer k)

/-- The memory holds bytes of these blocks and nothing else. -/
structure OtaMemory.OnlyFrom (blocks : Nat → Block → Prop) (m : OtaMemory) : Prop where
  page : ∀ p, m.page = some p → p.OnlyFrom blocks
  queue : ∀ e ∈ m.queue.entries, blocks e.1 e.2

namespace OtaPage

variable {blocks : Nat → Block → Prop}

theorem OnlyFrom.write {p : OtaPage} (h : p.OnlyFrom blocks) {offset : Nat} {data : Block}
    (hle : p.address ≤ offset) (hb : blocks offset data) :
    (p.write offset data.toList).2.OnlyFrom blocks := by
  rcases p.write_cases offset data.toList with ⟨_, _, hw⟩ | ⟨_, hw⟩
  · rw [hw]
    intro k
    change (if _ then _ else _) = _ ∨ ByteOf _ _ (if _ then _ else _)
    split
    · next hk =>
      right
      refine ⟨offset, data, hb, ?_, ?_⟩
      · change offset ≤ p.address + k.val
        omega
      · have hk' : k.val - (offset - p.address) < data.toList.length := by omega
        have hj : p.address + k.val - offset = k.val - (offset - p.address) := by omega
        change data.toList[p.address + k.val - offset]? = _
        rw [hj, List.getD_eq_getElem?_getD, List.getElem?_eq_getElem hk', Option.getD_some]
    · exact h k
  · rw [hw]
    exact h

theorem OnlyFrom.writeAll {p : OtaPage} (h : p.OnlyFrom blocks) {l : List (Nat × Block)}
    (hl : ∀ e ∈ l, p.address ≤ e.1 ∧ blocks e.1 e.2) : (p.writeAll l).OnlyFrom blocks := by
  induction l generalizing p with
  | nil => exact h
  | cons e l ih =>
    obtain ⟨hle, hb⟩ := hl e List.mem_cons_self
    refine ih (h.write hle hb) fun e' he' => ?_
    rw [write_address]
    exact hl e' (List.mem_cons_of_mem e he')

end OtaPage

namespace OtaMemory

variable {blocks : Nat → Block → Prop}

theorem onlyFrom_new : OtaMemory.new.OnlyFrom blocks := ⟨nofun, nofun⟩

theorem OnlyFrom.mono {blocks' : Nat → Block → Prop} (hle : ∀ a d, blocks a d → blocks' a d)
    {m : OtaMemory} (h : m.OnlyFrom blocks) : m.OnlyFrom blocks' where
  page p hp k := (h.page p hp k).imp_right fun ⟨offset, data, hb, hoff, hd⟩ =>
    ⟨offset, data, hle _ _ hb, hoff, hd⟩
  queue e he := hle _ _ (h.queue e he)

theorem OnlyFrom.write {m : OtaMemory} (h : m.OnlyFrom blocks) (validUpTo : Nat) {offset : Nat}
    {data : Block} (hb : blocks offset data) :
    (m.write validUpTo offset data).2.OnlyFrom blocks where
  page p hp := by
    rw [write_page] at hp
    cases hp
    have hcurrent : m.currentPage.OnlyFrom blocks := by
      unfold currentPage
      cases hpage : m.page with
      | none => exact fun k => Or.inl rfl
      | some p => exact h.page p hpage
    refine hcurrent.writeAll fun e he => ?_
    rcases List.mem_append.mp he with he | he
    · obtain ⟨hmem, hc⟩ := List.mem_filter.mp he
      rw [OtaPage.contains, Bool.and_eq_true, decide_eq_true_eq] at hc
      exact ⟨hc.1, h.queue e hmem⟩
    · split at he
      · cases he
      · next hlt =>
        cases List.mem_singleton.mp he
        exact ⟨Nat.le_of_not_lt hlt, hb⟩
  queue e he := by
    rcases mem_write_queue he with he | rfl
    · exact h.queue e he
    · exact hb

end OtaMemory

end ModuleNode

end LoraModuleFw
