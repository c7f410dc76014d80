import LoraModuleFw.Ota.Exchange

/-! What a node's Status says about its memory, through evictions, duplicates,
failed writes, aborts and further Inits. -/

namespace LoraModuleFw.Ota

open Lora Runs Frontier

/-! ## The window -/

theorem nodup_pushRecent {recent : Heapless.Vec UInt16 32} (h : recent.toList.Nodup)
    (index : UInt16) : (pushRecent recent index).toList.Nodup := by
  by_cases hi : index ∈ recent.toList
  · rwa [toList_pushRecent_old hi]
  · rw [toList_pushRecent_new hi, ← List.concat_eq_append]
    split
    · exact (h.sublist (List.tail_sublist _)).concat fun hm => hi (List.mem_of_mem_tail hm)
    · exact h.concat hi

namespace Watched

variable {M : Type} [OtaMemoryDelegate M]

/-- **Step lemma.** -/
theorem nodup_step {w : Watched M} (h : w.consumer.recentIndexes.toList.Nodup)
    (packet : LoRaPacket) : (w.step packet).consumer.recentIndexes.toList.Nodup := by
  unfold Watched.step
  rcases w.consumer.processMessage_cases w.lora packet with
    ⟨init, _, hc⟩ | ⟨data, session, _, _, _, hc⟩ | ⟨data, session, _, _, _, hc⟩ | ⟨_, hc⟩ |
    ⟨_, _, hc⟩
  · simp only [hc]
    exact List.nodup_nil
  · simp only [hc]
    exact nodup_pushRecent h data.index
  · simpa only [hc] using h
  · simpa only [hc] using h
  · simpa only [hc] using h

/-! ## The frontier -/

/-- Short of an Init, the frontier moves forward only. -/
theorem Truthful.le_step {w : Watched M} (h : w.Truthful) {packet : LoRaPacket}
    (hp : ¬ Opens packet) :
    w.consumer.validUpToIndex ≤ (w.step packet).consumer.validUpToIndex := by
  unfold Watched.step
  rcases w.consumer.processMessage_cases w.lora packet with
    ⟨init, hm, _⟩ | ⟨data, session, _, _, _, hc⟩ | ⟨data, session, _, _, _, hc⟩ | ⟨_, hc⟩ |
    ⟨_, _, hc⟩
  · exact absurd ⟨init, hm⟩ hp
  · simp only [hc]
    apply UInt16.le_iff_toNat_le.mpr
    exact (OtaConsumer.le_accept
      { w.consumer with memory := (w.consumer.writeBlock session data).2 } data.index h.lt).1
  · simp only [hc]
    exact UInt16.le_refl _
  · simp only [hc]
    exact UInt16.le_refl _
  · simp only [hc]
    exact UInt16.le_refl _

/-- **Run lemma.** -/
theorem Truthful.le_run {w : Watched M} (h : w.Truthful) {packets : List LoRaPacket}
    (hp : ∀ p ∈ packets, ¬ Opens p) :
    w.consumer.validUpToIndex ≤ (Runs.run Watched.step w packets).consumer.validUpToIndex := by
  induction packets generalizing w with
  | nil => exact UInt16.le_refl _
  | cons p packets ih =>
    have hstep := h.le_step (hp p (List.mem_cons_self ..))
    have hrest := ih (h.step p) fun q hq => hp q (List.mem_cons_of_mem _ hq)
    exact UInt16.le_trans hstep hrest

end Watched

/-! ## The answer to one message -/

namespace OtaConsumer

variable {M : Type} [OtaMemoryDelegate M]

/-- The report that a Status would carry. -/
def report (c : OtaConsumer M) : Heapless.Vec UInt16 32 × UInt16 :=
  (c.recentIndexes, c.validUpToIndex)

/-- A message is answered as the memory took it: a block that was written is in
the Status sent back, if the radio sends at all, and the report stays as it was
when the write failed or the message was rejected. -/
structure Answers (c : OtaConsumer M) (lora : ModuleLoRa) (packet : LoRaPacket) : Prop where
  written : ∀ data session, fromBytes packet.payload = some (.data data) →
    c.session = some session → (c.writeBlock session data).1 = true →
    (∃ t status, (c.processMessage lora packet).1 = .ok () ∧
      (c.processMessage lora packet).2.2.sent = lora.sent ++ [t] ∧
      fromBytes t.packet.payload = some (.status status) ∧
      data.index ∈ status.receivedIndexes.toList) ∨
    (c.processMessage lora packet).1 = .error .transmit ∧
      (c.processMessage lora packet).2.2.sent = lora.sent
  failed : ∀ data session, fromBytes packet.payload = some (.data data) →
    c.session = some session → (c.writeBlock session data).1 = false →
    (c.processMessage lora packet).2.1.report = c.report
  rejected : ∀ e, (c.processMessage lora packet).1 = .error e →
    e = .deserialize ∨ e = .invalidPacketType →
    (c.processMessage lora packet).2.1.report = c.report

/-- A message that is rejected does nothing to the consumer. -/
theorem processMessage_rejected {c : OtaConsumer M} {lora : ModuleLoRa} {packet : LoRaPacket}
    {e : OtaError} (h : (c.processMessage lora packet).1 = .error e)
    (he : e = .deserialize ∨ e = .invalidPacketType) :
    (c.processMessage lora packet).2.1 = c := by
  -- a message that gets as far as its answer fails with `Transmit` only
  have hsent (lora : ModuleLoRa) (destination : UInt32) (m : OtaPacket) :
      (loraTransmit lora destination m).1 ≠ .error e := by
    rcases loraTransmit_cases lora destination m with ⟨_, hr, _⟩ | ⟨hr, _⟩
    · rw [hr]
      intro hne
      cases hne
    · rw [hr]
      intro hne
      cases hne
      rcases he with he | he <;> cases he
  unfold processMessage at h ⊢
  cases hm : fromBytes packet.payload with
  | none => rfl
  | some m =>
    rw [hm] at h
    cases m with
    | init init =>
      have hack : (loraTransmit lora packet.source .initAck).1 = .error e := h
      exact absurd hack (hsent _ _ _)
    | data data =>
      simp only [handleData] at h ⊢
      cases hs : c.session with
      | none => rfl
      | some session =>
        rw [hs] at h
        exact absurd h (hsent _ _ _)
    | done =>
      simp only [handleDone] at h ⊢
      cases hs : c.session with
      | none => rfl
      | some session =>
        rw [hs] at h
        cases hd : c.isDone <;> rw [hd] at h <;> exact absurd h (hsent _ _ _)
    | abort =>
      have hack : (loraTransmit lora packet.source .abortAck).1 = .error e := h
      exact absurd hack (hsent _ _ _)
    | _ => rfl

theorem answers (c : OtaConsumer M) (lora : ModuleLoRa) (packet : LoRaPacket) :
    c.Answers lora packet where
  written := by
    intro data session hm hs hw
    have hp : c.processMessage lora packet =
        (let c' := { c with memory := (c.writeBlock session data).2 }.accept data.index
         let r := loraTransmit lora session.sourceAddress (.status c'.getStatus)
         (r.1, c', r.2)) := by
      simp only [processMessage, hm, handleData, hs, hw, if_true]
    rw [hp]
    rcases loraTransmit_cases lora session.sourceAddress
      (.status ({ c with memory := (c.writeBlock session data).2 }.accept data.index).getStatus) with
      ⟨t, hr, hsent, _, _, _, ht⟩ | ⟨hr, hsent⟩
    · exact Or.inl ⟨t, _, hr, hsent, ht, mem_pushRecent_self c.recentIndexes data.index⟩
    · exact Or.inr ⟨hr, hsent⟩
  failed := by
    intro data session hm hs hw
    simp only [processMessage, hm, handleData, hs, hw, Bool.false_eq_true, if_false, report]
  rejected := by
    intro e h he
    rw [processMessage_rejected h he]

end OtaConsumer

/-- **The node's reports are truthful**: for every memory, radio and run of
messages, the window has no duplicates and, like everything up to a frontier
above zero, was written since the latest Init; until the next Init the frontier
only grows; and the next message is answered accordingly. -/
theorem reports_truthful {M : Type} [OtaMemoryDelegate M] (memory : M) (lora : ModuleLoRa)
    (packets : List LoRaPacket) :
    let w := run Watched.step (Watched.start memory lora) packets
    w.consumer.recentIndexes.toList.Nodup ∧ w.consumer.recentIndexes.toList.length ≤ 32 ∧
      (∀ i ∈ w.consumer.recentIndexes.toList, i ∈ w.accepted) ∧
      (0 < w.consumer.validUpToIndex → ∀ i ≤ w.consumer.validUpToIndex, i ∈ w.accepted) ∧
      (∀ later : List LoRaPacket, (∀ p ∈ later, ¬ Opens p) →
        w.consumer.validUpToIndex ≤ (run Watched.step w later).consumer.validUpToIndex) ∧
      ∀ packet, w.consumer.Answers w.lora packet := by
  intro w
  have ht : w.Truthful := (Watched.truthful_start memory lora).run packets
  have hn : w.consumer.recentIndexes.toList.Nodup :=
    run_invariant (P := fun w : Watched M => w.consumer.recentIndexes.toList.Nodup)
      (fun _ p h => Watched.nodup_step h p) List.nodup_nil packets
  refine ⟨hn, w.consumer.recentIndexes.length_le, ht.window, ?_, ?_, ?_⟩
  · intro hpos i hi
    have hpos' : 0 < w.consumer.validUpToIndex.toNat := UInt16.lt_iff_toNat_lt.mp hpos
    exact toNat_mem_indexSet.mp (ht.contiguous hpos' i.toNat (UInt16.le_iff_toNat_le.mp hi))
  · intro later hlater
    exact ht.le_run hlater
  · intro packet
    exact w.consumer.answers w.lora packet

end LoraModuleFw.Ota
