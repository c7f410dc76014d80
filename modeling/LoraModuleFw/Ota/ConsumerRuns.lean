import LoraModuleFw.Lib.Frontier
import LoraModuleFw.Ota.Consumer

/-! What one message does to a consumer, and runs of a consumer watched by an
observer who remembers which blocks the memory took since the latest Init. -/

namespace LoraModuleFw.Ota

open Lora Runs Frontier

/-! ## The window and the scan -/

/-- The numbers a list of indexes stands for. -/
def indexSet (l : List UInt16) : Set ℕ := {k | ∃ i ∈ l, i.toNat = k}

instance (k : ℕ) (l : List UInt16) : Decidable (k ∈ indexSet l) :=
  inferInstanceAs (Decidable (∃ i ∈ l, i.toNat = k))

theorem toNat_mem_indexSet {l : List UInt16} {i : UInt16} : i.toNat ∈ indexSet l ↔ i ∈ l := by
  constructor
  · rintro ⟨j, hj, h⟩
    rwa [← UInt16.toNat_inj.mp h]
  · exact fun h => ⟨i, h, rfl⟩

theorem toList_pushRecent_old {recent : Heapless.Vec UInt16 32} {index : UInt16}
    (h : index ∈ recent.toList) : pushRecent recent index = recent := if_pos h

theorem toList_pushRecent_new {recent : Heapless.Vec UInt16 32} {index : UInt16}
    (h : index ∉ recent.toList) : (pushRecent recent index).toList =
      (if recent.isFull then recent.toList.tail else recent.toList) ++ [index] := by
  have hlt : (if recent.isFull then recent.removeFirst else recent).toList.length < 32 := by
    have := recent.length_le
    split
    · simp only [Heapless.Vec.toList_removeFirst, List.length_tail]; omega
    · next hf => simp only [Heapless.Vec.isFull, decide_eq_true_eq] at hf; omega
  obtain ⟨w, hw, hl⟩ := Heapless.Vec.push_of_lt index hlt
  simp only [pushRecent, if_neg h, hw, Option.getD_some, hl]
  split <;> rfl

theorem mem_pushRecent_self (recent : Heapless.Vec UInt16 32) (index : UInt16) :
    index ∈ (pushRecent recent index).toList := by
  by_cases h : index ∈ recent.toList
  · rwa [toList_pushRecent_old h]
  · rw [toList_pushRecent_new h]; simp

theorem mem_pushRecent {recent : Heapless.Vec UInt16 32} {index i : UInt16}
    (h : i ∈ (pushRecent recent index).toList) : i ∈ recent.toList ∨ i = index := by
  by_cases hi : index ∈ recent.toList
  · rw [toList_pushRecent_old hi] at h
    exact Or.inl h
  · rw [toList_pushRecent_new hi, List.mem_append, List.mem_singleton] at h
    refine h.imp_left fun h => ?_
    split at h
    · exact List.mem_of_mem_tail h
    · exact h

/-- Only the oldest index of a full window can be lost, and only to a new index. -/
theorem pushRecent_keeps {recent : Heapless.Vec UInt16 32} {index i : UInt16}
    (h : i ∈ recent.toList)
    (hold : index ∉ recent.toList → recent.isFull = true → recent.toList.head? ≠ some i) :
    i ∈ (pushRecent recent index).toList := by
  by_cases hi : index ∈ recent.toList
  · rwa [toList_pushRecent_old hi]
  · rw [toList_pushRecent_new hi, List.mem_append]
    left
    split
    · next hf =>
      have hne := hold hi hf
      cases hl : recent.toList with
      | nil => rw [hl] at h; cases h
      | cons x xs =>
        rw [hl] at h hne
        rcases List.mem_cons.mp h with rfl | h
        · exact absurd rfl hne
        · exact h
    · exact h

/-- What the loop computes from index `i` on with `n` indexes left. -/
theorem advance_spec (recent : Heapless.Vec UInt16 32) (n : Nat) (i v : UInt16)
    (hn : i.toNat + n ≤ 65535) :
    (advance recent n i v = v ∧ (n = 0 ∨ i.toNat ∉ indexSet recent.toList)) ∨
    (i.toNat ≤ (advance recent n i v).toNat ∧ (advance recent n i v).toNat < i.toNat + n ∧
      (∀ k, i.toNat ≤ k → k ≤ (advance recent n i v).toNat → k ∈ indexSet recent.toList) ∧
      ((advance recent n i v).toNat + 1 = i.toNat + n ∨
        (advance recent n i v).toNat + 1 ∉ indexSet recent.toList)) := by
  induction n generalizing i v with
  | zero => exact Or.inl ⟨rfl, Or.inl rfl⟩
  | succ n ih =>
    by_cases hi : i ∈ recent.toList
    · right
      have hi' := toNat_mem_indexSet.mpr hi
      have hi1 : (i + 1).toNat = i.toNat + 1 := by
        rw [UInt16.toNat_add]
        simp only [UInt16.toNat_one]
        omega
      have hstep : advance recent (n + 1) i v = advance recent n (i + 1) i := if_pos hi
      rw [hstep]
      rcases ih (i + 1) i (by omega) with ⟨he, hstop⟩ | ⟨hge, hlt, hall, hstop⟩
      · rw [he]
        refine ⟨Nat.le_refl _, by omega, fun k h1 h2 => ?_, ?_⟩
        · rwa [show k = i.toNat by omega]
        · rw [hi1] at hstop
          exact hstop.imp_left fun h => by omega
      · rw [hi1] at hge hlt hall hstop
        refine ⟨by omega, by omega, fun k h1 h2 => ?_, hstop.imp_left fun h => by omega⟩
        by_cases hk : k = i.toNat
        · rwa [hk]
        · exact hall k (by omega) h2
    · exact Or.inl ⟨if_neg hi, Or.inr fun h => hi (toNat_mem_indexSet.mp h)⟩

/-! ## One message -/

namespace OtaConsumer

variable {M : Type}

theorem isDone_iff {c : OtaConsumer M} {session : SessionParams} (hs : c.session = some session)
    (hv : c.validUpToIndex.toNat < 65535) :
    c.isDone = true ↔ c.validUpToIndex.toNat + 1 = session.params.blockCount.toNat := by
  have h1 : (c.validUpToIndex + 1).toNat = c.validUpToIndex.toNat + 1 := by
    rw [UInt16.toNat_add]
    simp only [UInt16.toNat_one]
    omega
  simp only [isDone, hs, beq_iff_eq, ← UInt16.toNat_inj, h1]

/-- The scan never moves the frontier back. -/
theorem le_accept (c : OtaConsumer M) (index : UInt16) (hv : c.validUpToIndex.toNat < 65535) :
    c.validUpToIndex.toNat ≤ (c.accept index).validUpToIndex.toNat ∧
      (c.accept index).validUpToIndex.toNat < 65535 := by
  have h := advance_spec (pushRecent c.recentIndexes index) (65535 - c.validUpToIndex.toNat)
    c.validUpToIndex c.validUpToIndex (by omega)
  rcases h with ⟨he, _⟩ | ⟨hge, hlt, _⟩
  · simp only [accept, he]; omega
  · simp only [accept]; omega

/-- The scan moves the frontier over indexes of the window only. -/
theorem accept_moves (c : OtaConsumer M) (index : UInt16) (hv : c.validUpToIndex.toNat < 65535) :
    (c.accept index).validUpToIndex = c.validUpToIndex ∨
      ∀ k, c.validUpToIndex.toNat ≤ k → k ≤ (c.accept index).validUpToIndex.toNat →
        k ∈ indexSet (c.accept index).recentIndexes.toList := by
  have h := advance_spec (pushRecent c.recentIndexes index) (65535 - c.validUpToIndex.toNat)
    c.validUpToIndex c.validUpToIndex (by omega)
  rcases h with ⟨he, _⟩ | ⟨_, _, hall, _⟩
  · exact Or.inl he
  · exact Or.inr hall

/-- The scan stops only where the window has a gap, or at the end of its range. -/
theorem accept_stops (c : OtaConsumer M) (index : UInt16) (hv : c.validUpToIndex.toNat < 65535) :
    (c.accept index).validUpToIndex.toNat ∈ indexSet (c.accept index).recentIndexes.toList →
      (c.accept index).validUpToIndex.toNat + 1 ∉ indexSet (c.accept index).recentIndexes.toList ∨
        (c.accept index).validUpToIndex.toNat + 1 = 65535 := by
  have h := advance_spec (pushRecent c.recentIndexes index) (65535 - c.validUpToIndex.toNat)
    c.validUpToIndex c.validUpToIndex (by omega)
  intro hmem
  rcases h with ⟨he, hstop⟩ | ⟨_, _, _, hstop⟩
  · rcases hstop with hstop | hstop
    · omega
    · have : (c.accept index).validUpToIndex = c.validUpToIndex := he
      rw [this] at hmem
      exact absurd hmem hstop
  · rcases hstop with hstop | hstop
    · right
      have : (c.accept index).validUpToIndex.toNat + 1 =
        c.validUpToIndex.toNat + (65535 - c.validUpToIndex.toNat) := hstop
      omega
    · exact Or.inl hstop

variable [OtaMemoryDelegate M]

/-- The block of a message that the memory takes, if it is one. -/
def acceptedBlock (c : OtaConsumer M) (packet : LoRaPacket) : Option UInt16 :=
  match fromBytes packet.payload, c.session with
  | some (.data data), some session =>
    if (c.writeBlock session data).1 then some data.index else none
  | _, _ => none

/-- Everything a message can do to a consumer. -/
theorem processMessage_cases (c : OtaConsumer M) (lora : ModuleLoRa) (packet : LoRaPacket) :
    (∃ init, fromBytes packet.payload = some (.init init) ∧
      (c.processMessage lora packet).2.1 =
        { c with session := some ⟨init, packet.source⟩, recentIndexes := .empty,
                 validUpToIndex := 0 }) ∨
    (∃ data session, fromBytes packet.payload = some (.data data) ∧ c.session = some session ∧
      (c.writeBlock session data).1 = true ∧
      (c.processMessage lora packet).2.1 =
        { c with memory := (c.writeBlock session data).2 }.accept data.index) ∨
    (∃ data session, fromBytes packet.payload = some (.data data) ∧ c.session = some session ∧
      (c.writeBlock session data).1 = false ∧
      (c.processMessage lora packet).2.1 = { c with memory := (c.writeBlock session data).2 }) ∨
    (fromBytes packet.payload = some .abort ∧
      (c.processMessage lora packet).2.1 = { c with session := none }) ∨
    ((∀ init, fromBytes packet.payload ≠ some (.init init)) ∧ c.acceptedBlock packet = none ∧
      (c.processMessage lora packet).2.1 = c) := by
  unfold processMessage acceptedBlock
  cases hm : fromBytes packet.payload with
  | none => simp
  | some m =>
    cases m with
    | init init => exact Or.inl ⟨init, rfl, rfl⟩
    | data data =>
      cases hs : c.session with
      | none => simp [handleData, hs]
      | some session =>
        cases hw : (c.writeBlock session data).1
        · exact Or.inr (Or.inr (Or.inl ⟨data, session, rfl, rfl, hw, by simp [handleData, hs, hw]⟩))
        · exact Or.inr (Or.inl ⟨data, session, rfl, rfl, hw, by simp [handleData, hs, hw]⟩)
    | done =>
      have : (c.handleDone lora).2.1 = c := by
        unfold handleDone
        cases c.session with
        | none => rfl
        | some session => cases c.isDone <;> rfl
      simp [this]
    | abort => simp [handleAbort]
    | _ => simp

end OtaConsumer

/-! ## Watched runs -/

/-- A consumer with its radio, and the blocks its memory took since the latest Init. -/
structure Watched (M : Type) where
  consumer : OtaConsumer M
  lora : ModuleLoRa
  accepted : List UInt16

namespace Watched

variable {M : Type}

def start (memory : M) (lora : ModuleLoRa) : Watched M :=
  { consumer := .new memory, lora, accepted := [] }

def step [OtaMemoryDelegate M] (w : Watched M) (packet : LoRaPacket) : Watched M :=
  let r := w.consumer.processMessage w.lora packet
  { consumer := r.2.1
    lora := r.2.2
    accepted :=
      match fromBytes packet.payload with
      | some (.init _) => []
      | _ => w.accepted ++ (w.consumer.acceptedBlock packet).toList }

/-- The status a consumer reports is backed by the blocks its memory took. -/
structure Truthful (w : Watched M) : Prop where
  lt : w.consumer.validUpToIndex.toNat < 65535
  window : ∀ i ∈ w.consumer.recentIndexes.toList, i ∈ w.accepted
  contiguous : Contiguous (indexSet w.accepted) w.consumer.validUpToIndex.toNat

theorem truthful_start (memory : M) (lora : ModuleLoRa) : (start memory lora).Truthful where
  lt := Nat.zero_lt_succ _
  window := by simp [start, OtaConsumer.new]
  contiguous := .zero _

theorem indexSet_mono {l l' : List UInt16} (h : ∀ i ∈ l, i ∈ l') : indexSet l ⊆ indexSet l' := by
  rintro k ⟨i, hi, rfl⟩
  exact ⟨i, h i hi, rfl⟩

theorem Truthful.accept {w : Watched M} (h : w.Truthful) (c : OtaConsumer M) (index : UInt16)
    (hr : c.recentIndexes = w.consumer.recentIndexes)
    (hv : c.validUpToIndex = w.consumer.validUpToIndex) {lora : ModuleLoRa} :
    Truthful { consumer := c.accept index, lora, accepted := w.accepted ++ [index] } := by
  have hlt : c.validUpToIndex.toNat < 65535 := by rw [hv]; exact h.lt
  have hwin : ∀ i ∈ (c.accept index).recentIndexes.toList, i ∈ w.accepted ++ [index] := by
    intro i hi
    rcases mem_pushRecent hi with hi | rfl
    · rw [hr] at hi
      exact List.mem_append_left _ (h.window i hi)
    · simp
  refine ⟨(c.le_accept index hlt).2, hwin, ?_⟩
  have hc : Contiguous (indexSet (w.accepted ++ [index])) c.validUpToIndex.toNat := by
    rw [hv]
    exact h.contiguous.mono (indexSet_mono fun i hi => List.mem_append_left _ hi)
  rcases c.accept_moves index hlt with he | hall
  · change Contiguous _ (c.accept index).validUpToIndex.toNat
    rw [he]
    exact hc
  · exact hc.extend fun k h1 h2 => indexSet_mono hwin (hall k h1 h2)

variable [OtaMemoryDelegate M]

/-- **Step lemma.** -/
theorem Truthful.step {w : Watched M} (h : w.Truthful) (packet : LoRaPacket) :
    (w.step packet).Truthful := by
  rcases w.consumer.processMessage_cases w.lora packet with
    ⟨init, hm, hc⟩ | ⟨data, session, hm, hs, hw, hc⟩ | ⟨data, session, hm, hs, hw, hc⟩ |
    ⟨hm, hc⟩ | ⟨hi, ha, hc⟩
  · simp only [Watched.step, hm, hc]
    exact ⟨Nat.zero_lt_succ _, by simp, .zero _⟩
  · have ha : w.consumer.acceptedBlock packet = some data.index := by
      simp [OtaConsumer.acceptedBlock, hm, hs, hw]
    simp only [Watched.step, hm, hc, ha, Option.toList_some]
    exact h.accept { w.consumer with memory := (w.consumer.writeBlock session data).2 } _ rfl rfl
  · have ha : w.consumer.acceptedBlock packet = none := by
      simp [OtaConsumer.acceptedBlock, hm, hs, hw]
    simp only [Watched.step, hm, hc, ha, Option.toList_none, List.append_nil]
    exact ⟨h.lt, h.window, h.contiguous⟩
  · have ha : w.consumer.acceptedBlock packet = none := by
      simp [OtaConsumer.acceptedBlock, hm]
    simp only [Watched.step, hm, hc, ha, Option.toList_none, List.append_nil]
    exact ⟨h.lt, h.window, h.contiguous⟩
  · have he : (w.step packet).accepted = w.accepted := by
      simp only [Watched.step, ha, Option.toList_none, List.append_nil]
    have hcons : (w.step packet).consumer = w.consumer := hc
    exact ⟨by rw [hcons]; exact h.lt, by rw [hcons, he]; exact h.window,
      by rw [hcons, he]; exact h.contiguous⟩

/-- **Run lemma.** -/
theorem Truthful.run {w : Watched M} (h : w.Truthful) (packets : List LoRaPacket) :
    (Runs.run Watched.step w packets).Truthful :=
  run_invariant (fun _ p hw => hw.step p) h packets

end Watched

end LoraModuleFw.Ota
