import LoraModuleFw.ModuleNode.OtaMemory
import LoraModuleFw.Ota.Reports

/-! Whether the node stays done.  `is_done` compares the frontier with the block
count, and blocks beyond the count are taken like any other. -/

namespace LoraModuleFw.Ota

open Lora Runs ModuleNode

/-- What may happen to a consumer: a message comes in, with the radio as it is found,
or the owner of the memory changes it. -/
inductive ConsumerEvent (M : Type) where
  | message (lora : ModuleLoRa) (packet : LoRaPacket)
  | memory (m : M)

/-- Neither an Init nor an Abort. -/
def ConsumerEvent.Continues {M : Type} : ConsumerEvent M → Prop
  | .message _ packet =>
    (∀ init, fromBytes packet.payload ≠ some (.init init)) ∧
      fromBytes packet.payload ≠ some .abort
  | .memory _ => True

/-- The index is in the window and not about to be pushed out of it. -/
def Remains (recent : Heapless.Vec UInt16 32) (i : UInt16) : Prop :=
  i ∈ recent.toList ∧ (recent.isFull = true → recent.toList.head? ≠ some i)

instance (recent : Heapless.Vec UInt16 32) (i : UInt16) : Decidable (Remains recent i) :=
  inferInstanceAs (Decidable (_ ∧ _))

theorem mem_tail_iff {l : List UInt16} (h : l.Nodup) (i : UInt16) :
    i ∈ l.tail ↔ i ∈ l ∧ l.head? ≠ some i := by
  cases l with
  | nil => simp
  | cons a l =>
    have ha : a ∉ l := (List.nodup_cons.mp h).1
    rw [List.tail_cons, List.head?_cons, List.mem_cons]
    constructor
    · intro hi
      refine ⟨Or.inr hi, fun he => ?_⟩
      cases he
      exact ha hi
    · rintro ⟨rfl | hi, hne⟩
      · exact absurd rfl hne
      · exact hi

theorem mem_pushRecent_new {recent : Heapless.Vec UInt16 32} (hn : recent.toList.Nodup)
    {index : UInt16} (h : index ∉ recent.toList) (i : UInt16) :
    i ∈ (pushRecent recent index).toList ↔ Remains recent i ∨ i = index := by
  rw [toList_pushRecent_new h, List.mem_append, List.mem_singleton]
  apply or_congr_left
  by_cases hf : recent.isFull = true
  · rw [if_pos hf, mem_tail_iff hn, Remains, imp_iff_right hf]
  · rw [if_neg hf]
    exact ⟨fun hi => ⟨hi, fun h => absurd h hf⟩, fun hi => hi.1⟩

namespace OtaConsumer

variable {M : Type}

/-- What every reachable consumer has: a frontier where the scan stopped. -/
structure Settled (c : OtaConsumer M) : Prop where
  lt : c.validUpToIndex.toNat < 65535
  nodup : c.recentIndexes.toList.Nodup
  stopped : c.validUpToIndex ∈ c.recentIndexes.toList →
    c.validUpToIndex + 1 ∈ c.recentIndexes.toList → c.validUpToIndex.toNat + 1 = 65535

theorem toNat_next {c : OtaConsumer M} (h : c.validUpToIndex.toNat < 65535) :
    (c.validUpToIndex + 1).toNat = c.validUpToIndex.toNat + 1 := by
  rw [UInt16.toNat_add]
  simp only [UInt16.toNat_one]
  omega

theorem settled_new (memory : M) : (OtaConsumer.new memory).Settled :=
  ⟨Nat.zero_lt_succ _, List.nodup_nil, fun h => absurd h List.not_mem_nil⟩

theorem Settled.accept {c : OtaConsumer M} (h : c.Settled) (index : UInt16) :
    (c.accept index).Settled := by
  have hlt := (c.le_accept index h.lt).2
  refine ⟨hlt, nodup_pushRecent h.nodup index, fun hv hv1 => ?_⟩
  have hv' := toNat_mem_indexSet.mpr hv
  have hv1' := toNat_mem_indexSet.mpr hv1
  rw [toNat_next hlt] at hv1'
  exact (c.accept_stops index h.lt hv').resolve_left fun hno => hno hv1'

/-- The frontier moves exactly when the window comes to hold it and its successor. -/
theorem accept_stays_iff {c : OtaConsumer M} (h : c.Settled) (index : UInt16) :
    (c.accept index).validUpToIndex = c.validUpToIndex ↔
      ¬ (c.validUpToIndex.toNat + 1 < 65535 ∧
        c.validUpToIndex ∈ (pushRecent c.recentIndexes index).toList ∧
        c.validUpToIndex + 1 ∈ (pushRecent c.recentIndexes index).toList) := by
  have hlt := h.lt
  constructor
  · rintro he ⟨hend, hv, hv1⟩
    have hstop := (h.accept index).stopped
    rw [he] at hstop
    have hlast := hstop hv hv1
    omega
  · intro hno
    by_contra hne
    have hle := (c.le_accept index hlt).1
    have hbound := (c.le_accept index hlt).2
    have hmoved : c.validUpToIndex.toNat ≠ (c.accept index).validUpToIndex.toNat :=
      fun he => hne (UInt16.toNat_inj.mp he).symm
    have hall := (c.accept_moves index hlt).resolve_left hne
    refine hno ⟨by omega, ?_, ?_⟩
    · exact toNat_mem_indexSet.mp (hall _ (Nat.le_refl _) hle)
    · apply toNat_mem_indexSet.mp
      rw [toNat_next hlt]
      exact hall _ (by omega) (by omega)

/-- The block brings the frontier and its successor together in the window. -/
def Overtakes (c : OtaConsumer M) (index : UInt16) : Prop :=
  c.validUpToIndex.toNat + 1 < 65535 ∧
    (index = c.validUpToIndex + 1 ∧ Remains c.recentIndexes c.validUpToIndex ∨
      index = c.validUpToIndex ∧ Remains c.recentIndexes (c.validUpToIndex + 1))

theorem accept_stays {c : OtaConsumer M} (h : c.Settled) (index : UInt16) :
    (c.accept index).validUpToIndex = c.validUpToIndex ↔ ¬ c.Overtakes index := by
  rw [accept_stays_iff h, Overtakes, not_iff_not]
  apply and_congr_right
  intro hend
  have hne : c.validUpToIndex + 1 ≠ c.validUpToIndex := by
    intro he
    have hval := congrArg UInt16.toNat he
    rw [toNat_next h.lt] at hval
    omega
  by_cases hi : index ∈ c.recentIndexes.toList
  · rw [toList_pushRecent_old hi]
    refine iff_of_false (fun hboth => ?_) ?_
    · have hlast := h.stopped hboth.1 hboth.2
      omega
    · rintro (⟨rfl, hv⟩ | ⟨rfl, hv1⟩)
      · have hlast := h.stopped hv.1 hi
        omega
      · have hlast := h.stopped hi hv1.1
        omega
  · rw [mem_pushRecent_new h.nodup hi, mem_pushRecent_new h.nodup hi]
    constructor
    · rintro ⟨hv | hv, hv1 | hv1⟩
      · have hlast := h.stopped hv.1 hv1.1
        omega
      · exact Or.inl ⟨hv1.symm, hv⟩
      · exact Or.inr ⟨hv.symm, hv1⟩
      · exact absurd (hv1.trans hv.symm) hne
    · rintro (⟨rfl, hv⟩ | ⟨rfl, hv1⟩)
      · exact ⟨Or.inl hv, Or.inr rfl⟩
      · exact ⟨Or.inr rfl, Or.inl hv1⟩

variable [OtaMemoryDelegate M]

def step (c : OtaConsumer M) : ConsumerEvent M → OtaConsumer M
  | .message lora packet => (c.processMessage lora packet).2.1
  | .memory m => { c with memory := m }

/-- A block that the memory takes does not overtake the frontier. -/
def Steady (c : OtaConsumer M) : ConsumerEvent M → Prop
  | .message _ packet => ∀ index, c.acceptedBlock packet = some index → ¬ c.Overtakes index
  | .memory _ => True

theorem acceptedBlock_data {c : OtaConsumer M} {packet : LoRaPacket} {data : OtaDataPacket}
    {session : SessionParams} (hm : fromBytes packet.payload = some (.data data))
    (hs : c.session = some session) :
    c.acceptedBlock packet = if (c.writeBlock session data).1 then some data.index else none := by
  simp only [acceptedBlock, hm, hs]

/-- **Step lemma.** -/
theorem Settled.step {c : OtaConsumer M} (h : c.Settled) (e : ConsumerEvent M) :
    (c.step e).Settled := by
  cases e with
  | memory m => exact ⟨h.lt, h.nodup, h.stopped⟩
  | message lora packet =>
    unfold OtaConsumer.step
    rcases c.processMessage_cases lora packet with
      ⟨init, _, hc⟩ | ⟨data, session, _, _, _, hc⟩ | ⟨data, session, _, _, _, hc⟩ | ⟨_, hc⟩ |
      ⟨_, _, hc⟩
    · simp only [hc]
      exact ⟨Nat.zero_lt_succ _, List.nodup_nil, fun h => absurd h List.not_mem_nil⟩
    · simp only [hc]
      have hmoved : Settled { c with memory := (c.writeBlock session data).2 } :=
        ⟨h.lt, h.nodup, h.stopped⟩
      exact hmoved.accept data.index
    · simp only [hc]
      exact ⟨h.lt, h.nodup, h.stopped⟩
    · simp only [hc]
      exact ⟨h.lt, h.nodup, h.stopped⟩
    · simp only [hc]
      exact h

/-- A finished consumer stays finished over a step exactly when its frontier stays. -/
theorem isDone_step_iff {c : OtaConsumer M} (h : c.Settled) (hd : c.isDone = true)
    {e : ConsumerEvent M} (he : e.Continues) : (c.step e).isDone = true ↔ c.Steady e := by
  cases e with
  | memory m => exact iff_of_true hd trivial
  | message lora packet =>
    obtain ⟨hinit, habort⟩ := he
    unfold OtaConsumer.step Steady
    rcases c.processMessage_cases lora packet with
      ⟨init, hm, _⟩ | ⟨data, session, hm, hs, hw, hc⟩ | ⟨data, session, hm, hs, hw, hc⟩ |
      ⟨hm, _⟩ | ⟨_, ha, hc⟩
    · exact absurd hm (hinit init)
    · have ha : c.acceptedBlock packet = some data.index := by
        rw [acceptedBlock_data hm hs, if_pos hw]
      have hmoved : Settled { c with memory := (c.writeBlock session data).2 } :=
        ⟨h.lt, h.nodup, h.stopped⟩
      have hcount := (isDone_iff hs h.lt).mp hd
      have hnext := isDone_iff
        (c := { c with memory := (c.writeBlock session data).2 }.accept data.index) hs
        (hmoved.accept data.index).lt
      simp only [hc, ha, Option.some.injEq, forall_eq']
      rw [hnext, ← hcount, Nat.add_right_cancel_iff, UInt16.toNat_inj]
      exact accept_stays hmoved data.index
    · have ha : c.acceptedBlock packet = none := by
        rw [acceptedBlock_data hm hs, if_neg (by rw [hw]; exact Bool.false_ne_true)]
      simp only [hc, ha]
      exact iff_of_true hd fun _ hno => by cases hno
    · exact absurd hm habort
    · simp only [hc, ha]
      exact iff_of_true hd fun _ hno => by cases hno

end OtaConsumer

/-- **Completion is stable**, from any reachable state that is done and over any
messages but an Init and an Abort, exactly when no block that the memory takes
overtakes the frontier. -/
theorem completion_stable_iff {M : Type} [OtaMemoryDelegate M] (memory : M)
    (before after : List (ConsumerEvent M))
    (hd : (run OtaConsumer.step (.new memory) before).isDone = true)
    (hafter : ∀ e ∈ after, e.Continues) :
    (∀ later, later <+: after →
      (run OtaConsumer.step (.new memory) (before ++ later)).isDone = true) ↔
    Along OtaConsumer.step OtaConsumer.Steady (run OtaConsumer.step (.new memory) before) after := by
  have hsettled : (run OtaConsumer.step (.new memory) before).Settled :=
    run_invariant (P := OtaConsumer.Settled) (fun _ e h => h.step e)
      (OtaConsumer.settled_new memory) before
  simp only [run_append]
  exact forall_prefix_iff_along (I := OtaConsumer.Settled) (P := fun c => c.isDone = true)
    (A := ConsumerEvent.Continues) (fun _ e h => h.step e)
    (fun _ _ h hd he => OtaConsumer.isDone_step_iff h hd he) hsettled hd hafter

/-- A one-byte block on its way to node 3. -/
def blockMessage (index : UInt16) : ConsumerEvent OtaMemory :=
  .message (.quiet 3) ((OtaPacket.data ⟨index, ⟨[9], by decide⟩⟩).packet 1 3)

/-- A session of two blocks that have both been taken. -/
def twoBlocks : List (ConsumerEvent OtaMemory) :=
  [.message (.quiet 3) ((OtaPacket.init ⟨2, .replicate 32 0, 1, 2⟩).packet 1 3),
    blockMessage 0, blockMessage 1]

theorem stable_after_duplicate :
    (run OtaConsumer.step (.new OtaMemory.new) (twoBlocks ++ [blockMessage 1])).isDone = true := by
  have hcontinues : (blockMessage 1).Continues := by
    simp [blockMessage, ConsumerEvent.Continues]
  refine (completion_stable_iff OtaMemory.new twoBlocks [blockMessage 1] (by decide +kernel)
    fun e he => List.mem_singleton.mp he ▸ hcontinues).mpr ⟨fun index hindex => ?_, trivial⟩
    [blockMessage 1] List.prefix_rfl
  have htaken : (run OtaConsumer.step (.new OtaMemory.new) twoBlocks).acceptedBlock
      ((OtaPacket.data ⟨1, ⟨[9], by decide⟩⟩).packet 1 3) = some 1 := by decide +kernel
  rw [htaken] at hindex
  cases hindex
  rintro ⟨_, ⟨he, _⟩ | ⟨_, hwindow, _⟩⟩
  · revert he
    decide +kernel
  · revert hwindow
    decide +kernel

/-- Block 2 of two blocks moves the frontier past the end. -/
theorem unstable_after_third :
    (run OtaConsumer.step (.new OtaMemory.new) twoBlocks).isDone = true ∧
      (blockMessage 2).Continues ∧
      (run OtaConsumer.step (.new OtaMemory.new) (twoBlocks ++ [blockMessage 2])).isDone =
        false := by
  have hruns : (run OtaConsumer.step (.new OtaMemory.new) twoBlocks).isDone = true ∧
      (run OtaConsumer.step (.new OtaMemory.new) (twoBlocks ++ [blockMessage 2])).isDone =
        false := by
    decide +kernel
  exact ⟨hruns.1, by simp [blockMessage, ConsumerEvent.Continues], hruns.2⟩

end LoraModuleFw.Ota
