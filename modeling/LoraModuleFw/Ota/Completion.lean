import LoraModuleFw.ModuleNode.OtaMemory
import LoraModuleFw.Ota.ConsumerRuns

/-! When the node takes a download for complete: `is_done` against the blocks
the memory has taken since the latest Init. -/

namespace LoraModuleFw.Ota

open Lora Runs Frontier ModuleNode

/-! ## Soundness -/

/-- For a session opened by `init`: whatever the memory, the radio and the
messages, `is_done` implies that every block has been taken. -/
def CompletionSound (init : OtaInitPacket) : Prop :=
  ∀ (M : Type) [OtaMemoryDelegate M] (memory : M) (lora : ModuleLoRa) (packets : List LoRaPacket),
    let w := run Watched.step (Watched.start memory lora) packets
    w.consumer.session.map SessionParams.params = some init → w.consumer.isDone = true →
      ∀ i < init.blockCount.toNat, i ∈ indexSet w.accepted

/-- A finished consumer with more than one block has taken them all. -/
theorem Watched.Truthful.all_accepted {M : Type} {w : Watched M} (h : w.Truthful)
    {session : SessionParams} (hs : w.consumer.session = some session)
    (hd : w.consumer.isDone = true) (hone : session.params.blockCount.toNat ≠ 1) :
    ∀ i < session.params.blockCount.toNat, i ∈ indexSet w.accepted := by
  have hv := (OtaConsumer.isDone_iff hs h.lt).mp hd
  intro i hi
  exact h.contiguous (by omega) i (by omega)

/-- With a single block the node is done as soon as it has processed the Init. -/
theorem isDone_after_init {M : Type} [OtaMemoryDelegate M] (w : Watched M) {packet : LoRaPacket}
    {init : OtaInitPacket} (hm : fromBytes packet.payload = some (.init init))
    (hone : init.blockCount.toNat = 1) :
    (w.step packet).consumer.session.map SessionParams.params = some init ∧
      (w.step packet).consumer.isDone = true ∧ (w.step packet).accepted = [] := by
  have hc : init.blockCount = 1 := UInt16.toNat_inj.mp hone
  simp [Watched.step, OtaConsumer.processMessage, OtaConsumer.handleInit, OtaConsumer.isDone, hm, hc]

/-- `is_done` is sound exactly for the sessions that do not have a single block. -/
theorem completionSound_iff (init : OtaInitPacket) :
    CompletionSound init ↔ init.blockCount.toNat ≠ 1 := by
  constructor
  · intro h hone
    have hm : fromBytes ((OtaPacket.init init).packet 1 3).payload = some (.init init) := by simp
    obtain ⟨hs, hd, ha⟩ := isDone_after_init (Watched.start OtaMemory.new (.quiet 3)) hm hone
    have hall := h OtaMemory OtaMemory.new (.quiet 3) [(OtaPacket.init init).packet 1 3] hs hd
    rw [run_cons, run_nil, ha] at hall
    obtain ⟨i, hi, _⟩ := hall 0 (by omega)
    cases hi
  · intro hone M _ memory lora packets w hs hd
    have ht : w.Truthful := (Watched.truthful_start memory lora).run packets
    obtain ⟨session, hsess, hp⟩ := Option.map_eq_some_iff.mp hs
    subst hp
    exact ht.all_accepted hsess hd hone

/-- A session with one block of 64 bytes: done before any Data. -/
theorem done_before_data :
    let init : OtaInitPacket := ⟨64, .replicate 32 0, 64, 1⟩
    let w := run Watched.step (Watched.start OtaMemory.new (.quiet 3))
      [(OtaPacket.init init).packet 1 3]
    w.consumer.isDone = true ∧ ¬ ∀ i < init.blockCount.toNat, i ∈ indexSet w.accepted := by
  intro init w
  have hm : fromBytes ((OtaPacket.init init).packet 1 3).payload = some (.init init) := by simp
  obtain ⟨_, hd, ha⟩ := isDone_after_init (Watched.start OtaMemory.new (.quiet 3)) hm rfl
  refine ⟨hd, fun hall => ?_⟩
  obtain ⟨i, hi, _⟩ := hall 0 (by decide)
  rw [show w.accepted = [] from ha] at hi
  cases hi

/-! ## Completeness -/

/-- The message does not push out of a full window an index that the frontier
has yet to pass: the oldest index is below it, or the download is done. -/
def OtaConsumer.evictsSafely {M : Type} [OtaMemoryDelegate M] (c : OtaConsumer M)
    (packet : LoRaPacket) : Bool :=
  match c.acceptedBlock packet with
  | none => true
  | some index =>
    decide (index ∈ c.recentIndexes.toList) || !c.recentIndexes.isFull ||
      c.recentIndexes.toList.head?.all fun old => decide (old < c.validUpToIndex) || c.isDone

/-- During the Data packets of `init`: everything taken is below the block
count, and until the frontier has reached the end nothing beyond it is lost. -/
structure Watched.Covering {M : Type} (init : OtaInitPacket) (w : Watched M) : Prop where
  session : ∃ source, w.consumer.session = some ⟨init, source⟩
  frontier : w.consumer.validUpToIndex.toNat < init.blockCount.toNat
  below : ∀ i ∈ w.accepted, i.toNat < init.blockCount.toNat
  window : ∀ i ∈ w.consumer.recentIndexes.toList, i ∈ w.accepted
  progress : w.consumer.validUpToIndex.toNat + 1 = init.blockCount.toNat ∨
    Covered (indexSet w.accepted) (indexSet w.consumer.recentIndexes.toList)
        w.consumer.validUpToIndex.toNat ∧
      Stopped (indexSet w.consumer.recentIndexes.toList) w.consumer.validUpToIndex.toNat

namespace Watched

variable {M : Type} [OtaMemoryDelegate M] {init : OtaInitPacket}

theorem covering_init (w : Watched M) {packet : LoRaPacket}
    (hm : fromBytes packet.payload = some (.init init)) (hbc : 1 ≤ init.blockCount.toNat) :
    (w.step packet).Covering init where
  session := ⟨packet.source, by
    simp [Watched.step, OtaConsumer.processMessage, OtaConsumer.handleInit, hm]⟩
  frontier := by
    simp only [Watched.step, OtaConsumer.processMessage, OtaConsumer.handleInit, hm]
    exact hbc
  below := by simp [Watched.step, hm]
  window := by simp [Watched.step, OtaConsumer.processMessage, OtaConsumer.handleInit, hm]
  progress := by
    right
    simp only [Watched.step, OtaConsumer.processMessage, OtaConsumer.handleInit, hm]
    refine ⟨?_, ?_⟩
    · rintro k ⟨i, hi, _⟩
      cases hi
    · rintro ⟨i, hi, _⟩
      cases hi

theorem indexSet_concat (l : List UInt16) (i : UInt16) :
    indexSet (l ++ [i]) = insert i.toNat (indexSet l) := by
  ext k
  simp only [indexSet, List.mem_append, List.mem_singleton, Set.mem_ofPred_eq, Set.mem_insert_iff]
  constructor
  · rintro ⟨j, hj | rfl, rfl⟩
    · exact Or.inr ⟨j, hj, rfl⟩
    · exact Or.inl rfl
  · rintro (rfl | ⟨j, hj, rfl⟩)
    · exact ⟨i, Or.inr rfl, rfl⟩
    · exact ⟨j, Or.inl hj, rfl⟩

omit [OtaMemoryDelegate M] in
/-- A block taken with a safe eviction. -/
theorem Covering.accept {w : Watched M} (h : w.Covering init) (c : OtaConsumer M)
    (index : UInt16) (hs : c.session = w.consumer.session)
    (hr : c.recentIndexes = w.consumer.recentIndexes)
    (hv : c.validUpToIndex = w.consumer.validUpToIndex)
    (hi : index.toNat < init.blockCount.toNat)
    (hsafe : index ∉ w.consumer.recentIndexes.toList → w.consumer.recentIndexes.isFull = true →
      ∀ old, w.consumer.recentIndexes.toList.head? = some old →
        old.toNat < w.consumer.validUpToIndex.toNat ∨
          w.consumer.validUpToIndex.toNat + 1 = init.blockCount.toNat)
    {lora : ModuleLoRa} :
    Covering init { consumer := c.accept index, lora, accepted := w.accepted ++ [index] } := by
  have hcount := init.blockCount.toNat_lt
  have hlt : c.validUpToIndex.toNat < 65535 := by rw [hv]; have := h.frontier; omega
  have hge := (c.le_accept index hlt).1
  have hbelow : ∀ i ∈ w.accepted ++ [index], i.toNat < init.blockCount.toNat := by
    intro i hmem
    rcases List.mem_append.mp hmem with hmem | hmem
    · exact h.below i hmem
    · rwa [List.mem_singleton.mp hmem]
  have hwin : ∀ i ∈ (c.accept index).recentIndexes.toList, i ∈ w.accepted ++ [index] := by
    intro i hmem
    rcases mem_pushRecent hmem with hmem | rfl
    · rw [hr] at hmem
      exact List.mem_append_left _ (h.window i hmem)
    · simp
  have hwin_lt : ∀ k ∈ indexSet (c.accept index).recentIndexes.toList,
      k < init.blockCount.toNat := by
    rintro k ⟨i, hmem, rfl⟩
    exact hbelow i (hwin i hmem)
  have hfront : (c.accept index).validUpToIndex.toNat < init.blockCount.toNat := by
    rcases c.accept_moves index hlt with he | hall
    · rw [he, hv]; exact h.frontier
    · exact hwin_lt _ (hall _ hge (Nat.le_refl _))
  refine ⟨?_, hfront, hbelow, hwin, ?_⟩
  · obtain ⟨source, hsource⟩ := h.session
    exact ⟨source, hs.trans hsource⟩
  · change (c.accept index).validUpToIndex.toNat + 1 = _ ∨ _
    rcases h.progress with hdone | ⟨hcov, _⟩
    · left
      rw [hv] at hge
      omega
    · by_cases hdone : w.consumer.validUpToIndex.toNat + 1 = init.blockCount.toNat
      · left
        rw [hv] at hge
        omega
      · right
        refine ⟨?_, ?_⟩
        · rw [indexSet_concat]
          rw [← hv] at hcov
          refine hcov.step hge (toNat_mem_indexSet.mpr (mem_pushRecent_self _ _)) ?_
          rintro k ⟨i, hmem, rfl⟩ hk
          refine toNat_mem_indexSet.mpr (pushRecent_keeps (by rwa [hr]) fun hnew hfull hold => ?_)
          rw [hr] at hnew hfull hold
          -- the oldest index is below the frontier, `i` is not
          rcases hsafe hnew hfull i hold with hlow | hlast
          · rw [hv] at hk; omega
          · exact hdone hlast
        · intro hmem hnext
          rcases c.accept_stops index hlt hmem with hgap | hend
          · exact hgap hnext
          · have : (c.accept index).validUpToIndex.toNat + 1 < _ := hwin_lt _ hnext
            omega

/-- **Step lemma.** -/
theorem Covering.step {w : Watched M} (h : w.Covering init) {packet : LoRaPacket}
    {data : OtaDataPacket} (hm : fromBytes packet.payload = some (.data data))
    (hi : data.index.toNat < init.blockCount.toNat)
    (hsafe : w.consumer.evictsSafely packet = true) : (w.step packet).Covering init := by
  obtain ⟨source, hs⟩ := h.session
  have hcount := init.blockCount.toNat_lt
  have hlt : w.consumer.validUpToIndex.toNat < 65535 := by have := h.frontier; omega
  cases hw : (w.consumer.writeBlock ⟨init, source⟩ data).1
  · have hc : (w.consumer.processMessage w.lora packet).2.1 =
        { w.consumer with memory := (w.consumer.writeBlock ⟨init, source⟩ data).2 } := by
      simp [OtaConsumer.processMessage, OtaConsumer.handleData, hm, hs, hw]
    have ha : w.consumer.acceptedBlock packet = none := by
      simp [OtaConsumer.acceptedBlock, hm, hs, hw]
    simp only [Watched.step, hm, hc, ha, Option.toList_none, List.append_nil]
    exact ⟨h.session, h.frontier, h.below, h.window, h.progress⟩
  · have hc : (w.consumer.processMessage w.lora packet).2.1 =
        { w.consumer with
          memory := (w.consumer.writeBlock ⟨init, source⟩ data).2 }.accept data.index := by
      simp [OtaConsumer.processMessage, OtaConsumer.handleData, hm, hs, hw]
    have ha : w.consumer.acceptedBlock packet = some data.index := by
      simp [OtaConsumer.acceptedBlock, hm, hs, hw]
    simp only [Watched.step, hm, hc, ha, Option.toList_some]
    refine h.accept { w.consumer with memory := (w.consumer.writeBlock ⟨init, source⟩ data).2 }
      data.index rfl rfl rfl hi ?_
    intro hnew hfull old hold
    simp only [OtaConsumer.evictsSafely, ha, hold, Option.all_some, hfull, Bool.not_true,
      Bool.or_false, Bool.or_eq_true, decide_eq_true_eq] at hsafe
    rcases hsafe with hsafe | hsafe | hsafe
    · exact absurd hsafe hnew
    · exact Or.inl (UInt16.lt_iff_toNat_lt.mp hsafe)
    · exact Or.inr ((OtaConsumer.isDone_iff hs hlt).mp hsafe)

end Watched

/-- One-byte blocks of a binary, in the given order, on their way to node 3. -/
def singleByteBlocks (indexes : List Nat) : List LoRaPacket :=
  indexes.map fun i => (OtaPacket.data ⟨UInt16.ofNat i, ⟨[7], by decide⟩⟩).packet 1 3

/-- **Completion is not missed** in a run whose evictions are all safe. -/
theorem completion_reached {M : Type} [OtaMemoryDelegate M] (w : Watched M)
    (init : OtaInitPacket) (hbc : 1 ≤ init.blockCount.toNat) (initPacket : LoRaPacket)
    (hinit : fromBytes initPacket.payload = some (.init init)) (packets : List LoRaPacket)
    (hdata : ∀ p ∈ packets, ∃ data, fromBytes p.payload = some (.data data) ∧
      data.index.toNat < init.blockCount.toNat)
    (hsafe : Along Watched.step (fun w p => w.consumer.evictsSafely p = true)
      (w.step initPacket) packets)
    (hall : ∀ i < init.blockCount.toNat,
      i ∈ indexSet (run Watched.step (w.step initPacket) packets).accepted) :
    (run Watched.step (w.step initPacket) packets).consumer.isDone = true := by
  have hcov : (run Watched.step (w.step initPacket) packets).Covering init := by
    refine hsafe.invariant ?_ (w.covering_init hinit hbc) hdata
    rintro w p hw ⟨data, hm, hi⟩ hp
    exact hw.step hm hi hp
  generalize run Watched.step (w.step initPacket) packets = w₁ at hcov hall
  obtain ⟨source, hs⟩ := hcov.session
  have hcount := init.blockCount.toNat_lt
  have hfront := hcov.frontier
  refine (OtaConsumer.isDone_iff hs (by omega)).mpr ?_
  rcases hcov.progress with hdone | ⟨hc, hstop⟩
  · exact hdone
  · exact hc.complete hstop hfront hall

/-- Forty blocks, the first two exchanged: the window wraps and the node finishes. -/
theorem completion_reached_forty :
    (run Watched.step (Watched.step (Watched.start OtaMemory.new (.quiet 3))
      ((OtaPacket.init ⟨40, .replicate 32 0, 1, 40⟩).packet 1 3))
      (singleByteBlocks (1 :: 0 :: List.range' 2 38))).consumer.isDone = true :=
  completion_reached (Watched.start OtaMemory.new (.quiet 3)) ⟨40, .replicate 32 0, 1, 40⟩
    (by decide) ((OtaPacket.init ⟨40, .replicate 32 0, 1, 40⟩).packet 1 3)
    (OtaPacket.fromBytes_packet ..) (singleByteBlocks (1 :: 0 :: List.range' 2 38))
    (by
      intro p hp
      obtain ⟨i, hi, rfl⟩ := List.mem_map.mp hp
      refine ⟨_, OtaPacket.fromBytes_packet .., ?_⟩
      revert i
      decide)
    (by decide +kernel) (by decide +kernel)

/-- Block 0 comes after 33 later ones: the node takes all 34 blocks, but block 1
has left the window by then, and the frontier never moves. -/
theorem stalled_after_reordering :
    let w := run Watched.step (Watched.start OtaMemory.new (.quiet 3))
      ((OtaPacket.init ⟨34, .replicate 32 0, 1, 34⟩).packet 1 3 ::
        singleByteBlocks (List.range' 1 33 ++ [0]))
    (∀ i < 34, i ∈ indexSet w.accepted) ∧ w.consumer.isDone = false := by
  decide +kernel

end LoraModuleFw.Ota
