import LoraModuleFw.Ota.Completion
import LoraModuleFw.Ota.Stability

/-! How a download that has stalled goes on: what the frontier of a node waits for,
and what to send again so that it gets to the end. -/

namespace LoraModuleFw.Ota

open Lora Runs ModuleNode

namespace OtaConsumer

variable {M : Type}

/-! ## Stalled -/

/-- The block at the frontier has left the window. -/
def Stalled (c : OtaConsumer M) : Prop := c.validUpToIndex ∉ c.recentIndexes.toList

/-- Any other block leaves the consumer stalled where it is. -/
theorem Stalled.accept {c : OtaConsumer M} (h : c.Stalled) (hs : c.Settled) {index : UInt16}
    (hne : index ≠ c.validUpToIndex) :
    (c.accept index).validUpToIndex = c.validUpToIndex ∧ (c.accept index).Stalled := by
  have hstays : (c.accept index).validUpToIndex = c.validUpToIndex := by
    apply (accept_stays hs index).mpr
    rintro ⟨_, ⟨_, hv, _⟩ | ⟨he, _⟩⟩
    · exact h hv
    · exact hne he
  refine ⟨hstays, fun hmem => ?_⟩
  rw [hstays] at hmem
  rcases mem_pushRecent hmem with hv | he
  · exact h hv
  · exact hne he.symm

/-- The message goes on with the session, and its block is not the one at `v`. -/
def Avoids (v : UInt16) : ConsumerEvent M → Prop
  | .message _ packet =>
    (∀ init, fromBytes packet.payload ≠ some (.init init)) ∧
      fromBytes packet.payload ≠ some .abort ∧
      ∀ data, fromBytes packet.payload = some (.data data) → data.index ≠ v
  | .memory _ => True

variable [OtaMemoryDelegate M]

/-- **Step lemma.** -/
theorem Stalled.step {c : OtaConsumer M} (h : c.Stalled) (hs : c.Settled) {e : ConsumerEvent M}
    (he : Avoids c.validUpToIndex e) :
    (c.step e).validUpToIndex = c.validUpToIndex ∧ (c.step e).session = c.session ∧
      (c.step e).Stalled := by
  cases e with
  | memory m => exact ⟨rfl, rfl, h⟩
  | message lora packet =>
    obtain ⟨hinit, habort, hdata⟩ := he
    change (c.processMessage lora packet).2.1.validUpToIndex = _ ∧
      (c.processMessage lora packet).2.1.session = _ ∧ (c.processMessage lora packet).2.1.Stalled
    rcases c.processMessage_cases lora packet with
      ⟨init, hm, _⟩ | ⟨data, session, hm, _, _, hc⟩ | ⟨data, session, _, _, _, hc⟩ | ⟨hm, _⟩ |
      ⟨_, _, hc⟩
    · exact absurd hm (hinit init)
    · have hsettled : Settled { c with memory := (c.writeBlock session data).2 } :=
        ⟨hs.lt, hs.nodup, hs.stopped⟩
      have hstalled : Stalled { c with memory := (c.writeBlock session data).2 } := h
      obtain ⟨hv, hout⟩ := hstalled.accept hsettled (hdata data hm)
      rw [hc]
      exact ⟨hv, rfl, hout⟩
    · rw [hc]
      exact ⟨rfl, rfl, h⟩
    · exact absurd hm habort
    · rw [hc]
      exact ⟨rfl, rfl, h⟩

/-- **Run lemma.** -/
theorem Stalled.run {c : OtaConsumer M} (h : c.Stalled) (hs : c.Settled)
    {events : List (ConsumerEvent M)} (he : ∀ e ∈ events, Avoids c.validUpToIndex e) :
    (Runs.run OtaConsumer.step c events).validUpToIndex = c.validUpToIndex ∧
      (Runs.run OtaConsumer.step c events).session = c.session := by
  induction events generalizing c with
  | nil => exact ⟨rfl, rfl⟩
  | cons e events ih =>
    obtain ⟨hv, hsess, hstalled⟩ := h.step hs (he e List.mem_cons_self)
    obtain ⟨hv', hsess'⟩ := ih hstalled (hs.step e) fun e' he' => by
      rw [hv]
      exact he e' (List.mem_cons_of_mem e he')
    exact ⟨hv'.trans hv, hsess'.trans hsess⟩

end OtaConsumer

/-- **A stalled download waits for one block.**  Once the block at the frontier has left
the window, then whatever else is sent, and however often, the frontier stays and the node
gets no nearer to its end, although it has taken that block before. -/
theorem stalled_download {M : Type} [OtaMemoryDelegate M] (memory : M)
    (before after : List (ConsumerEvent M))
    (hstalled : (run OtaConsumer.step (.new memory) before).Stalled)
    (havoids : ∀ e ∈ after,
      OtaConsumer.Avoids (run OtaConsumer.step (.new memory) before).validUpToIndex e) :
    (run OtaConsumer.step (.new memory) (before ++ after)).validUpToIndex =
        (run OtaConsumer.step (.new memory) before).validUpToIndex ∧
      (run OtaConsumer.step (.new memory) (before ++ after)).isDone =
        (run OtaConsumer.step (.new memory) before).isDone := by
  have hsettled : (run OtaConsumer.step (.new memory) before).Settled :=
    run_invariant (P := OtaConsumer.Settled) (fun _ e h => h.step e)
      (OtaConsumer.settled_new memory) before
  obtain ⟨hv, hs⟩ := hstalled.run hsettled havoids
  rw [run_append]
  exact ⟨hv, by simp only [OtaConsumer.isDone, hv, hs]⟩

/-- One-byte blocks of these indexes, one message each. -/
def singleByteEvents (indexes : List Nat) : List (ConsumerEvent OtaMemory) :=
  (singleByteBlocks indexes).map (.message (.quiet 3))

/-- Block 1 is late: it pushes block 0 out of the window, and the node then has blocks 0 to 32
and gets nowhere with block 33. -/
theorem stalled_download_late :
    let before := .message (.quiet 3) ((OtaPacket.init ⟨34, .replicate 32 0, 1, 34⟩).packet 1 3) ::
      singleByteEvents (0 :: List.range' 2 31 ++ [1])
    (run OtaConsumer.step (.new OtaMemory.new) (before ++ singleByteEvents [1, 33])).isDone =
      (run OtaConsumer.step (.new OtaMemory.new) before).isDone := by
  intro before
  have hstalled : (run OtaConsumer.step (.new OtaMemory.new) before).Stalled := by
    unfold OtaConsumer.Stalled
    decide +kernel
  have hv : (run OtaConsumer.step (.new OtaMemory.new) before).validUpToIndex = 0 := by
    decide +kernel
  refine (stalled_download OtaMemory.new before (singleByteEvents [1, 33]) hstalled ?_).2
  rw [hv]
  intro e he
  simp only [singleByteEvents, singleByteBlocks, List.map_cons, List.map_nil, List.mem_cons,
    List.not_mem_nil, or_false] at he
  rcases he with rfl | rfl <;> simp [OtaConsumer.Avoids]

/-! ## Going on -/

namespace OtaConsumer

/-- Where the frontier is sent, the next block, and the frontier again, it moves.  Sent
once, it may be the oldest of a full window, which the next block pushes out. -/
theorem accept_moves_on {M : Type} {c : OtaConsumer M} (h : c.Settled)
    (hend : c.validUpToIndex.toNat + 1 < 65535) :
    c.validUpToIndex.toNat <
      (((c.accept c.validUpToIndex).accept (c.validUpToIndex + 1)).accept
        c.validUpToIndex).validUpToIndex.toNat := by
  have hs₁ := h.accept c.validUpToIndex
  have hs₂ := hs₁.accept (c.validUpToIndex + 1)
  have hle₁ := (c.le_accept c.validUpToIndex h.lt).1
  have hle₂ := (OtaConsumer.le_accept _ (c.validUpToIndex + 1) hs₁.lt).1
  have hle₃ := (OtaConsumer.le_accept _ c.validUpToIndex hs₂.lt).1
  by_contra hno
  have h₁ : (c.accept c.validUpToIndex).validUpToIndex = c.validUpToIndex :=
    UInt16.toNat_inj.mp (by omega)
  have h₂ : ((c.accept c.validUpToIndex).accept (c.validUpToIndex + 1)).validUpToIndex =
      c.validUpToIndex := UInt16.toNat_inj.mp (by omega)
  have h₃ : (((c.accept c.validUpToIndex).accept (c.validUpToIndex + 1)).accept
      c.validUpToIndex).validUpToIndex = c.validUpToIndex := UInt16.toNat_inj.mp (by omega)
  have hmem : c.validUpToIndex ∈ (c.accept c.validUpToIndex).recentIndexes.toList :=
    mem_pushRecent_self c.recentIndexes c.validUpToIndex
  have hnext : c.validUpToIndex + 1 ∉ (c.accept c.validUpToIndex).recentIndexes.toList := by
    intro hv1
    have hstop := hs₁.stopped
    rw [h₁] at hstop
    have hlast := hstop hmem hv1
    omega
  -- the next block pushed the frontier out
  have hout : (c.accept c.validUpToIndex).recentIndexes.isFull = true ∧
      (c.accept c.validUpToIndex).recentIndexes.toList.head? = some c.validUpToIndex := by
    by_contra hkept
    apply (accept_stays hs₁ (c.validUpToIndex + 1)).mp (h₂.trans h₁.symm)
    refine ⟨by rw [h₁]; exact hend, Or.inl ⟨by rw [h₁], ?_⟩⟩
    rw [h₁]
    exact ⟨hmem, fun hf hh => hkept ⟨hf, hh⟩⟩
  -- but is itself at the other end of the window
  apply (accept_stays hs₂ c.validUpToIndex).mp (h₃.trans h₂.symm)
  refine ⟨by rw [h₂]; exact hend, Or.inr ⟨h₂.symm, ?_⟩⟩
  rw [h₂]
  refine ⟨mem_pushRecent_self _ _, fun _ => ?_⟩
  have hwindow : ((c.accept c.validUpToIndex).accept (c.validUpToIndex + 1)).recentIndexes.toList =
      (c.accept c.validUpToIndex).recentIndexes.toList.tail ++ [c.validUpToIndex + 1] := by
    change (pushRecent _ _).toList = _
    rw [toList_pushRecent_new hnext, if_pos hout.1]
  rw [hwindow]
  have hlen : (c.accept c.validUpToIndex).recentIndexes.toList.length = 32 :=
    decide_eq_true_eq.mp hout.1
  rcases hl : (c.accept c.validUpToIndex).recentIndexes.toList with _ | ⟨a, _ | ⟨b, rest⟩⟩
  · rw [hl] at hlen
    cases hlen
  · rw [hl] at hlen
    cases hlen
  · rw [hl] at hnext
    intro hhead
    cases hhead
    exact hnext (List.mem_cons_of_mem _ List.mem_cons_self)

/-- A block, the next one, and the first again take the frontier past it. -/
theorem accept_past {M : Type} {c : OtaConsumer M} (h : c.Settled) {i : ℕ} {v v' : UInt16}
    (hle : i ≤ c.validUpToIndex.toNat) (hv : v.toNat = i) (hv' : v'.toNat = i + 1)
    (hend : i + 1 < 65535) :
    i + 1 ≤ (((c.accept v).accept v').accept v).validUpToIndex.toNat := by
  by_cases hat : i = c.validUpToIndex.toNat
  · have hfront : v = c.validUpToIndex := UInt16.toNat_inj.mp (hv.trans hat)
    have hnext : v' = c.validUpToIndex + 1 := by
      apply UInt16.toNat_inj.mp
      rw [toNat_next h.lt, hv', hat]
    rw [hfront, hnext, hat]
    exact accept_moves_on h (by omega)
  · have hs₁ := h.accept v
    have hle₁ := (c.le_accept v h.lt).1
    have hle₂ := (OtaConsumer.le_accept _ v' hs₁.lt).1
    have hle₃ := (OtaConsumer.le_accept _ v (hs₁.accept v').lt).1
    omega

end OtaConsumer

/-- The packet carries block `i`. -/
def CarriesBlock (i : ℕ) (p : LoRaPacket) : Prop :=
  ∃ data, fromBytes p.payload = some (.data data) ∧ data.index.toNat = i

/-- From block `i` on, every block but the last is sent, then the next one, then itself again. -/
inductive Zigzag (n : ℕ) : ℕ → List LoRaPacket → Prop
  | last {i : ℕ} : n ≤ i + 1 → Zigzag n i []
  | block {i : ℕ} {p q r : LoRaPacket} {ps : List LoRaPacket} : i + 1 < n → CarriesBlock i p →
      CarriesBlock (i + 1) q → CarriesBlock i r → Zigzag n (i + 1) ps →
      Zigzag n i (p :: q :: r :: ps)

namespace Watched

variable {M : Type}

/-- A session that has only been sent its own blocks. -/
structure Resumable (session : SessionParams) (w : Watched M) : Prop where
  truthful : w.Truthful
  settled : w.consumer.Settled
  opened : w.consumer.session = some session
  below : ∀ i ∈ w.accepted, i.toNat < session.params.blockCount.toNat

theorem Resumable.lt {session : SessionParams} {w : Watched M} (h : w.Resumable session)
    (hcount : 1 ≤ session.params.blockCount.toNat) :
    w.consumer.validUpToIndex.toNat < session.params.blockCount.toNat := by
  by_cases hpos : 0 < w.consumer.validUpToIndex.toNat
  · exact h.below _ (toNat_mem_indexSet.mp (h.truthful.contiguous hpos _ (Nat.le_refl _)))
  · omega

variable [OtaMemoryDelegate M]

/-- A block that the memory takes. -/
theorem step_taken {w : Watched M} {packet : LoRaPacket} {data : OtaDataPacket}
    {session : SessionParams} (hm : fromBytes packet.payload = some (.data data))
    (hs : w.consumer.session = some session) (hw : (w.consumer.writeBlock session data).1 = true) :
    (w.step packet).consumer =
        { w.consumer with memory := (w.consumer.writeBlock session data).2 }.accept data.index ∧
      (w.step packet).accepted = w.accepted ++ [data.index] := by
  constructor
  · simp only [Watched.step, OtaConsumer.processMessage, OtaConsumer.handleData, hm, hs, hw,
      if_true]
  · simp only [Watched.step, hm, OtaConsumer.acceptedBlock_data hm hs, hw, if_true,
      Option.toList_some]

theorem Resumable.step {session : SessionParams} {w : Watched M} (h : w.Resumable session)
    {p : LoRaPacket} {i : ℕ} (hp : CarriesBlock i p) (hi : i < session.params.blockCount.toNat)
    (htaken : (w.consumer.acceptedBlock p).isSome = true) :
    (w.step p).Resumable session ∧ ∃ index memory, index.toNat = i ∧
      (w.step p).consumer = { w.consumer with memory }.accept index := by
  obtain ⟨data, hm, rfl⟩ := hp
  have hs := h.opened
  have hw : (w.consumer.writeBlock session data).1 = true := by
    rw [OtaConsumer.acceptedBlock_data hm hs] at htaken
    by_contra hno
    rw [if_neg hno] at htaken
    cases htaken
  obtain ⟨hc, ha⟩ := step_taken hm hs hw
  refine ⟨⟨h.truthful.step p, ?_, ?_, ?_⟩, data.index, _, rfl, hc⟩
  · exact h.settled.step (.message w.lora p)
  · rw [hc]
    exact hs
  · rw [ha]
    intro j hj
    rcases List.mem_append.mp hj with hj | hj
    · exact h.below j hj
    · rwa [List.mem_singleton.mp hj]

/-- **Stage lemma.**  Three blocks take the frontier past `i`. -/
theorem Resumable.stage {session : SessionParams} {w : Watched M} (h : w.Resumable session)
    {i : ℕ} {p q r : LoRaPacket} (hi : i + 1 < session.params.blockCount.toNat)
    (hle : i ≤ w.consumer.validUpToIndex.toNat) (hp : CarriesBlock i p)
    (hq : CarriesBlock (i + 1) q) (hr : CarriesBlock i r)
    (hptaken : (w.consumer.acceptedBlock p).isSome = true)
    (hqtaken : ((w.step p).consumer.acceptedBlock q).isSome = true)
    (hrtaken : (((w.step p).step q).consumer.acceptedBlock r).isSome = true) :
    (((w.step p).step q).step r).Resumable session ∧
      i + 1 ≤ (((w.step p).step q).step r).consumer.validUpToIndex.toNat := by
  obtain ⟨h₁, v, m₁, hv, hc₁⟩ := h.step hp (by omega) hptaken
  obtain ⟨h₂, v', m₂, hv', hc₂⟩ := h₁.step hq hi hqtaken
  obtain ⟨h₃, v'', m₃, hv'', hc₃⟩ := h₂.step hr (by omega) hrtaken
  refine ⟨h₃, ?_⟩
  have hcount := session.params.blockCount.toNat_lt
  have hrun : (((w.step p).step q).step r).consumer.validUpToIndex =
      (((w.consumer.accept v).accept v').accept v'').validUpToIndex := by
    rw [hc₃, hc₂, hc₁]
    rfl
  have hsame : v'' = v := UInt16.toNat_inj.mp (hv''.trans hv.symm)
  rw [hrun, hsame]
  exact OtaConsumer.accept_past h.settled hle hv hv' (by omega)

/-- **Run lemma.** -/
theorem Resumable.run {session : SessionParams} {w : Watched M} (h : w.Resumable session) {i : ℕ}
    {packets : List LoRaPacket} (hle : i ≤ w.consumer.validUpToIndex.toNat)
    (hz : Zigzag session.params.blockCount.toNat i packets)
    (htaken : Along Watched.step (fun w p => (w.consumer.acceptedBlock p).isSome = true) w
      packets) :
    (Runs.run Watched.step w packets).Resumable session ∧ session.params.blockCount.toNat ≤
      (Runs.run Watched.step w packets).consumer.validUpToIndex.toNat + 1 := by
  induction hz generalizing w with
  | last hlast => exact ⟨h, by rw [run_nil]; omega⟩
  | block hi hp hq hr _ ih =>
    obtain ⟨hptaken, hqtaken, hrtaken, hrest⟩ := htaken
    obtain ⟨hnext, hfront⟩ := h.stage hi hle hp hq hr hptaken hqtaken hrtaken
    exact ih hnext hfront hrest

end Watched

/-- **A stalled download can be finished.**  From every reachable state of a session that
was sent its own blocks only, whatever was lost, repeated or reordered, sending every
block from the frontier on, the next one, and the first again completes the download, if
it has a block at all and the memory takes the blocks. -/
theorem download_resumed {M : Type} [OtaMemoryDelegate M] (memory : M) (lora : ModuleLoRa)
    (before after : List LoRaPacket) (session : SessionParams)
    (hsession : (run Watched.step (.start memory lora) before).consumer.session = some session)
    (hcount : 1 ≤ session.params.blockCount.toNat)
    (hbelow : ∀ i ∈ (run Watched.step (.start memory lora) before).accepted,
      i.toNat < session.params.blockCount.toNat)
    (hafter : Zigzag session.params.blockCount.toNat
      (run Watched.step (.start memory lora) before).consumer.validUpToIndex.toNat after)
    (htaken : Along Watched.step (fun w p => (w.consumer.acceptedBlock p).isSome = true)
      (run Watched.step (.start memory lora) before) after) :
    (run Watched.step (.start memory lora) (before ++ after)).consumer.isDone = true := by
  have hsettled : (run Watched.step (Watched.start memory lora) before).consumer.Settled :=
    run_invariant (P := fun w : Watched M => w.consumer.Settled)
      (fun w p h => h.step (.message w.lora p)) (OtaConsumer.settled_new memory) before
  have hresumable : (run Watched.step (Watched.start memory lora) before).Resumable session :=
    ⟨(Watched.truthful_start memory lora).run before, hsettled, hsession, hbelow⟩
  obtain ⟨hrun, hge⟩ := hresumable.run (Nat.le_refl _) hafter htaken
  rw [run_append]
  have hlt := hrun.lt hcount
  exact (OtaConsumer.isDone_iff hrun.opened hrun.settled.lt).mpr (by omega)

/-- Three blocks of which the second got lost. -/
theorem download_resumed_three :
    let init : OtaInitPacket := ⟨3, .replicate 32 0, 1, 3⟩
    let before := (OtaPacket.init init).packet 1 3 :: singleByteBlocks [0, 2]
    (run Watched.step (.start OtaMemory.new (.quiet 3))
      (before ++ singleByteBlocks [0, 1, 0, 1, 2, 1])).consumer.isDone = true := by
  intro init before
  have hblock (i : ℕ) (hi : i < 65536) : CarriesBlock i
      ((OtaPacket.data ⟨UInt16.ofNat i, ⟨[7], by decide⟩⟩).packet 1 3) :=
    ⟨_, OtaPacket.fromBytes_packet .., Nat.mod_eq_of_lt hi⟩
  have hfrontier :
      (run Watched.step (.start OtaMemory.new (.quiet 3)) before).consumer.validUpToIndex = 0 := by
    decide +kernel
  have haccepted :
      (run Watched.step (.start OtaMemory.new (.quiet 3)) before).accepted = [0, 2] := by
    decide +kernel
  refine download_resumed OtaMemory.new (.quiet 3) before _ ⟨init, 1⟩ (by decide +kernel)
    (by decide) ?_ ?_ (by decide +kernel)
  · rw [haccepted]
    intro i hi
    simp only [List.mem_cons, List.not_mem_nil, or_false] at hi
    rcases hi with rfl | rfl <;> decide
  rw [hfrontier]
  exact .block (by decide) (hblock 0 (by decide)) (hblock 1 (by decide)) (hblock 0 (by decide))
    (.block (by decide) (hblock 1 (by decide)) (hblock 2 (by decide)) (hblock 1 (by decide))
      (.last (by decide)))

end LoraModuleFw.Ota
