import LoraModuleFw.ModuleNode.Node
import LoraModuleFw.Ota.Completion
import LoraModuleFw.Ota.Delivery

/-! The loop in `main` of `module-node/src/main.rs` as it is, with the page writes at
its end commented out: the first page is never handed out, so what lies behind it
has to stay in the queue.  Which downloads can still be completed. -/

namespace LoraModuleFw.ModuleNode

open Lora Ota Runs

/-! ## The loop -/

/-- A packet that the radio has received, and what the sensor would measure then. -/
structure Iteration where
  lora : ModuleLoRa
  outcomes : Fin 4 → Vector SoilSensorResult SoilSensor.samples
  packet : LoRaPacket

/-- One round of the loop: nothing but the packet touches the consumer. -/
def mainLoop (c : OtaConsumer OtaMemory) (e : Iteration) : Option (OtaConsumer OtaMemory) :=
  (Node.dispatch c e.lora e.outcomes e.packet).map Prod.fst

/-- The radio has received this message. -/
structure Brings (m : OtaPacket) (e : Iteration) : Prop where
  type : e.packet.packetType = .ota
  message : fromBytes e.packet.payload = some m

theorem Brings.mainLoop {m : OtaPacket} {e : Iteration} (h : Brings m e)
    (c : OtaConsumer OtaMemory) :
    mainLoop c e = some (c.processMessage e.lora e.packet).2.1 := by
  unfold ModuleNode.mainLoop Node.dispatch
  rw [h.type]
  rfl

/-- A block that carries data. -/
def CarriesData (p : LoRaPacket) : Prop :=
  ∀ data, fromBytes p.payload = some (.data data) → data.data.toList ≠ []

theorem mainLoop_eq_some {c c' : OtaConsumer OtaMemory} {e : Iteration}
    (h : mainLoop c e = some c') : c' = c ∨ c' = (c.processMessage e.lora e.packet).2.1 := by
  obtain ⟨⟨c₁, l⟩, hd, rfl⟩ := Option.map_eq_some_iff.mp h
  rcases Node.dispatch_consumer hd with ⟨_, hc⟩ | ⟨_, hc⟩
  · exact Or.inr hc
  · exact Or.inl hc

/-! ## The memory -/

namespace OtaMemory

/-- The memory is still at its first page. -/
structure AtStart (m : OtaMemory) : Prop where
  next : m.nextAddress = 0
  page : ∀ p, m.page = some p → p.address = 0

theorem atStart_new : new.AtStart := ⟨rfl, nofun⟩

variable {m : OtaMemory}

theorem AtStart.current (h : m.AtStart) : m.currentPage.address = 0 := by
  unfold currentPage
  cases hp : m.page with
  | none => exact h.next
  | some p => exact h.page p hp

theorem AtStart.write (h : m.AtStart) (validUpTo offset : Nat) (data : Block) :
    (m.write validUpTo offset data).2.AtStart := by
  refine ⟨(m.write_nextAddress ..).trans h.next, ?_⟩
  intro p hp
  rw [write_page] at hp
  cases hp
  rw [OtaPage.writeAll_address, h.current]

/-- A block beyond the page that has been queued stays there. -/
theorem AtStart.keeps (h : m.AtStart) (validUpTo offset : Nat) (data : Block) {a : Nat}
    (ha : a ∈ m.queue.entries.map Prod.fst) (hbeyond : pageSize ≤ a) :
    a ∈ (m.write validUpTo offset data).2.queue.entries.map Prod.fst := by
  obtain ⟨e, he, rfl⟩ := List.mem_map.mp ha
  have hflushed : e ∈ m.flushedQueue.entries := by
    rw [mem_flushedQueue, h.current]
    exact ⟨he, by omega⟩
  have hkept : e.1 ∈ m.flushedQueue.entries.map Prod.fst := List.mem_map_of_mem hflushed
  rw [write_eq, h.current, if_neg (Nat.not_lt_zero _)]
  split
  · exact hkept
  · split
    · next queue hq =>
      by_cases hsame : e.1 = offset
      · exact List.mem_map.mpr
          ⟨(offset, data), (Heapless.IndexMap.mem_insert hq _).mpr (Or.inr rfl), hsame.symm⟩
      · exact List.mem_map_of_mem
          ((Heapless.IndexMap.mem_insert hq e).mpr (Or.inl ⟨hflushed, hsame⟩))
    · exact hkept

/-- Data beyond the page is taken into the queue or not at all. -/
theorem AtStart.queues (h : m.AtStart) {validUpTo offset : Nat} {data : Block}
    (hdata : data.toList ≠ []) (hbeyond : pageSize ≤ offset) (htaken : (m.write validUpTo offset data).1 = true) :
    offset ∈ (m.write validUpTo offset data).2.queue.entries.map Prod.fst := by
  have hpos := List.length_pos_iff.mpr hdata
  have hno : (m.flushedPage.write offset data.toList).1 = false := by
    rcases m.flushedPage.write_cases offset data.toList with ⟨_, hfit, _⟩ | ⟨_, hw⟩
    · rw [flushedPage_address, h.current] at hfit
      omega
    · rw [hw]
  rw [write_eq, h.current, if_neg (Nat.not_lt_zero _), if_neg (by simp [hno])] at htaken ⊢
  cases hq : m.flushedQueue.insert offset data with
  | none =>
    rw [hq] at htaken
    cases htaken
  | some queue =>
    exact List.mem_map.mpr
      ⟨(offset, data), (Heapless.IndexMap.mem_insert hq _).mpr (Or.inr rfl), rfl⟩

end OtaMemory

/-! ## No download behind the page -/

/-- The blocks behind the first page that the node has taken are all in its queue. -/
structure Confined (w : Watched OtaMemory) : Prop where
  truthful : w.Truthful
  memory : w.consumer.memory.AtStart
  queued : ∀ session, w.consumer.session = some session → ∀ i ∈ w.accepted,
    pageSize ≤ session.params.blockSize.toNat * i.toNat →
      session.params.blockSize.toNat * i.toNat ∈ w.consumer.memory.queue.entries.map Prod.fst

theorem confined_start (lora : ModuleLoRa) : Confined (Watched.start OtaMemory.new lora) :=
  ⟨Watched.truthful_start _ _, OtaMemory.atStart_new, nofun⟩

/-- **Step lemma.** -/
theorem Confined.step {w : Watched OtaMemory} (h : Confined w) {packet : LoRaPacket}
    (hcarries : CarriesData packet) : Confined (w.step packet) := by
  refine ⟨h.truthful.step packet, ?_, ?_⟩
  · rcases w.consumer.processMessage_cases w.lora packet with
      ⟨_, _, hc⟩ | ⟨_, _, _, _, _, hc⟩ | ⟨_, _, _, _, _, hc⟩ | ⟨_, hc⟩ | ⟨_, _, hc⟩
    · simp only [Watched.step, hc]
      exact h.memory
    · simp only [Watched.step, hc]
      exact h.memory.write ..
    · simp only [Watched.step, hc]
      exact h.memory.write ..
    · simp only [Watched.step, hc]
      exact h.memory
    · simp only [Watched.step, hc]
      exact h.memory
  · intro session hs i hi hbeyond
    rcases w.consumer.processMessage_cases w.lora packet with
      ⟨init, hm, hc⟩ | ⟨data, session', hm, hs', hw, hc⟩ | ⟨data, session', hm, hs', hw, hc⟩ |
      ⟨_, hc⟩ | ⟨hinit, ha, hc⟩
    · simp only [Watched.step, hm] at hi
      cases hi
    · have hopen : session' = session := by
        simp only [Watched.step, hc] at hs
        exact Option.some.inj (hs'.symm.trans hs)
      subst hopen
      have ha : w.consumer.acceptedBlock packet = some data.index := by
        simp only [OtaConsumer.acceptedBlock, hm, hs', hw, if_true]
      simp only [Watched.step, hm, ha, Option.toList_some] at hi
      simp only [Watched.step, hc]
      rcases List.mem_append.mp hi with hi | hi
      · exact h.memory.keeps _ _ _ (h.queued session' hs' i hi hbeyond) hbeyond
      · rw [List.mem_singleton.mp hi] at hbeyond ⊢
        exact h.memory.queues (hcarries data hm) hbeyond hw
    · have hopen : session' = session := by
        simp only [Watched.step, hc] at hs
        exact Option.some.inj (hs'.symm.trans hs)
      subst hopen
      have ha : w.consumer.acceptedBlock packet = none := by
        simp only [OtaConsumer.acceptedBlock, hm, hs', hw, Bool.false_eq_true, if_false]
      simp only [Watched.step, hm, ha, Option.toList_none, List.append_nil] at hi
      simp only [Watched.step, hc]
      exact h.memory.keeps _ _ _ (h.queued session' hs' i hi hbeyond) hbeyond
    · simp only [Watched.step, hc] at hs
      cases hs
    · simp only [Watched.step, hc] at hs ⊢
      have hsame : (w.step packet).accepted = w.accepted := by
        simp only [Watched.step, ha, Option.toList_none, List.append_nil]
      rw [hsame] at hi
      exact h.queued session hs i hi hbeyond

/-- Nine blocks behind the page do not fit the queue. -/
theorem Confined.small {w : Watched OtaMemory} (h : Confined w) {session : SessionParams}
    (hs : w.consumer.session = some session) (hd : w.consumer.isDone = true) :
    1 ≤ session.params.blockCount.toNat ∧
      session.params.blockSize.toNat * (session.params.blockCount.toNat - 9) < pageSize := by
  have hcount := (OtaConsumer.isDone_iff hs h.truthful.lt).mp hd
  refine ⟨by omega, ?_⟩
  by_contra hlarge
  have hps : pageSize = 2048 := rfl
  have hnine : 9 < session.params.blockCount.toNat := by
    by_contra hle
    rw [Nat.sub_eq_zero_of_le (by omega), Nat.mul_zero] at hlarge
    omega
  have hall := h.truthful.all_accepted hs hd (by omega)
  have hsize : 0 < session.params.blockSize.toNat := by
    by_contra hz
    rw [Nat.eq_zero_of_not_pos hz, Nat.zero_mul] at hlarge
    omega
  let far := (List.range' (session.params.blockCount.toNat - 9) 9).map
    fun i => session.params.blockSize.toNat * i
  have hnodup : far.Nodup := by
    refine (List.nodup_range' (s := _) (n := 9)).map ?_
    exact fun _ _ he => Nat.eq_of_mul_eq_mul_left hsize he
  have hsub : far ⊆ w.consumer.memory.queue.entries.map Prod.fst := by
    intro a ha
    obtain ⟨i, hi, rfl⟩ := List.mem_map.mp ha
    rw [List.mem_range'_1] at hi
    obtain ⟨j, hj, rfl⟩ := hall i (by omega)
    have hmono := Nat.mul_le_mul_left session.params.blockSize.toNat hi.1
    exact h.queued session hs j hj (by omega)
  have hlen := (List.subperm_of_subset hnodup hsub).length_le
  have hroom := w.consumer.memory.queue.length_le
  rw [List.length_map, List.length_map, List.length_range'] at hlen
  omega

/-! ## All others are completed -/

/-- Before block `j`, when the blocks before it came in order. -/
structure OtaMemory.Filled (blockSize j : ℕ) (m : OtaMemory) : Prop where
  atStart : m.AtStart
  queued : ∀ e ∈ m.queue.entries, ∃ i < j, e.1 = blockSize * i

namespace OtaMemory.Filled

variable {blockSize count j : ℕ} {m : OtaMemory}

theorem new (blockSize : ℕ) : OtaMemory.new.Filled blockSize 0 :=
  ⟨OtaMemory.atStart_new, fun _ he => absurd he List.not_mem_nil⟩

/-- What stays queued begins behind the page, as the last eight blocks at most do. -/
theorem length_flushedQueue (h : m.Filled blockSize j)
    (hsmall : blockSize * (count - 9) < pageSize) :
    m.flushedQueue.entries.length ≤ j - (count - 8) := by
  let behind := (List.range' (count - 8) (j - (count - 8))).map fun i => blockSize * i
  have hsub : m.flushedQueue.entries.map Prod.fst ⊆ behind := by
    intro a ha
    obtain ⟨e, he, rfl⟩ := List.mem_map.mp ha
    obtain ⟨hqueued, hfar⟩ := (m.mem_flushedQueue e).mp he
    obtain ⟨i, hi, hat⟩ := h.queued e hqueued
    rw [h.atStart.current, hat] at hfar
    have hlate : count - 8 ≤ i := by
      by_contra hlt
      have hmono := Nat.mul_le_mul_left blockSize (show i ≤ count - 9 by omega)
      omega
    rw [hat]
    exact List.mem_map_of_mem (List.mem_range'_1.mpr ⟨hlate, by omega⟩)
  have hlen := (List.subperm_of_subset m.flushedQueue.nodup_keys hsub).length_le
  rw [List.length_map, List.length_map, List.length_range'] at hlen
  exact hlen

/-- The next block is taken, whatever it carries. -/
theorem write (h : m.Filled blockSize j) (hj : j < count)
    (hsmall : blockSize * (count - 9) < pageSize) (validUpTo : ℕ) (data : Block) :
    (m.write validUpTo (blockSize * j) data).1 = true ∧
      (m.write validUpTo (blockSize * j) data).2.Filled blockSize (j + 1) := by
  refine ⟨?_, h.atStart.write .., ?_⟩
  · have hroom := h.length_flushedQueue hsmall
    rw [write_eq, h.atStart.current, if_neg (Nat.not_lt_zero _)]
    split
    · rfl
    · cases hq : m.flushedQueue.insert (blockSize * j) data with
      | some queue => rfl
      | none =>
        have hfull := (Heapless.IndexMap.insert_eq_none.mp hq).2
        omega
  · intro e he
    rcases mem_write_queue he with hold | rfl
    · obtain ⟨i, hi, hat⟩ := h.queued e hold
      exact ⟨i, by omega, hat⟩
    · exact ⟨j, Nat.lt_succ_self j, rfl⟩

end OtaMemory.Filled

/-- The rest of the blocks, one after the other. -/
theorem completes_from {session : SessionParams} {blocks : List OtaDataPacket}
    {events : List Iteration} {j : ℕ} {c : OtaConsumer OtaMemory}
    (hs : c.session = some session) (hc : CountedTo j c)
    (hm : c.memory.Filled session.params.blockSize.toNat j)
    (hsmall : session.params.blockSize.toNat * (session.params.blockCount.toNat - 9) < pageSize)
    (hindex : blocks.map (fun data => data.index.toNat) = List.range' j blocks.length)
    (hcount : j + blocks.length = session.params.blockCount.toNat)
    (hevents : List.Forall₂ Brings (blocks.map .data) events) :
    ∃ c', runOpt mainLoop c events = some c' ∧ c'.session = some session ∧
      CountedTo session.params.blockCount.toNat c' := by
  induction blocks generalizing j c events with
  | nil =>
    cases hevents
    exact ⟨c, rfl, hs, by rw [← hcount]; exact hc⟩
  | cons data blocks ih =>
    obtain ⟨e, events, hbrings, hrest, rfl⟩ := List.forall₂_cons_left_iff.mp hevents
    rw [List.length_cons, List.range'_succ, List.map_cons, List.cons.injEq] at hindex
    rw [List.length_cons] at hcount
    obtain ⟨hat, hindex⟩ := hindex
    have hlt := session.params.blockCount.toNat_lt
    obtain ⟨htaken, hfilled⟩ := hm.write (by omega) hsmall
      ((j - 1) * session.params.blockSize.toNat + data.data.toList.length) data.data
    have hinstall : install session.params.blockSize.toNat c.memory data = some
        (c.memory.write ((j - 1) * session.params.blockSize.toNat + data.data.toList.length)
          (session.params.blockSize.toNat * j) data.data).2 := by
      rw [install_eq_some, hat]
      exact Prod.ext htaken rfl
    have hcons := (OtaConsumer.processMessage_install hbrings.message hs (by rw [hat]; exact hc)
      hinstall e.lora).1
    have hcounted : CountedTo j { c with memory := (c.memory.write
        ((j - 1) * session.params.blockSize.toNat + data.data.toList.length)
        (session.params.blockSize.toNat * j) data.data).2 } :=
      ⟨hc.frontier, hc.below, hc.latest⟩
    obtain ⟨c', hrun, hend⟩ := ih (c := (c.processMessage e.lora e.packet).2.1) (j := j + 1)
      (by rw [hcons]; exact hs) (by rw [hcons]; exact hcounted.accept hat (by omega))
      (by rw [hcons]; exact hfilled) hindex (by omega) hrest
    exact ⟨c', runOpt_cons.mpr ⟨_, hbrings.mainLoop c, hrun⟩, hend⟩

/-- A download from its Init to its last block. -/
theorem completes {init : OtaInitPacket} {blocks : List OtaDataPacket} {events : List Iteration}
    (hpos : 1 ≤ init.blockCount.toNat)
    (hsmall : init.blockSize.toNat * (init.blockCount.toNat - 9) < pageSize)
    (hnum : Numbered blocks) (hcount : blocks.length = init.blockCount.toNat)
    (hevents : List.Forall₂ Brings (.init init :: blocks.map .data) events) :
    ∃ c, runOpt mainLoop (.new OtaMemory.new) events = some c ∧
      c.session.map SessionParams.params = some init ∧ c.isDone = true := by
  obtain ⟨e, events, hbrings, hrest, rfl⟩ := List.forall₂_cons_left_iff.mp hevents
  have hlt := init.blockCount.toNat_lt
  let opened : OtaConsumer OtaMemory :=
    { OtaConsumer.new OtaMemory.new with session := some ⟨init, e.packet.source⟩ }
  have hopened : ((OtaConsumer.new OtaMemory.new).processMessage e.lora e.packet).2.1 = opened := by
    simp only [OtaConsumer.processMessage, hbrings.message, OtaConsumer.handleInit]
    rfl
  have hsession : opened.session = some ⟨init, e.packet.source⟩ := rfl
  have hindex : blocks.map (fun data => data.index.toNat) = List.range' 0 blocks.length :=
    hnum.trans List.range_eq_range'
  obtain ⟨c, hrun, hsess, hc⟩ := completes_from hsession
    ⟨rfl, fun _ hi => absurd hi List.not_mem_nil, fun hz => absurd rfl hz⟩
    (OtaMemory.Filled.new _) hsmall hindex (by rw [Nat.zero_add]; exact hcount) hrest
  refine ⟨c, runOpt_cons.mpr ⟨_, hbrings.mainLoop _, by rw [hopened]; exact hrun⟩,
    by rw [hsess]; rfl, ?_⟩
  have hfront : c.validUpToIndex.toNat = init.blockCount.toNat - 1 := hc.frontier
  refine (OtaConsumer.isDone_iff hsess (by omega)).mpr ?_
  rw [hfront]
  exact Nat.sub_add_cancel hpos

/-- A message that the node hears from the gateway. -/
def hearsOta (m : OtaPacket) : Iteration :=
  ⟨.quiet 3, fun _ => .replicate _ .timeout, m.packet 1 3⟩

theorem brings_hearsOta (messages : List OtaPacket) :
    List.Forall₂ Brings messages (messages.map hearsOta) := by
  rw [List.forall₂_map_right_iff, List.forall₂_same]
  exact fun m _ => ⟨rfl, OtaPacket.fromBytes_packet m 1 3⟩

/-- A block of one byte. -/
def smallBlock (j : ℕ) : OtaDataPacket := ⟨UInt16.ofNat j, ⟨[0], by decide⟩⟩

theorem numbered_smallBlock {n : ℕ} (h : n < 65536) :
    Numbered ((List.range n).map smallBlock) := by
  unfold Numbered
  rw [List.map_map, List.length_map, List.length_range]
  refine (List.map_congr_left fun j hj => ?_).trans (List.map_id _)
  have hlt := List.mem_range.mp hj
  exact Nat.mod_eq_of_lt (by omega)

/-- **What the node can still download**, whatever it hears and in whatever order: where no
more than the eight blocks of its queue begin behind the first page.  Then the blocks of
any binary complete it, in order and once each. -/
theorem first_page_completes_iff (init : OtaInitPacket) :
    ((∃ events c, (∀ e ∈ events, CarriesData e.packet) ∧
      runOpt mainLoop (.new OtaMemory.new) events = some c ∧
      c.session.map SessionParams.params = some init ∧ c.isDone = true) ↔
    1 ≤ init.blockCount.toNat ∧
      init.blockSize.toNat * (init.blockCount.toNat - 9) < pageSize) ∧
    (1 ≤ init.blockCount.toNat →
      init.blockSize.toNat * (init.blockCount.toNat - 9) < pageSize →
      ∀ blocks events, Numbered blocks → blocks.length = init.blockCount.toNat →
        List.Forall₂ Brings (.init init :: blocks.map .data) events →
        ∃ c, runOpt mainLoop (.new OtaMemory.new) events = some c ∧
          c.session.map SessionParams.params = some init ∧ c.isDone = true) := by
  refine ⟨⟨?_, ?_⟩, fun hpos hsmall _ _ hnum hcount => completes hpos hsmall hnum hcount⟩
  · rintro ⟨events, c, hcarries, hrun, hs, hd⟩
    have hconfined : ∃ w : Watched OtaMemory, w.consumer = c ∧ Confined w := by
      refine runOpt_invariant (P := fun c => ∃ w : Watched OtaMemory, w.consumer = c ∧ Confined w)
        (A := fun e => CarriesData e.packet) ?_ ⟨_, rfl, confined_start (.quiet 3)⟩ hcarries hrun
      rintro c e c' ⟨w, rfl, hw⟩ hdata hstep
      rcases mainLoop_eq_some hstep with rfl | rfl
      · exact ⟨w, rfl, hw⟩
      · have hradio : Confined { w with lora := e.lora } :=
          ⟨⟨hw.truthful.lt, hw.truthful.window, hw.truthful.contiguous⟩, hw.memory, hw.queued⟩
        exact ⟨_, rfl, hradio.step hdata⟩
    obtain ⟨w, rfl, hw⟩ := hconfined
    obtain ⟨session, hsess, rfl⟩ := Option.map_eq_some_iff.mp hs
    exact hw.small hsess hd
  · rintro ⟨hpos, hsmall⟩
    let blocks := (List.range init.blockCount.toNat).map smallBlock
    let messages : List OtaPacket := .init init :: blocks.map .data
    obtain ⟨c, hend⟩ := completes hpos hsmall (numbered_smallBlock init.blockCount.toNat_lt)
      (by rw [List.length_map, List.length_range]) (brings_hearsOta messages)
    refine ⟨messages.map hearsOta, c, ?_, hend⟩
    intro e he data hm
    obtain ⟨m, hin, rfl⟩ := List.mem_map.mp he
    have hread : m = .data data :=
      Option.some.inj ((OtaPacket.fromBytes_packet m 1 3).symm.trans hm)
    subst hread
    rcases List.mem_cons.mp hin with h | h
    · cases h
    · obtain ⟨block, hblock, hsame⟩ := List.mem_map.mp h
      obtain ⟨j, _, rfl⟩ := List.mem_map.mp hblock
      cases hsame
      exact List.cons_ne_nil _ _

/-- Forty blocks of 64 bytes can be downloaded, the first 32 of which fill the page, and
forty-one cannot. -/
theorem first_page_completes_forty :
    let init (count : UInt16) : OtaInitPacket := ⟨2624, .replicate 32 0, 64, count⟩
    let blocks := (List.range 40).map fun i =>
      (⟨UInt16.ofNat i, ⟨List.replicate 64 1, by decide⟩⟩ : OtaDataPacket)
    (∃ c, runOpt mainLoop (.new OtaMemory.new)
        ((.init (init 40) :: blocks.map .data).map hearsOta) = some c ∧
      c.session.map SessionParams.params = some (init 40) ∧ c.isDone = true) ∧
    ¬ ∃ events c, (∀ e ∈ events, CarriesData e.packet) ∧
      runOpt mainLoop (.new OtaMemory.new) events = some c ∧
      c.session.map SessionParams.params = some (init 41) ∧ c.isDone = true := by
  intro init blocks
  refine ⟨(first_page_completes_iff (init 40)).2 (by decide) (by decide) blocks _ (by decide) rfl
    (brings_hearsOta _), fun h => ?_⟩
  exact absurd ((first_page_completes_iff (init 41)).1.mp h).2 (by decide)

end LoraModuleFw.ModuleNode
