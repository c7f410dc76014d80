import LoraModuleFw.ModuleNode.Driver

/-! What an earlier session leaves behind.  `handle_init` resets the consumer
but not its memory, so an Init starts clean only on a memory that is as good
as new. -/

namespace LoraModuleFw.ModuleNode

open Lora Ota Runs

/-! ## A node and what it shows -/

structure Node where
  consumer : OtaConsumer OtaMemory
  lora : ModuleLoRa

inductive Op where
  | message (packet : LoRaPacket)
  | getPage
  | getLastPage

/-- What an operation shows: the result of a message, what the memory said to
its block and everything sent so far, or the page handed out. -/
inductive Reply where
  | message (result : Except OtaError Unit) (written : Option Bool) (sent : List Transmission)
  | page (p : Option OtaPage)

/-- What `memory.write` answers while the message is processed, if it is called. -/
def written (c : OtaConsumer OtaMemory) (packet : LoRaPacket) : Option Bool :=
  match fromBytes packet.payload, c.session with
  | some (.data data), some session => some (c.writeBlock session data).1
  | _, _ => none

namespace Node

def step (n : Node) : Op → Reply × Node
  | .message packet =>
    let r := n.consumer.processMessage n.lora packet
    (.message r.1 (written n.consumer packet) r.2.2.sent, ⟨r.2.1, r.2.2⟩)
  | .getPage =>
    let r := n.consumer.memory.getPage
    (.page r.1, { n with consumer := { n.consumer with memory := r.2 } })
  | .getLastPage =>
    let r := n.consumer.memory.getLastPage
    (.page r.1, { n with consumer := { n.consumer with memory := r.2 } })

end Node

/-- After the Init the node shows what a fresh one shows, whatever comes next. -/
def StartsClean (c : OtaConsumer OtaMemory) (init : OtaInitPacket) : Prop :=
  ∀ (lora : ModuleLoRa) (packet : LoRaPacket) (ops : List Op),
    fromBytes packet.payload = some (.init init) →
      outputs Node.step ⟨c, lora⟩ (.message packet :: ops) =
        outputs Node.step ⟨.new .new, lora⟩ (.message packet :: ops)

/-- No page is held, the next one is the first, and writing the queue into it
would leave both empty. -/
structure OtaMemory.Clean (m : OtaMemory) : Prop where
  page : m.page = none
  next : m.nextAddress = 0
  flushed : m.flushedPage = OtaPage.new 0
  queue : m.flushedQueue.entries = []

/-! ## A clean memory behaves as a new one -/

namespace OtaMemory

theorem clean_new : OtaMemory.new.Clean := ⟨rfl, rfl, rfl, rfl⟩

/-- Two memories that no operation tells apart. -/
def Alike (m m' : OtaMemory) : Prop := m = m' ∨ m.Clean ∧ m'.Clean

theorem Clean.current {m : OtaMemory} (h : m.Clean) : m.currentPage = OtaPage.new 0 := by
  rw [currentPage, h.page, h.next, Option.getD_none]

theorem Clean.write_eq {m m' : OtaMemory} (h : m.Clean) (h' : m'.Clean)
    (validUpTo offset : Nat) (data : Block) :
    m.write validUpTo offset data = m'.write validUpTo offset data := by
  have hq : m.flushedQueue = m'.flushedQueue :=
    Heapless.IndexMap.ext (h.queue.trans h'.queue.symm)
  have hf : m.flushed validUpTo = m'.flushed validUpTo := by
    simp only [OtaMemory.flushed, h.flushed, h'.flushed, h.next, h'.next, hq]
  rw [OtaMemory.write_eq, OtaMemory.write_eq, h.current, h'.current, h.flushed, h'.flushed, hq, hf]

theorem Alike.write {m m' : OtaMemory} (h : m.Alike m') (validUpTo offset : Nat) (data : Block) :
    m.write validUpTo offset data = m'.write validUpTo offset data := by
  rcases h with rfl | ⟨h, h'⟩
  · rfl
  · exact h.write_eq h' validUpTo offset data

theorem Alike.getPage {m m' : OtaMemory} (h : m.Alike m') :
    m.getPage.1 = m'.getPage.1 ∧ m.getPage.2.Alike m'.getPage.2 := by
  rcases h with rfl | ⟨h, h'⟩
  · exact ⟨rfl, Or.inl rfl⟩
  · simp only [OtaMemory.getPage, h.page, h'.page]
    exact ⟨trivial, Or.inr ⟨h, h'⟩⟩

theorem Alike.getLastPage {m m' : OtaMemory} (h : m.Alike m') :
    m.getLastPage.1 = m'.getLastPage.1 ∧ m.getLastPage.2.Alike m'.getLastPage.2 := by
  rcases h with rfl | ⟨h, h'⟩
  · exact ⟨rfl, Or.inl rfl⟩
  · rw [getLastPage_of_none h.page, getLastPage_of_none h'.page]
    exact ⟨rfl, Or.inr ⟨h, h'⟩⟩

end OtaMemory

/-- The two nodes differ at most in memories that are alike. -/
structure Node.Alike (n n' : Node) : Prop where
  lora : n.lora = n'.lora
  session : n.consumer.session = n'.consumer.session
  recent : n.consumer.recentIndexes = n'.consumer.recentIndexes
  frontier : n.consumer.validUpToIndex = n'.consumer.validUpToIndex
  memory : n.consumer.memory.Alike n'.consumer.memory

namespace Node

/-- **Step lemma.** -/
theorem Alike.step {n n' : Node} (h : n.Alike n') (op : Op) :
    (n.step op).1 = (n'.step op).1 ∧ (n.step op).2.Alike (n'.step op).2 := by
  obtain ⟨⟨session, memory, recent, v⟩, lora⟩ := n
  obtain ⟨⟨session', memory', recent', v'⟩, lora'⟩ := n'
  obtain ⟨rfl, rfl, rfl, rfl, hm⟩ := h
  simp only at hm
  cases op with
  | getPage =>
    obtain ⟨h1, h2⟩ := hm.getPage
    exact ⟨congrArg Reply.page h1, rfl, rfl, rfl, rfl, h2⟩
  | getLastPage =>
    obtain ⟨h1, h2⟩ := hm.getLastPage
    exact ⟨congrArg Reply.page h1, rfl, rfl, rfl, rfl, h2⟩
  | message packet =>
    have hw : ∀ session data,
        OtaConsumer.writeBlock ⟨some session, memory, recent, v⟩ session data =
          OtaConsumer.writeBlock ⟨some session, memory', recent, v⟩ session data :=
      fun _ _ => hm.write ..
    simp only [Node.step, written, OtaConsumer.processMessage]
    cases fromBytes packet.payload with
    | none => exact ⟨rfl, rfl, rfl, rfl, rfl, hm⟩
    | some m =>
      cases m with
      | data data =>
        cases session with
        | none => exact ⟨rfl, rfl, rfl, rfl, rfl, hm⟩
        | some session =>
          simp only [OtaConsumer.handleData, hw]
          exact ⟨trivial, rfl, rfl, rfl, rfl, Or.inl rfl⟩
      | done =>
        cases session with
        | none => exact ⟨rfl, rfl, rfl, rfl, rfl, hm⟩
        | some session =>
          have hd : OtaConsumer.isDone ⟨some session, memory, recent, v⟩ =
              OtaConsumer.isDone ⟨some session, memory', recent, v⟩ := rfl
          simp only [OtaConsumer.handleDone, hd]
          split
          · exact ⟨rfl, rfl, rfl, rfl, rfl, hm⟩
          · exact ⟨rfl, rfl, rfl, rfl, rfl, hm⟩
      | _ => exact ⟨rfl, rfl, rfl, rfl, rfl, hm⟩

end Node

theorem startsClean_of_clean {c : OtaConsumer OtaMemory} (h : c.memory.Clean)
    (init : OtaInitPacket) : StartsClean c init := by
  intro lora packet ops hm
  have hinit : ∀ c : OtaConsumer OtaMemory, c.processMessage lora packet =
      c.handleInit lora ⟨init, packet.source⟩ := by
    intro c
    simp only [OtaConsumer.processMessage, hm]
  have hw : ∀ c : OtaConsumer OtaMemory, written c packet = none := by
    intro c
    simp only [written, hm]
  simp only [outputs, Node.step, hinit, hw]
  refine congrArg (_ :: ·) (outputs_eq (R := Node.Alike) (fun _ _ op h => h.step op) ?_ ops)
  exact ⟨rfl, rfl, rfl, rfl, Or.inr ⟨h, OtaMemory.clean_new⟩⟩

/-! ## Telling an unclean memory apart -/

/-- A session with blocks of one byte, so that block `a` lies at address `a`. -/
def byteSession : SessionParams := ⟨⟨0, .replicate 32 0, 1, 0⟩, 1⟩

/-- The node right after the Init of such a session. -/
def probing (m : OtaMemory) : OtaConsumer OtaMemory := ⟨some byteSession, m, .empty, 0⟩

/-- An empty block for address `a`. -/
def probe (a : Nat) : Op :=
  .message ((OtaPacket.data ⟨UInt16.ofNat a, .empty⟩).packet 1 3)

def Reply.written : Reply → Option Bool
  | .message _ w _ => w
  | .page _ => none

theorem step_probe {n : Node} (hs : n.consumer.session = some byteSession) {a : Nat}
    (ha : a < 2 ^ 16) : ∃ validUpTo,
      (n.step (probe a)).1.written =
        some (n.consumer.memory.write validUpTo a .empty).1 ∧
      (n.step (probe a)).2.consumer.session = some byteSession ∧
      (n.step (probe a)).2.consumer.memory =
        (n.consumer.memory.write validUpTo a .empty).2 := by
  obtain ⟨hsession, hmem⟩ :=
    OtaConsumer.processMessage_data (OtaPacket.fromBytes_packet (.data ⟨UInt16.ofNat a, .empty⟩) 1 3)
      hs n.lora
  have hw : n.consumer.writeBlock byteSession ⟨UInt16.ofNat a, .empty⟩ =
      n.consumer.memory.write (n.consumer.validUpToIndex.toNat * 1 + 0) a .empty := by
    have hn : (UInt16.ofNat a).toNat = a := Nat.mod_eq_of_lt ha
    simp only [OtaConsumer.writeBlock, hn]
    rw [show byteSession.params.blockSize.toNat = 1 from rfl, Nat.one_mul]
    rfl
  refine ⟨_, ?_, hsession, by rw [← hw]; exact hmem⟩
  simp only [Node.step, probe, Reply.written, ModuleNode.written, OtaPacket.fromBytes_packet, hs, hw]

/-- The first page is empty, also after the flush. -/
structure OtaMemory.Blank (m : OtaMemory) : Prop where
  current : m.currentPage = OtaPage.new 0
  flushed : m.flushedPage = OtaPage.new 0

/-- An empty block far beyond the first page takes a place of the queue. -/
theorem OtaMemory.Blank.write {m : OtaMemory} (h : m.Blank) {a : Nat} (ha : pageSize < a)
    (hk : a ∉ m.flushedQueue.entries.map Prod.fst) (validUpTo : Nat) :
    ((m.write validUpTo a .empty).1 = true ↔ m.flushedQueue.entries.length < 8) ∧
      ((m.write validUpTo a .empty).1 = true →
        (m.write validUpTo a .empty).2.Blank ∧
        (m.write validUpTo a .empty).2.flushedQueue.entries =
          m.flushedQueue.entries ++ [(a, .empty)]) := by
  have hfar : ∀ e ∈ m.flushedQueue.entries, pageSize ≤ e.1 := by
    intro e he
    have := ((m.mem_flushedQueue e).mp he).2
    rwa [h.current, OtaPage.new, Nat.zero_add] at this
  have hno : ((OtaPage.new 0).write a (Heapless.Vec.empty : Block).toList).1 = false := by
    rcases (OtaPage.new 0).write_cases a (Heapless.Vec.empty : Block).toList with
      ⟨_, hfit, _⟩ | ⟨_, hw⟩
    · simp only [OtaPage.new] at hfit
      omega
    · rw [hw]
  have hbelow : ¬ a < (OtaPage.new 0).address := Nat.not_lt_zero a
  have hw := m.write_eq validUpTo a .empty
  rw [h.current, h.flushed, if_neg hbelow, if_neg (by rw [hno]; decide)] at hw
  rw [hw]
  by_cases hroom : m.flushedQueue.entries.length < 8
  · obtain ⟨queue, hi, hq⟩ := Heapless.IndexMap.insert_of_lt (.empty : Block) hk hroom
    rw [hi]
    have hcur : ({ m.flushed validUpTo with queue } : OtaMemory).currentPage = OtaPage.new 0 :=
      h.flushed
    have hall : ∀ e ∈ queue.entries, pageSize ≤ e.1 := by
      intro e he
      rw [hq] at he
      rcases List.mem_append.mp he with he | he
      · exact hfar e he
      · rw [List.mem_singleton.mp he]
        exact Nat.le_of_lt ha
    refine ⟨iff_of_true rfl hroom, fun _ => ⟨⟨hcur, ?_⟩, ?_⟩⟩
    · change OtaPage.writeAll _ (queue.entries.filter _) = _
      rw [hcur, List.filter_eq_nil_iff.mpr, OtaPage.writeAll_nil]
      intro e he
      have := hall e he
      simp [OtaPage.contains, OtaPage.new]
      omega
    · rw [OtaMemory.flushedQueue_eq, hq]
      intro e he
      rw [hcur, OtaPage.new, Nat.zero_add]
      exact hall e he
  · have hnone : m.flushedQueue.insert a (.empty : Block) = none :=
      Heapless.IndexMap.insert_eq_none.mpr ⟨hk, by have := m.flushedQueue.length_le; omega⟩
    rw [hnone]
    exact ⟨iff_of_false Bool.false_ne_true hroom, fun h => absurd h Bool.false_ne_true⟩

/-- Distinct addresses beyond the first page are all taken exactly when the
queue has room for them. -/
theorem probes_taken {n : Node} (hs : n.consumer.session = some byteSession)
    (hb : n.consumer.memory.Blank) {l : List Nat} (hl : l.Nodup)
    (hfar : ∀ a ∈ l, pageSize < a ∧ a < 2 ^ 16 ∧
      a ∉ n.consumer.memory.flushedQueue.entries.map Prod.fst) :
    (outputs Node.step n (l.map probe)).map Reply.written = l.map (fun _ => some true) ↔
      n.consumer.memory.flushedQueue.entries.length + l.length ≤ 8 := by
  induction l generalizing n with
  | nil => exact iff_of_true rfl n.consumer.memory.flushedQueue.length_le
  | cons a l ih =>
    obtain ⟨hgt, hlt, hk⟩ := hfar a (by simp)
    obtain ⟨validUpTo, hw, hs', hmem⟩ := step_probe hs hlt
    obtain ⟨hroom, hnext⟩ := hb.write hgt hk validUpTo
    simp only [List.map_cons, outputs, hw, List.cons.injEq, Option.some.injEq, hroom,
      List.length_cons]
    by_cases htaken : n.consumer.memory.flushedQueue.entries.length < 8
    · obtain ⟨hb', hq⟩ := hnext (hroom.mpr htaken)
      rw [ih hs' (by rw [hmem]; exact hb') (List.nodup_cons.mp hl).2 ?_, hmem, hq]
      · simp only [List.length_append, List.length_singleton]
        omega
      · intro b hb
        obtain ⟨h1, h2, h3⟩ := hfar b (by simp [hb])
        refine ⟨h1, h2, ?_⟩
        rw [hmem, hq, List.map_append, List.mem_append]
        rintro (h | h)
        · exact h3 h
        · have he : b = a := by simpa using h
          exact (List.nodup_cons.mp hl).1 (he ▸ hb)
    · refine iff_of_false (fun h => htaken h.1) (by omega)

/-- Eight addresses beyond the first page that are not in the queue. -/
theorem exists_free_addresses (m : OtaMemory) :
    ∃ l : List Nat, l.Nodup ∧ l.length = 8 ∧ ∀ a ∈ l, pageSize < a ∧ a < 2 ^ 16 ∧
      a ∉ m.flushedQueue.entries.map Prod.fst := by
  let keys := m.flushedQueue.entries.map Prod.fst
  let l := List.range' 3000 16
  have hl : l.Nodup := List.nodup_range'
  have hused : (l.filter (· ∈ keys)).length ≤ 8 := by
    have hsub : (l.filter (· ∈ keys)).Subperm keys :=
      List.subperm_of_subset (hl.filter _) fun a ha => by simpa using (List.mem_filter.mp ha).2
    have := m.flushedQueue.length_le
    calc _ ≤ keys.length := hsub.length_le
      _ ≤ 8 := by rw [List.length_map]; exact this
  have hsum := List.length_eq_length_filter_add (l := l) (fun a => decide (a ∈ keys))
  have hlen : l.length = 16 := List.length_range'
  refine ⟨(l.filter fun a => !decide (a ∈ keys)).take 8, (hl.filter _).take, ?_, fun a ha => ?_⟩
  · rw [List.length_take]
    omega
  · obtain ⟨hmem, hfree⟩ := List.mem_filter.mp (List.mem_of_mem_take ha)
    have hrange := List.mem_range'_1.mp hmem
    refine ⟨?_, by omega, of_decide_eq_false (by simpa only [Bool.not_eq_true'] using hfree)⟩
    simp only [pageSize]
    omega

/-- A session that starts clean answers a byte-wise session as a new node does. -/
theorem StartsClean.probing {c : OtaConsumer OtaMemory} {init : OtaInitPacket}
    (h : StartsClean c init) : ∃ lora, ∀ ops,
      outputs Node.step ⟨ModuleNode.probing c.memory, lora⟩ ops =
        outputs Node.step ⟨ModuleNode.probing .new, lora⟩ ops := by
  have hm : fromBytes ((OtaPacket.init init).packet 1 3).payload = some (.init init) :=
    OtaPacket.fromBytes_packet ..
  have hb : fromBytes ((OtaPacket.init byteSession.params).packet 1 3).payload =
      some (.init byteSession.params) := OtaPacket.fromBytes_packet ..
  refine ⟨(loraTransmit (loraTransmit (.quiet 3) 1 .initAck).2 1 .initAck).2, fun ops => ?_⟩
  have hall := h (.quiet 3) _ (.message ((OtaPacket.init byteSession.params).packet 1 3) :: ops) hm
  simp only [outputs, Node.step, OtaConsumer.processMessage, hm, hb] at hall
  exact (List.cons.inj (List.cons.inj hall).2).2

/-- A block far beyond the first page brings out the page that the flush makes. -/
theorem OtaMemory.Blank.of_write {m : OtaMemory} (hpage : m.page = none) {validUpTo : Nat}
    (hshown : (m.write validUpTo 65535 .empty).2.page = some (OtaPage.new 0)) :
    m.nextAddress = 0 ∧ m.Blank := by
  have hcur : m.currentPage = OtaPage.new m.nextAddress := by
    rw [OtaMemory.currentPage, hpage, Option.getD_none]
  have hnext : m.nextAddress = 0 := by
    rw [OtaMemory.write_page, Option.some.injEq, hcur] at hshown
    have := congrArg OtaPage.address hshown
    rwa [OtaPage.writeAll_address] at this
  rw [hnext] at hcur
  refine ⟨hnext, hcur, ?_⟩
  have hbelow : ¬ 65535 < (OtaPage.new 0).address := by decide
  rw [OtaMemory.write_page, OtaMemory.attempts, hcur, if_neg hbelow, OtaPage.writeAll_concat,
    Option.some.injEq, ← hcur] at hshown
  change (m.flushedPage.write 65535 _).2 = _ at hshown
  rcases m.flushedPage.write_cases 65535 (Heapless.Vec.empty : Block).toList with
    ⟨_, hfit, _⟩ | ⟨_, hw⟩
  · rw [m.flushedPage_address, hcur] at hfit
    exact absurd hfit (by decide)
  · rw [hw, hcur] at hshown
    exact hshown

section
variable {m : OtaMemory} {lora : ModuleLoRa} (hall : ∀ ops,
  outputs Node.step ⟨probing m, lora⟩ ops = outputs Node.step ⟨probing .new, lora⟩ ops)
include hall

/-- No page is left. -/
theorem page_eq_none_of_probing : m.page = none := by
  have hlast := hall [.getLastPage]
  simpa [outputs, Node.step, OtaMemory.getLastPage, probing, OtaMemory.new] using hlast

theorem write_page_of_probing :
    ∃ validUpTo, (m.write validUpTo 65535 .empty).2.page = some (OtaPage.new 0) := by
  obtain ⟨v, _, _, hmem⟩ := step_probe (n := ⟨probing m, lora⟩) rfl
    (show 65535 < 2 ^ 16 by decide)
  obtain ⟨v', _, _, hmem'⟩ := step_probe (n := ⟨probing .new, lora⟩) rfl
    (show 65535 < 2 ^ 16 by decide)
  refine ⟨v, ?_⟩
  have hlast := (List.cons.inj (hall [probe 65535, .getLastPage])).2
  simp only [outputs, List.cons.injEq, and_true] at hlast
  have hpages := Reply.page.inj hlast
  simp only [OtaMemory.getLastPage] at hpages
  rw [hmem, hmem'] at hpages
  exact hpages

/-- Eight more blocks fit only into an empty queue. -/
theorem queue_eq_nil_of_probing (hblank : m.Blank) : m.flushedQueue.entries = [] := by
  obtain ⟨l, hl, hlen, hfree⟩ := exists_free_addresses m
  have hnew : OtaMemory.new.Blank := ⟨rfl, rfl⟩
  have htaken := (probes_taken (n := ⟨probing .new, lora⟩) rfl hnew hl
    fun a ha => ⟨(hfree a ha).1, (hfree a ha).2.1, List.not_mem_nil⟩).mpr
    (by rw [hlen]; exact Nat.le_refl 8)
  rw [← hall, probes_taken (n := ⟨probing m, lora⟩) rfl hblank hl hfree, hlen] at htaken
  change m.flushedQueue.entries.length + 8 ≤ 8 at htaken
  exact List.eq_nil_of_length_eq_zero (by omega)

end

theorem clean_of_startsClean {c : OtaConsumer OtaMemory} {init : OtaInitPacket}
    (h : StartsClean c init) : c.memory.Clean := by
  obtain ⟨lora, hall⟩ := h.probing
  have hpage := page_eq_none_of_probing hall
  obtain ⟨validUpTo, hshown⟩ := write_page_of_probing hall
  obtain ⟨hnext, hblank⟩ := OtaMemory.Blank.of_write hpage hshown
  exact ⟨hpage, hnext, hblank.flushed, queue_eq_nil_of_probing hall hblank⟩

/-- **A new session starts clean** exactly on a clean memory. -/
theorem startsClean_iff (c : OtaConsumer OtaMemory) (init : OtaInitPacket) :
    StartsClean c init ↔ c.memory.Clean :=
  ⟨clean_of_startsClean, fun h => startsClean_of_clean h init⟩

/-- One byte of a session that was then abandoned: the next session hands out
its page, where a fresh node has none. -/
theorem page_of_earlier_session :
    let old := run (fun n op => (Node.step n op).2) ⟨.new .new, .quiet 3⟩
      [.message (initPacket [7, 8] 1), .message (dataPacket [7, 8] 1 0)]
    ¬ StartsClean old.consumer (initFor [1, 2] 1) := by
  intro old h
  have hall := h (.quiet 3) (initPacket [1, 2] 1) [.getLastPage] (OtaPacket.fromBytes_packet ..)
  have hlast := Reply.page.inj (List.cons.inj (List.cons.inj hall).2).1
  have hsome := congrArg Option.isSome hlast
  revert hsome
  decide +kernel

end LoraModuleFw.ModuleNode
