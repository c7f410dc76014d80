import LoraModuleFw.Ota.ConsumerRuns
import LoraModuleFw.ModuleNode.Pages

/-! A download whose blocks come once each and in order.  The page grows block
by block.  A full page is released one block late, when the first block of the
next page has come and is parked in the queue; the block after that one moves
it into its page. -/

namespace LoraModuleFw.ModuleNode

open Lora Ota Runs

/-! ## The consumer -/

/-- The bookkeeping after the blocks below `j` have come in order. -/
structure CountedTo {M : Type} (j : Nat) (c : OtaConsumer M) : Prop where
  frontier : c.validUpToIndex.toNat = j - 1
  below : ∀ i ∈ c.recentIndexes.toList, i.toNat < j
  latest : j ≠ 0 → ∃ i, c.recentIndexes.toList.getLast? = some i ∧ i.toNat = j - 1

theorem CountedTo.accept {M : Type} {j : Nat} {c : OtaConsumer M} (h : CountedTo j c)
    {index : UInt16} (hj : index.toNat = j) (hlt : j < 65535) :
    CountedTo (j + 1) (c.accept index) := by
  have hv : c.validUpToIndex.toNat < 65535 := by rw [h.frontier]; omega
  have hnew : index ∉ c.recentIndexes.toList := fun hi => by
    have := h.below index hi
    omega
  have hlist : (c.accept index).recentIndexes.toList =
      (if c.recentIndexes.isFull then c.recentIndexes.toList.tail
        else c.recentIndexes.toList) ++ [index] := toList_pushRecent_new hnew
  have hbelow : ∀ i ∈ (c.accept index).recentIndexes.toList, i.toNat < j + 1 := by
    intro i hi
    rcases mem_pushRecent hi with hi | rfl
    · have := h.below i hi
      omega
    · omega
  have hindex : j ∈ indexSet (c.accept index).recentIndexes.toList :=
    ⟨index, mem_pushRecent_self _ _, hj⟩
  -- the window of 32 still has the block before this one
  have hprev : j ≠ 0 → j - 1 ∈ indexSet (c.accept index).recentIndexes.toList := by
    intro hne
    obtain ⟨i, hlast, hi⟩ := h.latest hne
    refine ⟨i, ?_, hi⟩
    rw [hlist]
    refine List.mem_append_left _ ?_
    split
    · next hf =>
      refine List.mem_of_getLast? (?_ : c.recentIndexes.toList.tail.getLast? = some i)
      simp only [Heapless.Vec.isFull, decide_eq_true_eq] at hf
      rw [List.getLast?_tail, if_neg (by omega), hlast]
    · exact List.mem_of_getLast? hlast
  have hge := (c.le_accept index hv).1
  refine ⟨?_, hbelow, fun _ => ⟨index, by rw [hlist]; simp, by omega⟩⟩
  have hle : (c.accept index).validUpToIndex.toNat ≤ j := by
    rcases c.accept_moves index hv with he | hall
    · rw [he, h.frontier]; omega
    · obtain ⟨i, hi, he⟩ := hall _ hge (Nat.le_refl _)
      have := hbelow i hi
      omega
  by_contra hne
  -- the scan cannot have stopped before `j`, which is in the window
  have hat : (c.accept index).validUpToIndex.toNat = j - 1 ∧ j ≠ 0 := by
    rw [h.frontier] at hge
    omega
  rcases c.accept_stops index hv (by rw [hat.1]; exact hprev hat.2) with hgap | hend
  · rw [hat.1, Nat.sub_add_cancel (by omega)] at hgap
    exact hgap hindex
  · omega

/-! ## The memory -/

/-- The memory before block `j`, when the blocks below it came in order. -/
inductive OtaMemory.InOrder (binary : List UInt8) (blockSize j : Nat) (m : OtaMemory) : Prop
  | start (hj : j = 0) (hpage : m.page = none) (hnext : m.nextAddress = 0)
      (hqueue : m.queue.entries = [])
  | filling (p : OtaPage) (hpage : m.page = some p) (haddr : p.address = m.nextAddress)
      (hqueue : m.queue.entries = []) (hlast : m.nextAddress + p.lastAddress = blockSize * j)
      (hpos : 0 < p.lastAddress) (hle : p.lastAddress ≤ pageSize)
      (hheld : ∀ k, k.val < p.lastAddress → p.Holds binary k)
  | parked (d : Block) (hpage : m.page = none) (hj : m.nextAddress + blockSize = blockSize * j)
      (hqueue : m.queue.entries = [(m.nextAddress, d)])
      (hblock : IsBlock binary blockSize (m.nextAddress, d)) (hd : d.toList.length = blockSize)

/-- Before block `j`, seen after the flush of the queue. -/
structure OtaMemory.Ready (binary : List UInt8) (blockSize j : Nat) (m : OtaMemory) : Prop where
  current : m.currentPage.address = m.nextAddress
  queue : m.flushedQueue.entries = []
  last : m.nextAddress + m.flushedPage.lastAddress = blockSize * j
  pos : j ≠ 0 → 0 < m.flushedPage.lastAddress
  le : m.flushedPage.lastAddress ≤ pageSize
  held : ∀ k, k.val < m.flushedPage.lastAddress → m.flushedPage.Holds binary k

namespace OtaMemory

variable {binary : List UInt8} {blockSize j : Nat} {m : OtaMemory}

theorem flushedQueue_nil (h : ∀ e ∈ m.queue.entries, e.1 < m.currentPage.address + pageSize) :
    m.flushedQueue.entries = [] := by
  rw [List.eq_nil_iff_forall_not_mem]
  intro e he
  obtain ⟨hq, hle⟩ := (m.mem_flushedQueue e).mp he
  have := h e hq
  omega

theorem InOrder.ready (h : m.InOrder binary blockSize j) (hsize : 1 ≤ blockSize ∧ blockSize ≤ 96) :
    m.Ready binary blockSize j := by
  rcases h with ⟨hj, hpage, hnext, hqueue⟩ |
    ⟨p, hpage, haddr, hqueue, hlast, hpos, hle, hheld⟩ | ⟨d, hpage, hj, hqueue, hblock, hd⟩
  · have hcur : m.currentPage = OtaPage.new m.nextAddress := by simp [currentPage, hpage]
    have hfl : m.flushedPage = OtaPage.new m.nextAddress := by simp [flushedPage, hcur, hqueue]
    refine ⟨by rw [hcur]; rfl, flushedQueue_nil (by simp [hqueue]), ?_, ?_, ?_, ?_⟩ <;>
      rw [hfl]
    · rw [hnext, hj]; rfl
    · exact fun hne => absurd hj hne
    · exact Nat.zero_le _
    · exact fun k hk => absurd hk (Nat.not_lt_zero _)
  · have hcur : m.currentPage = p := by simp [currentPage, hpage]
    have hfl : m.flushedPage = p := by simp [flushedPage, hcur, hqueue]
    refine ⟨by rw [hcur]; exact haddr, flushedQueue_nil (by simp [hqueue]), ?_, ?_, ?_, ?_⟩ <;>
      rw [hfl]
    · exact hlast
    · exact fun _ => hpos
    · exact hle
    · exact hheld
  · have hcur : m.currentPage = OtaPage.new m.nextAddress := by simp [currentPage, hpage]
    have hin : (OtaPage.new m.nextAddress).contains m.nextAddress = true := by
      simp [OtaPage.contains, OtaPage.new, pageSize]
    have hfl : m.flushedPage = (OtaPage.new m.nextAddress).put 0 d.toList := by
      rw [flushedPage, hcur, hqueue, List.filter_cons, if_pos hin, List.filter_nil,
        OtaPage.writeAll_cons, OtaPage.writeAll_nil]
      rcases (OtaPage.new m.nextAddress).write_cases m.nextAddress d.toList with
        ⟨_, _, hw⟩ | ⟨hno, _⟩
      · rw [hw, show m.nextAddress - (OtaPage.new m.nextAddress).address = 0 from Nat.sub_self _]
      · simp only [OtaPage.new, pageSize] at hno
        omega
    have hlast : m.flushedPage.lastAddress = blockSize := by
      rw [hfl]
      exact (Nat.zero_add _).trans hd
    refine ⟨by rw [hcur]; rfl, flushedQueue_nil ?_, ?_, ?_, ?_, ?_⟩
    · rw [hqueue, hcur]
      simp [OtaPage.new, pageSize]
    · rw [hlast, hj]
    · omega
    · rw [hlast]
      exact Nat.le_trans hsize.2 (by decide)
    · intro k hk
      rw [hlast] at hk
      rw [hfl]
      have hz : (0 : Nat) = m.nextAddress - (OtaPage.new m.nextAddress).address :=
        (Nat.sub_self _).symm
      rw [hz]
      refine put_holds hblock (Nat.le_refl _) (Or.inr ⟨Nat.le_add_right _ _, ?_⟩)
      change m.nextAddress + k.val < m.nextAddress + d.toList.length
      omega

/-- A block that fits goes into a page with room, behind the blocks before it. -/
theorem Ready.append (h : m.Ready binary blockSize j)
    (hroom : m.flushedPage.lastAddress ≠ pageSize) {data : Block}
    (hb : IsBlock binary blockSize (blockSize * j, data))
    (hfit : blockSize * j + data.toList.length ≤ m.nextAddress + pageSize) (validUpTo : Nat) :
    ∃ p, m.write validUpTo (blockSize * j) data = (true,
        { page := some p, queue := m.flushedQueue, nextAddress := m.nextAddress,
          validUpToAddress := validUpTo }) ∧
      p.address = m.nextAddress ∧
      m.nextAddress + p.lastAddress = blockSize * j + data.toList.length ∧
      ∀ k, k.val < p.lastAddress → p.Holds binary k := by
  have haddr : m.flushedPage.address = m.nextAddress := m.flushedPage_address.trans h.current
  have hlast := h.last
  rw [write_eq, h.current, if_neg (by omega)]
  rcases m.flushedPage.write_cases (blockSize * j) data.toList with ⟨_, _, hw⟩ | ⟨hno, _⟩
  · rw [hw]
    refine ⟨m.flushedPage.put (blockSize * j - m.flushedPage.address) data.toList,
      rfl, haddr, ?_, fun k hk => ?_⟩
    · change m.nextAddress + (blockSize * j - m.flushedPage.address + data.toList.length) = _
      omega
    · have hk' : k.val < blockSize * j - m.flushedPage.address + data.toList.length := hk
      refine put_holds hb (by rw [haddr]; omega) ?_
      by_cases hold : k.val < m.flushedPage.lastAddress
      · exact Or.inl (h.held k hold)
      · refine Or.inr ?_
        simp only [haddr] at hk' ⊢
        constructor <;> omega
  · omega

/-- Behind a full page, or where it does not fit, a block is parked. -/
theorem Ready.park (h : m.Ready binary blockSize j) (data : Block)
    (hno : m.flushedPage.lastAddress = pageSize ∨
      m.nextAddress + pageSize < blockSize * j + data.toList.length) (validUpTo : Nat) :
    ∃ queue, m.write validUpTo (blockSize * j) data = (true,
        { page := some m.flushedPage, queue, nextAddress := m.nextAddress,
          validUpToAddress := validUpTo }) ∧
      queue.entries = [(blockSize * j, data)] := by
  have haddr : m.flushedPage.address = m.nextAddress := m.flushedPage_address.trans h.current
  have hlast := h.last
  have hw : (m.flushedPage.write (blockSize * j) data.toList).1 = false := by
    rcases m.flushedPage.write_cases (blockSize * j) data.toList with ⟨hne, hfit, _⟩ | ⟨_, hw⟩
    · omega
    · rw [hw]
  have hkeys : blockSize * j ∉ m.flushedQueue.entries.map Prod.fst := by simp [h.queue]
  obtain ⟨queue, hi, hq⟩ :=
    Heapless.IndexMap.insert_of_lt data hkeys (by simp [h.queue] : _ < 8)
  rw [h.queue, List.nil_append] at hq
  refine ⟨queue, ?_, hq⟩
  rw [write_eq, h.current, if_neg (by omega), if_neg (by simp [hw]), hi]
  rfl

/-- What the write of block `j` does: it goes into the page, or it is the first
of the next page and is parked. -/
theorem Ready.write (h : m.Ready binary blockSize j) (hdvd : blockSize ∣ pageSize)
    (hnext : pageSize ∣ m.nextAddress) {data : Block}
    (hb : IsBlock binary blockSize (blockSize * j, data)) (validUpTo : Nat) :
    (m.write validUpTo (blockSize * j) data).1 = true ∧
    ((∃ p, (m.write validUpTo (blockSize * j) data).2 =
        { page := some p, queue := m.flushedQueue, nextAddress := m.nextAddress,
          validUpToAddress := validUpTo } ∧
        p.address = m.nextAddress ∧
        m.nextAddress + p.lastAddress = blockSize * j + data.toList.length ∧
        p.lastAddress ≤ pageSize ∧ (∀ k, k.val < p.lastAddress → p.Holds binary k) ∧
        blockSize * j < m.nextAddress + pageSize) ∨
      (∃ p, (m.write validUpTo (blockSize * j) data).2.page = some p ∧
        (m.write validUpTo (blockSize * j) data).2.queue.entries = [(blockSize * j, data)] ∧
        p.address = m.nextAddress ∧ p.lastAddress = pageSize ∧ (∀ k, p.Holds binary k) ∧
        blockSize * j = m.nextAddress + pageSize)) := by
  have haddr : m.flushedPage.address = m.nextAddress := m.flushedPage_address.trans h.current
  have hlast := h.last
  have hle := h.le
  have hlen : data.toList.length = min blockSize (binary.length - blockSize * j) := hb.length
  have hnb : blockSize ∣ m.nextAddress := hdvd.trans hnext
  by_cases hroom : m.flushedPage.lastAddress = pageSize
  · -- the page is full: the block starts the next one
    obtain ⟨queue, hw, hq⟩ := h.park data (Or.inl hroom) validUpTo
    rw [hw]
    refine ⟨rfl, Or.inr ⟨m.flushedPage, rfl, hq, haddr, hroom, fun k => ?_, by omega⟩⟩
    exact h.held k (by rw [hroom]; exact k.isLt)
  · have hlt : blockSize * j < m.nextAddress + pageSize := by omega
    have hfit := block_fits hdvd ⟨j, rfl⟩ hnb (by omega) hlt
    obtain ⟨p, hw, hp, hend, hheld⟩ := h.append hroom hb (by omega) validUpTo
    rw [hw]
    exact ⟨rfl, Or.inl ⟨p, rfl, hp, hend, by omega, hheld, hlt⟩⟩

/-- A block that comes in order closes its page in order. -/
theorem InOrder.closes (h : m.InOrder binary blockSize j)
    (hsize : 1 ≤ blockSize ∧ blockSize ≤ 96) :
    m.ClosesInOrder binary blockSize (blockSize * j) := by
  have hps : pageSize = 2048 := rfl
  intro _ _ hmem k hk
  have hat := mem_attemptedAddresses hmem
  rcases h with ⟨hj, hpage, hnext, hqueue⟩ |
    ⟨p, hpage, haddr, hqueue, hlast, hpos, hle, hheld⟩ | ⟨d, hpage, hj, hqueue, hblock, hd⟩
  · have hcur : m.currentPage.address = 0 := by simp [currentPage, hpage, hnext, OtaPage.new]
    simp only [hqueue, hcur, hj, List.map_nil, List.not_mem_nil, false_or, Nat.mul_zero] at hat
    omega
  · have hcur : m.currentPage = p := by simp [currentPage, hpage]
    rw [hqueue, hcur] at hat
    simp only [List.map_nil, List.not_mem_nil, false_or] at hat
    rw [hcur]
    exact Or.inl (hheld k (by omega))
  · have hcur : m.currentPage.address = m.nextAddress := by
      simp [currentPage, hpage, OtaPage.new]
    simp only [hqueue, hcur, List.map_cons, List.map_nil, List.mem_singleton] at hat
    omega

end OtaMemory

/-! ## The driver -/

/-- Before block `j` of a download in order. -/
structure Driver.InOrder (binary : List UInt8) (session : SessionParams) (j : Nat) (d : Driver) :
    Prop where
  downloading : d.Downloading binary session
  counted : CountedTo j d.consumer
  memory : d.consumer.memory.InOrder binary session.params.blockSize.toNat j

/-- The page that a block at `a` belongs to or comes after, when all before it
has been written. -/
structure Driver.Reaches (binary : List UInt8) (d : Driver) (a : Nat) (p : OtaPage) : Prop where
  address : p.address = d.consumer.memory.nextAddress
  le : p.lastAddress ≤ pageSize
  held : ∀ k, k.val < p.lastAddress → p.Holds binary k
  start : p.address ≤ a

/-- From `d` to `d'` the block at `a` has gone into its page, which stays. -/
structure Driver.Appended (d d' : Driver) (a : Nat) (data : Block) (p : OtaPage) : Prop where
  last : p.address + p.lastAddress = a + data.toList.length
  within : a < p.address + pageSize
  page : d'.consumer.memory.page = some p
  queue : d'.consumer.memory.queue.entries = []
  next : d'.consumer.memory.nextAddress = d.consumer.memory.nextAddress
  pages : d'.pages = d.pages

/-- From `d` to `d'` the block at `a` has been parked behind a full page, which
is released if the block has full size. -/
structure Driver.Parked (blockSize : Nat) (d d' : Driver) (a : Nat) (data : Block)
    (p : OtaPage) : Prop where
  behind : a = p.address + pageSize
  full : p.lastAddress = pageSize
  queue : d'.consumer.memory.queue.entries = [(a, data)]
  released : data.toList.length = blockSize → d'.consumer.memory.page = none ∧
    d'.consumer.memory.nextAddress = d.consumer.memory.nextAddress + pageSize ∧
    d'.pages = d.pages ++ [p]
  kept : data.toList.length ≠ blockSize → d'.consumer.memory.page = some p ∧ d'.pages = d.pages

namespace Driver

variable {binary : List UInt8} {session : SessionParams} {j : Nat} {d : Driver}

theorem start_inOrder (binary : List UInt8) (lora : ModuleLoRa) {packet : LoRaPacket}
    {init : OtaInitPacket} (hm : fromBytes packet.payload = some (.init init)) :
    ((start lora).step packet).InOrder binary ⟨init, packet.source⟩ 0 := by
  obtain ⟨hc, hp⟩ := start_init lora hm
  refine ⟨start_downloading binary lora hm, ?_, ?_⟩ <;> rw [hc]
  · exact ⟨rfl, fun i hi => (nomatch hi), fun h => absurd rfl h⟩
  · exact .start rfl rfl rfl rfl

variable {packet : LoRaPacket}

theorem writePage_of_none (h : d.consumer.memory.getPage = (none, d.consumer.memory)) :
    d.writePage = d := by
  simp [writePage, h]

theorem InOrder.closes (h : d.InOrder binary session j)
    (hsize : 1 ≤ session.params.blockSize.toNat ∧ session.params.blockSize.toNat ≤ 96)
    (hc : CarriesAt binary session.params j packet) : d.ClosesInOrder binary packet := by
  obtain ⟨data, hm, hindex, hdata⟩ := hc
  simp only [ClosesInOrder, hm, h.downloading.opened, hindex]
  exact h.memory.closes hsize

/-- The message of block `j` has the memory write the block. -/
theorem receive_carries (hinit : InitFor binary session.params)
    (hsize : 1 ≤ session.params.blockSize.toNat ∧ session.params.blockSize.toNat ≤ 96)
    (hj : j < session.params.blockCount.toNat) (hc : CarriesAt binary session.params j packet)
    (hs : d.consumer.session = some session) :
    ∃ data, fromBytes packet.payload = some (.data data) ∧ data.index.toNat = j ∧
      IsBlock binary session.params.blockSize.toNat
        (session.params.blockSize.toNat * j, data.data) ∧
      d.consumer.writeBlock session data = d.consumer.memory.write
        (d.consumer.validUpToIndex.toNat * session.params.blockSize.toNat +
          data.data.toList.length) (session.params.blockSize.toNat * j) data.data ∧
      (d.receive packet).consumer.session = some session ∧
      (d.receive packet).consumer.memory = (d.consumer.writeBlock session data).2 ∧
      (d.receive packet).pages = d.pages := by
  obtain ⟨data, hm, rfl, hdata⟩ := hc
  refine ⟨data, hm, rfl, ⟨data.index.toNat, rfl, ?_, hdata⟩, rfl, receive_data hm hs⟩
  rw [hinit.2] at hj
  exact (mul_lt_length hsize.1).mp hj

section
variable (hinit : InitFor binary session.params) (hdvd : session.params.blockSize.toNat ∣ pageSize)
  (hsize : 1 ≤ session.params.blockSize.toNat ∧ session.params.blockSize.toNat ≤ 96)
  (hj : j < session.params.blockCount.toNat) (hc : CarriesAt binary session.params j packet)
include hinit hdvd hsize hj hc

/-- The block is taken, and the bookkeeping counts it. -/
theorem InOrder.receive (h : d.InOrder binary session j) :
    ∃ data : Block, IsBlock binary session.params.blockSize.toNat
        (session.params.blockSize.toNat * j, data) ∧
      (d.receive packet).consumer.session = some session ∧
      CountedTo (j + 1) (d.receive packet).consumer ∧
      (d.receive packet).pages = d.pages ∧
      (d.receive packet).consumer.memory =
        (d.consumer.memory.write ((j - 1) * session.params.blockSize.toNat + data.toList.length)
          (session.params.blockSize.toNat * j) data).2 := by
  have hs := h.downloading.opened
  obtain ⟨data, hm, hindex, hb, hw, hopen, hmem, hpages⟩ :=
    d.receive_carries hinit hsize hj hc hs
  rw [h.counted.frontier] at hw
  have htaken : (d.consumer.writeBlock session data).1 = true := by
    rw [hw]
    exact ((h.memory.ready hsize).write hdvd h.downloading.filling.next hb _).1
  have hcons : (d.receive packet).consumer =
      { d.consumer with memory := (d.consumer.writeBlock session data).2 }.accept data.index := by
    simp [Driver.receive, OtaConsumer.processMessage, OtaConsumer.handleData, hm, hs, htaken]
  have hcount := session.params.blockCount.toNat_lt
  refine ⟨data.data, hb, hopen, ?_, hpages, by rw [hmem, hw]⟩
  have hcounted : CountedTo j
      { d.consumer with memory := (d.consumer.writeBlock session data).2 } :=
    ⟨h.counted.frontier, h.counted.below, h.counted.latest⟩
  rw [hcons]
  exact hcounted.accept hindex (by omega)

/-- Where block `j` ends up. -/
theorem InOrder.step_cases (h : d.InOrder binary session j) :
    ∃ data : Block, IsBlock binary session.params.blockSize.toNat
        (session.params.blockSize.toNat * j, data) ∧
      (d.step packet).consumer.session = some session ∧
      CountedTo (j + 1) (d.step packet).consumer ∧
      ∃ p, d.Reaches binary (session.params.blockSize.toNat * j) p ∧
        (j ≠ 0 → p.address < session.params.blockSize.toNat * j) ∧
        (d.Appended (d.step packet) (session.params.blockSize.toNat * j) data p ∨
          d.Parked session.params.blockSize.toNat (d.step packet)
            (session.params.blockSize.toNat * j) data p) := by
  obtain ⟨data, hb, hs, hcount, hpages, hmem⟩ := h.receive hinit hdvd hsize hj hc
  refine ⟨data, hb, hs, ⟨hcount.frontier, hcount.below, hcount.latest⟩, ?_⟩
  have hps : pageSize = 2048 := rfl
  have hlen : data.toList.length = min session.params.blockSize.toNat
      (binary.length - session.params.blockSize.toNat * j) := hb.length
  have hmul : j ≠ 0 → session.params.blockSize.toNat * j =
      (j - 1) * session.params.blockSize.toNat + session.params.blockSize.toNat := by
    intro hne
    obtain ⟨i, rfl⟩ := Nat.exists_eq_succ_of_ne_zero hne
    rw [Nat.succ_sub_one, Nat.mul_succ, Nat.mul_comm]
  have hready := h.memory.ready hsize
  have hbefore := hready.last
  have hpos := hready.pos
  obtain ⟨_, ⟨p, hw, haddr, hlast, hle, hheld, hlt⟩ | ⟨p, hp, hq, haddr, hlast, hheld, hat⟩⟩ :=
    hready.write hdvd h.downloading.filling.next hb
      ((j - 1) * session.params.blockSize.toNat + data.toList.length)
  · refine ⟨p, ⟨haddr, hle, hheld, by omega⟩, by omega, Or.inl ?_⟩
    -- the estimate is one block behind, so a full page stays
    have hkeep : (d.receive packet).consumer.memory.getPage =
        (none, (d.receive packet).consumer.memory) := by
      rw [OtaMemory.getPage_of_page (p := p) (by rw [hmem, hw]), if_neg]
      rintro ⟨hfull, hvalid⟩
      rw [hmem, OtaMemory.write_validUpToAddress] at hvalid
      by_cases hzero : j = 0
      · subst hzero
        omega
      · have := hmul hzero
        omega
    rw [Driver.step, writePage_of_none hkeep]
    exact ⟨by omega, by omega, by rw [hmem, hw], by rw [hmem, hw]; exact hready.queue,
      by rw [hmem, hw], hpages⟩
  · refine ⟨p, ⟨haddr, by omega, fun k _ => hheld k, by omega⟩, by omega, Or.inr ?_⟩
    have hprev := hmul (by rintro rfl; omega)
    have hpage : (d.receive packet).consumer.memory.page = some p := by rw [hmem]; exact hp
    have hvalid : (d.receive packet).consumer.memory.validUpToAddress =
        (j - 1) * session.params.blockSize.toNat + data.toList.length := by
      rw [hmem, OtaMemory.write_validUpToAddress]
    by_cases hfull : data.toList.length = session.params.blockSize.toNat
    · have hgive := OtaMemory.getPage_of_page hpage
      rw [if_pos ⟨hlast, by omega⟩] at hgive
      simp only [Driver.step, Driver.writePage, hgive, Option.toList_some, hpages]
      refine ⟨by omega, hlast, by rw [hmem]; exact hq, fun _ => ⟨rfl, ?_, rfl⟩,
        fun hne => absurd hfull hne⟩
      rw [hmem, OtaMemory.write_nextAddress]
    · have hkeep := OtaMemory.getPage_of_page hpage
      rw [if_neg (fun hgive => by omega)] at hkeep
      rw [Driver.step, writePage_of_none hkeep]
      exact ⟨by omega, hlast, by rw [hmem]; exact hq, fun hf => absurd hf hfull,
        fun _ => ⟨hpage, hpages⟩⟩

/-- **Step lemma.**  A block of full size moves the download on by one. -/
theorem InOrder.step (h : d.InOrder binary session j)
    (hfull : session.params.blockSize.toNat * (j + 1) ≤ binary.length) :
    (d.step packet).InOrder binary session (j + 1) := by
  have hdown : (d.step packet).Downloading binary session := by
    obtain ⟨data, hm, hcarries⟩ := hc.carries hj
    exact h.downloading.step hsize.1 hdvd hm hinit hcarries (h.closes hsize hc)
  obtain ⟨data, hb, hs, hcount, p, hp, _, hcase⟩ := h.step_cases hinit hdvd hsize hj hc
  refine ⟨hdown, hcount, ?_⟩
  have haddr := hp.address
  have hge := hp.start
  have hlen : data.toList.length = session.params.blockSize.toNat := hb.length_full hfull
  rcases hcase with ha | ha
  · have hlast := ha.last
    refine .filling p ha.page (by rw [haddr, ha.next]) ha.queue ?_ ?_ hp.le hp.held
    · rw [ha.next, Nat.mul_succ]
      omega
    · omega
  · have hat := ha.behind
    obtain ⟨hpage, hnext, _⟩ := ha.released hlen
    refine .parked data hpage ?_ ?_ ?_ hlen
    · rw [hnext, Nat.mul_succ]
      omega
    · rw [ha.queue, hnext, hat, haddr]
    · rw [hnext, ← haddr, ← hat]
      exact hb

end

/-- Blocks that come in order close their pages in order. -/
theorem InOrder.along_closes (h : d.InOrder binary session j)
    (hinit : InitFor binary session.params) (hdvd : session.params.blockSize.toNat ∣ pageSize)
    (hsize : 1 ≤ session.params.blockSize.toNat ∧ session.params.blockSize.toNat ≤ 96)
    {packets : List LoRaPacket} (hp : Delivers binary session.params j packets) :
    Along Driver.step (Driver.ClosesInOrder binary) d packets := by
  induction packets generalizing j d with
  | nil => trivial
  | cons p ps ih =>
    refine ⟨h.closes hsize hp.1, ?_⟩
    have hlen := hp.2.length
    rcases ps with _ | ⟨q, qs⟩
    · trivial
    · rw [List.length_cons] at hlen
      exact ih (h.step hinit hdvd hsize (by omega) hp.1 (full_block hinit hsize.1 (by omega))) hp.2

end Driver

end LoraModuleFw.ModuleNode
