import LoraModuleFw.ModuleNode.InOrder

/-! What becomes of the bytes of a download in order, for any block size.  A
block that crosses the end of a page does not fit into it and is parked; the
next write takes it out of the queue all the same, and it is gone. -/

namespace LoraModuleFw.ModuleNode

open Lora Ota

/-! ## Where a byte is -/

/-- The page has byte `b` for address `a`. -/
def OtaPage.HasByte (p : OtaPage) (a : Nat) (b : UInt8) : Prop :=
  ∃ k, p.address + k.val = a ∧ p.buffer k = b

/-- The current page or a queued block has byte `b` for address `a`. -/
def OtaMemory.Keeps (m : OtaMemory) (a : Nat) (b : UInt8) : Prop :=
  (∃ p, m.page = some p ∧ p.HasByte a b) ∨
    ∃ e ∈ m.queue.entries, e.1 ≤ a ∧ e.2.toList[a - e.1]? = some b

/-- A page that was handed out or the memory has byte `b` for address `a`. -/
def Driver.Keeps (d : Driver) (a : Nat) (b : UInt8) : Prop :=
  (∃ p ∈ d.pages, p.HasByte a b) ∨ d.consumer.memory.Keeps a b

/-- The block that a message has the memory write, with the answer. -/
def Driver.writeOf (d : Driver) (packet : LoRaPacket) : Option (Bool × Nat × Block) :=
  match fromBytes packet.payload, d.consumer.session with
  | some (.data data), some session =>
    some ((d.consumer.writeBlock session data).1,
      session.params.blockSize.toNat * data.index.toNat, data.data)
  | _, _ => none

/-! ## A delivery -/

/-- A driver, what its memory has answered so far and the blocks it took. -/
structure Delivery where
  driver : Driver
  answers : List Bool
  accepted : List (Nat × Block)

namespace Delivery

def start (lora : ModuleLoRa) (initPacket : LoRaPacket) : Delivery :=
  { driver := (Driver.start lora).step initPacket, answers := [], accepted := [] }

def receive (s : Delivery) (packet : LoRaPacket) : Delivery :=
  { driver := s.driver.receive packet
    answers := s.answers ++ (s.driver.writeOf packet).toList.map Prod.fst
    accepted := s.accepted ++ ((s.driver.writeOf packet).toList.filter Prod.fst).map Prod.snd }

def writePage (s : Delivery) : Delivery := { s with driver := s.driver.writePage }

/-- The states before and after every message and every `get_page`. -/
def moments : Delivery → List LoRaPacket → List Delivery
  | s, [] => [s]
  | s, p :: ps => s :: s.receive p :: (s.receive p).writePage.moments ps

/-- Every write has answered true, and the bytes of every block it took are there. -/
structure Lossless (s : Delivery) : Prop where
  written : ∀ answer ∈ s.answers, answer = true
  kept : ∀ e ∈ s.accepted, ∀ k b, e.2.toList[k]? = some b → s.driver.Keeps (e.1 + k) b

end Delivery

/-! ## One write -/

section
variable {binary : List UInt8} {blockSize j : Nat}

theorem OtaPage.Holds.hasByte {p : OtaPage} {k : Fin pageSize} (h : p.Holds binary k) {a : Nat}
    {b : UInt8} (hb : binary[a]? = some b) (ha : p.address + k.val = a) : p.HasByte a b := by
  rw [OtaPage.Holds, ha, hb] at h
  exact ⟨k, ha, (Option.some.inj h).symm⟩

/-- The write of block `j` is answered true and the bytes up to its end stay. -/
theorem OtaMemory.Ready.write_keeps {m : OtaMemory} (h : m.Ready binary blockSize j)
    {data : Block} (hb : IsBlock binary blockSize (blockSize * j, data)) (validUpTo : Nat) :
    (m.write validUpTo (blockSize * j) data).1 = true ∧
      ∀ a b, binary[a]? = some b → m.nextAddress ≤ a → a < blockSize * (j + 1) →
        (m.write validUpTo (blockSize * j) data).2.Keeps a b := by
  have hlen : data.toList.length = min blockSize (binary.length - blockSize * j) := hb.length
  have hend : ∀ a b, binary[a]? = some b → a < blockSize * (j + 1) →
      a < blockSize * j + data.toList.length := by
    intro a b hab hlt
    have := (List.getElem?_eq_some_iff.mp hab).1
    rw [Nat.mul_succ] at hlt
    omega
  have hlast := h.last
  have hle := h.le
  by_cases hroom : m.flushedPage.lastAddress ≠ pageSize ∧
      blockSize * j + data.toList.length ≤ m.nextAddress + pageSize
  · obtain ⟨p, hw, haddr, hp, hheld⟩ := h.append hroom.1 hb hroom.2 validUpTo
    rw [hw]
    refine ⟨rfl, fun a b hab hge hlt => Or.inl ⟨p, rfl, ?_⟩⟩
    have hin := hend a b hab hlt
    exact (hheld ⟨a - m.nextAddress, by omega⟩ (by simp only; omega)).hasByte hab
      (by simp only; omega)
  · obtain ⟨queue, hw, hq⟩ := h.park data (by omega) validUpTo
    rw [hw]
    refine ⟨rfl, fun a b hab hge hlt => ?_⟩
    have hin := hend a b hab hlt
    by_cases hold : a < blockSize * j
    · -- still in the page
      have haddr : m.flushedPage.address = m.nextAddress :=
        m.flushedPage_address.trans h.current
      exact Or.inl ⟨_, rfl, (h.held ⟨a - m.nextAddress, by omega⟩ (by simp only; omega)).hasByte hab
        (by simp only; omega)⟩
    · have hbyte := hb.getElem? (j := a - blockSize * j) (by simp only; omega)
      simp only at hbyte
      rw [Nat.add_sub_cancel' (by omega), hab] at hbyte
      exact Or.inr ⟨(blockSize * j, data), by rw [hq]; exact List.mem_singleton_self _,
        by simp only; omega, hbyte⟩

theorem PagesCorrect.hasByte {pages : List OtaPage} (h : PagesCorrect binary pages) {a : Nat}
    {b : UInt8} (hab : binary[a]? = some b) (ha : a < pageSize * pages.length) :
    ∃ p ∈ pages, p.HasByte a b := by
  have hn : a / pageSize < pages.length := Nat.div_lt_of_lt_mul ha
  obtain ⟨haddr, hheld⟩ := h (a / pageSize) hn
  have hk : a % pageSize < pageSize := Nat.mod_lt _ (by decide)
  refine ⟨_, List.getElem_mem hn, (hheld ⟨a % pageSize, hk⟩).hasByte hab ?_⟩
  rw [haddr]
  exact Nat.div_add_mod a pageSize

end

/-! ## The driver -/

/-- `get_page` moves bytes, it drops none. -/
theorem Driver.keeps_writePage (d : Driver) (a : Nat) (b : UInt8) :
    d.writePage.Keeps a b ↔ d.Keeps a b := by
  rcases d.consumer.memory.getPage_cases with ⟨p, hp, _, _, hg⟩ | hg
  · simp only [Keeps, OtaMemory.Keeps, writePage, hg, hp, Option.toList_some, List.mem_append,
      List.mem_singleton, Option.some.injEq, reduceCtorEq, false_and, exists_false, false_or]
    constructor
    · rintro (⟨q, hq | rfl, hb⟩ | he)
      · exact Or.inl ⟨q, hq, hb⟩
      · exact Or.inr (Or.inl ⟨q, rfl, hb⟩)
      · exact Or.inr (Or.inr he)
    · rintro (⟨q, hq, hb⟩ | ⟨q, rfl, hb⟩ | he)
      · exact Or.inl ⟨q, Or.inl hq, hb⟩
      · exact Or.inl ⟨p, Or.inr rfl, hb⟩
      · exact Or.inr he
  · simp only [Keeps, writePage, hg, Option.toList_none, List.append_nil]

/-- Before block `j` of a download in order: the pages handed out are right and
the memory has the rest. -/
structure Driver.Sound (binary : List UInt8) (session : SessionParams) (j : Nat) (d : Driver) :
    Prop where
  opened : d.consumer.session = some session
  next : d.consumer.memory.nextAddress = pageSize * d.pages.length
  pages : PagesCorrect binary d.pages
  memory : d.consumer.memory.Ready binary session.params.blockSize.toNat j

section
variable {binary : List UInt8} {session : SessionParams} {j : Nat} {packet : LoRaPacket}
  (hinit : InitFor binary session.params)
  (hsize : 1 ≤ session.params.blockSize.toNat ∧ session.params.blockSize.toNat ≤ 96)
  (hj : j < session.params.blockCount.toNat) (hc : CarriesAt binary session.params j packet)
include hinit hsize hj hc

/-- The message of block `j` makes the memory write it. -/
theorem Driver.receive_block {d : Driver} (hs : d.consumer.session = some session) :
    ∃ (data : Block) (validUpTo : Nat), IsBlock binary session.params.blockSize.toNat
        (session.params.blockSize.toNat * j, data) ∧
      d.writeOf packet = some
        ((d.consumer.memory.write validUpTo (session.params.blockSize.toNat * j) data).1,
          session.params.blockSize.toNat * j, data) ∧
      (d.receive packet).consumer.session = some session ∧
      (d.receive packet).pages = d.pages ∧
      (d.receive packet).consumer.memory =
        (d.consumer.memory.write validUpTo (session.params.blockSize.toNat * j) data).2 := by
  obtain ⟨data, hm, hindex, hb, hw, hopen, hmem, hpages⟩ :=
    d.receive_carries hinit hsize hj hc hs
  refine ⟨data.data, _, hb, ?_, hopen, hpages, by rw [hmem, hw]⟩
  simp only [writeOf, hm, hs, hw, hindex]

theorem Driver.Sound.receive_keeps {d : Driver} (h : d.Sound binary session j) :
    ∃ data, IsBlock binary session.params.blockSize.toNat
        (session.params.blockSize.toNat * j, data) ∧
      d.writeOf packet = some (true, session.params.blockSize.toNat * j, data) ∧
      ∀ a b, binary[a]? = some b → a < session.params.blockSize.toNat * (j + 1) →
        (d.receive packet).Keeps a b := by
  obtain ⟨data, validUpTo, hb, hw, _, hpages, hmem⟩ :=
    d.receive_block hinit hsize hj hc h.opened
  obtain ⟨htrue, hkeeps⟩ := h.memory.write_keeps hb validUpTo
  rw [htrue] at hw
  refine ⟨data, hb, hw, fun a b hab hlt => ?_⟩
  by_cases hold : a < pageSize * d.pages.length
  · exact Or.inl (by rw [hpages]; exact h.pages.hasByte hab hold)
  · exact Or.inr (by rw [hmem]; exact hkeeps a b hab (by rw [h.next]; omega) hlt)

end

/-! ## The run -/

namespace Delivery

/-- The blocks below `j` have been taken, and their bytes are there. -/
structure Whole (binary : List UInt8) (session : SessionParams) (j : Nat) (s : Delivery) :
    Prop where
  written : ∀ answer ∈ s.answers, answer = true
  blocks : ∀ e ∈ s.accepted, IsBlock binary session.params.blockSize.toNat e ∧
    e.1 + session.params.blockSize.toNat ≤ session.params.blockSize.toNat * j
  kept : ∀ a b, binary[a]? = some b → a < session.params.blockSize.toNat * j →
    s.driver.Keeps a b

variable {binary : List UInt8} {session : SessionParams} {j : Nat} {s : Delivery}

theorem Whole.lossless (h : s.Whole binary session j) : s.Lossless := by
  refine ⟨h.written, fun e he k b hk => ?_⟩
  obtain ⟨hb, hle⟩ := h.blocks e he
  have hlt := (List.getElem?_eq_some_iff.mp hk).1
  have hlen := hb.length
  rw [hb.getElem? hlt] at hk
  exact h.kept _ b hk (by omega)

theorem whole_start (binary : List UInt8) (session : SessionParams) (lora : ModuleLoRa)
    (initPacket : LoRaPacket) : (start lora initPacket).Whole binary session 0 :=
  ⟨fun _ h => absurd h List.not_mem_nil, fun _ h => absurd h List.not_mem_nil,
    fun _ _ _ h => absurd h (by rw [Nat.mul_zero]; exact Nat.not_lt_zero _)⟩

theorem Whole.writePage (h : s.Whole binary session j) : s.writePage.Whole binary session j :=
  ⟨h.written, h.blocks, fun a b hab hlt => (s.driver.keeps_writePage a b).mpr (h.kept a b hab hlt)⟩

section
variable (hinit : InitFor binary session.params)
  (hsize : 1 ≤ session.params.blockSize.toNat ∧ session.params.blockSize.toNat ≤ 96)
include hinit hsize

/-- **Step lemma.** -/
theorem Whole.receive (h : s.Whole binary session j) (hd : s.driver.Sound binary session j)
    (hj : j < session.params.blockCount.toNat) {packet : LoRaPacket}
    (hc : CarriesAt binary session.params j packet) :
    (s.receive packet).Whole binary session (j + 1) := by
  obtain ⟨data, hb, hw, hkeeps⟩ := hd.receive_keeps hinit hsize hj hc
  refine ⟨fun answer ha => ?_, fun e he => ?_, hkeeps⟩
  · simp only [Delivery.receive, hw, Option.toList_some, List.map_cons, List.map_nil,
      List.mem_append, List.mem_singleton] at ha
    exact ha.elim (h.written answer) id
  · simp only [Delivery.receive, hw, Option.toList_some, List.filter_cons, if_true, List.filter_nil,
      List.map_cons, List.map_nil, List.mem_append, List.mem_singleton] at he
    rw [Nat.mul_succ]
    rcases he with he | rfl
    · obtain ⟨hblock, hle⟩ := h.blocks e he
      exact ⟨hblock, by omega⟩
    · exact ⟨hb, Nat.le_refl _⟩

/-- **Run lemma.**  Nothing is lost while an invariant of the driver makes each
of its states sound. -/
theorem Whole.moments {I : Nat → Driver → Prop}
    (hsound : ∀ j d, I j d → d.Sound binary session j)
    (hstep : ∀ j d packet, I j d → j + 1 < session.params.blockCount.toNat →
      CarriesAt binary session.params j packet → I (j + 1) (d.step packet))
    (h : s.Whole binary session j) (hi : I j s.driver) {packets : List LoRaPacket}
    (hp : Delivers binary session.params j packets) : ∀ t ∈ s.moments packets, t.Lossless := by
  induction packets generalizing j s with
  | nil =>
    intro t ht
    rw [List.mem_singleton.mp ht]
    exact h.lossless
  | cons p ps ih =>
    have hlen := hp.2.length
    have hnext := h.receive hinit hsize (hsound j _ hi) (by omega) hp.1
    intro t ht
    rcases List.mem_cons.mp ht with rfl | ht
    · exact h.lossless
    rcases List.mem_cons.mp ht with rfl | ht
    · exact hnext.lossless
    rcases ps with _ | ⟨q, qs⟩
    · rw [List.mem_singleton.mp ht]
      exact hnext.writePage.lossless
    · rw [List.length_cons] at hlen
      exact ih hnext.writePage (hstep j _ p hi (by omega) hp.1) hp.2 t ht

end

end Delivery

/-! ## Block sizes that divide the page -/

theorem Driver.InOrder.sound {binary : List UInt8} {session : SessionParams} {j : Nat} {d : Driver}
    (h : d.InOrder binary session j)
    (hsize : 1 ≤ session.params.blockSize.toNat ∧ session.params.blockSize.toNat ≤ 96) :
    d.Sound binary session j :=
  ⟨h.downloading.opened, h.downloading.next, h.downloading.pages, h.memory.ready hsize⟩

/-! ## Within the first page -/

/-- Before block `j`, while no page has been handed out. -/
structure Driver.FirstPage (binary : List UInt8) (session : SessionParams) (j : Nat) (d : Driver) :
    Prop where
  opened : d.consumer.session = some session
  pages : d.pages = []
  next : d.consumer.memory.nextAddress = 0
  memory : d.consumer.memory.InOrder binary session.params.blockSize.toNat j

/-- A page with room is not handed out. -/
theorem Driver.step_of_room {d : Driver} {packet : LoRaPacket} {p : OtaPage}
    (hp : (d.receive packet).consumer.memory.page = some p) (hroom : p.lastAddress ≠ pageSize) :
    d.step packet = d.receive packet := by
  refine writePage_of_none ?_
  rw [OtaMemory.getPage_of_page hp, if_neg fun h => hroom h.1]

namespace Driver.FirstPage

variable {binary : List UInt8} {session : SessionParams} {j : Nat} {d : Driver}

theorem start (binary : List UInt8) (lora : ModuleLoRa) {packet : LoRaPacket}
    {init : OtaInitPacket} (hm : fromBytes packet.payload = some (.init init)) :
    ((Driver.start lora).step packet).FirstPage binary ⟨init, packet.source⟩ 0 := by
  obtain ⟨hc, hp⟩ := start_init lora hm
  refine ⟨?_, hp, ?_, ?_⟩ <;> rw [hc]
  · rfl
  · exact .start rfl rfl rfl rfl

variable (hsize : 1 ≤ session.params.blockSize.toNat ∧ session.params.blockSize.toNat ≤ 96)
include hsize

theorem sound (h : d.FirstPage binary session j) : d.Sound binary session j :=
  ⟨h.opened, by rw [h.next, h.pages]; rfl,
    by rw [h.pages]; exact fun n hn => absurd hn (Nat.not_lt_zero n), h.memory.ready hsize⟩

variable (hinit : InitFor binary session.params) (hj : j + 1 < session.params.blockCount.toNat)
  {packet : LoRaPacket} (hc : CarriesAt binary session.params j packet)
include hinit hj hc

/-- A block that leaves room in the page keeps the download within it. -/
theorem step (h : d.FirstPage binary session j)
    (hroom : session.params.blockSize.toNat * (j + 1) < pageSize) :
    (d.step packet).FirstPage binary session (j + 1) := by
  obtain ⟨data, validUpTo, hb, _, hopen, hpages, hmem⟩ :=
    d.receive_block hinit hsize (by omega) hc h.opened
  have hready := h.memory.ready hsize
  have hlast := hready.last
  have hnext := h.next
  have hlen : data.toList.length = session.params.blockSize.toNat :=
    hb.length_full (full_block hinit hsize.1 hj)
  rw [Nat.mul_succ] at hroom
  obtain ⟨p, hw, haddr, hend, hheld⟩ := hready.append (by omega) hb (by omega) validUpTo
  have hpage : (d.receive packet).consumer.memory.page = some p := by rw [hmem, hw]
  rw [step_of_room hpage (by omega)]
  refine ⟨hopen, by rw [hpages, h.pages], by rw [hmem, hw]; exact hnext, ?_⟩
  rw [hmem, hw]
  refine .filling p rfl haddr hready.queue ?_ (by omega) (by omega) hheld
  rw [Nat.mul_succ]
  exact hend.trans (by rw [hlen])

/-- A block that crosses the end of the page is queued, and no page is handed out. -/
theorem crosses (h : d.FirstPage binary session j)
    (hlo : session.params.blockSize.toNat * j < pageSize)
    (hhi : pageSize < session.params.blockSize.toNat * (j + 1)) :
    (d.step packet).consumer.session = some session ∧ (d.step packet).pages = [] ∧
      (d.step packet).consumer.memory.currentPage.address = 0 ∧
      ∀ e ∈ (d.step packet).consumer.memory.queue.entries, e.1 < pageSize := by
  obtain ⟨data, validUpTo, hb, _, hopen, hpages, hmem⟩ :=
    d.receive_block hinit hsize (by omega) hc h.opened
  have hready := h.memory.ready hsize
  have hlast := hready.last
  have hnext := h.next
  have haddr := hready.current
  have hlen : data.toList.length = session.params.blockSize.toNat :=
    hb.length_full (full_block hinit hsize.1 hj)
  rw [Nat.mul_succ] at hhi
  obtain ⟨queue, hw, hq⟩ := hready.park data (by omega) validUpTo
  have hpage : (d.receive packet).consumer.memory.page = some d.consumer.memory.flushedPage := by
    rw [hmem, hw]
  rw [step_of_room hpage (by omega), hmem, hw]
  refine ⟨hopen, by rw [hpages, h.pages], ?_, fun e he => ?_⟩
  · exact (d.consumer.memory.flushedPage_address).trans (haddr.trans hnext)
  · rw [hq] at he
    rw [List.mem_singleton.mp he]
    exact hlo

end Driver.FirstPage

section
variable {binary : List UInt8} {session : SessionParams} {j : Nat} {s : Delivery}
  (hinit : InitFor binary session.params)
  (hsize : 1 ≤ session.params.blockSize.toNat ∧ session.params.blockSize.toNat ≤ 96)
include hinit hsize

/-- The block after one that crosses the end of the page makes the memory drop
that one: the first byte of the next page is nowhere. -/
theorem Delivery.crossing_lost (h : s.driver.FirstPage binary session j)
    (hlo : session.params.blockSize.toNat * j < pageSize)
    (hhi : pageSize < session.params.blockSize.toNat * (j + 1))
    (hj : j + 1 < session.params.blockCount.toNat) {p q : LoRaPacket}
    (hp : CarriesAt binary session.params j p) (hq : CarriesAt binary session.params (j + 1) q) :
    ¬ ((s.receive p).writePage.receive q).Lossless := by
  intro hloss
  obtain ⟨data, hb, hw, _⟩ := (h.sound hsize).receive_keeps hinit hsize (by omega) hp
  obtain ⟨hopen, hpages, haddr, hqueue⟩ := h.crosses hsize hinit hj hp hlo hhi
  obtain ⟨data', validUpTo, _, _, _, hpages', hmem⟩ :=
    (s.driver.step p).receive_block hinit hsize hj hq hopen
  have hlen := hb.length_full (full_block hinit hsize.1 hj)
  have hin : (session.params.blockSize.toNat * j, data) ∈
      ((s.receive p).writePage.receive q).accepted := by
    simp [Delivery.receive, Delivery.writePage, hw]
  have hlt : pageSize - session.params.blockSize.toNat * j < data.toList.length := by
    rw [Nat.mul_succ] at hhi
    omega
  have hkeeps := hloss.kept _ hin _ _ (List.getElem?_eq_getElem hlt)
  rw [Nat.add_sub_cancel' (Nat.le_of_lt hlo)] at hkeeps
  rcases hkeeps with ⟨r, hr, _⟩ | ⟨r, hr, k, hk, _⟩ | ⟨e, he, hle, _⟩
  · change r ∈ ((s.driver.step p).receive q).pages at hr
    rw [hpages', hpages] at hr
    cases hr
  · change ((s.driver.step p).receive q).consumer.memory.page = some r at hr
    rw [hmem, OtaMemory.write_page, Option.some.injEq] at hr
    rw [← hr, OtaPage.writeAll_address, haddr] at hk
    have := k.isLt
    omega
  · change e ∈ ((s.driver.step p).receive q).consumer.memory.queue.entries at he
    rw [hmem] at he
    rcases OtaMemory.mem_write_queue_flushed he with he | rfl
    · obtain ⟨hold, hge⟩ := (OtaMemory.mem_flushedQueue _ e).mp he
      have := hqueue e hold
      omega
    · simp only at hle
      omega

end

/-- So a download that goes on behind such a block loses it. -/
theorem Delivery.exists_lossy {binary : List UInt8} {session : SessionParams} {j n : Nat}
    (s : Delivery) (h : s.driver.FirstPage binary session j) (hinit : InitFor binary session.params)
    (hsize : 1 ≤ session.params.blockSize.toNat ∧ session.params.blockSize.toNat ≤ 96)
    (hlo : session.params.blockSize.toNat * n < pageSize)
    (hhi : pageSize < session.params.blockSize.toNat * (n + 1))
    (hn : n + 1 < session.params.blockCount.toNat) (hjn : j ≤ n) {packets : List LoRaPacket}
    (hp : Delivers binary session.params j packets) : ∃ t ∈ s.moments packets, ¬ t.Lossless := by
  induction packets generalizing j s with
  | nil => exact absurd hp (by change j ≠ _; omega)
  | cons p ps ih =>
    have hlen := hp.2.length
    by_cases hlast : j = n
    · subst hlast
      rcases ps with _ | ⟨q, qs⟩
      · rw [List.length_nil] at hlen
        omega
      · exact ⟨_, by simp [Delivery.moments],
          Delivery.crossing_lost hinit hsize h hlo hhi hn hp.1 hp.2.1⟩
    · have hroom : session.params.blockSize.toNat * (j + 1) < pageSize :=
        Nat.lt_of_le_of_lt (Nat.mul_le_mul_left _ (by omega)) hlo
      obtain ⟨t, ht, hloss⟩ := ih (s.receive p).writePage
        (h.step hsize hinit (by omega) hp.1 hroom) (by omega) hp.2
      exact ⟨t, by simp [Delivery.moments, ht], hloss⟩

/-- **Nothing is lost** from a download in order exactly when the block size
divides the page or no block follows the one at the end of the first page. -/
theorem nothing_lost_iff (binary : List UInt8) (init : OtaInitPacket) (hinit : InitFor binary init)
    (hsize : 1 ≤ init.blockSize.toNat ∧ init.blockSize.toNat ≤ 96) (lora : ModuleLoRa)
    (initPacket : LoRaPacket) (hm : fromBytes initPacket.payload = some (.init init))
    (packets : List LoRaPacket) (hdata : Delivers binary init 0 packets) :
    (∀ s ∈ (Delivery.start lora initPacket).moments packets, s.Lossless) ↔
      init.blockSize.toNat ∣ pageSize ∨
        blockCount binary init.blockSize.toNat ≤ pageSize / init.blockSize.toNat + 1 := by
  have hwhole := Delivery.whole_start binary ⟨init, initPacket.source⟩ lora initPacket
  have hfirst := Driver.FirstPage.start binary lora hm
  rw [← hinit.2]
  by_cases hdvd : init.blockSize.toNat ∣ pageSize
  · refine iff_of_true ?_ (Or.inl hdvd)
    exact hwhole.moments (I := fun j d => d.InOrder binary ⟨init, initPacket.source⟩ j) hinit hsize
      (fun j d hd => hd.sound hsize)
      (fun j d p hd hj hc => hd.step hinit hdvd hsize (by omega) hc
        (full_block hinit hsize.1 hj)) (Driver.start_inOrder binary lora hm) hdata
  · -- the blocks below `n` end within the first page, and block `n` does not fit
    obtain ⟨n, hn⟩ : ∃ n, n = pageSize / init.blockSize.toNat := ⟨_, rfl⟩
    have hlo : init.blockSize.toNat * n < pageSize := by
      have hle : init.blockSize.toNat * n ≤ pageSize := by
        rw [hn]
        exact Nat.mul_div_le ..
      exact Nat.lt_of_le_of_ne hle fun he => hdvd ⟨n, he.symm⟩
    have hhi : pageSize < init.blockSize.toNat * (n + 1) := by
      rw [hn]
      exact Nat.lt_mul_div_succ _ hsize.1
    rw [← hn, or_iff_right hdvd]
    constructor
    · intro hall
      by_contra hmore
      obtain ⟨t, ht, hloss⟩ := (Delivery.start lora initPacket).exists_lossy hfirst hinit hsize hlo
        hhi (Nat.lt_of_not_le hmore) (Nat.zero_le n) hdata
      exact hloss (hall t ht)
    · intro hcount
      exact hwhole.moments (I := fun j d => d.FirstPage binary ⟨init, initPacket.source⟩ j) hinit
        hsize (fun j d hd => hd.sound hsize)
        (fun j d p hd hj hc => hd.step hsize hinit hj hc
          (Nat.lt_of_le_of_lt (Nat.mul_le_mul_left _ (Nat.le_of_lt_succ
            (Nat.lt_of_lt_of_le hj hcount))) hlo)) hfirst hdata

/-- Twenty-two blocks of 96 bytes: the last one crosses the end of the page and
stays in the queue. -/
theorem nothing_lost_at_page_end :
    let binary : List UInt8 := .replicate 2112 1
    let packets := (List.range' 0 22).map (dataPacket binary 96)
    Delivers binary (initFor binary 96) 0 packets ∧
      ∀ s ∈ (Delivery.start (.quiet 3) (initPacket binary 96)).moments packets, s.Lossless := by
  intro binary packets
  have hcount : (initFor binary 96).blockCount.toNat = 22 := by decide +kernel
  have hdel : Delivers binary (initFor binary 96) 0 packets :=
    dataPackets_deliver (by decide) hcount.symm
  exact ⟨hdel, (nothing_lost_iff binary (initFor binary 96)
    (initFor_initFor (by decide) (by decide +kernel) (by decide +kernel)) (by decide +kernel)
    (.quiet 3) (initPacket binary 96) (OtaPacket.fromBytes_packet ..) packets hdel).mpr
    (Or.inr (by decide +kernel))⟩

/-- One byte more, and the block at the end of the page is lost. -/
theorem crossing_block_lost :
    let binary : List UInt8 := .replicate 2113 1
    let packets := (List.range' 0 23).map (dataPacket binary 96)
    InitFor binary (initFor binary 96) ∧ Delivers binary (initFor binary 96) 0 packets ∧
      ¬ ∀ s ∈ (Delivery.start (.quiet 3) (initPacket binary 96)).moments packets, s.Lossless := by
  intro binary packets
  have hcount : (initFor binary 96).blockCount.toNat = 23 := by decide +kernel
  have hinit : InitFor binary (initFor binary 96) :=
    initFor_initFor (by decide) (by decide +kernel) (by decide +kernel)
  have hdel : Delivers binary (initFor binary 96) 0 packets :=
    dataPackets_deliver (by decide) hcount.symm
  refine ⟨hinit, hdel, fun hall => ?_⟩
  have hm : fromBytes (initPacket binary 96).payload = some (.init (initFor binary 96)) :=
    OtaPacket.fromBytes_packet ..
  -- block 21 holds the bytes from 2016 to 2111
  obtain ⟨t, ht, hloss⟩ := (Delivery.start (.quiet 3) (initPacket binary 96)).exists_lossy
    (n := 21) (Driver.FirstPage.start binary (.quiet 3) hm) hinit (by decide +kernel)
    (by decide +kernel) (by decide +kernel)
    (Nat.lt_of_lt_of_eq (by decide) hcount.symm) (by decide) hdel
  exact hloss (hall t ht)

end LoraModuleFw.ModuleNode
