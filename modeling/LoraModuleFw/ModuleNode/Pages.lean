import LoraModuleFw.Lib.Runs
import LoraModuleFw.ModuleNode.Driver

/-! What is in the pages that `get_page` hands out, when every Data packet
carries its block of one binary.  A page counts as full as soon as its last
block is stored, and a full page takes nothing more: a page is right when that
block is stored last. -/

namespace LoraModuleFw.ModuleNode

open Lora Ota Runs

/-- Byte `k` of the page is the byte of the binary at its address. -/
def OtaPage.Holds (binary : List UInt8) (p : OtaPage) (k : Fin pageSize) : Prop :=
  binary[p.address + k.val]? = some (p.buffer k)

instance (binary : List UInt8) (p : OtaPage) (k : Fin pageSize) : Decidable (p.Holds binary k) :=
  inferInstanceAs (Decidable (_ = _))

/-- The address and bytes of some block of the binary. -/
def IsBlock (binary : List UInt8) (blockSize : Nat) (e : Nat × Block) : Prop :=
  ∃ i, e.1 = blockSize * i ∧ e.1 < binary.length ∧ e.2.toList = blockOf binary blockSize i

namespace IsBlock

variable {binary : List UInt8} {blockSize : Nat} {e : Nat × Block}

theorem length (h : IsBlock binary blockSize e) :
    e.2.toList.length = min blockSize (binary.length - e.1) := by
  obtain ⟨i, ha, _, hd⟩ := h
  rw [hd, length_blockOf, ha]

theorem dvd (h : IsBlock binary blockSize e) : blockSize ∣ e.1 := by
  obtain ⟨i, ha, _⟩ := h
  exact ⟨i, ha⟩

theorem getElem? (h : IsBlock binary blockSize e) {j : Nat} (hj : j < e.2.toList.length) :
    e.2.toList[j]? = binary[e.1 + j]? := by
  have hl := h.length
  obtain ⟨i, ha, _, hd⟩ := h
  rw [hd, getElem?_blockOf, if_pos (by omega), ha]

/-- Where the binary goes on for a whole block, the block is whole. -/
theorem length_full {j : Nat} {data : Block} (h : IsBlock binary blockSize (blockSize * j, data))
    (hfull : blockSize * (j + 1) ≤ binary.length) : data.toList.length = blockSize := by
  have hlen : data.toList.length = min blockSize (binary.length - blockSize * j) := h.length
  rw [Nat.mul_succ] at hfull
  omega

end IsBlock

/-- A block of a page that starts on a block boundary ends within the page. -/
theorem block_fits {blockSize a address : Nat} (hdvd : blockSize ∣ pageSize) (ha : blockSize ∣ a)
    (haddr : blockSize ∣ address) (h1 : address ≤ a) (h2 : a < address + pageSize) :
    a - address + blockSize ≤ pageSize := by
  obtain ⟨c, hc⟩ := Nat.dvd_sub ha haddr
  obtain ⟨n, hn⟩ := hdvd
  rw [hc, hn]
  have hcn : c < n := by
    have : blockSize * c < blockSize * n := by omega
    exact Nat.lt_of_mul_lt_mul_left this
  calc blockSize * c + blockSize = blockSize * (c + 1) := by rw [Nat.mul_succ]
    _ ≤ blockSize * n := Nat.mul_le_mul_left _ (by omega)

/-! ## Writing blocks into a page -/

section
variable {binary : List UInt8} {blockSize : Nat} {p : OtaPage} {e : Nat × Block}

/-- Copying in a block changes no byte that was right, and makes its own bytes right. -/
theorem put_holds (he : IsBlock binary blockSize e) (hge : p.address ≤ e.1) {k : Fin pageSize}
    (h : p.Holds binary k ∨ e.1 ≤ p.address + k ∧ p.address + k < e.1 + e.2.toList.length) :
    (p.put (e.1 - p.address) e.2.toList).Holds binary k := by
  have hk := k.isLt
  simp only [OtaPage.Holds, OtaPage.put]
  split
  · next hin =>
    have hj : k.val - (e.1 - p.address) < e.2.toList.length := by omega
    have hb := he.getElem? hj
    rw [show e.1 + (k.val - (e.1 - p.address)) = p.address + k.val by omega] at hb
    rw [List.getD_eq_getElem?_getD, ← hb, List.getElem?_eq_getElem hj, Option.getD_some]
  · next hout =>
    rcases h with h | h
    · exact h
    · omega

theorem write_holds (he : IsBlock binary blockSize e) (hge : p.address ≤ e.1) {k : Fin pageSize}
    (h : p.Holds binary k) : (p.write e.1 e.2.toList).2.Holds binary k := by
  rcases p.write_cases e.1 e.2.toList with ⟨_, _, hw⟩ | ⟨_, hw⟩
  · rw [hw]; exact put_holds he hge (Or.inl h)
  · rw [hw]; exact h

theorem writeAll_holds {l : List (Nat × Block)}
    (hl : ∀ e ∈ l, IsBlock binary blockSize e ∧ p.address ≤ e.1) {k : Fin pageSize}
    (h : p.Holds binary k) : (p.writeAll l).Holds binary k := by
  induction l generalizing p with
  | nil => exact h
  | cons e l ih =>
    obtain ⟨he, hge⟩ := hl e (by simp)
    refine ih (fun e' he' => ?_) (write_holds he hge h)
    rw [OtaPage.write_address]
    exact hl e' (by simp [he'])

variable (hsize : 1 ≤ blockSize) (hdvd : blockSize ∣ pageSize)
include hsize hdvd

/-- Only the last block of a page can fill it, and only within the binary. -/
theorem write_fills (haddr : blockSize ∣ p.address) (he : IsBlock binary blockSize e)
    (hge : p.address ≤ e.1) (hp : p.lastAddress ≠ pageSize)
    (hfull : (p.write e.1 e.2.toList).2.lastAddress = pageSize) :
    e.1 + blockSize = p.address + pageSize ∧ p.address + pageSize ≤ binary.length := by
  rcases p.write_cases e.1 e.2.toList with ⟨_, hfit, hw⟩ | ⟨_, hw⟩
  · rw [hw] at hfull
    have hstop : e.1 - p.address + e.2.toList.length = pageSize := hfull
    have hlen := he.length
    obtain ⟨i, ha, hlt, _⟩ := he
    have := block_fits hdvd ⟨i, ha⟩ haddr hge (by omega)
    omega
  · rw [hw] at hfull
    exact absurd hfull hp

/-- A page that has become full got its last block, and every block that was
written before it is in. -/
theorem writeAll_fills {l : List (Nat × Block)} (haddr : blockSize ∣ p.address)
    (hl : ∀ e ∈ l, IsBlock binary blockSize e ∧ p.address ≤ e.1) (hp : p.lastAddress ≠ pageSize)
    (hfull : (p.writeAll l).lastAddress = pageSize) :
    p.address + pageSize ≤ binary.length ∧
      p.address + pageSize - blockSize ∈ l.map Prod.fst ∧
      ∀ k : Fin pageSize,
        (pageSize - blockSize ≤ k.val ∨
          ∃ o ∈ (l.map Prod.fst).takeWhile (· ≠ p.address + pageSize - blockSize),
            o ≤ p.address + k ∧ p.address + k < o + blockSize) →
        (p.writeAll l).Holds binary k := by
  induction l generalizing p with
  | nil => exact absurd hfull hp
  | cons e l ih =>
    obtain ⟨he, hge⟩ := hl e (by simp)
    have hlen := he.length
    have hbs : blockSize ≤ pageSize := Nat.le_of_dvd (by decide) hdvd
    have hl' : ∀ e' ∈ l, IsBlock binary blockSize e' ∧
        (p.write e.1 e.2.toList).2.address ≤ e'.1 := by
      intro e' he'
      rw [OtaPage.write_address]
      exact hl e' (by simp [he'])
    rw [OtaPage.writeAll_cons] at hfull ⊢
    rw [List.map_cons, List.takeWhile_cons]
    by_cases h1 : (p.write e.1 e.2.toList).2.lastAddress = pageSize
    · -- this block fills the page: it is the last one, and nothing changes after it
      obtain ⟨hend, hin⟩ := write_fills hsize hdvd haddr he hge hp h1
      have hlast : e.1 = p.address + pageSize - blockSize := by omega
      refine ⟨hin, by simp [hlast], fun k hk => ?_⟩
      rw [if_neg (by simp [hlast])] at hk
      rw [OtaPage.writeAll_full h1]
      rcases p.write_cases e.1 e.2.toList with ⟨_, _, hw⟩ | ⟨_, hw⟩
      · rw [hw]
        have hk' : pageSize - blockSize ≤ k.val := by simpa using hk
        have hlt := k.isLt
        refine put_holds he hge (Or.inr ?_)
        clear hk ih hl hl' h1 hfull he haddr
        constructor <;> omega
      · rw [hw] at h1
        exact absurd h1 hp
    · obtain ⟨hin, hmem, hcov⟩ := ih (by rwa [OtaPage.write_address]) hl' h1 hfull
      rw [OtaPage.write_address] at hin hmem hcov
      refine ⟨hin, List.mem_cons_of_mem _ hmem, fun k hk => ?_⟩
      by_cases hlast : e.1 = p.address + pageSize - blockSize
      · rw [if_neg (by simp [hlast])] at hk
        exact hcov k (hk.imp_right fun ⟨o, ho, _⟩ => by cases ho)
      · rw [if_pos (by simpa using hlast)] at hk
        rcases hk with hk | ⟨o, ho, h2, h3⟩
        · exact hcov k (Or.inl hk)
        · rcases List.mem_cons.mp ho with rfl | ho
          · -- the page is not full yet, so this block goes in
            have hfit := block_fits hdvd he.dvd haddr hge
              (Nat.lt_of_le_of_lt h2 (Nat.add_lt_add_left k.isLt _))
            refine writeAll_holds hl' ?_
            rcases p.write_cases e.1 e.2.toList with ⟨_, _, hw⟩ | ⟨hno, hw⟩
            · rw [hw]
              refine put_holds he hge (Or.inr ⟨h2, ?_⟩)
              clear hcov hl hl' ih
              omega
            · clear hcov hl hl' ih he haddr
              omega
          · exact hcov k (Or.inr ⟨o, ho, h2, h3⟩)

end

/-! ## The pages of a run -/

/-- The pages are those at 0, 2048, 4096, ..., each with the bytes of the binary. -/
def PagesCorrect (binary : List UInt8) (pages : List OtaPage) : Prop :=
  ∀ (n : Nat) (h : n < pages.length),
    (pages[n]).address = pageSize * n ∧ ∀ k, (pages[n]).Holds binary k

/-- If the write at `offset` stores the last block of a page that the binary
fills, then every other byte of that page is in it already or belongs to a
block stored before. -/
def OtaMemory.ClosesInOrder (binary : List UInt8) (blockSize : Nat) (m : OtaMemory)
    (offset : Nat) : Prop :=
  let p := m.currentPage
  let stored := m.attemptedAddresses offset
  let last := p.address + pageSize - blockSize
  p.address + pageSize ≤ binary.length → p.lastAddress ≠ pageSize → last ∈ stored →
    ∀ k : Fin pageSize, k.val < pageSize - blockSize →
      p.Holds binary k ∨ ∃ o ∈ stored.takeWhile (· ≠ last),
        o ≤ p.address + k ∧ p.address + k < o + blockSize

instance (binary : List UInt8) (blockSize : Nat) (m : OtaMemory) (offset : Nat) :
    Decidable (m.ClosesInOrder binary blockSize offset) := by
  unfold OtaMemory.ClosesInOrder
  infer_instance

def Driver.ClosesInOrder (binary : List UInt8) (d : Driver) (packet : LoRaPacket) : Prop :=
  match fromBytes packet.payload, d.consumer.session with
  | some (.data data), some session =>
    d.consumer.memory.ClosesInOrder binary session.params.blockSize.toNat
      (session.params.blockSize.toNat * data.index.toNat)
  | _, _ => True

instance (binary : List UInt8) (d : Driver) (packet : LoRaPacket) :
    Decidable (d.ClosesInOrder binary packet) := by
  unfold Driver.ClosesInOrder
  split <;> infer_instance

/-- What holds of the memory while the blocks of one binary come in. -/
structure OtaMemory.Filling (binary : List UInt8) (blockSize : Nat) (m : OtaMemory) : Prop where
  queue : ∀ e ∈ m.queue.entries, IsBlock binary blockSize e
  next : pageSize ∣ m.nextAddress
  page : ∀ p, m.page = some p → p.address = m.nextAddress ∧
    (p.lastAddress = pageSize → ∀ k, p.Holds binary k)

namespace OtaMemory

variable {binary : List UInt8} {blockSize : Nat} {m : OtaMemory}

theorem Filling.currentPage (h : m.Filling binary blockSize) :
    m.currentPage.address = m.nextAddress ∧
      (m.currentPage.lastAddress = pageSize → ∀ k, m.currentPage.Holds binary k) := by
  unfold OtaMemory.currentPage
  cases hp : m.page with
  | none =>
    exact ⟨rfl, fun h0 => absurd (show 0 = pageSize from h0) (by decide)⟩
  | some p => exact h.page p hp

theorem Filling.attempts (h : m.Filling binary blockSize) {offset : Nat} {data : Block}
    (hb : IsBlock binary blockSize (offset, data)) :
    ∀ e ∈ m.attempts offset data,
      IsBlock binary blockSize e ∧ m.currentPage.address ≤ e.1 := by
  intro e he
  rcases List.mem_append.mp he with he | he
  · obtain ⟨hq, hc⟩ := List.mem_filter.mp he
    simp only [OtaPage.contains, Bool.and_eq_true, decide_eq_true_eq] at hc
    exact ⟨h.queue e hq, hc.1⟩
  · split at he
    · cases he
    · next hge =>
      rw [List.mem_singleton.mp he]
      exact ⟨hb, by simpa using hge⟩

/-- A write that closes its page in order keeps the memory right. -/
theorem Filling.write (h : m.Filling binary blockSize) (hsize : 1 ≤ blockSize)
    (hdvd : blockSize ∣ pageSize) {validUpTo offset : Nat} {data : Block}
    (hb : IsBlock binary blockSize (offset, data))
    (hclose : m.ClosesInOrder binary blockSize offset) :
    (m.write validUpTo offset data).2.Filling binary blockSize := by
  obtain ⟨haddr, hcur⟩ := h.currentPage
  have hatt := h.attempts hb
  refine ⟨fun e he => ?_, by rw [write_nextAddress]; exact h.next, fun p hp => ?_⟩
  · rcases mem_write_queue he with he | rfl
    · exact h.queue e he
    · exact hb
  · rw [write_page, Option.some.injEq] at hp
    subst hp
    refine ⟨by rw [OtaPage.writeAll_address, write_nextAddress, haddr], fun hfull k => ?_⟩
    by_cases hwas : m.currentPage.lastAddress = pageSize
    · exact writeAll_holds hatt (hcur hwas k)
    · have hd : blockSize ∣ m.currentPage.address := by
        rw [haddr]
        exact hdvd.trans h.next
      obtain ⟨hin, hmem, hcov⟩ := writeAll_fills hsize hdvd hd hatt hwas hfull
      rw [attempts_map_fst] at hmem hcov
      by_cases hk : pageSize - blockSize ≤ k.val
      · exact hcov k (Or.inl hk)
      · rcases hclose hin hwas hmem k (by omega) with hheld | hbefore
        · exact writeAll_holds hatt hheld
        · exact hcov k (Or.inr hbefore)

theorem getPage_of_page {p : OtaPage} (h : m.page = some p) :
    m.getPage =
      if p.lastAddress = pageSize ∧ m.validUpToAddress ≥ p.address + pageSize then
        (some p, { m with nextAddress := m.nextAddress + pageSize, page := none })
      else (none, m) := by
  simp only [getPage, h]

theorem getPage_cases (m : OtaMemory) :
    (∃ p, m.page = some p ∧ p.lastAddress = pageSize ∧
      m.validUpToAddress ≥ p.address + pageSize ∧
      m.getPage = (some p, { m with nextAddress := m.nextAddress + pageSize, page := none })) ∨
    m.getPage = (none, m) := by
  cases hp : m.page with
  | none => exact Or.inr (by simp only [getPage, hp])
  | some p =>
    rw [getPage_of_page hp]
    by_cases h : p.lastAddress = pageSize ∧ m.validUpToAddress ≥ p.address + pageSize
    · exact Or.inl ⟨p, rfl, h.1, h.2, if_pos h⟩
    · exact Or.inr (if_neg h)

end OtaMemory

/-- What holds of the driver during the download of a binary. -/
structure Driver.Downloading (binary : List UInt8) (session : SessionParams) (d : Driver) :
    Prop where
  opened : d.consumer.session = some session
  filling : d.consumer.memory.Filling binary session.params.blockSize.toNat
  next : d.consumer.memory.nextAddress = pageSize * d.pages.length
  pages : PagesCorrect binary d.pages

theorem PagesCorrect.concat {binary : List UInt8} {pages : List OtaPage}
    (h : PagesCorrect binary pages) {p : OtaPage} (ha : p.address = pageSize * pages.length)
    (hp : ∀ k, p.Holds binary k) : PagesCorrect binary (pages ++ [p]) := by
  intro n hn
  rw [List.length_append, List.length_singleton] at hn
  by_cases hlt : n < pages.length
  · rw [List.getElem_append_left hlt]
    exact h n hlt
  · have he : n = pages.length := by omega
    subst he
    rw [List.getElem_concat_length rfl]
    exact ⟨ha, hp⟩

namespace Driver

variable {binary : List UInt8} {session : SessionParams}

theorem Downloading.writePage {d : Driver} (h : d.Downloading binary session) :
    d.writePage.Downloading binary session := by
  rcases d.consumer.memory.getPage_cases with ⟨p, hp, hfull, _, hg⟩ | hg
  · obtain ⟨ha, hholds⟩ := h.filling.page p hp
    simp only [Driver.writePage, hg, Option.toList_some]
    refine ⟨h.opened, ⟨h.filling.queue, ?_, fun q hq => by cases hq⟩, ?_, ?_⟩
    · exact (Nat.dvd_add_right h.filling.next).mpr (Nat.dvd_refl _)
    · simp only [List.length_append, List.length_singleton, Nat.mul_add, h.next, Nat.mul_one]
    · exact h.pages.concat (by rw [ha, h.next]) (hholds hfull)
  · simp only [Driver.writePage, hg, Option.toList_none, List.append_nil]
    exact ⟨h.opened, h.filling, h.next, h.pages⟩

/-- An Init on a fresh consumer opens a download. -/
theorem start_downloading (binary : List UInt8) (lora : ModuleLoRa) {packet : LoRaPacket}
    {init : OtaInitPacket} (hm : fromBytes packet.payload = some (.init init)) :
    ((start lora).step packet).Downloading binary ⟨init, packet.source⟩ := by
  obtain ⟨hc, hp⟩ := start_init lora hm
  refine ⟨by rw [hc], ?_, by rw [hc, hp]; rfl, by rw [hp]; intro n hn; cases hn⟩
  rw [hc]
  exact ⟨fun e he => (nomatch he), Nat.dvd_zero _, fun p hp => (nomatch hp)⟩

/-- **Step lemma.** -/
theorem Downloading.step {d : Driver} (h : d.Downloading binary session)
    (hsize : 1 ≤ session.params.blockSize.toNat)
    (hdvd : session.params.blockSize.toNat ∣ pageSize) {packet : LoRaPacket}
    {data : OtaDataPacket} (hm : fromBytes packet.payload = some (.data data))
    (hinit : InitFor binary session.params) (hc : Carries binary session.params data)
    (hclose : d.ClosesInOrder binary packet) : (d.step packet).Downloading binary session := by
  obtain ⟨hs, hmem, hpages⟩ := receive_data hm h.opened
  have hb : IsBlock binary session.params.blockSize.toNat
      (session.params.blockSize.toNat * data.index.toNat, data.data) := by
    refine ⟨_, rfl, ?_, hc.2⟩
    have hlt := hc.1
    rw [hinit.2] at hlt
    exact (mul_lt_length hsize).mp hlt
  simp only [Driver.ClosesInOrder, hm, h.opened] at hclose
  refine Downloading.writePage ⟨hs, ?_, ?_, by rw [hpages]; exact h.pages⟩
  · rw [hmem]
    exact h.filling.write hsize hdvd hb hclose
  · rw [hmem, hpages]
    exact (OtaMemory.write_nextAddress ..).trans h.next

end Driver

end LoraModuleFw.ModuleNode
