import LoraModuleFw.ModuleNode.InOrder

/-! What reaches the flash: the pages that `get_page` hands out during a
download, and the image they make once the last page has been drained. -/

namespace LoraModuleFw.ModuleNode

open Lora Ota Runs

/-! ## Pages -/

/-- **No corrupt page is handed out** in a run that closes its pages in order. -/
theorem pages_correct (binary : List UInt8) (init : OtaInitPacket) (hinit : InitFor binary init)
    (hsize : 1 ≤ init.blockSize.toNat ∧ init.blockSize.toNat ≤ 96)
    (hdvd : init.blockSize.toNat ∣ pageSize) (lora : ModuleLoRa) (initPacket : LoRaPacket)
    (hm : fromBytes initPacket.payload = some (.init init)) (packets : List LoRaPacket)
    (hdata : ∀ p ∈ packets, ∃ data, fromBytes p.payload = some (.data data) ∧
      Carries binary init data)
    (hclose : Along Driver.step (Driver.ClosesInOrder binary)
      ((Driver.start lora).step initPacket) packets) :
    PagesCorrect binary (run Driver.step ((Driver.start lora).step initPacket) packets).pages := by
  refine (hclose.invariant (P := Driver.Downloading binary ⟨init, initPacket.source⟩)
    (fun d p hd ⟨data, hdecode, hcarries⟩ hstep => ?_)
    (Driver.start_downloading binary lora hm) hdata).pages
  exact hd.step hsize.1 hdvd hdecode hinit hcarries hstep

/-- Thirty-three blocks of 64 bytes in order: the first page is handed out. -/
theorem pages_correct_in_order :
    let binary : List UInt8 := .replicate 2112 1
    let d := run Driver.step ((Driver.start (.quiet 3)).step (initPacket binary 64))
      ((List.range' 0 33).map (dataPacket binary 64))
    d.pages.map OtaPage.address = [0] ∧ PagesCorrect binary d.pages := by
  intro binary d
  have hinit : InitFor binary (initFor binary 64) :=
    initFor_initFor (by decide) (by decide +kernel) (by decide +kernel)
  have hm : fromBytes (initPacket binary 64).payload = some (.init (initFor binary 64)) :=
    OtaPacket.fromBytes_packet ..
  have hcount : (initFor binary 64).blockCount.toNat = 33 := by decide +kernel
  have hdel : Delivers binary (initFor binary 64) 0
      ((List.range' 0 33).map (dataPacket binary 64)) :=
    dataPackets_deliver (by decide) hcount.symm
  refine ⟨by decide +kernel, pages_correct binary (initFor binary 64) hinit (by decide +kernel)
    (by decide +kernel) (.quiet 3) (initPacket binary 64) hm
    ((List.range' 0 33).map (dataPacket binary 64)) (fun p hp => ?_)
    ((Driver.start_inOrder binary (.quiet 3) hm).along_closes hinit (by decide +kernel)
      (by decide +kernel) hdel)⟩
  obtain ⟨i, hi, rfl⟩ := List.mem_map.mp hp
  have hlt : i < 33 := by simpa using hi
  exact (dataPacket_carriesAt (by decide) (by omega)).carries (by omega)

/-- Blocks 30 and 31 of 33 exchanged: block 31 closes the page, and the page is
handed out with a zero where block 30 belongs. -/
theorem corrupt_page_handed_out :
    let binary : List UInt8 := .replicate 2112 1
    let packets := (List.range 30 ++ [31, 30, 32]).map (dataPacket binary 64)
    (∀ p ∈ packets, ∃ data, fromBytes p.payload = some (.data data) ∧
      Carries binary (initFor binary 64) data) ∧
    ¬ PagesCorrect binary
      (run Driver.step ((Driver.start (.quiet 3)).step (initPacket binary 64)) packets).pages := by
  intro binary packets
  refine ⟨fun p hp => ?_, fun h => ?_⟩
  · have hcount : (initFor binary 64).blockCount.toNat = 33 := by decide +kernel
    obtain ⟨i, hi, rfl⟩ := List.mem_map.mp hp
    have hlt : i < 33 := by
      simp only [List.mem_append, List.mem_range, List.mem_cons, List.not_mem_nil, or_false] at hi
      omega
    exact (dataPacket_carriesAt (by decide) (by omega)).carries (by omega)
  · have hbytes : (run Driver.step ((Driver.start (.quiet 3)).step (initPacket binary 64))
        packets).pages.map (fun p => p.buffer ⟨1920, by decide⟩) = [0] := by
      decide +kernel
    obtain ⟨p, rest, hp, hbyte, _⟩ := List.map_eq_cons_iff.mp hbytes
    rw [hp] at h
    obtain ⟨haddr, hheld⟩ := h 0 (Nat.succ_pos _)
    have hk := hheld ⟨1920, by decide⟩
    rw [OtaPage.Holds, haddr, List.getElem_cons_zero, hbyte] at hk
    revert hk
    decide +kernel

/-! ## The image -/

/-- The byte at address `i` once the pages have been written in turn. -/
def imageAt (pages : List OtaPage) (i : Nat) : Option UInt8 :=
  pages.foldl (fun b p =>
    if h : p.address ≤ i ∧ i < p.address + pageSize then
      some (p.buffer ⟨i - p.address, by omega⟩)
    else b) none

theorem imageAt_concat (pages : List OtaPage) (p : OtaPage) (i : Nat) :
    imageAt (pages ++ [p]) i =
      if h : p.address ≤ i ∧ i < p.address + pageSize then
        some (p.buffer ⟨i - p.address, by omega⟩)
      else imageAt pages i := by
  simp only [imageAt, List.foldl_append, List.foldl_cons, List.foldl_nil]

theorem PagesCorrect.of_concat {binary : List UInt8} {pages : List OtaPage} {p : OtaPage}
    (h : PagesCorrect binary (pages ++ [p])) :
    PagesCorrect binary pages ∧ p.address = pageSize * pages.length ∧ ∀ k, p.Holds binary k := by
  refine ⟨fun n hn => ?_, ?_⟩
  · have := h n (by rw [List.length_append]; omega)
    rwa [List.getElem_append_left hn] at this
  · have := h pages.length (by simp)
    rwa [List.getElem_concat_length rfl] at this

/-- Correct pages make up the image as far as they reach, and nothing beyond. -/
theorem PagesCorrect.imageAt {binary : List UInt8} {pages : List OtaPage}
    (h : PagesCorrect binary pages) (i : Nat) :
    imageAt pages i = if i < pageSize * pages.length then binary[i]? else none := by
  induction pages using List.reverseRecOn with
  | nil => simp [ModuleNode.imageAt]
  | append_singleton pages p ih =>
    obtain ⟨hpages, haddr, hheld⟩ := h.of_concat
    rw [imageAt_concat, ih hpages, List.length_append, List.length_singleton, Nat.mul_succ,
      ← haddr]
    by_cases hin : p.address ≤ i ∧ i < p.address + pageSize
    · have hbyte := hheld ⟨i - p.address, by omega⟩
      rw [OtaPage.Holds, show p.address + (i - p.address) = i by omega] at hbyte
      rw [dif_pos hin, if_pos (by omega), hbyte]
    · rw [dif_neg hin]
      split <;> split <;> first | rfl | omega

/-- Every byte of the binary is in its place, and so is every byte of a block
that is still queued. -/
def ImageComplete (binary : List UInt8) (d : Driver) : Prop :=
  (∀ i < binary.length, imageAt d.pages i = binary[i]?) ∧
    ∀ e ∈ d.consumer.memory.queue.entries, ∀ k < e.2.toList.length,
      imageAt d.pages (e.1 + k) = e.2.toList[k]?

instance (binary : List UInt8) (d : Driver) : Decidable (ImageComplete binary d) :=
  inferInstanceAs (Decidable (_ ∧ _))

section
variable {binary : List UInt8} {d : Driver} {pages : List OtaPage} {p : OtaPage}

/-- Correct pages and one that ends with the binary make it whole. -/
theorem imageComplete_of_last (h : PagesCorrect binary pages)
    (haddr : p.address = pageSize * pages.length) (hle : p.lastAddress ≤ pageSize)
    (hheld : ∀ k, k.val < p.lastAddress → p.Holds binary k)
    (hend : p.address + p.lastAddress = binary.length) (hp : d.pages = pages ++ [p])
    (hq : d.consumer.memory.queue.entries = []) : ImageComplete binary d := by
  refine ⟨fun i hi => ?_, fun e he => by rw [hq] at he; cases he⟩
  rw [hp, imageAt_concat, h.imageAt]
  by_cases hin : p.address ≤ i
  · have hbyte := hheld ⟨i - p.address, by omega⟩ (by simp only; omega)
    rw [OtaPage.Holds, show p.address + (i - p.address) = i by omega] at hbyte
    rw [dif_pos ⟨hin, by omega⟩, hbyte]
  · rw [dif_neg (fun h => hin h.1), if_pos (by omega)]

/-- Full pages that end before the binary leave a hole. -/
theorem not_imageComplete (h : PagesCorrect binary d.pages)
    (hlt : pageSize * d.pages.length < binary.length) : ¬ ImageComplete binary d := by
  intro hc
  have hbyte := hc.1 _ hlt
  rw [h.imageAt, if_neg (Nat.lt_irrefl _), List.getElem?_eq_getElem hlt] at hbyte
  cases hbyte

end

namespace Driver

variable {binary : List UInt8} {session : SessionParams} {j : Nat} {d : Driver}

theorem writeLastPage_of_none (h : d.consumer.memory.page = none) : d.writeLastPage = d := by
  simp [writeLastPage, OtaMemory.getLastPage_of_none h]

theorem writeLastPage_pages {p : OtaPage} (h : d.consumer.memory.page = some p) :
    d.writeLastPage.pages = d.pages ++ [p] := by
  simp [writeLastPage, OtaMemory.getLastPage, h]

theorem InOrder.isDone_iff (h : d.InOrder binary session j) (hj : j ≤ 65535) (hne : j ≠ 0) :
    d.consumer.isDone = true ↔ j = session.params.blockCount.toNat := by
  rw [OtaConsumer.isDone_iff h.downloading.opened (by rw [h.counted.frontier]; omega),
    h.counted.frontier]
  omega

theorem InOrder.stepAndFinish_of_lt {packet : LoRaPacket}
    (h : (d.step packet).InOrder binary session j) (hj : j ≠ 0)
    (hlt : j < session.params.blockCount.toNat) : d.stepAndFinish packet = d.step packet := by
  have hcount := session.params.blockCount.toNat_lt
  have hdone : ¬ (d.step packet).consumer.isDone = true := by
    rw [h.isDone_iff (by omega) hj]
    omega
  rw [Driver.stepAndFinish, if_neg hdone]

/-- All blocks but the last keep the download in order. -/
theorem InOrder.run_to_last (h : d.InOrder binary session j)
    (hinit : InitFor binary session.params) (hdvd : session.params.blockSize.toNat ∣ pageSize)
    (hsize : 1 ≤ session.params.blockSize.toNat ∧ session.params.blockSize.toNat ≤ 96)
    (hj : j < session.params.blockCount.toNat) {packets : List LoRaPacket}
    (hp : Delivers binary session.params j packets) :
    ∃ (d' : Driver) (i : Nat) (packet : LoRaPacket), d'.InOrder binary session i ∧
      i + 1 = session.params.blockCount.toNat ∧ CarriesAt binary session.params i packet ∧
      run Driver.stepAndFinish d packets = d'.stepAndFinish packet := by
  induction packets generalizing j d with
  | nil => exact absurd hp (by change j ≠ _; omega)
  | cons p ps ih =>
    have hlen := hp.2.length
    rcases ps with _ | ⟨q, qs⟩
    · exact ⟨d, j, p, h, by simpa using hlen, hp.1, rfl⟩
    · rw [List.length_cons] at hlen
      have hstep := h.step hinit hdvd hsize hj hp.1 (full_block hinit hsize.1 (by omega))
      obtain ⟨d', i, packet, hd', hi, hc, hrun⟩ := ih hstep (by omega) hp.2
      refine ⟨d', i, packet, hd', hi, hc, ?_⟩
      rw [run_cons, hstep.stepAndFinish_of_lt (by omega) (by omega), hrun]

section
variable {d' : Driver} {data : Block} {p : OtaPage} (h : d.InOrder binary session j)
  (hp : d.Reaches binary (session.params.blockSize.toNat * j) p)
  (hend : session.params.blockSize.toNat * j + data.toList.length = binary.length)
  (hlen : 1 ≤ data.toList.length ∧ data.toList.length ≤ session.params.blockSize.toNat)
include h hp hend

/-- A last block that goes into its page leaves with it. -/
theorem Appended.complete
    (ha : d.Appended d' (session.params.blockSize.toNat * j) data p) :
    ImageComplete binary d'.writeLastPage := by
  have hnext : p.address = pageSize * d.pages.length := by
    rw [hp.address, h.downloading.next]
  have hlast := ha.last
  refine imageComplete_of_last h.downloading.pages hnext hp.le hp.held (by omega) ?_ ha.queue
  rw [writeLastPage_pages ha.page, ha.pages]

include hlen in
/-- Such a block lies in the first page, or has another before it in its page. -/
theorem Appended.within_page (hdvd : session.params.blockSize.toNat ∣ pageSize)
    (hgt : j ≠ 0 → p.address < session.params.blockSize.toNat * j)
    (ha : d.Appended d' (session.params.blockSize.toNat * j) data p) :
    binary.length ≤ pageSize ∨
      session.params.blockSize.toNat ≤ (binary.length - 1) % pageSize := by
  have hps : pageSize = 2048 := rfl
  have hnext : p.address = pageSize * d.pages.length := by
    rw [hp.address, h.downloading.next]
  have hlast := ha.last
  have hle := hp.le
  by_cases hzero : d.pages.length = 0
  · left
    rw [hzero] at hnext
    omega
  · right
    have hstart : session.params.blockSize.toNat ∣ p.address := by
      rw [hnext]
      exact hdvd.mul_right _
    have hpos : 0 < p.address := by
      rw [hnext]
      exact Nat.mul_pos (by decide) (by omega)
    have hne : j ≠ 0 := by
      rintro rfl
      have := hp.start
      omega
    have hgap : p.address + session.params.blockSize.toNat ≤
        session.params.blockSize.toNat * j := by
      by_contra hclose
      have := Nat.le_of_lt_add_of_dvd (Nat.lt_of_not_le hclose) ⟨j, rfl⟩ hstart
      have := hgt hne
      omega
    have hsplit : binary.length - 1 = pageSize * d.pages.length +
        (binary.length - 1 - p.address) := by omega
    rw [hsplit, Nat.mul_add_mod, Nat.mod_eq_of_lt (by omega)]
    omega

include hlen in
/-- A last block that is parked is lost: it is the first of its page. -/
theorem Parked.incomplete (hsize : session.params.blockSize.toNat ≤ 96)
    (ha : d.Parked session.params.blockSize.toNat d' (session.params.blockSize.toNat * j)
      data p) :
    ¬ ImageComplete binary d'.writeLastPage ∧
      ¬ (binary.length ≤ pageSize ∨
        session.params.blockSize.toNat ≤ (binary.length - 1) % pageSize) := by
  have hps : pageSize = 2048 := rfl
  have hnext : p.address = pageSize * d.pages.length := by
    rw [hp.address, h.downloading.next]
  have hbehind := ha.behind
  have hall : ∀ k, p.Holds binary k := fun k => hp.held k (by rw [ha.full]; exact k.isLt)
  have hpages : d'.writeLastPage.pages = d.pages ++ [p] := by
    by_cases hfull : data.toList.length = session.params.blockSize.toNat
    · obtain ⟨hpage, _, hpages⟩ := ha.released hfull
      rw [writeLastPage_of_none hpage, hpages]
    · obtain ⟨hpage, hpages⟩ := ha.kept hfull
      rw [writeLastPage_pages hpage, hpages]
  have hmul : pageSize * (d.pages.length + 1) = p.address + pageSize := by
    rw [Nat.mul_succ, hnext]
  constructor
  · apply not_imageComplete
    · rw [hpages]
      exact h.downloading.pages.concat hnext hall
    · rw [hpages, List.length_append, List.length_singleton, hmul]
      omega
  · rintro (hshort | hmod)
    · omega
    · have hsplit : binary.length - 1 = pageSize * (d.pages.length + 1) +
          (data.toList.length - 1) := by omega
      rw [hsplit, Nat.mul_add_mod, Nat.mod_eq_of_lt (by omega)] at hmod
      omega

end

/-- The last block completes the image unless it starts a page beyond the first. -/
theorem InOrder.complete_iff (h : d.InOrder binary session j)
    (hinit : InitFor binary session.params) (hdvd : session.params.blockSize.toNat ∣ pageSize)
    (hsize : 1 ≤ session.params.blockSize.toNat ∧ session.params.blockSize.toNat ≤ 96)
    (hj : j + 1 = session.params.blockCount.toNat) {packet : LoRaPacket}
    (hc : CarriesAt binary session.params j packet) :
    ImageComplete binary (d.stepAndFinish packet) ↔
      binary.length ≤ pageSize ∨
        session.params.blockSize.toNat ≤ (binary.length - 1) % pageSize := by
  have hcount := session.params.blockCount.toNat_lt
  obtain ⟨data, hb, hs, hcounted, p, hp, hgt, hcase⟩ :=
    h.step_cases hinit hdvd hsize (by omega) hc
  have hlen : data.toList.length = min session.params.blockSize.toNat
      (binary.length - session.params.blockSize.toNat * j) := hb.length
  have hin : session.params.blockSize.toNat * j < binary.length := by
    rw [← mul_lt_length hsize.1, ← hinit.2]
    omega
  have hend : binary.length ≤
      session.params.blockSize.toNat * j + session.params.blockSize.toNat := by
    rw [← Nat.mul_succ, ← Nat.not_lt, ← mul_lt_length hsize.1, ← hinit.2]
    omega
  have hdone : (d.step packet).consumer.isDone = true := by
    rw [OtaConsumer.isDone_iff hs (by rw [hcounted.frontier]; omega), hcounted.frontier]
    omega
  rw [Driver.stepAndFinish, if_pos hdone]
  rcases hcase with ha | ha
  · exact iff_of_true (ha.complete h hp (by omega))
      (ha.within_page h hp (by omega) ⟨by omega, by omega⟩ hdvd hgt)
  · obtain ⟨hno, hout⟩ := ha.incomplete h hp (by omega) ⟨by omega, by omega⟩ hsize.2
    exact iff_of_false hno hout

end Driver

/-- **The drained image is the whole binary** exactly when the last block does
not start a page beyond the first. -/
theorem image_complete_iff (binary : List UInt8) (hlen : 1 ≤ binary.length)
    (init : OtaInitPacket) (hinit : InitFor binary init)
    (hsize : 1 ≤ init.blockSize.toNat ∧ init.blockSize.toNat ≤ 96)
    (hdvd : init.blockSize.toNat ∣ pageSize) (lora : ModuleLoRa) (initPacket : LoRaPacket)
    (hm : fromBytes initPacket.payload = some (.init init)) (packets : List LoRaPacket)
    (hdata : Delivers binary init 0 packets) :
    ImageComplete binary
        (run Driver.stepAndFinish (Driver.start lora) (initPacket :: packets)) ↔
      binary.length ≤ pageSize ∨ init.blockSize.toNat ≤ (binary.length - 1) % pageSize := by
  have hfirst : 0 < init.blockCount.toNat := by
    rw [hinit.2, mul_lt_length hsize.1]
    omega
  have hstart : (Driver.start lora).stepAndFinish initPacket =
      (Driver.start lora).step initPacket := by
    rw [Driver.stepAndFinish]
    split
    · refine Driver.writeLastPage_of_none ?_
      rw [(Driver.start_init lora hm).1]
      rfl
    · rfl
  obtain ⟨d, j, packet, hd, hj, hc, hrun⟩ :=
    (Driver.start_inOrder binary lora hm).run_to_last hinit hdvd hsize hfirst hdata
  rw [run_cons, hstart, hrun]
  exact hd.complete_iff hinit hdvd hsize hj hc

/-- A hundred bytes in two blocks. -/
theorem image_complete_two_blocks :
    ImageComplete (.replicate 100 1) (run Driver.stepAndFinish (Driver.start (.quiet 3))
      (initPacket (.replicate 100 1) 64 ::
        (List.range' 0 2).map (dataPacket (.replicate 100 1) 64))) :=
  (image_complete_iff (.replicate 100 1) (by decide) (initFor (.replicate 100 1) 64)
    (initFor_initFor (by decide) (by decide) (by decide)) (by decide) (by decide) (.quiet 3)
    (initPacket (.replicate 100 1) 64) (OtaPacket.fromBytes_packet ..)
    ((List.range' 0 2).map (dataPacket (.replicate 100 1) 64))
    (dataPackets_deliver (by decide) (by decide))).mpr (Or.inl (by decide))

/-- A binary of 2049 bytes in blocks of 64: the last byte stays in the queue. -/
theorem last_block_left_in_queue :
    let binary : List UInt8 := .replicate 2049 1
    ¬ ImageComplete binary (run Driver.stepAndFinish (Driver.start (.quiet 3))
      (initPacket binary 64 :: (List.range' 0 33).map (dataPacket binary 64))) := by
  intro binary h
  have hbyte := h.1 2048 (by decide +kernel)
  revert hbyte
  decide +kernel

end LoraModuleFw.ModuleNode
