import LoraModuleFw.Lib.Runs
import LoraModuleFw.Ota.ConsumerRuns
import LoraModuleFw.ModuleNode.Pages

/-! The node's block path with a 32-bit `usize`: every addition, product,
subtraction, slice and push of the code is checked, and `none` is one that
fails.  The functions of the consumer and its memory compute without these
checks; the theorem is that the checks never fail. -/

namespace LoraModuleFw.ModuleNode

open Lora Ota Runs

/-! ## The code, checked -/

def usizeAdd (a b : Nat) : Option Nat := if a + b < 2 ^ 32 then some (a + b) else none

def usizeMul (a b : Nat) : Option Nat := if a * b < 2 ^ 32 then some (a * b) else none

def usizeSub (a b : Nat) : Option Nat := if b ≤ a then some (a - b) else none

namespace OtaPage

/-- `self.buffer[start..end].copy_from_slice(data)`. -/
def copyChecked (p : OtaPage) (start stop : Nat) (data : List UInt8) : Option OtaPage :=
  if start ≤ stop ∧ stop ≤ pageSize ∧ data.length = stop - start then
    some { p with
      buffer := fun k =>
        if start ≤ k.val ∧ k.val < stop then data.getD (k.val - start) 0 else p.buffer k }
  else none

def writeChecked (p : OtaPage) (offset : Nat) (data : List UInt8) : Option (Bool × OtaPage) :=
  if p.lastAddress ≠ pageSize then
    (usizeSub offset p.address).bind fun start =>
      (usizeAdd start data.length).bind fun stop =>
        if stop > pageSize then some (false, p)
        else (p.copyChecked start stop data).map fun p => (true, { p with lastAddress := stop })
  else some (false, p)

end OtaPage

/-- The loop over the queue, with `to_pop` filled entry by entry. -/
def flushQueueChecked (page : OtaPage) : List (Nat × Block) → (toPop : Heapless.Vec Nat 16) →
    Option (OtaPage × Heapless.Vec Nat 16)
  | [], toPop => some (page, toPop)
  | (a, d) :: rest, toPop =>
    if a < page.address then
      (toPop.push a).bind fun toPop => flushQueueChecked page rest toPop
    else (usizeAdd page.address pageSize).bind fun pageEnd =>
      if a < pageEnd then
        (page.writeChecked a d.toList).bind fun (_, page) =>
          (toPop.push a).bind fun toPop => flushQueueChecked page rest toPop
      else flushQueueChecked page rest toPop

namespace OtaMemory

def writeChecked (m : OtaMemory) (validUpTo offset : Nat) (data : List UInt8) :
    Option (Bool × OtaMemory) :=
  let page := m.page.getD (OtaPage.new m.nextAddress)
  (flushQueueChecked page m.queue.entries .empty).bind fun (page, toPop) =>
    let queue := m.queue.removeAll toPop.toList
    let m := { m with validUpToAddress := validUpTo, page := some page, queue }
    if offset < page.address then some (true, m)
    else (page.writeChecked offset data).bind fun
      | (true, page) => some (true, { m with page := some page })
      | (false, page) =>
        -- the copy into a `Vec<u8, 96>`
        (Heapless.Vec.collect data).map fun block =>
          match queue.insert offset block with
          | some queue => (true, { m with page := some page, queue })
          | none => (false, { m with page := some page })

def getPageChecked (m : OtaMemory) : Option (Option OtaPage × OtaMemory) :=
  match m.page with
  | some p =>
    if p.lastAddress = pageSize then
      (usizeAdd p.address pageSize).bind fun pageEnd =>
        if m.validUpToAddress ≥ pageEnd then
          (usizeAdd m.nextAddress pageSize).map fun nextAddress =>
            (some p, { m with nextAddress, page := none })
        else some (none, m)
    else some (none, m)
  | none => some (none, m)

end OtaMemory

/-- The window with a push that has to succeed. -/
def pushRecentChecked (recent : Heapless.Vec UInt16 32) (index : UInt16) :
    Option (Heapless.Vec UInt16 32) :=
  if index ∈ recent.toList then some recent
  else (if recent.isFull then recent.removeFirst else recent).push index

/-- The node's consumer. -/
abbrev NodeConsumer := OtaConsumer OtaMemory

namespace NodeConsumer

def getStatusChecked (c : NodeConsumer) : Option OtaStatusPacket :=
  (Heapless.Vec.collect c.recentIndexes.toList).map fun receivedIndexes =>
    { receivedIndexes, validUpToIndex := c.validUpToIndex }

def isDoneChecked (c : NodeConsumer) : Option Bool :=
  match c.session with
  | some p =>
    if c.validUpToIndex.toNat + 1 < 65536 then
      some (c.validUpToIndex + 1 == p.params.blockCount)
    else none
  | none => some false

def acceptChecked (c : NodeConsumer) (index : UInt16) : Option NodeConsumer :=
  (pushRecentChecked c.recentIndexes index).map fun recent =>
    { c with
      recentIndexes := recent
      validUpToIndex :=
        advance recent (65535 - c.validUpToIndex.toNat) c.validUpToIndex c.validUpToIndex }

def handleDataChecked (c : NodeConsumer) (lora : ModuleLoRa) (data : OtaDataPacket) :
    Option (Except OtaError Unit × NodeConsumer × ModuleLoRa) :=
  match c.session with
  | none => some (.error .invalidPacketType, c, lora)
  | some session =>
    let blockSize := session.params.blockSize.toNat
    (usizeMul blockSize data.index.toNat).bind fun offset =>
      (usizeMul c.validUpToIndex.toNat blockSize).bind fun validUpTo =>
        (usizeAdd validUpTo data.data.toList.length).bind fun validUpTo =>
          (c.memory.writeChecked validUpTo offset data.data.toList).bind fun (written, memory) =>
            let c : NodeConsumer := { c with memory }
            (if written then acceptChecked c data.index else some c).bind fun c =>
              (getStatusChecked c).map fun status =>
                let (r, lora) := loraTransmit lora session.sourceAddress (.status status)
                (r, c, lora)

def handleDoneChecked (c : NodeConsumer) (lora : ModuleLoRa) :
    Option (Except OtaError Unit × NodeConsumer × ModuleLoRa) :=
  match c.session with
  | none => some (.error .invalidPacketType, c, lora)
  | some session => (isDoneChecked c).bind fun done =>
    if done then
      let (r, lora) := loraTransmit lora session.sourceAddress .doneAck
      some (r, c, lora)
    else (getStatusChecked c).map fun status =>
      let (r, lora) := loraTransmit lora session.sourceAddress (.status status)
      (r, c, lora)

def processMessageChecked (c : NodeConsumer) (lora : ModuleLoRa) (packet : LoRaPacket) :
    Option (Except OtaError Unit × NodeConsumer × ModuleLoRa) :=
  match fromBytes packet.payload with
  | none => some (.error .deserialize, c, lora)
  | some (.init init) =>
    some (c.handleInit lora { params := init, sourceAddress := packet.source })
  | some (.data data) => handleDataChecked c lora data
  | some .initAck => some (.error .invalidPacketType, c, lora)
  | some (.status _) => some (.error .invalidPacketType, c, lora)
  | some .done => handleDoneChecked c lora
  | some .doneAck => some (.error .invalidPacketType, c, lora)
  | some .abort => some (c.handleAbort lora packet.source)
  | some .abortAck => some (.error .invalidPacketType, c, lora)

end NodeConsumer

/-- A message, with the radio as it is found, or a page that is asked for. -/
inductive NodeEvent where
  | message (lora : ModuleLoRa) (packet : LoRaPacket)
  | getPage
  | getLastPage

namespace NodeConsumer

def step (c : NodeConsumer) : NodeEvent → NodeConsumer
  | .message lora packet => (c.processMessage lora packet).2.1
  | .getPage => { c with memory := c.memory.getPage.2 }
  | .getLastPage => { c with memory := c.memory.getLastPage.2 }

def stepChecked (c : NodeConsumer) : NodeEvent → Option NodeConsumer
  | .message lora packet => (processMessageChecked c lora packet).map fun r => r.2.1
  | .getPage => c.memory.getPageChecked.map fun r => { c with memory := r.2 }
  | .getLastPage => some { c with memory := c.memory.getLastPage.2 }

end NodeConsumer

/-! ## The memory -/

/-- The largest address that a write can report as valid. -/
def maxValid : Nat := 65534 * 65535 + 96

/-- The largest address of a block. -/
def maxOffset : Nat := 65535 * 65535

namespace OtaPage

theorem writeChecked_eq {p : OtaPage} {offset : Nat} {data : List UInt8}
    (hge : p.address ≤ offset) (hle : offset ≤ maxOffset) (hdata : data.length ≤ 96) :
    p.writeChecked offset data = some (p.write offset data) := by
  have hsub : usizeSub offset p.address = some (offset - p.address) := if_pos hge
  have hadd : usizeAdd (offset - p.address) data.length =
      some (offset - p.address + data.length) := by
    simp only [maxOffset] at hle
    exact if_pos (by omega)
  unfold writeChecked write
  split
  · rw [hsub, Option.bind_some, hadd, Option.bind_some]
    dsimp only
    split
    · rfl
    · next hfits =>
      have hcopy : offset - p.address ≤ offset - p.address + data.length ∧
          offset - p.address + data.length ≤ pageSize ∧
          data.length = offset - p.address + data.length - (offset - p.address) := by omega
      rw [copyChecked, if_pos hcopy]
      rfl
  · rfl

end OtaPage

/-- What bounds the additions on addresses. -/
structure OtaMemory.Bounded (m : OtaMemory) : Prop where
  next : m.nextAddress ≤ maxValid
  valid : m.validUpToAddress ≤ maxValid
  page : ∀ p, m.page = some p → p.address = m.nextAddress
  queue : ∀ e ∈ m.queue.entries, e.1 ≤ maxOffset

/-- Every entry costs one push at most. -/
theorem flushQueueChecked_eq {page : OtaPage} (hpage : page.address ≤ maxValid)
    {entries : List (Nat × Block)} (hentries : ∀ e ∈ entries, e.1 ≤ maxOffset)
    {toPop : Heapless.Vec Nat 16} (hroom : toPop.toList.length + entries.length ≤ 16) :
    ∃ toPop', flushQueueChecked page entries toPop =
        some ((flushQueue page entries).1, toPop') ∧
      toPop'.toList = toPop.toList ++ (flushQueue page entries).2 := by
  induction entries generalizing page toPop with
  | nil => exact ⟨toPop, rfl, (List.append_nil _).symm⟩
  | cons e rest ih =>
    obtain ⟨a, d⟩ := e
    rw [List.length_cons] at hroom
    have ha : a ≤ maxOffset := hentries (a, d) List.mem_cons_self
    have hrest : ∀ e ∈ rest, e.1 ≤ maxOffset := fun e he => hentries e (List.mem_cons_of_mem _ he)
    obtain ⟨pushed, hpush, hlist⟩ := Heapless.Vec.push_of_lt a
      (show toPop.toList.length < 16 by omega)
    have hlen : pushed.toList.length + rest.length ≤ 16 := by
      rw [hlist, List.length_append, List.length_singleton]
      omega
    have hend : usizeAdd page.address pageSize = some (page.address + pageSize) := by
      simp only [maxValid] at hpage
      exact if_pos (by simp only [pageSize]; omega)
    unfold flushQueueChecked flushQueue
    split
    · obtain ⟨toPop', hrun, htoPop⟩ := ih hpage hrest hlen
      rw [hpush, Option.bind_some, hrun]
      exact ⟨toPop', rfl, by rw [htoPop, hlist, List.append_assoc]; rfl⟩
    · next hge =>
      rw [hend, Option.bind_some]
      split
      · rw [OtaPage.writeChecked_eq (Nat.not_lt.mp hge) ha d.length_le, Option.bind_some]
        dsimp only
        rw [hpush, Option.bind_some]
        have hpage' : (page.write a d.toList).2.address ≤ maxValid := by
          rw [OtaPage.write_address]
          exact hpage
        obtain ⟨toPop', hrun, htoPop⟩ := ih hpage' hrest hlen
        rw [hrun]
        exact ⟨toPop', rfl, by rw [htoPop, hlist, List.append_assoc]; rfl⟩
      · exact ih hpage hrest (by omega)

namespace OtaMemory

variable {m : OtaMemory}

theorem Bounded.currentPage (h : m.Bounded) : m.currentPage.address = m.nextAddress := by
  unfold OtaMemory.currentPage
  cases hp : m.page with
  | none => rfl
  | some p => exact h.page p hp

theorem Bounded.writeChecked_eq (h : m.Bounded) (validUpTo : Nat) {offset : Nat} {data : Block}
    (hoffset : offset ≤ maxOffset) :
    m.writeChecked validUpTo offset data.toList = some (m.write validUpTo offset data) := by
  have hpage : m.currentPage.address ≤ maxValid := by
    rw [h.currentPage]
    exact h.next
  have hroom : (Heapless.Vec.empty : Heapless.Vec Nat 16).toList.length +
      m.queue.entries.length ≤ 16 := by
    have hlen := m.queue.length_le
    rw [Heapless.Vec.toList_empty, List.length_nil]
    omega
  obtain ⟨toPop, hrun, htoPop⟩ := flushQueueChecked_eq hpage h.queue hroom
  rw [Heapless.Vec.toList_empty, List.nil_append] at htoPop
  unfold OtaMemory.currentPage at hrun htoPop
  have haddr : (flushQueue (m.page.getD (OtaPage.new m.nextAddress)) m.queue.entries).1.address =
      m.currentPage.address := by
    rw [flushQueue_page]
    exact OtaPage.writeAll_address ..
  unfold writeChecked write
  dsimp only
  rw [hrun, Option.bind_some]
  dsimp only
  rw [htoPop]
  rcases flushQueue (m.page.getD (OtaPage.new m.nextAddress)) m.queue.entries with ⟨page, keys⟩
  dsimp only
  split
  · rfl
  · next hge =>
    rw [OtaPage.writeChecked_eq (Nat.not_lt.mp hge) hoffset data.length_le, Option.bind_some]
    rcases page.write offset data.toList with ⟨_ | _, page'⟩
    · have hcollect : Heapless.Vec.collect (N := 96) data.toList = some data :=
        Heapless.Vec.collect_eq_some.mpr rfl
      cases hinsert : (m.queue.removeAll keys).insert offset data <;>
        simp only [hcollect, Option.map_some, hinsert]
    · rfl

/-- A write keeps the bounds. -/
theorem Bounded.write (h : m.Bounded) {validUpTo offset : Nat} (hvalid : validUpTo ≤ maxValid)
    (hoffset : offset ≤ maxOffset) (data : Block) :
    (m.write validUpTo offset data).2.Bounded := by
  refine ⟨?_, ?_, fun p hp => ?_, fun e he => ?_⟩
  · rw [write_nextAddress]
    exact h.next
  · rw [write_validUpToAddress]
    exact hvalid
  · rw [write_page, Option.some.injEq] at hp
    rw [← hp, OtaPage.writeAll_address, write_nextAddress, h.currentPage]
  · rcases mem_write_queue he with he | rfl
    · exact h.queue e he
    · exact hoffset

theorem Bounded.getPageChecked_eq (h : m.Bounded) : m.getPageChecked = some m.getPage := by
  have hnext := h.next
  unfold getPageChecked getPage
  cases hp : m.page with
  | none => rfl
  | some p =>
    have hadd : usizeAdd m.nextAddress pageSize = some (m.nextAddress + pageSize) := by
      simp only [maxValid] at hnext
      exact if_pos (by simp only [pageSize]; omega)
    dsimp only
    rw [h.page p hp, hadd, Option.bind_some]
    by_cases hlast : p.lastAddress = pageSize
    · rw [if_pos hlast]
      by_cases hvalid : m.validUpToAddress ≥ m.nextAddress + pageSize
      · rw [if_pos hvalid, if_pos ⟨hlast, hvalid⟩, Option.map_some]
      · rw [if_neg hvalid, if_neg fun h => hvalid h.2]
    · rw [if_neg hlast, if_neg fun h => hlast h.1]

/-- The next address moves only as far as a block has been reported valid. -/
theorem Bounded.getPage (h : m.Bounded) : m.getPage.2.Bounded := by
  rcases m.getPage_cases with ⟨p, hp, _, hvalid, hg⟩ | hg
  · rw [hg]
    have hle := h.valid
    rw [h.page p hp] at hvalid
    exact ⟨Nat.le_trans hvalid hle, hle, fun q hq => (by cases hq), h.queue⟩
  · rw [hg]
    exact h

theorem Bounded.getLastPage (h : m.Bounded) : m.getLastPage.2.Bounded :=
  ⟨h.next, h.valid, fun q hq => (by cases hq), h.queue⟩

theorem bounded_new : OtaMemory.new.Bounded :=
  ⟨Nat.zero_le _, Nat.zero_le _, fun p hp => (by cases hp), fun e he => absurd he List.not_mem_nil⟩

end OtaMemory

/-! ## The consumer -/

namespace NodeConsumer

/-- The bounds of every reachable consumer. -/
structure Bounded (c : NodeConsumer) : Prop where
  frontier : c.validUpToIndex.toNat < 65535
  memory : c.memory.Bounded

variable {c : NodeConsumer}

theorem pushRecentChecked_eq (recent : Heapless.Vec UInt16 32) (index : UInt16) :
    pushRecentChecked recent index = some (pushRecent recent index) := by
  unfold pushRecentChecked pushRecent
  split
  · rfl
  · have hlt : (if recent.isFull then recent.removeFirst else recent).toList.length < 32 := by
      have hle := recent.length_le
      split
      · rw [Heapless.Vec.toList_removeFirst, List.length_tail]
        omega
      · next hfull =>
        simp only [Heapless.Vec.isFull, decide_eq_true_eq] at hfull
        omega
    obtain ⟨recent', hpush, _⟩ := Heapless.Vec.push_of_lt index hlt
    dsimp only
    rw [hpush, Option.getD_some]

theorem getStatusChecked_eq (c : NodeConsumer) : c.getStatusChecked = some c.getStatus := by
  have hcollect : Heapless.Vec.collect (N := 32) c.recentIndexes.toList = some c.recentIndexes :=
    Heapless.Vec.collect_eq_some.mpr rfl
  rw [getStatusChecked, hcollect]
  rfl

theorem acceptChecked_eq (c : NodeConsumer) (index : UInt16) :
    c.acceptChecked index = some (c.accept index) := by
  rw [acceptChecked, pushRecentChecked_eq]
  rfl

theorem Bounded.isDoneChecked_eq (h : Bounded c) : c.isDoneChecked = some c.isDone := by
  have hlt := h.frontier
  unfold isDoneChecked OtaConsumer.isDone
  cases c.session with
  | none => rfl
  | some p =>
    dsimp only
    rw [if_pos (by omega)]

theorem blockOffset_le (session : SessionParams) (data : OtaDataPacket) :
    session.params.blockSize.toNat * data.index.toNat ≤ maxOffset :=
  Nat.mul_le_mul (Nat.le_of_lt_succ session.params.blockSize.toNat_lt)
    (Nat.le_of_lt_succ data.index.toNat_lt)

theorem Bounded.validUpTo_le (h : Bounded c) (session : SessionParams) (data : OtaDataPacket) :
    c.validUpToIndex.toNat * session.params.blockSize.toNat + data.data.toList.length ≤
      maxValid :=
  Nat.add_le_add (Nat.mul_le_mul (Nat.le_of_lt_succ h.frontier)
    (Nat.le_of_lt_succ session.params.blockSize.toNat_lt)) data.data.length_le

/-- No check fails while a block is taken in. -/
theorem Bounded.handleDataChecked_eq (h : Bounded c) (lora : ModuleLoRa) (data : OtaDataPacket) :
    c.handleDataChecked lora data = some (c.handleData lora data) := by
  unfold handleDataChecked OtaConsumer.handleData
  cases c.session with
  | none => rfl
  | some session =>
    have hoffset := blockOffset_le session data
    have hvalid := h.validUpTo_le session data
    have hmul : usizeMul session.params.blockSize.toNat data.index.toNat =
        some (session.params.blockSize.toNat * data.index.toNat) :=
      if_pos (Nat.lt_of_le_of_lt hoffset (by decide))
    have hvalid_lt : c.validUpToIndex.toNat * session.params.blockSize.toNat +
        data.data.toList.length < 2 ^ 32 := Nat.lt_of_le_of_lt hvalid (by decide)
    have hmul' : usizeMul c.validUpToIndex.toNat session.params.blockSize.toNat =
        some (c.validUpToIndex.toNat * session.params.blockSize.toNat) := if_pos (by omega)
    have hadd : usizeAdd (c.validUpToIndex.toNat * session.params.blockSize.toNat)
        data.data.toList.length = some (c.validUpToIndex.toNat * session.params.blockSize.toNat +
          data.data.toList.length) := if_pos (by omega)
    dsimp only
    rw [hmul, Option.bind_some, hmul', Option.bind_some, hadd, Option.bind_some,
      h.memory.writeChecked_eq _ hoffset, Option.bind_some]
    have hwrite : c.writeBlock session data = c.memory.write
        (c.validUpToIndex.toNat * session.params.blockSize.toNat + data.data.toList.length)
        (session.params.blockSize.toNat * data.index.toNat) data.data := rfl
    rw [hwrite]
    rcases c.memory.write (c.validUpToIndex.toNat * session.params.blockSize.toNat +
      data.data.toList.length) (session.params.blockSize.toNat * data.index.toNat) data.data with
      ⟨_ | _, memory⟩
    · dsimp only
      rw [if_neg Bool.false_ne_true, if_neg Bool.false_ne_true, Option.bind_some,
        getStatusChecked_eq]
      rfl
    · dsimp only
      rw [if_pos rfl, if_pos rfl, acceptChecked_eq, Option.bind_some, getStatusChecked_eq]
      rfl

theorem Bounded.processMessageChecked_eq (h : Bounded c) (lora : ModuleLoRa)
    (packet : LoRaPacket) :
    c.processMessageChecked lora packet = some (c.processMessage lora packet) := by
  unfold processMessageChecked OtaConsumer.processMessage
  cases fromBytes packet.payload with
  | none => rfl
  | some m =>
    cases m with
    | data data => exact h.handleDataChecked_eq lora data
    | done =>
      dsimp only
      unfold handleDoneChecked OtaConsumer.handleDone
      cases c.session with
      | none => rfl
      | some session =>
        dsimp only
        rw [h.isDoneChecked_eq, Option.bind_some, getStatusChecked_eq]
        cases c.isDone <;> rfl
    | _ => rfl

/-- A message keeps the bounds. -/
theorem Bounded.processMessage (h : Bounded c) (lora : ModuleLoRa) (packet : LoRaPacket) :
    Bounded (c.processMessage lora packet).2.1 := by
  have hwrite : ∀ session data, (c.writeBlock session data).2.Bounded := fun session data =>
    h.memory.write (h.validUpTo_le session data) (blockOffset_le session data) data.data
  rcases c.processMessage_cases lora packet with
    ⟨init, _, hc⟩ | ⟨data, session, _, _, _, hc⟩ | ⟨data, session, _, _, _, hc⟩ | ⟨_, hc⟩ |
    ⟨_, _, hc⟩
  · rw [hc]
    exact ⟨Nat.zero_lt_succ _, h.memory⟩
  · rw [hc]
    have hlt := (OtaConsumer.le_accept { c with memory := (c.writeBlock session data).2 }
      data.index h.frontier).2
    exact ⟨hlt, hwrite session data⟩
  · rw [hc]
    exact ⟨h.frontier, hwrite session data⟩
  · rw [hc]
    exact ⟨h.frontier, h.memory⟩
  · rw [hc]
    exact h

/-- **Step lemma.** -/
theorem Bounded.step (h : Bounded c) (e : NodeEvent) :
    c.stepChecked e = some (c.step e) ∧ Bounded (c.step e) := by
  cases e with
  | message lora packet =>
    refine ⟨?_, h.processMessage lora packet⟩
    exact congrArg (Option.map fun r => r.2.1) (h.processMessageChecked_eq lora packet)
  | getPage =>
    refine ⟨?_, h.frontier, h.memory.getPage⟩
    exact congrArg (Option.map fun r => { c with memory := r.2 }) h.memory.getPageChecked_eq
  | getLastPage => exact ⟨rfl, h.frontier, h.memory.getLastPage⟩

theorem bounded_new : Bounded (.new .new) := ⟨Nat.zero_lt_succ _, OtaMemory.bounded_new⟩

end NodeConsumer

/-- **The block path never overflows**: over every run of messages and page requests
the checked code gets through, with the states that the unchecked one computes,
and in every one of them `is_done` can be asked. -/
theorem block_path_checked (events : List NodeEvent) :
    let c := run NodeConsumer.step (.new .new) events
    runOpt NodeConsumer.stepChecked (.new .new) events = some c ∧
      c.isDoneChecked = some c.isDone := by
  intro c
  obtain ⟨hrun, hbounded⟩ := runOpt_eq_run (I := NodeConsumer.Bounded)
    (fun _ e h => h.step e) NodeConsumer.bounded_new events
  exact ⟨hrun, hbounded.isDoneChecked_eq⟩

end LoraModuleFw.ModuleNode
