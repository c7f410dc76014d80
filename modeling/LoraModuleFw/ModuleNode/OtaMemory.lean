import Mathlib.Data.Fintype.Pi
import LoraModuleFw.Ota.Consumer

/-! The node's firmware buffer, `module-node/src/ota_memory.rs`: one page being
filled and a queue for blocks that do not go into it.  Addresses are `usize`;
they stay below 2^32, so they are plain numbers here. -/

namespace LoraModuleFw.ModuleNode

open Ota

def pageSize : Nat := 2048

structure OtaPage where
  buffer : Fin pageSize → UInt8
  lastAddress : Nat
  address : Nat
  deriving DecidableEq

namespace OtaPage

def new (address : Nat) : OtaPage := { buffer := fun _ => 0, lastAddress := 0, address }

/-- `offset` is at least the page's address in every call. -/
def write (p : OtaPage) (offset : Nat) (data : List UInt8) : Bool × OtaPage :=
  if p.lastAddress ≠ pageSize then
    let start := offset - p.address
    let stop := start + data.length
    if stop > pageSize then (false, p)
    else
      (true, { p with
        buffer := fun k =>
          if start ≤ k.val ∧ k.val < stop then data.getD (k.val - start) 0 else p.buffer k
        lastAddress := stop })
  else (false, p)

end OtaPage

structure OtaMemory where
  page : Option OtaPage
  queue : Heapless.IndexMap Nat Block 8
  nextAddress : Nat
  validUpToAddress : Nat
  deriving DecidableEq

/-- The loop over the queue: the page with its queued blocks written, and the
keys to pop.  A block of the page is popped whether or not it was written. -/
def flushQueue (page : OtaPage) : List (Nat × Block) → OtaPage × List Nat
  | [] => (page, [])
  | (a, d) :: rest =>
    if a < page.address then
      let (page, toPop) := flushQueue page rest
      (page, a :: toPop)
    else if a < page.address + pageSize then
      let (page, toPop) := flushQueue (page.write a d.toList).2 rest
      (page, a :: toPop)
    else flushQueue page rest

namespace OtaMemory

def new : OtaMemory :=
  { page := none, queue := .empty, nextAddress := 0, validUpToAddress := 0 }

def write (m : OtaMemory) (validUpTo offset : Nat) (data : Block) : Bool × OtaMemory :=
  let page := m.page.getD (OtaPage.new m.nextAddress)
  let (page, toPop) := flushQueue page m.queue.entries
  let queue := m.queue.removeAll toPop
  let m := { m with validUpToAddress := validUpTo, page := some page, queue }
  if offset < page.address then (true, m)
  else
    match page.write offset data.toList with
    | (true, page) => (true, { m with page := some page })
    | (false, page) =>
      match queue.insert offset data with
      | some queue => (true, { m with page := some page, queue })
      | none => (false, { m with page := some page })

instance : OtaMemoryDelegate OtaMemory := ⟨write⟩

def getPage (m : OtaMemory) : Option OtaPage × OtaMemory :=
  match m.page with
  | some p =>
    if p.lastAddress = pageSize ∧ m.validUpToAddress ≥ p.address + pageSize then
      (some p, { m with nextAddress := m.nextAddress + pageSize, page := none })
    else (none, m)
  | none => (none, m)

def getLastPage (m : OtaMemory) : Option OtaPage × OtaMemory := (m.page, { m with page := none })

end OtaMemory

/-! ## What a write does -/

namespace OtaPage

def contains (p : OtaPage) (a : Nat) : Bool := p.address ≤ a && a < p.address + pageSize

/-- The page with `data` copied in from `start` on. -/
def put (p : OtaPage) (start : Nat) (data : List UInt8) : OtaPage :=
  { p with
    buffer := fun k =>
      if start ≤ k.val ∧ k.val < start + data.length then data.getD (k.val - start) 0
      else p.buffer k
    lastAddress := start + data.length }

theorem write_cases (p : OtaPage) (offset : Nat) (data : List UInt8) :
    (p.lastAddress ≠ pageSize ∧ offset - p.address + data.length ≤ pageSize ∧
      p.write offset data = (true, p.put (offset - p.address) data)) ∨
    ((p.lastAddress = pageSize ∨ pageSize < offset - p.address + data.length) ∧
      p.write offset data = (false, p)) := by
  unfold write put
  split
  · next h =>
    simp only
    split
    · next hs => exact Or.inr ⟨Or.inr hs, rfl⟩
    · next hs => exact Or.inl ⟨h, by omega, rfl⟩
  · next h => exact Or.inr ⟨Or.inl (by omega), rfl⟩

@[simp] theorem write_address (p : OtaPage) (offset : Nat) (data : List UInt8) :
    (p.write offset data).2.address = p.address := by
  rcases p.write_cases offset data with ⟨_, _, h⟩ | ⟨_, h⟩
  · rw [h]; rfl
  · rw [h]

/-- Write blocks one after the other, ignoring the answers. -/
def writeAll (p : OtaPage) (l : List (Nat × Block)) : OtaPage :=
  l.foldl (fun p e => (p.write e.1 e.2.toList).2) p

@[simp] theorem writeAll_nil (p : OtaPage) : p.writeAll [] = p := rfl

@[simp] theorem writeAll_cons (p : OtaPage) (e : Nat × Block) (l : List (Nat × Block)) :
    p.writeAll (e :: l) = (p.write e.1 e.2.toList).2.writeAll l := rfl

theorem writeAll_concat (p : OtaPage) (l : List (Nat × Block)) (e : Nat × Block) :
    p.writeAll (l ++ [e]) = ((p.writeAll l).write e.1 e.2.toList).2 := by
  simp [writeAll]

@[simp] theorem writeAll_address (p : OtaPage) (l : List (Nat × Block)) :
    (p.writeAll l).address = p.address := by
  induction l generalizing p with
  | nil => rfl
  | cons e l ih => rw [writeAll_cons, ih, write_address]

/-- A full page takes nothing. -/
theorem writeAll_full {p : OtaPage} (h : p.lastAddress = pageSize) (l : List (Nat × Block)) :
    p.writeAll l = p := by
  induction l with
  | nil => rfl
  | cons e l ih =>
    rcases p.write_cases e.1 e.2.toList with ⟨hne, _⟩ | ⟨_, hw⟩
    · exact absurd h hne
    · rw [writeAll_cons, hw, ih]

end OtaPage

/-- The loop over the queue writes the blocks of the page, in queue order. -/
theorem flushQueue_page (page : OtaPage) (l : List (Nat × Block)) :
    (flushQueue page l).1 = page.writeAll (l.filter fun e => page.contains e.1) := by
  induction l generalizing page with
  | nil => rfl
  | cons e l ih =>
    rw [List.filter_cons, flushQueue]
    split
    · next h =>
      have hc : page.contains e.1 = false := by simp [OtaPage.contains]; omega
      rw [if_neg (by simp [hc]), ← ih]
    · split
      · next h1 h2 =>
        have hc : page.contains e.1 = true := by simp [OtaPage.contains]; omega
        have hw : (page.write e.1 e.2.toList).2.contains = page.contains := by
          funext a
          simp [OtaPage.contains]
        rw [if_pos hc, OtaPage.writeAll_cons, ← hw, ← ih]
      · next h1 h2 =>
        have hc : page.contains e.1 = false := by simp [OtaPage.contains]; omega
        rw [if_neg (by simp [hc]), ← ih]

theorem mem_flushQueue_keys (page : OtaPage) (l : List (Nat × Block)) (a : Nat) :
    a ∈ (flushQueue page l).2 ↔ a ∈ l.map Prod.fst ∧ a < page.address + pageSize := by
  induction l generalizing page with
  | nil => simp [flushQueue]
  | cons e l ih =>
    rw [flushQueue, List.map_cons, List.mem_cons]
    split
    · next h =>
      simp only [List.mem_cons, ih]
      constructor
      · rintro (rfl | h')
        · exact ⟨Or.inl rfl, by omega⟩
        · exact ⟨Or.inr h'.1, h'.2⟩
      · rintro ⟨rfl | h', hlt⟩
        · exact Or.inl rfl
        · exact Or.inr ⟨h', hlt⟩
    · split
      · next h1 h2 =>
        simp only [List.mem_cons, ih, OtaPage.write_address]
        constructor
        · rintro (rfl | h')
          · exact ⟨Or.inl rfl, h2⟩
          · exact ⟨Or.inr h'.1, h'.2⟩
        · rintro ⟨rfl | h', hlt⟩
          · exact Or.inl rfl
          · exact Or.inr ⟨h', hlt⟩
      · next h1 h2 =>
        rw [ih]
        constructor
        · exact fun h' => ⟨Or.inr h'.1, h'.2⟩
        · rintro ⟨rfl | h', hlt⟩
          · exact absurd hlt h2
          · exact ⟨h', hlt⟩

namespace OtaMemory

/-- The page a write works on. -/
def currentPage (m : OtaMemory) : OtaPage := m.page.getD (OtaPage.new m.nextAddress)

/-- The page after the queue has been flushed into it. -/
def flushedPage (m : OtaMemory) : OtaPage :=
  m.currentPage.writeAll (m.queue.entries.filter fun e => m.currentPage.contains e.1)

/-- The queue after the flush: the blocks past the current page. -/
def flushedQueue (m : OtaMemory) : Heapless.IndexMap Nat Block 8 :=
  m.queue.removeAll (flushQueue m.currentPage m.queue.entries).2

@[simp] theorem flushedPage_address (m : OtaMemory) :
    m.flushedPage.address = m.currentPage.address := OtaPage.writeAll_address ..

theorem mem_flushedQueue (m : OtaMemory) (e : Nat × Block) :
    e ∈ m.flushedQueue.entries ↔
      e ∈ m.queue.entries ∧ m.currentPage.address + pageSize ≤ e.1 := by
  rw [flushedQueue, Heapless.IndexMap.mem_removeAll, mem_flushQueue_keys]
  constructor
  · rintro ⟨he, hk⟩
    refine ⟨he, ?_⟩
    by_contra hlt
    exact hk ⟨List.mem_map_of_mem he, by omega⟩
  · rintro ⟨he, hle⟩
    exact ⟨he, fun h => by omega⟩

/-- Blocks past the current page stay queued. -/
theorem flushedQueue_eq {m : OtaMemory}
    (h : ∀ e ∈ m.queue.entries, m.currentPage.address + pageSize ≤ e.1) :
    m.flushedQueue = m.queue := by
  have hkeys : (flushQueue m.currentPage m.queue.entries).2 = [] := by
    rw [List.eq_nil_iff_forall_not_mem]
    intro a ha
    obtain ⟨hmem, hlt⟩ := (mem_flushQueue_keys _ _ _).mp ha
    obtain ⟨e, he, rfl⟩ := List.mem_map.mp hmem
    have := h e he
    omega
  rw [flushedQueue, hkeys]
  rfl

/-- The state after the flush, before the new block is looked at. -/
def flushed (m : OtaMemory) (validUpTo : Nat) : OtaMemory :=
  { page := some m.flushedPage, queue := m.flushedQueue, nextAddress := m.nextAddress,
    validUpToAddress := validUpTo }

/-- Everything a write can do. -/
theorem write_eq (m : OtaMemory) (validUpTo offset : Nat) (data : Block) :
    m.write validUpTo offset data =
      if offset < m.currentPage.address then (true, m.flushed validUpTo)
      else if (m.flushedPage.write offset data.toList).1 then
        (true, { m.flushed validUpTo with
          page := some (m.flushedPage.write offset data.toList).2 })
      else match m.flushedQueue.insert offset data with
        | some queue => (true, { m.flushed validUpTo with queue })
        | none => (false, m.flushed validUpTo) := by
  have hf : flushQueue (m.page.getD (OtaPage.new m.nextAddress)) m.queue.entries =
      (m.flushedPage, (flushQueue m.currentPage m.queue.entries).2) :=
    Prod.ext (flushQueue_page ..) rfl
  simp only [write, hf, m.flushedPage_address]
  split
  · rfl
  · rcases m.flushedPage.write_cases offset data.toList with ⟨_, _, hw⟩ | ⟨_, hw⟩
    · simp only [hw, if_true]
      rfl
    · simp only [hw, Bool.false_eq_true, if_false]
      change (match m.flushedQueue.insert offset data with | some queue => _ | none => _) = _
      cases m.flushedQueue.insert offset data <;> rfl

/-- The blocks a write tries on the current page: those queued for it, in queue
order, then the new one unless it lies below the page. -/
def attempts (m : OtaMemory) (offset : Nat) (data : Block) : List (Nat × Block) :=
  m.queue.entries.filter (fun e => m.currentPage.contains e.1) ++
    if offset < m.currentPage.address then [] else [(offset, data)]

/-- The addresses of the blocks a write tries on the current page. -/
def attemptedAddresses (m : OtaMemory) (offset : Nat) : List Nat :=
  (m.queue.entries.map Prod.fst).filter m.currentPage.contains ++
    if offset < m.currentPage.address then [] else [offset]

theorem attempts_map_fst (m : OtaMemory) (offset : Nat) (data : Block) :
    (m.attempts offset data).map Prod.fst = m.attemptedAddresses offset := by
  rw [attempts, attemptedAddresses, List.map_append, List.filter_map]
  congr 1
  split <;> rfl

theorem mem_attemptedAddresses {m : OtaMemory} {offset a : Nat}
    (h : a ∈ m.attemptedAddresses offset) : a ∈ m.queue.entries.map Prod.fst ∨ a = offset := by
  rcases List.mem_append.mp h with h | h
  · exact Or.inl (List.mem_filter.mp h).1
  · split at h
    · cases h
    · exact Or.inr (List.mem_singleton.mp h)

theorem write_page (m : OtaMemory) (validUpTo offset : Nat) (data : Block) :
    (m.write validUpTo offset data).2.page =
      some (m.currentPage.writeAll (m.attempts offset data)) := by
  rw [write_eq, attempts]
  split
  · next h => rw [List.append_nil]; rfl
  · next h =>
    rw [OtaPage.writeAll_concat]
    change _ = some (m.flushedPage.write offset data.toList).2
    rcases m.flushedPage.write_cases offset data.toList with ⟨_, _, hw⟩ | ⟨_, hw⟩
    · simp [hw]
    · simp only [hw, Bool.false_eq_true, if_false]
      cases m.flushedQueue.insert offset data <;> rfl

/-- A write queues nothing but its own block. -/
theorem mem_write_queue_flushed {m : OtaMemory} {validUpTo offset : Nat} {data : Block}
    {e : Nat × Block} (h : e ∈ (m.write validUpTo offset data).2.queue.entries) :
    e ∈ m.flushedQueue.entries ∨ e = (offset, data) := by
  rw [write_eq] at h
  split at h
  · exact Or.inl h
  · split at h
    · exact Or.inl h
    · split at h
      · next queue hq =>
        exact ((Heapless.IndexMap.mem_insert hq e).mp h).imp_left fun h' => h'.1
      · exact Or.inl h

theorem mem_write_queue {m : OtaMemory} {validUpTo offset : Nat} {data : Block} {e : Nat × Block}
    (h : e ∈ (m.write validUpTo offset data).2.queue.entries) :
    e ∈ m.queue.entries ∨ e = (offset, data) :=
  (mem_write_queue_flushed h).imp_left fun he => ((m.mem_flushedQueue e).mp he).1

@[simp] theorem write_nextAddress (m : OtaMemory) (validUpTo offset : Nat) (data : Block) :
    (m.write validUpTo offset data).2.nextAddress = m.nextAddress := by
  rw [write_eq]
  split
  · rfl
  · split
    · rfl
    · split <;> rfl

@[simp] theorem write_validUpToAddress (m : OtaMemory) (validUpTo offset : Nat) (data : Block) :
    (m.write validUpTo offset data).2.validUpToAddress = validUpTo := by
  rw [write_eq]
  split
  · rfl
  · split
    · rfl
    · split <;> rfl

theorem getLastPage_of_none {m : OtaMemory} (h : m.page = none) : m.getLastPage = (none, m) := by
  obtain ⟨page, queue, next, valid⟩ := m
  have hp : page = none := h
  subst hp
  rfl

end OtaMemory

end LoraModuleFw.ModuleNode
