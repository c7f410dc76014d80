import LoraModuleFw.ModuleNode.InOrder
import LoraModuleFw.ModuleNode.Node
import LoraModuleFw.Ota.Exchange

/-! A download over a channel that loses none of its blocks.  The two parties and
everything between them are no more than writing the blocks into the memory
directly, however their steps interleave and whatever else gets lost. -/

namespace LoraModuleFw.Ota

open Lora Runs ModuleNode

/-! ## The direct way -/

/-- Write a block into the memory of a node; `none` when it is not taken. -/
def install {M : Type} [OtaMemoryDelegate M] (blockSize : ℕ) (memory : M) (data : OtaDataPacket) :
    Option M :=
  let (taken, memory) := OtaMemoryDelegate.write memory
    ((data.index.toNat - 1) * blockSize + data.data.toList.length) (blockSize * data.index.toNat)
    data.data
  if taken then some memory else none

theorem install_eq_some {M : Type} [OtaMemoryDelegate M] {blockSize : ℕ} {memory after : M}
    {data : OtaDataPacket} : install blockSize memory data = some after ↔
      OtaMemoryDelegate.write memory
        ((data.index.toNat - 1) * blockSize + data.data.toList.length)
        (blockSize * data.index.toNat) data.data = (true, after) := by
  unfold install
  generalize OtaMemoryDelegate.write memory
    ((data.index.toNat - 1) * blockSize + data.data.toList.length) (blockSize * data.index.toNat)
    data.data = written
  obtain ⟨taken, m⟩ := written
  cases taken with
  | true => simp only [if_true, Option.some.injEq, Prod.mk.injEq, true_and]
  | false => exact iff_of_false nofun nofun

/-- A consumer that has counted up to a block writes it no differently. -/
theorem OtaConsumer.processMessage_install {M : Type} [OtaMemoryDelegate M] {c : OtaConsumer M}
    {session : SessionParams} {packet : LoRaPacket} {data : OtaDataPacket} {after : M}
    (hm : fromBytes packet.payload = some (.data data)) (hs : c.session = some session)
    (hc : CountedTo data.index.toNat c)
    (h : install session.params.blockSize.toNat c.memory data = some after) (lora : ModuleLoRa) :
    (c.processMessage lora packet).2.1 = { c with memory := after }.accept data.index ∧
      c.acceptedBlock packet = some data.index := by
  have hw : c.writeBlock session data = (true, after) := by
    rw [writeBlock, hc.frontier]
    exact install_eq_some.mp h
  constructor
  · simp only [processMessage, hm, handleData, hs, hw, if_true]
  · simp only [acceptedBlock, hm, hs, hw, if_true]

/-- The blocks of a binary, numbered from zero. -/
def Numbered (blocks : List OtaDataPacket) : Prop :=
  blocks.map (fun data => data.index.toNat) = List.range blocks.length

instance (blocks : List OtaDataPacket) : Decidable (Numbered blocks) :=
  inferInstanceAs (Decidable (_ = _))

theorem Numbered.index {blocks : List OtaDataPacket} (h : Numbered blocks) {i : ℕ}
    {data : OtaDataPacket} (hi : blocks[i]? = some data) : data.index.toNat = i := by
  have hget := congrArg (fun l => l[i]?) h
  obtain ⟨hlt, _⟩ := List.getElem?_eq_some_iff.mp hi
  simp only [List.getElem?_map, hi, Option.map_some, List.getElem?_range hlt] at hget
  exact Option.some.inj hget

/-! ## Runs that keep the order -/

/-- The block that a packet carries. -/
def dataOf (p : LoRaPacket) : Option OtaDataPacket :=
  match fromBytes p.payload with
  | some (.data data) => some data
  | _ => none

theorem dataOf_eq_some {p : LoRaPacket} {data : OtaDataPacket} :
    dataOf p = some data ↔ fromBytes p.payload = some (.data data) := by
  unfold dataOf
  cases fromBytes p.payload with
  | none => exact iff_of_false nofun nofun
  | some m =>
    cases m with
    | data d => simp only [Option.some.injEq, OtaPacket.data.injEq]
    | _ => exact iff_of_false nofun nofun

/-- Losing a packet without a block loses no block. -/
theorem filterMap_eraseIdx {packets : List LoRaPacket} {i : Nat}
    (h : packets[i]?.bind dataOf = none) :
    (packets.eraseIdx i).filterMap dataOf = packets.filterMap dataOf := by
  induction packets generalizing i with
  | nil => rfl
  | cons q packets ih =>
    cases i with
    | zero =>
      have hq : dataOf q = none := h
      rw [List.eraseIdx_cons_zero, List.filterMap_cons, hq]
    | succ i =>
      rw [List.eraseIdx_cons_succ, List.filterMap_cons, List.filterMap_cons, ih h]

namespace Exchange

variable {M : Type}

/-- The host sends the blocks in order, each once and after the InitAck, and does
not abort; none of them gets lost on the way to the node. -/
def Orderly (blocks : List OtaDataPacket) (s : Exchange M) : ExchangeEvent → Prop
  | .data _ data => s.producer.state = .download ∧ blocks[s.transmitted.length]? = some data
  | .abort => False
  | .loseToNode i => s.toNode[i]?.bind dataOf = none
  | _ => True

instance (blocks : List OtaDataPacket) (s : Exchange M) :
    (e : ExchangeEvent) → Decidable (s.Orderly blocks e)
  | .data _ _ => inferInstanceAs (Decidable (_ ∧ _))
  | .loseToNode _ => inferInstanceAs (Decidable (_ = _))
  | .abort => .isFalse id
  | .transmit _ | .timeout | .receive | .done | .deliver _ | .loseToGateway _ => .isTrue trivial

end Exchange

/-- The request that the gateway is busy with. -/
def Control.request : Control → Option OtaPacket
  | .idle => none
  | .transmit m _ => some m
  | .receive m _ => some m

theorem Control.request_again {m m' : OtaPacket} {n : Nat}
    (h : (Control.again m n).request = some m') : m' = m := by
  cases n with
  | zero => cases h
  | succ n => exact (Option.some.inj h).symm

theorem Control.opening_iff {control : Control} :
    control.Opening ↔ ∃ init, control.request = some (.init init) := by
  cases control with
  | idle => exact iff_of_false id nofun
  | transmit m left => simp only [Opening, request, Option.some.injEq]
  | receive m left => simp only [Opening, request, Option.some.injEq]

/-! ## What is sent -/

/-- A message that goes out is one packet. -/
theorem onAir_of_ok {lora : ModuleLoRa} {destination : UInt32} {m : OtaPacket}
    (h : (loraTransmit (fresh lora) destination m).1 = .ok ()) :
    ∃ p, onAir (loraTransmit (fresh lora) destination m).2 = [p] ∧
      fromBytes p.payload = some m := by
  rcases loraTransmit_cases (fresh lora) destination m with ⟨t, _, hs, _, _, _, hm⟩ | ⟨he, _⟩
  · refine ⟨t.packet, ?_, hm⟩
    rw [onAir, hs]
    rfl
  · rw [h] at he
    cases he

/-- Only an Init is answered by an InitAck. -/
theorem OtaConsumer.processMessage_initAck {M : Type} [OtaMemoryDelegate M] {c : OtaConsumer M}
    {lora : ModuleLoRa} {packet p : LoRaPacket}
    (hp : p ∈ onAir (c.processMessage (fresh lora) packet).2.2)
    (hack : fromBytes p.payload = some .initAck) : Opens packet := by
  rcases c.processMessage_lora (fresh lora) packet with hsame | ⟨m, destination, ha, hsent⟩
  · rw [hsame] at hp
    cases hp
  · rw [hsent] at hp
    cases Option.some.inj ((onAir_loraTransmit hp).symm.trans hack)
    cases ha with
    | initAck hm => exact ⟨_, hm⟩

/-! ## What a step does -/

/-- The request in `control'` is the one in `control`. -/
def Control.Keeps (control control' : Control) : Prop :=
  ∀ m, control'.request = some m → control.request = some m

theorem Control.Keeps.opening {control control' : Control} (h : control.Keeps control')
    (ho : control'.Opening) : control.Opening := by
  obtain ⟨init, hi⟩ := Control.opening_iff.mp ho
  exact Control.opening_iff.mpr ⟨init, h _ hi⟩

theorem Control.keeps_idle (control : Control) : control.Keeps .idle := by
  intro m hm
  cases hm

theorem Control.keeps_again (m : OtaPacket) (left : Nat) :
    (Control.receive m left).Keeps (.again m left) := by
  intro m' hm
  rw [Control.request_again hm]
  rfl

namespace Exchange

variable {M : Type} [OtaMemoryDelegate M] {s s' : Exchange M}

/-- A request goes out, or the radio refuses it. -/
theorem step_transmit_cases {lora : ModuleLoRa} (h : s.step (.transmit lora) = some s') :
    ∃ m left, s.control = .transmit m left ∧
      ((∃ packets, (∀ p ∈ packets, fromBytes p.payload = some m) ∧
        s' = { s with control := .receive m left, toNode := s.toNode ++ packets }) ∨
      s' = { s with control := .idle }) := by
  simp only [Exchange.step] at h
  split at h
  · next m left hc =>
    refine ⟨m, left, hc, ?_⟩
    split at h
    · next lora' ht =>
      cases h
      refine Or.inl ⟨_, ?_, rfl⟩
      intro p hp
      apply onAir_loraTransmit
      rwa [ht]
    · cases h
      exact Or.inr rfl
  · cases h

theorem step_timeout_cases (h : s.step .timeout = some s') :
    ∃ control, s.control.Keeps control ∧ s' = { s with control } := by
  simp only [Exchange.step] at h
  split at h
  · next m left hc =>
    cases h
    exact ⟨_, by rw [hc]; exact Control.keeps_again m left, rfl⟩
  · cases h

/-- The producer takes what is heard, or it is not a message. -/
theorem step_receive_cases (h : s.step .receive = some s') :
    ∃ packet toGateway control, s.toGateway = packet :: toGateway ∧ s.control.Keeps control ∧
      (s' = { s with control, toGateway } ∨
        ∃ m r producer, fromBytes packet.payload = some m ∧
          s.producer.processResponse m = some (r, producer) ∧
          s' = { s with control, producer, toGateway }) := by
  simp only [Exchange.step] at h
  split at h
  · next packet toGateway hg hc =>
    obtain ⟨⟨r, producer⟩, hr, he⟩ := Option.map_eq_some_iff.mp h
    cases he
    refine ⟨packet, toGateway, s.control, hg, fun _ hm => hm, ?_⟩
    unfold OtaProducer.processResponseRaw at hr
    split at hr
    · cases hr
      exact Or.inl rfl
    · next m hm => exact Or.inr ⟨m, r, producer, hm, hr, rfl⟩
  · next packet toGateway m left hg hc =>
    split at h
    · next resp hm =>
      obtain ⟨⟨r, producer⟩, hr, he⟩ := Option.map_eq_some_iff.mp h
      cases he
      exact ⟨packet, toGateway, .idle, hg, s.control.keeps_idle,
        Or.inr ⟨resp, r, producer, hm, hr, rfl⟩⟩
    · cases h
      exact ⟨packet, toGateway, _, hg, by rw [hc]; exact Control.keeps_again m left, Or.inl rfl⟩
  · cases h

/-- A block goes out behind those before it, or the radio refuses it. -/
theorem step_data {lora : ModuleLoRa} {data : OtaDataPacket}
    (h : s.step (.data lora data) = some s') : s.control = .idle ∧
      ((∃ producer p, s.producer.recordSent data.index = some producer ∧
        fromBytes p.payload = some (.data data) ∧
        s' = { s with producer, toNode := s.toNode ++ [p],
                      transmitted := s.transmitted ++ [data.index] }) ∨ s' = s) := by
  simp only [Exchange.step] at h
  split at h
  · next hc =>
    refine ⟨hc, ?_⟩
    obtain ⟨⟨r, producer, lora'⟩, hr, he⟩ := Option.map_eq_some_iff.mp h
    rcases OtaProducer.continueDownload_eq_some hr with ⟨rfl, hp⟩ | ⟨rfl, rfl⟩
    · cases he
      rcases loraTransmit_cases (fresh lora) s.producer.destinationAddress (.data data) with
        ⟨_, hok, _⟩ | ⟨herr, _⟩
      · obtain ⟨p, hair, hm⟩ := onAir_of_ok hok
        rw [← OtaProducer.continueDownload_lora hr] at hair
        exact Or.inl ⟨producer, p, hp, hm, by rw [← hair]⟩
      · rw [OtaProducer.continueDownload_refused herr] at hr
        cases hr
    · cases he
      exact Or.inr rfl
  · cases h

end Exchange

/-! ## The invariant -/

namespace Exchange

variable {M : Type} [OtaMemoryDelegate M]

/-- The blocks on their way to the node. -/
def inFlight (s : Exchange M) : List OtaDataPacket := s.toNode.filterMap dataOf

section
variable (params : OtaInitPacket) (blocks : List OtaDataPacket) (memory₀ : M)

/-- No Init has reached the node yet, and nothing but Inits and Dones is out. -/
structure Waiting (s : Exchange M) : Prop where
  unsent : s.transmitted = []
  quiet : s.inFlight = []
  state : s.producer.state ≠ .download
  silent : ∀ p ∈ s.toGateway, fromBytes p.payload ≠ some .initAck
  memory : s.node.consumer.memory = memory₀

/-- The node has taken the first `k` blocks, and the rest of those sent are on
their way to it. -/
structure Taken (k : ℕ) (s : Exchange M) : Prop where
  session : s.node.consumer.session.map SessionParams.params = some params
  accepted : s.node.accepted = (blocks.take k).map OtaDataPacket.index
  counted : CountedTo k s.node.consumer
  le : k ≤ s.transmitted.length
  bound : s.transmitted.length ≤ blocks.length
  inFlight : s.inFlight = (blocks.take s.transmitted.length).drop k
  memory : runOpt (install params.blockSize.toNat) memory₀ (blocks.take k) =
    some s.node.consumer.memory
  -- an Init that is still on its way is ahead of every block
  ahead : (∃ p ∈ s.toNode, Opens p) → k = 0

/-- What holds all along an orderly run. -/
structure InOrder (s : Exchange M) : Prop where
  sound : s.Sound
  announced : s.producer.params = params
  request : ∀ m, s.control.request = some m → m = .init params ∨ m = .done
  opening : s.control.Opening → s.transmitted = []
  channel : ∀ p ∈ s.toNode, ∀ m, fromBytes p.payload = some m →
    m = .init params ∨ m = .done ∨ ∃ data, m = .data data
  stage : s.Waiting memory₀ ∨ ∃ k, s.Taken params blocks memory₀ k

end

variable {params : OtaInitPacket} {blocks : List OtaDataPacket} {memory₀ : M} {s s' : Exchange M}

theorem inOrder_start {node : Watched M} (h : node.Truthful) (destination : UInt32) :
    (start node params destination).InOrder params blocks node.consumer.memory where
  sound := sound_start h params destination
  announced := rfl
  request := fun _ hm => Or.inl (Control.request_again (n := 10) hm)
  opening := fun _ => rfl
  channel := fun _ hp => nomatch hp
  stage := Or.inl ⟨rfl, rfl, nofun, fun _ hp => (nomatch hp), rfl⟩

/-- The gateway's side moves: whatever it puts on the air carries no block. -/
theorem InOrder.stage_send (h : s.InOrder params blocks memory₀) {control : Control}
    {packets : List LoRaPacket} (hquiet : packets.filterMap dataOf = [])
    (hopen : (∃ p ∈ packets, Opens p) → s.control.Opening) :
    Waiting memory₀ { s with control, toNode := s.toNode ++ packets } ∨
      ∃ k, Taken params blocks memory₀ k { s with control, toNode := s.toNode ++ packets } := by
  have hsame : inFlight { s with control, toNode := s.toNode ++ packets } = s.inFlight := by
    simp only [inFlight, List.filterMap_append, hquiet, List.append_nil]
  rcases h.stage with hw | ⟨k, ht⟩
  · exact Or.inl ⟨hw.unsent, hsame.trans hw.quiet, hw.state, hw.silent, hw.memory⟩
  · refine Or.inr ⟨k, ht.session, ht.accepted, ht.counted, ht.le, ht.bound,
      hsame.trans ht.inFlight, ht.memory, ?_⟩
    rintro ⟨p, hp, hi⟩
    rcases List.mem_append.mp hp with hp | hp
    · exact ht.ahead ⟨p, hp, hi⟩
    · -- a repeated Init goes out before the first block
      have hnone := h.opening (hopen ⟨p, hp, hi⟩)
      have hle := ht.le
      rw [hnone] at hle
      exact Nat.le_zero.mp hle

/-- The gateway takes what it hears; only an InitAck starts the download. -/
theorem InOrder.stage_receive (h : s.InOrder params blocks memory₀) {control : Control}
    {producer : OtaProducer} {toGateway : List LoRaPacket} (hsub : toGateway ⊆ s.toGateway)
    (hstate : producer.state = .download → s.producer.state = .download ∨
      ∃ p ∈ s.toGateway, fromBytes p.payload = some .initAck) :
    Waiting memory₀ { s with control, producer, toGateway } ∨
      ∃ k, Taken params blocks memory₀ k { s with control, producer, toGateway } := by
  rcases h.stage with hw | ⟨k, ht⟩
  · refine Or.inl ⟨hw.unsent, hw.quiet, ?_, fun p hp => hw.silent p (hsub hp), hw.memory⟩
    intro hd
    rcases hstate hd with hd | ⟨p, hp, hack⟩
    · exact hw.state hd
    · exact hw.silent p hp hack
  · exact Or.inr ⟨k, ht.session, ht.accepted, ht.counted, ht.le, ht.bound, ht.inFlight, ht.memory,
      ht.ahead⟩

/-- Packets without a block get lost, or leave the head of a channel. -/
theorem InOrder.stage_lose (h : s.InOrder params blocks memory₀) {toNode : List LoRaPacket}
    {toGateway : List LoRaPacket} (hn : toNode.Sublist s.toNode)
    (hsame : toNode.filterMap dataOf = s.inFlight) (hg : toGateway.Sublist s.toGateway) :
    Waiting memory₀ { s with toNode, toGateway } ∨
      ∃ k, Taken params blocks memory₀ k { s with toNode, toGateway } := by
  rcases h.stage with hw | ⟨k, ht⟩
  · exact Or.inl ⟨hw.unsent, hsame.trans hw.quiet, hw.state, fun p hp => hw.silent p (hg.subset hp),
      hw.memory⟩
  · refine Or.inr ⟨k, ht.session, ht.accepted, ht.counted, ht.le, ht.bound,
      hsame.trans ht.inFlight, ht.memory, ?_⟩
    rintro ⟨p, hp, hi⟩
    exact ht.ahead ⟨p, hn.subset hp, hi⟩

/-! ## Its steps -/

theorem InOrder.transmit (h : s.InOrder params blocks memory₀) {lora : ModuleLoRa}
    (hstep : s.step (.transmit lora) = some s') : s'.InOrder params blocks memory₀ := by
  have hsound := h.sound.transmit hstep
  obtain ⟨m, left, hc, ⟨packets, hair, rfl⟩ | rfl⟩ := step_transmit_cases hstep
  · have hm : m = .init params ∨ m = .done := h.request m (by rw [hc]; rfl)
    refine ⟨hsound, h.announced, ?_, ?_, ?_, ?_⟩
    · intro m' hm'
      cases hm'
      exact hm
    · intro ho
      exact h.opening (by rw [hc]; exact ho)
    · intro p hp m' hm'
      rcases List.mem_append.mp hp with hp | hp
      · exact h.channel p hp m' hm'
      · cases (hair p hp).symm.trans hm'
        exact hm.imp_right Or.inl
    · apply h.stage_send
      · rw [List.filterMap_eq_nil_iff]
        intro p hp
        simp only [dataOf, hair p hp]
        rcases hm with rfl | rfl <;> rfl
      · rintro ⟨p, hp, init, hi⟩
        rw [Control.opening_iff, hc]
        exact ⟨init, hi ▸ (hair p hp).symm⟩
  · refine ⟨hsound, h.announced, ?_, False.elim, h.channel, ?_⟩
    · intro m' hm'
      cases hm'
    · exact h.stage_receive (List.Subset.refl _) Or.inl

theorem InOrder.receive (h : s.InOrder params blocks memory₀)
    (hstep : s.step .receive = some s') : s'.InOrder params blocks memory₀ := by
  have hsound := h.sound.receive hstep
  obtain ⟨packet, rest, control, hg, hkeeps, hcases⟩ := step_receive_cases hstep
  have hmem : packet ∈ s.toGateway := by rw [hg]; exact List.mem_cons_self
  have hsub : rest ⊆ s.toGateway := by rw [hg]; exact List.subset_cons_self ..
  rcases hcases with rfl | ⟨m, r, producer, hm, hr, rfl⟩
  · exact ⟨hsound, h.announced, fun m' hm' => h.request m' (hkeeps m' hm'),
      fun ho => h.opening (hkeeps.opening ho), h.channel, h.stage_receive hsub Or.inl⟩
  · refine ⟨hsound, (OtaProducer.processResponse_answered hr).params.trans h.announced,
      fun m' hm' => h.request m' (hkeeps m' hm'), fun ho => h.opening (hkeeps.opening ho),
      h.channel, h.stage_receive hsub ?_⟩
    -- what starts the download is an InitAck
    intro hd
    rcases OtaProducer.processResponse_cases hr with
      ⟨_, rfl, _⟩ | ⟨rfl, _⟩ | ⟨status, _, _, hs⟩ | ⟨_, _, rfl⟩
    · exact Or.inl hd
    · exact Or.inr ⟨packet, hmem, hm⟩
    · rcases (OtaProducer.processStatus_eq_some hs).2 with ⟨_, _, hdone⟩ | ⟨_, _, hsame⟩
      · rw [hdone] at hd
        cases hd
      · exact Or.inl (hsame.symm.trans hd)
    · cases hd

theorem InOrder.data (h : s.InOrder params blocks memory₀) {lora : ModuleLoRa}
    {data : OtaDataPacket} (hcond : s.Orderly blocks (.data lora data))
    (hstep : s.step (.data lora data) = some s') : s'.InOrder params blocks memory₀ := by
  have hsound := h.sound.data hstep
  obtain ⟨hstate, hnext⟩ := hcond
  obtain ⟨hc, ⟨producer, p, hp, hm, rfl⟩ | rfl⟩ := step_data hstep
  · have hfields := (OtaProducer.recordSent_eq_some hp).1
    refine ⟨hsound, by rw [hfields]; exact h.announced, by rw [hc]; nofun,
      by rw [hc]; exact False.elim, ?_, ?_⟩
    · intro q hq m hm'
      rcases List.mem_append.mp hq with hq | hq
      · exact h.channel q hq m hm'
      · rw [List.mem_singleton.mp hq, hm] at hm'
        cases hm'
        exact Or.inr (Or.inr ⟨data, rfl⟩)
    · rcases h.stage with hw | ⟨k, ht⟩
      · exact absurd hstate hw.state
      · obtain ⟨hlt, _⟩ := List.getElem?_eq_some_iff.mp hnext
        have hle := ht.le
        refine Or.inr ⟨k, ht.session, ht.accepted, ht.counted, ?_, ?_, ?_, ht.memory, ?_⟩
        · rw [List.length_append]
          omega
        · simp only [List.length_append, List.length_singleton]
          omega
        · have hsent : dataOf p = some data := dataOf_eq_some.mpr hm
          simp only [inFlight, List.filterMap_append, List.filterMap_cons, hsent,
            List.filterMap_nil, List.length_append, List.length_singleton]
          rw [List.take_add_one, hnext, List.drop_append_of_le_length (by simp; omega)]
          exact congrArg (· ++ [data]) ht.inFlight
        · rintro ⟨q, hq, hi⟩
          rcases List.mem_append.mp hq with hq | hq
          · exact ht.ahead ⟨q, hq, hi⟩
          · rw [List.mem_singleton.mp hq] at hi
            obtain ⟨init, hi⟩ := hi
            cases hm.symm.trans hi
  · exact h

/-- The memory takes the next block as it would when written directly. -/
theorem Taken.installs {k : ℕ} (h : s.Taken params blocks memory₀ k) {final : M}
    (hwrite : runOpt (install params.blockSize.toNat) memory₀ blocks = some final)
    {data : OtaDataPacket} (hblock : blocks[k]? = some data) :
    ∃ after, install params.blockSize.toNat s.node.consumer.memory data = some after := by
  rw [← List.take_append_drop (k + 1) blocks, runOpt_append, List.take_add_one, hblock] at hwrite
  obtain ⟨u, hu, _⟩ := hwrite
  obtain ⟨v, hv, hinstall⟩ := runOpt_concat.mp hu
  rw [h.memory] at hv
  cases hv
  exact ⟨u, hinstall⟩

/-- The block that the node is waiting for arrives. -/
theorem Taken.deliver {k : ℕ} (h : s.Taken params blocks memory₀ k) (hs : s.Sound)
    (hnum : Numbered blocks) {final : M}
    (hwrite : runOpt (install params.blockSize.toNat) memory₀ blocks = some final)
    (hcount : blocks.length < 65536) {packet : LoRaPacket} {toNode : List LoRaPacket}
    (hhead : s.toNode = packet :: toNode) {data : OtaDataPacket}
    (hm : fromBytes packet.payload = some (.data data)) (lora : ModuleLoRa)
    (toGateway : List LoRaPacket) :
    Taken params blocks memory₀ (k + 1) { s with
      node := Watched.step { s.node with lora := fresh lora } packet, toNode, toGateway } := by
  have hflight : data :: toNode.filterMap dataOf =
      (blocks.take s.transmitted.length).drop k := by
    rw [← h.inFlight, Exchange.inFlight, hhead, List.filterMap_cons, dataOf_eq_some.mpr hm]
  have hk : (blocks.take s.transmitted.length)[k]? = some data := by
    rw [← List.head?_drop, ← hflight, List.head?_cons]
  have hlt : k < s.transmitted.length := by
    obtain ⟨hlt, _⟩ := List.getElem?_eq_some_iff.mp hk
    rw [List.length_take] at hlt
    omega
  have hblock : blocks[k]? = some data := by
    rwa [List.getElem?_take_of_lt hlt] at hk
  have hindex : data.index.toNat = k := hnum.index hblock
  have hbound := h.bound
  obtain ⟨session, hsess, rfl⟩ := Option.map_eq_some_iff.mp h.session
  obtain ⟨after, hafter⟩ := h.installs hwrite hblock
  obtain ⟨hcons, hacc⟩ := OtaConsumer.processMessage_install hm hsess
    (by rw [hindex]; exact h.counted) hafter (fresh lora)
  have hnode : Watched.step { s.node with lora := fresh lora } packet =
      { consumer := { s.node.consumer with memory := after }.accept data.index
        lora := (s.node.consumer.processMessage (fresh lora) packet).2.2
        accepted := s.node.accepted ++ [data.index] } := by
    simp only [Watched.step, hm, hcons, hacc, Option.toList_some]
  have hcounted : CountedTo k { s.node.consumer with memory := after } :=
    ⟨h.counted.frontier, h.counted.below, h.counted.latest⟩
  rw [hnode]
  refine ⟨?_, ?_, hcounted.accept hindex (by omega), hlt, h.bound, ?_, ?_, ?_⟩
  · simp only [OtaConsumer.accept, hsess, Option.map_some]
  · simp only [h.accepted, List.take_add_one, hblock, Option.toList_some, List.map_append,
      List.map_cons, List.map_nil]
  · rw [← List.drop_drop, ← hflight]
    rfl
  · rw [List.take_add_one, hblock]
    exact runOpt_concat.mpr ⟨_, h.memory, hafter⟩
  · rintro ⟨p, hp, hi⟩
    have hord := hs.ordered
    rw [hhead] at hord
    obtain ⟨init, hi⟩ := List.rel_of_pairwise_cons hord hp hi
    cases hm.symm.trans hi

/-- An Init clears the books of the node, which has taken nothing yet. -/
theorem InOrder.opened (h : s.InOrder params blocks memory₀) {packet : LoRaPacket}
    {toNode : List LoRaPacket} (hhead : s.toNode = packet :: toNode)
    (hm : fromBytes packet.payload = some (.init params)) (lora : ModuleLoRa)
    (toGateway : List LoRaPacket) :
    Taken params blocks memory₀ 0 { s with
      node := Watched.step { s.node with lora := fresh lora } packet, toNode, toGateway } := by
  have hnone : dataOf packet = none := by simp only [dataOf, hm]
  have hsame : toNode.filterMap dataOf = s.inFlight := by
    rw [inFlight, hhead, List.filterMap_cons, hnone]
  have hopens : ∃ p ∈ s.toNode, Opens p :=
    ⟨packet, by rw [hhead]; exact List.mem_cons_self, params, hm⟩
  have hnode : Watched.step { s.node with lora := fresh lora } packet =
      { consumer := { s.node.consumer with
          session := some ⟨params, packet.source⟩, recentIndexes := .empty, validUpToIndex := 0 }
        lora := (s.node.consumer.processMessage (fresh lora) packet).2.2
        accepted := [] } := by
    simp only [Watched.step, OtaConsumer.processMessage, OtaConsumer.handleInit, hm]
  have hbooks : CountedTo 0 { s.node.consumer with
      session := some ⟨params, packet.source⟩, recentIndexes := .empty, validUpToIndex := 0 } :=
    ⟨rfl, fun _ hi => absurd hi List.not_mem_nil, fun hz => absurd rfl hz⟩
  rw [hnode]
  rcases h.stage with hw | ⟨k, ht⟩
  · refine ⟨rfl, rfl, hbooks, Nat.zero_le _, ?_, ?_, ?_, fun _ => rfl⟩
    · simp only [hw.unsent, List.length_nil, Nat.zero_le]
    · simp only [hw.unsent, List.length_nil, List.take_zero, List.drop_nil]
      exact hsame.trans hw.quiet
    · exact congrArg some hw.memory.symm
  · cases ht.ahead hopens
    exact ⟨rfl, rfl, hbooks, Nat.zero_le _, ht.bound, hsame.trans ht.inFlight, ht.memory,
      fun _ => rfl⟩

/-- Messages other than Inits, blocks and Aborts leave the node's books alone. -/
theorem step_other {w : Watched M} {packet : LoRaPacket}
    (h : ∀ m, fromBytes packet.payload = some m → m = .done) :
    (w.step packet).consumer = w.consumer ∧ (w.step packet).accepted = w.accepted := by
  rcases w.consumer.processMessage_cases w.lora packet with
    ⟨_, hm, _⟩ | ⟨_, _, hm, _⟩ | ⟨_, _, hm, _⟩ | ⟨hm, _⟩ | ⟨_, ha, hc⟩
  · cases h _ hm
  · cases h _ hm
  · cases h _ hm
  · cases h _ hm
  · refine ⟨hc, ?_⟩
    cases hm : fromBytes packet.payload with
    | none => simp only [Watched.step, hm, ha, Option.toList_none, List.append_nil]
    | some m =>
      cases h m hm
      simp only [Watched.step, hm, ha, Option.toList_none, List.append_nil]

variable {final : M}

theorem InOrder.deliver (h : s.InOrder params blocks memory₀) (hnum : Numbered blocks)
    (hwrite : runOpt (install params.blockSize.toNat) memory₀ blocks = some final)
    (hcount : blocks.length < 65536) {lora : ModuleLoRa}
    (hstep : s.step (.deliver lora) = some s') : s'.InOrder params blocks memory₀ := by
  have hsound := h.sound.step hstep
  simp only [Exchange.step] at hstep
  split at hstep
  · cases hstep
  · next packet rest hhead =>
    cases hstep
    have hmem : packet ∈ s.toNode := by rw [hhead]; exact List.mem_cons_self
    have hsub : ∀ p ∈ rest, p ∈ s.toNode := by
      rw [hhead]
      exact fun p hp => List.mem_cons_of_mem packet hp
    refine ⟨hsound, h.announced, h.request, h.opening, fun p hp => h.channel p (hsub p hp), ?_⟩
    by_cases hinit : fromBytes packet.payload = some (.init params)
    · exact Or.inr ⟨0, h.opened hhead hinit lora _⟩
    by_cases hdata : ∃ data, fromBytes packet.payload = some (.data data)
    · obtain ⟨data, hm⟩ := hdata
      rcases h.stage with hw | ⟨k, ht⟩
      · have hquiet := hw.quiet
        rw [inFlight, hhead, List.filterMap_cons, dataOf_eq_some.mpr hm] at hquiet
        cases hquiet
      · exact Or.inr ⟨k + 1, ht.deliver h.sound hnum hwrite hcount hhead hm lora _⟩
    · have hother : ∀ m, fromBytes packet.payload = some m → m = .done := by
        intro m hm
        rcases h.channel packet hmem m hm with rfl | rfl | ⟨data, rfl⟩
        · exact absurd hm hinit
        · rfl
        · exact absurd ⟨data, hm⟩ hdata
      have hnone : dataOf packet = none := by
        cases hd : dataOf packet with
        | none => rfl
        | some data => exact absurd ⟨data, dataOf_eq_some.mp hd⟩ hdata
      have hsame : rest.filterMap dataOf = s.inFlight := by
        rw [inFlight, hhead, List.filterMap_cons, hnone]
      obtain ⟨hcons, hacc⟩ := step_other (w := { s.node with lora := fresh lora }) hother
      rcases h.stage with hw | ⟨k, ht⟩
      · refine Or.inl ⟨hw.unsent, hsame.trans hw.quiet, hw.state, ?_, ?_⟩
        · intro p hp hack
          rcases List.mem_append.mp hp with hp | hp
          · exact hw.silent p hp hack
          · obtain ⟨init, hi⟩ := OtaConsumer.processMessage_initAck hp hack
            cases hother _ hi
        · exact (congrArg OtaConsumer.memory hcons).trans hw.memory
      · refine Or.inr ⟨k, ?_, hacc.trans ht.accepted, ?_, ht.le, ht.bound,
          hsame.trans ht.inFlight, ?_, ?_⟩
        · rw [hcons]
          exact ht.session
        · rw [hcons]
          exact ht.counted
        · rw [hcons]
          exact ht.memory
        · rintro ⟨p, hp, hi⟩
          exact ht.ahead ⟨p, hsub p hp, hi⟩

/-- **Step lemma.** -/
theorem InOrder.step (h : s.InOrder params blocks memory₀) (hnum : Numbered blocks)
    (hwrite : runOpt (install params.blockSize.toNat) memory₀ blocks = some final)
    (hcount : blocks.length < 65536) {e : ExchangeEvent} (hcond : s.Orderly blocks e)
    (hstep : s.step e = some s') : s'.InOrder params blocks memory₀ := by
  have hsound := h.sound.step hstep
  cases e with
  | transmit lora => exact h.transmit hstep
  | timeout =>
    obtain ⟨control, hkeeps, rfl⟩ := step_timeout_cases hstep
    exact ⟨hsound, h.announced, fun m hm => h.request m (hkeeps m hm),
      fun ho => h.opening (hkeeps.opening ho), h.channel,
      h.stage_receive (List.Subset.refl _) Or.inl⟩
  | receive => exact h.receive hstep
  | data lora data => exact h.data hcond hstep
  | done =>
    simp only [Exchange.step] at hstep
    split at hstep
    · cases hstep
      refine ⟨hsound, h.announced, fun m hm => Or.inr (Control.request_again (n := 10) hm), ?_,
        h.channel, h.stage_receive (List.Subset.refl _) Or.inl⟩
      rintro ⟨init, hi⟩
      cases hi
    · cases hstep
  | abort => exact hcond.elim
  | deliver lora => exact h.deliver hnum hwrite hcount hstep
  | loseToNode i =>
    cases hstep
    refine ⟨hsound, h.announced, h.request, h.opening,
      fun p hp => h.channel p (List.mem_of_mem_eraseIdx hp), ?_⟩
    exact h.stage_lose (List.eraseIdx_sublist ..) (filterMap_eraseIdx hcond)
      (List.Sublist.refl _)
  | loseToGateway i =>
    cases hstep
    exact ⟨hsound, h.announced, h.request, h.opening, h.channel,
      h.stage_receive (List.eraseIdx_subset ..) Or.inl⟩

end Exchange

/-! ## Refinement -/

section

variable {M : Type} [OtaMemoryDelegate M] {params : OtaInitPacket} {blocks : List OtaDataPacket}
  {memory final : M} {lora : ModuleLoRa} {history : List LoRaPacket} {destination : UInt32}

/-- **Run lemma.** -/
theorem Exchange.InOrder.run (hnum : Numbered blocks) (hcount : blocks.length < 65536)
    (hwrite : runOpt (install params.blockSize.toNat)
      (run Watched.step (.start memory lora) history).consumer.memory blocks = some final)
    {events : List ExchangeEvent} {s : Exchange M}
    (horderly : AlongOpt Exchange.step (Exchange.Orderly blocks) (.start
      (run Watched.step (.start memory lora) history) params destination) events)
    (hrun : runOpt Exchange.step (.start
      (run Watched.step (.start memory lora) history) params destination) events = some s) :
    s.InOrder params blocks (run Watched.step (.start memory lora) history).consumer.memory := by
  refine AlongOpt.forall_prefix (P := fun s : Exchange M => s.InOrder params blocks
    (Runs.run Watched.step (.start memory lora) history).consumer.memory) ?_ ?_ horderly events s
    (List.prefix_refl _) hrun
  · intro s e s' h hcond hstep
    exact h.step hnum hwrite hcount hcond hstep
  · exact Exchange.inOrder_start ((Watched.truthful_start memory lora).run history) destination

/-- Nothing on its way: everything sent has been taken. -/
theorem Exchange.Taken.drained {memory₀ : M} {s : Exchange M} {k : ℕ}
    (h : s.Taken params blocks memory₀ k) (hempty : s.inFlight = []) :
    s.Taken params blocks memory₀ s.transmitted.length := by
  have hlen := congrArg List.length (h.inFlight.symm.trans hempty)
  have hle := h.le
  have hbound := h.bound
  rw [List.length_drop, List.length_take, List.length_nil] at hlen
  have hk : k = s.transmitted.length := by omega
  rw [hk] at h
  exact h

/-- All sent and none on its way: the download is complete. -/
theorem Exchange.InOrder.complete {memory₀ : M} {s : Exchange M}
    (h : s.InOrder params blocks memory₀) (hcount : blocks.length = params.blockCount.toNat)
    (hpos : 1 ≤ blocks.length)
    (hwrite : runOpt (install params.blockSize.toNat) memory₀ blocks = some final)
    (hall : s.transmitted.length = blocks.length) (hempty : s.inFlight = []) :
    s.Taken params blocks memory₀ blocks.length ∧ s.node.consumer.isDone = true ∧
      s.node.consumer.memory = final := by
  have hlt := params.blockCount.toNat_lt
  have ht : s.Taken params blocks memory₀ s.transmitted.length := by
    rcases h.stage with hw | ⟨k, ht⟩
    · have hnone := congrArg List.length hw.unsent
      rw [List.length_nil] at hnone
      omega
    · exact ht.drained hempty
  rw [hall] at ht
  obtain ⟨session, hsess, hparams⟩ := Option.map_eq_some_iff.mp ht.session
  have hfront := ht.counted.frontier
  refine ⟨ht, (OtaConsumer.isDone_iff hsess (by omega)).mpr ?_, ?_⟩
  · rw [hparams, hfront]
    omega
  · have hmem := ht.memory
    rw [List.take_length, hwrite] at hmem
    exact (Option.some.inj hmem).symm

end

end LoraModuleFw.Ota
