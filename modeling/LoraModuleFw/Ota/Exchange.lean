import LoraModuleFw.ModuleNode.OtaMemory
import LoraModuleFw.Ota.ProducerRuns

/-! One producer and one consumer joined by two channels that lose messages but
keep their order, and what an acknowledgement is worth in any reachable state. -/

namespace LoraModuleFw.Ota

open Lora Runs Frontier

/-! ## The two parties and their channels -/

/-- What the gateway is doing: it is in its main loop, or in the loop of
`lora_transmit_until_response` with `left` rounds after this one. -/
inductive Control where
  | idle
  | transmit (m : OtaPacket) (left : Nat)
  | receive (m : OtaPacket) (left : Nat)
  deriving DecidableEq

/-- The head of the retry loop; after the last round the request has failed. -/
def Control.again (m : OtaPacket) : (retries : Nat) → Control
  | 0 => .idle
  | left + 1 => .transmit m left

/-- `transmitted` remembers the blocks the gateway has put on the air. -/
structure Exchange (M : Type) where
  control : Control
  producer : OtaProducer
  node : Watched M
  toNode : List LoRaPacket
  toGateway : List LoRaPacket
  transmitted : List UInt16

/-- Whoever transmits does so with a radio in any state. -/
inductive ExchangeEvent where
  | transmit (lora : ModuleLoRa)
  | timeout
  | receive
  | data (lora : ModuleLoRa) (data : OtaDataPacket)
  | done
  | abort
  | deliver (lora : ModuleLoRa)
  | loseToNode (i : Nat)
  | loseToGateway (i : Nat)

/-- The radio with nothing sent yet. -/
def fresh (lora : ModuleLoRa) : ModuleLoRa := { lora with sent := [] }

def onAir (lora : ModuleLoRa) : List LoRaPacket := lora.sent.map (·.packet)

namespace Exchange

variable {M : Type}

/-- The gateway is about to send its first Init to a node that has lived before. -/
def start (node : Watched M) (params : OtaInitPacket) (destination : UInt32) : Exchange M :=
  { control := .again (.init params) 10, producer := .new params destination, node
    toNode := [], toGateway := [], transmitted := [] }

/-- `none` when the event cannot happen here, or the gateway panics. -/
def step [OtaMemoryDelegate M] (s : Exchange M) : ExchangeEvent → Option (Exchange M)
  | .transmit lora =>
    match s.control with
    | .transmit m left =>
      match loraTransmit (fresh lora) s.producer.destinationAddress m with
      | (.ok (), lora) =>
        some { s with control := .receive m left, toNode := s.toNode ++ onAir lora }
      | (.error _, _) => some { s with control := .idle }
    | _ => none
  | .timeout =>
    match s.control with
    | .receive m left => some { s with control := .again m left }
    | _ => none
  | .receive =>
    match s.toGateway, s.control with
    | packet :: toGateway, .idle =>
      (s.producer.processResponseRaw packet).map fun (_, producer) =>
        { s with producer, toGateway }
    | packet :: toGateway, .receive m left =>
      match fromBytes packet.payload with
      | some resp =>
        (s.producer.processResponse resp).map fun (_, producer) =>
          { s with control := .idle, producer, toGateway }
      | none => some { s with control := .again m left, toGateway }
    | _, _ => none
  | .data lora data =>
    match s.control with
    | .idle =>
      (s.producer.continueDownload (fresh lora) data).map fun
        | (.ok (), producer, lora) =>
          { s with producer, toNode := s.toNode ++ onAir lora,
                   transmitted := s.transmitted ++ [data.index] }
        | (.error _, producer, _) => { s with producer }
    | _ => none
  | .done => if s.control = .idle then some { s with control := .again .done 10 } else none
  | .abort => if s.control = .idle then some { s with control := .again .abort 10 } else none
  | .deliver lora =>
    match s.toNode with
    | [] => none
    | packet :: toNode =>
      let node := Watched.step { s.node with lora := fresh lora } packet
      some { s with node, toNode, toGateway := s.toGateway ++ onAir node.lora }
  | .loseToNode i => some { s with toNode := s.toNode.eraseIdx i }
  | .loseToGateway i => some { s with toGateway := s.toGateway.eraseIdx i }

end Exchange

/-! ## What is sent -/

theorem onAir_loraTransmit {lora : ModuleLoRa} {destination : UInt32} {m : OtaPacket}
    {p : LoRaPacket} (h : p ∈ onAir (loraTransmit (fresh lora) destination m).2) :
    fromBytes p.payload = some m := by
  obtain ⟨t, ht, rfl⟩ := List.mem_map.mp h
  rcases loraTransmit_cases (fresh lora) destination m with ⟨t', _, hs, _, _, _, hm⟩ | ⟨_, hs⟩
  · rw [hs] at ht
    rw [List.mem_singleton.mp ht]
    exact hm
  · rw [hs] at ht
    cases ht

/-- The packet opens a session at the node. -/
def Opens (p : LoRaPacket) : Prop := ∃ init, fromBytes p.payload = some (.init init)

/-- The request is an Init. -/
def Control.Opening : Control → Prop
  | .idle => False
  | .transmit m _ => ∃ init, m = .init init
  | .receive m _ => ∃ init, m = .init init

theorem Control.opening_again {m : OtaPacket} {n : Nat} (h : (Control.again m n).Opening) :
    ∃ init, m = .init init := by
  cases n with
  | zero => exact h.elim
  | succ n => exact h

/-- A status on the air is the consumer's own, and never answers an Init. -/
theorem OtaConsumer.processMessage_status {M : Type} [OtaMemoryDelegate M] {c : OtaConsumer M}
    {lora : ModuleLoRa} {packet p : LoRaPacket} {status : OtaStatusPacket}
    (hp : p ∈ onAir (c.processMessage (fresh lora) packet).2.2)
    (hs : fromBytes p.payload = some (.status status)) :
    status = (c.processMessage (fresh lora) packet).2.1.getStatus ∧ ¬ Opens packet := by
  have hsent {destination : UInt32} {m : OtaPacket}
      (h : p ∈ onAir (loraTransmit (fresh lora) destination m).2) : m = .status status :=
    Option.some.inj ((onAir_loraTransmit h).symm.trans hs)
  have hquiet (h : p ∈ onAir (fresh lora)) : False := List.not_mem_nil h
  unfold Opens
  unfold processMessage at hp ⊢
  cases hm : fromBytes packet.payload with
  | none => exact (hquiet (by simpa only [hm] using hp)).elim
  | some m =>
    rw [hm] at hp
    cases m with
    | init init =>
      have hack : p ∈ onAir (loraTransmit (fresh lora) packet.source .initAck).2 := hp
      cases hsent hack
    | data data =>
      refine ⟨?_, by rintro ⟨_, hi⟩; cases hi⟩
      simp only [handleData] at hp ⊢
      cases hsess : c.session with
      | none =>
        rw [hsess] at hp
        exact (hquiet hp).elim
      | some session =>
        rw [hsess] at hp
        exact (OtaPacket.status.inj (hsent hp)).symm
    | done =>
      refine ⟨?_, by rintro ⟨_, hi⟩; cases hi⟩
      simp only [handleDone] at hp ⊢
      cases hsess : c.session with
      | none =>
        rw [hsess] at hp
        exact (hquiet hp).elim
      | some session =>
        rw [hsess] at hp
        cases hdone : c.isDone with
        | true =>
          rw [hdone] at hp
          have hack : p ∈ onAir (loraTransmit (fresh lora) session.sourceAddress .doneAck).2 := hp
          cases hsent hack
        | false =>
          rw [hdone] at hp
          exact (OtaPacket.status.inj (hsent hp)).symm
    | abort =>
      have hack : p ∈ onAir (loraTransmit (fresh lora) packet.source .abortAck).2 := hp
      cases hsent hack
    | _ => exact (hquiet hp).elim

/-- Short of an Init, the blocks a node has taken stay taken. -/
theorem Watched.mem_step {M : Type} [OtaMemoryDelegate M] {w : Watched M} {packet : LoRaPacket}
    (h : ¬ Opens packet) {i : UInt16} (hi : i ∈ w.accepted) : i ∈ (w.step packet).accepted := by
  simp only [Watched.step]
  split
  · next init hm => exact absurd ⟨init, hm⟩ h
  · exact List.mem_append_left _ hi

/-! ## The invariant -/

/-- A status that claims no more than the blocks taken. -/
def Backed (accepted : List UInt16) (status : OtaStatusPacket) : Prop :=
  (∀ i ∈ status.receivedIndexes.toList, i ∈ accepted) ∧
    Contiguous (indexSet accepted) status.validUpToIndex.toNat

theorem Backed.mono {l l' : List UInt16} {status : OtaStatusPacket} (h : Backed l status)
    (hl : ∀ i ∈ l, i ∈ l') : Backed l' status :=
  ⟨fun i hi => hl i (h.1 i hi), h.2.mono (Watched.indexSet_mono hl)⟩

theorem Watched.Truthful.backed {M : Type} {w : Watched M} (h : w.Truthful) :
    Backed w.accepted w.consumer.getStatus := ⟨h.window, h.contiguous⟩

namespace Exchange

variable {M : Type}

/-- An Init may still reach the node and clear its books. -/
def Pending (s : Exchange M) : Prop := s.control.Opening ∨ ∃ p ∈ s.toNode, Opens p

/-- Nothing has been acknowledged yet, nor will be by what is on the air. -/
structure Untouched (s : Exchange M) : Prop where
  outstanding : ∀ i ∈ s.transmitted, i ∈ s.producer.notAckedIndexes.toList
  lastAcked : s.producer.lastAckedIndex = 0
  silent : ∀ p ∈ s.toGateway, ∀ status, fromBytes p.payload ≠ some (.status status)

structure Sound (s : Exchange M) : Prop where
  node : s.node.Truthful
  nodup : s.producer.notAckedIndexes.toList.Nodup
  acked : ∀ i ∈ s.transmitted, i ∉ s.producer.notAckedIndexes.toList → i ∈ s.node.accepted
  lastAcked : Contiguous (indexSet s.node.accepted) s.producer.lastAckedIndex.toNat
  backed : ∀ p ∈ s.toGateway, ∀ status, fromBytes p.payload = some (.status status) →
    Backed s.node.accepted status
  -- the channel keeps the order, so every Init is ahead of the blocks
  ordered : s.toNode.Pairwise fun a b => Opens b → Opens a
  opening : s.control.Opening → ∀ p ∈ s.toNode, Opens p
  untouched : s.Pending → s.Untouched

theorem sound_start {node : Watched M} (h : node.Truthful) (params : OtaInitPacket)
    (destination : UInt32) : (start node params destination).Sound where
  node := h
  nodup := List.nodup_nil
  acked := fun _ hi => nomatch hi
  lastAcked := .zero _
  backed := fun _ hp => nomatch hp
  ordered := .nil
  opening := fun _ _ hp => nomatch hp
  untouched := fun _ => ⟨fun _ hi => (nomatch hi), rfl, fun _ hp => nomatch hp⟩

/-! ## Its steps -/

/-- A round of the request loop ends without a response. -/
theorem Sound.control {s : Exchange M} (h : s.Sound) {control : Control}
    (hc : control.Opening → s.control.Opening) : Sound { s with control } where
  node := h.node
  nodup := h.nodup
  acked := h.acked
  lastAcked := h.lastAcked
  backed := h.backed
  ordered := h.ordered
  opening := fun ho => h.opening (hc ho)
  untouched := by
    intro hp
    obtain ⟨ho, hl, hs⟩ := h.untouched (hp.imp_left hc)
    exact ⟨ho, hl, hs⟩

/-- Packets get lost, or leave the head of a channel. -/
theorem Sound.lose {s : Exchange M} (h : s.Sound) {toNode toGateway : List LoRaPacket}
    (hn : toNode.Sublist s.toNode) (hg : toGateway.Sublist s.toGateway) :
    Sound { s with toNode, toGateway } where
  node := h.node
  nodup := h.nodup
  acked := h.acked
  lastAcked := h.lastAcked
  backed := fun p hp => h.backed p (hg.subset hp)
  ordered := h.ordered.sublist hn
  opening := fun ho p hp => h.opening ho p (hn.subset hp)
  untouched := by
    intro hp
    obtain ⟨ho, hl, hs⟩ := h.untouched (hp.imp_right fun ⟨p, hp, hi⟩ => ⟨p, hn.subset hp, hi⟩)
    exact ⟨ho, hl, fun p hp => hs p (hg.subset hp)⟩

/-- The gateway puts packets on the air, Inits only while it opens the session. -/
theorem Sound.send {s : Exchange M} (h : s.Sound) {packets : List LoRaPacket}
    (hopen : s.control.Opening → ∀ p ∈ packets, Opens p)
    (hinit : ∀ p ∈ packets, Opens p → s.control.Opening) :
    Sound { s with toNode := s.toNode ++ packets } where
  node := h.node
  nodup := h.nodup
  acked := h.acked
  lastAcked := h.lastAcked
  backed := h.backed
  ordered := by
    have hall : ∀ a ∈ s.toNode, ∀ b ∈ packets, Opens b → Opens a :=
      fun a ha b hb hi => h.opening (hinit b hb hi) a ha
    refine List.pairwise_append.mpr ⟨h.ordered, ?_, hall⟩
    apply List.pairwise_of_forall_mem_list
    intro a ha b hb hi
    exact hopen (hinit b hb hi) a ha
  opening := by
    intro ho p hp
    rcases List.mem_append.mp hp with hp | hp
    · exact h.opening ho p hp
    · exact hopen ho p hp
  untouched := by
    intro hp
    have hpending : s.Pending := by
      rcases hp with ho | ⟨p, hp, hi⟩
      · exact Or.inl ho
      · rcases List.mem_append.mp hp with hp | hp
        · exact Or.inr ⟨p, hp, hi⟩
        · exact Or.inl (hinit p hp hi)
    obtain ⟨ho, hl, hs⟩ := h.untouched hpending
    exact ⟨ho, hl, hs⟩

/-- A packet that the node sent reaches the producer. -/
theorem Sound.respond {s : Exchange M} (h : s.Sound) {p : LoRaPacket} (hp : p ∈ s.toGateway)
    {m : OtaPacket} (hm : fromBytes p.payload = some m) {producer : OtaProducer}
    {r : Except OtaError Schema.GatewayPacket}
    (hr : s.producer.processResponse m = some (r, producer)) :
    Sound { s with producer } := by
  rcases OtaProducer.processResponse_marks hr with ⟨hn, hl⟩ | ⟨status, rfl, hn, hl⟩
  · refine ⟨h.node, by rw [hn]; exact h.nodup, by simp only [hn]; exact h.acked,
      by rw [hl]; exact h.lastAcked, h.backed, h.ordered, h.opening, ?_⟩
    intro hpending
    obtain ⟨ho, hl', hs⟩ := h.untouched hpending
    exact ⟨by simp only [hn]; exact ho, hl.trans hl', hs⟩
  · obtain ⟨hrec, hupto⟩ := h.backed p hp status hm
    obtain ⟨hnodup, hmem⟩ := OtaProducer.mem_acknowledge h.nodup status.receivedIndexes.toList
    refine ⟨h.node, by rw [hn]; exact hnodup, ?_, by rw [hl]; exact hupto, h.backed, h.ordered,
      h.opening, fun hpending => absurd hm ((h.untouched hpending).silent p hp status)⟩
    intro i hi hnot
    simp only [hn, hmem, not_and, not_not] at hnot
    by_cases hin : i ∈ s.producer.notAckedIndexes.toList
    · exact hrec i (hnot hin)
    · exact h.acked i hi hin

/-- A block goes out. -/
theorem Sound.record {s : Exchange M} (h : s.Sound) {index : UInt16} {producer : OtaProducer}
    (hr : s.producer.recordSent index = some producer) :
    Sound { s with producer, transmitted := s.transmitted ++ [index] } := by
  have hlast := congrArg OtaProducer.lastAckedIndex (OtaProducer.recordSent_eq_some hr).1
  obtain ⟨hnodup, hmem⟩ := OtaProducer.mem_recordSent hr h.nodup
  refine ⟨h.node, hnodup, ?_, by rw [hlast]; exact h.lastAcked, h.backed, h.ordered, h.opening, ?_⟩
  · intro i hi hnot
    rw [hmem, not_or] at hnot
    rcases List.mem_append.mp hi with hi | hi
    · exact h.acked i hi hnot.1
    · exact absurd (List.mem_singleton.mp hi) hnot.2
  · intro hpending
    obtain ⟨ho, hl, hs⟩ := h.untouched hpending
    refine ⟨?_, hlast.trans hl, hs⟩
    intro i hi
    rw [hmem]
    exact (List.mem_append.mp hi).imp (ho i) List.mem_singleton.mp

variable [OtaMemoryDelegate M]

/-- The node takes the packet at the head of its channel. -/
theorem Sound.deliver {s : Exchange M} (h : s.Sound) {packet : LoRaPacket}
    {toNode : List LoRaPacket} (hhead : s.toNode = packet :: toNode) (lora : ModuleLoRa) :
    Sound { s with
      node := Watched.step { s.node with lora := fresh lora } packet
      toNode
      toGateway := s.toGateway ++
        onAir (Watched.step { s.node with lora := fresh lora } packet).lora } := by
  have hnode : Watched.Truthful { s.node with lora := fresh lora } :=
    ⟨h.node.lt, h.node.window, h.node.contiguous⟩
  have hn := hnode.step packet
  have hmem : packet ∈ s.toNode := by rw [hhead]; exact List.mem_cons_self
  have hsub : toNode.Sublist s.toNode := by rw [hhead]; exact List.sublist_cons_self ..
  by_cases hi : Opens packet
  · obtain ⟨ho, hl, hs⟩ := h.untouched (Or.inr ⟨packet, hmem, hi⟩)
    -- the node forgets its blocks, but nothing rests on them yet
    have hsilent : ∀ p ∈ s.toGateway ++
        onAir (Watched.step { s.node with lora := fresh lora } packet).lora,
        ∀ status, fromBytes p.payload ≠ some (.status status) := by
      intro p hp status hst
      rcases List.mem_append.mp hp with hp | hp
      · exact hs p hp status hst
      · exact (OtaConsumer.processMessage_status hp hst).2 hi
    exact ⟨hn, h.nodup, fun i hi hnot => absurd (ho i hi) hnot, by rw [hl]; exact .zero _,
      fun p hp status hst => absurd hst (hsilent p hp status), h.ordered.sublist hsub,
      fun hc p hp => h.opening hc p (hsub.subset hp), fun _ => ⟨ho, hl, hsilent⟩⟩
  · have hmono : ∀ i ∈ s.node.accepted,
        i ∈ (Watched.step { s.node with lora := fresh lora } packet).accepted :=
      fun i hin => Watched.mem_step hi hin
    have hlater : ∀ p ∈ toNode, ¬ Opens p := by
      have hord := h.ordered
      rw [hhead] at hord
      intro p hp hip
      exact hi (List.rel_of_pairwise_cons hord hp hip)
    have hclosed : ¬ s.control.Opening := fun hc => hi (h.opening hc packet hmem)
    refine ⟨hn, h.nodup, fun i hin hnot => hmono i (h.acked i hin hnot),
      h.lastAcked.mono (Watched.indexSet_mono hmono), ?_, h.ordered.sublist hsub,
      fun hc => absurd hc hclosed, ?_⟩
    · intro p hp status hst
      rcases List.mem_append.mp hp with hp | hp
      · exact (h.backed p hp status hst).mono hmono
      · rw [(OtaConsumer.processMessage_status hp hst).1]
        exact hn.backed
    · rintro (hc | ⟨p, hp, hip⟩)
      · exact absurd hc hclosed
      · exact absurd hip (hlater p hp)

theorem Sound.transmit {s s' : Exchange M} (h : s.Sound) {lora : ModuleLoRa}
    (hstep : s.step (.transmit lora) = some s') : s'.Sound := by
  simp only [Exchange.step] at hstep
  split at hstep
  · next m left hc =>
    split at hstep
    · next lora' ht =>
      cases hstep
      have hair : ∀ p ∈ onAir lora', fromBytes p.payload = some m := by
        intro p hp
        apply onAir_loraTransmit
        rwa [ht]
      have hsent : Sound { s with toNode := s.toNode ++ onAir lora' } := by
        apply h.send
        · rw [hc]
          rintro ⟨init, rfl⟩ p hp
          exact ⟨init, hair p hp⟩
        · rw [hc]
          rintro p hp ⟨init, hi⟩
          exact ⟨init, Option.some.inj ((hair p hp).symm.trans hi)⟩
      exact hsent.control (by rw [hc]; exact id)
    · cases hstep
      exact h.control False.elim
  · cases hstep

/-- The head of the gateway's channel goes to the producer, which takes it as a
message in the main loop and as the response in the request loop. -/
theorem Sound.receive {s s' : Exchange M} (h : s.Sound)
    (hstep : s.step .receive = some s') : s'.Sound := by
  simp only [Exchange.step] at hstep
  cases hg : s.toGateway with
  | nil =>
    rw [hg] at hstep
    cases hstep
  | cons packet rest =>
    have hmem : packet ∈ s.toGateway := by rw [hg]; exact List.mem_cons_self
    have hsub : rest.Sublist s.toGateway := by rw [hg]; exact List.sublist_cons_self ..
    rw [hg] at hstep
    cases hc : s.control with
    | idle =>
      rw [hc] at hstep
      obtain ⟨⟨r, producer⟩, hr, he⟩ := Option.map_eq_some_iff.mp hstep
      cases he
      unfold OtaProducer.processResponseRaw at hr
      split at hr
      · cases hr
        exact (h.lose (List.Sublist.refl _) hsub).control False.elim
      · next m hm =>
        exact ((h.respond hmem hm hr).lose (List.Sublist.refl _) hsub).control False.elim
    | receive m left =>
      rw [hc] at hstep
      simp only at hstep
      split at hstep
      · next resp hm =>
        obtain ⟨⟨r, producer⟩, hr, he⟩ := Option.map_eq_some_iff.mp hstep
        cases he
        exact ((h.respond hmem hm hr).lose (List.Sublist.refl _) hsub).control False.elim
      · cases hstep
        exact (h.lose (List.Sublist.refl _) hsub).control
          (by rw [hc]; exact Control.opening_again)
    | transmit m left =>
      rw [hc] at hstep
      cases hstep

theorem Sound.data {s s' : Exchange M} (h : s.Sound) {lora : ModuleLoRa} {data : OtaDataPacket}
    (hstep : s.step (.data lora data) = some s') : s'.Sound := by
  simp only [Exchange.step] at hstep
  split at hstep
  · next hc =>
    obtain ⟨⟨r, producer, lora'⟩, hr, he⟩ := Option.map_eq_some_iff.mp hstep
    rcases OtaProducer.continueDownload_eq_some hr with ⟨rfl, hp⟩ | ⟨rfl, rfl⟩
    · cases he
      have hair : ∀ p ∈ onAir lora', fromBytes p.payload = some (.data data) := by
        intro p hp
        apply onAir_loraTransmit
        rwa [OtaProducer.continueDownload_lora hr] at hp
      apply (h.record hp).send
      · rw [hc]
        exact False.elim
      · rintro p hp ⟨init, hi⟩
        rw [hair p hp] at hi
        cases hi
    · cases he
      exact h
  · cases hstep

/-- **Step lemma.** -/
theorem Sound.step {s s' : Exchange M} (h : s.Sound) {e : ExchangeEvent}
    (hstep : s.step e = some s') : s'.Sound := by
  cases e with
  | transmit lora => exact h.transmit hstep
  | timeout =>
    simp only [Exchange.step] at hstep
    split at hstep
    · next m left hc =>
      cases hstep
      exact h.control (by rw [hc]; exact Control.opening_again)
    · cases hstep
  | receive => exact h.receive hstep
  | data lora data => exact h.data hstep
  | done =>
    simp only [Exchange.step] at hstep
    split at hstep
    · cases hstep
      exact h.control (fun ho => by obtain ⟨_, hi⟩ := ho; cases hi)
    · cases hstep
  | abort =>
    simp only [Exchange.step] at hstep
    split at hstep
    · cases hstep
      exact h.control (fun ho => by obtain ⟨_, hi⟩ := ho; cases hi)
    · cases hstep
  | deliver lora =>
    simp only [Exchange.step] at hstep
    split at hstep
    · cases hstep
    · next packet rest hn =>
      cases hstep
      exact h.deliver hn lora
  | loseToNode i =>
    cases hstep
    exact h.lose (List.eraseIdx_sublist ..) (List.Sublist.refl _)
  | loseToGateway i =>
    cases hstep
    exact h.lose (List.Sublist.refl _) (List.eraseIdx_sublist ..)

end Exchange

/-! ## The request loop -/

theorem transmit_fresh (lora : ModuleLoRa) (p : LoRaPacket) :
    ((fresh lora).transmit p).1 = (lora.transmit p).1 := by
  simp only [ModuleLoRa.transmit, ModuleLoRa.buildFrame_eq, ModuleLoRa.tx, fresh]
  rcases lora.txResults with _ | ⟨_ | ⟨⟩, rest⟩ <;> rfl

namespace Exchange

variable {M : Type} [OtaMemoryDelegate M]

/-- The transmission that opens a round. -/
theorem step_transmit {s : Exchange M} {m : OtaPacket} {left : Nat}
    (hc : s.control = .transmit m left) {payload : Payload} (hp : toVec m = some payload)
    (lora : ModuleLoRa) :
    ∃ toNode, s.step (.transmit lora) = some { s with
      control := match (lora.transmit { LoRaPacket.new s.producer.destinationAddress .ota with
          payload }).1 with
        | .ok () => .receive m left
        | .error _ => .idle
      toNode } := by
  rw [← transmit_fresh]
  simp only [step, hc, loraTransmit, hp]
  rcases (fresh lora).transmit _ with ⟨_ | ⟨⟩, l⟩
  · exact ⟨s.toNode, rfl⟩
  · exact ⟨_, rfl⟩

/-- The rounds of `lora_transmit_until_response` are rounds of the exchange. -/
theorem run_transmitLoop {m : OtaPacket} {payload : Payload} (hp : toVec m = some payload)
    {n : Nat} {last : Option OtaError} {s : Exchange M} {lora lora' : ModuleLoRa}
    {res : Except OtaError OtaPacket} (hc : s.control = .again m n)
    (h : transmitLoop { LoRaPacket.new s.producer.destinationAddress .ota with payload }
      n last lora = some (res, lora')) :
    ∃ events control toNode, runOpt step s events = some { s with control, toNode } ∧
      (∀ e, res = .error e → control = .idle) ∧
      (∀ resp, res = .ok resp → ∃ left, control = .receive m left) := by
  induction n generalizing last s lora with
  | zero =>
    obtain ⟨e, _, he⟩ := Option.map_eq_some_iff.mp h
    cases he
    refine ⟨[], s.control, s.toNode, rfl, fun _ _ => hc, ?_⟩
    intro _ hr
    cases hr
  | succ n ih =>
    obtain ⟨toNode, hstep⟩ := step_transmit hc hp lora
    rcases transmitRound_cases { LoRaPacket.new s.producer.destinationAddress .ota with payload }
      lora with ⟨_, hsend, hround⟩ | ⟨_, resp, hsend, _, _, hround⟩ | ⟨e, hsend, _, hround⟩
    · rw [hsend] at hstep
      rw [transmitLoop_stop hround] at h
      cases h
      refine ⟨[.transmit lora], .idle, toNode, runOpt_cons.mpr ⟨_, hstep, rfl⟩, fun _ _ => rfl, ?_⟩
      intro _ hr
      cases hr
    · rw [hsend] at hstep
      rw [transmitLoop_stop hround] at h
      cases h
      refine ⟨[.transmit lora], .receive m n, toNode, runOpt_cons.mpr ⟨_, hstep, rfl⟩, ?_,
        fun _ _ => ⟨n, rfl⟩⟩
      intro _ hr
      cases hr
    · -- a round without a response is a timeout, whatever it was that went wrong
      rw [hsend] at hstep
      rw [transmitLoop_again hround] at h
      obtain ⟨events, control, toNode', hrun, hend⟩ :=
        ih (s := { s with control := .again m n, toNode }) rfl h
      refine ⟨.transmit lora :: .timeout :: events, control, toNode', ?_, hend⟩
      exact runOpt_cons.mpr ⟨_, hstep, runOpt_cons.mpr ⟨_, rfl, hrun⟩⟩

/-- A request of the producer is a run of the exchange: it fails and leaves the
producer alone, or it takes a response from the head of the gateway's channel. -/
theorem run_request {s : Exchange M} {m : OtaPacket} {producer : OtaProducer}
    {lora lora' : ModuleLoRa} {r : Except OtaError Schema.GatewayPacket}
    (hc : s.control = .again m 10) (h : s.producer.request lora m = some (r, producer, lora')) :
    (∃ events toNode, producer = s.producer ∧
      runOpt step s events = some { s with control := .idle, toNode }) ∨
    (∃ packet, lora.Hears packet ∧ ∀ toGateway, s.toGateway = packet :: toGateway →
      ∃ events toNode, runOpt step s events =
        some { s with control := .idle, producer, toNode, toGateway }) := by
  obtain ⟨payload, hp⟩ := toVec_isSome m
  have hrounds := loraTransmitUntilResponse_eq hp lora s.producer.destinationAddress 10
  rcases OtaProducer.request_cases h with ⟨e, hloop, _, rfl⟩ | ⟨resp, hloop, hr⟩
  · obtain ⟨events, control, toNode, hrun, herr, _⟩ :=
      run_transmitLoop hp hc (hrounds.symm.trans hloop)
    rw [herr e rfl] at hrun
    exact Or.inl ⟨events, toNode, rfl, hrun⟩
  · obtain ⟨events, control, toNode, hrun, _, hok⟩ :=
      run_transmitLoop hp hc (hrounds.symm.trans hloop)
    obtain ⟨left, rfl⟩ := hok resp rfl
    obtain ⟨packet, hpacket, hd⟩ := loraTransmitUntilResponse_ok hloop
    refine Or.inr ⟨packet, hpacket, ?_⟩
    intro toGateway hhead
    refine ⟨events ++ [.receive], toNode, runOpt_append.mpr ⟨_, hrun, ?_⟩⟩
    apply runOpt_cons.mpr
    refine ⟨_, ?_, rfl⟩
    simp only [step, hhead, hd, hr, Option.map_some]

end Exchange

/-! ## Acknowledgements -/

/-- In every reachable state, the blocks that were transmitted and are no
longer outstanding, and all blocks up to a frontier above zero, have been
written by the node since its latest Init. -/
theorem acknowledgements_sound {M : Type} [OtaMemoryDelegate M] (memory : M) (lora : ModuleLoRa)
    (history : List LoRaPacket) (params : OtaInitPacket) (destination : UInt32)
    (events : List ExchangeEvent) (s : Exchange M)
    (hrun : runOpt Exchange.step (Exchange.start
      (run Watched.step (Watched.start memory lora) history) params destination) events = some s) :
    (∀ i ∈ s.transmitted, i ∉ s.producer.notAckedIndexes.toList → i ∈ s.node.accepted) ∧
      (0 < s.producer.lastAckedIndex → ∀ i ≤ s.producer.lastAckedIndex, i ∈ s.node.accepted) := by
  have hnode := (Watched.truthful_start memory lora).run history
  have hsound : s.Sound := runOpt_invariant (A := fun _ => True)
    (fun _ _ _ h _ hstep => h.step hstep) (Exchange.sound_start hnode params destination)
    (fun _ _ => trivial) hrun
  refine ⟨hsound.acked, ?_⟩
  intro hpos i hi
  have hpos' : 0 < s.producer.lastAckedIndex.toNat := UInt16.lt_iff_toNat_lt.mp hpos
  exact toNat_mem_indexSet.mp (hsound.lastAcked hpos' i.toNat (UInt16.le_iff_toNat_le.mp hi))

open ModuleNode in
/-- Two blocks, with the first InitAck and the first status lost. -/
theorem acknowledgements_sound_two_blocks :
    let air := ModuleLoRa.quiet 0
    let block (i : UInt16) := ExchangeEvent.data air ⟨i, ⟨List.replicate 64 1, by decide⟩⟩
    let node := run Watched.step (Watched.start OtaMemory.new air) []
    ∃ s, runOpt Exchange.step (Exchange.start node ⟨128, .replicate 32 0, 64, 2⟩ 3)
        [.transmit air, .deliver air, .loseToGateway 0, .timeout, .transmit air, .deliver air,
          .receive, block 0, block 1, .deliver air, .loseToGateway 0, .deliver air, .receive] =
          some s ∧
      s.transmitted = [0, 1] ∧ s.producer.notAckedIndexes.toList = [] ∧
      (∀ i ∈ s.transmitted, i ∉ s.producer.notAckedIndexes.toList → i ∈ s.node.accepted) ∧
      (0 < s.producer.lastAckedIndex → ∀ i ≤ s.producer.lastAckedIndex, i ∈ s.node.accepted) := by
  intro air block node
  have hrun : ∃ s, runOpt Exchange.step (Exchange.start node ⟨128, .replicate 32 0, 64, 2⟩ 3)
        [.transmit air, .deliver air, .loseToGateway 0, .timeout, .transmit air, .deliver air,
          .receive, block 0, block 1, .deliver air, .loseToGateway 0, .deliver air, .receive] =
          some s ∧
      s.transmitted = [0, 1] ∧ s.producer.notAckedIndexes.toList = [] := by
    decide +kernel
  obtain ⟨s, hrun, hsent, hacked⟩ := hrun
  exact ⟨s, hrun, hsent, hacked, acknowledgements_sound _ _ _ _ _ _ s hrun⟩

end LoraModuleFw.Ota
