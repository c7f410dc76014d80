import LoraModuleFw.Frames
import LoraModuleFw.Ota.Exchange

/-! The gateway of an exchange is the producer with its radio: whatever it does, round
by round, calls of the producer do as a whole over some radio that hears the same. -/

namespace LoraModuleFw.Ota

open Lora Runs Postcard

/-- The frame, where one came. -/
def bytesOf : RadioEvent → Option Bytes
  | .frame bytes => some bytes
  | _ => none

/-! ## Calls of the producer -/

/-- What the gateway calls its producer for; `listen` hands it what the radio hears. -/
inductive Call where
  | init
  | data (data : OtaDataPacket)
  | done
  | abort
  | listen
  deriving DecidableEq

namespace OtaProducer

def call : OtaProducer × ModuleLoRa → Call → Option (OtaProducer × ModuleLoRa)
  | (p, lora), .init => (p.initDownload lora).map (·.2)
  | (p, lora), .data data => (p.continueDownload lora data).map (·.2)
  | (p, lora), .done => (p.doneDownload lora).map (·.2)
  | (p, lora), .abort => (p.abortDownload lora).map (·.2)
  | (p, lora), .listen =>
    match lora.receiveContinuous with
    | (some (.ok packet), lora) => (p.processResponseRaw packet).map fun (_, p) => (p, lora)
    | (_, lora) => some (p, lora)

/-- What a request does with the result of its loop. -/
def answer (p : OtaProducer) :
    Except OtaError OtaPacket × ModuleLoRa → Option (OtaProducer × ModuleLoRa)
  | (.error _, lora) => some (p, lora)
  | (.ok resp, lora) => (p.processResponse resp).map fun (_, p) => (p, lora)

/-- What is left of the request that the gateway is in. -/
def resume (p : OtaProducer) (lora : ModuleLoRa) : Control → Option (OtaProducer × ModuleLoRa)
  | .idle => some (p, lora)
  | .transmit m left =>
    (transmitLoop (m.packet 0 p.destinationAddress) (left + 1) none lora).bind p.answer
  | .receive m left =>
    match lora.receiveSingle with
    | (.ok packet, lora) =>
      match fromBytes packet.payload with
      | some resp => p.answer (.ok resp, lora)
      | none => (transmitLoop (m.packet 0 p.destinationAddress) left (some .deserialize) lora).bind
          p.answer
    | (.error _, lora) =>
      (transmitLoop (m.packet 0 p.destinationAddress) left (some .receive) lora).bind p.answer

end OtaProducer

/-! ## What the gateway of an exchange does -/

namespace Exchange

variable {M : Type}

/-- The call that begins. -/
def calls (s : Exchange M) : ExchangeEvent → List Call
  | .data _ data => [.data data]
  | .done => [.done]
  | .abort => [.abort]
  | .receive => if s.control = .idle then [.listen] else []
  | _ => []

/-- What it puts on the air. -/
def puts (s : Exchange M) : ExchangeEvent → List LoRaPacket
  | .transmit lora =>
    match s.control with
    | .transmit m _ => onAir (loraTransmit (fresh lora) s.producer.destinationAddress m).2
    | _ => []
  | .data lora data =>
    onAir (loraTransmit (fresh lora) s.producer.destinationAddress (.data data)).2
  | _ => []

/-- What it takes in. -/
def takes (s : Exchange M) : ExchangeEvent → List LoRaPacket
  | .receive => s.toGateway.take 1
  | _ => []

/-- The gateway transmits from its own address, and takes in what its radio lets through. -/
def AtRadio (address : UInt32) (s : Exchange M) : ExchangeEvent → Prop
  | .transmit lora | .data lora _ => lora.address = address
  | .receive => ∀ packet ∈ s.toGateway.head?, packet.Sendable ∧ packet.destination = address
  | _ => True

instance (p : LoRaPacket) : Decidable p.Sendable :=
  decidable_of_iff (_ ∧ _ ∧ _)
    ⟨fun ⟨hp, hs, hd⟩ => ⟨hp, hs, hd⟩, fun ⟨hp, hs, hd⟩ => ⟨hp, hs, hd⟩⟩

instance (address : UInt32) (s : Exchange M) : DecidablePred (s.AtRadio address)
  | .transmit lora => inferInstanceAs (Decidable (lora.address = address))
  | .data lora _ => inferInstanceAs (Decidable (lora.address = address))
  | .receive => inferInstanceAs (Decidable (∀ packet ∈ s.toGateway.head?, _ ∧ _))
  | .timeout | .done | .abort | .deliver _ | .loseToNode _ | .loseToGateway _ => .isTrue trivial

end Exchange

/-! ## The radio of the gateway -/

/-- The radio with this to come, and this sent already. -/
def radio (gateway : ModuleLoRa) (txResults : List (Except RadioError Unit))
    (rxEvents : List RadioEvent) (sent : List Transmission) : ModuleLoRa :=
  { gateway with txResults, rxEvents, sent }

/-- Whoever sent, with the driver's answer to it the gateway's own radio does the same. -/
theorem transmit_replay {lora gateway : ModuleLoRa} (haddr : lora.address = gateway.address)
    (p : LoRaPacket) : ∃ r, ((fresh lora).transmit p).1 = r ∧
      ∀ txResults rxEvents sent, ∃ sent',
        (radio gateway (r :: txResults) rxEvents sent).transmit p =
          (r, radio gateway txResults rxEvents sent') ∧
        sent'.map (·.packet) = sent.map (·.packet) ++ onAir ((fresh lora).transmit p).2 := by
  simp only [ModuleLoRa.transmit, ModuleLoRa.buildFrame_eq, ModuleLoRa.tx, fresh, haddr, onAir,
    radio]
  rcases lora.txResults with _ | ⟨e | ⟨⟩, rest⟩
  · refine ⟨.ok (), rfl, fun txResults rxEvents sent => ⟨_, rfl, List.map_append ..⟩⟩
  · refine ⟨.error e, rfl, fun txResults rxEvents sent => ⟨_, rfl, ?_⟩⟩
    exact (List.append_nil _).symm
  · refine ⟨.ok (), rfl, fun txResults rxEvents sent => ⟨_, rfl, List.map_append ..⟩⟩

section
variable {gateway : ModuleLoRa} {packet : LoRaPacket} (hsend : packet.Sendable)
  (hdest : packet.destination = gateway.address) (txResults : List (Except RadioError Unit))
  (rxEvents : List RadioEvent) (sent : List Transmission)
include hsend hdest

/-- A frame of a packet for the gateway is what it receives next. -/
theorem receiveAddressed_radio :
    (radio gateway txResults (.frame (gateway.frameOf packet) :: rxEvents) sent).receiveAddressed
      (.frame (gateway.frameOf packet) :: rxEvents) = (some (.ok packet), rxEvents) := by
  have hr : (radio gateway txResults (.frame (gateway.frameOf packet) :: rxEvents) sent).receive
      (gateway.frameOf packet) = .ok packet := ModuleLoRa.receive_eq_ok.mpr ⟨hsend, rfl⟩
  unfold ModuleLoRa.receiveAddressed
  rw [hr]
  exact if_pos hdest

theorem receiveContinuous_radio :
    (radio gateway txResults (.frame (gateway.frameOf packet) :: rxEvents) sent).receiveContinuous =
      (some (.ok packet), radio gateway txResults rxEvents sent) := by
  have hnext := receiveAddressed_radio hsend hdest txResults rxEvents sent
  exact congrArg (fun r => (r.1, radio gateway txResults r.2 sent)) hnext

theorem receiveSingle_radio :
    (radio gateway txResults (.frame (gateway.frameOf packet) :: rxEvents) sent).receiveSingle =
      (.ok packet, radio gateway txResults rxEvents sent) := by
  have hnext := receiveAddressed_radio hsend hdest txResults rxEvents sent
  unfold ModuleLoRa.receiveSingle
  split
  · next heq =>
    cases heq.symm.trans hnext
    rfl
  · next heq => cases heq.symm.trans hnext

end

/-! ## Requests, stage by stage -/

namespace OtaProducer

/-- Rounds to go are a request that is about to send. -/
theorem resume_again (p : OtaProducer) (lora : ModuleLoRa) (m : OtaPacket) (n : Nat)
    (e : OtaError) :
    (transmitLoop (m.packet 0 p.destinationAddress) n (some e) lora).bind p.answer =
      p.resume lora (.again m n) := by
  cases n <;> rfl

theorem request_eq (p : OtaProducer) (lora : ModuleLoRa) (m : OtaPacket) :
    (p.request lora m).map (·.2) = p.resume lora (.again m 10) := by
  unfold request
  rw [loraTransmitUntilResponse_eq (m.toVec_packet 0 p.destinationAddress), Option.map_bind]
  congr 1
  funext ⟨res, l⟩
  cases res with
  | error e => rfl
  | ok resp =>
    simp only [answer, Function.comp_apply, Option.map_map]
    rfl

end OtaProducer

/-- Over some answers and events of the gateway's radio, the producer goes on from `control`
with these calls, sends and hears just these packets, and ends as `p'`. -/
def Carried (gateway : ModuleLoRa) (p' : OtaProducer) (control : Control) (p : OtaProducer)
    (calls : List Call) (puts takes : List LoRaPacket) : Prop :=
  ∃ txResults rxEvents, rxEvents.filterMap bytesOf = takes.map gateway.frameOf ∧
    ∀ sent, ∃ lora', (p.resume (radio gateway txResults rxEvents sent) control).bind
        (runOpt OtaProducer.call · calls) = some (p', lora') ∧
      onAir lora' = sent.map (·.packet) ++ puts

namespace Carried

variable {gateway : ModuleLoRa} {p p' : OtaProducer} {calls : List Call}
  {puts takes : List LoRaPacket}

theorem nil : Carried gateway p .idle p [] [] [] :=
  ⟨[], [], rfl, fun _ => ⟨_, rfl, (List.append_nil _).symm⟩⟩

/-- A round sends its request, or the radio refuses it and the request has failed. -/
theorem transmit {lora : ModuleLoRa} (haddr : lora.address = gateway.address) {m : OtaPacket}
    {left : Nat} {control : Control}
    (hcontrol : control = match (loraTransmit (fresh lora) p.destinationAddress m).1 with
      | .ok () => .receive m left
      | .error _ => .idle)
    (h : Carried gateway p' control p calls puts takes) :
    Carried gateway p' (.transmit m left) p calls
      (onAir (loraTransmit (fresh lora) p.destinationAddress m).2 ++ puts) takes := by
  obtain ⟨txResults, rxEvents, hheard, h⟩ := h
  obtain ⟨r, hr, hreplay⟩ := transmit_replay haddr (m.packet 0 p.destinationAddress)
  rw [loraTransmit_eq] at hcontrol ⊢
  refine ⟨r :: txResults, rxEvents, hheard, fun sent => ?_⟩
  obtain ⟨sent', hsend, hsent⟩ := hreplay txResults rxEvents sent
  obtain ⟨lora', hrun, hair⟩ := h sent'
  refine ⟨lora', ?_, by rw [hair, hsent, List.append_assoc]⟩
  rw [← hrun, hcontrol, hr, OtaProducer.resume, transmitLoop, hsend]
  rcases r with e | ⟨⟩
  · rfl
  · dsimp only [OtaProducer.resume, Except.mapError]
    rcases ModuleLoRa.receiveSingle _ with ⟨e | packet, l⟩
    · rfl
    · dsimp only
      cases fromBytes packet.payload <;> rfl

/-- The timer of a round fires. -/
theorem timeout {m : OtaPacket} {left : Nat}
    (h : Carried gateway p' (.again m left) p calls puts takes) :
    Carried gateway p' (.receive m left) p calls puts takes := by
  obtain ⟨txResults, rxEvents, hheard, h⟩ := h
  refine ⟨txResults, .timeout :: rxEvents, hheard, fun sent => ?_⟩
  obtain ⟨lora', hrun, hair⟩ := h sent
  refine ⟨lora', ?_, hair⟩
  rw [← hrun, ← p.resume_again _ m left .receive]
  rfl

/-- One more packet is heard. -/
theorem hear {packet : LoRaPacket} {control control' : Control} {calls' : List Call}
    {next : OtaProducer} (hstep : ∀ txResults rxEvents sent,
      (p.resume (radio gateway txResults (.frame (gateway.frameOf packet) :: rxEvents) sent)
          control').bind
        (runOpt OtaProducer.call · calls') =
      (next.resume (radio gateway txResults rxEvents sent) control).bind
        (runOpt OtaProducer.call · calls))
    (h : Carried gateway p' control next calls puts takes) :
    Carried gateway p' control' p calls' puts (packet :: takes) := by
  obtain ⟨txResults, rxEvents, hheard, h⟩ := h
  refine ⟨txResults, .frame (gateway.frameOf packet) :: rxEvents, ?_, fun sent => ?_⟩
  · rw [List.filterMap_cons, List.map_cons, hheard]
    rfl
  · rw [hstep]
    exact h sent

/-- What is heard in a round answers the request, unless it is not a message. -/
theorem response {packet : LoRaPacket} (hsend : packet.Sendable)
    (hdest : packet.destination = gateway.address) {m : OtaPacket} {left : Nat}
    {control : Control} {next : OtaProducer}
    (hnext : match fromBytes packet.payload with
      | some resp => control = .idle ∧ ∃ r, p.processResponse resp = some (r, next)
      | none => control = .again m left ∧ next = p)
    (h : Carried gateway p' control next calls puts takes) :
    Carried gateway p' (.receive m left) p calls puts (packet :: takes) := by
  apply h.hear
  intro txResults rxEvents sent
  rw [OtaProducer.resume, receiveSingle_radio hsend hdest]
  dsimp only
  cases hm : fromBytes packet.payload with
  | some resp =>
    rw [hm] at hnext
    obtain ⟨rfl, r, hr⟩ := hnext
    simp only [OtaProducer.answer, hr, OtaProducer.resume, Option.map_some]
  | none =>
    rw [hm] at hnext
    obtain ⟨rfl, rfl⟩ := hnext
    simp only [OtaProducer.resume_again]

/-- Between requests, the producer gets what the radio hears. -/
theorem listen {packet : LoRaPacket} (hsend : packet.Sendable)
    (hdest : packet.destination = gateway.address) {r : Except OtaError Schema.GatewayPacket}
    {next : OtaProducer} (hr : p.processResponseRaw packet = some (r, next))
    (h : Carried gateway p' .idle next calls puts takes) :
    Carried gateway p' .idle p (.listen :: calls) puts (packet :: takes) := by
  apply h.hear
  intro txResults rxEvents sent
  simp only [OtaProducer.resume, Option.bind_some, runOpt, OtaProducer.call,
    receiveContinuous_radio hsend hdest, hr, Option.map_some]

theorem block {lora : ModuleLoRa} (haddr : lora.address = gateway.address) {data : OtaDataPacket}
    {r : Except OtaError Unit} {next : OtaProducer} {l : ModuleLoRa}
    (hr : p.continueDownload (fresh lora) data = some (r, next, l))
    (h : Carried gateway p' .idle next calls puts takes) :
    Carried gateway p' .idle p (.data data :: calls)
      (onAir (loraTransmit (fresh lora) p.destinationAddress (.data data)).2 ++ puts) takes := by
  obtain ⟨txResults, rxEvents, hheard, h⟩ := h
  obtain ⟨driver, hdriver, hreplay⟩ :=
    transmit_replay haddr ((OtaPacket.data data).packet 0 p.destinationAddress)
  rw [OtaProducer.continueDownload, loraTransmit_eq, hdriver] at hr
  rw [loraTransmit_eq]
  refine ⟨driver :: txResults, rxEvents, hheard, fun sent => ?_⟩
  obtain ⟨sent', hsend, hsent⟩ := hreplay txResults rxEvents sent
  obtain ⟨lora', hrun, hair⟩ := h sent'
  refine ⟨lora', ?_, by rw [hair, hsent, List.append_assoc]⟩
  rw [← hrun]
  simp only [OtaProducer.resume, Option.bind_some, runOpt, OtaProducer.call,
    OtaProducer.continueDownload, loraTransmit_eq, hsend]
  rcases driver with e | ⟨⟩
  · cases hr
    rfl
  · obtain ⟨_, hrec, he⟩ := Option.map_eq_some_iff.mp hr
    cases he
    simp only [Except.mapError, hrec, Option.map_some, Option.bind_some]

/-- A call begins a request. -/
theorem request {c : Call} {m : OtaPacket}
    (hcall : ∀ lora, OtaProducer.call (p, lora) c = (p.request lora m).map (·.2))
    (h : Carried gateway p' (.again m 10) p calls puts takes) :
    Carried gateway p' .idle p (c :: calls) puts takes := by
  obtain ⟨txResults, rxEvents, hheard, h⟩ := h
  refine ⟨txResults, rxEvents, hheard, fun sent => ?_⟩
  obtain ⟨lora', hrun, hair⟩ := h sent
  refine ⟨lora', ?_, hair⟩
  rw [← hrun, ← p.request_eq, ← hcall]
  rfl

end Carried

namespace Exchange

variable {M : Type} [OtaMemoryDelegate M] {gateway : ModuleLoRa} {p' : OtaProducer}
  {calls' : List Call} {puts' takes' : List LoRaPacket}

theorem carried_transmit {s s' : Exchange M} {lora : ModuleLoRa}
    (hs : s.step (.transmit lora) = some s') (haddr : lora.address = gateway.address)
    (h : Carried gateway p' s'.control s'.producer calls' puts' takes') :
    Carried gateway p' s.control s.producer calls' (s.puts (.transmit lora) ++ puts') takes' := by
  simp only [step] at hs
  split at hs
  · next m left hc =>
    simp only [puts, hc]
    split at hs
    · next l hair =>
      cases hs
      exact h.transmit haddr (by rw [hair])
    · next e l hair =>
      cases hs
      exact h.transmit haddr (by rw [hair])
  · cases hs

theorem carried_receive {s s' : Exchange M} (hs : s.step .receive = some s')
    (hat : ∀ packet ∈ s.toGateway.head?,
      packet.Sendable ∧ packet.destination = gateway.address)
    (h : Carried gateway p' s'.control s'.producer calls' puts' takes') :
    Carried gateway p' s.control s.producer (s.calls .receive ++ calls') puts'
      (s.toGateway.take 1 ++ takes') := by
  simp only [step] at hs
  split at hs
  · next packet toGateway hg hc =>
    obtain ⟨⟨r, producer⟩, hr, he⟩ := Option.map_eq_some_iff.mp hs
    cases he
    rw [hg] at hat ⊢
    obtain ⟨hsend, hdest⟩ := hat packet rfl
    simp only [calls, hc, if_true, List.take_succ_cons, List.take_zero]
    rw [hc] at h
    exact h.listen hsend hdest hr
  · next packet toGateway m left hg hc =>
    rw [hg] at hat ⊢
    obtain ⟨hsend, hdest⟩ := hat packet rfl
    have hbusy : s.control ≠ .idle := by
      rw [hc]
      intro hidle
      cases hidle
    simp only [calls, if_neg hbusy, List.take_succ_cons, List.take_zero]
    rw [hc]
    split at hs
    · next resp hm =>
      obtain ⟨⟨r, producer⟩, hr, he⟩ := Option.map_eq_some_iff.mp hs
      cases he
      refine h.response hsend hdest ?_
      rw [hm]
      exact ⟨rfl, r, hr⟩
    · next hm =>
      cases hs
      refine h.response hsend hdest ?_
      rw [hm]
      exact ⟨rfl, rfl⟩
  · cases hs

/-- A step of the gateway's, in front of what its calls carry out after it. -/
theorem carried_step {s s' : Exchange M} {e : ExchangeEvent} (hs : s.step e = some s')
    (hat : s.AtRadio gateway.address e)
    (h : Carried gateway p' s'.control s'.producer calls' puts' takes') :
    Carried gateway p' s.control s.producer (s.calls e ++ calls') (s.puts e ++ puts')
      (s.takes e ++ takes') := by
  cases e with
  | transmit lora => exact carried_transmit hs hat h
  | timeout =>
    simp only [step] at hs
    split at hs
    · next m left hc =>
      cases hs
      rw [hc]
      exact h.timeout
    · cases hs
  | receive => exact carried_receive hs hat h
  | data lora data =>
    simp only [step] at hs
    split at hs
    · next hc =>
      obtain ⟨⟨r, producer, l⟩, hr, he⟩ := Option.map_eq_some_iff.mp hs
      rw [hc]
      rcases r with e | ⟨⟩
      · cases he
        exact Carried.block hat hr (hc ▸ h)
      · cases he
        exact Carried.block hat hr (hc ▸ h)
    · cases hs
  | done =>
    simp only [step] at hs
    split at hs
    · next hc =>
      cases hs
      rw [hc]
      exact h.request fun _ => rfl
    · cases hs
  | abort =>
    simp only [step] at hs
    split at hs
    · next hc =>
      cases hs
      rw [hc]
      exact h.request fun _ => rfl
    · cases hs
  | deliver lora =>
    simp only [step] at hs
    split at hs
    · cases hs
    · cases hs
      exact h
  | loseToNode i =>
    cases hs
    exact h
  | loseToGateway i =>
    cases hs
    exact h

/-- The gateway's part of a run that ends between two requests. -/
theorem carried_run {s t : Exchange M} {events : List ExchangeEvent}
    (hrun : runOpt step s events = some t) (hidle : t.control = .idle)
    (hradio : AlongOpt step (AtRadio gateway.address) s events) :
    Carried gateway t.producer s.control s.producer (emitted step calls s events)
      (emitted step puts s events) (emitted step takes s events) := by
  induction events generalizing s with
  | nil =>
    cases hrun
    rw [hidle]
    exact .nil
  | cons e events ih =>
    obtain ⟨s', hs, hrun⟩ := runOpt_cons.mp hrun
    obtain ⟨hat, hradio⟩ := hradio s' hs
    rw [emitted_cons hs, emitted_cons hs, emitted_cons hs]
    exact carried_step hs hat (ih hrun hradio)

end Exchange

/-- **The gateway of an exchange is the code's.**  Whatever happens at the node and on the
channels, some radio that hears exactly what the gateway takes in makes the calls of the
run, in their order, send the same packets and end with the same producer. -/
theorem exchange_called {M : Type} [OtaMemoryDelegate M] (gateway : ModuleLoRa)
    (node : Watched M) (params : OtaInitPacket) (destination : UInt32)
    (events : List ExchangeEvent) (s : Exchange M)
    (hrun : runOpt Exchange.step (.start node params destination) events = some s)
    (hidle : s.control = .idle)
    (hradio : AlongOpt Exchange.step (Exchange.AtRadio gateway.address)
      (.start node params destination) events) :
    ∃ txResults rxEvents lora',
      rxEvents.filterMap bytesOf =
        (emitted Exchange.step Exchange.takes (.start node params destination) events).map
          gateway.frameOf ∧
      runOpt OtaProducer.call
        (.new params destination, { gateway with txResults, rxEvents, sent := [] })
        (.init :: emitted Exchange.step Exchange.calls (.start node params destination) events) =
        some (s.producer, lora') ∧
      onAir lora' =
        emitted Exchange.step Exchange.puts (.start node params destination) events := by
  have hinit : ∀ lora, OtaProducer.call (.new params destination, lora) .init =
      ((OtaProducer.new params destination).request lora (.init params)).map (·.2) := fun _ => rfl
  obtain ⟨txResults, rxEvents, hheard, hcarried⟩ :=
    Carried.request hinit (Exchange.carried_run hrun hidle hradio)
  obtain ⟨lora', hcalls, hair⟩ := hcarried []
  exact ⟨txResults, rxEvents, lora', hheard, hcalls, hair⟩

open ModuleNode in
/-- Two blocks, with the first InitAck and the first status lost. -/
theorem exchange_called_two_blocks :
    let gateway := ModuleLoRa.quiet 1
    let node := ModuleLoRa.quiet 3
    let data (i : UInt16) : OtaDataPacket := ⟨i, ⟨List.replicate 64 1, by decide⟩⟩
    let start := Exchange.start (Watched.start OtaMemory.new node) ⟨128, .replicate 32 0, 64, 2⟩ 3
    let block (i : UInt16) := ExchangeEvent.data gateway (data i)
    let events : List ExchangeEvent := [.transmit gateway, .deliver node, .loseToGateway 0,
      .timeout, .transmit gateway, .deliver node, .receive, block 0, block 1, .deliver node,
      .loseToGateway 0, .deliver node, .receive, .done, .transmit gateway, .deliver node, .receive]
    ∃ txResults rxEvents producer lora',
      (rxEvents.filterMap bytesOf).length = 3 ∧ producer.isDone = true ∧
      runOpt OtaProducer.call (start.producer, { gateway with txResults, rxEvents, sent := [] })
        [.init, .data (data 0), .data (data 1), .listen, .done] = some (producer, lora') ∧
      onAir lora' = emitted Exchange.step Exchange.puts start events := by
  intro gateway node data start block events
  have hrun : ∃ s, runOpt Exchange.step start events = some s ∧ s.control = .idle ∧
      s.producer.isDone = true := by
    decide +kernel
  have hcalls : emitted Exchange.step Exchange.calls start events =
      [.data (data 0), .data (data 1), .listen, .done] := by
    decide +kernel
  have htakes : (emitted Exchange.step Exchange.takes start events).length = 3 := by
    decide +kernel
  obtain ⟨s, hrun, hidle, hdone⟩ := hrun
  obtain ⟨txResults, rxEvents, lora', hheard, hcall, hair⟩ := exchange_called gateway
    (Watched.start OtaMemory.new node) ⟨128, .replicate 32 0, 64, 2⟩ 3 events s hrun hidle
    (by decide +kernel)
  refine ⟨txResults, rxEvents, s.producer, lora', ?_, hdone, ?_, hair⟩
  · rw [hheard, List.length_map]
    exact htakes
  · rw [← hcalls]
    exact hcall

end LoraModuleFw.Ota
