import LoraModuleFw.Ota.Outstanding
import LoraModuleFw.ModuleGateway.Session

/-! Opening a session: which response does it, and what its parameters do to
the completion test later on. -/

namespace LoraModuleFw.ModuleGateway

open Lora Ota Schema Runs

/-! ## The opening response -/

/-- The parameters of a request, as they go to the node. -/
def initPacket (init : OtaInitRequest) : OtaInitPacket :=
  { binarySize := init.binarySize
    blockSize := init.blockSize
    blockCount := init.blockCount
    binarySha256 := init.binarySha256 }

/-- What the request to the node comes back with, and the radio afterwards. -/
def openingResponse (lora : ModuleLoRa) (init : OtaInitRequest) :
    Option (Except OtaError OtaPacket × ModuleLoRa) :=
  loraTransmitUntilResponse lora init.destinationAddress (.init (initPacket init)) 10

/-- `init_download` returns Ok exactly on an InitAck, and then the download is
on; otherwise it returns an error, and the session is what it was. -/
def OpensOnInitAck (g : Gateway) (lora : ModuleLoRa) (init : OtaInitRequest) : Prop :=
  ∃ r g' lora', g.initDownload lora init = some (r, g', lora') ∧
    ((∃ ret, r = .ok ret) ↔ ∃ lora₁, openingResponse lora init = some (.ok .initAck, lora₁)) ∧
    (∀ ret, r = .ok ret → ∃ p, g'.ota = some p ∧ p.state = .download) ∧
    ∀ e, r = .error e → g' = g

/-- `init_download` by the response of the node. -/
theorem initDownload_eq (g : Gateway) (lora : ModuleLoRa) (init : OtaInitRequest) :
    g.initDownload lora init = (openingResponse lora init).bind fun
      | (.error e, lora) => some (.error (.ota e), g, lora)
      | (.ok resp, lora) =>
        ((OtaProducer.new (initPacket init) init.destinationAddress).processResponse resp).map fun
          | (.ok ret, ota) => (.ok ret, { g with ota := some ota }, lora)
          | (.error e, _) => (.error (.ota e), g, lora) := by
  unfold Gateway.initDownload OtaProducer.initDownload OtaProducer.request
  rw [Option.map_bind]
  change (openingResponse lora init).bind _ = _
  congr 1
  funext ⟨res, l⟩
  cases res with
  | error e => rfl
  | ok resp =>
    simp only [Function.comp_apply, Option.map_map]
    congr 1
    funext ⟨r, ota⟩
    cases r <;> rfl

/-- Without an InitAck, an error that leaves the session alone is what is wanted. -/
theorem opensOnInitAck_error {g : Gateway} {lora l : ModuleLoRa} {init : OtaInitRequest}
    {res : Except OtaError OtaPacket} {e : Error}
    (hresp : openingResponse lora init = some (res, l)) (hne : res ≠ .ok .initAck)
    (h : g.initDownload lora init = some (.error e, g, l)) : OpensOnInitAck g lora init := by
  refine ⟨.error e, g, l, h, iff_of_false ?_ ?_, ?_, fun _ _ => rfl⟩
  · rintro ⟨ret, hok⟩
    cases hok
  · rintro ⟨l', hack⟩
    rw [hresp] at hack
    cases hack
    exact hne rfl
  · intro ret hok
    cases hok

/-- A session that starts in state Done is not opened as it should be. -/
theorem not_opensOnInitAck {g g' : Gateway} {lora l : ModuleLoRa} {init : OtaInitRequest}
    {ret : GatewayPacket} (h : g.initDownload lora init = some (.ok ret, g', l))
    (hdone : g'.ota.map OtaProducer.state = some .done) : ¬ OpensOnInitAck g lora init := by
  rintro ⟨r, g₁, l₁, h₁, _, hstate, _⟩
  rw [h] at h₁
  cases h₁
  obtain ⟨p, hp, hdown⟩ := hstate ret rfl
  rw [hp, Option.map_some, hdown] at hdone
  cases hdone

/-- **A session is opened only by InitAck**, unless the response is a DoneAck or
an AbortAck: for these two the producer does not look at its state. -/
theorem opens_on_initAck_iff (g : Gateway) (lora : ModuleLoRa) (init : OtaInitRequest) :
    OpensOnInitAck g lora init ↔
      ∀ lora', openingResponse lora init ≠ some (.ok .doneAck, lora') ∧
        openingResponse lora init ≠ some (.ok .abortAck, lora') := by
  obtain ⟨⟨res, l⟩, hresp⟩ : ∃ r, openingResponse lora init = some r :=
    loraTransmitUntilResponse_isSome lora _ _ (by decide)
  have hinit := initDownload_eq g lora init
  rw [hresp, Option.bind_some] at hinit
  have hother (hd : res ≠ .ok .doneAck) (ha : res ≠ .ok .abortAck) : ∀ lora',
      openingResponse lora init ≠ some (.ok .doneAck, lora') ∧
        openingResponse lora init ≠ some (.ok .abortAck, lora') := by
    intro lora'
    rw [hresp]
    exact ⟨fun h => by cases h; exact hd rfl, fun h => by cases h; exact ha rfl⟩
  cases res with
  | error e =>
    have hne (m : OtaPacket) : (.error e : Except OtaError OtaPacket) ≠ .ok m := fun h => by cases h
    exact iff_of_true (opensOnInitAck_error hresp (hne _) hinit) (hother (hne _) (hne _))
  | ok resp =>
    cases resp with
    | initAck =>
      refine iff_of_true ⟨_, _, l, hinit, ?_, ?_, ?_⟩ (hother ?_ ?_)
      · exact iff_of_true ⟨_, rfl⟩ ⟨l, hresp⟩
      · exact fun _ _ => ⟨_, rfl, rfl⟩
      · intro e he
        cases he
      all_goals
        intro he
        cases he
    | doneAck =>
      exact iff_of_false (not_opensOnInitAck hinit rfl) fun h => (h l).1 hresp
    | abortAck =>
      exact iff_of_false (not_opensOnInitAck hinit rfl) fun h => (h l).2 hresp
    | _ =>
      refine iff_of_true (opensOnInitAck_error hresp ?_ hinit) (hother ?_ ?_) <;>
        (intro he; cases he)

/-- A late DoneAck of node 3 opens a session that is already Done. -/
theorem doneAck_opens_session :
    let init : OtaInitRequest := ⟨3, 100, .replicate 32 0, 64, 2⟩
    ∃ g' lora', Gateway.new.initDownload (hears .doneAck 3) init =
        some (.ok .otaDoneAck, g', lora') ∧
      g'.ota.map OtaProducer.state = some .done ∧
      ¬ OpensOnInitAck Gateway.new (hears .doneAck 3) init := by
  intro init
  have hrun : ∃ r, Gateway.new.initDownload (hears .doneAck 3) init = some r ∧
      r.1 = .ok .otaDoneAck ∧ r.2.1.ota.map OtaProducer.state = some .done := by
    decide +kernel
  obtain ⟨⟨_, g', lora'⟩, h, rfl, hdone⟩ := hrun
  exact ⟨g', lora', h, hdone, not_opensOnInitAck h hdone⟩

/-! ## The completion test -/

namespace Gateway

/-- No status, whatever it lists, makes the completion test divide by zero. -/
def NeverDividesByZero (g : Gateway) : Prop :=
  ∀ p, g.ota = some p → ∀ status, (p.marked status).allAcked ≠ none

/-- The event is an OtaInit that the gateway accepts. -/
def Accepts (g : Gateway) (e : GatewayEvent) (init : OtaInitRequest) : Prop :=
  ∃ lora ret g' lora', e = .host lora (.otaInit init) ∧
    g.processHostMessage lora (.otaInit init) = some (.ok ret, g', lora')

/-- A session that is opened has nothing outstanding yet. -/
theorem initDownload_ok {g g' : Gateway} {lora lora' : ModuleLoRa} {init : OtaInitRequest}
    {ret : GatewayPacket} (h : g.initDownload lora init = some (.ok ret, g', lora')) :
    ∃ p, g'.ota = some p ∧ p.params = initPacket init ∧ p.notAckedIndexes.toList = [] := by
  rw [initDownload_eq] at h
  obtain ⟨⟨res, l⟩, _, h⟩ := Option.bind_eq_some_iff.mp h
  cases res with
  | error e => cases h
  | ok resp =>
    obtain ⟨⟨r, p⟩, hp, he⟩ := Option.map_eq_some_iff.mp h
    cases r <;> cases he
    refine ⟨p, rfl, (OtaProducer.processResponse_answered hp).params, ?_⟩
    rcases OtaProducer.processResponse_marks hp with ⟨hn, _⟩ | ⟨status, _, hn, _⟩
    · rw [hn]
      rfl
    · rw [hn]
      exact List.length_eq_zero_iff.mp
        (Nat.le_zero.mp (OtaProducer.length_acknowledge_le _ status.receivedIndexes.toList))

/-- The stored session, if there is one, has a block size other than zero. -/
def Sized (g : Gateway) : Prop := ∀ p, g.ota = some p → p.params.blockSize ≠ 0

theorem Sized.neverDividesByZero {g : Gateway} (h : g.Sized) : g.NeverDividesByZero := by
  intro p hp status hnone
  exact h p hp (OtaProducer.allAcked_eq_none.mp hnone).2

/-- Every request that is accepted has a block size other than zero. -/
def AcceptsSized (g : Gateway) (e : GatewayEvent) : Prop :=
  ∀ init, g.Accepts e init → init.blockSize ≠ 0

/-- **Step lemma.** -/
theorem Sized.step {g g' : Gateway} {e : GatewayEvent} (hg : g.Started) (hs : g.Sized)
    (he : g.AcceptsSized e) (h : g.step e = some g') : g'.Sized := by
  rcases step_session hg h with hsame | ⟨lora, init, ret, lora', rfl, hdone, hi⟩
  · intro p' hp'
    rw [hp'] at hsame
    cases hp : g.ota with
    | none =>
      rw [hp] at hsame
      exact hsame.elim
    | some p =>
      rw [hp] at hsame
      rw [hsame.1]
      exact hs p hp
  · obtain ⟨q, hq, hparams, _⟩ := initDownload_ok hi
    have hacc : g.Accepts (.host lora (.otaInit init)) init :=
      ⟨lora, some ret, g', lora', rfl, otaInit_eq_some.mpr (Or.inl ⟨hdone, .ok ret, hi, rfl⟩)⟩
    intro p' hp'
    rw [hq] at hp'
    cases hp'
    rw [hparams]
    exact he init hacc

/-- A session with nothing outstanding divides on the next status. -/
theorem acceptsSized_of_step {g g' : Gateway} {e : GatewayEvent} (h : g.step e = some g')
    (hg' : g'.NeverDividesByZero) : g.AcceptsSized e := by
  rintro init ⟨lora, ret, g₁, lora', rfl, hacc⟩ hzero
  obtain ⟨⟨r, g₂, l⟩, hr, rfl⟩ := Option.map_eq_some_iff.mp h
  have hinit : ∃ ret', g.initDownload lora init = some (.ok ret', g₁, lora') := by
    rcases otaInit_eq_some.mp hacc with ⟨_, res, hi, he⟩ | ⟨_, he, _⟩
    · cases res <;> cases he
      exact ⟨_, hi⟩
    · cases he
  rw [hacc] at hr
  cases hr
  obtain ⟨ret', hi⟩ := hinit
  obtain ⟨p, hp, hparams, hnil⟩ := initDownload_ok hi
  apply hg' p hp ⟨.empty, 0⟩
  apply OtaProducer.allAcked_eq_none.mpr
  refine ⟨hnil, ?_⟩
  change p.params.blockSize = 0
  rw [hparams]
  exact hzero

end Gateway

/-- **No session parameters crash the processing of a status** in a run exactly
when no request with block size 0 is accepted in it. -/
theorem never_divides_by_zero_iff (events : List GatewayEvent) :
    (∀ events' g, events' <+: events → runOpt Gateway.step Gateway.new events' = some g →
      g.NeverDividesByZero) ↔
    AlongOpt Gateway.step Gateway.AcceptsSized Gateway.new events := by
  constructor
  · exact AlongOpt.of_forall_prefix fun _ _ _ _ h hg' => Gateway.acceptsSized_of_step h hg'
  · intro h events' g hprefix hrun
    have hstarted : Gateway.new.Started := fun _ hp => by cases hp
    have hsized : Gateway.new.Sized := fun _ hp => by cases hp
    have hg : g.Started ∧ g.Sized := by
      refine h.forall_prefix (P := fun g => g.Started ∧ g.Sized) ?_ ⟨hstarted, hsized⟩ events' g
        hprefix hrun
      rintro s e s' ⟨hstarted, hsized⟩ he hstep
      exact ⟨Gateway.started_step hstarted hstep, hsized.step hstarted he hstep⟩
    exact hg.2.neverDividesByZero

/-- A session with block size 0: the first status stops the gateway. -/
theorem zero_block_size_panics :
    let init : OtaInitRequest := ⟨3, 100, .replicate 32 0, 0, 2⟩
    ∃ g, runOpt Gateway.step Gateway.new [.host (hears .initAck 3) (.otaInit init)] = some g ∧
      ¬ g.NeverDividesByZero ∧
      g.processPeerMessage (.quiet 1) ((OtaPacket.status ⟨.empty, 0⟩).packet 3 1) = none := by
  intro init
  have hrun : ∃ g, runOpt Gateway.step Gateway.new [.host (hears .initAck 3) (.otaInit init)] =
        some g ∧
      g.ota = some (OtaProducer.opened (initPacket init) 3) ∧
      g.processPeerMessage (.quiet 1) ((OtaPacket.status ⟨.empty, 0⟩).packet 3 1) = none := by
    decide +kernel
  obtain ⟨g, hrun, hp, hnone⟩ := hrun
  exact ⟨g, hrun, fun h => h _ hp ⟨.empty, 0⟩ rfl, hnone⟩

end LoraModuleFw.ModuleGateway
