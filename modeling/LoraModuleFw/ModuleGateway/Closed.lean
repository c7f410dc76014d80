import LoraModuleFw.ModuleGateway.Session

/-! OtaData outside a download.  A producer stays stored when its session is
over, and `continue_download` does not look at its state. -/

namespace LoraModuleFw.ModuleGateway

open Lora Ota Schema Runs

namespace Gateway

/-- What a block changes in the stored producer. -/
def sentMarks (g : Gateway) : Option (Heapless.Vec UInt16 128 × UInt16) :=
  g.ota.map fun p => (p.notAckedIndexes, p.highestSentIndex)

/-- A block goes out, or into the books, only during a download; without one it is
refused as not started and nothing changes. -/
structure BlockGuarded (g : Gateway) (lora : ModuleLoRa) (data : OtaData) : Prop where
  live : ∀ r g' lora', g.processHostMessage lora (.otaData data) = some (r, g', lora') →
    lora'.sent ≠ lora.sent ∨ g'.sentMarks ≠ g.sentMarks →
      ∃ p, g.ota = some p ∧ p.state = .download
  idle : (∀ p, g.ota = some p → p.state = .done) →
    g.processHostMessage lora (.otaData data) = some (.error (.ota .notStarted), g, lora)

/-- A stored producer never answers NotStarted. -/
theorem otaData_ne_notStarted {g g' : Gateway} {p : OtaProducer} {lora lora' : ModuleLoRa}
    {data : OtaData} (hp : g.ota = some p) :
    g.processHostMessage lora (.otaData data) ≠ some (.error (.ota .notStarted), g', lora') := by
  intro h
  simp only [processHostMessage, continueDownload, hp] at h
  obtain ⟨⟨r, g₁, l⟩, hc, he⟩ := Option.map_eq_some_iff.mp h
  obtain ⟨⟨res, p', l'⟩, hd, hr⟩ := Option.map_eq_some_iff.mp hc
  rcases OtaProducer.continueDownload_eq_some hd with ⟨rfl, _⟩ | ⟨rfl, _⟩
  · cases hr
    cases he
  · cases hr
    cases he

theorem blockGuarded_iff {g : Gateway} (hg : g.Started) (lora : ModuleLoRa) (data : OtaData) :
    g.BlockGuarded lora data ↔ ∀ p, g.ota = some p → p.state ≠ .done := by
  constructor
  · intro h p hp hdone
    refine otaData_ne_notStarted hp (h.idle fun q hq => ?_)
    rw [hp] at hq
    cases hq
    exact hdone
  · intro hopen
    cases hp : g.ota with
    | none =>
      have hrun : g.processHostMessage lora (.otaData data) =
          some (.error (.ota .notStarted), g, lora) := by
        simp only [processHostMessage, continueDownload, hp, Option.map_some]
      refine ⟨fun r g' lora' h hchanged => ?_, fun _ => hrun⟩
      rw [hrun] at h
      cases h
      exact absurd hchanged (by simp)
    | some p =>
      have hdownload : p.state = .download := by
        cases hs : p.state with
        | init => exact absurd hs (hg p hp)
        | download => rfl
        | done => exact absurd hs (hopen p hp)
      exact ⟨fun _ _ _ _ _ => ⟨p, hp, hdownload⟩, fun hidle => absurd (hidle p hp) (hopen p hp)⟩

end Gateway

/-- **No block outside a live session**, in every run, exactly as long as no OtaData
finds a producer that is done. -/
theorem blocks_guarded_iff (events : List GatewayEvent) :
    (∀ before lora data g, before ++ [.host lora (.otaData data)] <+: events →
      runOpt Gateway.step Gateway.new before = some g → g.BlockGuarded lora data) ↔
    ∀ before lora data g, before ++ [.host lora (.otaData data)] <+: events →
      runOpt Gateway.step Gateway.new before = some g → ∀ p, g.ota = some p → p.state ≠ .done := by
  have hstarted : ∀ before g, runOpt Gateway.step Gateway.new before = some g → g.Started :=
    fun _ _ hrun => runOpt_invariant (A := fun _ => True)
      (fun _ _ _ hs _ h => Gateway.started_step hs h) (fun _ hp => by cases hp)
      (fun _ _ => trivial) hrun
  constructor
  · intro h before lora data g hprefix hrun
    exact (Gateway.blockGuarded_iff (hstarted before g hrun) lora data).mp
      (h before lora data g hprefix hrun)
  · intro h before lora data g hprefix hrun
    exact (Gateway.blockGuarded_iff (hstarted before g hrun) lora data).mpr
      (h before lora data g hprefix hrun)

/-- After an abort that the node has acknowledged, a block still goes on the air. -/
theorem block_after_abort :
    let init : OtaInitRequest := ⟨3, 100, .replicate 32 0, 64, 2⟩
    let block : OtaData := ⟨0, .empty⟩
    ∃ g p g' lora', runOpt Gateway.step Gateway.new [.host (hears .initAck 3) (.otaInit init),
        .host (hears .abortAck 3) .otaAbortRequest] = some g ∧
      g.ota = some p ∧ p.state = .done ∧
      g.processHostMessage (.quiet 1) (.otaData block) = some (.ok none, g', lora') ∧
      lora'.sent.length = 1 ∧ ¬ g.BlockGuarded (.quiet 1) block := by
  intro init block
  have hrun : ∃ g, runOpt Gateway.step Gateway.new [.host (hears .initAck 3) (.otaInit init),
        .host (hears .abortAck 3) .otaAbortRequest] = some g ∧
      g.ota.map OtaProducer.state = some .done ∧
      ∃ x, g.processHostMessage (.quiet 1) (.otaData block) = some x ∧
        x.1 = .ok none ∧ x.2.2.sent.length = 1 := by
    decide +kernel
  obtain ⟨g, hrun, hstate, ⟨r, g', lora'⟩, hnext, rfl, hsent⟩ := hrun
  obtain ⟨p, hp, hdone⟩ := Option.map_eq_some_iff.mp hstate
  refine ⟨g, p, g', lora', hrun, hp, hdone, hnext, hsent, fun h => ?_⟩
  obtain ⟨q, hq, hdownload⟩ := h.live _ _ _ hnext (Or.inl fun he => by
    rw [he] at hsent
    cases hsent)
  rw [hp] at hq
  cases hq
  rw [hdone] at hdownload
  cases hdownload

end LoraModuleFw.ModuleGateway
