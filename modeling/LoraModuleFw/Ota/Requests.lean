import LoraModuleFw.Ota.Common

/-! The request and response loop of `module-runtime/src/ota/common.rs`, attempt
by attempt.  The source builds one packet and lends it to every attempt, and
each `transmit` writes the source address into it. -/

namespace LoraModuleFw.Ota

open Lora Retry

/-! ## The packet on loan -/

/-- `transmit`, with the packet as it leaves it. -/
def transmitInPlace (lora : ModuleLoRa) (packet : LoRaPacket) :
    Except RadioError Unit × LoRaPacket × ModuleLoRa :=
  let packet := { packet with source := lora.address }
  match lora.buildFrame packet with
  | .error e => (.error e, packet, lora)
  | .ok frame => ((lora.tx ⟨packet, frame⟩).1, packet, (lora.tx ⟨packet, frame⟩).2)

def transmitLoopInPlace : Nat → Option OtaError → LoRaPacket → ModuleLoRa →
    Option (Except OtaError OtaPacket × ModuleLoRa)
  | 0, lastError, _, lora => lastError.map fun e => (.error e, lora)
  | n + 1, _, p, lora =>
    match transmitInPlace lora p with
    | (.error _, _, lora) => some (.error .transmit, lora)
    | (.ok (), p, lora) =>
      match lora.receiveSingle with
      | (.ok packet, lora) =>
        match fromBytes packet.payload with
        | some ret => some (.ok ret, lora)
        | none => transmitLoopInPlace n (some .deserialize) p lora
      | (.error _, lora) => transmitLoopInPlace n (some .receive) p lora

def loraTransmitUntilResponseInPlace (lora : ModuleLoRa) (destination : UInt32)
    (packet : OtaPacket) (retries : Nat) : Option (Except OtaError OtaPacket × ModuleLoRa) :=
  match toVec packet with
  | none => some (.error .serialize, lora)
  | some payload =>
    transmitLoopInPlace retries none { LoRaPacket.new destination .ota with payload } lora

theorem transmitInPlace_eq (lora : ModuleLoRa) (p : LoRaPacket) :
    transmitInPlace lora p =
      ((lora.transmit p).1, { p with source := lora.address }, (lora.transmit p).2) := by
  simp only [transmitInPlace, ModuleLoRa.transmit, ModuleLoRa.buildFrame_eq]

/-- What an attempt finds in the source field does not matter. -/
theorem transmitLoop_source (p : LoRaPacket) (source : UInt32) (n : Nat) (last : Option OtaError)
    (lora : ModuleLoRa) :
    transmitLoop { p with source } n last lora = transmitLoop p n last lora := by
  have hround : transmitRound { p with source } = transmitRound p := rfl
  rw [transmitLoop_eq, transmitLoop_eq, hround]

theorem transmitLoopInPlace_eq (n : Nat) (last : Option OtaError) (p : LoRaPacket)
    (lora : ModuleLoRa) : transmitLoopInPlace n last p lora = transmitLoop p n last lora := by
  induction n generalizing last p lora with
  | zero => rfl
  | succ n ih =>
    unfold transmitLoopInPlace transmitLoop
    rw [transmitInPlace_eq]
    rcases lora.transmit p with ⟨e | ⟨⟩, l₁⟩
    · rfl
    · dsimp only
      rcases l₁.receiveSingle with ⟨e | packet, l₂⟩
      · exact (ih _ _ _).trans (transmitLoop_source ..)
      · dsimp only
        cases fromBytes packet.payload with
        | some resp => rfl
        | none => exact (ih _ _ _).trans (transmitLoop_source ..)

/-- One packet on loan does as well as a fresh one for every attempt. -/
theorem loraTransmitUntilResponseInPlace_eq (lora : ModuleLoRa) (destination : UInt32)
    (m : OtaPacket) (retries : Nat) :
    loraTransmitUntilResponseInPlace lora destination m retries =
      loraTransmitUntilResponse lora destination m retries := by
  unfold loraTransmitUntilResponseInPlace loraTransmitUntilResponse
  cases toVec m with
  | none => rfl
  | some payload => exact transmitLoopInPlace_eq ..

/-! ## The attempts -/

section Attempts

variable (p : LoRaPacket) (lora : ModuleLoRa)

/-- What goes on the air for the packet. -/
def transmissionOf : Transmission :=
  ⟨{ p with source := lora.address }, lora.frameOf { p with source := lora.address }⟩

/-- The radio before attempt `i`, when every attempt transmits `p` and listens. -/
def radioBefore (i : ℕ) : ModuleLoRa := (fun l => (l.transmit p).2.receiveSingle.2)^[i] lora

/-- What the transmission of attempt `i` comes to. -/
def transmitted (i : ℕ) : Except RadioError Unit := ((radioBefore p lora i).transmit p).1

/-- What attempt `i` hears after its transmission. -/
def received (i : ℕ) : Except RadioError LoRaPacket :=
  ((radioBefore p lora i).transmit p).2.receiveSingle.1

/-- The first `n` attempts transmit, and none of them hears a message. -/
def Unanswered (n : ℕ) : Prop :=
  ∀ i < n, transmitted p lora i = .ok () ∧ ∃ e, responseError (received p lora i) = some e

/-- The three ends of a request, with the attempts made and the frames sent. -/
inductive Ends (retries : ℕ) : (attempts frames : ℕ) → Except OtaError OtaPacket → Prop
  | refused {k : ℕ} {e : RadioError} : k < retries → Unanswered p lora k →
      transmitted p lora k = .error e → Ends retries (k + 1) k (.error .transmit)
  | answered {k : ℕ} {packet : LoRaPacket} {resp : OtaPacket} : k < retries →
      Unanswered p lora k → transmitted p lora k = .ok () → received p lora k = .ok packet →
      fromBytes packet.payload = some resp → Ends retries (k + 1) (k + 1) (.ok resp)
  | exhausted {e : OtaError} : Unanswered p lora retries →
      responseError (received p lora (retries - 1)) = some e →
      Ends retries retries retries (.error e)

/-- The radio after so many attempts that put so many frames on the air. -/
structure Attempted (attempts frames : ℕ) (l : ModuleLoRa) : Prop where
  later : lora.Later l
  txResults : l.txResults = lora.txResults.drop attempts
  sent : l.sent = lora.sent ++ List.replicate frames (transmissionOf p lora)

end Attempts

variable {p : LoRaPacket} {lora l : ModuleLoRa} {k attempts frames : ℕ}

/-- No attempt that is refused or answered comes before the unanswered ones end. -/
theorem Unanswered.le_of_refused {n : ℕ} {e : RadioError} (h : Unanswered p lora n)
    (he : transmitted p lora k = .error e) : n ≤ k := by
  by_contra hlt
  have hok := (h k (Nat.lt_of_not_le hlt)).1
  rw [he] at hok
  cases hok

theorem Unanswered.le_of_answered {n : ℕ} {packet : LoRaPacket} {resp : OtaPacket}
    (h : Unanswered p lora n) (hr : received p lora k = .ok packet)
    (hd : fromBytes packet.payload = some resp) : n ≤ k := by
  by_contra hlt
  obtain ⟨_, e, he⟩ := h k (Nat.lt_of_not_le hlt)
  rw [hr] at he
  simp only [responseError, hd] at he
  cases he

/-- A request has one end. -/
theorem Ends.unique {retries attempts' frames' : ℕ} {r r' : Except OtaError OtaPacket}
    (h : Ends p lora retries attempts frames r) (h' : Ends p lora retries attempts' frames' r') :
    attempts = attempts' ∧ frames = frames' ∧ r = r' := by
  cases h with
  | refused hk hq he =>
    cases h' with
    | refused hk' hq' he' =>
      cases Nat.le_antisymm (hq.le_of_refused he') (hq'.le_of_refused he)
      exact ⟨rfl, rfl, rfl⟩
    | answered hk' hq' hok' hr' hd' =>
      cases Nat.le_antisymm (hq.le_of_answered hr' hd') (hq'.le_of_refused he)
      rw [he] at hok'
      cases hok'
    | exhausted hq' => exact absurd hk (Nat.not_lt.mpr (hq'.le_of_refused he))
  | answered hk hq hok hr hd =>
    cases h' with
    | refused hk' hq' he' =>
      cases Nat.le_antisymm (hq.le_of_refused he') (hq'.le_of_answered hr hd)
      rw [he'] at hok
      cases hok
    | answered hk' hq' hok' hr' hd' =>
      cases Nat.le_antisymm (hq.le_of_answered hr' hd') (hq'.le_of_answered hr hd)
      rw [hr] at hr'
      cases hr'
      rw [hd] at hd'
      cases hd'
      exact ⟨rfl, rfl, rfl⟩
    | exhausted hq' => exact absurd hk (Nat.not_lt.mpr (hq'.le_of_answered hr hd))
  | exhausted hq he =>
    cases h' with
    | refused hk' _ he' => exact absurd hk' (Nat.not_lt.mpr (hq.le_of_refused he'))
    | answered hk' _ _ hr' hd' => exact absurd hk' (Nat.not_lt.mpr (hq.le_of_answered hr' hd'))
    | exhausted _ he' =>
      rw [he] at he'
      cases he'
      exact ⟨rfl, rfl, rfl⟩

theorem radioBefore_succ (p : LoRaPacket) (lora : ModuleLoRa) (i : ℕ) :
    radioBefore p lora (i + 1) = ((radioBefore p lora i).transmit p).2.receiveSingle.2 :=
  Function.iterate_succ_apply' ..

theorem attempted_zero : Attempted p lora 0 0 lora :=
  ⟨.refl lora, rfl, (List.append_nil _).symm⟩

/-- The later radio puts the same frame on the air. -/
theorem transmissionOf_later (h : lora.Later l) : transmissionOf p l = transmissionOf p lora := by
  simp only [transmissionOf, ModuleLoRa.frameOf, h.address, h.crc]

namespace Attempted

theorem transmit_ok (h : Attempted p lora attempts frames l) (ht : (l.transmit p).1 = .ok ()) :
    Attempted p lora (attempts + 1) (frames + 1) (l.transmit p).2 where
  later := h.later.trans (l.transmit_later p)
  txResults := by rw [ModuleLoRa.transmit_txResults, h.txResults, List.drop_drop]
  sent := by
    have hsent : (l.transmit p).2.sent = l.sent ++ [transmissionOf p l] :=
      ModuleLoRa.transmit_sent_of_ok ht
    rw [hsent, h.sent, transmissionOf_later h.later, List.append_assoc, List.replicate_succ']

theorem transmit_error {e : RadioError} (h : Attempted p lora attempts frames l)
    (ht : (l.transmit p).1 = .error e) :
    Attempted p lora (attempts + 1) frames (l.transmit p).2 where
  later := h.later.trans (l.transmit_later p)
  txResults := by rw [ModuleLoRa.transmit_txResults, h.txResults, List.drop_drop]
  sent := (ModuleLoRa.transmit_sent_of_error ht).trans h.sent

theorem receiveSingle (h : Attempted p lora attempts frames l) :
    Attempted p lora attempts frames l.receiveSingle.2 where
  later := h.later.trans l.receiveSingle_later
  txResults := l.receiveSingle_txResults.trans h.txResults
  sent := l.receiveSingle_sent.trans h.sent

end Attempted

/-! ## What goes on the air -/

/-- A message goes out as one frame or not at all. -/
theorem loraTransmit_sent (lora : ModuleLoRa) (destination : UInt32) (m : OtaPacket) :
    ∃ payload, toVec m = some payload ∧
      ((loraTransmit lora destination m).2.sent = lora.sent ∨
        (loraTransmit lora destination m).2.sent = lora.sent ++
          [transmissionOf { LoRaPacket.new destination .ota with payload } lora]) := by
  obtain ⟨payload, hp⟩ := toVec_isSome m
  refine ⟨payload, hp, ?_⟩
  have hsent : (loraTransmit lora destination m).2 =
      (lora.transmit { LoRaPacket.new destination .ota with payload }).2 := by
    simp only [loraTransmit, hp]
    split <;> next heq => rw [heq]
  rw [hsent]
  rcases lora.transmit_cases { LoRaPacket.new destination .ota with payload } with
    ⟨_, hs⟩ | ⟨_, _, hs⟩
  · exact Or.inr hs
  · exact Or.inl hs

/-- The request loop sends its packet and nothing else. -/
theorem transmitLoop_sent {p : LoRaPacket} {n : Nat} {last : Option OtaError}
    {lora lora' : ModuleLoRa} {r : Except OtaError OtaPacket}
    (h : transmitLoop p n last lora = some (r, lora')) :
    ∀ t ∈ lora'.sent, t ∈ lora.sent ∨ t = transmissionOf p lora := by
  induction n generalizing last lora with
  | zero =>
    obtain ⟨e, _, he⟩ := Option.map_eq_some_iff.mp h
    cases he
    exact fun t ht => Or.inl ht
  | succ n ih =>
    have hsend : ∀ t ∈ (lora.transmit p).2.sent, t ∈ lora.sent ∨ t = transmissionOf p lora := by
      intro t ht
      rcases lora.transmit_cases p with ⟨_, hs⟩ | ⟨_, _, hs⟩
      · rw [hs] at ht
        exact (List.mem_append.mp ht).imp_right List.mem_singleton.mp
      · rw [hs] at ht
        exact Or.inl ht
    have hheard : ∀ t ∈ (lora.transmit p).2.receiveSingle.2.sent,
        t ∈ lora.sent ∨ t = transmissionOf p lora := by
      rw [ModuleLoRa.receiveSingle_sent]
      exact hsend
    rcases transmitRound_cases p lora with ⟨e, _, hr⟩ | ⟨_, _, _, _, _, hr⟩ | ⟨e, _, _, hr⟩
    · rw [transmitLoop_stop hr] at h
      cases h
      exact hsend
    · rw [transmitLoop_stop hr] at h
      cases h
      exact hheard
    · rw [transmitLoop_again hr] at h
      have hlater := (lora.transmit_later p).trans (lora.transmit p).2.receiveSingle_later
      intro t ht
      rcases ih h t ht with ht | rfl
      · exact hheard t ht
      · exact Or.inr (transmissionOf_later hlater)

/-! ## The rounds of the loop are the attempts -/

theorem transmitRound_again {e : OtaError} (h : (transmitRound p l).1 = .again e) :
    (l.transmit p).1 = .ok () ∧ responseError (l.transmit p).2.receiveSingle.1 = some e ∧
      (transmitRound p l).2 = (l.transmit p).2.receiveSingle.2 := by
  rcases transmitRound_cases p l with ⟨_, _, hr⟩ | ⟨_, _, _, _, _, hr⟩ | ⟨e', hok, herr, hr⟩
  · rw [hr] at h
    cases h
  · rw [hr] at h
    cases h
  · rw [hr] at h
    cases h
    exact ⟨hok, herr, by rw [hr]⟩

/-- Rounds that fail leave the radio of the next attempt. -/
theorem after_eq_radioBefore (h : Failing (transmitRound p) k lora) :
    after (transmitRound p) k lora = radioBefore p lora k := by
  refine h.invariant (P := fun i l => l = radioBefore p lora i) ?_ rfl
  rintro i _ e rfl he
  rw [(transmitRound_again he).2.2]
  exact (radioBefore_succ ..).symm

theorem unanswered_of_failing (h : Failing (transmitRound p) k lora) : Unanswered p lora k := by
  intro i hi
  obtain ⟨e, he⟩ := h i hi
  rw [after_eq_radioBefore (h.mono (Nat.le_of_lt hi))] at he
  obtain ⟨hok, herr, _⟩ := transmitRound_again he
  exact ⟨hok, e, herr⟩

theorem attempted_of_failing (h : Failing (transmitRound p) k lora) :
    Attempted p lora k k (after (transmitRound p) k lora) := by
  refine h.invariant (P := fun i l => Attempted p lora i i l) ?_ attempted_zero
  intro i l e hl he
  obtain ⟨hok, _, hr⟩ := transmitRound_again he
  rw [hr]
  exact (hl.transmit_ok hok).receiveSingle

/-- A round that ends the request does so as the attempt of its number. -/
theorem ends_of_stop {retries : ℕ} {r : Except OtaError OtaPacket} (hk : k < retries)
    (h : Failing (transmitRound p) k lora)
    (hstop : (transmitRound p (after (transmitRound p) k lora)).1 = .stop r) :
    ∃ frames, Ends p lora retries (k + 1) frames r ∧
      Attempted p lora (k + 1) frames (after (transmitRound p) (k + 1) lora) := by
  have hquiet := unanswered_of_failing h
  have hdone := attempted_of_failing h
  rw [after_succ']
  rw [after_eq_radioBefore h] at hstop hdone ⊢
  rcases transmitRound_cases p (radioBefore p lora k) with
    ⟨e, hsend, hround⟩ | ⟨packet, resp, hsend, hheard, hd, hround⟩ | ⟨e, _, _, hround⟩
  · rw [hround] at hstop ⊢
    cases hstop
    exact ⟨k, .refused hk hquiet hsend, hdone.transmit_error hsend⟩
  · rw [hround] at hstop ⊢
    cases hstop
    exact ⟨k + 1, .answered hk hquiet hsend hheard hd, (hdone.transmit_ok hsend).receiveSingle⟩
  · rw [hround] at hstop
    cases hstop

/-- The error of a request whose attempts are used up is that of the last one. -/
theorem ends_of_again {n : ℕ} {e : OtaError} (h : Failing (transmitRound p) (n + 1) lora)
    (hlast : (transmitRound p (after (transmitRound p) n lora)).1 = .again e) :
    Ends p lora (n + 1) (n + 1) (n + 1) (.error e) := by
  rw [after_eq_radioBefore (h.mono (Nat.le_succ n))] at hlast
  exact .exhausted (unanswered_of_failing h) (transmitRound_again hlast).2.1

/-- **Exactness.**  A request makes attempts with one payload and one destination,
at most `retries` of them, and its answer is that of the attempt that ended it. -/
theorem request_exact (lora : ModuleLoRa) (destination : UInt32) (m : OtaPacket) (retries : ℕ)
    (h : 1 ≤ retries) :
    ∃ payload attempts frames r lora', toVec m = some payload ∧
      loraTransmitUntilResponseInPlace lora destination m retries = some (r, lora') ∧
      attempts ≤ retries ∧ lora'.txResults = lora.txResults.drop attempts ∧
      lora'.sent = lora.sent ++ List.replicate frames
        (transmissionOf { LoRaPacket.new destination .ota with payload } lora) ∧
      Ends { LoRaPacket.new destination .ota with payload } lora retries attempts frames r := by
  obtain ⟨payload, hp⟩ := toVec_isSome m
  obtain ⟨n, rfl⟩ := Nat.exists_eq_add_of_le' h
  have hrun : loraTransmitUntilResponseInPlace lora destination m (n + 1) =
      (retry (transmitRound { LoRaPacket.new destination .ota with payload }) (n + 1) none
        lora).map fun r => (roundResult r.1, r.2) := by
    rw [loraTransmitUntilResponseInPlace_eq, loraTransmitUntilResponse_eq hp, transmitLoop_eq]
  rcases retry_cases n none lora with ⟨k, r, hk, hfail, hstop, hretry⟩ | ⟨e, hfail, hlast, hretry⟩
  · obtain ⟨frames, hends, hdone⟩ := ends_of_stop (Nat.lt_succ_of_le hk) hfail hstop
    rw [hretry] at hrun
    exact ⟨payload, k + 1, frames, r, _, hp, hrun, Nat.succ_le_succ hk, hdone.txResults,
      hdone.sent, hends⟩
  · have hdone := attempted_of_failing hfail
    rw [hretry] at hrun
    exact ⟨payload, n + 1, n + 1, .error e, _, hp, hrun, Nat.le_refl _, hdone.txResults,
      hdone.sent, ends_of_again hfail hlast⟩

theorem request_exact_quiet :
    ∃ payload attempts frames r lora', toVec .done = some payload ∧
      loraTransmitUntilResponseInPlace (.quiet 1) 3 .done 3 = some (r, lora') ∧
      attempts ≤ 3 ∧ lora'.txResults = (ModuleLoRa.quiet 1).txResults.drop attempts ∧
      lora'.sent = (ModuleLoRa.quiet 1).sent ++ List.replicate frames
        (transmissionOf { LoRaPacket.new 3 .ota with payload } (.quiet 1)) ∧
      Ends { LoRaPacket.new 3 .ota with payload } (.quiet 1) 3 attempts frames r :=
  request_exact (.quiet 1) 3 .done 3 (by decide)

/-- Refused on the second attempt, after one frame that nobody answered. -/
example :
    (loraTransmitUntilResponseInPlace { ModuleLoRa.quiet 1 with
      txResults := [.ok (), .error .busy] } 3 .done 3).map (fun r => (r.1, r.2.sent.length)) =
      some (.error .transmit, 1) := by rfl

end LoraModuleFw.Ota
