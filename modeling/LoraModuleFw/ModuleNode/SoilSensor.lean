import Mathlib.Data.Fintype.Basic
import Mathlib.Tactic.FinCases
import Mathlib.Tactic.IntervalCases
import LoraModuleFw.Lora

/-! The soil sensor, `module-node/src/soil_sensor.rs`, and the report that
`module-node/src/main.rs` makes of its samples.  What the comparator does is an
input; `none` is an addition that overflows or an `unwrap` that fails. -/

namespace LoraModuleFw.ModuleNode

open Lora

inductive SoilSensorResult where
  | timeout
  | ok (d : UInt16)
  deriving DecidableEq, Repr

inductive SoilSensorRange where
  | low | high
  deriving DecidableEq, Repr

namespace SoilSensor

/-! ## The code -/

/-- `comparator` is the time, in ticks of the clock, after which the comparator
goes high, or `none` when the two milliseconds are over first.  Clock and
durations are outside the repository: `asMicros` converts ticks. -/
def sampleCurrentChannel (asMicros : Nat → Nat) (range : SoilSensorRange)
    (comparator : Option Nat) : SoilSensorResult :=
  match comparator with
  | some elapsed =>
    let elapsed := match range with
      | .low => elapsed * 10
      | .high => elapsed * 1
    .ok (UInt16.ofNat (asMicros elapsed))
  | none => .timeout

def sampleCurrentChannelAutorange (asMicros : Nat → Nat)
    (comparator : SoilSensorRange → Option Nat) : SoilSensorResult :=
  match sampleCurrentChannel asMicros .high (comparator .high) with
  | .timeout => sampleCurrentChannel asMicros .low (comparator .low)
  | .ok d => .ok d

def samples : Nat := 10

def checkedAdd (a b : UInt16) : Option UInt16 :=
  if a.toNat + b.toNat < 65536 then some (a + b) else none

/-- The sampling loop of a channel: the sum, or `none` inside when a sample timed out. -/
def sumLoop : List SoilSensorResult → (sum : UInt16) → Option (Option UInt16)
  | [], sum => some (some sum)
  | .timeout :: _, _ => some none
  | .ok d :: rest, sum => (checkedAdd sum d).bind fun sum => sumLoop rest sum

def averageChannel (outcomes : List SoilSensorResult) : Option SoilSensorResult :=
  (sumLoop outcomes 0).map fun
    | none => .timeout
    | some sum => .ok (sum / UInt16.ofNat samples)

/-- The four channels in turn, from the outcomes of their autoranged samples. -/
def sampleAllAverage (outcomes : Fin 4 → Vector SoilSensorResult samples) :
    Option (Vector SoilSensorResult 4) :=
  (averageChannel (outcomes 0).toList).bind fun r0 =>
    (averageChannel (outcomes 1).toList).bind fun r1 =>
      (averageChannel (outcomes 2).toList).bind fun r2 =>
        (averageChannel (outcomes 3).toList).map fun r3 => #v[r0, r1, r2, r3]

/-- The two bytes a sample has in a report. -/
def reportBytes : SoilSensorResult → UInt8 × UInt8
  | .timeout => (0, 0)
  | .ok d => (UInt8.ofNat d.toNat, UInt8.ofNat (d.toNat / 256))

def pushSamples : List SoilSensorResult → (payload : Payload) → Option Payload
  | [], payload => some payload
  | sample :: rest, payload =>
    (payload.push (reportBytes sample).1).bind fun payload =>
      (payload.push (reportBytes sample).2).bind fun payload => pushSamples rest payload

/-- The packet of `soil_sensor_measure_and_transmit`. -/
def soilReport (results : Vector SoilSensorResult 4) (destinationAddress : UInt32) :
    Option LoRaPacket :=
  let resp := LoRaPacket.new destinationAddress .soilSensor
  (pushSamples results.toList resp.payload).map fun payload => { resp with payload }

/-- `soil_sensor_measure_and_transmit` on what the channels delivered: the radio
afterwards. -/
def soilSensorMeasureAndTransmit (outcomes : Fin 4 → Vector SoilSensorResult samples)
    (lora : ModuleLoRa) (destinationAddress : UInt32) : Option ModuleLoRa :=
  (sampleAllAverage outcomes).bind fun results =>
    (soilReport results destinationAddress).map fun resp => (lora.transmit resp).2

/-! ## Sums and means -/

def micros : SoilSensorResult → Nat
  | .timeout => 0
  | .ok d => d.toNat

def total (outcomes : List SoilSensorResult) : Nat := (outcomes.map micros).sum

/-- The samples that are summed: those before the first timeout. -/
def taken (outcomes : List SoilSensorResult) : List SoilSensorResult :=
  outcomes.takeWhile fun r => decide (r ≠ .timeout)

/-- Timeout if some sample timed out, else the rounded-down mean. -/
def TrueMean (outcomes : List SoilSensorResult) (r : SoilSensorResult) : Prop :=
  (.timeout ∈ outcomes → r = .timeout) ∧
    (.timeout ∉ outcomes → ∃ d, r = .ok d ∧ d.toNat = total outcomes / samples)

theorem checkedAdd_of_lt {a b : UInt16} (h : a.toNat + b.toNat < 65536) :
    checkedAdd a b = some (a + b) ∧ (a + b).toNat = a.toNat + b.toNat := by
  refine ⟨if_pos h, ?_⟩
  rw [UInt16.toNat_add]
  exact Nat.mod_eq_of_lt h

theorem taken_cons_ok (d : UInt16) (outcomes : List SoilSensorResult) :
    total (taken (.ok d :: outcomes)) = d.toNat + total (taken outcomes) := rfl

/-- The loop gets through exactly when the samples it takes fit, and then it has
found the timeout or the sum. -/
theorem sumLoop_cases (outcomes : List SoilSensorResult) (sum : UInt16) :
    (sum.toNat + total (taken outcomes) < 65536 ∧ .timeout ∈ outcomes ∧
      sumLoop outcomes sum = some none) ∨
    (sum.toNat + total (taken outcomes) < 65536 ∧ .timeout ∉ outcomes ∧
      ∃ s, sumLoop outcomes sum = some (some s) ∧ s.toNat = sum.toNat + total outcomes) ∨
    (65536 ≤ sum.toNat + total (taken outcomes) ∧ sumLoop outcomes sum = none) := by
  induction outcomes generalizing sum with
  | nil => exact Or.inr (Or.inl ⟨sum.toNat_lt, List.not_mem_nil, sum, rfl, rfl⟩)
  | cons r outcomes ih =>
    cases r with
    | timeout => exact Or.inl ⟨sum.toNat_lt, List.mem_cons_self, rfl⟩
    | ok d =>
      have hmem : SoilSensorResult.timeout ∈ .ok d :: outcomes ↔ .timeout ∈ outcomes := by
        simp only [List.mem_cons, reduceCtorEq, false_or]
      rw [taken_cons_ok, hmem]
      unfold sumLoop
      by_cases hlt : sum.toNat + d.toNat < 65536
      · obtain ⟨hadd, hval⟩ := checkedAdd_of_lt hlt
        have htotal : total (.ok d :: outcomes) = d.toNat + total outcomes := rfl
        have hrest := ih (sum + d)
        rw [hval, Nat.add_assoc, Nat.add_assoc, ← htotal] at hrest
        rw [hadd, Option.bind_some]
        exact hrest
      · have hadd : checkedAdd sum d = none := if_neg hlt
        rw [hadd]
        exact Or.inr (Or.inr ⟨by omega, rfl⟩)

/-- A channel is averaged truly exactly when the samples it takes fit. -/
theorem averageChannel_iff (outcomes : List SoilSensorResult) :
    (∃ r, averageChannel outcomes = some r ∧ TrueMean outcomes r) ↔
      total (taken outcomes) < 65536 := by
  unfold averageChannel
  have hcases := sumLoop_cases outcomes 0
  rw [show (0 : UInt16).toNat = 0 from rfl, Nat.zero_add, Nat.zero_add] at hcases
  rcases hcases with ⟨hlt, hmem, hl⟩ | ⟨hlt, hmem, s, hl, hs⟩ | ⟨hge, hl⟩
  · rw [hl]
    exact iff_of_true ⟨_, rfl, fun _ => rfl, fun h => absurd hmem h⟩ hlt
  · rw [hl]
    refine iff_of_true ⟨_, rfl, fun h => absurd h hmem, fun _ => ⟨_, rfl, ?_⟩⟩ hlt
    rw [UInt16.toNat_div, hs]
    rfl
  · rw [hl]
    refine iff_of_false ?_ (Nat.not_lt.mpr hge)
    rintro ⟨r, hr, _⟩
    cases hr

theorem vector_four {α : Type} (v : Vector α 4) : #v[v[0], v[1], v[2], v[3]] = v := by
  ext i hi
  interval_cases i <;> rfl

theorem sampleAllAverage_eq_some {outcomes : Fin 4 → Vector SoilSensorResult samples}
    {results : Vector SoilSensorResult 4} :
    sampleAllAverage outcomes = some results ↔
      ∀ c : Fin 4, averageChannel (outcomes c).toList = some results[c] := by
  unfold sampleAllAverage
  constructor
  · intro h c
    obtain ⟨r0, h0, h⟩ := Option.bind_eq_some_iff.mp h
    obtain ⟨r1, h1, h⟩ := Option.bind_eq_some_iff.mp h
    obtain ⟨r2, h2, h⟩ := Option.bind_eq_some_iff.mp h
    obtain ⟨r3, h3, rfl⟩ := Option.map_eq_some_iff.mp h
    fin_cases c
    · exact h0
    · exact h1
    · exact h2
    · exact h3
  · intro h
    rw [h 0, h 1, h 2, h 3]
    exact congrArg some (vector_four results)

/-- **The average is the true mean**, on all four channels, exactly when no channel
takes samples that sum up to 2^16 or more. -/
theorem average_true_iff (outcomes : Fin 4 → Vector SoilSensorResult samples) :
    (∃ results, sampleAllAverage outcomes = some results ∧
      ∀ c : Fin 4, TrueMean (outcomes c).toList results[c]) ↔
      ∀ c, total (taken (outcomes c).toList) < 65536 := by
  constructor
  · rintro ⟨results, hrun, hmean⟩ c
    exact (averageChannel_iff _).mp ⟨_, sampleAllAverage_eq_some.mp hrun c, hmean c⟩
  · intro h
    choose r hr hmean using fun c => (averageChannel_iff (outcomes c).toList).mpr (h c)
    refine ⟨.ofFn r, sampleAllAverage_eq_some.mpr fun c => ?_, fun c => ?_⟩
    · rw [hr c, Fin.getElem_fin, Vector.getElem_ofFn]
    · rw [Fin.getElem_fin, Vector.getElem_ofFn]
      exact hmean c

/-! ## The measuring window -/

/-- What the two milliseconds allow. -/
def InWindow : SoilSensorResult → Prop
  | .timeout => True
  | .ok d => d.toNat ≤ 20000

/-- Ten samples of 700 microseconds in the low range sum up to 70000. -/
theorem average_overflows :
    let comparator : SoilSensorRange → Option Nat := fun r => if r = .low then some 700 else none
    let sample := sampleCurrentChannelAutorange id comparator
    InWindow sample ∧ ¬ ∃ results, sampleAllAverage (fun _ => .replicate samples sample) =
      some results := by
  intro comparator sample
  have hsample : sample = .ok 7000 := by decide
  have hnone : sampleAllAverage (fun _ => .replicate samples (.ok 7000)) = none := by decide +kernel
  rw [hsample]
  refine ⟨by unfold InWindow; decide, ?_⟩
  rw [hnone]
  rintro ⟨_, h⟩
  cases h

end SoilSensor

end LoraModuleFw.ModuleNode
