import Mathlib.Data.List.Chain
import Mathlib.Data.Fintype.Prod
import LoraModuleFw.Lib.Runs
import LoraModuleFw.ModuleNode.SoilSensor

/-! The soil sensor pin by pin: every state that `module-node/src/soil_sensor.rs`
brings its pins into, one write after another, and the samples it takes. -/

namespace LoraModuleFw.ModuleNode

open Runs

inductive Level where
  | low | high
  deriving DecidableEq, Repr

instance : Fintype Level := ⟨{.low, .high}, by rintro ⟨⟩ <;> decide⟩

/-- A `Flex` pin.  Its output level outlives the input mode, and comes back with
the output mode. -/
structure Flex where
  output : Bool
  level : Level
  deriving DecidableEq

instance : Fintype Flex :=
  .ofEquiv (Bool × Level) ⟨fun x => ⟨x.1, x.2⟩, fun p => (p.output, p.level), fun _ => rfl,
    fun _ => rfl⟩

namespace Flex

/-- A pin that nobody has configured yet. -/
def new : Flex := ⟨false, .low⟩

def setAsInput (p : Flex) : Flex := { p with output := false }
def setAsOutput (p : Flex) : Flex := { p with output := true }
def setLevel (p : Flex) (level : Level) : Flex := { p with level }

/-- The pin drives the level. -/
def Drives (p : Flex) (level : Level) : Prop := p.output = true ∧ p.level = level

instance (p : Flex) (level : Level) : Decidable (p.Drives level) :=
  inferInstanceAs (Decidable (_ ∧ _))

end Flex

/-- The outputs of the sensor; `dischg` is an open drain, which high releases. -/
structure SoilPins where
  muxIn1 : Level
  muxIn2 : Level
  muxNen : Level
  chg100k : Flex
  chg1m : Flex
  dischg : Level
  deriving DecidableEq

instance : Fintype SoilPins :=
  .ofEquiv (Level × Level × Level × Flex × Flex × Level)
    ⟨fun x => ⟨x.1, x.2.1, x.2.2.1, x.2.2.2.1, x.2.2.2.2.1, x.2.2.2.2.2⟩,
      fun p => (p.muxIn1, p.muxIn2, p.muxNen, p.chg100k, p.chg1m, p.dischg), fun _ => rfl,
      fun _ => rfl⟩

namespace SoilPins

def new : SoilPins :=
  { muxIn1 := .high, muxIn2 := .high, muxNen := .high, chg100k := .new, chg1m := .new,
    dischg := .high }

end SoilPins

/-- What the code is doing while the pins are as they are. -/
inductive SoilPhase where
  | write | discharge | measure
  deriving DecidableEq

/-- The sensor at work: its pins, the states they have been in, oldest first, and
what the comparator will do in the measurements to come (`none`, or no entry, is a
timeout). -/
structure Probe where
  pins : SoilPins
  trace : List (SoilPhase × SoilPins)
  comparator : List (Option Nat)

namespace Probe

/-! ## The code -/

def new (comparator : List (Option Nat)) : Probe :=
  { pins := .new, trace := [(.write, .new)], comparator }

/-- One write to the pins. -/
def write (s : Probe) (pins : SoilPins) : Probe :=
  { s with pins, trace := s.trace ++ [(.write, pins)] }

def setMuxIn1 (s : Probe) (level : Level) : Probe := s.write { s.pins with muxIn1 := level }
def setMuxIn2 (s : Probe) (level : Level) : Probe := s.write { s.pins with muxIn2 := level }
def setMuxNen (s : Probe) (level : Level) : Probe := s.write { s.pins with muxNen := level }
def setDischg (s : Probe) (level : Level) : Probe := s.write { s.pins with dischg := level }
def setChg100k (s : Probe) (f : Flex → Flex) : Probe :=
  s.write { s.pins with chg100k := f s.pins.chg100k }
def setChg1m (s : Probe) (f : Flex → Flex) : Probe :=
  s.write { s.pins with chg1m := f s.pins.chg1m }

/-- The timer of the discharge. -/
def discharge (s : Probe) : Probe := { s with trace := s.trace ++ [(.discharge, s.pins)] }

/-- The comparator against the timer. -/
def measure (s : Probe) : Option Nat × Probe :=
  (s.comparator.head?.join,
    { s with trace := s.trace ++ [(.measure, s.pins)], comparator := s.comparator.tail })

/-- The charge pin of the range is made an output that is low, the other an input. -/
def select (s : Probe) : SoilSensorRange → Probe
  | .low => ((s.setChg1m .setAsInput).setChg100k .setAsOutput).setChg100k (·.setLevel .low)
  | .high => ((s.setChg100k .setAsInput).setChg1m .setAsOutput).setChg1m (·.setLevel .low)

def charge (s : Probe) : SoilSensorRange → Probe
  | .low => s.setChg100k (·.setLevel .high)
  | .high => s.setChg1m (·.setLevel .high)

def sampleCurrentChannel (asMicros : Nat → Nat) (range : SoilSensorRange) (s : Probe) :
    SoilSensorResult × Probe :=
  let s := (((s.select range).setMuxNen .low).setDischg .low).discharge.setDischg .high
  let (answer, s) := (s.charge range).measure
  let s := (((s.setChg100k .setAsInput).setChg1m .setAsInput).setDischg .low).setMuxNen .high
  (SoilSensor.sampleCurrentChannel asMicros range answer, s)

def sampleCurrentChannelAutorange (asMicros : Nat → Nat) (s : Probe) : SoilSensorResult × Probe :=
  match s.sampleCurrentChannel asMicros .high with
  | (.timeout, s) => s.sampleCurrentChannel asMicros .low
  | (.ok d, s) => (.ok d, s)

def setChannel (s : Probe) (channel : UInt8) : Probe :=
  (s.setMuxIn1 (if channel &&& 1 == 1 then .high else .low)).setMuxIn2
    (if channel &&& 2 == 2 then .high else .low)

/-- The sampling loop of a channel with `n` samples to go; the outer `none` is an
addition that overflows, the inner one a timeout. -/
def sumLoop (asMicros : Nat → Nat) : (n : Nat) → (sum : UInt16) → Probe →
    Option (Option UInt16) × Probe
  | 0, sum, s => (some (some sum), s)
  | n + 1, sum, s =>
    match s.sampleCurrentChannelAutorange asMicros with
    | (.timeout, s) => (some none, s)
    | (.ok d, s) =>
      match SoilSensor.checkedAdd sum d with
      | some sum => sumLoop asMicros n sum s
      | none => (none, s)

def averageChannel (asMicros : Nat → Nat) (channel : UInt8) (s : Probe) :
    Option SoilSensorResult × Probe :=
  let (sum, s) := sumLoop asMicros SoilSensor.samples 0 (s.setChannel channel)
  (sum.map fun
    | none => .timeout
    | some sum => .ok (sum / UInt16.ofNat SoilSensor.samples), s)

/-- The channels from the given ones on. -/
def averageChannels (asMicros : Nat → Nat) : List UInt8 → Probe →
    Option (List SoilSensorResult) × Probe
  | [], s => (some [], s)
  | channel :: rest, s =>
    match s.averageChannel asMicros channel with
    | (none, s) => (none, s)
    | (some r, s) =>
      let (results, s) := averageChannels asMicros rest s
      (results.map (r :: ·), s)

def sampleAllAverage (asMicros : Nat → Nat) (s : Probe) :
    Option (List SoilSensorResult) × Probe :=
  averageChannels asMicros [0, 1, 2, 3] s

end Probe

/-! ## What is never done to the pins -/

namespace SoilPins

/-- Between two calls nothing is charged, and the multiplexer is off. -/
structure AtRest (p : SoilPins) : Prop where
  chg100k : p.chg100k.output = false
  chg1m : p.chg1m.output = false
  muxNen : p.muxNen = .high

instance (p : SoilPins) : Decidable p.AtRest :=
  decidable_of_iff (p.chg100k.output = false ∧ p.chg1m.output = false ∧ p.muxNen = .high)
    ⟨fun h => ⟨h.1, h.2.1, h.2.2⟩, fun h => ⟨h.1, h.2, h.3⟩⟩

/-- The channel is not changed while the multiplexer is on. -/
def Stable (e e' : SoilPhase × SoilPins) : Prop :=
  (e.2.muxIn1 = e'.2.muxIn1 ∧ e.2.muxIn2 = e'.2.muxIn2) ∨
    (e.2.muxNen = .high ∧ e'.2.muxNen = .high)

instance (e e' : SoilPhase × SoilPins) : Decidable (Stable e e') :=
  inferInstanceAs (Decidable (_ ∨ _))

/-- At most one charge pin is an output; none drives high against the discharge of a
channel; the sensor is discharged through one that drives low, and measured while
one charges it and the discharge is off. -/
def Safe (e : SoilPhase × SoilPins) : Prop :=
  ¬ (e.2.chg100k.output = true ∧ e.2.chg1m.output = true) ∧
  (e.2.muxNen = .low → e.2.dischg = .low →
    ¬ e.2.chg100k.Drives .high ∧ ¬ e.2.chg1m.Drives .high) ∧
  (e.1 = .discharge → e.2.muxNen = .low ∧ e.2.dischg = .low ∧
    (e.2.chg100k.Drives .low ∨ e.2.chg1m.Drives .low)) ∧
  (e.1 = .measure → e.2.muxNen = .low ∧ e.2.dischg = .high ∧
    (e.2.chg100k.Drives .high ∨ e.2.chg1m.Drives .high))

instance (e : SoilPhase × SoilPins) : Decidable (Safe e) := inferInstanceAs (Decidable (_ ∧ _))

end SoilPins

namespace Probe

open SoilPins

/-- The states that one sample goes through. -/
def sampleTrace (range : SoilSensorRange) (p : SoilPins) : List (SoilPhase × SoilPins) :=
  (sampleCurrentChannel id range ⟨p, [], []⟩).2.trace

def samplePins (range : SoilSensorRange) (p : SoilPins) : SoilPins :=
  (sampleCurrentChannel id range ⟨p, [], []⟩).2.pins

/-- A sample reads one answer and does not look at the trace. -/
theorem sampleCurrentChannel_eq (asMicros : Nat → Nat) (range : SoilSensorRange) (s : Probe) :
    s.sampleCurrentChannel asMicros range =
      (SoilSensor.sampleCurrentChannel asMicros range s.comparator.head?.join,
        { pins := samplePins range s.pins, trace := s.trace ++ sampleTrace range s.pins,
          comparator := s.comparator.tail }) := by
  cases range
  · simp [sampleCurrentChannel, sampleTrace, samplePins, select, charge, measure, discharge,
      setMuxNen, setDischg, setChg100k, setChg1m, write]
  · simp [sampleCurrentChannel, sampleTrace, samplePins, select, charge, measure, discharge,
      setMuxNen, setDischg, setChg100k, setChg1m, write]

/-- A sample of a sensor at rest, from each of the states that the pins can be in. -/
theorem sample_safe (range : SoilSensorRange) : ∀ p : SoilPins, p.AtRest →
    (∀ e ∈ sampleTrace range p, Safe e) ∧
      ((.write, p) :: sampleTrace range p).IsChain Stable ∧
      (sampleTrace range p).getLast? = some (.write, samplePins range p) ∧
      (samplePins range p).AtRest ∧ (samplePins range p).muxIn1 = p.muxIn1 ∧
      (samplePins range p).muxIn2 = p.muxIn2 := by
  cases range <;> decide +kernel

/-- The states that the selection of a channel goes through. -/
def channelTrace (channel : UInt8) (p : SoilPins) : List (SoilPhase × SoilPins) :=
  (setChannel ⟨p, [], []⟩ channel).trace

def channelPins (channel : UInt8) (p : SoilPins) : SoilPins :=
  (setChannel ⟨p, [], []⟩ channel).pins

theorem setChannel_eq (s : Probe) (channel : UInt8) :
    s.setChannel channel = { s with
      pins := channelPins channel s.pins, trace := s.trace ++ channelTrace channel s.pins } := by
  simp [setChannel, channelTrace, channelPins, setMuxIn1, setMuxIn2, write]

theorem channel_safe (channel : UInt8) (p : SoilPins) (h : p.AtRest) :
    (∀ e ∈ channelTrace channel p, Safe e) ∧
      ((.write, p) :: channelTrace channel p).IsChain Stable ∧
      (channelTrace channel p).getLast? = some (.write, channelPins channel p) ∧
      (channelPins channel p).AtRest := by
  have hwrites : ∀ (l₁ l₂ : Level) (p : SoilPins), p.AtRest →
      (∀ e ∈ ((setMuxIn1 ⟨p, [], []⟩ l₁).setMuxIn2 l₂).trace, Safe e) ∧
        ((.write, p) :: ((setMuxIn1 ⟨p, [], []⟩ l₁).setMuxIn2 l₂).trace).IsChain Stable ∧
        ((setMuxIn1 ⟨p, [], []⟩ l₁).setMuxIn2 l₂).trace.getLast? =
          some (.write, ((setMuxIn1 ⟨p, [], []⟩ l₁).setMuxIn2 l₂).pins) ∧
        ((setMuxIn1 ⟨p, [], []⟩ l₁).setMuxIn2 l₂).pins.AtRest := by
    decide +kernel
  exact hwrites _ _ p h

/-- Every state so far was safe, and the sensor is at rest. -/
structure Sound (s : Probe) : Prop where
  safe : ∀ e ∈ s.trace, Safe e
  stable : s.trace.IsChain Stable
  last : s.trace.getLast? = some (.write, s.pins)
  rest : s.pins.AtRest

theorem sound_new (comparator : List (Option Nat)) : (new comparator).Sound where
  safe := by
    intro e he
    rw [List.mem_singleton.mp he]
    decide
  stable := .singleton _
  last := rfl
  rest := ⟨rfl, rfl, rfl⟩

/-- More states behind those so far. -/
theorem Sound.extend {s : Probe} (h : s.Sound) {l : List (SoilPhase × SoilPins)} {pins : SoilPins}
    (hsafe : ∀ e ∈ l, Safe e) (hstable : ((.write, s.pins) :: l).IsChain Stable)
    (hlast : l.getLast? = some (.write, pins)) (hrest : pins.AtRest)
    (comparator : List (Option Nat)) :
    Sound { pins, trace := s.trace ++ l, comparator } where
  safe := fun e he => (List.mem_append.mp he).elim (h.safe e) (hsafe e)
  stable := by
    refine List.isChain_append.mpr ⟨h.stable, hstable.tail, ?_⟩
    intro e he e' he'
    rw [h.last] at he
    cases he
    exact hstable.rel_head? he'
  last := by
    rw [List.getLast?_append, hlast]
    rfl
  rest := hrest

theorem Sound.sampleCurrentChannel {s : Probe} (h : s.Sound) (asMicros : Nat → Nat)
    (range : SoilSensorRange) : (s.sampleCurrentChannel asMicros range).2.Sound := by
  obtain ⟨hsafe, hstable, hlast, hrest, _⟩ := sample_safe range s.pins h.rest
  rw [sampleCurrentChannel_eq]
  exact h.extend hsafe hstable hlast hrest _

theorem Sound.sampleCurrentChannelAutorange {s : Probe} (h : s.Sound) (asMicros : Nat → Nat) :
    (s.sampleCurrentChannelAutorange asMicros).2.Sound := by
  have hhigh := h.sampleCurrentChannel asMicros .high
  unfold Probe.sampleCurrentChannelAutorange
  split
  · next heq =>
    rw [heq] at hhigh
    exact hhigh.sampleCurrentChannel asMicros .low
  · next heq =>
    rw [heq] at hhigh
    exact hhigh

theorem Sound.setChannel {s : Probe} (h : s.Sound) (channel : UInt8) :
    (s.setChannel channel).Sound := by
  obtain ⟨hsafe, hstable, hlast, hrest⟩ := channel_safe channel s.pins h.rest
  rw [setChannel_eq]
  exact h.extend hsafe hstable hlast hrest _

theorem Sound.sumLoop {s : Probe} (h : s.Sound) (asMicros : Nat → Nat) (n : Nat) (sum : UInt16) :
    (sumLoop asMicros n sum s).2.Sound := by
  induction n generalizing sum s with
  | zero => exact h
  | succ n ih =>
    have hsample := h.sampleCurrentChannelAutorange asMicros
    unfold Probe.sumLoop
    split
    · next heq =>
      rw [heq] at hsample
      exact hsample
    · next heq =>
      rw [heq] at hsample
      split
      · exact ih hsample _
      · exact hsample

theorem Sound.averageChannels {s : Probe} (h : s.Sound) (asMicros : Nat → Nat)
    (channels : List UInt8) : (averageChannels asMicros channels s).2.Sound := by
  induction channels generalizing s with
  | nil => exact h
  | cons channel rest ih =>
    have hchannel : (s.averageChannel asMicros channel).2.Sound :=
      (h.setChannel channel).sumLoop asMicros SoilSensor.samples 0
    unfold Probe.averageChannels
    split
    · next heq =>
      rw [heq] at hchannel
      exact hchannel
    · next heq =>
      rw [heq] at hchannel
      exact ih hchannel

/-- What the rest of the program can call. -/
inductive Call where
  | sampleCurrentChannel (range : SoilSensorRange)
  | sampleCurrentChannelAutorange
  | setChannel (channel : UInt8)
  | sampleAllAverage

def step (asMicros : Nat → Nat) (s : Probe) : Call → Probe
  | .sampleCurrentChannel range => (s.sampleCurrentChannel asMicros range).2
  | .sampleCurrentChannelAutorange => (s.sampleCurrentChannelAutorange asMicros).2
  | .setChannel channel => s.setChannel channel
  | .sampleAllAverage => (s.sampleAllAverage asMicros).2

/-- **The pins are safe** in every state that any calls bring them into, whatever the
comparator does, and also where the sum of a channel overflows. -/
theorem pins_safe (asMicros : Nat → Nat) (comparator : List (Option Nat)) (calls : List Call) :
    (∀ e ∈ (run (step asMicros) (new comparator) calls).trace, Safe e) ∧
      (run (step asMicros) (new comparator) calls).trace.IsChain Stable ∧
      (run (step asMicros) (new comparator) calls).pins.AtRest := by
  have hsound : (run (step asMicros) (new comparator) calls).Sound := by
    refine run_invariant (P := Sound) ?_ (sound_new comparator) calls
    intro s call h
    cases call with
    | sampleCurrentChannel range => exact h.sampleCurrentChannel asMicros range
    | sampleCurrentChannelAutorange => exact h.sampleCurrentChannelAutorange asMicros
    | setChannel channel => exact h.setChannel channel
    | sampleAllAverage => exact h.averageChannels asMicros _
  exact ⟨hsound.safe, hsound.stable, hsound.rest⟩

/-! ## What is measured -/

/-- The channel that the multiplexer has on. -/
def channelOf (p : SoilPins) : Nat :=
  (if p.muxIn1 = .high then 1 else 0) + if p.muxIn2 = .high then 2 else 0

/-- The channels measured so far, in order. -/
def measured (s : Probe) : List Nat :=
  s.trace.filterMap fun e => if e.1 = .measure then some (channelOf e.2) else none

/-- The comparator in the two ranges, from its answers to come. -/
def comparatorOf (answers : List (Option Nat)) : SoilSensorRange → Option Nat
  | .high => answers.head?.join
  | .low => answers.tail.head?.join

/-- The answers behind an autoranged sample: the second range is tried where the first
times out. -/
def behindSample (answers : List (Option Nat)) : List (Option Nat) :=
  match answers.head?.join with
  | some _ => answers.tail
  | none => answers.tail.tail

/-- The samples of a channel that has `n` to go, and the answers behind them.  None is
taken behind a timeout; those it lacks are timeouts as well. -/
def drawn (asMicros : Nat → Nat) : (n : Nat) → (answers : List (Option Nat)) →
    List SoilSensorResult × List (Option Nat)
  | 0, answers => ([], answers)
  | n + 1, answers =>
    match SoilSensor.sampleCurrentChannelAutorange asMicros (comparatorOf answers) with
    | .timeout => (.replicate (n + 1) .timeout, behindSample answers)
    | .ok d =>
      let (samples, answers) := drawn asMicros n (behindSample answers)
      (.ok d :: samples, answers)

/-- The second sample is taken in the low range. -/
example : drawn id 2 [some 5, none, some 3, some 7] = ([.ok 5, .ok 30], [some 7]) := by decide

theorem length_drawn (asMicros : Nat → Nat) (n : Nat) (answers : List (Option Nat)) :
    (drawn asMicros n answers).1.length = n := by
  induction n generalizing answers with
  | zero => rfl
  | succ n ih =>
    unfold drawn
    split
    · exact List.length_replicate
    · exact congrArg Nat.succ (ih _)

/-- The answers that are left for channel `c`. -/
def answersFor (asMicros : Nat → Nat) (answers : List (Option Nat)) : (c : Nat) → List (Option Nat)
  | 0 => answers
  | c + 1 => (drawn asMicros SoilSensor.samples (answersFor asMicros answers c)).2

def samplesOf (asMicros : Nat → Nat) (answers : List (Option Nat)) (c : Nat) :
    List SoilSensorResult :=
  (drawn asMicros SoilSensor.samples (answersFor asMicros answers c)).1

/-- The samples of each channel. -/
def outcomes (asMicros : Nat → Nat) (answers : List (Option Nat)) (c : Fin 4) :
    Vector SoilSensorResult SoilSensor.samples :=
  ⟨(samplesOf asMicros answers c).toArray, List.size_toArray.trans (length_drawn asMicros _ _)⟩

end Probe

end LoraModuleFw.ModuleNode
