import Mathlib.Data.List.Basic

/-!
# Cyclic redundancy checks

A register of `w` bits takes in a message bit by bit, its top bit out first.  The
step is linear: damage to a message shows in the register as the same damage to a
message of zeros does in an empty one.  A polynomial with a constant term misses
no damage within `w` bits, and no pair of bits until its powers come round.
-/

namespace Crc

variable {w : ℕ}

def step (poly s : BitVec w) (b : Bool) : BitVec w :=
  if s.msb = b then s <<< 1 else s <<< 1 ^^^ poly

def feed (poly s : BitVec w) (bits : List Bool) : BitVec w := bits.foldl (step poly) s

/-- The bits of a register, top bit first. -/
def bitsOf (s : BitVec w) : List Bool := (List.range w).map s.getMsbD

/-- A message whose bits are flipped where the pattern says so. -/
def damage (pattern message : List Bool) : List Bool := List.zipWith xor message pattern

/-- The flipped bits lie within `n` bits. -/
def Burst (n : ℕ) (pattern : List Bool) : Prop :=
  ∃ i b j, pattern = List.replicate i false ++ b ++ List.replicate j false ∧
    b.length ≤ n ∧ true ∈ b

/-- Two flipped bits, anywhere. -/
def Pair (pattern : List Bool) : Prop :=
  ∃ i k j, pattern = List.replicate i false ++ true :: List.replicate k false ++
    true :: List.replicate j false

variable {poly s t : BitVec w}

@[simp] theorem feed_nil : feed poly s [] = s := rfl

@[simp] theorem feed_cons (b : Bool) (l : List Bool) :
    feed poly s (b :: l) = feed poly (step poly s b) l := rfl

theorem feed_append (l l' : List Bool) :
    feed poly s (l ++ l') = feed poly (feed poly s l) l' := List.foldl_append ..

/-! ## Linearity -/

theorem step_xor (s t : BitVec w) (b c : Bool) :
    step poly (s ^^^ t) (b ^^ c) = step poly s b ^^^ step poly t c := by
  have hcancel : s <<< 1 ^^^ poly ^^^ (t <<< 1 ^^^ poly) = s <<< 1 ^^^ t <<< 1 := by
    rw [BitVec.xor_comm (t <<< 1), BitVec.xor_assoc, ← BitVec.xor_assoc poly, BitVec.xor_self,
      BitVec.zero_xor]
  have hleft : s <<< 1 ^^^ poly ^^^ t <<< 1 = s <<< 1 ^^^ t <<< 1 ^^^ poly := by
    rw [BitVec.xor_assoc, BitVec.xor_comm poly, BitVec.xor_assoc]
  unfold step
  rw [BitVec.msb_xor, BitVec.shiftLeft_xor_distrib]
  cases s.msb <;> cases t.msb <;> cases b <;> cases c <;>
    simp [hcancel, hleft, BitVec.xor_assoc]

theorem feed_xor (s t : BitVec w) {l e : List Bool} (h : l.length = e.length) :
    feed poly (s ^^^ t) (List.zipWith xor l e) = feed poly s l ^^^ feed poly t e := by
  induction l generalizing s t e with
  | nil =>
    rw [List.length_eq_zero_iff.mp h.symm]
    rfl
  | cons b l ih =>
    cases e with
    | nil => cases h
    | cons c e =>
      rw [List.zipWith_cons_cons, feed_cons, step_xor]
      exact ih _ _ (Nat.succ.inj h)

/-- What damage does to the register depends on the pattern alone. -/
theorem feed_damage {message pattern : List Bool} (h : pattern.length = message.length) :
    feed poly s (damage pattern message) = feed poly s message ^^^ feed poly 0#w pattern := by
  rw [← feed_xor s 0#w h.symm, BitVec.xor_zero]
  rfl

theorem feed_zero_false (n : ℕ) : feed poly 0#w (List.replicate n false) = 0#w := by
  induction n with
  | zero => rfl
  | succ n ih =>
    have hstep : step poly 0#w false = 0#w := by simp [step]
    rw [List.replicate_succ, feed_cons, hstep, ih]

/-- A register whose shift is empty has its top bit at most. -/
theorem getLsbD_of_shiftLeft_eq_zero (h : s <<< 1 = 0#w) {i : ℕ} (hi : i + 1 < w) :
    s.getLsbD i = false := by
  have hbit : (s <<< 1).getLsbD (i + 1) = false := by rw [h, BitVec.getLsbD_zero]
  rwa [BitVec.getLsbD_shiftLeft, decide_eq_true hi, decide_eq_false (by omega), Bool.true_and,
    Bool.not_false, Bool.true_and] at hbit

/-! ## What a polynomial with a constant term catches -/

section Odd

variable (hodd : poly.getLsbD 0 = true)
include hodd

theorem pos_of_odd : 0 < w := by
  by_contra hw
  rw [BitVec.getLsbD_of_ge poly 0 (by omega)] at hodd
  cases hodd

/-- Zeros never empty the register. -/
theorem step_false_ne_zero (h : s ≠ 0#w) : step poly s false ≠ 0#w := by
  have hw := pos_of_odd hodd
  unfold step
  split
  · next hmsb =>
    intro hz
    apply h
    apply BitVec.eq_of_getLsbD_eq
    intro i hi
    rw [BitVec.getLsbD_zero]
    by_cases hlast : i = w - 1
    · rw [hlast, ← BitVec.msb_eq_getLsbD_last]
      exact hmsb
    · exact getLsbD_of_shiftLeft_eq_zero hz (by omega)
  · intro hz
    have hbit := congrArg (fun v => v.getLsbD 0) hz
    simp [hodd] at hbit

theorem feed_false_ne_zero (h : s ≠ 0#w) (n : ℕ) :
    feed poly s (List.replicate n false) ≠ 0#w := by
  induction n generalizing s with
  | zero => exact h
  | succ n ih => exact ih (step_false_ne_zero hodd h)

/-- A register with a bit set among its lowest `k` has one among its lowest `k + 1` a step on. -/
theorem step_low {k : ℕ} (hk : k < w) (h : ∃ i < k, s.getLsbD i = true) (b : Bool) :
    ∃ i < k + 1, (step poly s b).getLsbD i = true := by
  obtain ⟨i, hi, hbit⟩ := h
  unfold step
  split
  · exact ⟨i + 1, by omega, by simp [hbit, show i + 1 < w by omega]⟩
  · exact ⟨0, by omega, by simp [hodd]⟩

theorem feed_low (l : List Bool) {k : ℕ} (hk : k + l.length ≤ w)
    (h : ∃ i < k, s.getLsbD i = true) : feed poly s l ≠ 0#w := by
  induction l generalizing s k with
  | nil =>
    obtain ⟨i, _, hbit⟩ := h
    rintro rfl
    simp at hbit
  | cons b l ih =>
    rw [List.length_cons] at hk
    exact ih (by omega) (step_low hodd (by omega) h b)

/-- The first flipped bit leaves the polynomial in an empty register. -/
theorem step_zero_true : step poly 0#w true = poly := by
  have hw := pos_of_odd hodd
  simp [step]

/-- **Bursts are caught.** -/
theorem feed_burst {pattern : List Bool} (h : Burst w pattern) : feed poly 0#w pattern ≠ 0#w := by
  obtain ⟨i, b, j, rfl, hlen, hmem⟩ := h
  obtain ⟨before, after, rfl, hfirst⟩ := List.eq_append_cons_of_mem hmem
  have hbefore : before = List.replicate before.length false := by
    rw [List.eq_replicate_iff]
    exact ⟨rfl, fun c hc => Bool.eq_false_iff.mpr fun ht => hfirst (ht ▸ hc)⟩
  rw [List.length_append, List.length_cons] at hlen
  rw [feed_append, feed_append, feed_zero_false, hbefore, feed_append, feed_zero_false, feed_cons,
    step_zero_true hodd]
  exact feed_false_ne_zero hodd
    (feed_low hodd after (k := 1) (by omega) ⟨0, Nat.one_pos, hodd⟩) j

/-- Only a register with its top bit alone is emptied by a flipped bit. -/
theorem eq_twoPow_of_step_true (h : step poly s true = 0#w) : s = BitVec.twoPow w (w - 1) := by
  have hw := pos_of_odd hodd
  unfold step at h
  split at h
  · next hmsb =>
    apply BitVec.eq_of_getLsbD_eq
    intro i hi
    rw [BitVec.getLsbD_twoPow]
    by_cases hlast : i = w - 1
    · rw [hlast, ← BitVec.msb_eq_getLsbD_last, hmsb, decide_eq_true (by omega),
        decide_eq_true rfl, Bool.true_and]
    · rw [getLsbD_of_shiftLeft_eq_zero h (by omega), decide_eq_false (Ne.symm hlast),
        Bool.and_false]
  · have hbit := congrArg (fun v => v.getLsbD 0) h
    simp [hodd] at hbit

/-- **Pairs are caught** until the powers of the polynomial come round. -/
theorem feed_pair {n : ℕ} {pattern : List Bool} (h : Pair pattern) (hlen : pattern.length ≤ n + 1)
    (havoid : ∀ k < n, feed poly poly (List.replicate k false) ≠ BitVec.twoPow w (w - 1)) :
    feed poly 0#w pattern ≠ 0#w := by
  obtain ⟨i, k, j, rfl⟩ := h
  have hk : k < n := by
    simp only [List.length_append, List.length_cons, List.length_replicate] at hlen
    omega
  rw [feed_append, feed_append, feed_zero_false, feed_cons, feed_cons, step_zero_true hodd]
  exact feed_false_ne_zero hodd (fun hz => havoid k hk (eq_twoPow_of_step_true hodd hz)) j

end Odd

/-- None of the next `n` registers that zeros lead to is `t`. -/
def avoids (poly t : BitVec w) : ℕ → BitVec w → Bool
  | 0, _ => true
  | n + 1, s => s != t && avoids poly t n (step poly s false)

theorem feed_ne_of_avoids {n : ℕ} (h : avoids poly t n s = true) :
    ∀ k < n, feed poly s (List.replicate k false) ≠ t := by
  induction n generalizing s with
  | zero => exact fun k hk => absurd hk (Nat.not_lt_zero k)
  | succ n ih =>
    rw [avoids, Bool.and_eq_true, bne_iff_ne] at h
    intro k hk
    cases k with
    | zero => exact h.1
    | succ k => exact ih h.2 k (Nat.lt_of_succ_lt_succ hk)

/-! ## The appended check -/

theorem feed_bitsOf_take (s : BitVec w) {k : ℕ} (hk : k ≤ w) :
    feed poly s ((bitsOf s).take k) = s <<< k := by
  induction k with
  | zero => simp
  | succ k ih =>
    have hlen : k < (bitsOf s).length := by
      rw [bitsOf, List.length_map, List.length_range]
      exact hk
    have hbit : (bitsOf s)[k] = (s <<< k).msb := by
      simp [bitsOf, BitVec.msb_shiftLeft]
    rw [List.take_succ_eq_append_getElem hlen, feed_append, ih (by omega), hbit, feed_cons,
      feed_nil, step, if_pos rfl, ← BitVec.shiftLeft_add]

/-- **A register empties on its own bits.** -/
theorem feed_bitsOf (s : BitVec w) : feed poly s (bitsOf s) = 0#w := by
  have hlen : (bitsOf s).length = w := by rw [bitsOf, List.length_map, List.length_range]
  have htake : feed poly s ((bitsOf s).take w) = s <<< w := feed_bitsOf_take s (Nat.le_refl w)
  rw [List.take_of_length_le (Nat.le_of_eq hlen)] at htake
  rw [htake, BitVec.shiftLeft_eq_zero (Nat.le_refl w)]

end Crc
