import Mathlib.Logic.Function.Iterate

/-!
# Bounded retries

A loop makes attempts, a given number at most.  An attempt stops the loop with a
result or leaves an error behind, and the last error is the answer of a loop that
runs out of attempts.  A loop without attempts has no error to answer with.
-/

namespace Retry

variable {σ α ε : Type*}

inductive Outcome (α ε : Type*) where
  | stop (a : α)
  | again (e : ε)

/-- The loop with `n` attempts to go and the error of the attempt before. -/
def retry (attempt : σ → Outcome α ε × σ) : ℕ → Option ε → σ → Option (Outcome α ε × σ)
  | 0, last, s => last.map fun e => (.again e, s)
  | n + 1, _, s =>
    match attempt s with
    | (.stop a, s) => some (.stop a, s)
    | (.again e, s) => retry attempt n (some e) s

/-- The state after `n` attempts. -/
def after (attempt : σ → Outcome α ε × σ) (n : ℕ) (s : σ) : σ := (fun s => (attempt s).2)^[n] s

/-- The first `n` attempts all ask for another. -/
def Failing (attempt : σ → Outcome α ε × σ) (n : ℕ) (s : σ) : Prop :=
  ∀ i < n, ∃ e, (attempt (after attempt i s)).1 = .again e

variable {attempt : σ → Outcome α ε × σ}

theorem after_succ (n : ℕ) (s : σ) : after attempt (n + 1) s = after attempt n (attempt s).2 := rfl

theorem after_succ' (n : ℕ) (s : σ) :
    after attempt (n + 1) s = (attempt (after attempt n s)).2 :=
  Function.iterate_succ_apply' ..

theorem failing_zero (s : σ) : Failing attempt 0 s := fun _ h => absurd h (Nat.not_lt_zero _)

theorem Failing.mono {m n : ℕ} {s : σ} (h : Failing attempt n s) (hle : m ≤ n) :
    Failing attempt m s :=
  fun i hi => h i (Nat.lt_of_lt_of_le hi hle)

/-- One more failing attempt in front. -/
theorem Failing.cons {n : ℕ} {s : σ} {e : ε} (he : (attempt s).1 = .again e)
    (h : Failing attempt n (attempt s).2) : Failing attempt (n + 1) s := by
  intro i hi
  cases i with
  | zero => exact ⟨e, he⟩
  | succ i =>
    rw [after_succ]
    exact h i (Nat.lt_of_succ_lt_succ hi)

theorem retry_stop {n : ℕ} {last : Option ε} {s : σ} {a : α} (h : (attempt s).1 = .stop a) :
    retry attempt (n + 1) last s = some (.stop a, (attempt s).2) := by
  unfold retry
  rcases ha : attempt s with ⟨o, t⟩
  rw [ha] at h
  cases h
  rfl

theorem retry_again {n : ℕ} {last : Option ε} {s : σ} {e : ε} (h : (attempt s).1 = .again e) :
    retry attempt (n + 1) last s = retry attempt n (some e) (attempt s).2 := by
  rcases ha : attempt s with ⟨o, t⟩
  rw [ha] at h
  cases h
  rw [retry, ha]

/-- **Exactness.**  A loop ends with the first attempt that stops it, or with the
error of its last attempt. -/
theorem retry_cases (n : ℕ) (last : Option ε) (s : σ) :
    (∃ k a, k ≤ n ∧ Failing attempt k s ∧ (attempt (after attempt k s)).1 = .stop a ∧
      retry attempt (n + 1) last s = some (.stop a, after attempt (k + 1) s)) ∨
    (∃ e, Failing attempt (n + 1) s ∧ (attempt (after attempt n s)).1 = .again e ∧
      retry attempt (n + 1) last s = some (.again e, after attempt (n + 1) s)) := by
  induction n generalizing last s with
  | zero =>
    cases ho : (attempt s).1 with
    | stop a => exact Or.inl ⟨0, a, Nat.le_refl 0, failing_zero s, ho, retry_stop ho⟩
    | again e => exact Or.inr ⟨e, (failing_zero _).cons ho, ho, retry_again ho⟩
  | succ n ih =>
    cases ho : (attempt s).1 with
    | stop a => exact Or.inl ⟨0, a, Nat.zero_le _, failing_zero s, ho, retry_stop ho⟩
    | again e =>
      rw [retry_again ho]
      rcases ih (some e) (attempt s).2 with ⟨k, a, hk, hfail, hstop, hrun⟩ | ⟨e', hfail, hlast, hrun⟩
      · exact Or.inl ⟨k + 1, a, Nat.succ_le_succ hk, hfail.cons ho, hstop, hrun⟩
      · exact Or.inr ⟨e', hfail.cons ho, hlast, hrun⟩

/-- A loop that was stopped was stopped by its last attempt. -/
theorem retry_eq_stop {n : ℕ} {last : Option ε} {s t : σ} {a : α}
    (h : retry attempt n last s = some (.stop a, t)) :
    ∃ k < n, Failing attempt k s ∧ (attempt (after attempt k s)).1 = .stop a ∧
      t = after attempt (k + 1) s := by
  cases n with
  | zero =>
    obtain ⟨e, _, he⟩ := Option.map_eq_some_iff.mp h
    cases he
  | succ n =>
    rcases retry_cases n last s with ⟨k, a', hk, hfail, hstop, hrun⟩ | ⟨e, _, _, hrun⟩
    · rw [h] at hrun
      cases hrun
      exact ⟨k, Nat.lt_succ_of_le hk, hfail, hstop, rfl⟩
    · rw [h] at hrun
      cases hrun

/-- **Invariant rule.**  What failing attempts keep and count holds after them. -/
theorem Failing.invariant {P : ℕ → σ → Prop} {n : ℕ} {s : σ} (h : Failing attempt n s)
    (hstep : ∀ i t e, P i t → (attempt t).1 = .again e → P (i + 1) (attempt t).2) (hs : P 0 s) :
    P n (after attempt n s) := by
  induction n with
  | zero => exact hs
  | succ n ih =>
    obtain ⟨e, he⟩ := h n (Nat.lt_succ_self n)
    rw [after_succ']
    exact hstep n _ e (ih (h.mono (Nat.le_succ n))) he

theorem retry_isSome {n : ℕ} (h : n ≠ 0) (last : Option ε) (s : σ) :
    ∃ r, retry attempt n last s = some r := by
  obtain ⟨n, rfl⟩ := Nat.exists_eq_succ_of_ne_zero h
  rcases retry_cases n last s with ⟨k, a, _, _, _, hrun⟩ | ⟨e, _, _, hrun⟩
  · exact ⟨_, hrun⟩
  · exact ⟨_, hrun⟩

end Retry
