import Mathlib.Data.List.Basic

/-!
# Runs

A program that reacts to inputs one at a time is a step function; a run folds
it over a list of inputs.  `run` is for total steps, `runOpt` for steps that
may stop the program (`none`).  `Along step C s l` says that every step of the
run meets `C`, a condition on the state before the step and its input.
-/

namespace Runs

variable {σ τ α : Type*}

/-! ## Total steps -/

def run (step : σ → α → σ) (s : σ) (l : List α) : σ := l.foldl step s

@[simp] theorem run_nil (step : σ → α → σ) (s : σ) : run step s [] = s := rfl

@[simp] theorem run_cons (step : σ → α → σ) (s : σ) (a : α) (l : List α) :
    run step s (a :: l) = run step (step s a) l := rfl

/-- Every step of the run from `s` over the list meets `C`. -/
def Along (step : σ → α → σ) (C : σ → α → Prop) : σ → List α → Prop
  | _, [] => True
  | s, a :: l => C s a ∧ Along step C (step s a) l

instance Along.decidable (step : σ → α → σ) (C : σ → α → Prop) [∀ s a, Decidable (C s a)] :
    (s : σ) → (l : List α) → Decidable (Along step C s l)
  | _, [] => .isTrue trivial
  | s, a :: l =>
    have := Along.decidable step C (step s a) l
    inferInstanceAs (Decidable (C s a ∧ Along step C (step s a) l))

/-- **Invariant rule.**  What holds at the start and survives every step that
meets `C` on an input with `A` holds after every run of such steps. -/
theorem Along.invariant {step : σ → α → σ} {C : σ → α → Prop} {P : σ → Prop} {A : α → Prop}
    (hstep : ∀ s a, P s → A a → C s a → P (step s a)) {s : σ} {l : List α}
    (hs : P s) (hl : ∀ a ∈ l, A a) (h : Along step C s l) : P (run step s l) := by
  induction l generalizing s with
  | nil => exact hs
  | cons a l ih =>
    exact ih (hstep s a hs (hl a (by simp)) h.1) (fun b hb => hl b (by simp [hb])) h.2

theorem run_invariant {step : σ → α → σ} {P : σ → Prop}
    (hstep : ∀ s a, P s → P (step s a)) {s : σ} (hs : P s) (l : List α) :
    P (run step s l) := by
  induction l generalizing s with
  | nil => exact hs
  | cons a l ih => exact ih (hstep s a hs)

theorem run_append (step : σ → α → σ) (s : σ) (l l' : List α) :
    run step s (l ++ l') = run step (run step s l) l' := List.foldl_append ..

/-- Where an invariant `I` holds, a property of the states holds all along a run from
a state with it exactly when every step meets the condition that keeps it. -/
theorem forall_prefix_iff_along {step : σ → α → σ} {C : σ → α → Prop} {I P : σ → Prop}
    {A : α → Prop} (hinv : ∀ s a, I s → I (step s a))
    (hstep : ∀ s a, I s → P s → A a → (P (step s a) ↔ C s a)) {s : σ} (hI : I s)
    (hs : P s) {l : List α} (hl : ∀ a ∈ l, A a) :
    (∀ l', l' <+: l → P (run step s l')) ↔ Along step C s l := by
  induction l generalizing s with
  | nil =>
    refine iff_of_true (fun l' hl' => ?_) trivial
    rw [List.prefix_nil.mp hl']
    exact hs
  | cons a l ih =>
    have hkeep := hstep s a hI hs (hl a List.mem_cons_self)
    have hrest : ∀ b ∈ l, A b := fun b hb => hl b (List.mem_cons_of_mem a hb)
    constructor
    · intro h
      have hgood : P (step s a) := h [a] ⟨l, rfl⟩
      refine ⟨hkeep.mp hgood, (ih (hinv s a hI) hgood hrest).mp fun l' hl' => ?_⟩
      exact h (a :: l') (List.cons_prefix_cons.mpr ⟨rfl, hl'⟩)
    · rintro ⟨hc, halong⟩ l' hl'
      have hgood := hkeep.mpr hc
      cases l' with
      | nil => exact hs
      | cons b l' =>
        obtain ⟨rfl, hpre⟩ := List.cons_prefix_cons.mp hl'
        exact (ih (hinv s b hI) hgood hrest).mpr halong l' hpre

/-! ## Steps that answer -/

/-- The answers of a machine to its inputs. -/
def outputs {β : Type*} (step : σ → α → β × σ) : σ → List α → List β
  | _, [] => []
  | s, a :: l => (step s a).1 :: outputs step (step s a).2 l

/-- **Bisimulation rule.**  Related states answer alike. -/
theorem outputs_eq {β : Type*} {step : σ → α → β × σ} {step' : τ → α → β × τ} {R : σ → τ → Prop}
    (hstep : ∀ s t a, R s t → (step s a).1 = (step' t a).1 ∧ R (step s a).2 (step' t a).2)
    {s : σ} {t : τ} (h : R s t) (l : List α) : outputs step s l = outputs step' t l := by
  induction l generalizing s t with
  | nil => rfl
  | cons a l ih =>
    obtain ⟨ho, hr⟩ := hstep s t a h
    rw [outputs, outputs, ho, ih hr]

/-! ## Steps that may stop the program -/

def runOpt (step : σ → α → Option σ) : σ → List α → Option σ
  | s, [] => some s
  | s, a :: l => (step s a).bind fun s' => runOpt step s' l

@[simp] theorem runOpt_nil (step : σ → α → Option σ) (s : σ) :
    runOpt step s [] = some s := rfl

theorem runOpt_cons {step : σ → α → Option σ} {s t : σ} {a : α} {l : List α} :
    runOpt step s (a :: l) = some t ↔
      ∃ s', step s a = some s' ∧ runOpt step s' l = some t := by
  simp [runOpt, Option.bind_eq_some_iff]

theorem runOpt_append {step : σ → α → Option σ} {s t : σ} {l l' : List α} :
    runOpt step s (l ++ l') = some t ↔
      ∃ u, runOpt step s l = some u ∧ runOpt step u l' = some t := by
  induction l generalizing s with
  | nil => simp
  | cons a l ih =>
    rw [List.cons_append, runOpt_cons]
    constructor
    · rintro ⟨s', hs, h⟩
      obtain ⟨u, hu, ht⟩ := ih.mp h
      exact ⟨u, runOpt_cons.mpr ⟨s', hs, hu⟩, ht⟩
    · rintro ⟨u, hu, ht⟩
      obtain ⟨s', hs, h⟩ := runOpt_cons.mp hu
      exact ⟨s', hs, ih.mpr ⟨u, h, ht⟩⟩

theorem runOpt_concat {step : σ → α → Option σ} {s t : σ} {l : List α} {a : α} :
    runOpt step s (l ++ [a]) = some t ↔ ∃ u, runOpt step s l = some u ∧ step u a = some t := by
  rw [runOpt_append]
  simp only [runOpt_cons, runOpt_nil, Option.some.injEq, exists_eq_right]

/-- The invariant rule for runs that may stop; `A` is what the inputs promise. -/
theorem runOpt_invariant {step : σ → α → Option σ} {P : σ → Prop} {A : α → Prop}
    (hstep : ∀ s a s', P s → A a → step s a = some s' → P s') {s t : σ} {l : List α}
    (hs : P s) (hl : ∀ a ∈ l, A a) (h : runOpt step s l = some t) : P t := by
  induction l generalizing s with
  | nil => cases h; exact hs
  | cons a l ih =>
    obtain ⟨s', hs', ht⟩ := runOpt_cons.mp h
    exact ih (hstep s a s' hs (hl a (by simp)) hs') (fun b hb => hl b (by simp [hb])) ht

/-- **Totality rule.**  Steps that never stop where the invariant holds run as the
total ones do. -/
theorem runOpt_eq_run {step : σ → α → σ} {step' : σ → α → Option σ} {I : σ → Prop}
    (hstep : ∀ s a, I s → step' s a = some (step s a) ∧ I (step s a)) {s : σ} (hs : I s)
    (l : List α) : runOpt step' s l = some (run step s l) ∧ I (run step s l) := by
  induction l generalizing s with
  | nil => exact ⟨rfl, hs⟩
  | cons a l ih =>
    obtain ⟨hnext, hI⟩ := hstep s a hs
    rw [runOpt, hnext, Option.bind_some]
    exact ih hI

/-- A machine that keeps a log of its run. -/
def logged (step : σ → α → Option σ) (record : σ → α → τ → τ) (s : σ × τ) (a : α) :
    Option (σ × τ) :=
  (step s.1 a).map fun s' => (s', record s.1 a s.2)

theorem logged_eq_some {step : σ → α → Option σ} {record : σ → α → τ → τ} {s s' : σ} {l l' : τ}
    {a : α} :
    logged step record (s, l) a = some (s', l') ↔ step s a = some s' ∧ l' = record s a l := by
  simp only [logged, Option.map_eq_some_iff, Prod.mk.injEq]
  constructor
  · rintro ⟨t, ht, rfl, rfl⟩
    exact ⟨ht, rfl⟩
  · rintro ⟨hs, rfl⟩
    exact ⟨s', hs, rfl, rfl⟩

/-- What a run puts out, step by step. -/
def emitted {β : Type*} (step : σ → α → Option σ) (out : σ → α → List β) : σ → List α → List β
  | _, [] => []
  | s, a :: l => out s a ++ (step s a).elim [] fun s' => emitted step out s' l

theorem emitted_cons {β : Type*} {step : σ → α → Option σ} {s s' : σ} {a : α}
    (h : step s a = some s') (out : σ → α → List β) (l : List α) :
    emitted step out s (a :: l) = out s a ++ emitted step out s' l := by
  rw [emitted, h, Option.elim_some]

/-- Every step that the run takes meets `C`. -/
def AlongOpt (step : σ → α → Option σ) (C : σ → α → Prop) : σ → List α → Prop
  | _, [] => True
  | s, a :: l => ∀ s', step s a = some s' → C s a ∧ AlongOpt step C s' l

instance AlongOpt.decidable (step : σ → α → Option σ) (C : σ → α → Prop)
    [∀ s a, Decidable (C s a)] : (s : σ) → (l : List α) → Decidable (AlongOpt step C s l)
  | _, [] => .isTrue trivial
  | s, a :: l =>
    match h : step s a with
    | none => .isTrue fun _ hs' => nomatch h.symm.trans hs'
    | some s' =>
      have := AlongOpt.decidable step C s' l
      decidable_of_iff (C s a ∧ AlongOpt step C s' l)
        ⟨fun hc _ hs' => Option.some.inj (h.symm.trans hs') ▸ hc, fun hc => hc s' h⟩

theorem AlongOpt.forall_prefix {step : σ → α → Option σ} {C : σ → α → Prop} {P : σ → Prop}
    (hstep : ∀ s a s', P s → C s a → step s a = some s' → P s') {s : σ} (hs : P s) {l : List α}
    (h : AlongOpt step C s l) : ∀ l' t, l' <+: l → runOpt step s l' = some t → P t := by
  induction l generalizing s with
  | nil =>
    intro l' t hl ht
    rw [List.prefix_nil.mp hl] at ht
    cases ht
    exact hs
  | cons a l ih =>
    intro l' t hl ht
    rcases l' with _ | ⟨b, l'⟩
    · cases ht
      exact hs
    · obtain ⟨rfl, hl'⟩ := List.cons_prefix_cons.mp hl
      obtain ⟨s', hs', ht'⟩ := runOpt_cons.mp ht
      obtain ⟨hc, hrest⟩ := h s' hs'
      exact ih (hstep s b s' hs hc hs') hrest l' t hl' ht'

theorem AlongOpt.of_forall_prefix {step : σ → α → Option σ} {C : σ → α → Prop} {P : σ → Prop}
    (hstep : ∀ s a s', P s → step s a = some s' → P s' → C s a) {s : σ} {l : List α}
    (h : ∀ l' t, l' <+: l → runOpt step s l' = some t → P t) : AlongOpt step C s l := by
  induction l generalizing s with
  | nil => trivial
  | cons a l ih =>
    intro s' hs'
    have hgood : P s := h [] s (List.nil_prefix ..) rfl
    have hgood' : P s' := h [a] s' ⟨l, rfl⟩ (runOpt_cons.mpr ⟨s', hs', rfl⟩)
    refine ⟨hstep s a s' hgood hs' hgood', ih fun l' t hl ht => ?_⟩
    exact h (a :: l') t (List.cons_prefix_cons.mpr ⟨rfl, hl⟩) (runOpt_cons.mpr ⟨s', hs', ht⟩)

/-- A run whose bad steps are exactly those that violate `C` stays good exactly
when all its steps meet `C`. -/
theorem forall_prefix_iff_alongOpt {step : σ → α → Option σ} {C : σ → α → Prop}
    {Good : σ → Prop}
    (hstep : ∀ s a s', Good s → step s a = some s' → (Good s' ↔ C s a)) {s : σ} (hs : Good s)
    (l : List α) :
    (∀ l' t, l' <+: l → runOpt step s l' = some t → Good t) ↔ AlongOpt step C s l :=
  ⟨AlongOpt.of_forall_prefix fun s a s' hg h => (hstep s a s' hg h).mp,
    AlongOpt.forall_prefix (fun s a s' hg hc h => (hstep s a s' hg h).mpr hc) hs⟩

/-! ## What a machine can reach -/

/-- Some run whose steps meet `C` leads from `s` to `t`. -/
def Leads (step : σ → α → Option σ) (C : σ → α → Prop) (s t : σ) : Prop :=
  ∃ l, AlongOpt step C s l ∧ runOpt step s l = some t

namespace Leads

variable {step : σ → α → Option σ} {C : σ → α → Prop} {s t u : σ}

theorem refl (s : σ) : Leads step C s s := ⟨[], trivial, rfl⟩

theorem head {a : α} (hs : step s a = some t) (hc : C s a) (h : Leads step C t u) :
    Leads step C s u := by
  obtain ⟨l, hl, hrun⟩ := h
  refine ⟨a :: l, ?_, runOpt_cons.mpr ⟨t, hs, hrun⟩⟩
  intro s' hs'
  cases hs.symm.trans hs'
  exact ⟨hc, hl⟩

theorem single {a : α} (hs : step s a = some t) (hc : C s a) : Leads step C s t :=
  head hs hc (refl t)

theorem trans (h : Leads step C s t) (h' : Leads step C t u) : Leads step C s u := by
  obtain ⟨l, hl, hrun⟩ := h
  induction l generalizing s with
  | nil =>
    cases hrun
    exact h'
  | cons a l ih =>
    obtain ⟨s', hs', hrun⟩ := runOpt_cons.mp hrun
    obtain ⟨hc, hl⟩ := hl s' hs'
    exact head hs' hc (ih hl hrun)

theorem mono {D : σ → α → Prop} (hcd : ∀ s a, C s a → D s a) (h : Leads step C s t) :
    Leads step D s t := by
  obtain ⟨l, hl, hrun⟩ := h
  induction l generalizing s with
  | nil =>
    cases hrun
    exact refl _
  | cons a l ih =>
    obtain ⟨s', hs', hrun⟩ := runOpt_cons.mp hrun
    obtain ⟨hc, hl⟩ := hl s' hs'
    exact head hs' (hcd s a hc) (ih hl hrun)

theorem invariant {P : σ → Prop} (hstep : ∀ s a s', P s → C s a → step s a = some s' → P s')
    (h : Leads step C s t) (hs : P s) : P t := by
  obtain ⟨l, hl, hrun⟩ := h
  exact AlongOpt.forall_prefix hstep hs hl l t (List.prefix_refl _) hrun

end Leads

end Runs
