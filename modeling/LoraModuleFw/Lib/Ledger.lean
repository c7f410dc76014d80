import Mathlib.Data.List.Induction
import Mathlib.Data.List.Nodup

/-!
# Sending and acknowledging

A history of items sent and of acknowledgements, each of which lists items.  An
item is outstanding when no acknowledgement after its latest sending lists it.
`outstandingItems` lists these items, so that its length counts them.
-/

namespace Ledger

inductive Entry (α : Type*) where
  | sent (a : α)
  | acked (l : List α)

variable {α : Type*}

/-- The item has been sent, and no acknowledgement since its latest sending lists it. -/
def Outstanding (h : List (Entry α)) (a : α) : Prop :=
  ∃ before after, h = before ++ .sent a :: after ∧ .sent a ∉ after ∧
    ∀ l, .acked l ∈ after → a ∉ l

/-- The items sent, in order. -/
def sentItems (h : List (Entry α)) : List α :=
  h.filterMap fun
    | .sent a => some a
    | .acked _ => none

theorem not_outstanding_nil (a : α) : ¬ Outstanding [] a := by
  rintro ⟨before, after, he, _⟩
  simp at he

/-- What one more entry does to an item. -/
theorem outstanding_concat {h : List (Entry α)} {e : Entry α} {a : α} :
    Outstanding (h ++ [e]) a ↔
      e = .sent a ∨ (Outstanding h a ∧ ∀ l, e = .acked l → a ∉ l) := by
  constructor
  · rintro ⟨before, after, he, hsent, hack⟩
    rcases List.eq_nil_or_concat after with rfl | ⟨after, e', rfl⟩
    · exact Or.inl (List.singleton_inj.mp (List.append_inj_right' he rfl))
    · rw [List.concat_eq_append] at he hsent hack
      rw [← List.cons_append, ← List.append_assoc] at he
      have hinit : h = before ++ .sent a :: after := List.append_inj_left' he rfl
      have hlast : e = e' := List.singleton_inj.mp (List.append_inj_right' he rfl)
      right
      refine ⟨⟨before, after, hinit, ?_, ?_⟩, ?_⟩
      · exact fun hm => hsent (List.mem_append_left _ hm)
      · exact fun l hl => hack l (List.mem_append_left _ hl)
      · rintro l rfl
        exact hack l (by simp [hlast])
  · intro hor
    by_cases hea : e = .sent a
    · exact ⟨h, [], by rw [hea], List.not_mem_nil, fun _ hl => absurd hl List.not_mem_nil⟩
    · obtain ⟨⟨before, after, rfl, hsent, hack⟩, hlast⟩ := hor.resolve_left hea
      refine ⟨before, after ++ [e], by simp, ?_, ?_⟩
      · rw [List.mem_append, List.mem_singleton]
        rintro (hm | rfl)
        · exact hsent hm
        · exact hea rfl
      · intro l hl
        rcases List.mem_append.mp hl with hl | hl
        · exact hack l hl
        · exact hlast l (List.mem_singleton.mp hl).symm

theorem outstanding_sent {h : List (Entry α)} {a b : α} :
    Outstanding (h ++ [.sent b]) a ↔ Outstanding h a ∨ a = b := by
  simp only [outstanding_concat, Entry.sent.injEq, reduceCtorEq, false_imp_iff, implies_true,
    and_true, or_comm, eq_comm]

theorem outstanding_acked {h : List (Entry α)} {a : α} {r : List α} :
    Outstanding (h ++ [.acked r]) a ↔ Outstanding h a ∧ a ∉ r := by
  simp only [outstanding_concat, Entry.acked.injEq, reduceCtorEq, false_or, forall_eq']

theorem sentItems_sent (h : List (Entry α)) (a : α) :
    sentItems (h ++ [.sent a]) = sentItems h ++ [a] := List.filterMap_append

theorem sentItems_acked (h : List (Entry α)) (r : List α) :
    sentItems (h ++ [.acked r]) = sentItems h := by
  rw [sentItems, List.filterMap_append]
  exact List.append_nil _

/-! ## The list of outstanding items -/

variable [DecidableEq α]

/-- One entry taken into the list of outstanding items. -/
def enter (l : List α) : Entry α → List α
  | .sent a => if a ∈ l then l else l ++ [a]
  | .acked r => l.filter (· ∉ r)

/-- The outstanding items of a history, each once. -/
def outstandingItems (h : List (Entry α)) : List α := h.foldl enter []

theorem outstandingItems_concat (h : List (Entry α)) (e : Entry α) :
    outstandingItems (h ++ [e]) = enter (outstandingItems h) e := by
  rw [outstandingItems, List.foldl_append]
  rfl

theorem mem_outstandingItems {h : List (Entry α)} {a : α} :
    a ∈ outstandingItems h ↔ Outstanding h a := by
  induction h using List.reverseRecOn with
  | nil => exact iff_of_false List.not_mem_nil (not_outstanding_nil a)
  | append_singleton h e ih =>
    rw [outstandingItems_concat]
    cases e with
    | sent b =>
      rw [outstanding_sent, ← ih, enter]
      split
      · next hb =>
        refine ⟨Or.inl, ?_⟩
        rintro (ha | rfl)
        · exact ha
        · exact hb
      · rw [List.mem_append, List.mem_singleton]
    | acked r =>
      rw [outstanding_acked, ← ih, enter, List.mem_filter, decide_eq_true_eq]

theorem nodup_outstandingItems (h : List (Entry α)) : (outstandingItems h).Nodup := by
  induction h using List.reverseRecOn with
  | nil => exact List.nodup_nil
  | append_singleton h e ih =>
    rw [outstandingItems_concat]
    cases e with
    | sent b =>
      rw [enter]
      split
      · exact ih
      · next hb => exact List.concat_eq_append ▸ ih.concat hb
    | acked r => exact ih.filter _

/-- Any list that has exactly the outstanding items, each once, is as long. -/
theorem length_eq_of_mem_iff {h : List (Entry α)} {l : List α} (hn : l.Nodup)
    (hm : ∀ a, a ∈ l ↔ Outstanding h a) : l.length = (outstandingItems h).length := by
  apply List.Perm.length_eq
  rw [List.perm_ext_iff_of_nodup hn (nodup_outstandingItems h)]
  intro a
  rw [hm, mem_outstandingItems]

end Ledger
