import Mathlib.Data.List.Basic

/-!
# Byte stuffing

A stuffing replaces every special symbol by an escape symbol and a lowered
one, so that the symbols it frees can delimit frames.  The escape is special
itself, and what follows it is never the escape again.
-/

structure Stuffing (α : Type*) where
  esc : α
  special : α → Bool
  lower : α → α
  raise : α → α
  special_esc : special esc = true
  lower_ne : ∀ a, special a = true → lower a ≠ esc
  raise_lower : ∀ a, special a = true → raise (lower a) = a

namespace Stuffing

variable {α : Type*} (S : Stuffing α)

def stuff (l : List α) : List α := l.flatMap fun a => if S.special a then [S.esc, S.lower a] else [a]

@[simp] theorem stuff_nil : S.stuff [] = [] := rfl

theorem stuff_cons_special {a : α} (l : List α) (h : S.special a = true) :
    S.stuff (a :: l) = S.esc :: S.lower a :: S.stuff l := by
  simp [stuff, h]

theorem stuff_cons_plain {a : α} (l : List α) (h : S.special a = false) :
    S.stuff (a :: l) = a :: S.stuff l := by
  simp [stuff, h]

theorem ne_esc_of_plain {a : α} (h : S.special a = false) : a ≠ S.esc := by
  rintro rfl
  rw [S.special_esc] at h
  cases h

theorem mem_stuff {x : α} {l : List α} (h : x ∈ S.stuff l) :
    x = S.esc ∨ (∃ a, S.special a = true ∧ x = S.lower a) ∨ x ∈ l ∧ S.special x = false := by
  obtain ⟨a, ha, hx⟩ := List.mem_flatMap.mp h
  split at hx
  · next hs =>
    rcases List.mem_cons.mp hx with rfl | hx
    · exact Or.inl rfl
    · exact Or.inr (Or.inl ⟨a, hs, List.mem_singleton.mp hx⟩)
  · next hs =>
    rw [List.mem_singleton.mp hx]
    exact Or.inr (Or.inr ⟨ha, Bool.eq_false_iff.mpr hs⟩)

/-- Every special symbol costs one symbol more. -/
theorem length_stuff (l : List α) : (S.stuff l).length = l.length + l.countP S.special := by
  induction l with
  | nil => rfl
  | cons a l ih =>
    cases h : S.special a with
    | true =>
      rw [S.stuff_cons_special l h, List.countP_cons_of_pos h]
      simp only [List.length_cons, ih]
      omega
    | false =>
      rw [S.stuff_cons_plain l h, List.countP_cons_of_neg (by simp [h])]
      simp only [List.length_cons, ih]
      omega

theorem length_stuff_le (l : List α) : (S.stuff l).length ≤ 2 * l.length := by
  have h := List.countP_le_length (p := S.special) (l := l)
  rw [length_stuff]
  omega

end Stuffing
