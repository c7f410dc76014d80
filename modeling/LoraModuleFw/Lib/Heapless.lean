import Mathlib.Data.List.Nodup
import Mathlib.Data.List.Perm.Basic

/-!
# Fixed-capacity containers

`Vec α N` is a list of at most `N` elements and `IndexMap K V N` an
insertion-ordered map of at most `N` entries with distinct keys; both carry
their bound, so a value over capacity cannot be built.  An operation that can
run out of room returns `none` then.  Removal is by swap-remove: the last
element takes the place of the removed one.
-/

namespace Heapless

/-- Remove position `i`, moving the last element into its place. -/
def swapRemove {α : Type*} (l : List α) (i : Nat) : List α :=
  match l.getLast? with
  | none => l
  | some x => (l.set i x).dropLast

theorem swapRemove_concat {α : Type*} (l : List α) (x : α) (i : Nat) :
    swapRemove (l ++ [x]) i = if i < l.length then l.set i x else l := by
  simp only [swapRemove, List.getLast?_append, List.getLast?_singleton, Option.some_or]
  split
  · next h => rw [List.set_append_left _ _ h, List.dropLast_concat]
  · next h =>
    rw [List.set_append_right _ _ (by omega)]
    cases i - l.length <;> simp

/-- Up to order, swap-remove erases the element at `i`. -/
theorem swapRemove_perm {α : Type*} (l : List α) (i : Nat) (hi : i < l.length) :
    (swapRemove l i).Perm (l.eraseIdx i) := by
  rcases List.eq_nil_or_concat l with rfl | ⟨l, x, rfl⟩
  · simp at hi
  · rw [List.concat_eq_append, swapRemove_concat]
    split
    · next h =>
      rw [List.eraseIdx_append_of_lt_length h, List.set_eq_take_append_cons_drop, if_pos h,
        List.eraseIdx_eq_take_drop_succ, List.append_assoc]
      exact (List.perm_append_singleton x _).symm.append_left _
    · next h =>
      have e : i = l.length := by simp at hi; omega
      rw [e, List.eraseIdx_append_of_length_le (Nat.le_refl _)]
      simp

/-! ## Vectors -/

structure Vec (α : Type*) (N : Nat) where
  toList : List α
  length_le : toList.length ≤ N
  deriving DecidableEq

namespace Vec

variable {α : Type*} {N : Nat}

@[ext] theorem ext {v w : Vec α N} (h : v.toList = w.toList) : v = w := by
  cases v; cases w; cases h; rfl

def empty : Vec α N := ⟨[], Nat.zero_le _⟩

def isFull (v : Vec α N) : Bool := decide (v.toList.length = N)

def push (v : Vec α N) (a : α) : Option (Vec α N) :=
  if h : v.toList.length < N then
    some ⟨v.toList ++ [a], by rw [List.length_append]; exact h⟩
  else none

/-- `remove(0)`. -/
def removeFirst (v : Vec α N) : Vec α N :=
  ⟨v.toList.tail, by have := v.length_le; rw [List.length_tail]; omega⟩

/-- Swap-remove the first element equal to `a`, if there is one. -/
def swapRemoveFirst [DecidableEq α] (v : Vec α N) (a : α) : Vec α N :=
  if h : v.toList.idxOf a < v.toList.length then
    ⟨swapRemove v.toList (v.toList.idxOf a), by
      have := v.length_le
      rw [(swapRemove_perm _ _ h).length_eq, List.length_eraseIdx]
      split <;> omega⟩
  else v

/-- Collect a list; `none` when it does not fit. -/
def collect (l : List α) : Option (Vec α N) := if h : l.length ≤ N then some ⟨l, h⟩ else none

@[simp] theorem toList_empty : (empty : Vec α N).toList = [] := rfl

theorem push_eq_some {v w : Vec α N} {a : α} :
    v.push a = some w ↔ v.toList.length < N ∧ w.toList = v.toList ++ [a] := by
  unfold push
  split
  · next h => simp [Vec.ext_iff, h, eq_comm]
  · next h => simp [h]

theorem push_eq_none {v : Vec α N} {a : α} : v.push a = none ↔ N ≤ v.toList.length := by
  unfold push
  split
  · next h =>
    simp only [reduceCtorEq, false_iff]
    omega
  · next h =>
    simp only [true_iff]
    omega

theorem push_of_lt {v : Vec α N} (a : α) (h : v.toList.length < N) :
    ∃ w, v.push a = some w ∧ w.toList = v.toList ++ [a] := by
  simp [push, h]

@[simp] theorem toList_removeFirst (v : Vec α N) : v.removeFirst.toList = v.toList.tail := rfl

/-- Up to order, swap-removing `a` is erasing it. -/
theorem swapRemoveFirst_perm [DecidableEq α] (v : Vec α N) (a : α) :
    (v.swapRemoveFirst a).toList.Perm (v.toList.erase a) := by
  unfold swapRemoveFirst
  split
  · next h =>
    rw [List.erase_eq_eraseIdx_of_idxOf rfl]
    exact swapRemove_perm _ _ h
  · next h =>
    rw [List.idxOf_lt_length_iff] at h
    rw [List.erase_of_not_mem h]

theorem collect_eq_some {l : List α} {v : Vec α N} :
    collect l = some v ↔ v.toList = l := by
  unfold collect
  split
  · simp [Vec.ext_iff, eq_comm]
  · next h =>
    simp only [reduceCtorEq, false_iff]
    intro e
    exact h (e ▸ v.length_le)

theorem collect_eq_none {l : List α} : (collect l : Option (Vec α N)) = none ↔ N < l.length := by
  unfold collect
  split
  · next h =>
    simp only [reduceCtorEq, false_iff]
    omega
  · next h =>
    simp only [true_iff]
    omega

end Vec

/-! ## Maps -/

structure IndexMap (K V : Type*) (N : Nat) where
  entries : List (K × V)
  nodup_keys : (entries.map Prod.fst).Nodup
  length_le : entries.length ≤ N
  deriving DecidableEq

namespace IndexMap

variable {K V : Type*} {N : Nat}

@[ext] theorem ext {m n : IndexMap K V N} (h : m.entries = n.entries) : m = n := by
  cases m; cases n; cases h; rfl

def empty : IndexMap K V N := ⟨[], List.nodup_nil, Nat.zero_le _⟩

variable [DecidableEq K]

/-- Replace the value stored under `k`. -/
def setEntry (k : K) (v : V) (e : K × V) : K × V := if e.1 = k then (k, v) else e

theorem setEntry_fst (k : K) (v : V) (e : K × V) : (setEntry k v e).1 = e.1 := by
  unfold setEntry
  split
  · next h => exact h.symm
  · rfl

/-- An existing key keeps its place and gets the new value; a new key goes
last.  `none` when the key is new and the map full. -/
def insert (m : IndexMap K V N) (k : K) (v : V) : Option (IndexMap K V N) :=
  if hk : k ∈ m.entries.map Prod.fst then
    some ⟨m.entries.map (setEntry k v), by
      rw [List.map_map, show Prod.fst ∘ setEntry k v = Prod.fst from funext (setEntry_fst k v)]
      exact m.nodup_keys, by rw [List.length_map]; exact m.length_le⟩
  else if h : m.entries.length < N then
    some ⟨m.entries ++ [(k, v)], by
      rw [List.map_append]
      exact m.nodup_keys.append (List.nodup_singleton _) (by simpa using hk),
      by rw [List.length_append]; exact h⟩
  else none

/-- `remove`, which is swap-remove on the entries. -/
def remove (m : IndexMap K V N) (k : K) : IndexMap K V N :=
  if h : (m.entries.map Prod.fst).idxOf k < m.entries.length then
    ⟨swapRemove m.entries ((m.entries.map Prod.fst).idxOf k), by
      refine ((swapRemove_perm _ _ h).map Prod.fst).nodup_iff.mpr ?_
      exact m.nodup_keys.sublist ((List.eraseIdx_sublist _ _).map _), by
      have := m.length_le
      rw [(swapRemove_perm _ _ h).length_eq, List.length_eraseIdx]
      split <;> omega⟩
  else m

theorem insert_eq_none {m : IndexMap K V N} {k : K} {v : V} :
    m.insert k v = none ↔ k ∉ m.entries.map Prod.fst ∧ m.entries.length = N := by
  have := m.length_le
  unfold insert
  split
  · next hk => simp [hk]
  · next hk =>
    split
    · simp; omega
    · simp [hk]; omega

/-- What a successful insertion leaves in the map. -/
theorem mem_insert {m m' : IndexMap K V N} {k : K} {v : V} (h : m.insert k v = some m')
    (e : K × V) : e ∈ m'.entries ↔ (e ∈ m.entries ∧ e.1 ≠ k) ∨ e = (k, v) := by
  unfold insert at h
  split at h
  · next hk =>
    cases h
    simp only [List.mem_map, setEntry]
    constructor
    · rintro ⟨e', he', rfl⟩
      split
      · exact Or.inr rfl
      · next hne => exact Or.inl ⟨he', hne⟩
    · rintro (⟨he, hne⟩ | rfl)
      · exact ⟨e, he, if_neg hne⟩
      · obtain ⟨e', he', rfl⟩ := List.mem_map.mp hk
        exact ⟨e', he', if_pos rfl⟩
  · next hk =>
    split at h
    · cases h
      have hne : e ∈ m.entries → e.1 ≠ k := by
        rintro he rfl
        exact hk (List.mem_map_of_mem he)
      simp only [List.mem_append, List.mem_singleton]
      tauto
    · cases h

/-- A new key goes to the end, if there is room. -/
theorem insert_of_lt {m : IndexMap K V N} {k : K} (v : V) (hk : k ∉ m.entries.map Prod.fst)
    (h : m.entries.length < N) :
    ∃ m', m.insert k v = some m' ∧ m'.entries = m.entries ++ [(k, v)] := by
  rw [insert, dif_neg hk, dif_pos h]
  exact ⟨_, rfl, rfl⟩

theorem mem_remove (m : IndexMap K V N) (k : K) (e : K × V) :
    e ∈ (m.remove k).entries ↔ e ∈ m.entries ∧ e.1 ≠ k := by
  unfold remove
  split
  · next h =>
    have hlen : (m.entries.map Prod.fst).idxOf k < (m.entries.map Prod.fst).length := by
      simpa using h
    have hk : (m.entries.map Prod.fst)[(m.entries.map Prod.fst).idxOf k] = k :=
      List.getElem_idxOf hlen
    rw [(swapRemove_perm _ _ h).mem_iff, List.mem_eraseIdx_iff_getElem]
    constructor
    · rintro ⟨j, hj, hne, rfl⟩
      refine ⟨List.getElem_mem _, fun e => hne ?_⟩
      have hj' : j < (m.entries.map Prod.fst).length := by simpa using hj
      have hsame : (m.entries.map Prod.fst)[j] =
          (m.entries.map Prod.fst)[(m.entries.map Prod.fst).idxOf k] := by
        rw [hk, List.getElem_map, e]
      exact m.nodup_keys.getElem_inj_iff.mp hsame
    · rintro ⟨he, hne⟩
      obtain ⟨j, hj, rfl⟩ := List.getElem_of_mem he
      refine ⟨j, hj, ?_, rfl⟩
      rintro rfl
      rw [List.getElem_map] at hk
      exact hne hk
  · next h =>
    have hk : k ∉ m.entries.map Prod.fst := by
      rw [← List.idxOf_lt_length_iff, List.length_map]
      exact h
    constructor
    · intro he
      refine ⟨he, ?_⟩
      rintro rfl
      exact hk (List.mem_map_of_mem he)
    · exact And.left

/-- Remove every key of a list, one after the other. -/
def removeAll (m : IndexMap K V N) (ks : List K) : IndexMap K V N := ks.foldl remove m

theorem mem_removeAll (m : IndexMap K V N) (ks : List K) (e : K × V) :
    e ∈ (m.removeAll ks).entries ↔ e ∈ m.entries ∧ e.1 ∉ ks := by
  induction ks generalizing m with
  | nil => simp [removeAll]
  | cons k ks ih =>
    change e ∈ ((m.remove k).removeAll ks).entries ↔ _
    rw [ih, mem_remove, List.mem_cons]
    tauto

end IndexMap

end Heapless
