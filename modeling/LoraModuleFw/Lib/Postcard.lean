import Mathlib.Tactic.Ring
import LoraModuleFw.Lib.Heapless

/-!
# A byte format with lawful decoders

`Wire α` is an encoder with a decoder that undoes it in front of any further
bytes, so a message followed by garbage decodes to the message.  The base
formats are those of postcard: a raw byte, LEB128 varints that are rejected
when they overflow their type, and sequences behind a varint length.
-/

namespace Postcard

abbrev Bytes := List UInt8

structure Wire (α : Type*) where
  encode : α → Bytes
  decode : Bytes → Option (α × Bytes)
  decode_encode : ∀ a rest, decode (encode a ++ rest) = some (a, rest)

attribute [simp] Wire.decode_encode

namespace Wire

variable {α β : Type*}

/-! ## Combinators -/

def u8 : Wire UInt8 where
  encode b := [b]
  decode
    | [] => none
    | b :: rest => some (b, rest)
  decode_encode _ _ := rfl

def bool : Wire Bool where
  encode b := [if b then 1 else 0]
  decode
    | [] => none
    | b :: rest => if b = 0 then some (false, rest) else if b = 1 then some (true, rest) else none
  decode_encode b _ := by cases b <;> rfl

/-- One value after the other. -/
def seq (v : Wire α) (w : Wire β) : Wire (α × β) where
  encode p := v.encode p.1 ++ w.encode p.2
  decode bs := (v.decode bs).bind fun (a, r) => (w.decode r).map fun (b, r') => ((a, b), r')
  decode_encode p rest := by simp [List.append_assoc]

/-- The same bytes read as another type. -/
def iso (v : Wire α) (f : α → β) (g : β → α) (h : ∀ b, f (g b) = b) : Wire β where
  encode b := v.encode (g b)
  decode bs := (v.decode bs).map fun (a, r) => (f a, r)
  decode_encode b rest := by simp [h]

/-! ## Varints -/

/-- LEB128 in at most `k` bytes, low groups first. -/
def encodeVarint : Nat → Nat → Bytes
  | 0, _ => []
  | k + 1, n =>
    if n < 128 then [UInt8.ofNat n]
    else UInt8.ofNat (n % 128 + 128) :: encodeVarint k (n / 128)

/-- Reads at most `k` groups; the `k`-th must be final and at most `last`. -/
def decodeVarint (last : Nat) : Nat → Bytes → Option (Nat × Bytes)
  | 0, _ => none
  | _ + 1, [] => none
  | k + 1, b :: rest =>
    if b.toNat < 128 then
      if k = 0 ∧ last < b.toNat then none else some (b.toNat, rest)
    else (decodeVarint last k rest).map fun (n, r) => (b.toNat - 128 + 128 * n, r)

theorem decodeVarint_encodeVarint (last k n : Nat) (rest : Bytes) (hlast : last < 128)
    (hn : n < (last + 1) * 128 ^ k) :
    decodeVarint last (k + 1) (encodeVarint (k + 1) n ++ rest) = some (n, rest) := by
  induction k generalizing n with
  | zero =>
    have hn' : n < 128 := by omega
    have hb : (UInt8.ofNat n).toNat = n := by rw [UInt8.toNat_ofNat']; omega
    rw [encodeVarint, if_pos hn', List.singleton_append, decodeVarint, hb, if_pos hn',
      if_neg (by omega)]
  | succ k ih =>
    rw [encodeVarint]
    split
    · next hs =>
      have hb : (UInt8.ofNat n).toNat = n := by rw [UInt8.toNat_ofNat']; omega
      rw [List.singleton_append, decodeVarint, hb, if_pos hs, if_neg (by omega)]
    · next hs =>
      have hb : (UInt8.ofNat (n % 128 + 128)).toNat = n % 128 + 128 := by
        rw [UInt8.toNat_ofNat']; omega
      have hq : n / 128 < (last + 1) * 128 ^ k := by
        rw [Nat.div_lt_iff_lt_mul (by omega)]
        calc n < (last + 1) * 128 ^ (k + 1) := hn
          _ = (last + 1) * 128 ^ k * 128 := by ring
      rw [List.cons_append, decodeVarint, hb, if_neg (by omega), ih _ hq, Option.map_some]
      simp only [Option.some.injEq, Prod.mk.injEq, and_true]
      omega

theorem length_encodeVarint_le (k n : Nat) : (encodeVarint k n).length ≤ k := by
  induction k generalizing n with
  | zero => simp [encodeVarint]
  | succ k ih =>
    rw [encodeVarint]
    split
    · simp
    · have := ih (n / 128)
      simp only [List.length_cons]
      omega

def u16 : Wire UInt16 where
  encode n := encodeVarint 3 n.toNat
  decode bs := (decodeVarint 3 3 bs).map fun (n, r) => (UInt16.ofNat n, r)
  decode_encode n rest := by
    rw [decodeVarint_encodeVarint 3 2 _ _ (by omega) (by have := n.toNat_lt; omega)]
    simp

def u32 : Wire UInt32 where
  encode n := encodeVarint 5 n.toNat
  decode bs := (decodeVarint 15 5 bs).map fun (n, r) => (UInt32.ofNat n, r)
  decode_encode n rest := by
    rw [decodeVarint_encodeVarint 15 4 _ _ (by omega) (by have := n.toNat_lt; omega)]
    simp

/-! ## Sequences -/

def decodeMany (w : Wire α) : Nat → Bytes → Option (List α × Bytes)
  | 0, bs => some ([], bs)
  | n + 1, bs => (w.decode bs).bind fun (a, r) =>
      (decodeMany w n r).map fun (l, r') => (a :: l, r')

theorem decodeMany_flatMap (w : Wire α) (l : List α) (rest : Bytes) :
    decodeMany w l.length (l.flatMap w.encode ++ rest) = some (l, rest) := by
  induction l with
  | nil => rfl
  | cons a l ih => simp [decodeMany, List.append_assoc, ih]

/-- A fixed-length array: the elements, without a length. -/
def array (w : Wire α) (n : Nat) : Wire (Vector α n) where
  encode v := v.toList.flatMap w.encode
  decode bs := (decodeMany w n bs).bind fun (l, r) =>
    if h : l.length = n then some (⟨l.toArray, by simpa using h⟩, r) else none
  decode_encode v rest := by
    have h := decodeMany_flatMap w v.toList rest
    rw [Vector.length_toList] at h
    simp only [h, Option.bind_some, Vector.length_toList, dite_true]
    rfl

/-- A vector of capacity `N`: a varint length, then the elements. -/
def vec (w : Wire α) (N : Nat) (hN : N < 2 ^ 32) : Wire (Heapless.Vec α N) where
  encode v := u32.encode (UInt32.ofNat v.toList.length) ++ v.toList.flatMap w.encode
  decode bs := (u32.decode bs).bind fun (n, r) => (decodeMany w n.toNat r).bind fun (l, r') =>
    (Heapless.Vec.collect l).map fun v => (v, r')
  decode_encode v rest := by
    have hlen : (UInt32.ofNat v.toList.length).toNat = v.toList.length := by
      have := v.length_le
      rw [UInt32.toNat_ofNat']
      exact Nat.mod_eq_of_lt (by omega)
    have hv : Heapless.Vec.collect v.toList = some v := Heapless.Vec.collect_eq_some.mpr rfl
    simp [List.append_assoc, hlen, decodeMany_flatMap, hv]

/-! ## Sizes -/

theorem length_u16_le (n : UInt16) : (u16.encode n).length ≤ 3 := length_encodeVarint_le ..

theorem length_u32_le (n : UInt32) : (u32.encode n).length ≤ 5 := length_encodeVarint_le ..

theorem length_u32_pos (n : UInt32) : 0 < (u32.encode n).length := by
  simp only [u32, encodeVarint]
  split <;> simp

theorem length_flatMap_le (w : Wire α) (k : Nat) (hw : ∀ a, (w.encode a).length ≤ k)
    (l : List α) : (l.flatMap w.encode).length ≤ k * l.length := by
  induction l with
  | nil => simp
  | cons a l ih =>
    have := hw a
    simp only [List.flatMap_cons, List.length_append, List.length_cons, Nat.mul_add]
    omega

theorem length_array_le (w : Wire α) (k n : Nat) (hw : ∀ a, (w.encode a).length ≤ k)
    (v : Vector α n) : ((array w n).encode v).length ≤ k * n := by
  have h := length_flatMap_le w k hw v.toList
  rwa [Vector.length_toList] at h

theorem length_vec_le (w : Wire α) (k N : Nat) (hN : N < 2 ^ 32)
    (hw : ∀ a, (w.encode a).length ≤ k) (v : Heapless.Vec α N) :
    ((vec w N hN).encode v).length ≤ 5 + k * N := by
  have h1 := length_u32_le (UInt32.ofNat v.toList.length)
  have h2 := length_flatMap_le w k hw v.toList
  have h3 := Nat.mul_le_mul_left k v.length_le
  simp only [vec, List.length_append]
  omega

end Wire

end Postcard
