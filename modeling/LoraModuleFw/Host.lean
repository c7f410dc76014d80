import LoraModuleFw.Lib.Postcard
import LoraModuleFw.Lib.Stuffing

/-! The UART link to the host computer, `module-runtime/src/host.rs`.  The UART
driver is outside the repository: what `read_until_idle` delivers is an input.
`none` is an addition or a subtraction that overflows.  Of a buffer that is
written, the model keeps the bytes written so far and the capacity. -/

namespace LoraModuleFw.Host

open Postcard

def hostUartBufferSize : Nat := 512

inductive HostError where
  | noData
  | dataTooLong
  deriving DecidableEq, Repr

/-- The errors of the UART driver; `driver` stands for those the code never names. -/
inductive UartError where
  | bufferTooLong
  | driver (code : Nat)
  deriving DecidableEq, Repr

def checkedSub (a b : Nat) : Option Nat := if b ≤ a then some (a - b) else none

def checkedAdd (a b : UInt8) : Option UInt8 := if a.toNat + b.toNat < 256 then some (a + b) else none

/-! ## The code -/

/-- The loop of `maxval_encode` over the rest of the input. -/
def encodeLoop (maxVal : UInt8) (capacity : Nat) :
    Bytes → (out : Bytes) → Option (Except HostError Bytes)
  | [], out => some (.ok out)
  | b :: rest, out => (checkedSub capacity 1).bind fun last =>
    if out.length ≥ last then some (.error .dataTooLong)
    else if b ≥ maxVal then encodeLoop maxVal capacity rest (out ++ [maxVal, b - maxVal])
    else encodeLoop maxVal capacity rest (out ++ [b])

/-- The bytes in the output buffer up to the length that is returned. -/
def maxvalEncode (dataIn : Bytes) (capacity : Nat) (maxVal : UInt8) :
    Option (Except HostError Bytes) :=
  if dataIn.length = 0 then some (.error .noData)
  else (encodeLoop maxVal capacity dataIn []).map fun
    | .error e => .error e
    | .ok out => if out.length ≥ capacity then .error .dataTooLong else .ok (out ++ [255])

/-- The loop of `maxval_decode` over the rest of the input. -/
def decodeLoop (maxVal : UInt8) (capacity : Nat) :
    Bytes → (nextAdd : Bool) → (out : Bytes) → Option (Except HostError Bytes)
  | [], _, out => some (.ok out)
  | b :: rest, nextAdd, out =>
    if out.length ≥ capacity then some (.error .dataTooLong)
    else if b = maxVal then decodeLoop maxVal capacity rest true out
    else (if nextAdd then checkedAdd b maxVal else some b).bind fun b =>
      decodeLoop maxVal capacity rest false (out ++ [b])

/-- The length that is returned, and all the bytes written. -/
def maxvalDecode (dataIn : Bytes) (capacity : Nat) (maxVal : UInt8) :
    Option (Except HostError (Nat × Bytes)) :=
  if dataIn.length = 0 then some (.error .noData)
  else (decodeLoop maxVal capacity dataIn false []).bind fun
    | .error e => some (.error e)
    -- to account for the terminator
    | .ok out => (checkedSub out.length 1).map fun n => .ok (n, out)

namespace ModuleHost

/-- `read` into a buffer of the given capacity: the bytes of the length returned. -/
def read (received : Except UartError Bytes) (capacity : Nat) : Option (Except UartError Bytes) :=
  match received with
  | .error e => some (.error e)
  | .ok buff => (maxvalDecode buff capacity 254).map fun
    | .ok (len, out) => .ok (out.take len)
    | .error _ => .error .bufferTooLong

/-- What `write` hands to the UART. -/
def write (buffer : Bytes) : Option (Except UartError Bytes) :=
  (maxvalEncode buffer hostUartBufferSize 254).map fun
    | .ok frame => .ok frame
    | .error _ => .error .bufferTooLong

end ModuleHost

/-! ## The loops against the stuffing -/

/-- Bytes from `maxVal` on are special; the lower half of the bytes is not. -/
def maxvalStuffing (maxVal : UInt8) (h : 128 ≤ maxVal.toNat) : Stuffing UInt8 where
  esc := maxVal
  special b := decide (maxVal ≤ b)
  lower b := b - maxVal
  raise b := b + maxVal
  special_esc := by simp
  lower_ne b hb := by
    have hle := UInt8.le_iff_toNat_le.mp (of_decide_eq_true hb)
    have hlt := b.toNat_lt
    intro he
    have hval := congrArg UInt8.toNat he
    rw [UInt8.toNat_sub_of_le _ _ (of_decide_eq_true hb)] at hval
    omega
  raise_lower b _ := by simp

section
variable {maxVal : UInt8} (h : 128 ≤ maxVal.toNat) {capacity : Nat}

theorem encodeLoop_of_lt (d out : Bytes)
    (hfits : out.length + ((maxvalStuffing maxVal h).stuff d).length < capacity) :
    encodeLoop maxVal capacity d out = some (.ok (out ++ (maxvalStuffing maxVal h).stuff d)) := by
  induction d generalizing out with
  | nil => simp [encodeLoop]
  | cons b d ih =>
    have hsub : checkedSub capacity 1 = some (capacity - 1) := if_pos (by omega)
    unfold encodeLoop
    rw [hsub, Option.bind_some]
    cases hb : (maxvalStuffing maxVal h).special b with
    | true =>
      rw [Stuffing.stuff_cons_special _ d hb] at hfits ⊢
      simp only [List.length_cons] at hfits
      have hge : b ≥ maxVal := of_decide_eq_true hb
      have hnext : (out ++ [maxVal, b - maxVal]).length +
          ((maxvalStuffing maxVal h).stuff d).length < capacity := by
        rw [List.length_append, List.length_cons, List.length_singleton]
        omega
      rw [if_neg (by omega), if_pos hge, ih _ hnext, List.append_assoc]
      rfl
    | false =>
      rw [Stuffing.stuff_cons_plain _ d hb] at hfits ⊢
      simp only [List.length_cons] at hfits
      have hlt : ¬ b ≥ maxVal := of_decide_eq_false hb
      have hnext : (out ++ [b]).length + ((maxvalStuffing maxVal h).stuff d).length < capacity := by
        rw [List.length_append, List.length_singleton]
        omega
      rw [if_neg (by omega), if_neg hlt, ih _ hnext, List.append_assoc]
      rfl

/-- The decoder takes a stuffed string off the front of its input. -/
theorem decodeLoop_stuff (d rest out : Bytes) (hfits : out.length + d.length ≤ capacity) :
    decodeLoop maxVal capacity ((maxvalStuffing maxVal h).stuff d ++ rest) false out =
      decodeLoop maxVal capacity rest false (out ++ d) := by
  induction d generalizing out with
  | nil => simp
  | cons b d ih =>
    rw [List.length_cons] at hfits
    have hroom : ¬ out.length ≥ capacity := by omega
    have hnext : (out ++ [b]).length + d.length ≤ capacity := by
      rw [List.length_append, List.length_singleton]
      omega
    cases hb : (maxvalStuffing maxVal h).special b with
    | true =>
      have hne : ¬ (maxvalStuffing maxVal h).lower b = maxVal :=
        (maxvalStuffing maxVal h).lower_ne b hb
      have hge := UInt8.le_iff_toNat_le.mp (of_decide_eq_true hb)
      have hadd : checkedAdd (b - maxVal) maxVal = some b := by
        have hlt := b.toNat_lt
        rw [checkedAdd, if_pos, UInt8.sub_add_cancel]
        rw [UInt8.toNat_sub_of_le _ _ (of_decide_eq_true hb)]
        omega
      rw [Stuffing.stuff_cons_special _ d hb, List.cons_append, List.cons_append, decodeLoop,
        if_neg hroom, if_pos (show (maxvalStuffing maxVal h).esc = maxVal from rfl), decodeLoop,
        if_neg hroom, if_neg hne, if_pos rfl]
      change (checkedAdd (b - maxVal) maxVal).bind _ = _
      rw [hadd, Option.bind_some, ih _ hnext, List.append_assoc]
      rfl
    | false =>
      have hne : ¬ b = maxVal := (maxvalStuffing maxVal h).ne_esc_of_plain hb
      rw [Stuffing.stuff_cons_plain _ d hb, List.cons_append, decodeLoop, if_neg hroom,
        if_neg hne, if_neg Bool.false_ne_true, Option.bind_some, ih _ hnext, List.append_assoc]
      rfl

end

/-- The stuffing of the link. -/
abbrev hostStuffing : Stuffing UInt8 := maxvalStuffing 254 (by decide)

theorem maxvalEncode_of_lt {d : Bytes} {capacity : Nat} (hd : d ≠ [])
    (hfits : (hostStuffing.stuff d).length < capacity) :
    maxvalEncode d capacity 254 = some (.ok (hostStuffing.stuff d ++ [255])) := by
  unfold maxvalEncode
  rw [if_neg (by simpa using hd), encodeLoop_of_lt (by decide) d [] (by simpa using hfits)]
  simp only [List.nil_append, Option.map_some]
  rw [if_neg (Nat.not_le.mpr hfits)]

/-- A frame decodes into any buffer with one byte to spare. -/
theorem maxvalDecode_frame {d : Bytes} {capacity : Nat} (hfits : d.length < capacity) :
    maxvalDecode (hostStuffing.stuff d ++ [255]) capacity 254 =
      some (.ok (d.length, d ++ [255])) := by
  have hend : decodeLoop 254 capacity [255] false d = some (.ok (d ++ [255])) := by
    rw [decodeLoop, if_neg (by omega), if_neg (by decide), if_neg Bool.false_ne_true,
      Option.bind_some, decodeLoop]
  unfold maxvalDecode
  rw [if_neg (by simp), decodeLoop_stuff (by decide) d [255] [] (by simp; omega), List.nil_append,
    hend]
  simp [checkedSub]

end LoraModuleFw.Host
