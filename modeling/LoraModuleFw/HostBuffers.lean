import LoraModuleFw.Host

/-! `maxval_encode` and `maxval_decode` on their buffers.  The list coders keep
the bytes written so far; these write them, index by index, and an index
outside the buffer panics as an overflow does (`none`). -/

namespace LoraModuleFw.Host

open Postcard

/-! ## The code -/

/-- `data_out[j] = b`. -/
def setByte (dataOut : Bytes) (j : Nat) (b : UInt8) : Option Bytes :=
  if j < dataOut.length then some (dataOut.set j b) else none

/-- The loop of `maxval_encode` from output position `j` on. -/
def encodeInto (maxVal : UInt8) :
    Bytes → (j : Nat) → (dataOut : Bytes) → Option (Except HostError Nat × Bytes)
  | [], j, dataOut => some (.ok j, dataOut)
  | b :: rest, j, dataOut => (checkedSub dataOut.length 1).bind fun last =>
    if j ≥ last then some (.error .dataTooLong, dataOut)
    else if b ≥ maxVal then
      (setByte dataOut j maxVal).bind fun dataOut =>
        (setByte dataOut (j + 1) (b - maxVal)).bind fun dataOut =>
          encodeInto maxVal rest (j + 2) dataOut
    else (setByte dataOut j b).bind fun dataOut => encodeInto maxVal rest (j + 1) dataOut

def maxvalEncodeInto (dataIn dataOut : Bytes) (maxVal : UInt8) :
    Option (Except HostError Nat × Bytes) :=
  if dataIn.length = 0 then some (.error .noData, dataOut)
  else (encodeInto maxVal dataIn 0 dataOut).bind fun
    | (.error e, dataOut) => some (.error e, dataOut)
    | (.ok j, dataOut) =>
      if j ≥ dataOut.length then some (.error .dataTooLong, dataOut)
      else (setByte dataOut j 255).map fun dataOut => (.ok (j + 1), dataOut)

/-- The loop of `maxval_decode` from output position `j` on. -/
def decodeInto (maxVal : UInt8) : Bytes → (j : Nat) → (nextAdd : Bool) → (dataOut : Bytes) →
    Option (Except HostError Nat × Bytes)
  | [], j, _, dataOut => some (.ok j, dataOut)
  | b :: rest, j, nextAdd, dataOut =>
    if j ≥ dataOut.length then some (.error .dataTooLong, dataOut)
    else if b = maxVal then decodeInto maxVal rest j true dataOut
    else (if nextAdd then checkedAdd b maxVal else some b).bind fun b =>
      (setByte dataOut j b).bind fun dataOut => decodeInto maxVal rest (j + 1) false dataOut

def maxvalDecodeInto (dataIn dataOut : Bytes) (maxVal : UInt8) :
    Option (Except HostError Nat × Bytes) :=
  if dataIn.length = 0 then some (.error .noData, dataOut)
  else (decodeInto maxVal dataIn 0 false dataOut).bind fun
    | (.error e, dataOut) => some (.error e, dataOut)
    | (.ok j, dataOut) => (checkedSub j 1).map fun n => (.ok n, dataOut)

/-! ## The buffers hold what the list coders write -/

/-- The same answer, and the bytes written are at the front of the buffer. -/
inductive Writes (capacity : Nat) :
    Except HostError (Nat × Bytes) → Except HostError Nat × Bytes → Prop
  | error {e : HostError} {buf : Bytes} :
      buf.length = capacity → Writes capacity (.error e) (.error e, buf)
  | ok {n : Nat} {out buf : Bytes} :
      buf.length = capacity → out <+: buf → Writes capacity (.ok (n, out)) (.ok n, buf)

def counted (r : Except HostError Bytes) : Except HostError (Nat × Bytes) :=
  r.map fun out => (out.length, out)

/-- Writing right behind what has been written stays inside the buffer. -/
theorem setByte_prefix {out dataOut : Bytes} (h : out <+: dataOut)
    (hlt : out.length < dataOut.length) (b : UInt8) :
    ∃ dataOut', setByte dataOut out.length b = some dataOut' ∧
      dataOut'.length = dataOut.length ∧ out ++ [b] <+: dataOut' := by
  obtain ⟨tail, rfl⟩ := h
  cases tail with
  | nil => simp at hlt
  | cons x tail =>
    refine ⟨(out ++ x :: tail).set out.length b, if_pos hlt, List.length_set .., tail, ?_⟩
    rw [List.set_append_right _ _ (Nat.le_refl _), Nat.sub_self, List.set_cons_zero,
      List.append_assoc, List.singleton_append]

theorem encodeInto_writes (maxVal : UInt8) {d out dataOut : Bytes} (h : out <+: dataOut) :
    Option.Rel (Writes dataOut.length) ((encodeLoop maxVal dataOut.length d out).map counted)
      (encodeInto maxVal d out.length dataOut) := by
  induction d generalizing out dataOut with
  | nil => exact .some (.ok rfl h)
  | cons b d ih =>
    unfold encodeLoop encodeInto
    cases hsub : checkedSub dataOut.length 1 with
    | none => exact .none
    | some last =>
      have hlast : last = dataOut.length - 1 := by
        unfold checkedSub at hsub
        split at hsub <;> cases hsub
        rfl
      simp only [Option.bind_some]
      split
      · exact .some (.error rfl)
      · next hroom =>
        obtain ⟨dataOut₁, hset, hlen, hpre⟩ := setByte_prefix h (by omega) maxVal
        obtain ⟨dataOut₂, hset₂, hlen₂, hpre₂⟩ :=
          setByte_prefix hpre (by simp only [List.length_append, List.length_singleton]; omega)
            (b - maxVal)
        obtain ⟨dataOut₃, hset₃, hlen₃, hpre₃⟩ := setByte_prefix h (by omega) b
        rw [List.length_append, List.length_singleton] at hset₂
        split
        · have hrest := ih hpre₂
          rw [List.append_assoc, List.length_append, hlen₂, hlen] at hrest
          rw [hset, Option.bind_some, hset₂, Option.bind_some]
          exact hrest
        · have hrest := ih hpre₃
          rw [List.length_append, hlen₃] at hrest
          rw [hset₃, Option.bind_some]
          exact hrest

theorem decodeInto_writes (maxVal : UInt8) (d : Bytes) (nextAdd : Bool) {out dataOut : Bytes}
    (h : out <+: dataOut) :
    Option.Rel (Writes dataOut.length)
      ((decodeLoop maxVal dataOut.length d nextAdd out).map counted)
      (decodeInto maxVal d out.length nextAdd dataOut) := by
  induction d generalizing out dataOut nextAdd with
  | nil => exact .some (.ok rfl h)
  | cons b d ih =>
    unfold decodeLoop decodeInto
    split
    · exact .some (.error rfl)
    · next hroom =>
      split
      · exact ih _ h
      · cases (if nextAdd = true then checkedAdd b maxVal else some b) with
        | none => exact .none
        | some b' =>
          obtain ⟨dataOut₁, hset, hlen, hpre⟩ := setByte_prefix h (by omega) b'
          have hrest := ih false hpre
          rw [List.length_append, hlen] at hrest
          rw [Option.bind_some, Option.bind_some, hset, Option.bind_some]
          exact hrest

section
variable {capacity : Nat} {m : Option (Except HostError Nat × Bytes)}

theorem eq_none_of_writes (h : Option.Rel (Writes capacity) none m) : m = none := by
  cases h
  rfl

theorem eq_error_of_writes {e : HostError}
    (h : Option.Rel (Writes capacity) (some (.error e)) m) :
    ∃ buf, m = some (.error e, buf) ∧ buf.length = capacity := by
  cases h with
  | some h =>
    cases h with
    | error hlen => exact ⟨_, rfl, hlen⟩

theorem eq_ok_of_writes {n : Nat} {out : Bytes}
    (h : Option.Rel (Writes capacity) (some (.ok (n, out))) m) :
    ∃ buf, m = some (.ok n, buf) ∧ buf.length = capacity ∧ out <+: buf := by
  cases h with
  | some h =>
    cases h with
    | ok hlen hpre => exact ⟨_, rfl, hlen, hpre⟩

theorem writes_cases {l : Option (Except HostError Bytes)}
    (h : Option.Rel (Writes capacity) (l.map counted) m) :
    (l = none ∧ m = none) ∨
    (∃ e buf, l = some (.error e) ∧ m = some (.error e, buf) ∧ buf.length = capacity) ∨
    (∃ out buf, l = some (.ok out) ∧ m = some (.ok out.length, buf) ∧ buf.length = capacity ∧
      out <+: buf) := by
  rcases l with _ | e | out
  · exact Or.inl ⟨rfl, eq_none_of_writes h⟩
  · obtain ⟨buf, hm, hlen⟩ := eq_error_of_writes h
    exact Or.inr (Or.inl ⟨e, buf, rfl, hm, hlen⟩)
  · obtain ⟨buf, hm, hlen, hpre⟩ := eq_ok_of_writes h
    exact Or.inr (Or.inr ⟨out, buf, rfl, hm, hlen, hpre⟩)

end

/-- The encoder answers as the list encoder does. -/
theorem maxvalEncodeInto_writes (d dataOut : Bytes) (maxVal : UInt8) :
    Option.Rel (Writes dataOut.length) ((maxvalEncode d dataOut.length maxVal).map counted)
      (maxvalEncodeInto d dataOut maxVal) := by
  unfold maxvalEncode maxvalEncodeInto
  split
  · exact .some (.error rfl)
  · rcases writes_cases (encodeInto_writes maxVal (d := d) (List.nil_prefix (l := dataOut))) with
      ⟨hl, hi⟩ | ⟨e, buf, hl, hi, hlen⟩ | ⟨out, buf, hl, hi, hlen, hpre⟩
    · rw [hl, show encodeInto maxVal d 0 dataOut = none from hi]
      exact .none
    · rw [hl, show encodeInto maxVal d 0 dataOut = some (.error e, buf) from hi]
      exact .some (.error hlen)
    · rw [hl, show encodeInto maxVal d 0 dataOut = some (.ok out.length, buf) from hi]
      simp only [Option.map_some, Option.bind_some, hlen]
      split
      · exact .some (.error hlen)
      · obtain ⟨buf', hset, hlen', hpre'⟩ := setByte_prefix hpre (by omega) 255
        rw [hset, Option.map_some]
        have hcount : (out ++ [255]).length = out.length + 1 := List.length_append ..
        exact .some (hcount ▸ .ok (hlen'.trans hlen) hpre')

/-- The decoder answers as the list decoder does. -/
theorem maxvalDecodeInto_writes (d dataOut : Bytes) (maxVal : UInt8) :
    Option.Rel (Writes dataOut.length) (maxvalDecode d dataOut.length maxVal)
      (maxvalDecodeInto d dataOut maxVal) := by
  unfold maxvalDecode maxvalDecodeInto
  split
  · exact .some (.error rfl)
  · rcases writes_cases (decodeInto_writes maxVal d false (List.nil_prefix (l := dataOut))) with
      ⟨hl, hi⟩ | ⟨e, buf, hl, hi, hlen⟩ | ⟨out, buf, hl, hi, hlen, hpre⟩
    · rw [hl, show decodeInto maxVal d 0 false dataOut = none from hi]
      exact .none
    · rw [hl, show decodeInto maxVal d 0 false dataOut = some (.error e, buf) from hi]
      exact .some (.error hlen)
    · rw [hl, show decodeInto maxVal d 0 false dataOut = some (.ok out.length, buf) from hi]
      simp only [Option.bind_some]
      cases checkedSub out.length 1 with
      | none => exact .none
      | some n => exact .some (.ok hlen hpre)

/-! ## Exactness -/

section
variable {maxVal : UInt8} (h : 128 ≤ maxVal.toNat) {capacity : Nat}

/-- The loop writes the whole stuffing, or it stops because the stuffing leaves no
room for the terminator. -/
theorem encodeLoop_cases (hcap : 0 < capacity) (d out : Bytes) :
    encodeLoop maxVal capacity d out = some (.ok (out ++ (maxvalStuffing maxVal h).stuff d)) ∨
    (encodeLoop maxVal capacity d out = some (.error .dataTooLong) ∧
      capacity ≤ out.length + ((maxvalStuffing maxVal h).stuff d).length) := by
  induction d generalizing out with
  | nil => exact Or.inl (by simp [encodeLoop])
  | cons b d ih =>
    have hsub : checkedSub capacity 1 = some (capacity - 1) := if_pos hcap
    -- the guard looks one position ahead, for a byte that may need two
    have hpos : 0 < ((maxvalStuffing maxVal h).stuff (b :: d)).length := by
      rw [Stuffing.length_stuff, List.length_cons]
      omega
    unfold encodeLoop
    rw [hsub, Option.bind_some]
    by_cases hroom : out.length ≥ capacity - 1
    · rw [if_pos hroom]
      exact Or.inr ⟨rfl, by omega⟩
    · rw [if_neg hroom]
      cases hb : (maxvalStuffing maxVal h).special b with
      | true =>
        rw [if_pos (show b ≥ maxVal from of_decide_eq_true hb),
          Stuffing.stuff_cons_special _ d hb]
        have hnext := ih (out ++ [maxVal, b - maxVal])
        rw [List.append_assoc, List.length_append] at hnext
        simp only [List.length_cons, List.length_nil] at hnext ⊢
        exact hnext.imp_right fun hlong => ⟨hlong.1, by omega⟩
      | false =>
        rw [if_neg (show ¬ b ≥ maxVal from of_decide_eq_false hb),
          Stuffing.stuff_cons_plain _ d hb]
        have hnext := ih (out ++ [b])
        rw [List.append_assoc, List.length_append] at hnext
        simp only [List.length_cons, List.length_nil] at hnext ⊢
        exact hnext.imp_right fun hlong => ⟨hlong.1, by omega⟩

end

theorem maxvalEncode_eq {d : Bytes} {capacity : Nat} (hd : d ≠ []) (hcap : 0 < capacity) :
    maxvalEncode d capacity 254 = some
      (if (hostStuffing.stuff d).length < capacity then .ok (hostStuffing.stuff d ++ [255])
        else .error .dataTooLong) := by
  by_cases hfits : (hostStuffing.stuff d).length < capacity
  · rw [if_pos hfits, maxvalEncode_of_lt hd hfits]
  · rw [if_neg hfits]
    unfold maxvalEncode
    rw [if_neg (by simpa using hd)]
    have h254 : 128 ≤ (254 : UInt8).toNat := by decide
    rcases encodeLoop_cases h254 hcap d [] with hok | ⟨herr, _⟩
    · rw [hok, Option.map_some, List.nil_append]
      dsimp only
      rw [if_pos (Nat.not_lt.mp hfits)]
    · rw [herr]
      rfl

theorem length_hostStuffing (d : Bytes) :
    (hostStuffing.stuff d).length = d.length + d.countP fun b => decide (254 ≤ b) :=
  hostStuffing.length_stuff d

/-- The terminator is no byte of a stuffed string. -/
theorem terminator_notMem (d : Bytes) : 255 ∉ hostStuffing.stuff d := by
  intro hmem
  rcases hostStuffing.mem_stuff hmem with h | ⟨a, ha, h⟩ | ⟨_, h⟩
  · exact absurd h (by decide)
  · have hle : (254 : UInt8) ≤ a := of_decide_eq_true ha
    have hlow : (a - 254).toNat = a.toNat - 254 := UInt8.toNat_sub_of_le _ _ hle
    have hval : (255 : UInt8).toNat = (a - 254).toNat := congrArg UInt8.toNat h
    have hlt := a.toNat_lt
    rw [hlow] at hval
    simp only [UInt8.reduceToNat] at hval
    omega
  · exact absurd h (by decide)

/-- With room for it the encoder leaves the whole frame at the front of the buffer. -/
theorem maxvalEncodeInto_cases {d dataOut : Bytes} (hd : d ≠ []) (hout : 1 ≤ dataOut.length) :
    ((hostStuffing.stuff d).length + 1 ≤ dataOut.length ∧
      ∃ out, maxvalEncodeInto d dataOut 254 =
          some (.ok ((hostStuffing.stuff d).length + 1), out) ∧
        out.length = dataOut.length ∧
        out.take ((hostStuffing.stuff d).length + 1) = hostStuffing.stuff d ++ [255]) ∨
    (¬ (hostStuffing.stuff d).length + 1 ≤ dataOut.length ∧
      ∃ out, maxvalEncodeInto d dataOut 254 = some (.error .dataTooLong, out) ∧
        out.length = dataOut.length) := by
  have hframe : (hostStuffing.stuff d ++ [255]).length = (hostStuffing.stuff d).length + 1 :=
    List.length_append ..
  have hrel := maxvalEncodeInto_writes d dataOut 254
  rw [maxvalEncode_eq hd hout] at hrel
  by_cases hfits : (hostStuffing.stuff d).length < dataOut.length
  · rw [if_pos hfits] at hrel
    obtain ⟨buf, hi, hlen, hpre⟩ := eq_ok_of_writes hrel
    rw [hframe] at hi
    rw [List.prefix_iff_eq_take, hframe] at hpre
    exact Or.inl ⟨hfits, buf, hi, hlen, hpre.symm⟩
  · rw [if_neg hfits] at hrel
    obtain ⟨buf, hi, hlen⟩ := eq_error_of_writes hrel
    exact Or.inr ⟨hfits, buf, hi, hlen⟩

/-- A frame decodes to its message in every buffer with one byte to spare. -/
theorem maxvalDecodeInto_frame {d buf : Bytes} (hfits : d.length + 1 ≤ buf.length) :
    ∃ buf', maxvalDecodeInto (hostStuffing.stuff d ++ [255]) buf 254 = some (.ok d.length, buf') ∧
      buf'.length = buf.length ∧ buf'.take d.length = d := by
  have hrel := maxvalDecodeInto_writes (hostStuffing.stuff d ++ [255]) buf 254
  rw [maxvalDecode_frame hfits] at hrel
  obtain ⟨buf', hi, hlen, hpre⟩ := eq_ok_of_writes hrel
  have hd := (List.prefix_append d [255]).trans hpre
  exact ⟨buf', hi, hlen, (List.prefix_iff_eq_take.mp hd).symm⟩

/-- **The byte stuffing is exact and invertible** in buffers of every length. -/
theorem maxvalEncode_exact (d dataOut : Bytes) (hout : 1 ≤ dataOut.length) :
    ∃ r out, maxvalEncodeInto d dataOut 254 = some (r, out) ∧ out.length = dataOut.length ∧
      (∀ n, r = .ok n ↔ d ≠ [] ∧
        d.length + (d.countP fun b => decide (254 ≤ b)) + 1 ≤ dataOut.length ∧
        n = d.length + (d.countP fun b => decide (254 ≤ b)) + 1) ∧
      ∀ n, r = .ok n → (out.take n).count 255 = 1 ∧ (out.take n).getLast? = some 255 ∧
        ∀ buf : Bytes, d.length + 1 ≤ buf.length →
          ∃ buf', maxvalDecodeInto (out.take n) buf 254 = some (.ok d.length, buf') ∧
            buf'.length = buf.length ∧ buf'.take d.length = d := by
  rw [← length_hostStuffing]
  by_cases hd : d = []
  · subst hd
    refine ⟨.error .noData, dataOut, rfl, rfl, fun n => ?_, fun n hn => ?_⟩
    · constructor
      · intro hn
        cases hn
      · intro hn
        exact absurd rfl hn.1
    · cases hn
  · rcases maxvalEncodeInto_cases hd hout with
      ⟨hfits, out, hrun, hlen, htake⟩ | ⟨hlong, out, hrun, hlen⟩
    · refine ⟨_, out, hrun, hlen, fun n => ?_, fun n hn => ?_⟩
      · rw [Except.ok.injEq]
        exact ⟨fun hn => ⟨hd, hfits, hn.symm⟩, fun hn => hn.2.2.symm⟩
      · cases hn
        rw [htake]
        refine ⟨?_, List.getLast?_concat, fun buf hbuf => maxvalDecodeInto_frame hbuf⟩
        rw [List.count_append, List.count_eq_zero.mpr (terminator_notMem d)]
        rfl
    · refine ⟨_, out, hrun, hlen, fun n => ?_, fun n hn => ?_⟩
      · constructor
        · intro hn
          cases hn
        · intro hn
          exact absurd hn.2.1 hlong
      · cases hn

/-- Three bytes, two of them stuffed, in a buffer that they fill. -/
theorem maxvalEncode_exact_full :
    ∃ r out, maxvalEncodeInto [254, 7, 255] (.replicate 6 0) 254 = some (r, out) ∧
      (∀ n, r = .ok n ↔ [(254 : UInt8), 7, 255] ≠ [] ∧ 6 ≤ 6 ∧ n = 6) := by
  obtain ⟨r, out, hrun, _, hok, _⟩ :=
    maxvalEncode_exact [254, 7, 255] (.replicate 6 0) (by decide)
  exact ⟨r, out, hrun, hok⟩

end LoraModuleFw.Host
