import Mathlib.Data.List.Chain
import LoraModuleFw.HostBuffers

/-! What `maxval_decode` makes of bytes that no encoder wrote: where it
overflows, and which of the byte strings it accepts are frames. -/

namespace LoraModuleFw.Host

open Postcard

/-! ## Byte strings -/

/-- An escape is followed by 0 or 1, if by anything. -/
def Escaped (data : Bytes) : Prop := data.IsChain fun a b => a = 254 → b ≤ 1

/-- A run of escapes is followed by 0 or 1, if by anything: no sum overflows. -/
def Raisable (data : Bytes) : Prop := data.IsChain fun a b => a = 254 → b = 254 ∨ b ≤ 1

/-- The number of bytes that the decoder makes of some. -/
def produced (data : Bytes) : Nat := data.countP fun b => decide (b ≠ 254)

/-- The input goes on where the output is full. -/
def Fills (capacity : Nat) (data : Bytes) : Prop :=
  ∃ done b rest, data = done ++ b :: rest ∧ Raisable done ∧ capacity ≤ produced done

theorem Escaped.raisable {data : Bytes} (h : Escaped data) : Raisable data :=
  h.imp fun _ _ hab ha => Or.inr (hab ha)

theorem produced_cons_esc (data : Bytes) : produced (254 :: data) = produced data :=
  List.countP_cons_of_neg (by decide)

theorem produced_cons_plain {b : UInt8} (hb : b ≠ 254) (data : Bytes) :
    produced (b :: data) = produced data + 1 :=
  List.countP_cons_of_pos (decide_eq_true hb)

theorem produced_pos {data : Bytes} : 0 < produced data ↔ ∃ b ∈ data, b ≠ 254 := by
  simp only [produced, List.countP_pos_iff, decide_eq_true_eq]

theorem produced_le (data : Bytes) : produced data ≤ data.length := List.countP_le_length

/-! ## The loop on any bytes -/

/-- The bytes to come, behind the escape that the carry flag stands for. -/
def carried (nextAdd : Bool) (data : Bytes) : Bytes := if nextAdd then 254 :: data else data

theorem raisable_carried_nil (nextAdd : Bool) : Raisable (carried nextAdd []) := by
  cases nextAdd <;> simp [carried, Raisable]

theorem raisable_carried_esc (nextAdd : Bool) (data : Bytes) :
    Raisable (carried nextAdd (254 :: data)) ↔ Raisable (carried true data) := by
  cases nextAdd with
  | false => exact Iff.rfl
  | true =>
    unfold Raisable carried
    rw [if_pos rfl, if_pos rfl, List.isChain_cons_cons]
    exact and_iff_right fun _ => Or.inl rfl

theorem raisable_cons_plain {b : UInt8} (hb : b ≠ 254) (data : Bytes) :
    Raisable (b :: data) ↔ Raisable data := by
  unfold Raisable
  rw [List.isChain_cons]
  exact and_iff_right fun _ _ h => absurd h hb

theorem raisable_carried_plain {b : UInt8} (hb : b ≠ 254) (nextAdd : Bool) (data : Bytes) :
    Raisable (carried nextAdd (b :: data)) ↔
      (nextAdd = true → b ≤ 1) ∧ Raisable (carried false data) := by
  have hplain := raisable_cons_plain hb data
  cases nextAdd with
  | false => exact hplain.trans (and_iff_right fun h => by cases h).symm
  | true =>
    unfold Raisable carried at *
    rw [if_pos rfl, if_neg Bool.false_ne_true, List.isChain_cons_cons, hplain]
    exact and_congr_left fun _ =>
      ⟨fun h _ => (h rfl).resolve_left hb, fun h _ => Or.inr (h rfl)⟩

/-- `Fills` for a loop that has written `k` bytes. -/
def FillsFrom (capacity : Nat) (nextAdd : Bool) (data : Bytes) (k : Nat) : Prop :=
  ∃ done b rest, data = done ++ b :: rest ∧ Raisable (carried nextAdd done) ∧
    capacity ≤ k + produced done

theorem fillsFrom_cons_esc (capacity : Nat) (nextAdd : Bool) (data : Bytes) (k : Nat) :
    FillsFrom capacity nextAdd (254 :: data) k ↔
      capacity ≤ k ∨ FillsFrom capacity true data k := by
  constructor
  · rintro ⟨_ | ⟨a, done⟩, b, rest, he, hr, hk⟩
    · exact Or.inl hk
    · cases he
      rw [raisable_carried_esc] at hr
      rw [produced_cons_esc] at hk
      exact Or.inr ⟨done, b, rest, rfl, hr, hk⟩
  · rintro (hk | ⟨done, b, rest, rfl, hr, hk⟩)
    · exact ⟨[], 254, data, rfl, raisable_carried_nil nextAdd, hk⟩
    · refine ⟨254 :: done, b, rest, rfl, ?_, ?_⟩
      · rwa [raisable_carried_esc]
      · rwa [produced_cons_esc]

theorem fillsFrom_cons_plain {a : UInt8} (ha : a ≠ 254) (capacity : Nat) (nextAdd : Bool)
    (data : Bytes) (k : Nat) :
    FillsFrom capacity nextAdd (a :: data) k ↔
      capacity ≤ k ∨ (nextAdd = true → a ≤ 1) ∧ FillsFrom capacity false data (k + 1) := by
  constructor
  · rintro ⟨_ | ⟨a', done⟩, b, rest, he, hr, hk⟩
    · exact Or.inl hk
    · cases he
      rw [raisable_carried_plain ha] at hr
      rw [produced_cons_plain ha] at hk
      exact Or.inr ⟨hr.1, done, b, rest, rfl, hr.2, by omega⟩
  · rintro (hk | ⟨hcarry, done, b, rest, rfl, hr, hk⟩)
    · exact ⟨[], a, data, rfl, raisable_carried_nil nextAdd, hk⟩
    · refine ⟨a :: done, b, rest, rfl, ?_, ?_⟩
      · rw [raisable_carried_plain ha]
        exact ⟨hcarry, hr⟩
      · rw [produced_cons_plain ha]
        omega

theorem checkedAdd_esc (b : UInt8) :
    checkedAdd b 254 = if b ≤ 1 then some (b + 254) else none := by
  have hiff : b.toNat + (254 : UInt8).toNat < 256 ↔ b ≤ 1 := by
    rw [UInt8.le_iff_toNat_le]
    simp only [UInt8.reduceToNat]
    omega
  simp only [checkedAdd, hiff]

/-- The loop runs full, or it gets through, or a sum overflows. -/
theorem decodeLoop_cases (capacity : Nat) (data : Bytes) (nextAdd : Bool) (out : Bytes) :
    (FillsFrom capacity nextAdd data out.length ∧
      decodeLoop 254 capacity data nextAdd out = some (.error .dataTooLong)) ∨
    (¬ FillsFrom capacity nextAdd data out.length ∧ Raisable (carried nextAdd data) ∧
      ∃ out', decodeLoop 254 capacity data nextAdd out = some (.ok out') ∧
        out'.length = out.length + produced data) ∨
    (¬ FillsFrom capacity nextAdd data out.length ∧ ¬ Raisable (carried nextAdd data) ∧
      decodeLoop 254 capacity data nextAdd out = none) := by
  induction data generalizing nextAdd out with
  | nil =>
    refine Or.inr (Or.inl ⟨?_, raisable_carried_nil nextAdd, out, rfl, rfl⟩)
    rintro ⟨done, b, rest, he, _⟩
    exact absurd he (by simp)
  | cons b data ih =>
    unfold decodeLoop
    by_cases hfull : capacity ≤ out.length
    · rw [if_pos hfull]
      exact Or.inl ⟨⟨[], b, data, rfl, raisable_carried_nil nextAdd, hfull⟩, rfl⟩
    · rw [if_neg hfull]
      by_cases hb : b = 254
      · subst hb
        rw [if_pos rfl, fillsFrom_cons_esc, or_iff_right hfull, raisable_carried_esc,
          produced_cons_esc]
        exact ih true out
      · rw [if_neg hb, fillsFrom_cons_plain hb, or_iff_right hfull, raisable_carried_plain hb,
          produced_cons_plain hb]
        by_cases hcarry : nextAdd = true → b ≤ 1
        · have hsum : ∃ b', (if nextAdd = true then checkedAdd b 254 else some b) = some b' := by
            cases nextAdd with
            | false => exact ⟨b, rfl⟩
            | true => exact ⟨b + 254, by rw [if_pos rfl, checkedAdd_esc, if_pos (hcarry rfl)]⟩
          obtain ⟨b', hb'⟩ := hsum
          have hnext := ih false (out ++ [b'])
          rw [List.length_append, List.length_singleton] at hnext
          rw [hb', Option.bind_some, and_iff_right hcarry, and_iff_right hcarry,
            Nat.add_comm (produced data) 1, ← Nat.add_assoc]
          exact hnext
        · obtain ⟨rfl, hbig⟩ := Classical.not_imp.mp hcarry
          rw [if_pos rfl, checkedAdd_esc, if_neg hbig]
          exact Or.inr (Or.inr ⟨fun h => hcarry h.1, fun h => hcarry h.1, rfl⟩)

/-! ## The decoder on any bytes -/

/-- The decoder answers with "too long" where its output runs full; else it drops
its last byte, unless a sum overflows or there is none to drop. -/
theorem maxvalDecodeInto_cases {data : Bytes} (hdata : data ≠ []) (dataOut : Bytes) :
    (Fills dataOut.length data ∧ ∃ out, maxvalDecodeInto data dataOut 254 =
      some (.error .dataTooLong, out) ∧ out.length = dataOut.length) ∨
    (¬ Fills dataOut.length data ∧ Raisable data ∧ 0 < produced data ∧
      produced data ≤ dataOut.length ∧ ∃ out, maxvalDecodeInto data dataOut 254 =
        some (.ok (produced data - 1), out) ∧ out.length = dataOut.length) ∨
    (¬ Fills dataOut.length data ∧ ¬ (Raisable data ∧ 0 < produced data) ∧
      maxvalDecodeInto data dataOut 254 = none) := by
  have hfills : FillsFrom dataOut.length false data 0 ↔ Fills dataOut.length data := by
    simp only [FillsFrom, Fills, Nat.zero_add]
    rfl
  have hne : ¬ data.length = 0 := fun h => hdata (List.length_eq_zero_iff.mp h)
  have hloop := decodeLoop_cases dataOut.length data false []
  have hrel := decodeInto_writes 254 data false (List.nil_prefix (l := dataOut))
  unfold maxvalDecodeInto
  rw [if_neg hne]
  rw [List.length_nil] at hloop hrel
  rw [hfills, Nat.zero_add] at hloop
  rcases hloop with ⟨hfull, hl⟩ | ⟨hfree, hraise, out', hl, hlen'⟩ | ⟨hfree, hraise, hl⟩
  · rw [hl] at hrel
    obtain ⟨buf, hi, hlen⟩ := eq_error_of_writes hrel
    rw [hi]
    exact Or.inl ⟨hfull, buf, rfl, hlen⟩
  · rw [hl] at hrel
    obtain ⟨buf, hi, hlen, hpre⟩ := eq_ok_of_writes hrel
    have hle := hpre.length_le
    rw [hlen', hlen] at hle
    rw [hi, Option.bind_some, hlen']
    by_cases hpos : 0 < produced data
    · refine Or.inr (Or.inl ⟨hfree, hraise, hpos, hle, buf, ?_, hlen⟩)
      have hsub : checkedSub (produced data) 1 = some (produced data - 1) := if_pos hpos
      simp only [hsub, Option.map_some]
    · refine Or.inr (Or.inr ⟨hfree, fun h => hpos h.2, ?_⟩)
      have hsub : checkedSub (produced data) 1 = none := if_neg hpos
      simp only [hsub, Option.map_none]
  · rw [hl] at hrel
    rw [eq_none_of_writes hrel]
    exact Or.inr (Or.inr ⟨hfree, fun h => hraise h.1, rfl⟩)

/-- An escape followed by a byte above 1, or nothing but escapes. -/
def Malformed (data : Bytes) : Prop := ¬ Escaped data ∨ ∀ b ∈ data, b = 254

/-- The decoder returns without an overflow or a write outside the buffer, no
length exceeds the buffer, and malformed input is an error. -/
def Safe (data dataOut : Bytes) : Prop :=
  ∃ r out, maxvalDecodeInto data dataOut 254 = some (r, out) ∧ out.length = dataOut.length ∧
    (∀ n, r = .ok n → n ≤ dataOut.length) ∧ (Malformed data → ∃ e, r = .error e)

/-- **Line noise**: the decoder is safe exactly on input that is well formed or
fills the output before an escape is followed by a byte that cannot be raised. -/
theorem decoder_safe_iff {data : Bytes} (hdata : data ≠ []) (dataOut : Bytes) :
    Safe data dataOut ↔
      (Escaped data ∧ ∃ b ∈ data, b ≠ 254) ∨ Fills dataOut.length data := by
  rcases maxvalDecodeInto_cases hdata dataOut with
    ⟨hfull, out, hrun, hlen⟩ | ⟨hfree, hraise, hpos, hle, out, hrun, hlen⟩ | ⟨hfree, hbad, hrun⟩
  · refine iff_of_true ⟨_, out, hrun, hlen, fun n hn => ?_, fun _ => ⟨_, rfl⟩⟩ (Or.inr hfull)
    cases hn
  · constructor
    · rintro ⟨r, out', hrun', _, _, hmal⟩
      rw [hrun] at hrun'
      cases hrun'
      have hwell : ¬ Malformed data := by
        intro h
        obtain ⟨e, he⟩ := hmal h
        cases he
      exact Or.inl ⟨by_contra fun h => hwell (Or.inl h), produced_pos.mp hpos⟩
    · rintro (⟨hesc, b, hb, hne⟩ | hfull)
      · refine ⟨_, out, hrun, hlen, fun n hn => ?_, ?_⟩
        · cases hn
          omega
        · rintro (h | h)
          · exact absurd hesc h
          · exact absurd (h b hb) hne
      · exact absurd hfull hfree
  · constructor
    · rintro ⟨r, out', hrun', _⟩
      rw [hrun] at hrun'
      cases hrun'
    · rintro (⟨hesc, hne⟩ | hfull)
      · exact absurd ⟨hesc.raisable, produced_pos.mpr hne⟩ hbad
      · exact absurd hfull hfree

theorem decoder_safe_frame : Safe [1, 255] [0, 0] :=
  (decoder_safe_iff (by decide) _).mpr (Or.inl ⟨by unfold Escaped; decide, 1, by decide, by decide⟩)

/-- 254 followed by 2 makes the sum 256. -/
theorem decoder_overflows :
    ¬ ∀ data dataOut : Bytes, 1 ≤ data.length → data.length ≤ hostUartBufferSize →
      Safe data dataOut := by
  intro h
  obtain ⟨r, out, hrun, _⟩ := h [254, 2] [0, 0] (by decide) (by decide)
  have hnone : maxvalDecodeInto [254, 2] [0, 0] 254 = none := by decide
  rw [hnone] at hrun
  cases hrun

/-! ## Whole frames -/

/-- A message of at least one byte, escaped, with the terminator behind it and nowhere else. -/
structure WholeFrame (b : Bytes) : Prop where
  body : 2 ≤ b.length
  escaped : Escaped b
  terminator : b.getLast? = some 255
  once : b.count 255 = 1

theorem special_iff {b : UInt8} : hostStuffing.special b = true ↔ b = 254 ∨ b = 255 := by
  have hlt := b.toNat_lt
  change decide (254 ≤ b) = true ↔ _
  rw [decide_eq_true_iff, UInt8.le_iff_toNat_le, ← UInt8.toNat_inj, ← UInt8.toNat_inj]
  simp only [UInt8.reduceToNat]
  omega

/-- A byte of at most 1 is the lowered form of the byte 254 above it. -/
theorem special_raise {v : UInt8} (hv : v ≤ 1) :
    hostStuffing.special (v + 254) = true ∧ hostStuffing.lower (v + 254) = v := by
  have hval : v = 0 ∨ v = 1 := by
    rw [UInt8.le_iff_toNat_le] at hv
    rw [← UInt8.toNat_inj, ← UInt8.toNat_inj]
    simp only [UInt8.reduceToNat] at hv ⊢
    omega
  rcases hval with rfl | rfl <;> decide

/-- What is escaped up to a terminator is a stuffing. -/
theorem exists_stuff {c : Bytes} (hesc : Escaped (c ++ [255])) (hno : 255 ∉ c) :
    ∃ d, hostStuffing.stuff d = c := by
  induction hlen : c.length using Nat.strong_induction_on generalizing c with
  | _ n ih =>
    cases c with
    | nil => exact ⟨[], rfl⟩
    | cons a c =>
      rw [List.length_cons] at hlen
      obtain ⟨ha, hc⟩ := List.ne_and_not_mem_of_not_mem_cons hno
      obtain ⟨hhead, htail⟩ := List.isChain_cons.mp hesc
      by_cases hescape : a = 254
      · cases c with
        | nil => exact absurd (hhead 255 rfl hescape) (by decide)
        | cons v c =>
          -- the pair stands for one byte
          obtain ⟨hspecial, hlower⟩ := special_raise (hhead v rfl hescape)
          obtain ⟨d, hd⟩ := ih c.length (by rw [← hlen, List.length_cons]; omega)
            (List.isChain_cons.mp htail).2 (List.not_mem_of_not_mem_cons hc) rfl
          refine ⟨(v + 254) :: d, ?_⟩
          rw [Stuffing.stuff_cons_special _ d hspecial, hlower, hd, hescape]
          rfl
      · have hplain : hostStuffing.special a = false := by
          rw [← Bool.not_eq_true, special_iff]
          exact fun h => h.elim hescape fun h => ha h.symm
        obtain ⟨d, hd⟩ := ih c.length (by omega) htail hc rfl
        exact ⟨a :: d, by rw [Stuffing.stuff_cons_plain _ d hplain, hd]⟩

/-- A stuffing is escaped up to its terminator. -/
theorem escaped_stuff (d : Bytes) : Escaped (hostStuffing.stuff d ++ [255]) := by
  induction d with
  | nil => exact List.isChain_singleton _
  | cons b d ih =>
    cases hb : hostStuffing.special b with
    | true =>
      have hlow : b - 254 ≤ 1 ∧ b - 254 ≠ 254 := by
        rcases special_iff.mp hb with rfl | rfl <;> decide
      rw [Stuffing.stuff_cons_special _ d hb, List.cons_append, List.cons_append]
      refine List.isChain_cons_cons.mpr ⟨fun _ => hlow.1, List.isChain_cons.mpr ⟨?_, ih⟩⟩
      exact fun _ _ h => absurd h hlow.2
    | false =>
      rw [Stuffing.stuff_cons_plain _ d hb, List.cons_append]
      refine List.isChain_cons.mpr ⟨fun _ _ h => ?_, ih⟩
      exact absurd h (hostStuffing.ne_esc_of_plain hb)

/-- The whole frames are what the encoder writes. -/
theorem wholeFrame_iff {b : Bytes} :
    WholeFrame b ↔ ∃ d, d ≠ [] ∧ b = hostStuffing.stuff d ++ [255] := by
  constructor
  · rintro ⟨hlen, hesc, hlast, honce⟩
    obtain ⟨c, rfl⟩ := List.getLast?_eq_some_iff.mp hlast
    have hno : 255 ∉ c := by
      rw [List.count_append, List.count_singleton_self] at honce
      exact List.count_eq_zero.mp (by omega)
    obtain ⟨d, rfl⟩ := exists_stuff hesc hno
    refine ⟨d, ?_, rfl⟩
    rintro rfl
    exact absurd hlen (by decide)
  · rintro ⟨d, hd, rfl⟩
    refine ⟨?_, escaped_stuff d, List.getLast?_concat, ?_⟩
    · have hpos := List.length_pos_iff.mpr hd
      rw [List.length_append, length_hostStuffing, List.length_singleton]
      omega
    · rw [List.count_append, List.count_eq_zero.mpr (terminator_notMem d)]
      rfl

/-- The first `n` bytes of `out` are encoded as `b`, in every buffer that is large enough. -/
def Reencodes (b : Bytes) (n : Nat) (out : Bytes) : Prop :=
  ∀ buf : Bytes, 2 * n + 1 ≤ buf.length →
    ∃ m buf', maxvalEncodeInto (out.take n) buf 254 = some (.ok m, buf') ∧ buf'.take m = b

/-- Bytes that the decoder accepts are encoded again as they came, and all but whole
frames are rejected, which a panic does not do. -/
structure AcceptsFrames (b dataOut : Bytes) : Prop where
  accepted : ∀ n out, maxvalDecodeInto b dataOut 254 = some (.ok n, out) → Reencodes b n out
  rejected : ¬ WholeFrame b → ∃ e out, maxvalDecodeInto b dataOut 254 = some (.error e, out)

/-- What re-encodes as some bytes re-encodes as a whole frame. -/
theorem Reencodes.wholeFrame {b out : Bytes} {n : Nat} (h : Reencodes b n out) : WholeFrame b := by
  let buf : Bytes := .replicate (2 * n + 1) 0
  have hbuf : 2 * n + 1 ≤ buf.length := by rw [List.length_replicate]
  obtain ⟨m, buf', henc, rfl⟩ := h buf hbuf
  by_cases hd : out.take n = []
  · rw [hd] at henc
    cases henc
  · have hroom : 1 ≤ buf.length := by omega
    rcases maxvalEncodeInto_cases hd hroom with
      ⟨_, buf'', henc', _, hframe⟩ | ⟨_, buf'', henc', _⟩
    · rw [henc] at henc'
      cases henc'
      exact wholeFrame_iff.mpr ⟨_, hd, hframe⟩
    · rw [henc] at henc'
      cases henc'

theorem WholeFrame.reencodes {b dataOut out : Bytes} {n : Nat} (h : WholeFrame b)
    (hout : b.length ≤ dataOut.length)
    (hrun : maxvalDecodeInto b dataOut 254 = some (.ok n, out)) : Reencodes b n out := by
  obtain ⟨d, hd, rfl⟩ := wholeFrame_iff.mp h
  have hlen : d.length + 1 ≤ dataOut.length := by
    have hall := hostStuffing.length_stuff d
    rw [List.length_append, List.length_singleton] at hout
    omega
  obtain ⟨out', hdec, _, htake⟩ := maxvalDecodeInto_frame hlen
  intro buf hbuf
  rw [hdec] at hrun
  cases hrun
  rw [htake]
  have hle := hostStuffing.length_stuff_le d
  have hroom : 1 ≤ buf.length := by omega
  rcases maxvalEncodeInto_cases hd hroom with ⟨_, buf', henc, _, hframe⟩ | ⟨hlong, _⟩
  · exact ⟨_, buf', henc, hframe⟩
  · omega

/-- An output buffer as long as the input never runs full. -/
theorem not_fills {b : Bytes} {capacity : Nat} (hout : b.length ≤ capacity) :
    ¬ Fills capacity b := by
  rintro ⟨done, x, rest, rfl, _, hfull⟩
  have hle := produced_le done
  rw [List.length_append, List.length_cons] at hout
  omega

/-- In an output buffer that cannot run full, the decoder has an error for no bytes only. -/
theorem rejected_iff {b dataOut : Bytes} (hout : b.length ≤ dataOut.length) :
    (∃ e out, maxvalDecodeInto b dataOut 254 = some (.error e, out)) ↔ b = [] := by
  constructor
  · rintro ⟨e, out, hrun⟩
    by_contra hb
    rcases maxvalDecodeInto_cases hb dataOut with
      ⟨hfull, _⟩ | ⟨_, _, _, _, out', hok, _⟩ | ⟨_, _, hnone⟩
    · exact not_fills hout hfull
    · rw [hok] at hrun
      cases hrun
    · rw [hnone] at hrun
      cases hrun
  · rintro rfl
    exact ⟨.noData, dataOut, rfl⟩

/-- **Only whole frames go in and come back**: in an output buffer that cannot run full,
the decoder does right by whole frames and by no bytes at all.  What it accepts is
encoded as it came exactly when it is a whole frame, and only no bytes are rejected. -/
theorem decoder_accepts_iff (b dataOut : Bytes) (hout : b.length ≤ dataOut.length) :
    (AcceptsFrames b dataOut ↔ WholeFrame b ∨ b = []) ∧
    (∀ n out, maxvalDecodeInto b dataOut 254 = some (.ok n, out) →
      (Reencodes b n out ↔ WholeFrame b)) ∧
    ((∃ e out, maxvalDecodeInto b dataOut 254 = some (.error e, out)) ↔ b = []) := by
  refine ⟨⟨fun h => ?_, ?_⟩, fun n out hrun => ⟨Reencodes.wholeFrame, fun h =>
    h.reencodes hout hrun⟩, rejected_iff hout⟩
  · by_cases hwhole : WholeFrame b
    · exact Or.inl hwhole
    · exact Or.inr ((rejected_iff hout).mp (h.rejected hwhole))
  · rintro (hwhole | rfl)
    · exact ⟨fun n out hrun => hwhole.reencodes hout hrun, fun hno => absurd hwhole hno⟩
    · have hrun : maxvalDecodeInto [] dataOut 254 = some (.error .noData, dataOut) := rfl
      refine ⟨fun n out h => ?_, fun _ => ⟨_, _, hrun⟩⟩
      rw [hrun] at h
      cases h

theorem decoder_accepts_frame :
    AcceptsFrames [1, 255] [0, 0] ∧ Reencodes [1, 255] 1 [1, 255] ∧
      ¬ ∃ e out, maxvalDecodeInto [1, 255] [0, 0] 254 = some (.error e, out) := by
  have hwhole : WholeFrame [1, 255] :=
    ⟨by decide, by unfold Escaped; decide, by decide, by decide⟩
  obtain ⟨hframe, hback, hrejected⟩ := decoder_accepts_iff [1, 255] [0, 0] (by decide)
  refine ⟨hframe.mpr (Or.inl hwhole), (hback 1 [1, 255] (by decide)).mpr hwhole, fun h => ?_⟩
  exact absurd (hrejected.mp h) (by decide)

/-- Without a terminator the last byte of the message takes its place, and a frame that
is cut off behind its escape makes the decoder panic. -/
theorem decoder_drops_last :
    maxvalDecodeInto [1, 2] [0, 0] 254 = some (.ok 1, [1, 2]) ∧ ¬ AcceptsFrames [1, 2] [0, 0] ∧
      maxvalDecodeInto [254] [0] 254 = none ∧ ¬ AcceptsFrames [254] [0] := by
  have hrun : maxvalDecodeInto [1, 2] [0, 0] 254 = some (.ok 1, [1, 2]) := by decide
  have hpanic : maxvalDecodeInto [254] [0] 254 = none := by decide
  refine ⟨hrun, fun h => ?_, hpanic, fun h => ?_⟩
  · obtain ⟨m, buf', henc, hm⟩ := h.accepted 1 [1, 2] hrun [0, 0, 0] (by decide)
    have hrun' : maxvalEncodeInto [1] [0, 0, 0] 254 = some (.ok 2, [1, 255, 0]) := by decide
    rw [show ([1, 2] : Bytes).take 1 = [1] from rfl, hrun'] at henc
    cases henc
    exact absurd hm (by decide)
  · obtain ⟨e, out, he⟩ := h.rejected fun hwhole => absurd hwhole.body (by decide)
    rw [hpanic] at he
    cases he

end LoraModuleFw.Host
