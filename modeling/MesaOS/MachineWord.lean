/-
Machine words as bit vectors, and the bytes they are stored as.

A `w`-bit machine word is a `BitVec w`; the three widths used by 32-bit C code
are `U8`, `U16` and `U32`.  Four groups of facts are needed again and again:

* taking the smaller or the larger of two words, and clamping a size to what is
  left (`toNat_ite_lt`, `toNat_ite_gt`, `toNat_clamp`);
* testing one flag (`and_twoPow_ne_zero_iff`) and rounding to a power of two
  with a low mask (`toNat_and_lowMask`, `toNat_and_not_lowMask`);
* tagging an aligned address with low flag bits and taking the tag off again
  (`or_and_not_lowMask`);
* storing a word as little-endian bytes and reading it back (`get16_le16`,
  `get32_le32`), also among other bytes (`get32_eq`, `bufferOf_flatMap_range`).
-/
import Mathlib.Data.List.GetD
import Mathlib.Tactic.Common
import Mathlib.Tactic.Linarith

namespace MachineWord

abbrev U8 := BitVec 8
abbrev U16 := BitVec 16
abbrev U32 := BitVec 32

variable {w : ℕ}

/-! ### Sizes -/

theorem toNat_le_of_not_lt {x y : BitVec w} (h : ¬ x < y) : y.toNat ≤ x.toNat :=
  BitVec.le_def.mp (BitVec.not_lt.mp h)

/-- A size that a buffer has is not below one that is asked for. -/
theorem not_ofNat_lt {n : ℕ} {x : BitVec w} (h : x.toNat ≤ n) (hn : n < 2 ^ w) :
    ¬ BitVec.ofNat w n < x := by
  rw [BitVec.not_lt, BitVec.le_def, BitVec.toNat_ofNat, Nat.mod_eq_of_lt hn]
  exact h

/-- The smaller one of two words. -/
theorem toNat_ite_lt (x y : BitVec w) : (if x < y then x else y).toNat = min x.toNat y.toNat := by
  by_cases h : x < y
  · rw [if_pos h, Nat.min_eq_left (Nat.le_of_lt (BitVec.lt_def.mp h))]
  · rw [if_neg h, Nat.min_eq_right (toNat_le_of_not_lt h)]

/-- The larger one of two words. -/
theorem toNat_ite_gt (x y : BitVec w) : (if x > y then x else y).toNat = max y.toNat x.toNat := by
  by_cases h : x > y
  · rw [if_pos h, Nat.max_eq_right (Nat.le_of_lt (BitVec.lt_def.mp h))]
  · rw [if_neg h, Nat.max_eq_left (toNat_le_of_not_lt h)]

/-- A size that is cut off at the end. -/
theorem toNat_clamp {offset size length : BitVec w} (hoffset : offset.toNat ≤ length.toNat)
    (hsum : offset.toNat + size.toNat < 2 ^ w) :
    (if offset + size > length then length - offset else size).toNat =
      min size.toNat (length.toNat - offset.toNat) := by
  have hadd := BitVec.toNat_add_of_lt hsum
  by_cases h : offset + size > length
  · have hlt := BitVec.lt_def.mp h
    rw [if_pos h, BitVec.toNat_sub_of_le (BitVec.le_def.mpr hoffset)]
    omega
  · have hle := toNat_le_of_not_lt h
    rw [if_neg h]
    omega

/-! ### Flags and masks -/

/-- The mask of the `k` low bits. -/
def lowMask (w k : ℕ) : BitVec w := BitVec.ofNat w (2 ^ k - 1)

theorem getLsbD_lowMask (k i : ℕ) :
    (lowMask w k).getLsbD i = (decide (i < w) && decide (i < k)) := by
  rw [lowMask, BitVec.getLsbD_ofNat, Nat.testBit_two_pow_sub_one]

/-- Masking with a single bit asks for that bit. -/
theorem and_twoPow_ne_zero_iff (x : BitVec w) {k : ℕ} (hk : k < w) :
    x &&& BitVec.twoPow w k ≠ 0#w ↔ x.getLsbD k = true := by
  rw [BitVec.and_twoPow]
  by_cases hx : x.getLsbD k = true
  · rw [if_pos hx]
    refine iff_of_true (fun h0 => ?_) hx
    have h1 : (BitVec.twoPow w k).getLsbD k = (0#w).getLsbD k := by rw [h0]
    simp [hk] at h1
  · rw [if_neg hx]
    exact iff_of_false (fun h0 => h0 rfl) hx

theorem toNat_and_lowMask (x : BitVec w) {k : ℕ} (hk : k < w) :
    (x &&& lowMask w k).toNat = x.toNat % 2 ^ k := by
  have hlt : 2 ^ k - 1 < 2 ^ w :=
    lt_of_le_of_lt (Nat.sub_le _ _) (Nat.pow_lt_pow_right (by decide) hk)
  rw [BitVec.toNat_and, lowMask, BitVec.toNat_ofNat, Nat.mod_eq_of_lt hlt,
    Nat.and_two_pow_sub_one_eq_mod]

theorem toNat_and_not_lowMask (x : BitVec w) (k : ℕ) :
    (x &&& ~~~lowMask w k).toNat = x.toNat / 2 ^ k * 2 ^ k := by
  apply Nat.eq_of_testBit_eq
  intro i
  rw [Nat.testBit_mul_two_pow, Nat.testBit_div_two_pow, BitVec.testBit_toNat,
    BitVec.testBit_toNat, BitVec.getLsbD_and, BitVec.getLsbD_not, getLsbD_lowMask]
  by_cases hik : k ≤ i
  · rw [Nat.sub_add_cancel hik]
    by_cases hw : i < w
    · simp [hik, hw, Nat.not_lt.mpr hik]
    · simp [hw, BitVec.getLsbD_of_ge x i (Nat.not_lt.mp hw)]
  · by_cases hw : i < w
    · simp [hik, hw, Nat.lt_of_not_le hik]
    · simp [hik, hw]

/-- A word whose low `k` bits are clear has none of its bits below `k`. -/
theorem getLsbD_of_dvd {x : BitVec w} {k : ℕ} (hx : 2 ^ k ∣ x.toNat) {i : ℕ} (hi : i < k) :
    x.getLsbD i = false := by
  obtain ⟨q, hq⟩ := hx
  rw [← BitVec.testBit_toNat, hq, Nat.mul_comm, Nat.testBit_mul_two_pow]
  simp [Nat.not_le.mpr hi]

/-- A word below `2 ^ k` has none of its bits from `k` on. -/
theorem getLsbD_of_lt {x : BitVec w} {k : ℕ} (hx : x.toNat < 2 ^ k) {i : ℕ} (hi : k ≤ i) :
    x.getLsbD i = false := by
  rw [← BitVec.testBit_toNat]
  exact Nat.testBit_lt_two_pow (lt_of_lt_of_le hx (Nat.pow_le_pow_right (by decide) hi))

/-- Taking the address out of an aligned address tagged with low flags. -/
theorem or_and_not_lowMask {x y : BitVec w} {k : ℕ} (hx : 2 ^ k ∣ x.toNat)
    (hy : y.toNat < 2 ^ k) : (x ||| y) &&& ~~~lowMask w k = x := by
  apply BitVec.eq_of_getLsbD_eq
  intro i hi
  rw [BitVec.getLsbD_and, BitVec.getLsbD_or, BitVec.getLsbD_not, getLsbD_lowMask]
  by_cases hik : i < k
  · rw [getLsbD_of_dvd hx hik]
    simp [hi, hik]
  · rw [getLsbD_of_lt hy (Nat.not_lt.mp hik)]
    simp [hi, hik]

/-! ### Little-endian storage -/

/-- The two bytes of a 16-bit word, low byte first. -/
def le16 (x : U16) : List U8 := [x.extractLsb' 0 8, x.extractLsb' 8 8]

/-- The four bytes of a 32-bit word, low byte first. -/
def le32 (x : U32) : List U8 :=
  [x.extractLsb' 0 8, x.extractLsb' 8 8, x.extractLsb' 16 8, x.extractLsb' 24 8]

/-- The 16-bit word stored at index `i` of a byte buffer. -/
def get16 (d : ℕ → U8) (i : ℕ) : U16 := d (i + 1) ++ d i

/-- The 32-bit word stored at index `i` of a byte buffer. -/
def get32 (d : ℕ → U8) (i : ℕ) : U32 := d (i + 3) ++ d (i + 2) ++ d (i + 1) ++ d i

/-- A list of bytes as a buffer; what lies past its end reads as zero. -/
def bufferOf (l : List U8) : ℕ → U8 := fun i => l.getD i 0

/-- Byte `k` of a 32-bit word, counted from the low end. -/
def getByte (x : U32) (k : ℕ) : U8 := x.extractLsb' (8 * k) 8

/-- The word with byte `k` replaced. -/
def setByte (x : U32) (k : ℕ) (b : U8) : U32 :=
  (x &&& ~~~(lowMask 32 8 <<< (8 * k))) ||| (b.setWidth 32 <<< (8 * k))

theorem getByte_setByte (x : U32) (b : U8) {k l : ℕ} (hl : l < 4) :
    getByte (setByte x k b) l = if l = k then b else getByte x l := by
  apply BitVec.eq_of_getLsbD_eq
  intro i hi
  have h32 : 8 * l + i < 32 := by omega
  rw [getByte, BitVec.getLsbD_extractLsb', setByte, BitVec.getLsbD_or, BitVec.getLsbD_and,
    BitVec.getLsbD_not, BitVec.getLsbD_shiftLeft, BitVec.getLsbD_shiftLeft, getLsbD_lowMask,
    BitVec.getLsbD_setWidth]
  rcases Nat.lt_trichotomy l k with h | rfl | h
  · rw [if_neg (Nat.ne_of_lt h), getByte, BitVec.getLsbD_extractLsb']
    simp [hi, h32, show 8 * l + i < 8 * k by omega]
  · rw [if_pos rfl]
    simp [hi, h32, show ¬ 8 * l + i < 8 * l by omega, show 8 * l + i - 8 * l = i by omega,
      show i < 32 by omega]
  · rw [if_neg (Nat.ne_of_gt h), getByte, BitVec.getLsbD_extractLsb']
    have h8 : ¬ 8 * l + i - 8 * k < 8 := by omega
    rw [BitVec.getLsbD_of_ge b _ (Nat.not_lt.mp h8)]
    simp [hi, h32, h8]

theorem get16_le16 {d : ℕ → U8} {i : ℕ} {x : U16}
    (h0 : d i = x.extractLsb' 0 8) (h1 : d (i + 1) = x.extractLsb' 8 8) :
    get16 d i = x := by
  apply BitVec.eq_of_getLsbD_eq
  intro j hj
  rw [get16, h0, h1, BitVec.getLsbD_append]
  by_cases h8 : j < 8
  · simp [h8]
  · rw [if_neg h8, BitVec.getLsbD_extractLsb', show 8 + (j - 8) = j by omega]
    simp [show j - 8 < 8 by omega]

theorem get32_le32 {d : ℕ → U8} {i : ℕ} {x : U32}
    (h0 : d i = x.extractLsb' 0 8) (h1 : d (i + 1) = x.extractLsb' 8 8)
    (h2 : d (i + 2) = x.extractLsb' 16 8) (h3 : d (i + 3) = x.extractLsb' 24 8) :
    get32 d i = x := by
  apply BitVec.eq_of_getLsbD_eq
  intro j hj
  rw [get32, h0, h1, h2, h3]
  simp only [BitVec.getLsbD_append, BitVec.getLsbD_extractLsb']
  rcases (by omega : j < 8 ∨ (8 ≤ j ∧ j < 16) ∨ (16 ≤ j ∧ j < 24) ∨ 24 ≤ j) with
    h | h | h | h
  · simp [h]
  · simp [show ¬ j < 8 by omega, show j - 8 < 8 by omega, show 8 + (j - 8) = j by omega]
  · simp [show ¬ j < 8 by omega, show ¬ j - 8 < 8 by omega, show j - 8 - 8 < 8 by omega,
      show 16 + (j - 8 - 8) = j by omega]
  · simp [show ¬ j < 8 by omega, show ¬ j - 8 < 8 by omega, show ¬ j - 8 - 8 < 8 by omega,
      show j - 8 - 8 - 8 < 8 by omega, show 24 + (j - 8 - 8 - 8) = j by omega]

/-! ### Lists of bytes as buffers -/

theorem bufferOf_append_left (before after : List U8) {k : ℕ} (h : k < before.length) :
    bufferOf (before ++ after) k = bufferOf before k :=
  List.getD_append _ _ _ _ h

theorem bufferOf_append (before after : List U8) (k : ℕ) :
    bufferOf (before ++ after) (before.length + k) = bufferOf after k := by
  rw [bufferOf, bufferOf, List.getD_append_right _ _ _ _ (Nat.le_add_right _ _),
    Nat.add_sub_cancel_left]

/-- Reading the bytes of a list back, whatever follows them. -/
theorem map_bufferOf_append (before after : List U8) :
    (List.range before.length).map (bufferOf (before ++ after)) = before := by
  refine List.ext_getElem (by simp) fun i hi hi' => ?_
  rw [List.getElem_map, List.getElem_range, bufferOf_append_left _ _ hi', bufferOf,
    List.getD_eq_getElem _ _ hi']

/-- A 16-bit word among other bytes. -/
theorem get16_eq (before : List U8) {l after : List U8} {x : U16} {i : ℕ}
    (hl : l = before ++ (le16 x ++ after)) (hi : before.length = i) :
    get16 (bufferOf l) i = x := by
  subst hl hi
  refine get16_le16 ?_ ?_
  · exact bufferOf_append before _ 0
  · exact bufferOf_append before _ 1

/-- A word among other bytes. -/
theorem get32_eq (before : List U8) {l after : List U8} {x : U32} {i : ℕ}
    (hl : l = before ++ (le32 x ++ after)) (hi : before.length = i) :
    get32 (bufferOf l) i = x := by
  subst hl hi
  refine get32_le32 ?_ ?_ ?_ ?_
  · exact bufferOf_append before _ 0
  · exact bufferOf_append before _ 1
  · exact bufferOf_append before _ 2
  · exact bufferOf_append before _ 3

/-- A byte in an array of records of the same size. -/
theorem bufferOf_flatMap_range {f : ℕ → List U8} {n w : ℕ} (hf : ∀ i < n, (f i).length = w)
    {k j : ℕ} (hk : k < n) (hj : j < w) :
    bufferOf ((List.range n).flatMap f) (w * k + j) = bufferOf (f k) j := by
  induction n with
  | zero => exact absurd hk (Nat.not_lt_zero _)
  | succ n ih =>
    have hlength : ((List.range n).flatMap f).length = w * n := by
      have hmap : (List.range n).map (fun i => (f i).length) = List.replicate n w :=
        List.eq_replicate_iff.mpr ⟨by simp, fun x hx => by
          obtain ⟨i, hi, rfl⟩ := List.mem_map.mp hx
          exact hf i (Nat.lt_succ_of_lt (List.mem_range.mp hi))⟩
      rw [List.length_flatMap, hmap, List.sum_replicate_nat, Nat.mul_comm]
    rw [List.range_succ, List.flatMap_append, List.flatMap_singleton]
    rcases Nat.lt_or_eq_of_le (Nat.le_of_lt_succ hk) with hlt | rfl
    · have hbelow : w * k + j < w * n := by
        calc w * k + j < w * k + w := by omega
          _ = w * (k + 1) := (Nat.mul_succ w k).symm
          _ ≤ w * n := Nat.mul_le_mul_left w hlt
      rw [bufferOf_append_left _ _ (by rw [hlength]; exact hbelow)]
      exact ih (fun i hi => hf i (Nat.lt_succ_of_lt hi)) hlt
    · rw [← hlength, bufferOf_append]

end MachineWord
