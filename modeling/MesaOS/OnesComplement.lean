/-
Sixteen-bit one's-complement sums.

Such a sum adds words and carries what leaves the sixteen bits back to the low end, which
changes nothing modulo `2 ^ 16 - 1`.  Swapping the two bytes of a word multiplies it by 256
modulo that number, so a sum of words read low byte first and one of words read high byte
first say the same about each other (`sumBE_mod`).

* `fold_eq_max_iff` — the folded sum has all bits set exactly if the sum is a positive
  multiple of `2 ^ 16 - 1`;
* `toNat_foldl_words` — the loop that adds the words of a buffer;
* `sumLE_store` — what a stored word adds to a sum.
-/
import MesaOS.MachineWord

open MachineWord

namespace OnesComplement

/-- The sum of the 16-bit words, high byte first; an odd byte at the end is padded with a zero. -/
def sumBE : List U8 → ℕ
  | [] => 0
  | [a] => a.toNat * 256
  | a :: b :: l => a.toNat * 256 + b.toNat + sumBE l

/-- The sum of the 16-bit words, low byte first. -/
def sumLE : List U8 → ℕ
  | [] => 0
  | [a] => a.toNat
  | a :: b :: l => a.toNat + b.toNat * 256 + sumLE l

/-- The carries are added to the low sixteen bits until there are none. -/
def fold (n : ℕ) : ℕ := if n < 2 ^ 16 then n else fold (n % 2 ^ 16 + n / 2 ^ 16)
termination_by n
decreasing_by omega

/-! ### Folding -/

theorem fold_lt (n : ℕ) : fold n < 2 ^ 16 := by
  induction n using fold.induct with
  | case1 n h =>
    rw [fold, if_pos h]
    exact h
  | case2 n h ih =>
    rw [fold, if_neg h]
    exact ih

theorem fold_mod (n : ℕ) : fold n % 65535 = n % 65535 := by
  induction n using fold.induct with
  | case1 n h => rw [fold, if_pos h]
  | case2 n h ih =>
    rw [fold, if_neg h, ih]
    omega

theorem fold_pos_iff (n : ℕ) : 0 < fold n ↔ 0 < n := by
  induction n using fold.induct with
  | case1 n h => rw [fold, if_pos h]
  | case2 n h ih =>
    rw [fold, if_neg h, ih]
    omega

/-- **The sum has all its bits set.** -/
theorem fold_eq_max_iff (n : ℕ) : fold n = 0xFFFF ↔ 0 < n ∧ n % 65535 = 0 := by
  have hlt := fold_lt n
  rw [← fold_pos_iff, ← fold_mod]
  omega

/-! ### The two byte orders -/

theorem sumBE_mod (l : List U8) : sumBE l % 65535 = 256 * sumLE l % 65535 := by
  induction l using sumLE.induct with
  | case1 => rfl
  | case2 a => rw [sumBE, sumLE, Nat.mul_comm]
  | case3 a b l ih =>
    rw [sumBE, sumLE]
    omega

theorem sumBE_pos_iff (l : List U8) : 0 < sumBE l ↔ 0 < sumLE l := by
  induction l using sumLE.induct with
  | case1 => rfl
  | case2 a =>
    rw [sumBE, sumLE]
    omega
  | case3 a b l ih =>
    rw [sumBE, sumLE]
    omega

/-- **Byte order independence**: the folded sums are each other with the bytes swapped. -/
theorem fold_sumBE (l : List U8) :
    fold (sumBE l) = fold (sumLE l) % 256 * 256 + fold (sumLE l) / 256 := by
  have hbe := fold_lt (sumBE l)
  have hle := fold_lt (sumLE l)
  have hmodBE := fold_mod (sumBE l)
  have hmodLE := fold_mod (sumLE l)
  have hswap := sumBE_mod l
  -- zero and `65535` are the same modulo `65535`, but only zero comes from a sum that is zero
  have hpos : 0 < fold (sumBE l) ↔ 0 < fold (sumLE l) := by
    rw [fold_pos_iff, fold_pos_iff, sumBE_pos_iff]
  generalize fold (sumBE l) = x at *
  generalize fold (sumLE l) = y at *
  omega

theorem sumLE_append {l : List U8} (h : l.length % 2 = 0) (m : List U8) :
    sumLE (l ++ m) = sumLE l + sumLE m := by
  induction l using sumLE.induct with
  | case1 => exact (Nat.zero_add _).symm
  | case2 a => exact absurd h Nat.one_ne_zero
  | case3 a b l ih =>
    have heven : l.length % 2 = 0 := by
      rw [List.length_cons, List.length_cons] at h
      omega
    rw [List.cons_append, List.cons_append, sumLE, sumLE, ih heven]
    omega

theorem sumBE_append {l : List U8} (h : l.length % 2 = 0) (m : List U8) :
    sumBE (l ++ m) = sumBE l + sumBE m := by
  induction l using sumBE.induct with
  | case1 => exact (Nat.zero_add _).symm
  | case2 a => exact absurd h Nat.one_ne_zero
  | case3 a b l ih =>
    have heven : l.length % 2 = 0 := by
      rw [List.length_cons, List.length_cons] at h
      omega
    rw [List.cons_append, List.cons_append, sumBE, sumBE, ih heven]
    omega

theorem sumBE_second_word (a b hi lo : U8) (rest : List U8) :
    sumBE ([a, b] ++ ([hi, lo] ++ rest)) =
      sumBE ([a, b] ++ ([0, 0] ++ rest)) + (hi.toNat * 256 + lo.toNat) := by
  simp only [List.cons_append, List.nil_append, sumBE, show (0 : U8).toNat = 0 from rfl]
  omega

theorem sumLE_le (l : List U8) : sumLE l ≤ 65535 * ((l.length + 1) / 2) := by
  induction l using sumLE.induct with
  | case1 => exact Nat.zero_le _
  | case2 a =>
    have ha := a.isLt
    rw [sumLE, List.length_singleton]
    omega
  | case3 a b l ih =>
    have ha := a.isLt
    have hb := b.isLt
    rw [sumLE, List.length_cons, List.length_cons]
    omega

/-! ### Words in a buffer -/

theorem toNat_append_byte (a b : U8) : (b ++ a : U16).toNat = a.toNat + b.toNat * 256 := by
  rw [BitVec.toNat_append, ← Nat.shiftLeft_add_eq_or_of_lt a.isLt, Nat.shiftLeft_eq]
  omega

theorem even_le16 (x : U16) : (le16 x).length % 2 = 0 := by
  rw [show (le16 x).length = 2 from rfl]

theorem even_le32 (x : U32) : (le32 x).length % 2 = 0 := by
  rw [show (le32 x).length = 4 from rfl]

theorem sumLE_le16 (x : U16) : sumLE (le16 x) = x.toNat := by
  have hx := x.isLt
  rw [le16, sumLE, sumLE, BitVec.extractLsb'_toNat, BitVec.extractLsb'_toNat,
    Nat.shiftRight_eq_div_pow, Nat.shiftRight_eq_div_pow]
  omega

theorem sumLE_le32 (x : U32) : sumLE (le32 x) = x.toNat % 2 ^ 16 + x.toNat / 2 ^ 16 := by
  have hx := x.isLt
  rw [le32, sumLE, sumLE, sumLE]
  simp only [BitVec.extractLsb'_toNat, Nat.shiftRight_eq_div_pow]
  omega

/-- **A stored word** at an even place adds its value. -/
theorem sumLE_store {front : List U8} (h : front.length % 2 = 0) (x : U16) (rest : List U8) :
    sumLE (front ++ (le16 x ++ rest)) = sumLE (front ++ (le16 0 ++ rest)) + x.toNat := by
  rw [sumLE_append h, sumLE_append h, sumLE_append (even_le16 x), sumLE_append (even_le16 0),
    sumLE_le16, sumLE_le16, show (0 : U16).toNat = 0 from rfl]
  omega

/-- The bytes with a word stored at place `k`. -/
def storeWord (l : List U8) (k : ℕ) (x : U16) : List U8 := l.take k ++ (le16 x ++ l.drop (k + 2))

theorem length_storeWord {l : List U8} {k : ℕ} (h : k + 2 ≤ l.length) (x : U16) :
    (storeWord l k x).length = l.length := by
  rw [storeWord, List.length_append, List.length_append, List.length_take, List.length_drop,
    show (le16 x).length = 2 from rfl]
  omega

theorem storeWord_append (front rest : List U8) (x y : U16) :
    storeWord (front ++ (le16 x ++ rest)) front.length y = front ++ (le16 y ++ rest) := by
  have hrest : (front ++ (le16 x ++ rest)).drop (front.length + 2) = rest := by
    rw [← List.drop_drop, List.drop_left]
    rfl
  rw [storeWord, List.take_left, hrest]

/-- Storing a zero where there is one. -/
theorem storeWord_zero {l : List U8} {k : ℕ} (h : k + 2 ≤ l.length)
    (hzero : get16 (bufferOf l) k = 0) : storeWord l k 0 = l := by
  have hsum := congrArg BitVec.toNat hzero
  rw [get16, toNat_append_byte, show (0 : U16).toNat = 0 from rfl, bufferOf, bufferOf,
    List.getD_eq_getElem _ _ (by omega), List.getD_eq_getElem _ _ (by omega)] at hsum
  have hlow : l[k] = 0 := BitVec.eq_of_toNat_eq (by rw [show (0 : U8).toNat = 0 from rfl]; omega)
  have hhigh : l[k + 1] = 0 :=
    BitVec.eq_of_toNat_eq (by rw [show (0 : U8).toNat = 0 from rfl]; omega)
  have hword : le16 0 ++ l.drop (k + 2) = l.drop k := by
    rw [List.drop_eq_getElem_cons (show k < l.length by omega),
      List.drop_eq_getElem_cons (show k + 1 < l.length by omega), hlow, hhigh]
    rfl
  rw [storeWord, hword, List.take_append_drop]

theorem sumLE_storeWord {l : List U8} {k : ℕ} (h : k + 2 ≤ l.length) (heven : k % 2 = 0)
    (hzero : get16 (bufferOf l) k = 0) (x : U16) :
    sumLE (storeWord l k x) = sumLE l + x.toNat := by
  have hfront : (l.take k).length % 2 = 0 := by
    rw [List.length_take, Nat.min_eq_left (by omega), heven]
  have hstore := sumLE_store hfront x (l.drop (k + 2))
  rw [← storeWord, ← storeWord, storeWord_zero h hzero] at hstore
  exact hstore

/-- The next word stands behind the first `2 * k` bytes. -/
theorem take_word {l : List U8} {k : ℕ} (hk : 2 * (k + 1) ≤ l.length) :
    l.take (2 * (k + 1)) = l.take (2 * k) ++ [bufferOf l (2 * k), bufferOf l (2 * k + 1)] := by
  rw [show 2 * (k + 1) = 2 * k + 1 + 1 from rfl, List.take_add_one, List.take_add_one,
    List.getElem?_eq_getElem (by omega), List.getElem?_eq_getElem (by omega), bufferOf,
    bufferOf, List.getD_eq_getElem _ _ (by omega), List.getD_eq_getElem _ _ (by omega),
    List.append_assoc]
  rfl

theorem even_take {l : List U8} {k : ℕ} (hk : 2 * k ≤ l.length) :
    (l.take (2 * k)).length % 2 = 0 := by
  rw [List.length_take]
  omega

/-- The loop that adds the first `k` words; the sum does not leave 32 bits. -/
theorem toNat_foldl_words (l : List U8) (sum : U32) {k : ℕ} (hk : 2 * k ≤ l.length)
    (hsum : sum.toNat + 65535 * k < 2 ^ 32) :
    ((List.range k).foldl (fun sum i => sum + (get16 (bufferOf l) (2 * i)).setWidth 32) sum).toNat =
      sum.toNat + sumLE (l.take (2 * k)) := by
  induction k with
  | zero => rfl
  | succ k ih =>
    have hle := sumLE_le (l.take (2 * k))
    have hlength : (l.take (2 * k)).length ≤ 2 * k := List.length_take_le ..
    have ha := (bufferOf l (2 * k)).isLt
    have hb := (bufferOf l (2 * k + 1)).isLt
    have hget : ((get16 (bufferOf l) (2 * k)).setWidth 32).toNat =
        (bufferOf l (2 * k)).toNat + (bufferOf l (2 * k + 1)).toNat * 256 := by
      rw [BitVec.toNat_setWidth, get16, toNat_append_byte, Nat.mod_eq_of_lt (by omega)]
    rw [List.range_succ, List.foldl_append, List.foldl_cons, List.foldl_nil, BitVec.toNat_add,
      ih (by omega) (by omega), hget, take_word hk, sumLE_append (even_take (by omega)), sumLE,
      sumLE, Nat.mod_eq_of_lt]
    · omega
    · omega

/-- The loop that adds the first `k` words, high byte first, and loses the carries. -/
theorem toNat_foldl_wordsBE {l : List U8} {p : ℕ → U8} (hp : ∀ i < l.length, p i = bufferOf l i)
    {k : ℕ} (hk : 2 * k ≤ l.length) :
    ((List.range k).foldl (fun sum i =>
      sum + ((p (2 * i)).setWidth 16 <<< 8 ||| (p (2 * i + 1)).setWidth 16)) (0 : U16)).toNat =
      sumBE (l.take (2 * k)) % 2 ^ 16 := by
  induction k with
  | zero => rfl
  | succ k ih =>
    have hword : ((p (2 * k)).setWidth 16 <<< 8 ||| (p (2 * k + 1)).setWidth 16).toNat =
        (bufferOf l (2 * k)).toNat * 256 + (bufferOf l (2 * k + 1)).toNat := by
      have ha := (bufferOf l (2 * k)).isLt
      have hb := (bufferOf l (2 * k + 1)).isLt
      rw [hp _ (by omega), hp _ (by omega), BitVec.toNat_or, BitVec.toNat_shiftLeft,
        BitVec.toNat_setWidth, BitVec.toNat_setWidth, Nat.mod_eq_of_lt (by omega),
        Nat.mod_eq_of_lt (by omega), Nat.shiftLeft_eq, Nat.mod_eq_of_lt (by omega),
        ← Nat.shiftLeft_eq, ← Nat.shiftLeft_add_eq_or_of_lt (by omega), Nat.shiftLeft_eq]
    rw [List.range_succ, List.foldl_append, List.foldl_cons, List.foldl_nil, BitVec.toNat_add,
      ih (by omega), hword, take_word hk, sumBE_append (even_take (by omega)), sumBE, sumBE]
    omega

/-- The words, and the odd byte behind them. -/
theorem sumLE_eq_take (l : List U8) :
    sumLE l = sumLE (l.take (2 * (l.length / 2))) +
      if l.length % 2 ≠ 0 then (bufferOf l (l.length - 1)).toNat else 0 := by
  have heven : (l.take (2 * (l.length / 2))).length % 2 = 0 := by
    rw [List.length_take]
    omega
  have hsum := sumLE_append heven (l.drop (2 * (l.length / 2)))
  rw [List.take_append_drop] at hsum
  rw [hsum]
  congr 1
  by_cases hodd : l.length % 2 ≠ 0
  · have hdrop : l.drop (2 * (l.length / 2)) = [bufferOf l (l.length - 1)] := by
      rw [show 2 * (l.length / 2) = l.length - 1 by omega, List.drop_eq_getElem_cons (by omega),
        List.drop_eq_nil_of_le (by omega), bufferOf, List.getD_eq_getElem]
    rw [if_pos hodd, hdrop, sumLE]
  · rw [if_neg hodd, List.drop_eq_nil_of_le (by omega), sumLE]

end OnesComplement
