/-
Numbers as text (`itoa` in `libc/string.cpp`).

The digits are written from the last one on, with the remainders of the truncating division
as they come, and turned around in place.  Only base 10 has a sign.

* `doLoop_eq`, `reverseLoop_eq` — what the two loops leave in memory;
* `itoa_eq` — the text, whatever the sign of the number;
* `written_iff` — for which numbers and bases it can be read back.
-/
import Mathlib.Data.List.Induction
import Mathlib.Data.Nat.Digits.Lemmas
import MesaOS.StoreLog
import MesaOS.SubstringSearch

open MachineWord Runs StoreLog

namespace MesaOS.Libc

open MesaOS.System (chars)
open MesaOS.System.Pointer (StringIn)

/-! ### The code -/

/-- The characters of the digits, those of the negative remainders first. -/
def digitTable : List U8 :=
  chars "zyxwvutsrqponmlkjihgfedcba9876543210123456789abcdefghijklmnopqrstuvwxyz"

/-- The character `'-'`. -/
def minus : U8 := 0x2D

/-- The local variables of the first loop. -/
structure DigitLoop where
  mem : ℕ → U8
  ptr : ℕ
  value : ℤ

/-- `*ptr++ = "zyx...xyz"[35 + value % base]; value /= base;` -/
def digitStep (base : ℤ) (v : DigitLoop) : Option DigitLoop :=
  digitTable[(35 + v.value.tmod base).toNat]?.map fun c =>
    { mem := Function.update v.mem v.ptr c, ptr := v.ptr + 1, value := v.value.tdiv base }

/-- `do { ... } while (value);` -/
def doLoop (base : ℤ) (fuel : ℕ) (v : DigitLoop) : Option DigitLoop :=
  (digitStep base v).bind (whileLoop (fun v => v.value != 0) (digitStep base) fuel)

/-- The local variables of the second loop. -/
structure ReverseLoop where
  mem : ℕ → U8
  low : ℕ
  ptr : ℕ

/-- `char tmp = *low; *low++ = *ptr; *ptr-- = tmp;` -/
def reverseStep (v : ReverseLoop) : Option ReverseLoop :=
  some
    { mem := Function.update (Function.update v.mem v.low (v.mem v.ptr)) v.ptr (v.mem v.low)
      low := v.low + 1
      ptr := v.ptr - 1 }

def reverseLoop : ℕ → ReverseLoop → Option ReverseLoop :=
  whileLoop (fun v => decide (v.low < v.ptr)) reverseStep

/-- More turns than there are digits in 32 bits. -/
def digitFuel : ℕ := 33

/-- `itoa`: the memory behind it, and what it returns. -/
def itoa (mem : ℕ → U8) (value : U32) (str : ℕ) (base : ℤ) : Option ((ℕ → U8) × ℕ) :=
  if base < 2 ∨ base > 36 then some (Function.update mem str 0, str)
  else
    let negative := value.toInt < 0 ∧ base = 10
    let mem := if negative then Function.update mem str minus else mem
    let low := if negative then str + 1 else str
    (doLoop base digitFuel { mem := mem, ptr := low, value := value.toInt }).bind fun v =>
      (reverseLoop digitFuel
        { mem := Function.update v.mem v.ptr 0, low := low, ptr := v.ptr - 1 }).map fun v =>
          (v.mem, str)

/-! ### Digits -/

/-- The digits of a number from the last one on, one for zero. -/
def lowDigits (b n : ℕ) : List ℕ := if n = 0 then [0] else Nat.digits b n

def digitChar (d : ℕ) : U8 := digitTable.getD (35 + d) 0

variable {b n fuel : ℕ}

theorem lowDigits_eq (hb : 2 ≤ b) (n : ℕ) :
    lowDigits b n = n % b :: if n / b = 0 then [] else lowDigits b (n / b) := by
  rw [lowDigits]
  by_cases hn : n = 0
  · rw [if_pos hn, hn, Nat.zero_mod, Nat.zero_div, if_pos rfl]
  · rw [if_neg hn, Nat.digits_def' hb (Nat.pos_of_ne_zero hn), lowDigits]
    by_cases hdiv : n / b = 0
    · rw [if_pos hdiv, hdiv, Nat.digits_zero]
    · rw [if_neg hdiv, if_neg hdiv]

theorem length_lowDigits_pos (hb : 2 ≤ b) (n : ℕ) : 0 < (lowDigits b n).length := by
  rw [lowDigits_eq hb, List.length_cons]
  exact Nat.succ_pos _

theorem lt_of_mem_lowDigits (hb : 2 ≤ b) {d : ℕ} (h : d ∈ lowDigits b n) : d < b := by
  rw [lowDigits] at h
  split at h
  · rw [List.mem_singleton.mp h]
    omega
  · exact Nat.digits_lt_base hb h

theorem length_lowDigits_le (hb : 2 ≤ b) {k : ℕ} (hk : 0 < k) (hn : n < b ^ k) :
    (lowDigits b n).length ≤ k := by
  rw [lowDigits]
  split
  · exact hk
  · exact (Nat.digits_length_le_iff hb n).mpr hn

/-- The table is the same in both directions from its middle. -/
theorem digitTable_getElem {d : ℕ} (hd : d < 36) :
    digitTable[35 + d]? = some (digitChar d) ∧ digitTable[35 - d]? = some (digitChar d) :=
  (by decide : ∀ d : Fin 36, digitTable[35 + d.val]? = some (digitChar d) ∧
    digitTable[35 - d.val]? = some (digitChar d)) ⟨d, hd⟩

/-- A remainder has the character of its absolute value. -/
theorem digitTable_tmod (hb : 2 ≤ b) (hb36 : b ≤ 36) (value : ℤ) :
    digitTable[(35 + value.tmod b).toNat]? = some (digitChar (value.natAbs % b)) := by
  have hlt : value.natAbs % b < 36 := by
    have := Nat.mod_lt value.natAbs (show 0 < b by omega)
    omega
  have htable := digitTable_getElem hlt
  obtain ⟨n, rfl | rfl⟩ := Int.eq_nat_or_neg value
  · rw [Int.natAbs_natCast] at hlt htable ⊢
    have hindex : (35 + (n : ℤ).tmod b).toNat = 35 + n % b := by
      rw [← Int.ofNat_tmod]
      omega
    rw [hindex]
    exact htable.1
  · rw [Int.natAbs_neg, Int.natAbs_natCast] at hlt htable ⊢
    have hindex : (35 + (-(n : ℤ)).tmod b).toNat = 35 - n % b := by
      rw [Int.neg_tmod, ← Int.ofNat_tmod]
      omega
    rw [hindex]
    exact htable.2

/-! ### The two loops -/

/-- The first loop writes the digits of the absolute value, the last one first. -/
theorem doLoop_eq (hb : 2 ≤ b) (hb36 : b ≤ 36) (v : DigitLoop) (hfuel : 0 < fuel)
    (hv : v.value.natAbs < b ^ fuel) :
    doLoop b fuel v = some
      { mem := apply v.mem (copy v.ptr ((lowDigits b v.value.natAbs).map digitChar))
        ptr := v.ptr + (lowDigits b v.value.natAbs).length
        value := 0 } := by
  induction fuel generalizing v with
  | zero => exact absurd hfuel (Nat.lt_irrefl 0)
  | succ fuel ih =>
    have hdiv : (v.value.tdiv b).natAbs = v.value.natAbs / b := by
      rw [Int.natAbs_tdiv, Int.natAbs_natCast]
      rfl
    rw [doLoop, digitStep, digitTable_tmod hb hb36, Option.map_some, Option.bind_some, whileLoop,
      lowDigits_eq hb]
    by_cases hzero : v.value.natAbs / b = 0
    · -- this was the first digit of the number
      have hstop : v.value.tdiv b = 0 := Int.natAbs_eq_zero.mp (hdiv.trans hzero)
      rw [if_pos hzero, if_neg (by simp [hstop])]
      simp only [hstop]
      rfl
    · have hgo : v.value.tdiv b ≠ 0 := fun h => hzero (hdiv.symm.trans (Int.natAbs_eq_zero.mpr h))
      have hless : (v.value.tdiv b).natAbs < b ^ fuel := by
        rw [hdiv, Nat.div_lt_iff_lt_mul (by omega), ← Nat.pow_succ]
        exact hv
      have hpos : 0 < fuel := by
        refine Nat.pos_of_ne_zero fun h => hzero ?_
        rw [h, Nat.pow_zero, hdiv] at hless
        omega
      have hrest := ih
        { mem := Function.update v.mem v.ptr (digitChar (v.value.natAbs % b)), ptr := v.ptr + 1
          value := v.value.tdiv b } hpos hless
      rw [doLoop] at hrest
      rw [if_neg hzero, if_pos (by simpa using hgo), hrest, hdiv, List.length_cons]
      refine congrArg some ?_
      rw [DigitLoop.mk.injEq]
      refine ⟨rfl, ?_, rfl⟩
      dsimp only
      omega

/-- The second loop turns the characters around. -/
theorem reverseLoop_eq (m : ℕ → U8) {low ptr : ℕ} (l : List U8) (hptr : ptr + 1 = low + l.length)
    (hfuel : l.length < fuel) :
    ∃ v, reverseLoop fuel { mem := apply m (copy low l), low := low, ptr := ptr } = some v ∧
      v.mem = apply m (copy low l.reverse) := by
  induction l using List.bidirectionalRec generalizing m low ptr fuel with
  | nil =>
    obtain ⟨fuel, rfl⟩ := Nat.exists_eq_add_of_lt hfuel
    rw [List.length_nil] at hptr
    have hstop : ¬ low < ptr := by omega
    exact ⟨{ mem := m, low := low, ptr := ptr }, if_neg (by simpa using hstop), rfl⟩
  | singleton c =>
    obtain ⟨fuel, rfl⟩ := Nat.exists_eq_add_of_lt hfuel
    rw [List.length_singleton] at hptr
    have hstop : ¬ low < ptr := by omega
    exact ⟨{ mem := apply m (copy low [c]), low := low, ptr := ptr },
      if_neg (by simpa using hstop), rfl⟩
  | cons_append x l y ih =>
    obtain ⟨fuel, rfl⟩ := Nat.exists_eq_add_of_lt hfuel
    have hlength : (x :: (l ++ [y])).length = l.length + 2 := by simp
    have hend : ptr = low + 1 + l.length := by omega
    have hlow : apply m (copy low (x :: (l ++ [y]))) low = x :=
      apply_copy (k := 0) (by omega)
    have hhigh : apply m (copy low (x :: (l ++ [y]))) ptr = y := by
      have hlast := apply_copy (m := m) (a := low) (l := x :: (l ++ [y])) (k := l.length + 1)
        (by omega)
      rw [show low + (l.length + 1) = ptr by omega] at hlast
      rw [hlast]
      simp
    have hne : low ≠ ptr := by omega
    have hlowout : low ∉ places (copy (low + 1) l) := by
      rw [places_copy, List.mem_range'_1]
      omega
    have hptrout : ptr ∉ places (copy (low + 1) l) := by
      rw [places_copy, List.mem_range'_1]
      omega
    -- the two ends change places
    have hswap :
        Function.update (Function.update (apply m (copy low (x :: (l ++ [y])))) low y) ptr x =
          apply (Function.update (Function.update m low y) ptr x) (copy (low + 1) l) := by
      rw [apply_copy_ends, ← hend, ← apply_update hlowout, ← apply_update hptrout,
        Function.update_comm hne x y m, Function.update_idem, Function.update_comm hne.symm y y m,
        Function.update_idem]
    have hinner : ptr - 1 + 1 = low + 1 + l.length := by omega
    have hless : l.length < (x :: (l ++ [y])).length + fuel := by omega
    obtain ⟨v, hv, hmem⟩ := ih (Function.update (Function.update m low y) ptr x) hinner hless
    have hgo : low < ptr := by omega
    refine ⟨v, ?_, ?_⟩
    · rw [reverseLoop, whileLoop, if_pos (by simpa using hgo), reverseStep]
      dsimp only
      rw [Option.bind_some, hlow, hhigh, hswap]
      exact hv
    · rw [hmem, hend, List.reverse_cons, List.reverse_append, List.reverse_singleton,
        List.singleton_append, List.cons_append, apply_copy_ends, List.length_reverse]

/-! ### The text -/

/-- The digits of a number in the order in which they are read. -/
def numeral (b n : ℕ) : List U8 := (lowDigits b n).reverse.map digitChar

/-- The text for a number. -/
def itoaText (value : ℤ) (b : ℕ) : List U8 :=
  (if value < 0 ∧ b = 10 then [minus] else []) ++ numeral b value.natAbs

/-- What is stored for digits that begin at `low`. -/
theorem digits_stored (hb : 2 ≤ b) (hb36 : b ≤ 36) (m : ℕ → U8) (low : ℕ) (value : U32) :
    ((doLoop b digitFuel { mem := m, ptr := low, value := value.toInt }).bind fun v =>
      (reverseLoop digitFuel
        { mem := Function.update v.mem v.ptr 0, low := low, ptr := v.ptr - 1 }).map (·.mem)) =
      some (apply m (copy low (numeral b value.toInt.natAbs ++ [0]))) := by
  have hsize : value.toInt.natAbs < b ^ 32 := by
    have hle : 2 ^ 32 ≤ b ^ 32 := Nat.pow_le_pow_left hb 32
    have hlow := BitVec.le_toInt value
    have hhigh := BitVec.toInt_lt (x := value)
    omega
  have hmore : value.toInt.natAbs < b ^ digitFuel :=
    Nat.lt_of_lt_of_le hsize (Nat.pow_le_pow_right (by omega) (by decide))
  generalize value.toInt = z at hsize hmore
  have hpos := length_lowDigits_pos hb z.natAbs
  have hlength := length_lowDigits_le hb (by decide) hsize
  have hchars : ((lowDigits b z.natAbs).map digitChar).length = (lowDigits b z.natAbs).length :=
    List.length_map ..
  have hout : low + (lowDigits b z.natAbs).length ∉
      places (copy low ((lowDigits b z.natAbs).map digitChar)) := by
    rw [places_copy, hchars, List.mem_range'_1]
    omega
  rw [doLoop_eq hb hb36 _ (by decide) hmore, Option.bind_some]
  dsimp only
  rw [← apply_update hout]
  have hptr : low + (lowDigits b z.natAbs).length - 1 + 1 =
      low + ((lowDigits b z.natAbs).map digitChar).length := by omega
  have hfuel : ((lowDigits b z.natAbs).map digitChar).length < digitFuel := by
    rw [hchars, digitFuel]
    omega
  obtain ⟨v, hv, hmem⟩ := reverseLoop_eq
    (Function.update m (low + (lowDigits b z.natAbs).length) 0) _ hptr hfuel
  have hout' : low + (lowDigits b z.natAbs).length ∉
      places (copy low (numeral b z.natAbs)) := by
    rw [places_copy, numeral, List.length_map, List.length_reverse, List.mem_range'_1]
    omega
  rw [hv, Option.map_some, hmem, ← List.map_reverse, ← numeral, apply_update hout', copy_append,
    apply_append, numeral, List.length_map, List.length_reverse]
  rfl

/-- **What `itoa` writes**: the text, and a zero behind it. -/
theorem itoa_eq (hb : 2 ≤ b) (hb36 : b ≤ 36) (mem : ℕ → U8) (value : U32) (str : ℕ) :
    itoa mem value str b =
      some (apply mem (copy str (itoaText value.toInt b ++ [0])), str) := by
  have hbase : ¬ ((b : ℤ) < 2 ∨ (b : ℤ) > 36) := by omega
  have hsign : value.toInt < 0 ∧ (b : ℤ) = 10 ↔ value.toInt < 0 ∧ b = 10 :=
    and_congr_right fun _ => by omega
  have hpair : ∀ m low, ((doLoop b digitFuel
      { mem := m, ptr := low, value := value.toInt }).bind fun v =>
        (reverseLoop digitFuel
          { mem := Function.update v.mem v.ptr 0, low := low, ptr := v.ptr - 1 }).map fun v =>
            (v.mem, str)) =
      some (apply m (copy low (numeral b value.toInt.natAbs ++ [0])), str) := by
    intro m low
    have hstored := congrArg (Option.map fun m => (m, str)) (digits_stored hb hb36 m low value)
    rw [Option.map_bind] at hstored
    simpa only [Function.comp_def, Option.map_map, Option.map_some] using hstored
  rw [itoa, if_neg hbase]
  dsimp only
  rw [hpair, itoaText]
  by_cases hneg : value.toInt < 0 ∧ b = 10
  -- the sign is stored before the digits
  · rw [if_pos (hsign.mpr hneg), if_pos (hsign.mpr hneg), if_pos hneg]
    rfl
  · rw [if_neg fun h => hneg (hsign.mp h), if_neg fun h => hneg (hsign.mp h), if_neg hneg]
    rfl

/-! ### Reading it back -/

/-- The value of a digit. -/
def digitValue (c : U8) : Option ℕ :=
  if 0x30 ≤ c ∧ c ≤ 0x39 then some (c.toNat - 0x30)
  else if 0x61 ≤ c ∧ c ≤ 0x7A then some (c.toNat - 0x57)
  else none

/-- The number that the digits stand for, behind those read before. -/
def parseDigits (b : ℕ) : ℕ → List U8 → Option ℕ
  | acc, [] => some acc
  | acc, c :: l =>
    (digitValue c).bind fun d => if d < b then parseDigits b (acc * b + d) l else none

def parseUnsigned (b : ℕ) (text : List U8) : Option ℕ :=
  if text = [] then none else parseDigits b 0 text

def parseSigned (b : ℕ) (text : List U8) : Option ℤ :=
  if text.head? = some minus then (parseUnsigned b text.tail).map fun n : ℕ => -(n : ℤ)
  else (parseUnsigned b text).map fun n : ℕ => (n : ℤ)

theorem digitChar_spec {d : ℕ} (hd : d < 36) :
    digitValue (digitChar d) = some d ∧ digitChar d ≠ minus ∧ digitChar d ≠ 0 ∧
      (digitChar d = 0x30 → d = 0) :=
  (by decide : ∀ d : Fin 36, digitValue (digitChar d) = some d.val ∧ digitChar d ≠ minus ∧
    digitChar d ≠ 0 ∧ (digitChar d = 0x30 → d.val = 0)) ⟨d, hd⟩

theorem parseDigits_map (hb36 : b ≤ 36) {ds : List ℕ} (h : ∀ d ∈ ds, d < b) (acc : ℕ) :
    parseDigits b acc (ds.map digitChar) = some (ds.foldl (fun a d => a * b + d) acc) := by
  induction ds generalizing acc with
  | nil => rfl
  | cons d ds ih =>
    have hd := h d (List.mem_cons_self ..)
    rw [List.map_cons, parseDigits, (digitChar_spec (by omega)).1, Option.bind_some, if_pos hd,
      ih fun e he => h e (List.mem_cons_of_mem d he)]
    rfl

theorem ofDigits_lowDigits (b n : ℕ) : Nat.ofDigits b (lowDigits b n) = n := by
  rw [lowDigits]
  split
  next h => rw [h, Nat.ofDigits_singleton]
  next => exact Nat.ofDigits_digits b n

theorem numeral_ne_nil (hb : 2 ≤ b) (n : ℕ) : numeral b n ≠ [] := by
  rw [numeral, ne_eq, List.map_eq_nil_iff, List.reverse_eq_nil_iff]
  exact List.ne_nil_of_length_pos (length_lowDigits_pos hb n)

/-- The digits stand for the number. -/
theorem parseUnsigned_numeral (hb : 2 ≤ b) (hb36 : b ≤ 36) (n : ℕ) :
    parseUnsigned b (numeral b n) = some n := by
  have hdigits : ∀ d ∈ (lowDigits b n).reverse, d < b := fun d hd =>
    lt_of_mem_lowDigits hb (List.mem_reverse.mp hd)
  rw [parseUnsigned, if_neg (numeral_ne_nil hb n), numeral, parseDigits_map hb36 hdigits,
    List.foldl_reverse]
  have hfold : (lowDigits b n).foldr (fun d a => a * b + d) 0 = Nat.ofDigits b (lowDigits b n) := by
    rw [Nat.ofDigits_eq_foldr]
    refine congrArg (fun f => (lowDigits b n).foldr f 0) ?_
    funext d a
    rw [Nat.mul_comm, Nat.add_comm]
    rfl
  rw [hfold, ofDigits_lowDigits]

theorem mem_numeral (hb : 2 ≤ b) (hb36 : b ≤ 36) {c : U8} (h : c ∈ numeral b n) :
    c ≠ minus ∧ c ≠ 0 := by
  obtain ⟨d, hd, rfl⟩ := List.mem_map.mp h
  have hlt := lt_of_mem_lowDigits hb (List.mem_reverse.mp hd)
  have hspec := digitChar_spec (d := d) (by omega)
  exact ⟨hspec.2.1, hspec.2.2.1⟩

/-- The digits begin with a zero for zero only. -/
theorem head_numeral (hb : 2 ≤ b) (hb36 : b ≤ 36) (h : (numeral b n).head? = some 0x30) :
    numeral b n = [0x30] := by
  by_cases hn : n = 0
  · rw [hn, numeral, lowDigits, if_pos rfl]
    decide
  · -- the first digit of a positive number is not zero
    have hne : Nat.digits b n ≠ [] := Nat.digits_ne_nil_iff_ne_zero.mpr hn
    rw [numeral, lowDigits, if_neg hn, List.head?_map, List.head?_reverse,
      List.getLast?_eq_some_getLast hne, Option.map_some, Option.some_inj] at h
    have hlt := Nat.digits_lt_base hb (List.getLast_mem hne)
    exact absurd ((digitChar_spec (by omega)).2.2.2 h) (Nat.getLast_digit_ne_zero b hn)

/-! ### Strings that have been written -/

theorem stringIn_stored {m : ℕ → U8} {a : ℕ} {text : List U8} (h : 0 ∉ text) :
    StringIn (apply m (copy a (text ++ [0]))) a text := by
  induction text generalizing m a with
  | nil => exact apply_copy (l := [0]) (k := 0) Nat.one_pos
  | cons c text ih =>
    rw [List.mem_cons, not_or] at h
    have hfirst : apply m (copy a (c :: text ++ [0])) a = c :=
      apply_copy (l := c :: (text ++ [0])) (k := 0) (Nat.succ_pos _)
    refine ⟨hfirst, fun hc => h.1 hc.symm, ?_⟩
    exact ih h.2

theorem stringIn_unique {m : ℕ → U8} {a : ℕ} {text text' : List U8} (h : StringIn m a text)
    (h' : StringIn m a text') : text = text' := by
  induction text generalizing a text' with
  | nil => exact (h'.eq_zero_iff.mp h).symm
  | cons c text ih =>
    cases text' with
    | nil => exact h.eq_zero_iff.mp h'
    | cons d text' =>
      obtain ⟨hc, -, hrest⟩ := h
      obtain ⟨hd, -, hrest'⟩ := h'
      rw [← hc, hd, ih hrest hrest']

theorem noNul_itoaText (hb : 2 ≤ b) (hb36 : b ≤ 36) (value : ℤ) : 0 ∉ itoaText value b := by
  intro h
  rcases List.mem_append.mp h with h | h
  · split at h
    · exact absurd (List.mem_singleton.mp h) (by decide)
    · exact List.not_mem_nil h
  · exact (mem_numeral hb hb36 h).2 rfl

/-! ### Which numbers can be read back -/

/-- The text stands for the value: with its sign in base 10, and as an unsigned number of 32 bits
in the others. -/
def Reads (text : List U8) (value : U32) (b : ℕ) : Prop :=
  if b = 10 then parseSigned 10 text = some value.toInt
  else ∃ n, parseUnsigned b text = some n ∧ BitVec.ofNat 32 n = value

/-- No zero in front of other digits. -/
def NoLeadingZero (text : List U8) : Prop :=
  let digits := if text.head? = some minus then text.tail else text
  digits.head? = some 0x30 → digits = [0x30]

/-- `itoa` leaves a text at the buffer that can be read back. -/
def Written (mem : ℕ → U8) (value : U32) (str b : ℕ) : Prop :=
  ∃ mem' text, itoa mem value str b = some (mem', str) ∧ StringIn mem' str text ∧
    Reads text value b ∧ NoLeadingZero text

theorem head_numeral_ne (hb : 2 ≤ b) (hb36 : b ≤ 36) (n : ℕ) :
    (numeral b n).head? ≠ some minus := fun h =>
  (mem_numeral hb hb36 (List.mem_of_head? h)).1 rfl

theorem noLeadingZero_itoaText (hb : 2 ≤ b) (hb36 : b ≤ 36) (value : ℤ) :
    NoLeadingZero (itoaText value b) := by
  rw [NoLeadingZero, itoaText]
  by_cases hneg : value < 0 ∧ b = 10
  · rw [if_pos hneg]
    exact head_numeral hb hb36
  · rw [if_neg hneg, List.nil_append, if_neg (head_numeral_ne hb hb36 _)]
    exact head_numeral hb hb36

theorem written_iff_reads (hb : 2 ≤ b) (hb36 : b ≤ 36) (mem : ℕ → U8) (value : U32) (str : ℕ) :
    Written mem value str b ↔ Reads (itoaText value.toInt b) value b := by
  have hstring : StringIn (apply mem (copy str (itoaText value.toInt b ++ [0]))) str
      (itoaText value.toInt b) := stringIn_stored (noNul_itoaText hb hb36 _)
  constructor
  · rintro ⟨mem', text, hitoa, htext, hreads, -⟩
    rw [itoa_eq hb hb36, Option.some_inj, Prod.mk.injEq] at hitoa
    rw [← hitoa.1] at htext
    rwa [stringIn_unique hstring htext]
  · intro hreads
    exact ⟨_, _, itoa_eq hb hb36 mem value str, hstring, hreads, noLeadingZero_itoaText hb hb36 _⟩

/-- In base 10 the sign is written. -/
theorem reads_ten (value : U32) : Reads (itoaText value.toInt 10) value 10 := by
  rw [Reads, if_pos rfl, parseSigned]
  have hparse := parseUnsigned_numeral (b := 10) (by decide) (by decide) value.toInt.natAbs
  by_cases hneg : value.toInt < 0
  · have htext : itoaText value.toInt 10 = minus :: numeral 10 value.toInt.natAbs := by
      rw [itoaText, if_pos ⟨hneg, rfl⟩, List.singleton_append]
    rw [htext, List.head?_cons, if_pos rfl, List.tail_cons, hparse, Option.map_some,
      Int.ofNat_natAbs_of_nonpos (by omega), Int.neg_neg]
  · have htext : itoaText value.toInt 10 = numeral 10 value.toInt.natAbs := by
      rw [itoaText, if_neg fun h => hneg h.1, List.nil_append]
    rw [htext, if_neg (head_numeral_ne (by decide) (by decide) _), hparse, Option.map_some,
      Int.natAbs_of_nonneg (by omega)]

/-- In the other bases the absolute value is. -/
theorem reads_iff (hb : 2 ≤ b) (hb36 : b ≤ 36) (hten : b ≠ 10) (value : U32) :
    Reads (itoaText value.toInt b) value b ↔ 0 ≤ value.toInt ∨ value = 0x80000000 := by
  rw [Reads, if_neg hten, itoaText, if_neg fun h => hten h.2, List.nil_append,
    parseUnsigned_numeral hb hb36]
  have hlt := value.isLt
  have htoInt := BitVec.toInt_eq_toNat_cond value
  have hmin : value = 0x80000000 ↔ value.toNat = 2 ^ 31 := by
    rw [← BitVec.toNat_inj]
    rfl
  rw [hmin]
  constructor
  · rintro ⟨n, hn, hvalue⟩
    rw [Option.some_inj] at hn
    have hmod := congrArg BitVec.toNat hvalue
    rw [BitVec.toNat_ofNat, ← hn] at hmod
    split at htoInt <;> omega
  · intro h
    refine ⟨_, rfl, ?_⟩
    apply BitVec.eq_of_toNat_eq
    rw [BitVec.toNat_ofNat]
    split at htoInt <;> omega

/-- **Which numbers are written so that they can be read back**: all in base 10, and in the other
bases those that are not negative, and the smallest one. -/
theorem written_iff (hb : 2 ≤ b) (hb36 : b ≤ 36) (mem : ℕ → U8) (value : U32) (str : ℕ) :
    Written mem value str b ↔ b = 10 ∨ 0 ≤ value.toInt ∨ value = 0x80000000 := by
  rw [written_iff_reads hb hb36]
  by_cases hten : b = 10
  · subst hten
    exact iff_of_true (reads_ten value) (.inl rfl)
  · rw [reads_iff hb hb36 hten, or_iff_right hten]

/-- The address of a device in hexadecimal. -/
theorem written_iff_hex :
    Written (fun _ => 0) 0xC000 0 16 ↔
      16 = 10 ∨ 0 ≤ (0xC000 : U32).toInt ∨ (0xC000 : U32) = 0x80000000 :=
  written_iff (by decide) (by decide) _ _ _

/-- **An address in the upper half**: that of a page fault at `0xC0001000` is written as
`3ffff000`. -/
theorem upperAddress_not_written :
    ((itoa (fun _ => 0) 0xC0001000 0 16).map fun r => (List.range 9).map r.1) =
        some (chars "3ffff000" ++ [0]) ∧
      ¬ ∀ (mem : ℕ → U8) (value : U32) (str b : ℕ), 2 ≤ b → b ≤ 36 → Written mem value str b := by
  refine ⟨by decide, fun h => ?_⟩
  have hwritten := h (fun _ => 0) 0xC0001000 0 16 (by decide) (by decide)
  rw [written_iff_reads (by decide) (by decide), reads_iff (by decide) (by decide) (by decide)]
    at hwritten
  exact absurd hwritten (by decide)

end MesaOS.Libc
