/-
A set of small numbers kept as bits of machine words.

Number `n` is bit `n % w` of word `n / w`.  `test`, `set` and `clear` are the
usual one-bit operations and behave like membership, insertion and deletion
(`test_set`, `test_clear`).  `firstClear` scans whole words, skipping the full
ones, and returns the least number not in the set (`firstClear_eq_some_iff`,
`firstClear_eq_none_iff`) — a linear scan is a minimum, which is what makes an
allocator built on it deterministic.
-/
import MesaOS.MachineWord
import Mathlib.Data.Nat.Count

open MachineWord

namespace Bitmap

variable {w : ℕ}

/-- Bit `n` of the bitmap. -/
def test (ws : ℕ → BitVec w) (n : ℕ) : Bool := (ws (n / w)).getLsbD (n % w)

/-- Overwrite word `i`. -/
def putWord (ws : ℕ → BitVec w) (i : ℕ) (x : BitVec w) : ℕ → BitVec w :=
  fun k => if k = i then x else ws k

def set (ws : ℕ → BitVec w) (n : ℕ) : ℕ → BitVec w :=
  putWord ws (n / w) (ws (n / w) ||| BitVec.twoPow w (n % w))

def clear (ws : ℕ → BitVec w) (n : ℕ) : ℕ → BitVec w :=
  putWord ws (n / w) (ws (n / w) &&& ~~~BitVec.twoPow w (n % w))

/-- Two numbers are equal when they name the same bit. -/
theorem eq_of_div_of_mod {m n : ℕ} (hd : m / w = n / w) (hm : m % w = n % w) : m = n := by
  rw [← Nat.div_add_mod m w, ← Nat.div_add_mod n w, hd, hm]

/-- Bit `j` of word `i` is number `i * w + j`. -/
theorem test_index (ws : ℕ → BitVec w) {i j : ℕ} (hj : j < w) :
    test ws (i * w + j) = (ws i).getLsbD j := by
  have hw : 0 < w := Nat.zero_lt_of_lt hj
  rw [test, Nat.add_comm, Nat.add_mul_div_right _ _ hw, Nat.div_eq_of_lt hj, Nat.zero_add,
    Nat.add_mul_mod_self_right, Nat.mod_eq_of_lt hj]

theorem test_set (hw : 0 < w) (ws : ℕ → BitVec w) (n m : ℕ) :
    test (set ws n) m = (decide (m = n) || test ws m) := by
  rw [test, set, putWord]
  by_cases hd : m / w = n / w
  · rw [if_pos hd, BitVec.getLsbD_or, BitVec.getLsbD_twoPow, test, hd, Bool.or_comm]
    congr 1
    have hlt : n % w < w := Nat.mod_lt n hw
    by_cases hm : n % w = m % w
    · simp [hm ▸ hlt, hm, eq_of_div_of_mod hd hm.symm]
    · have hne : m ≠ n := fun h => hm (by rw [h])
      simp [hm, hne]
  · have hne : m ≠ n := fun h => hd (by rw [h])
    rw [if_neg hd, test]
    simp [hne]

theorem test_clear (hw : 0 < w) (ws : ℕ → BitVec w) (n m : ℕ) :
    test (clear ws n) m = (decide (m ≠ n) && test ws m) := by
  rw [test, clear, putWord]
  by_cases hd : m / w = n / w
  · rw [if_pos hd, BitVec.getLsbD_and, BitVec.getLsbD_not, BitVec.getLsbD_twoPow, test, hd,
      Bool.and_comm]
    congr 1
    have hlt : n % w < w := Nat.mod_lt n hw
    have hlm : m % w < w := Nat.mod_lt m hw
    by_cases hm : n % w = m % w
    · simp [hlm, hm, eq_of_div_of_mod hd hm.symm]
    · have hne : m ≠ n := fun h => hm (by rw [h])
      simp [hlm, hm, hne]
  · have hne : m ≠ n := fun h => hd (by rw [h])
    rw [if_neg hd, test]
    simp [hne]

/-! ### Searching for the first clear bit -/

theorem findSome?_congr {α β : Type*} {f g : α → Option β} :
    ∀ {l : List α}, (∀ x ∈ l, f x = g x) → l.findSome? f = l.findSome? g
  | [], _ => rfl
  | x :: l, h => by
    rw [List.findSome?_cons, List.findSome?_cons, h x List.mem_cons_self,
      findSome?_congr fun y hy => h y (List.mem_cons_of_mem x hy)]

/-- A search that stops at the first hit returns the hit of the least index. -/
theorem findSome?_range_eq_some_iff {α : Type*} (f : ℕ → Option α) (k : ℕ) (a : α) :
    (List.range k).findSome? f = some a ↔ ∃ i < k, f i = some a ∧ ∀ j < i, f j = none := by
  induction k with
  | zero => simp
  | succ k ih =>
    rw [List.range_succ, List.findSome?_append, List.findSome?_singleton]
    cases hk : (List.range k).findSome? f with
    | some b =>
      rw [hk] at ih
      simp only [Option.some_or]
      rw [ih]
      constructor
      · rintro ⟨i, hi, h⟩
        exact ⟨i, Nat.lt_succ_of_lt hi, h⟩
      · rintro ⟨i, hi, hfi, hmin⟩
        rcases Nat.lt_succ_iff_lt_or_eq.mp hi with hlt | rfl
        · exact ⟨i, hlt, hfi, hmin⟩
        · have hnone : (List.range i).findSome? f = none :=
            List.findSome?_eq_none_iff.mpr fun j hj => hmin j (List.mem_range.mp hj)
          rw [hnone] at hk
          exact absurd hk (by simp)
    | none =>
      rw [Option.none_or]
      have hbelow : ∀ j < k, f j = none := fun j hj =>
        List.findSome?_eq_none_iff.mp hk j (List.mem_range.mpr hj)
      constructor
      · intro h
        exact ⟨k, Nat.lt_succ_self k, h, hbelow⟩
      · rintro ⟨i, hi, hfi, -⟩
        rcases Nat.lt_succ_iff_lt_or_eq.mp hi with hlt | rfl
        · rw [hbelow i hlt] at hfi
          exact absurd hfi (by simp)
        · exact hfi

/-- The least number below `k * w` whose bit is clear, found word by word. -/
def firstClear (ws : ℕ → BitVec w) (k : ℕ) : Option ℕ :=
  (List.range k).findSome? fun i =>
    if ws i ≠ BitVec.allOnes w then
      (List.range w).findSome? fun j =>
        if ws i &&& BitVec.twoPow w j = 0#w then some (i * w + j) else none
    else none

/-- The scan of word `i`, skipped or not, finds nothing exactly when the word is full. -/
theorem scanWord_eq_none_iff (ws : ℕ → BitVec w) (i : ℕ) :
    (if ws i ≠ BitVec.allOnes w then
      (List.range w).findSome? fun j =>
        if ws i &&& BitVec.twoPow w j = 0#w then some (i * w + j) else none
     else none) = none ↔ ∀ j < w, (ws i).getLsbD j = true := by
  by_cases hfull : ws i = BitVec.allOnes w
  · rw [if_neg (not_not.mpr hfull), hfull]
    exact iff_of_true rfl fun j hj => by simp [hj]
  · rw [if_pos hfull, List.findSome?_eq_none_iff]
    refine forall_congr' fun j => ?_
    rw [List.mem_range]
    refine imp_congr_right fun hj => ?_
    rw [← and_twoPow_ne_zero_iff (ws i) hj]
    by_cases hb : ws i &&& BitVec.twoPow w j = 0#w
    · simp [hb]
    · simp [hb]

theorem firstClear_eq_some_iff (ws : ℕ → BitVec w) (k n : ℕ) :
    firstClear ws k = some n ↔
      n < k * w ∧ test ws n = false ∧ ∀ m < n, test ws m = true := by
  rw [firstClear, findSome?_range_eq_some_iff]
  have hbit : ∀ i j, j < w →
      (ws i &&& BitVec.twoPow w j = 0#w ↔ test ws (i * w + j) = false) := by
    intro i j hj
    rw [test_index ws hj, ← Bool.not_eq_true, ← and_twoPow_ne_zero_iff (ws i) hj, not_not]
  constructor
  · rintro ⟨i, hi, hfound, hmin⟩
    have hfound' : (List.range w).findSome? (fun j =>
        if ws i &&& BitVec.twoPow w j = 0#w then some (i * w + j) else none) = some n := by
      by_cases hfull : ws i = BitVec.allOnes w
      · rw [if_neg (not_not.mpr hfull)] at hfound
        exact absurd hfound (by simp)
      · rwa [if_pos hfull] at hfound
    obtain ⟨j, hj, hjn, hjmin⟩ := (findSome?_range_eq_some_iff _ w n).mp hfound'
    by_cases hclear : ws i &&& BitVec.twoPow w j = 0#w
    · rw [if_pos hclear, Option.some_inj] at hjn
      subst hjn
      have hbound : (i + 1) * w ≤ k * w := Nat.mul_le_mul_right w hi
      rw [Nat.succ_mul] at hbound
      refine ⟨by omega, (hbit i j hj).mp hclear, fun m hm => ?_⟩
      -- `m` is in an earlier word, which is full, or an earlier bit of word `i`
      have hmw : m % w < w := Nat.mod_lt m (Nat.zero_lt_of_lt hj)
      have hm' : m / w * w + m % w = m := Nat.div_add_mod' m w
      have hdiv : m / w ≤ i := by
        by_contra hgt
        have : (i + 1) * w ≤ m / w * w := Nat.mul_le_mul_right w (Nat.lt_of_not_le hgt)
        rw [Nat.succ_mul] at this
        omega
      rcases Nat.lt_or_eq_of_le hdiv with hlt | heq
      · rw [← hm', test_index ws hmw]
        exact (scanWord_eq_none_iff ws (m / w)).mp (hmin _ hlt) _ hmw
      · rw [heq] at hm'
        have hnone := hjmin (m % w) (by omega)
        rw [← hm', ← Bool.not_eq_false]
        intro hcl
        rw [if_pos ((hbit i _ hmw).mpr hcl)] at hnone
        exact absurd hnone (by simp)
    · rw [if_neg hclear] at hjn
      exact absurd hjn (by simp)
  · rintro ⟨hn, hclear, hmin⟩
    have hw : 0 < w := by
      rcases Nat.eq_zero_or_pos w with rfl | hw
      · simp at hn
      · exact hw
    have hmod : n % w < w := Nat.mod_lt n hw
    have hn' : n / w * w + n % w = n := Nat.div_add_mod' n w
    refine ⟨n / w, (Nat.div_lt_iff_lt_mul hw).mpr hn, ?_, ?_⟩
    · have hnotfull : ws (n / w) ≠ BitVec.allOnes w := by
        intro hfull
        rw [test, hfull] at hclear
        simp [hmod] at hclear
      rw [if_pos hnotfull, findSome?_range_eq_some_iff]
      refine ⟨n % w, hmod, ?_, fun j hj => ?_⟩
      · rw [if_pos ((hbit _ _ hmod).mpr (by rw [hn']; exact hclear)), hn']
      · rw [if_neg]
        intro h0
        rw [hbit _ _ (by omega), hmin _ (by omega)] at h0
        exact absurd h0 (by simp)
    · intro i hi
      refine (scanWord_eq_none_iff ws i).mpr fun j hj => ?_
      have hlt : (i + 1) * w ≤ n / w * w := Nat.mul_le_mul_right w hi
      rw [Nat.succ_mul] at hlt
      rw [← test_index ws hj]
      exact hmin _ (by omega)

theorem firstClear_eq_none_iff (ws : ℕ → BitVec w) (k : ℕ) :
    firstClear ws k = none ↔ ∀ n < k * w, test ws n = true := by
  constructor
  · intro hnone n hn
    -- the least clear bit below `k * w`, if there is one, would have been found
    induction n using Nat.strong_induction_on with
    | _ n ih =>
      by_contra hclear
      have hfound : firstClear ws k = some n :=
        (firstClear_eq_some_iff ws k n).mpr
          ⟨hn, Bool.not_eq_true _ ▸ hclear, fun m hm => ih m hm (lt_trans hm hn)⟩
      rw [hnone] at hfound
      exact absurd hfound (by simp)
  · intro hall
    cases hfound : firstClear ws k with
    | none => rfl
    | some n =>
      obtain ⟨hn, hclear, -⟩ := (firstClear_eq_some_iff ws k n).mp hfound
      rw [hall n hn] at hclear
      exact absurd hclear (by simp)

/-! ### Counting -/

/-- One more number below `n`. -/
theorem count_insert {p q : ℕ → Prop} [DecidablePred p] [DecidablePred q] {a n : ℕ} (ha : a < n)
    (hp : ¬ p a) (hq : ∀ b, q b ↔ p b ∨ b = a) : Nat.count q n = Nat.count p n + 1 := by
  have hinsert : (Finset.range n).filter q = insert a ((Finset.range n).filter p) := by
    ext b
    rw [Finset.mem_filter, Finset.mem_insert, Finset.mem_filter, hq, Finset.mem_range]
    constructor
    · rintro ⟨hb, hpb | rfl⟩
      · exact Or.inr ⟨hb, hpb⟩
      · exact Or.inl rfl
    · rintro (rfl | ⟨hb, hpb⟩)
      · exact ⟨ha, Or.inr rfl⟩
      · exact ⟨hb, Or.inl hpb⟩
  rw [Nat.count_eq_card_filter_range, Nat.count_eq_card_filter_range, hinsert,
    Finset.card_insert_of_notMem fun h => hp (Finset.mem_filter.mp h).2]

end Bitmap
