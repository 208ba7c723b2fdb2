/-
C records and strings in a memory of bytes.

A store changes the bytes it is made to and leaves the others alone, whatever was stored
there before; so of a sequence of stores the last one to a place counts.

* `get32_put32`, `get32_put32_of_disjoint` — a word that is stored and read back, and one
  that is read elsewhere;
* `strcpy_apply`, `strcpy_outside` — a copied string, its terminating zero, and the rest;
* `strcmp_eq_zero_iff`, `strcmp_eq_zero_iff_takeWhile` — when the string in memory is the
  one it is compared with.
-/
import MesaOS.MachineWord

open MachineWord

namespace ByteMemory

/-- A word stored at address `a`. -/
def put32 (m : ℕ → U8) (a : ℕ) (x : U32) : ℕ → U8 := fun k =>
  if a ≤ k ∧ k < a + 4 then bufferOf (le32 x) (k - a) else m k

def memset (m : ℕ → U8) (a : ℕ) (value : U8) (n : ℕ) : ℕ → U8 := fun k =>
  if a ≤ k ∧ k < a + n then value else m k

/-- `strcpy` of a string to address `a`, a character at a time. -/
def strcpy (m : ℕ → U8) (a : ℕ) : List U8 → ℕ → U8
  | [] => Function.update m a 0
  | c :: l => strcpy (Function.update m a c) (a + 1) l

/-- `strcmp` of the string at address `a` with another one. -/
def strcmp (m : ℕ → U8) (a : ℕ) : List U8 → ℤ
  | [] => (m a).toNat
  | c :: l => if m a ≠ 0 ∧ m a = c then strcmp m (a + 1) l else (m a).toNat - c.toNat

variable {m m' : ℕ → U8} {a b k : ℕ}

/-! ### Words -/

theorem put32_apply (x : U32) {j : ℕ} (h : j < 4) :
    put32 m a x (a + j) = bufferOf (le32 x) j := by
  rw [put32, if_pos ⟨Nat.le_add_right _ _, by omega⟩, Nat.add_sub_cancel_left]

theorem put32_outside (x : U32) (h : k < a ∨ a + 4 ≤ k) : put32 m a x k = m k :=
  if_neg (by omega)

theorem memset_apply (value : U8) (n : ℕ) (h : a ≤ k ∧ k < a + n) :
    memset m a value n k = value :=
  if_pos h

theorem memset_outside (value : U8) {n : ℕ} (h : k < a ∨ a + n ≤ k) :
    memset m a value n k = m k :=
  if_neg (by omega)

theorem get32_congr (h : ∀ j < 4, m (a + j) = m' (b + j)) : get32 m a = get32 m' b := by
  have h0 : m a = m' b := h 0 (by omega)
  rw [get32, get32, h0, h 1 (by omega), h 2 (by omega), h 3 (by omega)]

@[simp] theorem get32_put32 (m : ℕ → U8) (a : ℕ) (x : U32) : get32 (put32 m a x) a = x :=
  get32_le32 (put32_apply (j := 0) x (by omega)) (put32_apply x (by omega))
    (put32_apply x (by omega)) (put32_apply x (by omega))

theorem get32_put32_of_disjoint (x : U32) (h : b + 4 ≤ a ∨ a + 4 ≤ b) :
    get32 (put32 m a x) b = get32 m b :=
  get32_congr fun j hj => put32_outside x (by omega)

theorem get32_memset_of_disjoint (value : U8) {n : ℕ} (h : b + 4 ≤ a ∨ a + n ≤ b) :
    get32 (memset m a value n) b = get32 m b :=
  get32_congr fun j hj => memset_outside value (by omega)

theorem get32_update_of_disjoint (v : U8) (h : b + 4 ≤ a ∨ a < b) :
    get32 (Function.update m a v) b = get32 m b :=
  get32_congr fun j hj => by rw [Function.update_of_ne (by omega)]

/-- The bytes that a word is read from. -/
theorem getByte_get32 (m : ℕ → U8) (a : ℕ) {j : ℕ} (h : j < 4) :
    getByte (get32 m a) j = m (a + j) := by
  apply BitVec.eq_of_getLsbD_eq
  intro b hb
  rw [getByte, get32, BitVec.getLsbD_extractLsb']
  simp only [BitVec.getLsbD_append]
  rcases (by omega : j = 0 ∨ j = 1 ∨ j = 2 ∨ j = 3) with rfl | rfl | rfl | rfl
  · simp [hb]
  · simp [hb, show ¬ 8 + b < 8 by omega]
  · simp [hb, show ¬ 16 + b < 8 by omega, show ¬ 16 + b - 8 < 8 by omega,
      show 16 + b - 8 - 8 = b by omega]
  · simp [hb, show ¬ 24 + b < 8 by omega, show ¬ 24 + b - 8 < 8 by omega,
      show ¬ 24 + b - 8 - 8 < 8 by omega, show 24 + b - 8 - 8 - 8 = b by omega]

/-- Two places that hold the same word hold the same bytes. -/
theorem eq_of_get32_eq (h : get32 m a = get32 m' b) {j : ℕ} (hj : j < 4) :
    m (a + j) = m' (b + j) := by
  rw [← getByte_get32 m a hj, ← getByte_get32 m' b hj, h]

/-! ### Strings -/

theorem strcpy_outside (l : List U8) (h : k < a ∨ a + l.length < k) : strcpy m a l k = m k := by
  induction l generalizing m a with
  | nil => exact Function.update_of_ne (by rw [List.length_nil] at h; omega) _ _
  | cons c l ih =>
    rw [List.length_cons] at h
    rw [strcpy, ih (by omega), Function.update_of_ne (by omega)]

/-- The copy, its terminating zero included. -/
theorem strcpy_apply {l : List U8} {j : ℕ} (h : j ≤ l.length) :
    strcpy m a l (a + j) = bufferOf l j := by
  induction l generalizing m a j with
  | nil =>
    obtain rfl : j = 0 := Nat.le_zero.mp h
    exact Function.update_self _ _ _
  | cons c l ih =>
    rw [strcpy]
    cases j with
    | zero =>
      -- the later characters go to later addresses
      exact (strcpy_outside l (Or.inl (Nat.lt_add_one a))).trans (Function.update_self ..)
    | succ j =>
      rw [Nat.add_comm j 1, ← Nat.add_assoc, ih (Nat.le_of_succ_le_succ h), Nat.add_comm 1 j]
      rfl

/-- The comparison ends at the first difference, or at the end of both strings. -/
theorem strcmp_eq_zero_iff {l : List U8} (hl : 0#8 ∉ l) :
    strcmp m a l = 0 ↔ ∀ j ≤ l.length, m (a + j) = bufferOf l j := by
  induction l generalizing a with
  | nil =>
    rw [strcmp, Int.natCast_eq_zero]
    constructor
    · intro h j hj
      obtain rfl : j = 0 := Nat.le_zero.mp hj
      exact BitVec.eq_of_toNat_eq h
    · intro h
      exact congrArg BitVec.toNat (h 0 (Nat.le_refl _))
  | cons c l ih =>
    obtain ⟨hc, hl'⟩ := not_or.mp (mt List.mem_cons.mpr hl)
    rw [strcmp]
    by_cases hchar : m a = c
    · rw [if_pos ⟨fun h0 => hc (h0.symm.trans hchar), hchar⟩, ih hl']
      constructor
      · intro h j hj
        cases j with
        | zero => exact hchar
        | succ j =>
          rw [Nat.add_comm j 1, ← Nat.add_assoc, h j (Nat.le_of_succ_le_succ hj), Nat.add_comm 1 j]
          rfl
      · intro h j hj
        rw [Nat.add_assoc, Nat.add_comm 1 j, h (j + 1) (Nat.succ_le_succ hj)]
        rfl
    · rw [if_neg fun h => hchar h.2]
      refine iff_of_false (fun h => hchar ?_) fun h => hchar (h 0 (Nat.zero_le _))
      have htoNat : (m a).toNat = c.toNat := by omega
      exact BitVec.eq_of_toNat_eq htoNat

/-- The comparison reads the characters of the other string and one more. -/
theorem strcmp_eq_zero_congr {l : List U8} (hl : 0#8 ∉ l)
    (h : ∀ j ≤ l.length, m (a + j) = m' (a + j)) : strcmp m a l = 0 ↔ strcmp m' a l = 0 := by
  rw [strcmp_eq_zero_iff hl, strcmp_eq_zero_iff hl]
  exact forall₂_congr fun j hj => by rw [h j hj]

theorem strcmp_of_zero {l : List U8} (hl : 0#8 ∉ l) (h : m a = 0) :
    strcmp m a l = 0 ↔ l = [] := by
  cases l with
  | nil => exact iff_of_true (by rw [strcmp, h]; rfl) rfl
  | cons c l =>
    refine iff_of_false (fun heq => hl ?_) (List.cons_ne_nil _ _)
    have hc : (m a).toNat = c.toNat := by
      rw [strcmp, if_neg fun hne => hne.1 h] at heq
      omega
    rw [show c = 0#8 from (BitVec.eq_of_toNat_eq hc).symm.trans h]
    exact List.mem_cons_self

/-- The string in memory is what stands there up to the first zero. -/
theorem strcmp_eq_zero_iff_takeWhile {w l : List U8} (hl : 0#8 ∉ l)
    (hw : ∀ j ≤ w.length, m (a + j) = bufferOf w j) :
    strcmp m a l = 0 ↔ l = w.takeWhile (· ≠ 0) := by
  induction w generalizing a l with
  | nil => exact strcmp_of_zero hl (hw 0 (Nat.le_refl _))
  | cons b w ih =>
    have hb : m a = b := hw 0 (Nat.zero_le _)
    by_cases hzero : b = 0
    · rw [List.takeWhile_cons_of_neg (by simp [hzero])]
      exact strcmp_of_zero hl (hb.trans hzero)
    rw [List.takeWhile_cons_of_pos (by simpa using hzero)]
    cases l with
    | nil =>
      rw [strcmp, hb]
      refine iff_of_false (fun h => hzero ?_) (List.cons_ne_nil _ _).symm
      exact BitVec.eq_of_toNat_eq (Int.ofNat_eq_zero.mp h)
    | cons c l =>
      rw [strcmp, hb, List.cons.injEq]
      by_cases hbc : b = c
      · rw [if_pos ⟨hzero, hbc⟩, ih (mt (List.mem_cons_of_mem c) hl) fun j hj => ?_]
        · exact (and_iff_right hbc.symm).symm
        · rw [Nat.add_assoc, Nat.add_comm 1 j, hw (j + 1) (Nat.succ_le_succ hj)]
          rfl
      · rw [if_neg fun h => hbc h.2]
        refine iff_of_false (fun h => hbc ?_) fun h => hbc h.1.symm
        exact BitVec.eq_of_toNat_eq (by omega)

end ByteMemory
