/-
Numbers in network byte order, high byte first.

* `be16_le16`, `be32_le32` — a number that a little-endian machine has stored, read
  in network byte order, is the number with its bytes in the other order.
-/
import MesaOS.MachineWord

open MachineWord

namespace NetworkOrder

/-- The 16-bit number at index `i`, high byte first. -/
def be16 (d : ℕ → U8) (i : ℕ) : U16 := d i ++ d (i + 1)

/-- The 32-bit number at index `i`, high byte first. -/
def be32 (d : ℕ → U8) (i : ℕ) : U32 := d i ++ d (i + 1) ++ d (i + 2) ++ d (i + 3)

/-- The bytes in the other order. -/
def swap16 (x : U16) : U16 := x.extractLsb' 0 8 ++ x.extractLsb' 8 8

/-- The bytes in the other order. -/
def swap32 (x : U32) : U32 :=
  x.extractLsb' 0 8 ++ x.extractLsb' 8 8 ++ x.extractLsb' 16 8 ++ x.extractLsb' 24 8

theorem be16_le16 {d : ℕ → U8} {i : ℕ} {x : U16}
    (h0 : d i = x.extractLsb' 0 8) (h1 : d (i + 1) = x.extractLsb' 8 8) :
    be16 d i = swap16 x := by
  rw [be16, h0, h1, swap16]

theorem be32_le32 {d : ℕ → U8} {i : ℕ} {x : U32}
    (h0 : d i = x.extractLsb' 0 8) (h1 : d (i + 1) = x.extractLsb' 8 8)
    (h2 : d (i + 2) = x.extractLsb' 16 8) (h3 : d (i + 3) = x.extractLsb' 24 8) :
    be32 d i = swap32 x := by
  rw [be32, h0, h1, h2, h3, swap32]

/-- A number whose bytes stand high byte first. -/
theorem be32_eq {d : ℕ → U8} {i : ℕ} {x : U32}
    (h0 : d i = x.extractLsb' 24 8) (h1 : d (i + 1) = x.extractLsb' 16 8)
    (h2 : d (i + 2) = x.extractLsb' 8 8) (h3 : d (i + 3) = x.extractLsb' 0 8) :
    be32 d i = x := by
  have hget := get32_le32 (d := bufferOf (le32 x)) (i := 0) (x := x) rfl rfl rfl rfl
  rw [be32, h0, h1, h2, h3]
  exact hget

/-- The number from its bytes shifted into place. -/
theorem be32_eq_or (d : ℕ → U8) (i : ℕ) : be32 d i =
    ((d i).setWidth 32 <<< 24) ||| ((d (i + 1)).setWidth 32 <<< 16) |||
      ((d (i + 2)).setWidth 32 <<< 8) ||| (d (i + 3)).setWidth 32 := by
  apply BitVec.eq_of_getLsbD_eq
  intro j hj
  rw [be32]
  simp only [BitVec.getLsbD_append, BitVec.getLsbD_or, BitVec.getLsbD_shiftLeft,
    BitVec.getLsbD_setWidth]
  rcases (by omega : j < 8 ∨ (8 ≤ j ∧ j < 16) ∨ (16 ≤ j ∧ j < 24) ∨ 24 ≤ j) with
    h | h | h | h
  · simp [h, show j < 16 by omega, show j < 24 by omega, hj]
  · have hlast : (d (i + 3)).getLsbD j = false := BitVec.getLsbD_of_ge _ _ h.1
    simp [hlast, show ¬ j < 8 by omega, h.2, show j < 24 by omega, hj, show j - 8 < 8 by omega,
      show j - 8 < 32 by omega]
  · have hlast : (d (i + 3)).getLsbD j = false := BitVec.getLsbD_of_ge _ _ (by omega)
    have hnext : (d (i + 2)).getLsbD (j - 8) = false := BitVec.getLsbD_of_ge _ _ (by omega)
    simp [hlast, hnext, show ¬ j < 8 by omega, show ¬ j < 16 by omega, show ¬ j - 8 < 8 by omega,
      h.2, hj, show j - 8 - 8 = j - 16 by omega, show j - 16 < 32 by omega,
      show j - 16 < 8 by omega]
  · have hlast : (d (i + 3)).getLsbD j = false := BitVec.getLsbD_of_ge _ _ (by omega)
    have hnext : (d (i + 2)).getLsbD (j - 8) = false := BitVec.getLsbD_of_ge _ _ (by omega)
    have hsecond : (d (i + 1)).getLsbD (j - 16) = false := BitVec.getLsbD_of_ge _ _ (by omega)
    simp [hlast, hnext, hsecond, show ¬ j < 8 by omega, show ¬ j < 16 by omega,
      show ¬ j < 24 by omega, show ¬ j - 8 < 8 by omega, show ¬ j - 8 - 8 < 8 by omega, hj,
      show j - 8 - 8 - 8 = j - 24 by omega, show j - 24 < 32 by omega]

/-- A byte that is shifted down and cut off. -/
theorem shiftRight_and_setWidth {w : ℕ} (x : BitVec w) (k : ℕ) (hw : 8 ≤ w) :
    ((x >>> k) &&& 0xff).setWidth 8 = x.extractLsb' k 8 := by
  apply BitVec.eq_of_getLsbD_eq
  intro j hj
  have hmask : (0xff : BitVec w).getLsbD j = true := by
    have hbit := Nat.testBit_two_pow_sub_one 8 j
    rw [BitVec.ofNat_eq_ofNat, BitVec.getLsbD_ofNat, hbit, decide_eq_true hj,
      decide_eq_true (by omega)]
    rfl
  rw [BitVec.getLsbD_setWidth, BitVec.getLsbD_and, BitVec.getLsbD_ushiftRight, hmask,
    BitVec.getLsbD_extractLsb']
  simp [hj]

theorem get16_eq_swap16 (d : ℕ → U8) (i : ℕ) : get16 d i = swap16 (be16 d i) := by
  rw [get16, be16, swap16]
  congr 1
  · apply BitVec.eq_of_getLsbD_eq
    intro j hj
    rw [BitVec.getLsbD_extractLsb', BitVec.getLsbD_append]
    simp [hj]
  · apply BitVec.eq_of_getLsbD_eq
    intro j hj
    rw [BitVec.getLsbD_extractLsb', BitVec.getLsbD_append]
    simp [hj]

theorem swap16_swap16 (x : U16) : swap16 (swap16 x) = x := by
  have h := get16_eq_swap16 (bufferOf (le16 x)) 0
  rw [be16_le16 (d := bufferOf (le16 x)) (x := x) rfl rfl,
    get16_le16 (d := bufferOf (le16 x)) (x := x) rfl rfl] at h
  exact h.symm

end NetworkOrder
