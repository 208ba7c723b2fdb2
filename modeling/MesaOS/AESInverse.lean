/-
The inverse of the AES-128 cipher.

Multiplication by a fixed element of the field is additive (`mul_xor`), so that the
two matrices that mix columns are inverse to each other as soon as four identities
of coefficients hold (`mix_coefficients`, `unmix_coefficients`), which have to be
checked for eight bytes only (`Additive.ext`).  With the inverses of the other steps:

* **`decrypt_encrypt`** — decryption undoes encryption;
* **`encrypt_decrypt`** — encryption undoes decryption.

Both are about any round keys.
-/
import Mathlib.Data.Nat.Bitwise
import MesaOS.AESStandard

open MachineWord

namespace ByteField

/-! ### Multiplication is additive -/

/-- One bit of the second factor shifts the first one, or clears it. -/
theorem xor_mul_and (x x' y m k : ℕ) (h : m = 2 ^ k) :
    (x ^^^ x') * (y &&& m) = x * (y &&& m) ^^^ x' * (y &&& m) := by
  rw [h, Nat.and_two_pow]
  cases y.testBit k with
  | false => simp
  | true =>
    have hshift : ∀ z : ℕ, z * (true.toNat * 2 ^ k) = z <<< k := fun z => by
      rw [Bool.toNat_true, Nat.one_mul, Nat.shiftLeft_eq]
    rw [hshift, hshift, hshift, Nat.shiftLeft_xor_distrib]

theorem carrylessMul_xor (x x' y : ℕ) :
    carrylessMul (x ^^^ x') y = carrylessMul x y ^^^ carrylessMul x' y := by
  have hbit := xor_mul_and x x' y
  rw [carrylessMul, hbit 1 0 rfl, hbit 2 1 rfl, hbit 4 2 rfl, hbit 8 3 rfl, hbit 16 4 rfl,
    hbit 32 5 rfl, hbit 64 6 rfl, hbit 128 7 rfl, carrylessMul, carrylessMul]
  ac_rfl

theorem cancel_xor (k p q : ℕ) : cancel k (p ^^^ q) = cancel k p ^^^ cancel k q := by
  have hbit : (p ^^^ q) >>> (k + 8) % 2 = (p >>> (k + 8) % 2) ^^^ (q >>> (k + 8) % 2) := by
    rw [Nat.shiftRight_xor_distrib]
    exact Nat.xor_mod_two_pow (n := 1)
  have hscale : 0x11B * ((p ^^^ q) >>> (k + 8) % 2) <<< k =
      0x11B * (p >>> (k + 8) % 2) <<< k ^^^ 0x11B * (q >>> (k + 8) % 2) <<< k := by
    rw [hbit]
    -- either bit is zero, or both are one and cancel
    rcases Nat.mod_two_eq_zero_or_one (p >>> (k + 8)) with hp | hp <;>
      rcases Nat.mod_two_eq_zero_or_one (q >>> (k + 8)) with hq | hq <;> simp [hp, hq]
  rw [cancel, hscale]
  simp only [cancel]
  ac_rfl

theorem reduce_xor (p q : ℕ) : reduce (p ^^^ q) = reduce p ^^^ reduce q := by
  simp only [reduce, cancel_xor]

theorem mul_xor (x x' c : U8) : mul (x ^^^ x') c = mul x c ^^^ mul x' c := by
  rw [mul, BitVec.toNat_xor, carrylessMul_xor, reduce_xor, BitVec.ofNat_xor]
  rfl

theorem xor_and_twoPow : ∀ x : U8, x = (x &&& .twoPow 8 0) ^^^ (x &&& .twoPow 8 1) ^^^
    (x &&& .twoPow 8 2) ^^^ (x &&& .twoPow 8 3) ^^^ (x &&& .twoPow 8 4) ^^^ (x &&& .twoPow 8 5) ^^^
    (x &&& .twoPow 8 6) ^^^ (x &&& .twoPow 8 7) := by decide

def Additive (f : U8 → U8) : Prop := ∀ x y, f (x ^^^ y) = f x ^^^ f y

theorem additive_id : Additive fun x => x := fun _ _ => rfl

theorem additive_zero : Additive fun _ => 0 := fun _ _ => (BitVec.xor_self (x := 0)).symm

namespace Additive

variable {f g : U8 → U8}

theorem mul (hf : Additive f) (c : U8) : Additive fun x => ByteField.mul (f x) c := by
  intro x y
  dsimp only
  rw [hf, mul_xor]

theorem xor (hf : Additive f) (hg : Additive g) : Additive fun x => f x ^^^ g x := by
  intro x y
  dsimp only
  rw [hf, hg]
  ac_rfl

theorem four {f' g' : U8 → U8} (hf : Additive f) (hg : Additive g) (hf' : Additive f')
    (hg' : Additive g') : Additive fun x => f x ^^^ g x ^^^ f' x ^^^ g' x :=
  ((hf.xor hg).xor hf').xor hg'

theorem map_zero (hf : Additive f) : f 0 = 0 := by
  have hself := hf 0 0
  rwa [BitVec.xor_self, BitVec.xor_self] at hself

/-- Two additive functions are the same if they agree on the powers of the polynomial `x`. -/
theorem ext (hf : Additive f) (hg : Additive g)
    (h : ∀ k < 8, f (.twoPow 8 k) = g (.twoPow 8 k)) (x : U8) : f x = g x := by
  have hbit : ∀ k < 8, f (x &&& .twoPow 8 k) = g (x &&& .twoPow 8 k) := by
    intro k hk
    rw [BitVec.and_twoPow]
    split
    · exact h k hk
    · exact hf.map_zero.trans hg.map_zero.symm
  rw [xor_and_twoPow x]
  simp only [hf _ _, hg _ _]
  rw [hbit 0 (by omega), hbit 1 (by omega), hbit 2 (by omega), hbit 3 (by omega),
    hbit 4 (by omega), hbit 5 (by omega), hbit 6 (by omega), hbit 7 (by omega)]

end Additive

end ByteField

open ByteField

namespace AES

/-! ### The inverse steps -/

set_option maxRecDepth 10000 in
theorem invAffine_affine : ∀ b : U8, invAffine (affine b) = b := by decide

set_option maxRecDepth 10000 in
theorem affine_invAffine : ∀ b : U8, affine (invAffine b) = b := by decide

theorem invSBox_sBox (x : U8) : invSBox (sBox x) = x := by
  rw [invSBox, sBox, invAffine_affine, inv_inv]

theorem sBox_invSBox (x : U8) : sBox (invSBox x) = x := by
  rw [sBox, invSBox, inv_inv, affine_invAffine]

@[simp] theorem invSubBytes_subBytes (s : State) : invSubBytes (subBytes s) = s := by
  funext r c
  exact invSBox_sBox _

@[simp] theorem subBytes_invSubBytes (s : State) : subBytes (invSubBytes s) = s := by
  funext r c
  exact sBox_invSBox _

@[simp] theorem invShiftRows_shiftRows (s : State) : invShiftRows (shiftRows s) = s := by
  have hback : ∀ r c : Fin 4, c - r + r = c := by decide
  funext r c
  rw [invShiftRows, shiftRows, hback]

@[simp] theorem shiftRows_invShiftRows (s : State) : shiftRows (invShiftRows s) = s := by
  have hback : ∀ r c : Fin 4, c + r - r = c := by decide
  funext r c
  rw [shiftRows, invShiftRows, hback]

@[simp] theorem addRoundKey_addRoundKey (w : ℕ → Word) (n : ℕ) (s : State) :
    addRoundKey w n (addRoundKey w n s) = s := by
  funext r c
  simp [addRoundKey, BitVec.xor_assoc]

/-! ### Mixing and unmixing a column -/

/-- How often a byte of a column comes back when the column is mixed and unmixed: once in
its own place, and not at all in the other three. -/
theorem mix_coefficients (x : U8) :
    mul (mul x 2) 14 ^^^ mul x 11 ^^^ mul x 13 ^^^ mul (mul x 3) 9 = x ∧
    mul (mul x 3) 14 ^^^ mul (mul x 2) 11 ^^^ mul x 13 ^^^ mul x 9 = 0 ∧
    mul x 14 ^^^ mul (mul x 3) 11 ^^^ mul (mul x 2) 13 ^^^ mul x 9 = 0 ∧
    mul x 14 ^^^ mul x 11 ^^^ mul (mul x 3) 13 ^^^ mul (mul x 2) 9 = 0 := by
  have one : ∀ c, Additive fun x => mul x c := additive_id.mul
  have two : ∀ c d, Additive fun x => mul (mul x c) d := fun c => (one c).mul
  refine ⟨?_, ?_, ?_, ?_⟩
  · exact (Additive.four (two 2 14) (one 11) (one 13) (two 3 9)).ext additive_id (by decide) x
  · exact (Additive.four (two 3 14) (two 2 11) (one 13) (one 9)).ext additive_zero (by decide) x
  · exact (Additive.four (one 14) (two 3 11) (two 2 13) (one 9)).ext additive_zero (by decide) x
  · exact (Additive.four (one 14) (one 11) (two 3 13) (two 2 9)).ext additive_zero (by decide) x

theorem unmix_coefficients (x : U8) :
    mul (mul x 14) 2 ^^^ mul (mul x 9) 3 ^^^ mul x 13 ^^^ mul x 11 = x ∧
    mul (mul x 11) 2 ^^^ mul (mul x 14) 3 ^^^ mul x 9 ^^^ mul x 13 = 0 ∧
    mul (mul x 13) 2 ^^^ mul (mul x 11) 3 ^^^ mul x 14 ^^^ mul x 9 = 0 ∧
    mul (mul x 9) 2 ^^^ mul (mul x 13) 3 ^^^ mul x 11 ^^^ mul x 14 = 0 := by
  have one : ∀ c, Additive fun x => mul x c := additive_id.mul
  have two : ∀ c d, Additive fun x => mul (mul x c) d := fun c => (one c).mul
  refine ⟨?_, ?_, ?_, ?_⟩
  · exact (Additive.four (two 14 2) (two 9 3) (one 13) (one 11)).ext additive_id (by decide) x
  · exact (Additive.four (two 11 2) (two 14 3) (one 9) (one 13)).ext additive_zero (by decide) x
  · exact (Additive.four (two 13 2) (two 11 3) (one 14) (one 9)).ext additive_zero (by decide) x
  · exact (Additive.four (two 9 2) (two 13 3) (one 11) (one 14)).ext additive_zero (by decide) x

/-- The three bytes below byte `r` of a column, and byte `r` itself again. -/
theorem row_add : ∀ r : Fin 4, r + 1 + 1 = r + 2 ∧ r + 1 + 2 = r + 3 ∧ r + 1 + 3 = r ∧
    r + 2 + 1 = r + 3 ∧ r + 2 + 2 = r ∧ r + 2 + 3 = r + 1 ∧
    r + 3 + 1 = r ∧ r + 3 + 2 = r + 1 ∧ r + 3 + 3 = r + 2 := by decide

@[simp] theorem invMixColumns_mixColumns (s : State) : invMixColumns (mixColumns s) = s := by
  funext r c
  simp only [invMixColumns, mixColumns, row_add, mul_xor]
  generalize s r c = a, s (r + 1) c = b, s (r + 2) c = d, s (r + 3) c = e
  -- the sixteen products, sorted by the byte they are of
  have ha := (mix_coefficients a).1
  have hb := (mix_coefficients b).2.1
  have hd := (mix_coefficients d).2.2.1
  have he := (mix_coefficients e).2.2.2
  calc _ = (mul (mul a 2) 14 ^^^ mul a 11 ^^^ mul a 13 ^^^ mul (mul a 3) 9) ^^^
        (mul (mul b 3) 14 ^^^ mul (mul b 2) 11 ^^^ mul b 13 ^^^ mul b 9) ^^^
        (mul d 14 ^^^ mul (mul d 3) 11 ^^^ mul (mul d 2) 13 ^^^ mul d 9) ^^^
        (mul e 14 ^^^ mul e 11 ^^^ mul (mul e 3) 13 ^^^ mul (mul e 2) 9) := by ac_rfl
    _ = a := by rw [ha, hb, hd, he]; simp

@[simp] theorem mixColumns_invMixColumns (s : State) : mixColumns (invMixColumns s) = s := by
  funext r c
  simp only [invMixColumns, mixColumns, row_add, mul_xor]
  generalize s r c = a, s (r + 1) c = b, s (r + 2) c = d, s (r + 3) c = e
  have ha := (unmix_coefficients a).1
  have hb := (unmix_coefficients b).2.1
  have hd := (unmix_coefficients d).2.2.1
  have he := (unmix_coefficients e).2.2.2
  calc _ = (mul (mul a 14) 2 ^^^ mul (mul a 9) 3 ^^^ mul a 13 ^^^ mul a 11) ^^^
        (mul (mul b 11) 2 ^^^ mul (mul b 14) 3 ^^^ mul b 9 ^^^ mul b 13) ^^^
        (mul (mul d 13) 2 ^^^ mul (mul d 11) 3 ^^^ mul d 14 ^^^ mul d 9) ^^^
        (mul (mul e 9) 2 ^^^ mul (mul e 13) 3 ^^^ mul e 11 ^^^ mul e 14) := by ac_rfl
    _ = a := by rw [ha, hb, hd, he]; simp

/-! ### The rounds backwards -/

/-- The state after rounds `n` down to 1 of the inverse cipher. -/
def invRounds (w : ℕ → Word) (s : State) : ℕ → State
  | 0 => s
  | n + 1 =>
    invRounds w (invMixColumns (addRoundKey w (n + 1) (invSubBytes (invShiftRows s)))) n

/-- **The inverse cipher.** -/
def decrypt (w : ℕ → Word) (s : State) : State :=
  addRoundKey w 0 (invSubBytes (invShiftRows (invRounds w (addRoundKey w 10 s) 9)))

/-- A round backwards undoes a round, up to the two steps that begin the next one. -/
theorem invRounds_rounds (w : ℕ → Word) (s : State) (n : ℕ) :
    invRounds w (shiftRows (subBytes (rounds w s n))) n =
      shiftRows (subBytes (addRoundKey w 0 s)) := by
  induction n with
  | zero => rfl
  | succ n ih => simp [invRounds, rounds, ih]

theorem rounds_invRounds (w : ℕ → Word) (s : State) (n : ℕ) :
    rounds w (addRoundKey w 0 (invSubBytes (invShiftRows (invRounds w s n)))) n =
      invSubBytes (invShiftRows s) := by
  induction n generalizing s with
  | zero => simp [rounds, invRounds]
  | succ n ih => simp [invRounds, rounds, ih]

/-- **Decryption undoes encryption.** -/
theorem decrypt_encrypt (w : ℕ → Word) (s : State) : decrypt w (encrypt w s) = s := by
  simp [decrypt, encrypt, invRounds_rounds]

/-- **Encryption undoes decryption.** -/
theorem encrypt_decrypt (w : ℕ → Word) (s : State) : encrypt w (decrypt w s) = s := by
  simp [decrypt, encrypt, rounds_invRounds]

end AES
