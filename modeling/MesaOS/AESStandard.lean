/-
The AES-128 cipher as the standard defines it.

The state and a round key are four columns of four bytes, the S-box is the
inverse in the field with 256 elements followed by an affine map, and the
constants of the key schedule are the powers of `x`.  The schedule and the cipher
take their round constants as a parameter, so that two schedules can be compared
(`schedule_congr`).
-/
import MesaOS.ByteField

open MachineWord ByteField

namespace AES

/-- Byte `r` of column `c`. -/
abbrev State := Fin 4 → Fin 4 → U8

/-- A column. -/
abbrev Word := Fin 4 → U8

/-- The state that 16 bytes are put into, column by column. -/
def stateOf (b : ℕ → U8) : State := fun r c => b (r + 4 * c)

def affine (b : U8) : U8 :=
  b ^^^ b.rotateLeft 1 ^^^ b.rotateLeft 2 ^^^ b.rotateLeft 3 ^^^ b.rotateLeft 4 ^^^ 0x63

def sBox (x : U8) : U8 := affine (inv x)

/-! ### The key schedule -/

def rotWord (w : Word) : Word := fun i => w (i + 1)

def subWord (w : Word) : Word := fun i => sBox (w i)

/-- The constant of round `j`, in the first byte of its word. -/
def rcon (j : ℕ) : U8 := powX (j - 1)

/-- Word `i` of the expanded key, for round constants `rc`. -/
def schedule (rc : ℕ → U8) (key : State) (i : ℕ) : Word := fun r =>
  if h : i < 4 then key r ⟨i, h⟩
  else
    let temp := schedule rc key (i - 1)
    let temp := if i % 4 = 0 then
        fun r => subWord (rotWord temp) r ^^^ if r = 0 then rc (i / 4) else 0
      else temp
    schedule rc key (i - 4) r ^^^ temp r

/-! ### The cipher -/

def subBytes (s : State) : State := fun r c => sBox (s r c)

def shiftRows (s : State) : State := fun r c => s r (c + r)

def mixColumns (s : State) : State := fun r c =>
  mul (s r c) 2 ^^^ mul (s (r + 1) c) 3 ^^^ s (r + 2) c ^^^ s (r + 3) c

def addRoundKey (w : ℕ → Word) (round : ℕ) (s : State) : State := fun r c =>
  s r c ^^^ w (4 * round + c) r

/-- The state after `n` of the first nine rounds. -/
def rounds (w : ℕ → Word) (s : State) : ℕ → State
  | 0 => addRoundKey w 0 s
  | n + 1 => addRoundKey w (n + 1) (mixColumns (shiftRows (subBytes (rounds w s n))))

/-- The ten rounds. -/
def encrypt (w : ℕ → Word) (s : State) : State :=
  addRoundKey w 10 (shiftRows (subBytes (rounds w s 9)))

/-- **The cipher.** -/
def cipher (key block : State) : State := encrypt (schedule rcon key) block

/-! ### The inverse steps -/

def invAffine (b : U8) : U8 := b.rotateLeft 1 ^^^ b.rotateLeft 3 ^^^ b.rotateLeft 6 ^^^ 0x05

def invSBox (x : U8) : U8 := inv (invAffine x)

def invSubBytes (s : State) : State := fun r c => invSBox (s r c)

def invShiftRows (s : State) : State := fun r c => s r (c - r)

def invMixColumns (s : State) : State := fun r c =>
  mul (s r c) 14 ^^^ mul (s (r + 1) c) 11 ^^^ mul (s (r + 2) c) 13 ^^^ mul (s (r + 3) c) 9

/-! ### Two schedules -/

theorem schedule_of_lt (rc : ℕ → U8) (key : State) {i : ℕ} (h : i < 4) (r : Fin 4) :
    schedule rc key i r = key r ⟨i, h⟩ := by
  rw [schedule, dif_pos h]

/-- A word that is not the first of its round key. -/
theorem schedule_inner (rc : ℕ → U8) (key : State) {i : ℕ} (h : 4 ≤ i) (hi : i % 4 ≠ 0)
    (r : Fin 4) :
    schedule rc key i r = schedule rc key (i - 4) r ^^^ schedule rc key (i - 1) r := by
  rw [schedule, dif_neg (Nat.not_lt.mpr h)]
  dsimp only
  rw [if_neg hi]

/-- The first word of a round key. -/
theorem schedule_first (rc : ℕ → U8) (key : State) {i : ℕ} (h : 4 ≤ i) (hi : i % 4 = 0)
    (r : Fin 4) :
    schedule rc key i r = schedule rc key (i - 4) r ^^^
      (sBox (schedule rc key (i - 1) (r + 1)) ^^^ if r = 0 then rc (i / 4) else 0) := by
  rw [schedule, dif_neg (Nat.not_lt.mpr h)]
  dsimp only
  rw [if_pos hi]
  rfl

/-- Schedules with the same constants up to round `n` agree up to that round. -/
theorem schedule_congr {rc rc' : ℕ → U8} (key : State) {n : ℕ} (h : ∀ j ≤ n, rc j = rc' j)
    {i : ℕ} (hi : i < 4 * (n + 1)) : schedule rc key i = schedule rc' key i := by
  induction i using Nat.strong_induction_on with
  | h i ih =>
    funext r
    by_cases hfirst : i < 4
    · rw [schedule_of_lt rc key hfirst, schedule_of_lt rc' key hfirst]
    · have hbefore := ih (i - 4) (by omega) (by omega)
      have hlast := ih (i - 1) (by omega) (by omega)
      by_cases hmod : i % 4 = 0
      · rw [schedule_first rc key (by omega) hmod, schedule_first rc' key (by omega) hmod,
          hbefore, hlast, h (i / 4) (by omega)]
      · rw [schedule_inner rc key (by omega) hmod, schedule_inner rc' key (by omega) hmod,
          hbefore, hlast]

/-- Round keys that agree up to round `n` give the same state after it. -/
theorem rounds_congr {w w' : ℕ → Word} (s : State) {n : ℕ} (h : ∀ i < 4 * (n + 1), w i = w' i) :
    rounds w s n = rounds w' s n := by
  induction n with
  | zero =>
    funext r c
    rw [rounds, rounds, addRoundKey, addRoundKey, h _ (by omega)]
  | succ n ih =>
    funext r c
    rw [rounds, rounds, ih fun i hi => h i (by omega), addRoundKey, addRoundKey, h _ (by omega)]

end AES
