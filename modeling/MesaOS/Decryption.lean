/-
`AES128::decrypt_block` in `fs/crypto.cpp`.

Every step of it is the inverse of a step of `encrypt_block`, as the standard has
it (`invSBox_eq`, `stateOf_invShiftRows`, `stateOf_invMixColumns`), the rounds run
backwards (`decryptBlock_eq`), and both use the same expanded key.  So the two
functions undo each other (`decryptBlock_encryptBlock`) although neither is the
standard's (`encryptBlock_ne`).
-/
import MesaOS.AESInverse
import MesaOS.Crypto

open MachineWord

namespace MesaOS.FS.Crypto

/-! ### The source -/

/-- `inv_s_box[256]`. -/
def invSBoxTable : List U8 :=
  [
    0x52, 0x09, 0x6a, 0xd5, 0x30, 0x36, 0xa5, 0x38, 0xbf, 0x40, 0xa3, 0x9e, 0x81, 0xf3, 0xd7, 0xfb,
    0x7c, 0xe3, 0x39, 0x82, 0x9b, 0x2f, 0xff, 0x87, 0x34, 0x8e, 0x43, 0x44, 0xc4, 0xde, 0xe9, 0xcb,
    0x54, 0x7b, 0x94, 0x32, 0xa6, 0xc2, 0x23, 0x3d, 0xee, 0x4c, 0x95, 0x0b, 0x42, 0xfa, 0xc3, 0x4e,
    0x08, 0x2e, 0xa1, 0x66, 0x28, 0xd9, 0x24, 0xb2, 0x76, 0x5b, 0xa2, 0x49, 0x6d, 0x8b, 0xd1, 0x25,
    0x72, 0xf8, 0xf6, 0x64, 0x86, 0x68, 0x98, 0x16, 0xd4, 0xa4, 0x5c, 0xcc, 0x5d, 0x65, 0xb6, 0x92,
    0x6c, 0x70, 0x48, 0x50, 0xfd, 0xed, 0xb9, 0xda, 0x5e, 0x15, 0x46, 0x57, 0xa7, 0x8d, 0x9d, 0x84,
    0x90, 0xd8, 0xab, 0x00, 0x8c, 0xbc, 0xd3, 0x0a, 0xf7, 0xe4, 0x58, 0x05, 0xb8, 0xb3, 0x45, 0x06,
    0xd0, 0x2c, 0x1e, 0x8f, 0xca, 0x3f, 0x0f, 0x02, 0xc1, 0xaf, 0xbd, 0x03, 0x01, 0x13, 0x8a, 0x6b,
    0x3a, 0x91, 0x11, 0x41, 0x4f, 0x67, 0xdc, 0xea, 0x97, 0xf2, 0xcf, 0xce, 0xf0, 0xb4, 0xe6, 0x73,
    0x96, 0xac, 0x74, 0x22, 0xe7, 0xad, 0x35, 0x85, 0xe2, 0xf9, 0x37, 0xe8, 0x1c, 0x75, 0xdf, 0x6e,
    0x47, 0xf1, 0x1a, 0x71, 0x1d, 0x29, 0xc5, 0x89, 0x6f, 0xb7, 0x62, 0x0e, 0xaa, 0x18, 0xbe, 0x1b,
    0xfc, 0x56, 0x3e, 0x4b, 0xc6, 0xd2, 0x79, 0x20, 0x9a, 0xdb, 0xc0, 0xfe, 0x78, 0xcd, 0x5a, 0xf4,
    0x1f, 0xdd, 0xa8, 0x33, 0x88, 0x07, 0xc7, 0x31, 0xb1, 0x12, 0x10, 0x59, 0x27, 0x80, 0xec, 0x5f,
    0x60, 0x51, 0x7f, 0xa9, 0x19, 0xb5, 0x4a, 0x0d, 0x2d, 0xe5, 0x7a, 0x9f, 0x93, 0xc9, 0x9c, 0xef,
    0xa0, 0xe0, 0x3b, 0x4d, 0xae, 0x2a, 0xf5, 0xb0, 0xc8, 0xeb, 0xbb, 0x3c, 0x83, 0x53, 0x99, 0x61,
    0x17, 0x2b, 0x04, 0x7e, 0xba, 0x77, 0xd6, 0x26, 0xe1, 0x69, 0x14, 0x63, 0x55, 0x21, 0x0c, 0x7d
  ]

def invSBox (x : U8) : U8 := invSBoxTable.getD x.toNat 0

/-- `AES128::inv_sub_bytes` -/
def invSubBytes (state : ℕ → U8) : ℕ → U8 := fun i => invSBox (state i)

/-- `AES128::inv_shift_rows` -/
def invShiftRows (state : ℕ → U8) : ℕ → U8 :=
  -- Row 1
  let temp := state 13
  let state := Function.update state 13 (state 9)
  let state := Function.update state 9 (state 5)
  let state := Function.update state 5 (state 1)
  let state := Function.update state 1 temp
  -- Row 2
  let temp := state 2
  let state := Function.update state 2 (state 10)
  let state := Function.update state 10 temp
  let temp := state 6
  let state := Function.update state 6 (state 14)
  let state := Function.update state 14 temp
  -- Row 3
  let temp := state 7
  let state := Function.update state 7 (state 11)
  let state := Function.update state 11 (state 15)
  let state := Function.update state 15 (state 3)
  Function.update state 3 temp

/-- One turn of the loop in `inv_mix_columns`. -/
def invMixColumn (state : ℕ → U8) (i : ℕ) : ℕ → U8 :=
  let s0 := state (i * 4)
  let s1 := state (i * 4 + 1)
  let s2 := state (i * 4 + 2)
  let s3 := state (i * 4 + 3)
  let state := Function.update state (i * 4)
    (multiply s0 0x0e ^^^ multiply s1 0x0b ^^^ multiply s2 0x0d ^^^ multiply s3 0x09)
  let state := Function.update state (i * 4 + 1)
    (multiply s0 0x09 ^^^ multiply s1 0x0e ^^^ multiply s2 0x0b ^^^ multiply s3 0x0d)
  let state := Function.update state (i * 4 + 2)
    (multiply s0 0x0d ^^^ multiply s1 0x09 ^^^ multiply s2 0x0e ^^^ multiply s3 0x0b)
  Function.update state (i * 4 + 3)
    (multiply s0 0x0b ^^^ multiply s1 0x0d ^^^ multiply s2 0x09 ^^^ multiply s3 0x0e)

/-- `AES128::inv_mix_columns` -/
def invMixColumns (state : ℕ → U8) : ℕ → U8 := (List.range 4).foldl invMixColumn state

/-- The loop in `decrypt_block`, from round `n` down to 1. -/
def decryptRounds (roundKeys state : ℕ → U8) : ℕ → ℕ → U8
  | 0 => state
  | n + 1 =>
    let state := invShiftRows state
    let state := invSubBytes state
    let state := addRoundKey state roundKeys ((n + 1) * 16)
    decryptRounds roundKeys (invMixColumns state) n

/-- `AES128::decrypt_block` -/
def decryptBlock (block key : ℕ → U8) : ℕ → U8 :=
  let roundKeys := keyExpansion key
  let state := addRoundKey block roundKeys 160
  let state := decryptRounds roundKeys state 9
  let state := invShiftRows state
  let state := invSubBytes state
  addRoundKey state roundKeys 0

/-! ### The steps -/

set_option maxRecDepth 10000 in
theorem invSBoxTable_eq : invSBoxTable =
    (List.range 256).map fun n => ByteField.lookup (AES.invAffine (BitVec.ofNat 8 n)) := by
  decide

theorem invSBox_eq (x : U8) : invSBox x = AES.invSBox x := by
  rw [AES.invSBox, ByteField.inv_eq]
  exact ByteField.getD_table (fun x => ByteField.lookup (AES.invAffine x)) invSBoxTable_eq x

set_option maxRecDepth 10000 in
/-- The four column products of `inv_mix_columns`. -/
theorem multiply_inv : ∀ x : U8, multiply x 0x0e = ByteField.mul x 14 ∧
    multiply x 0x0b = ByteField.mul x 11 ∧ multiply x 0x0d = ByteField.mul x 13 ∧
    multiply x 0x09 = ByteField.mul x 9 := by decide +kernel

theorem stateOf_invSubBytes (s : ℕ → U8) :
    AES.stateOf (invSubBytes s) = AES.invSubBytes (AES.stateOf s) := by
  funext r c
  exact invSBox_eq _

theorem stateOf_invShiftRows (s : ℕ → U8) :
    AES.stateOf (invShiftRows s) = AES.invShiftRows (AES.stateOf s) := by
  funext r c
  fin_cases r <;> fin_cases c <;> rfl

theorem invMixColumn_of_ne (s : ℕ → U8) {i j : ℕ} (h : j / 4 ≠ i) : invMixColumn s i j = s j := by
  rw [invMixColumn]
  rw [Function.update_of_ne (by omega), Function.update_of_ne (by omega),
    Function.update_of_ne (by omega), Function.update_of_ne (by omega)]

/-- The column that one turn of the loop writes. -/
theorem invMixColumn_at (s : ℕ → U8) (r c : Fin 4) :
    invMixColumn s c (r + 4 * c) = AES.invMixColumns (AES.stateOf s) r c := by
  rw [invMixColumn, AES.invMixColumns]
  simp only [multiply_inv, AES.stateOf, Nat.mul_comm 4]
  generalize (c : ℕ) * 4 = i
  fin_cases r <;> simp [Nat.add_comm _ i] <;> ac_rfl

theorem stateOf_invMixColumns (s : ℕ → U8) :
    AES.stateOf (invMixColumns s) = AES.invMixColumns (AES.stateOf s) := by
  funext r c
  have hlocal : ∀ s s' (c : Fin 4), (∀ r, s r c = s' r c) → ∀ r,
      AES.invMixColumns s r c = AES.invMixColumns s' r c := by
    intro s s' c h r
    rw [AES.invMixColumns, AES.invMixColumns, h, h, h, h]
  rw [AES.stateOf, invMixColumns, columnLoop_at invMixColumn AES.invMixColumns
    (fun s _ _ h => invMixColumn_of_ne s h) invMixColumn_at hlocal s 4 (Nat.le_refl 4),
    if_pos c.isLt]

/-! ### The rounds -/

theorem stateOf_decryptRounds {roundKeys : ℕ → U8} {w : ℕ → AES.Word}
    (hw : ∀ i < 44, ∀ r : Fin 4, roundKeys (4 * i + r) = w i r) (s : ℕ → U8) {n : ℕ}
    (hn : n ≤ 10) :
    AES.stateOf (decryptRounds roundKeys s n) = AES.invRounds w (AES.stateOf s) n := by
  induction n generalizing s with
  | zero => rfl
  | succ n ih =>
    rw [decryptRounds, AES.invRounds, ih _ (by omega), stateOf_invMixColumns,
      stateOf_addRoundKey hw _ hn, stateOf_invSubBytes, stateOf_invShiftRows]

/-- **The code's inverse cipher** is that of the standard with the code's round constants. -/
theorem decryptBlock_eq (block key : ℕ → U8) :
    AES.stateOf (decryptBlock block key) =
      AES.decrypt (AES.schedule roundConstant (AES.stateOf key)) (AES.stateOf block) := by
  have hw : ∀ i < 44, ∀ r : Fin 4, keyExpansion key (4 * i + r) =
      AES.schedule roundConstant (AES.stateOf key) i r := fun i hi r => keyExpansion_eq key hi r
  have hfirst := stateOf_addRoundKey hw block (Nat.le_refl 10)
  have hlast := fun s => stateOf_addRoundKey hw s (Nat.zero_le 10)
  rw [Nat.zero_mul] at hlast
  rw [decryptBlock, AES.decrypt, hlast, stateOf_invSubBytes, stateOf_invShiftRows,
    stateOf_decryptRounds hw _ (by omega), show 160 = 10 * 16 from rfl, hfirst]

/-- Blocks with the same state have the same 16 bytes. -/
theorem eq_of_stateOf_eq {b b' : ℕ → U8} (h : AES.stateOf b = AES.stateOf b') :
    ∀ i < 16, b i = b' i := by
  intro i hi
  have hbyte := congrFun (congrFun h ⟨i % 4, by omega⟩) ⟨i / 4, by omega⟩
  rw [AES.stateOf, AES.stateOf, show i % 4 + 4 * (i / 4) = i by omega] at hbyte
  exact hbyte

/-- **Each undoes the other**, for every key and every block. -/
theorem decryptBlock_encryptBlock (block key : ℕ → U8) :
    (∀ i < 16, decryptBlock (encryptBlock block key) key i = block i) ∧
      ∀ i < 16, encryptBlock (decryptBlock block key) key i = block i := by
  constructor
  · refine eq_of_stateOf_eq ?_
    rw [decryptBlock_eq, encryptBlock_eq, AES.decrypt_encrypt]
  · refine eq_of_stateOf_eq ?_
    rw [encryptBlock_eq, decryptBlock_eq, AES.encrypt_decrypt]

end MesaOS.FS.Crypto
