/-
The block cipher (`AES128` in `fs/crypto.cpp`).

Tables, rounds and column products are those of the standard (`sBox_eq`,
`multiply_two`, `multiply_three`, `encryptBlock_eq`), but the round constant is a
shifted `0x01` cut down to a byte, which is zero in rounds 9 and 10
(`keyExpansion_eq`).  The fourth byte of the result depends on that whatever the
key and the block are (`encryptBlock_ne`).
-/
import Mathlib.Data.Fintype.Basic
import Mathlib.Tactic.FinCases
import MesaOS.AESStandard

open MachineWord

namespace MesaOS.FS.Crypto

/-! ### The source -/

/-- `s_box[256]`. -/
def sBoxTable : List U8 :=
  [
    0x63, 0x7c, 0x77, 0x7b, 0xf2, 0x6b, 0x6f, 0xc5, 0x30, 0x01, 0x67, 0x2b, 0xfe, 0xd7, 0xab, 0x76,
    0xca, 0x82, 0xc9, 0x7d, 0xfa, 0x59, 0x47, 0xf0, 0xad, 0xd4, 0xa2, 0xaf, 0x9c, 0xa4, 0x72, 0xc0,
    0xb7, 0xfd, 0x93, 0x26, 0x36, 0x3f, 0xf7, 0xcc, 0x34, 0xa5, 0xe5, 0xf1, 0x71, 0xd8, 0x31, 0x15,
    0x04, 0xc7, 0x23, 0xc3, 0x18, 0x96, 0x05, 0x9a, 0x07, 0x12, 0x80, 0xe2, 0xeb, 0x27, 0xb2, 0x75,
    0x09, 0x83, 0x2c, 0x1a, 0x1b, 0x6e, 0x5a, 0xa0, 0x52, 0x3b, 0xd6, 0xb3, 0x29, 0xe3, 0x2f, 0x84,
    0x53, 0xd1, 0x00, 0xed, 0x20, 0xfc, 0xb1, 0x5b, 0x6a, 0xcb, 0xbe, 0x39, 0x4a, 0x4c, 0x58, 0xcf,
    0xd0, 0xef, 0xaa, 0xfb, 0x43, 0x4d, 0x33, 0x85, 0x45, 0xf9, 0x02, 0x7f, 0x50, 0x3c, 0x9f, 0xa8,
    0x51, 0xa3, 0x40, 0x8f, 0x92, 0x9d, 0x38, 0xf5, 0xbc, 0xb6, 0xda, 0x21, 0x10, 0xff, 0xf3, 0xd2,
    0xcd, 0x0c, 0x13, 0xec, 0x5f, 0x97, 0x44, 0x17, 0xc4, 0xa7, 0x7e, 0x3d, 0x64, 0x5d, 0x19, 0x73,
    0x60, 0x81, 0x4f, 0xdc, 0x22, 0x2a, 0x90, 0x88, 0x46, 0xee, 0xb8, 0x14, 0xde, 0x5e, 0x0b, 0xdb,
    0xe0, 0x32, 0x3a, 0x0a, 0x49, 0x06, 0x24, 0x5c, 0xc2, 0xd3, 0xac, 0x62, 0x91, 0x95, 0xe4, 0x79,
    0xe7, 0xc8, 0x37, 0x6d, 0x8d, 0xd5, 0x4e, 0xa9, 0x6c, 0x56, 0xf4, 0xea, 0x65, 0x7a, 0xae, 0x08,
    0xba, 0x78, 0x25, 0x2e, 0x1c, 0xa6, 0xb4, 0xc6, 0xe8, 0xdd, 0x74, 0x1f, 0x4b, 0xbd, 0x8b, 0x8a,
    0x70, 0x3e, 0xb5, 0x66, 0x48, 0x03, 0xf6, 0x0e, 0x61, 0x35, 0x57, 0xb9, 0x86, 0xc1, 0x1d, 0x9e,
    0xe1, 0xf8, 0x98, 0x11, 0x69, 0xd9, 0x8e, 0x94, 0x9b, 0x1e, 0x87, 0xe9, 0xce, 0x55, 0x28, 0xdf,
    0x8c, 0xa1, 0x89, 0x0d, 0xbf, 0xe6, 0x42, 0x68, 0x41, 0x99, 0x2d, 0x0f, 0xb0, 0x54, 0xbb, 0x16
  ]

def sBox (x : U8) : U8 := sBoxTable.getD x.toNat 0

/-- `AES128::xtime` -/
def xtime (x : U8) : U8 := (x <<< 1) ^^^ if x &&& 0x80 ≠ 0 then 0x1b else 0x00

/-- One turn of the loop in `multiply`: `result`, `temp` and `y`. -/
def multiplyStep (v : U8 × U8 × U8) : U8 × U8 × U8 :=
  let (result, temp, y) := v
  (if y &&& 1 ≠ 0 then result ^^^ temp else result, xtime temp, y >>> 1)

/-- `AES128::multiply` -/
def multiply (x y : U8) : U8 := (Nat.iterate multiplyStep 8 (0, x, y)).1

/-- `AES128::add_round_key`, with the pointer `round_keys + offset`. -/
def addRoundKey (state roundKeys : ℕ → U8) (offset : ℕ) : ℕ → U8 := fun i =>
  state i ^^^ roundKeys (offset + i)

/-- `AES128::sub_bytes` -/
def subBytes (state : ℕ → U8) : ℕ → U8 := fun i => sBox (state i)

/-- `AES128::shift_rows` -/
def shiftRows (state : ℕ → U8) : ℕ → U8 :=
  -- Row 1
  let temp := state 1
  let state := Function.update state 1 (state 5)
  let state := Function.update state 5 (state 9)
  let state := Function.update state 9 (state 13)
  let state := Function.update state 13 temp
  -- Row 2
  let temp := state 2
  let state := Function.update state 2 (state 10)
  let state := Function.update state 10 temp
  let temp := state 6
  let state := Function.update state 6 (state 14)
  let state := Function.update state 14 temp
  -- Row 3
  let temp := state 3
  let state := Function.update state 3 (state 15)
  let state := Function.update state 15 (state 11)
  let state := Function.update state 11 (state 7)
  Function.update state 7 temp

/-- One turn of the loop in `mix_columns`. -/
def mixColumn (state : ℕ → U8) (i : ℕ) : ℕ → U8 :=
  let s0 := state (i * 4)
  let s1 := state (i * 4 + 1)
  let s2 := state (i * 4 + 2)
  let s3 := state (i * 4 + 3)
  let state := Function.update state (i * 4) (multiply s0 2 ^^^ multiply s1 3 ^^^ s2 ^^^ s3)
  let state := Function.update state (i * 4 + 1) (s0 ^^^ multiply s1 2 ^^^ multiply s2 3 ^^^ s3)
  let state := Function.update state (i * 4 + 2) (s0 ^^^ s1 ^^^ multiply s2 2 ^^^ multiply s3 3)
  Function.update state (i * 4 + 3) (multiply s0 3 ^^^ s1 ^^^ s2 ^^^ multiply s3 2)

/-- `AES128::mix_columns` -/
def mixColumns (state : ℕ → U8) : ℕ → U8 := (List.range 4).foldl mixColumn state

/-- `(uint8_t)(0x01 << ((i / 16) - 1))`, for round `j`. -/
def roundConstant (j : ℕ) : U8 := ((0x01 : U32) <<< (j - 1)).setWidth 8

/-- `temp` in the turn of the loop in `key_expansion` for the four bytes from `i` on. -/
def expandTemp (roundKeys : ℕ → U8) (i : ℕ) : ℕ → U8 :=
  let temp := fun k => roundKeys (i - 4 + k)
  if i % 16 = 0 then
    -- `RotWord`, `SubWord` and `Rcon`
    let temp := fun k => temp ((k + 1) % 4)
    let temp := fun k => sBox (temp k)
    Function.update temp 0 (temp 0 ^^^ roundConstant (i / 16))
  else temp

/-- One turn of the loop in `key_expansion`. -/
def expandWord (roundKeys : ℕ → U8) (i : ℕ) : ℕ → U8 :=
  let temp := expandTemp roundKeys i
  let roundKeys := Function.update roundKeys i (roundKeys (i - 16) ^^^ temp 0)
  let roundKeys := Function.update roundKeys (i + 1) (roundKeys (i - 15) ^^^ temp 1)
  let roundKeys := Function.update roundKeys (i + 2) (roundKeys (i - 14) ^^^ temp 2)
  Function.update roundKeys (i + 3) (roundKeys (i - 13) ^^^ temp 3)

/-- `AES128::key_expansion`: `i` runs from 16 to 172 in steps of four. -/
def keyExpansion (key : ℕ → U8) : ℕ → U8 :=
  (List.range 40).foldl (fun roundKeys j => expandWord roundKeys (16 + 4 * j)) key

/-- The loop over the first nine rounds in `encrypt_block`. -/
def encryptRounds (roundKeys state : ℕ → U8) : ℕ → ℕ → U8
  | 0 => addRoundKey state roundKeys 0
  | n + 1 =>
    addRoundKey (mixColumns (shiftRows (subBytes (encryptRounds roundKeys state n)))) roundKeys
      ((n + 1) * 16)

/-- `AES128::encrypt_block` -/
def encryptBlock (block key : ℕ → U8) : ℕ → U8 :=
  let roundKeys := keyExpansion key
  let state := encryptRounds roundKeys block 9
  let state := subBytes state
  let state := shiftRows state
  addRoundKey state roundKeys 160

/-! ### The tables and the column products -/

set_option maxRecDepth 10000 in
theorem sBoxTable_eq : sBoxTable =
    (List.range 256).map fun n => AES.affine (ByteField.lookup (BitVec.ofNat 8 n)) := by
  decide

theorem sBox_eq (x : U8) : sBox x = AES.sBox x := by
  rw [AES.sBox, ByteField.inv_eq]
  exact ByteField.getD_table (fun x => AES.affine (ByteField.lookup x)) sBoxTable_eq x

set_option maxRecDepth 10000 in
theorem multiply_two : ∀ x : U8, multiply x 2 = ByteField.mul x 2 := by decide

set_option maxRecDepth 10000 in
theorem multiply_three : ∀ x : U8, multiply x 3 = ByteField.mul x 3 := by decide

/-! ### The key schedule -/

theorem expandWord_of_lt (roundKeys : ℕ → U8) {i j : ℕ} (h : j < i) :
    expandWord roundKeys i j = roundKeys j := by
  rw [expandWord]
  rw [Function.update_of_ne (by omega), Function.update_of_ne (by omega),
    Function.update_of_ne (by omega), Function.update_of_ne (by omega)]

theorem expandTemp_at (roundKeys : ℕ → U8) (i : ℕ) (r : Fin 4) :
    expandTemp roundKeys i r = if i % 16 = 0 then
        sBox (roundKeys (i - 4 + (r + 1 : Fin 4))) ^^^ if r = 0 then roundConstant (i / 16) else 0
      else roundKeys (i - 4 + r) := by
  rw [expandTemp]
  by_cases hmod : i % 16 = 0
  · rw [if_pos hmod, if_pos hmod]
    fin_cases r <;> simp
  · rw [if_neg hmod, if_neg hmod]

/-- The bytes that one turn of the loop writes. -/
theorem expandWord_at (roundKeys : ℕ → U8) {i : ℕ} (hi : 16 ≤ i) (r : Fin 4) :
    expandWord roundKeys i (i + r) = roundKeys (i - 16 + r) ^^^ expandTemp roundKeys i r := by
  have hindex : i - 15 = i - 16 + 1 ∧ i - 14 = i - 16 + 2 ∧ i - 13 = i - 16 + 3 := by omega
  -- the bytes that are read lie below those that are written
  have hread : i - 16 + 1 ≠ i ∧ i - 16 + 2 ≠ i ∧ i - 16 + 3 ≠ i := by omega
  rw [expandWord, hindex.1, hindex.2.1, hindex.2.2]
  fin_cases r <;> simp [hread]

/-- **The key schedule** is that of the standard but for the round constants. -/
theorem keyExpansion_eq (key : ℕ → U8) {i : ℕ} (hi : i < 44) (r : Fin 4) :
    keyExpansion key (4 * i + r) = AES.schedule roundConstant (AES.stateOf key) i r := by
  have hloop : ∀ n, ∀ i < 4 + n, ∀ r : Fin 4, (List.range n).foldl
      (fun roundKeys j => expandWord roundKeys (16 + 4 * j)) key (4 * i + r) =
        AES.schedule roundConstant (AES.stateOf key) i r := by
    intro n
    induction n with
    | zero =>
      intro i hi r
      rw [AES.schedule_of_lt _ _ hi, AES.stateOf]
      exact congrArg key (by dsimp only; omega)
    | succ n ih =>
      intro i hi r
      rw [List.range_succ, List.foldl_append, List.foldl_cons, List.foldl_nil]
      rcases Nat.lt_or_ge i (4 + n) with hlt | hge
      · rw [expandWord_of_lt _ (by omega)]
        exact ih i hlt r
      · -- the word of this turn, from the one before it and the one four before it
        obtain rfl : i = 4 + n := by omega
        have hbefore := ih n (by omega) r
        rw [show 4 * (4 + n) = 16 + 4 * n by omega, expandWord_at _ (by omega), expandTemp_at,
          show 16 + 4 * n - 16 = 4 * n by omega, show 16 + 4 * n - 4 = 4 * (3 + n) by omega, hbefore]
        by_cases hmod : (4 + n) % 4 = 0
        · rw [AES.schedule_first _ _ (by omega) hmod, if_pos (by omega), ih (3 + n) (by omega),
            sBox_eq, show 4 + n - 4 = n by omega, show 4 + n - 1 = 3 + n by omega,
            show (16 + 4 * n) / 16 = (4 + n) / 4 by omega]
        · rw [AES.schedule_inner _ _ (by omega) hmod, if_neg (by omega), ih (3 + n) (by omega),
            show 4 + n - 4 = n by omega, show 4 + n - 1 = 3 + n by omega]
  exact hloop 40 i (by omega) r

/-! ### The rounds -/

theorem stateOf_subBytes (s : ℕ → U8) :
    AES.stateOf (subBytes s) = AES.subBytes (AES.stateOf s) := by
  funext r c
  exact sBox_eq _

theorem stateOf_shiftRows (s : ℕ → U8) :
    AES.stateOf (shiftRows s) = AES.shiftRows (AES.stateOf s) := by
  funext r c
  fin_cases r <;> fin_cases c <;> rfl

theorem mixColumn_of_ne (s : ℕ → U8) {i j : ℕ} (h : j / 4 ≠ i) : mixColumn s i j = s j := by
  rw [mixColumn]
  rw [Function.update_of_ne (by omega), Function.update_of_ne (by omega),
    Function.update_of_ne (by omega), Function.update_of_ne (by omega)]

/-- The column that one turn of the loop writes. -/
theorem mixColumn_at (s : ℕ → U8) (r c : Fin 4) :
    mixColumn s c (r + 4 * c) = AES.mixColumns (AES.stateOf s) r c := by
  rw [mixColumn, AES.mixColumns]
  simp only [multiply_two, multiply_three, AES.stateOf, Nat.mul_comm 4]
  generalize (c : ℕ) * 4 = i
  fin_cases r <;> simp [Nat.add_comm _ i] <;> ac_rfl

/-- A loop over the columns that writes in turn `c` what `f` makes of column `c` writes each
column once, from the bytes that were there before the loop. -/
theorem columnLoop_at (turn : (ℕ → U8) → ℕ → ℕ → U8) (f : AES.State → AES.State)
    (hother : ∀ s i j, j / 4 ≠ i → turn s i j = s j)
    (hcolumn : ∀ s (r c : Fin 4), turn s c (r + 4 * c) = f (AES.stateOf s) r c)
    (hlocal : ∀ s s' (c : Fin 4), (∀ r, s r c = s' r c) → ∀ r, f s r c = f s' r c)
    (s : ℕ → U8) (n : ℕ) (hn : n ≤ 4) (r c : Fin 4) :
    (List.range n).foldl turn s (r + 4 * c) =
      if (c : ℕ) < n then f (AES.stateOf s) r c else s (r + 4 * c) := by
  induction n generalizing r c with
  | zero => rfl
  | succ n ih =>
    rw [List.range_succ, List.foldl_append, List.foldl_cons, List.foldl_nil]
    by_cases hc : (c : ℕ) = n
    · rw [← hc, hcolumn, if_pos (by omega)]
      -- the column still is the one of `s`
      refine hlocal _ _ c (fun r => ?_) r
      have := ih (by omega) r c
      rw [← hc, if_neg (Nat.lt_irrefl _)] at this
      exact this
    · rw [hother _ _ _ (by omega), ih (by omega)]
      by_cases hlt : (c : ℕ) < n
      · rw [if_pos hlt, if_pos (by omega)]
      · rw [if_neg hlt, if_neg (by omega)]

theorem stateOf_mixColumns (s : ℕ → U8) :
    AES.stateOf (mixColumns s) = AES.mixColumns (AES.stateOf s) := by
  funext r c
  have hlocal : ∀ s s' (c : Fin 4), (∀ r, s r c = s' r c) → ∀ r,
      AES.mixColumns s r c = AES.mixColumns s' r c := by
    intro s s' c h r
    rw [AES.mixColumns, AES.mixColumns, h, h, h, h]
  rw [AES.stateOf, mixColumns, columnLoop_at mixColumn AES.mixColumns
    (fun s _ _ h => mixColumn_of_ne s h) mixColumn_at hlocal s 4 (Nat.le_refl 4), if_pos c.isLt]

/-- Adding a round key, where the expanded key has the words `w`. -/
theorem stateOf_addRoundKey {roundKeys : ℕ → U8} {w : ℕ → AES.Word}
    (hw : ∀ i < 44, ∀ r : Fin 4, roundKeys (4 * i + r) = w i r) (s : ℕ → U8) {n : ℕ}
    (hn : n ≤ 10) :
    AES.stateOf (addRoundKey s roundKeys (n * 16)) = AES.addRoundKey w n (AES.stateOf s) := by
  funext r c
  rw [AES.stateOf, addRoundKey, AES.addRoundKey, ← hw _ (by omega), AES.stateOf]
  exact congrArg _ (congrArg roundKeys (by omega))

theorem stateOf_encryptRounds {roundKeys : ℕ → U8} {w : ℕ → AES.Word}
    (hw : ∀ i < 44, ∀ r : Fin 4, roundKeys (4 * i + r) = w i r) (s : ℕ → U8) {n : ℕ}
    (hn : n ≤ 10) :
    AES.stateOf (encryptRounds roundKeys s n) = AES.rounds w (AES.stateOf s) n := by
  induction n with
  | zero => exact stateOf_addRoundKey hw s (Nat.zero_le _)
  | succ n ih =>
    rw [encryptRounds, stateOf_addRoundKey hw _ hn, stateOf_mixColumns, stateOf_shiftRows,
      stateOf_subBytes, ih (by omega), AES.rounds]

/-- **The code's cipher** is that of the standard with the code's round constants. -/
theorem encryptBlock_eq (block key : ℕ → U8) :
    AES.stateOf (encryptBlock block key) =
      AES.encrypt (AES.schedule roundConstant (AES.stateOf key)) (AES.stateOf block) := by
  have hw : ∀ i < 44, ∀ r : Fin 4, keyExpansion key (4 * i + r) =
      AES.schedule roundConstant (AES.stateOf key) i r := fun i hi r => keyExpansion_eq key hi r
  rw [encryptBlock, AES.encrypt, show 160 = 10 * 16 from rfl, stateOf_addRoundKey hw _ (Nat.le_refl 10), stateOf_shiftRows,
    stateOf_subBytes, stateOf_encryptRounds hw _ (by omega)]

/-! ### Rounds 9 and 10 -/

theorem roundConstant_eq : ∀ j ≤ 8, roundConstant j = AES.rcon j := by decide

/-- How the two schedules differ in round 9: in the first byte of each word. -/
def defect (r : Fin 4) : U8 := if r.val = 0 then 0x1b else 0

theorem roundConstant_nine : ∀ r : Fin 4, (if r = 0 then AES.rcon 9 else 0) =
    (if r = 0 then roundConstant 9 else 0) ^^^ defect r := by decide +kernel

theorem schedule_nine (key : AES.State) {c : ℕ} (hc : c < 4) (r : Fin 4) :
    AES.schedule AES.rcon key (36 + c) r =
      AES.schedule roundConstant key (36 + c) r ^^^ defect r := by
  have hold : ∀ i < 36, AES.schedule roundConstant key i = AES.schedule AES.rcon key i :=
    fun i hi => AES.schedule_congr key roundConstant_eq (n := 8) hi
  induction c with
  | zero =>
    rw [AES.schedule_first AES.rcon key (by omega) (by omega),
      AES.schedule_first roundConstant key (by omega) (by omega), hold _ (by omega),
      hold _ (by omega), show (36 + 0) / 4 = 9 from rfl, roundConstant_nine, BitVec.xor_assoc,
      BitVec.xor_assoc]
  | succ c ih =>
    rw [AES.schedule_inner AES.rcon key (by omega) (by omega),
      AES.schedule_inner roundConstant key (by omega) (by omega), hold _ (by omega),
      show 36 + (c + 1) - 1 = 36 + c by omega, ih (by omega), BitVec.xor_assoc]

theorem affine_lookup_ne : ∀ x : U8, AES.affine (ByteField.lookup (x ^^^ 0x1b)) ≠
    AES.affine (ByteField.lookup x) := by decide

theorem sBox_ne (x : U8) : sBox (x ^^^ 0x1b) ≠ sBox x := by
  rw [sBox_eq, sBox_eq, AES.sBox, AES.sBox, ByteField.inv_eq, ByteField.inv_eq]
  exact affine_lookup_ne x

/-- The last byte of the first word of round 10 comes out of the S-box. -/
theorem schedule_ten_ne (key : AES.State) :
    AES.schedule roundConstant key 40 3 ≠ AES.schedule AES.rcon key 40 3 := by
  have h36 : AES.schedule AES.rcon key 36 3 = AES.schedule roundConstant key 36 3 ^^^ 0 :=
    schedule_nine key (c := 0) (by omega) 3
  have h39 : AES.schedule AES.rcon key 39 0 = AES.schedule roundConstant key 39 0 ^^^ 0x1b :=
    schedule_nine key (c := 3) (by omega) 0
  rw [AES.schedule_first AES.rcon key (by omega) (by omega),
    AES.schedule_first roundConstant key (by omega) (by omega)]
  dsimp only [Nat.reduceSub]
  rw [h36, show (3 + 1 : Fin 4) = 0 from rfl, h39, if_neg (by decide), if_neg (by decide)]
  intro h
  refine sBox_ne (AES.schedule roundConstant key 39 0) ?_
  rw [sBox_eq, sBox_eq]
  simpa using h.symm

/-- The fourth byte of the result, from the last word of round 9 and the first of round 10. -/
theorem encrypt_three (w : ℕ → AES.Word) (s : AES.State) :
    AES.encrypt w s 3 0 = AES.sBox (AES.mixColumns (AES.shiftRows (AES.subBytes
      (AES.rounds w s 8))) 3 3 ^^^ w 39 3) ^^^ w 40 3 := by
  have hcolumn : (0 + 3 : Fin 4) = 3 := rfl
  rw [AES.encrypt, AES.addRoundKey, AES.shiftRows, AES.subBytes, hcolumn, AES.rounds,
    AES.addRoundKey]
  rfl

theorem encryptBlock_three_ne (block key : ℕ → U8) :
    encryptBlock block key 3 ≠ AES.cipher (AES.stateOf key) (AES.stateOf block) 3 0 := by
  intro h
  have hold : AES.rounds (AES.schedule roundConstant (AES.stateOf key)) (AES.stateOf block) 8 =
      AES.rounds (AES.schedule AES.rcon (AES.stateOf key)) (AES.stateOf block) 8 :=
    AES.rounds_congr _ fun i hi => AES.schedule_congr _ roundConstant_eq (n := 8) hi
  have h39 : AES.schedule AES.rcon (AES.stateOf key) 39 3 =
      AES.schedule roundConstant (AES.stateOf key) 39 3 ^^^ 0 :=
    schedule_nine _ (c := 3) (by omega) 3
  have hcode := congrFun (congrFun (encryptBlock_eq block key) 3) 0
  rw [AES.stateOf, show ((3 : Fin 4) : ℕ) + 4 * ((0 : Fin 4) : ℕ) = 3 from rfl, h, AES.cipher,
    encrypt_three, encrypt_three, hold, h39] at hcode
  exact schedule_ten_ne (AES.stateOf key) (by simpa using hcode.symm)

theorem stateOf_ne {b : ℕ → U8} {s : AES.State} (h : b 3 ≠ s 3 0) : AES.stateOf b ≠ s :=
  fun heq => h (congrFun (congrFun heq 3) 0)

/-- **Never the standard's cipher**, whatever the key and the block are. -/
theorem encryptBlock_ne (block key : ℕ → U8) :
    AES.stateOf (encryptBlock block key) ≠ AES.cipher (AES.stateOf key) (AES.stateOf block) :=
  stateOf_ne (encryptBlock_three_ne block key)

def exampleKey : ℕ → U8 := bufferOf
  [0x2b, 0x7e, 0x15, 0x16, 0x28, 0xae, 0xd2, 0xa6, 0xab, 0xf7, 0x15, 0x88, 0x09, 0xcf, 0x4f, 0x3c]

def exampleBlock : ℕ → U8 := bufferOf
  [0x32, 0x43, 0xf6, 0xa8, 0x88, 0x5a, 0x30, 0x8d, 0x31, 0x31, 0x98, 0xa2, 0xe0, 0x37, 0x07, 0x34]

theorem encryptBlock_example_ne : AES.stateOf (encryptBlock exampleBlock exampleKey) ≠
    AES.cipher (AES.stateOf exampleKey) (AES.stateOf exampleBlock) :=
  stateOf_ne (encryptBlock_three_ne exampleBlock exampleKey)

end MesaOS.FS.Crypto
