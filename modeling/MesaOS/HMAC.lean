/-
The authentication code (`HMAC_SHA256` in `fs/crypto.cpp`).

`compute` keeps a record of the bytes it reads, as an array and an index.

* `sha256Transform_eq` — the compression function is that of the standard.
* `innerHash_eq` — the inner hash is that of the standard when the key fits in a
  block and the data is one block.
* `compute_congr` — of longer data only the first block is hashed.
* `strays_iff` — which reads lie outside their arrays: those of data shorter than a
  block, and the second half of a block of 64 bytes at the 32-byte inner hash.
-/
import MesaOS.SHA256Standard

open MachineWord NetworkOrder

namespace MesaOS.FS.Crypto

/-! ### The source -/

/-- `sha256_k[64]`. -/
def sha256K : List U32 :=
  [
    0x428a2f98, 0x71374491, 0xb5c0fbcf, 0xe9b5dba5, 0x3956c25b, 0x59f111f1, 0x923f82a4, 0xab1c5ed5,
    0xd807aa98, 0x12835b01, 0x243185be, 0x550c7dc3, 0x72be5d74, 0x80deb1fe, 0x9bdc06a7, 0xc19bf174,
    0xe49b69c1, 0xefbe4786, 0x0fc19dc6, 0x240ca1cc, 0x2de92c6f, 0x4a7484aa, 0x5cb0a9dc, 0x76f988da,
    0x983e5152, 0xa831c66d, 0xb00327c8, 0xbf597fc7, 0xc6e00bf3, 0xd5a79147, 0x06ca6351, 0x14292967,
    0x27b70a85, 0x2e1b2138, 0x4d2c6dfc, 0x53380d13, 0x650a7354, 0x766a0abb, 0x81c2c92e, 0x92722c85,
    0xa2bfe8a1, 0xa81a664b, 0xc24b8b70, 0xc76c51a3, 0xd192e819, 0xd6990624, 0xf40e3585, 0x106aa070,
    0x19a4c116, 0x1e376c08, 0x2748774c, 0x34b0bcb5, 0x391c0cb3, 0x4ed8aa4a, 0x5b9cca4f, 0x682e6ff3,
    0x748f82ee, 0x78a5636f, 0x84c87814, 0x8cc70208, 0x90befffa, 0xa4506ceb, 0xbef9a3f7, 0xc67178f2
  ]

/-- `HMAC_SHA256::sha256_init` -/
def sha256Init : List U32 :=
  [0x6a09e667, 0xbb67ae85, 0x3c6ef372, 0xa54ff53a,
    0x510e527f, 0x9b05688c, 0x1f83d9ab, 0x5be0cd19]

/-- `w[i]` of the first loop in `sha256_transform`. -/
def blockWord (data : ℕ → U8) (i : ℕ) : U32 :=
  ((data (i * 4)).setWidth 32 <<< 24) ||| ((data (i * 4 + 1)).setWidth 32 <<< 16) |||
    ((data (i * 4 + 2)).setWidth 32 <<< 8) ||| (data (i * 4 + 3)).setWidth 32

/-- One turn of the second loop, for `w[i]` from 16 on. -/
def extendWord (w : List U32) (i : ℕ) : List U32 :=
  let x := w.getD (i - 15) 0
  let s0 := (x >>> 7 ||| x <<< 25) ^^^ (x >>> 18 ||| x <<< 14) ^^^ (x >>> 3)
  let y := w.getD (i - 2) 0
  let s1 := (y >>> 17 ||| y <<< 15) ^^^ (y >>> 19 ||| y <<< 13) ^^^ (y >>> 10)
  w.set i (w.getD (i - 16) 0 + s0 + w.getD (i - 7) 0 + s1)

/-- One turn of the main loop, over the variables `a` to `h`. -/
def transformRound (w : List U32) (v : SHA256.State) (i : ℕ) : SHA256.State :=
  let s1 := (v.e >>> 6 ||| v.e <<< 26) ^^^ (v.e >>> 11 ||| v.e <<< 21) ^^^
    (v.e >>> 25 ||| v.e <<< 7)
  let ch := (v.e &&& v.f) ^^^ (~~~v.e &&& v.g)
  let temp1 := v.h + s1 + ch + sha256K.getD i 0 + w.getD i 0
  let s0 := (v.a >>> 2 ||| v.a <<< 30) ^^^ (v.a >>> 13 ||| v.a <<< 19) ^^^
    (v.a >>> 22 ||| v.a <<< 10)
  let maj := (v.a &&& v.b) ^^^ (v.a &&& v.c) ^^^ (v.b &&& v.c)
  let temp2 := s0 + maj
  { h := v.g, g := v.f, f := v.e, e := v.d + temp1,
    d := v.c, c := v.b, b := v.a, a := temp1 + temp2 }

/-- `HMAC_SHA256::sha256_transform`, on the 64 bytes it reads at `data`. -/
def sha256Transform (state : List U32) (data : List U8) : List U32 :=
  let w := (List.range 16).map (blockWord (bufferOf data)) ++ List.replicate 48 0
  let w := (List.range 48).foldl (fun w n => extendWord w (16 + n)) w
  let v := (List.range 64).foldl (transformRound w) (.ofWords (state.getD · 0))
  [state.getD 0 0 + v.a, state.getD 1 0 + v.b, state.getD 2 0 + v.c, state.getD 3 0 + v.d,
    state.getD 4 0 + v.e, state.getD 5 0 + v.f, state.getD 6 0 + v.g, state.getD 7 0 + v.h]

/-- The arrays that `compute` and what it calls read bytes of. -/
inductive Buffer
  | key | data | ipadKey | opadKey | padding | innerHash
deriving DecidableEq

/-- The read of `array[index]`. -/
structure Access where
  array : Buffer
  index : ℕ
deriving DecidableEq

/-- A computation with the reads it has made. -/
abbrev Traced := StateM (List Access)

/-- The first `n` bytes at a pointer to `array`, where memory holds `p`. -/
def read (array : Buffer) (p : ℕ → U8) (n : ℕ) : Traced (List U8) := do
  modify (· ++ (List.range n).map (Access.mk array))
  return (List.range n).map p

/-- `memcpy` to the beginning of `dst`. -/
def memcpy (dst : List U8) (array : Buffer) (src : ℕ → U8) (n : ℕ) : Traced (List U8) := do
  return (← read array src n) ++ dst.drop n

/-- `padding[128]` in `sha256_final`. -/
def finalPadding (totalLen : BitVec 64) : List U8 :=
  let padding := (List.replicate 128 0).set 0 0x80
  let bitLen := totalLen * 8
  (List.range 8).foldl (fun padding i =>
    padding.set (56 + i) (((bitLen >>> (56 - i * 8)) &&& 0xff).setWidth 8)) padding

/-- The loop in `sha256_final` that stores the state. -/
def storeHash (state : List U32) : List U8 :=
  (List.range 8).flatMap fun i =>
    let x := state.getD i 0
    [((x >>> 24) &&& 0xff).setWidth 8, ((x >>> 16) &&& 0xff).setWidth 8,
      ((x >>> 8) &&& 0xff).setWidth 8, (x &&& 0xff).setWidth 8]

/-- `HMAC_SHA256::sha256_final` -/
def sha256Final (state : List U32) (totalLen : BitVec 64) : Traced (List U8) := do
  let state := sha256Transform state (← read .padding (bufferOf (finalPadding totalLen)) 64)
  return storeHash state

/-- `HMAC_SHA256::compute`.  Memory goes on behind the arguments `key` and `data`, and
`stack` is what lies behind `inner_hash`. -/
def compute (key : ℕ → U8) (keyLen : U32) (data : ℕ → U8) (dataLen : U32) (stack : ℕ → U8) :
    Traced (List U8) := do
  let ipadKey := List.replicate 64 0
  let opadKey := List.replicate 64 0
  -- a long key is cut, not hashed
  let copied := if keyLen ≤ 64 then keyLen.toNat else 32
  let ipadKey ← memcpy ipadKey .key key copied
  let opadKey ← memcpy opadKey .key key copied
  let ipadKey := ipadKey.map (· ^^^ 0x36)
  let opadKey := opadKey.map (· ^^^ 0x5c)
  -- inner hash
  let state := sha256Init
  let state := sha256Transform state (← read .ipadKey (bufferOf ipadKey) 64)
  let state := sha256Transform state (← read .data data 64)
  let innerHash ← sha256Final state ((64 + dataLen).setWidth 64)
  -- outer hash
  let state := sha256Init
  let state := sha256Transform state (← read .opadKey (bufferOf opadKey) 64)
  let state := sha256Transform state
    (← read .innerHash (fun i => if i < 32 then bufferOf innerHash i else stack (i - 32)) 64)
  sha256Final state (64 + 32)

/-- `HMAC_SHA256::verify` -/
def verify (key : ℕ → U8) (keyLen : U32) (data : ℕ → U8) (dataLen : U32)
    (expectedHmac : List U8) (stack : ℕ → U8) : Traced Bool := do
  let computedHmac ← compute key keyLen data dataLen stack
  return computedHmac == expectedHmac

/-! ### The compression function -/

theorem sha256K_eq : ∀ t < 64, sha256K.getD t 0 = SHA256.roundConstant t := by decide +kernel

theorem sha256Init_eq : SHA256.State.ofWords (sha256Init.getD · 0) = SHA256.initialState := by
  decide +kernel

theorem blockWord_eq (data : ℕ → U8) (t : ℕ) : blockWord data t = be32 data (4 * t) := by
  rw [be32_eq_or, blockWord, Nat.mul_comm]

theorem length_schedule (data : ℕ → U8) (n : ℕ) : (SHA256.schedule data n).length = 16 + n := by
  induction n with
  | zero => rfl
  | succ n ih =>
    rw [SHA256.schedule, List.length_append, ih]
    rfl

theorem extendWord_self (w : List U32) (i : ℕ) : extendWord w i =
    w.set i (w.getD (i - 16) 0 + SHA256.smallSigma0 (w.getD (i - 15) 0) + w.getD (i - 7) 0 +
      SHA256.smallSigma1 (w.getD (i - 2) 0)) := rfl

/-- The loops over `w` compute the message schedule; the rest of the array still is zero. -/
theorem extendWord_schedule (data : ℕ → U8) {n : ℕ} (hn : n ≤ 48) :
    (List.range n).foldl (fun w n => extendWord w (16 + n))
        ((List.range 16).map (blockWord data) ++ List.replicate 48 0) =
      SHA256.schedule data n ++ List.replicate (48 - n) 0 := by
  induction n with
  | zero => simp only [SHA256.schedule, funext (blockWord_eq data), List.range_zero,
      List.foldl_nil, Nat.sub_zero]
  | succ n ih =>
    have hlength := length_schedule data n
    have hget : ∀ t < 16 + n, (SHA256.schedule data n ++ List.replicate (48 - n) 0).getD t 0 =
        (SHA256.schedule data n).getD t 0 := fun t ht =>
      List.getD_append _ _ _ _ (by rw [hlength]; exact ht)
    have hrest : List.replicate (48 - n) (0 : U32) = 0 :: List.replicate (48 - (n + 1)) 0 := by
      rw [← List.replicate_succ, show 48 - (n + 1) + 1 = 48 - n by omega]
    rw [List.range_succ (n := n), List.foldl_append, List.foldl_cons, List.foldl_nil, ih (by omega),
      extendWord_self, hget _ (by omega), hget _ (by omega), hget _ (by omega), hget _ (by omega),
      hrest, ← hlength, List.set_append_right _ _ (Nat.le_refl _), Nat.sub_self, List.set_cons_zero,
      hlength, SHA256.schedule, List.append_assoc, List.singleton_append,
      show 16 + n - 16 = n by omega, show 16 + n - 15 = n + 1 by omega,
      show 16 + n - 7 = n + 9 by omega, show 16 + n - 2 = n + 14 by omega]
    congr 2
    ac_rfl

theorem transformRound_eq (w : List U32) {t : ℕ} (ht : t < 64) (v : SHA256.State) :
    transformRound w v t = SHA256.round v (SHA256.roundConstant t) (w.getD t 0) := by
  rw [transformRound, SHA256.round, sha256K_eq t ht]
  rfl

theorem transformRounds_eq (w : List U32) (v : SHA256.State) {n : ℕ} (hn : n ≤ 64) :
    (List.range n).foldl (transformRound w) v = SHA256.rounds w v n := by
  induction n with
  | zero => rfl
  | succ n ih =>
    rw [List.range_succ, List.foldl_append, List.foldl_cons, List.foldl_nil, ih (by omega),
      transformRound_eq w (by omega), SHA256.rounds]

/-- **The compression function** is that of the standard. -/
theorem sha256Transform_eq (state : List U32) (data : List U8) :
    SHA256.State.ofWords ((sha256Transform state data).getD · 0) =
      SHA256.compress (.ofWords (state.getD · 0)) (bufferOf data) := by
  rw [sha256Transform, extendWord_schedule _ (Nat.le_refl 48), Nat.sub_self, List.replicate_zero,
    List.append_nil, transformRounds_eq _ _ (Nat.le_refl 64), SHA256.compress]
  rfl

theorem storeHash_eq (state : List U32) :
    storeHash state = (SHA256.State.ofWords (state.getD · 0)).bytes := by
  have hbyte : ∀ x : U32, (x &&& 0xff).setWidth 8 = x.extractLsb' 0 8 := fun x => by
    rw [← shiftRight_and_setWidth x 0 (by decide)]
    rfl
  have hword : ∀ x : U32, [((x >>> 24) &&& 0xff).setWidth 8, ((x >>> 16) &&& 0xff).setWidth 8,
      ((x >>> 8) &&& 0xff).setWidth 8, (x &&& 0xff).setWidth 8] =
        (List.range 4).map fun k => x.extractLsb' (24 - 8 * k) 8 := by
    intro x
    rw [shiftRight_and_setWidth _ _ (by decide), shiftRight_and_setWidth _ _ (by decide),
      shiftRight_and_setWidth _ _ (by decide), hbyte]
    rfl
  rw [storeHash]
  dsimp only
  rw [funext fun i => hword (state.getD i 0)]
  rfl

/-- The padding block is the one that the standard puts after whole blocks. -/
theorem map_finalPadding {n : ℕ} (h : n % 64 = 0) :
    (List.range 64).map (bufferOf (finalPadding (BitVec.ofNat 64 n))) = SHA256.padding n := by
  have hloop : ∀ f : ℕ → U8, (List.range 8).foldl (fun padding i => padding.set (56 + i) (f i))
      ((List.replicate 128 0).set 0 0x80) =
        (0x80 :: (List.replicate 55 0 ++ (List.range 8).map f)) ++ List.replicate 64 0 := fun _ => rfl
  have hbits : BitVec.ofNat 64 n * 8 = BitVec.ofNat 64 (8 * n) := by
    rw [Nat.mul_comm, BitVec.ofNat_mul]
    rfl
  have hblock : ∀ tail : List U8, tail.length = 8 →
      (List.range 64).map (bufferOf ((0x80 :: (List.replicate 55 0 ++ tail)) ++
        List.replicate 64 0)) = 0x80 :: (List.replicate 55 0 ++ tail) := by
    intro tail htail
    have hread := map_bufferOf_append (0x80 :: (List.replicate 55 0 ++ tail)) (List.replicate 64 0)
    have hlength : ((0x80 : U8) :: (List.replicate 55 0 ++ tail)).length = 64 := by simp [htail]
    rwa [hlength] at hread
  rw [finalPadding, hloop, hblock _ (by simp)]
  rw [SHA256.padding, SHA256.be64, h, hbits]
  congr 2
  refine List.map_congr_left fun i _ => ?_
  rw [shiftRight_and_setWidth _ _ (by decide), Nat.mul_comm]

/-! ### What `compute` returns and what it reads -/

section

variable (key : ℕ → U8) (keyLen : U32) (data : ℕ → U8) (dataLen : U32) (stack : ℕ → U8)

/-- The bytes of an argument. -/
def contents (p : ℕ → U8) (len : U32) : List U8 := (List.range len.toNat).map p

/-- How many bytes of the key are copied. -/
def copied : ℕ := if keyLen ≤ 64 then keyLen.toNat else 32

/-- `ipad_key` and `opad_key`. -/
def paddedKey (pad : U8) : List U8 :=
  ((List.range (copied keyLen)).map key ++ (List.replicate 64 0).drop (copied keyLen)).map
    (· ^^^ pad)

/-- What `sha256_final` stores after two blocks. -/
def hashTwo (first second : ℕ → U8) (totalLen : BitVec 64) : List U8 :=
  storeHash (sha256Transform (sha256Transform (sha256Transform sha256Init
    ((List.range 64).map first)) ((List.range 64).map second))
    ((List.range 64).map (bufferOf (finalPadding totalLen))))

def innerHash : List U8 :=
  hashTwo (bufferOf (paddedKey key keyLen 0x36)) data ((64 + dataLen).setWidth 64)

/-- What the outer hash reads at `inner_hash`. -/
def behindInnerHash : ℕ → U8 := fun i =>
  if i < 32 then bufferOf (innerHash key keyLen data dataLen) i else stack (i - 32)

def tag : List U8 :=
  hashTwo (bufferOf (paddedKey key keyLen 0x5c)) (behindInnerHash key keyLen data dataLen stack)
    (64 + 32)

/-- The reads of `n` bytes at an array. -/
def accesses (array : Buffer) (n : ℕ) : List Access := (List.range n).map (Access.mk array)

theorem compute_run : (compute key keyLen data dataLen stack).run [] =
    (tag key keyLen data dataLen stack,
      accesses .key (copied keyLen) ++ accesses .key (copied keyLen) ++ accesses .ipadKey 64 ++
        accesses .data 64 ++ accesses .padding 64 ++ accesses .opadKey 64 ++
        accesses .innerHash 64 ++ accesses .padding 64) := rfl

theorem mem_accesses {a : Access} {array : Buffer} {n : ℕ} :
    a ∈ accesses array n ↔ a.array = array ∧ a.index < n := by
  rw [accesses, List.mem_map]
  refine ⟨?_, fun h => ⟨a.index, List.mem_range.mpr h.2, by rw [← h.1]⟩⟩
  rintro ⟨i, hi, rfl⟩
  exact ⟨rfl, List.mem_range.mp hi⟩

/-- The sizes of the arrays. -/
def Buffer.size : Buffer → ℕ
  | .key => keyLen.toNat
  | .data => dataLen.toNat
  | .ipadKey | .opadKey => 64
  | .padding => 128
  | .innerHash => 32

def Access.Inside (a : Access) : Prop := a.index < a.array.size keyLen dataLen

/-- The result is the standard's, and no read leaves its array. -/
structure Correct : Prop where
  tag_eq : ((compute key keyLen data dataLen stack).run []).1 =
    SHA256.hmac (contents key keyLen) (contents data dataLen)
  inside : ∀ a ∈ ((compute key keyLen data dataLen stack).run []).2, a.Inside keyLen dataLen

theorem copied_le : copied keyLen ≤ keyLen.toNat ∧ copied keyLen ≤ 64 := by
  rw [copied]
  by_cases h : keyLen ≤ 64
  · rw [if_pos h]
    exact ⟨Nat.le_refl _, h⟩
  · have hlong : 64 < keyLen.toNat := BitVec.not_le.mp h
    rw [if_neg h]
    omega

/-- **The reads outside** the arrays: behind data that is shorter than a block, and the
32 bytes behind the inner hash. -/
theorem strays_iff (a : Access) :
    a ∈ ((compute key keyLen data dataLen stack).run []).2 ∧ ¬ a.Inside keyLen dataLen ↔
      (a.array = .data ∧ dataLen.toNat ≤ a.index ∧ a.index < 64) ∨
        (a.array = .innerHash ∧ 32 ≤ a.index ∧ a.index < 64) := by
  have hcopied := copied_le keyLen
  obtain ⟨array, index⟩ := a
  rw [compute_run, Access.Inside]
  simp only [List.mem_append, mem_accesses]
  cases array <;> simp only [Buffer.size] <;> grind

/-! ### The inner hash -/

variable {keyLen} in
theorem paddedKey_eq (h : keyLen ≤ 64) (pad : U8) :
    paddedKey key keyLen pad = (SHA256.keyBlock (contents key keyLen)).map (· ^^^ pad) := by
  have hshort : (contents key keyLen).length ≤ 64 := by
    rw [contents, List.length_map, List.length_range]
    exact h
  have hlength : (contents key keyLen).length = keyLen.toNat := by
    rw [contents, List.length_map, List.length_range]
  rw [paddedKey, copied, if_pos h, List.drop_replicate, SHA256.keyBlock, if_pos hshort, hlength,
    contents]

theorem length_paddedKey (pad : U8) : (paddedKey key keyLen pad).length = 64 := by
  have hcopied := (copied_le keyLen).2
  simp only [paddedKey, List.length_map, List.length_append, List.length_range, List.length_drop,
    List.length_replicate]
  omega

/-- Two blocks and the padding behind them are hashed as in the standard. -/
theorem hashTwo_eq (first : List U8) (second : ℕ → U8) (h : first.length = 64) :
    hashTwo (bufferOf first) second (BitVec.ofNat 64 128) =
      SHA256.hash (first ++ (List.range 64).map second) := by
  have hlength : (first ++ (List.range 64).map second).length = 64 * 2 := by simp [h]
  have hfirst : SHA256.absorb (first ++ (List.range 64).map second) 1 =
      SHA256.compress SHA256.initialState (bufferOf first) :=
    SHA256.compress_congr _ fun i hi => by
      rw [Nat.mul_zero, Nat.zero_add, bufferOf_append_left _ _ (by omega)]
  have hsecond : (fun i => bufferOf (first ++ (List.range 64).map second) (64 * 1 + i)) =
      bufferOf ((List.range 64).map second) := by
    funext i
    rw [Nat.mul_one, ← h, bufferOf_append]
  have hread : (List.range 64).map (bufferOf first) = first := by
    have := map_bufferOf_append first []
    rwa [List.append_nil, h] at this
  rw [SHA256.hash_of_blocks hlength, SHA256.absorb, hfirst, hsecond, hashTwo, storeHash_eq,
    sha256Transform_eq, sha256Transform_eq, sha256Transform_eq, sha256Init_eq, hread,
    map_finalPadding (by decide), hlength]

variable {keyLen} in
/-- **The inner hash** of one block of data, under a key that fits in a block. -/
theorem innerHash_eq (h : keyLen ≤ 64) : innerHash key keyLen data 64 =
    SHA256.hash ((SHA256.keyBlock (contents key keyLen)).map (· ^^^ 0x36) ++ contents data 64) := by
  rw [innerHash, ← paddedKey_eq key h]
  exact hashTwo_eq _ data (length_paddedKey key keyLen 0x36)

variable {data} in
/-- **Only the first block** of the data is hashed. -/
theorem compute_congr {data' : ℕ → U8} (h : ∀ i < 64, data i = data' i) :
    compute key keyLen data dataLen stack = compute key keyLen data' dataLen stack := by
  have hread : read .data data 64 = read .data data' 64 := by
    rw [read, read, List.map_congr_left fun i hi => h i (List.mem_range.mp hi)]
  rw [compute, compute, hread]

variable {data} in
/-- What is changed behind the first block passes the check. -/
theorem verify_of_agree {data' : ℕ → U8} (h : ∀ i < 64, data i = data' i) :
    ((verify key keyLen data' dataLen ((compute key keyLen data dataLen stack).run []).1
      stack).run []).1 = true := by
  have hrun : ((verify key keyLen data' dataLen ((compute key keyLen data dataLen stack).run []).1
      stack).run []).1 = (((compute key keyLen data' dataLen stack).run []).1 ==
        ((compute key keyLen data dataLen stack).run []).1) := rfl
  rw [hrun, compute_congr key keyLen dataLen stack h]
  exact beq_self_eq_true _

/-! ### The result -/

/-- **Never correct**: the outer hash always reads behind the inner one. -/
theorem not_correct : ¬ Correct key keyLen data dataLen stack := by
  intro h
  obtain ⟨hmem, hstray⟩ := (strays_iff key keyLen data dataLen stack ⟨.innerHash, 32⟩).mpr
    (Or.inr ⟨rfl, Nat.le_refl _, by decide⟩)
  exact hstray (h.inside _ hmem)

end

def shortKey : List U8 := [0x4a, 0x65, 0x66, 0x65]

def shortData : List U8 :=
  [0x77, 0x68, 0x61, 0x74, 0x20, 0x64, 0x6f, 0x20, 0x79, 0x61, 0x20, 0x77, 0x61, 0x6e,
    0x74, 0x20, 0x66, 0x6f, 0x72, 0x20, 0x6e, 0x6f, 0x74, 0x68, 0x69, 0x6e, 0x67, 0x3f]

/-- A key of 4 bytes and data of 28 bytes, with zeros behind them and on the stack. -/
theorem compute_example_ne :
    ((compute (bufferOf shortKey) 4 (bufferOf shortData) 28 fun _ => 0).run []).1 ≠
        SHA256.hmac (contents (bufferOf shortKey) 4) (contents (bufferOf shortData) 28) ∧
      ¬ Correct (bufferOf shortKey) 4 (bufferOf shortData) 28 fun _ => 0 := by
  have hne : ((compute (bufferOf shortKey) 4 (bufferOf shortData) 28 fun _ => 0).run []).1 ≠
      SHA256.hmac (contents (bufferOf shortKey) 4) (contents (bufferOf shortData) 28) := by
    decide +kernel
  exact ⟨hne, fun h => hne h.tag_eq⟩

end MesaOS.FS.Crypto
