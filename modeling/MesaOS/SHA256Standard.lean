/-
The hash function SHA-256 and the message authentication code built on it, as the
standards define them.

The constants are the leading bits of the fractional parts of roots of primes.
A message is padded to whole blocks of 64 bytes, which are absorbed one after the
other.

* `hash_of_blocks` — a message of whole blocks is followed by one block of padding
  of its own, so its hash needs one further compression.
-/
import Mathlib.Data.Nat.NthRoot.Defs
import MesaOS.NetworkOrder

open MachineWord NetworkOrder

namespace SHA256

/-- The first 64 primes.  What is composite and below `19 ^ 2` has a prime factor below 19. -/
def primes : List ℕ := (List.range 312).filter fun p =>
  1 < p && [2, 3, 5, 7, 11, 13, 17].all fun d => p % d ≠ 0 || p = d

/-- The 32 bits after the point of the cube root of prime `t`. -/
def roundConstant (t : ℕ) : U32 := BitVec.ofNat 32 (Nat.nthRoot 3 (primes.getD t 0 * 2 ^ 96))

/-- The 32 bits after the point of the square root of prime `t`. -/
def initialWord (t : ℕ) : U32 := BitVec.ofNat 32 (Nat.nthRoot 2 (primes.getD t 0 * 2 ^ 64))

/-- The eight words of a hash value, which also are the working variables. -/
structure State where
  a : U32
  b : U32
  c : U32
  d : U32
  e : U32
  f : U32
  g : U32
  h : U32
deriving DecidableEq

/-- The state with the words `w`. -/
def State.ofWords (w : ℕ → U32) : State := ⟨w 0, w 1, w 2, w 3, w 4, w 5, w 6, w 7⟩

def State.words (s : State) : List U32 := [s.a, s.b, s.c, s.d, s.e, s.f, s.g, s.h]

def initialState : State := .ofWords initialWord

/-! ### The compression function -/

def choose (x y z : U32) : U32 := (x &&& y) ^^^ (~~~x &&& z)

def majority (x y z : U32) : U32 := (x &&& y) ^^^ (x &&& z) ^^^ (y &&& z)

def bigSigma0 (x : U32) : U32 := x.rotateRight 2 ^^^ x.rotateRight 13 ^^^ x.rotateRight 22

def bigSigma1 (x : U32) : U32 := x.rotateRight 6 ^^^ x.rotateRight 11 ^^^ x.rotateRight 25

def smallSigma0 (x : U32) : U32 := x.rotateRight 7 ^^^ x.rotateRight 18 ^^^ x >>> 3

def smallSigma1 (x : U32) : U32 := x.rotateRight 17 ^^^ x.rotateRight 19 ^^^ x >>> 10

/-- The first `16 + n` words of the message schedule. -/
def schedule (block : ℕ → U8) : ℕ → List U32
  | 0 => (List.range 16).map fun t => be32 block (4 * t)
  | n + 1 =>
    let w := schedule block n
    w ++ [smallSigma1 (w.getD (n + 14) 0) + w.getD (n + 9) 0 + smallSigma0 (w.getD (n + 1) 0) +
      w.getD n 0]

/-- One round, with a round constant and a word of the schedule. -/
def round (s : State) (k w : U32) : State :=
  let t1 := s.h + bigSigma1 s.e + choose s.e s.f s.g + k + w
  let t2 := bigSigma0 s.a + majority s.a s.b s.c
  { a := t1 + t2, b := s.a, c := s.b, d := s.c, e := s.d + t1, f := s.e, g := s.f, h := s.g }

/-- The working variables after `n` rounds. -/
def rounds (w : List U32) (s : State) : ℕ → State
  | 0 => s
  | n + 1 => round (rounds w s n) (roundConstant n) (w.getD n 0)

def State.add (s t : State) : State where
  a := s.a + t.a
  b := s.b + t.b
  c := s.c + t.c
  d := s.d + t.d
  e := s.e + t.e
  f := s.f + t.f
  g := s.g + t.g
  h := s.h + t.h

/-- **The compression function.** -/
def compress (s : State) (block : ℕ → U8) : State := s.add (rounds (schedule block 48) s 64)

/-! ### Messages -/

/-- A 64-bit number as eight bytes, high byte first. -/
def be64 (x : BitVec 64) : List U8 := (List.range 8).map fun i => x.extractLsb' (56 - 8 * i) 8

/-- A one bit, zeros up to the last eight bytes of a block, and the number of bits before. -/
def padding (n : ℕ) : List U8 :=
  0x80 :: (List.replicate ((119 - n % 64) % 64) 0 ++ be64 (BitVec.ofNat 64 (8 * n)))

/-- The state after the first `n` blocks of a message. -/
def absorb (message : List U8) : ℕ → State
  | 0 => initialState
  | n + 1 => compress (absorb message n) fun i => bufferOf message (64 * n + i)

/-- The bytes of a hash value. -/
def State.bytes (s : State) : List U8 :=
  s.words.flatMap fun x => (List.range 4).map fun i => x.extractLsb' (24 - 8 * i) 8

/-- **The hash** of a message. -/
def hash (message : List U8) : List U8 :=
  let padded := message ++ padding message.length
  (absorb padded (padded.length / 64)).bytes

/-- The key as one block: zeros follow it, and a long one is hashed first. -/
def keyBlock (key : List U8) : List U8 :=
  let key := if key.length ≤ 64 then key else hash key
  key ++ List.replicate (64 - key.length) 0

/-- **The authentication code** of a message under a key. -/
def hmac (key message : List U8) : List U8 :=
  let inner := hash ((keyBlock key).map (· ^^^ 0x36) ++ message)
  hash ((keyBlock key).map (· ^^^ 0x5c) ++ inner)

/-! ### What the compression function depends on -/

theorem schedule_congr {d d' : ℕ → U8} (h : ∀ i < 64, d i = d' i) (n : ℕ) :
    schedule d n = schedule d' n := by
  induction n with
  | zero =>
    refine List.map_congr_left fun t ht => ?_
    have ht := List.mem_range.mp ht
    rw [be32, be32, h _ (by omega), h _ (by omega), h _ (by omega), h _ (by omega)]
  | succ n ih => rw [schedule, schedule, ih]

theorem compress_congr (s : State) {d d' : ℕ → U8} (h : ∀ i < 64, d i = d' i) :
    compress s d = compress s d' := by
  rw [compress, compress, schedule_congr h]

/-! ### Messages of whole blocks -/

theorem length_padding (n : ℕ) : (padding n).length = 9 + (119 - n % 64) % 64 := by
  simp [padding, be64]
  omega

/-- The blocks of a message do not depend on what follows them. -/
theorem absorb_append (message after : List U8) {n : ℕ} (h : 64 * n ≤ message.length) :
    absorb (message ++ after) n = absorb message n := by
  induction n with
  | zero => rfl
  | succ n ih =>
    rw [absorb, absorb, ih (by omega)]
    exact compress_congr _ fun i hi => bufferOf_append_left _ _ (by omega)

/-- **A message of whole blocks** is followed by a block of padding. -/
theorem hash_of_blocks {message : List U8} {n : ℕ} (h : message.length = 64 * n) :
    hash message = (compress (absorb message n) (bufferOf (padding message.length))).bytes := by
  have hlength : (message ++ padding message.length).length = 64 * (n + 1) := by
    rw [List.length_append, length_padding, h]
    omega
  have hlast : (fun i => bufferOf (message ++ padding message.length) (64 * n + i)) =
      bufferOf (padding message.length) := by
    funext i
    rw [← h, bufferOf_append]
  rw [hash, hlength, Nat.mul_div_cancel_left _ (by decide), absorb, absorb_append _ _ (by omega), hlast]

end SHA256
