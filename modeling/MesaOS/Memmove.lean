/-
`memmove` (`libc/string.cpp`).

A byte is stored at a time, from the front when the destination is below the source and from
the back when it is above, so that no byte of the source is overwritten before it is read.

* `Moved.store` — what one store adds to the part that has been copied, in either direction;
* `memmove_apply`, `memmove_outside` — the bytes at the destination, and all the others;
* `holds_memmove` — the same for an array of 16-bit cells in memory, which is what
  `VGADriver::scroll` moves.
-/
import Mathlib.Logic.Function.Basic
import MesaOS.CheckedArray
import MesaOS.MachineWord

open MachineWord

namespace MesaOS.Libc

/-- The address `i` bytes behind a pointer. -/
def place (p : U32) (i : ℕ) : U32 := p + BitVec.ofNat 32 i

/-- `for (size_t i = 0; i < n; i++) d[i] = s[i];` -/
def copyForward (d s : U32) : ℕ → (U32 → U8) → U32 → U8
  | 0, mem => mem
  | i + 1, mem =>
    let mem := copyForward d s i mem
    Function.update mem (place d i) (mem (place s i))

/-- `for (size_t i = n; i > 0; i--) d[i - 1] = s[i - 1];` -/
def copyBackward (d s : U32) : ℕ → (U32 → U8) → U32 → U8
  | 0, mem => mem
  | i + 1, mem => copyBackward d s i (Function.update mem (place d i) (mem (place s i)))

/-- `memmove`: the memory behind it, and what it returns. -/
def memmove (mem : U32 → U8) (dest src n : U32) : (U32 → U8) × U32 :=
  if dest < src then (copyForward dest src n.toNat mem, dest)
  else if dest > src then (copyBackward dest src n.toNat mem, dest)
  else (mem, dest)

/-! ### Addresses -/

theorem toNat_place {p : U32} {i : ℕ} (h : p.toNat + i < 2 ^ 32) :
    (place p i).toNat = p.toNat + i := by
  rw [place, BitVec.toNat_add, BitVec.toNat_ofNat, Nat.mod_eq_of_lt (show i < 2 ^ 32 by omega),
    Nat.mod_eq_of_lt h]

theorem place_ne {p q : U32} {i j : ℕ} (hi : p.toNat + i < 2 ^ 32) (hj : q.toNat + j < 2 ^ 32)
    (h : p.toNat + i ≠ q.toNat + j) : place p i ≠ place q j := by
  intro heq
  have htoNat := congrArg BitVec.toNat heq
  rw [toNat_place hi, toNat_place hj] at htoNat
  exact h htoNat

/-! ### What has been copied -/

/-- The bytes from `lo` to `hi` have been copied, and nothing else has changed. -/
structure Moved (mem mem' : U32 → U8) (d s : U32) (lo hi : ℕ) : Prop where
  copied : ∀ i, lo ≤ i → i < hi → mem' (place d i) = mem (place s i)
  frame : ∀ a, (∀ i, lo ≤ i → i < hi → a ≠ place d i) → mem' a = mem a

variable {mem mem' : U32 → U8} {d s : U32} {lo hi lo' hi' k n : ℕ}

theorem Moved.refl (mem : U32 → U8) (d s : U32) (k : ℕ) : Moved mem mem d s k k :=
  ⟨fun _ hlo hhi => absurd hhi (Nat.not_lt.mpr hlo), fun _ _ => rfl⟩

/-- One more byte, whose source has not been overwritten. -/
theorem Moved.store (h : Moved mem mem' d s lo hi)
    (hk : ∀ i, lo' ≤ i ∧ i < hi' ↔ lo ≤ i ∧ i < hi ∨ i = k)
    (hnew : ∀ i, lo ≤ i → i < hi → place d i ≠ place d k)
    (hsource : ∀ i, lo ≤ i → i < hi → place s k ≠ place d i) :
    Moved mem (Function.update mem' (place d k) (mem' (place s k))) d s lo' hi' where
  copied := fun i hlo hhi => by
    rcases (hk i).mp ⟨hlo, hhi⟩ with ⟨hlo, hhi⟩ | rfl
    · rw [Function.update_of_ne (hnew i hlo hhi)]
      exact h.copied i hlo hhi
    · rw [Function.update_self]
      exact h.frame _ hsource
  frame := fun a ha => by
    have hinside := (hk k).mpr (.inr rfl)
    rw [Function.update_of_ne (ha k hinside.1 hinside.2)]
    refine h.frame a fun i hlo hhi => ?_
    have hi := (hk i).mpr (.inl ⟨hlo, hhi⟩)
    exact ha i hi.1 hi.2

/-- Below the source, the bytes that are still to be read lie above those that are written. -/
theorem moved_copyForward (mem : U32 → U8) (hd : d.toNat + n ≤ 2 ^ 32) (hs : s.toNat + n ≤ 2 ^ 32)
    (hlt : d < s) : Moved mem (copyForward d s n mem) d s 0 n := by
  have hds : d.toNat < s.toNat := BitVec.lt_def.mp hlt
  induction n with
  | zero => exact Moved.refl mem d s 0
  | succ k ih =>
    refine (ih (by omega) (by omega)).store (k := k) (fun i => by omega) ?_ ?_
    · intro i _ hi
      exact place_ne (by omega) (by omega) (by omega)
    · intro i _ hi
      exact place_ne (by omega) (by omega) (by omega)

/-- Above it they lie below them. -/
theorem moved_copyBackward (hmoved : Moved mem mem' d s k n) (hk : k ≤ n)
    (hd : d.toNat + n ≤ 2 ^ 32) (hlt : s < d) :
    Moved mem (copyBackward d s k mem') d s 0 n := by
  have hsd : s.toNat < d.toNat := BitVec.lt_def.mp hlt
  induction k generalizing mem' with
  | zero => exact hmoved
  | succ k ih =>
    refine ih (hmoved.store (k := k) (fun i => by omega) ?_ ?_) (by omega)
    · intro i hi hin
      exact place_ne (by omega) (by omega) (by omega)
    · intro i hi hin
      exact place_ne (by omega) (by omega) (by omega)

/-- Where the two pointers are the same, the bytes are in place. -/
theorem moved_self (mem : U32 → U8) (p : U32) (n : ℕ) : Moved mem mem p p 0 n :=
  ⟨fun _ _ _ => rfl, fun _ _ => rfl⟩

theorem moved_memmove (mem : U32 → U8) {dest src n : U32} (hdest : dest.toNat + n.toNat ≤ 2 ^ 32)
    (hsrc : src.toNat + n.toNat ≤ 2 ^ 32) :
    Moved mem (memmove mem dest src n).1 dest src 0 n.toNat := by
  rw [memmove]
  by_cases hlt : dest < src
  · rw [if_pos hlt]
    exact moved_copyForward mem hdest hsrc hlt
  rw [if_neg hlt]
  by_cases hgt : dest > src
  · rw [if_pos hgt]
    exact moved_copyBackward (Moved.refl mem dest src n.toNat) (Nat.le_refl _) hdest hgt
  · rw [if_neg hgt]
    have heq : dest = src := BitVec.le_antisymm (BitVec.not_lt.mp hgt) (BitVec.not_lt.mp hlt)
    rw [heq]
    exact moved_self mem src n.toNat

/-! ### The ranges -/

section

variable (mem) {dest src n : U32} (hdest : dest.toNat + n.toNat ≤ 2 ^ 32)
  (hsrc : src.toNat + n.toNat ≤ 2 ^ 32)

include hdest hsrc

theorem memmove_apply {i : ℕ} (hi : i < n.toNat) :
    (memmove mem dest src n).1 (place dest i) = mem (place src i) :=
  (moved_memmove mem hdest hsrc).copied i (Nat.zero_le i) hi

theorem memmove_outside {a : U32} (ha : a.toNat < dest.toNat ∨ dest.toNat + n.toNat ≤ a.toNat) :
    (memmove mem dest src n).1 a = mem a := by
  refine (moved_memmove mem hdest hsrc).frame a fun i _ hi heq => ?_
  have htoNat := toNat_place (p := dest) (i := i) (by omega)
  rw [← heq] at htoNat
  omega

/-- **`memmove` copies**, however the two ranges overlap. -/
theorem memmove_copies :
    (∀ i < n.toNat, (memmove mem dest src n).1 (place dest i) = mem (place src i)) ∧
      ∀ a : U32, (a.toNat < dest.toNat ∨ dest.toNat + n.toNat ≤ a.toNat) →
        (memmove mem dest src n).1 a = mem a :=
  ⟨fun _ hi => memmove_apply mem hdest hsrc hi, fun _ ha => memmove_outside mem hdest hsrc ha⟩

end

/-- Three bytes that are moved up by one. -/
theorem memmove_copies_overlap :
    let mem : U32 → U8 := fun a => a.setWidth 8
    (∀ i < (3 : U32).toNat, (memmove mem 1 0 3).1 (place 1 i) = mem (place 0 i)) ∧
      ∀ a : U32, (a.toNat < (1 : U32).toNat ∨ (1 : U32).toNat + (3 : U32).toNat ≤ a.toNat) →
        (memmove mem 1 0 3).1 a = mem a :=
  memmove_copies _ (by decide) (by decide)

/-! ### Cells of 16 bits -/

/-- The array lies in memory, each cell with its low byte first. -/
def Holds {n : ℕ} (mem : U32 → U8) (base : U32) (a : Fin n → U16) : Prop :=
  ∀ i : Fin n, mem (place base (2 * i)) = (a i).extractLsb' 0 8 ∧
    mem (place base (2 * i + 1)) = (a i).extractLsb' 8 8

theorem place_place (p : U32) (i j : ℕ) : place (place p i) j = place p (i + j) := by
  rw [place, place, place, BitVec.ofNat_add, BitVec.add_assoc]

/-- Moving bytes within an array, by their offsets in it. -/
theorem memmove_offset (mem : U32 → U8) {base : U32} {dst src size i : ℕ}
    (hdst : base.toNat + dst + size < 2 ^ 32) (hsrc : base.toNat + src + size < 2 ^ 32)
    (hi : base.toNat + i < 2 ^ 32) :
    (memmove mem (place base dst) (place base src) (BitVec.ofNat 32 size)).1 (place base i) =
      if dst ≤ i ∧ i < dst + size then mem (place base (src + (i - dst)))
      else mem (place base i) := by
  have hsize : (BitVec.ofNat 32 size).toNat = size := by
    rw [BitVec.toNat_ofNat, Nat.mod_eq_of_lt (by omega)]
  have hd : (place base dst).toNat = base.toNat + dst := toNat_place (by omega)
  have hs : (place base src).toNat = base.toNat + src := toNat_place (by omega)
  have hdwrap : (place base dst).toNat + (BitVec.ofNat 32 size).toNat ≤ 2 ^ 32 := by
    rw [hd, hsize]
    exact Nat.le_of_lt hdst
  have hswrap : (place base src).toNat + (BitVec.ofNat 32 size).toNat ≤ 2 ^ 32 := by
    rw [hs, hsize]
    exact Nat.le_of_lt hsrc
  by_cases hinside : dst ≤ i ∧ i < dst + size
  · have happly := memmove_apply mem hdwrap hswrap (i := i - dst) (by rw [hsize]; omega)
    rw [place_place, place_place, Nat.add_sub_cancel' hinside.1] at happly
    rw [if_pos hinside, happly]
  · rw [if_neg hinside]
    refine memmove_outside mem hdwrap hswrap ?_
    rw [hd, hsize, toNat_place hi]
    omega

/-- **Moving cells of an array** is moving the bytes that they lie in. -/
theorem holds_memmove {a b : Fin n → U16} {base : U32} (hbase : base.toNat + 2 * n < 2 ^ 32)
    (h : Holds mem base a) {dst src count : ℕ}
    (hb : CheckedArray.memmove a dst src count = some b) :
    Holds (memmove mem (place base (2 * dst)) (place base (2 * src))
      (BitVec.ofNat 32 (2 * count))).1 base b := by
  rw [CheckedArray.memmove] at hb
  split at hb
  next hin =>
    obtain ⟨hdst, hsrc⟩ := hin
    rw [Option.some_inj] at hb
    intro i
    have hi := i.isLt
    -- the low byte of the cell and its high byte
    rw [memmove_offset mem (by omega) (by omega) (by omega),
      memmove_offset mem (by omega) (by omega) (by omega), ← hb]
    dsimp only
    by_cases hinside : dst ≤ i ∧ i < dst + count
    · -- both bytes come from one cell
      have hlow : 2 * src + (2 * i - 2 * dst) = 2 * (src + (i - dst)) := by omega
      have hhigh : 2 * src + (2 * i + 1 - 2 * dst) = 2 * (src + (i - dst)) + 1 := by omega
      rw [if_pos (by omega), if_pos (by omega), dif_pos hinside, hlow, hhigh]
      exact h ⟨src + (i - dst), by omega⟩
    · rw [if_neg (by omega), if_neg (by omega), dif_neg hinside]
      exact h i
  next => exact absurd hb (Option.some_ne_none b).symm

end MesaOS.Libc
