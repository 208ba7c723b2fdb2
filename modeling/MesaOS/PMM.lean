/-
The physical memory manager (`memory/pmm.cpp`).

A bitmap with one bit per 4096-byte block, set when the block is used.  The
model keeps the bitmap as the code does, as 32-bit words, and every later
module sees it only through `marked s b` — "block `b` is marked used":

* `testBlock_eq`, `marked_setBlock`, `marked_unsetBlock`, `marked_freeBlock` —
  the one-block operations;
* `allocateBlock_cases` — `allocateBlock` hands out the lowest unmarked block of
  the words it scans, or leaves the state alone when there is none;
* `initializePMM_spec` — after `initializePMM` every block is marked.

The scan stops at the last whole bitmap word, so the blocks from `scanned s` on
are never handed out.
-/
import MesaOS.Bitmap

open MachineWord

namespace MesaOS.Memory

def blockSize : U32 := 4096

def blocksPerBucket : U32 := 32

/-- The static members of the class.  A block address fits 32 bits, so there are
fewer than `2 ^ 20` blocks. -/
structure PMM where
  /-- where the bitmap lies; the null pointer before `initializePMM` -/
  bitmap : U32
  /-- `bitmap[i]` -/
  words : ℕ → U32
  maxBlocks : U32
  usedBlocks : U32
  maxBlocks_lt : maxBlocks.toNat < 2 ^ 20

namespace PMM

def testBlock (s : PMM) (bit : U32) : Bool :=
  if s.bitmap = 0#32 ∨ bit ≥ s.maxBlocks then false
  else decide (s.words (bit / blocksPerBucket).toNat &&&
    (1#32 <<< (bit % blocksPerBucket).toNat) ≠ 0#32)

def setBlock (s : PMM) (bit : U32) : PMM :=
  if s.bitmap = 0#32 ∨ bit ≥ s.maxBlocks then s
  else if !s.testBlock bit then
    { s with
      words := Bitmap.putWord s.words (bit / blocksPerBucket).toNat
        (s.words (bit / blocksPerBucket).toNat ||| (1#32 <<< (bit % blocksPerBucket).toNat))
      usedBlocks := s.usedBlocks + 1 }
  else s

def unsetBlock (s : PMM) (bit : U32) : PMM :=
  if s.bitmap = 0#32 ∨ bit ≥ s.maxBlocks then s
  else if s.testBlock bit then
    { s with
      words := Bitmap.putWord s.words (bit / blocksPerBucket).toNat
        (s.words (bit / blocksPerBucket).toNat &&& ~~~(1#32 <<< (bit % blocksPerBucket).toNat))
      usedBlocks := s.usedBlocks - 1 }
  else s

/-- The `int` result, with `none` for `-1`. -/
def firstFreeBlock (s : PMM) : Option U32 :=
  if s.bitmap = 0#32 ∨ s.maxBlocks = 0#32 then none
  else
    (List.range (s.maxBlocks / blocksPerBucket).toNat).findSome? fun i =>
      if s.words i ≠ 0xFFFFFFFF#32 then
        (List.range blocksPerBucket.toNat).findSome? fun j =>
          if s.words i &&& (1#32 <<< j) = 0#32 then
            let block := BitVec.ofNat 32 i * blocksPerBucket + BitVec.ofNat 32 j
            if block < s.maxBlocks then some block else none
          else none
      else none

/-- The new state and the returned pointer; `0` is the null pointer. -/
def allocateBlock (s : PMM) : PMM × U32 :=
  if s.bitmap = 0#32 then (s, 0#32)
  else
    match s.firstFreeBlock with
    | none => (s, 0#32)
    | some freeBlock =>
      if freeBlock ≥ s.maxBlocks then (s, 0#32)
      else (s.setBlock freeBlock, freeBlock * blockSize)

def freeBlock (s : PMM) (addr : U32) : PMM :=
  if addr = 0#32 ∨ s.bitmap = 0#32 then s
  else if addr % blockSize ≠ 0#32 then s
  else if addr / blockSize ≥ s.maxBlocks then s
  else s.unsetBlock (addr / blockSize)

/-- `memset(bitmap, 0xFF, n)`, seen as words: the first `n` bytes become `0xFF`. -/
def fillBytes (ws : ℕ → U32) (n : ℕ) : ℕ → U32 :=
  fun i => ws i ||| lowMask 32 (8 * min 4 (n - 4 * i))

theorem div_blockSize_lt (size : U32) : (size / blockSize).toNat < 2 ^ 20 := by
  have : size.toNat < 2 ^ 32 := size.isLt
  rw [BitVec.toNat_udiv, show blockSize.toNat = 4096 from rfl]
  omega

/-- `memory` is what the words at `startAddr` hold before the call. -/
def initializePMM (s : PMM) (memory : ℕ → U32) (startAddr size : U32) : PMM :=
  if startAddr = 0#32 ∨ size < blockSize then s
  else
    let maxBlocks := size / blockSize
    let filled : PMM :=
      { bitmap := startAddr
        words := fillBytes memory ((maxBlocks + 7) / 8).toNat
        maxBlocks := maxBlocks
        usedBlocks := maxBlocks
        maxBlocks_lt := div_blockSize_lt size }
    let bitmapBlocks := (maxBlocks + blocksPerBucket - 1) / blocksPerBucket
    let bitmapStartBlock := startAddr / blockSize
    (List.range bitmapBlocks.toNat).foldl
      (fun t i =>
        if bitmapStartBlock + BitVec.ofNat 32 i < t.maxBlocks then
          t.setBlock (bitmapStartBlock + BitVec.ofNat 32 i)
        else t)
      filled

/-- A memory of 512 KiB has few enough blocks. -/
theorem toNat_128_lt : (128 : U32).toNat < 2 ^ 20 := by decide

/-- The static members before any call. -/
def unset : PMM :=
  { bitmap := 0, words := fun _ => 0, maxBlocks := 0, usedBlocks := 0
    maxBlocks_lt := by decide }

/-! ### Blocks marked used -/

/-- Block `b` is marked used. -/
def marked (s : PMM) (b : ℕ) : Bool :=
  decide (s.bitmap ≠ 0#32) && decide (b < s.maxBlocks.toNat) && Bitmap.test s.words b

/-- The number of blocks `firstFreeBlock` looks at. -/
def scanned (s : PMM) : ℕ := s.maxBlocks.toNat / 32 * 32

theorem scanned_le (s : PMM) : s.scanned ≤ s.maxBlocks.toNat := Nat.div_mul_le_self _ _

theorem toNat_div_bucket (bit : U32) : (bit / blocksPerBucket).toNat = bit.toNat / 32 := by
  rw [BitVec.toNat_udiv]; rfl

theorem toNat_mod_bucket (bit : U32) : (bit % blocksPerBucket).toNat = bit.toNat % 32 := by
  rw [BitVec.toNat_umod]; rfl

theorem testBlock_eq (s : PMM) (bit : U32) : s.testBlock bit = s.marked bit.toNat := by
  rw [testBlock, marked, toNat_div_bucket, toNat_mod_bucket]
  by_cases h0 : s.bitmap = 0#32
  · simp [h0]
  by_cases hmax : bit ≥ s.maxBlocks
  · have hge : ¬ bit.toNat < s.maxBlocks.toNat := Nat.not_lt.mpr (BitVec.le_def.mp hmax)
    simp [hmax, hge]
  · have hlt : bit.toNat < s.maxBlocks.toNat := by
      rw [BitVec.not_le] at hmax
      exact BitVec.lt_def.mp hmax
    rw [if_neg (by simp [h0, hmax]), Bitmap.test]
    have hb : bit.toNat % 32 < 32 := Nat.mod_lt _ (by decide)
    have hbit := and_twoPow_ne_zero_iff (s.words (bit.toNat / 32)) hb
    rw [BitVec.twoPow_eq] at hbit
    rw [decide_eq_true h0, decide_eq_true hlt, Bool.true_and, Bool.true_and, Bool.eq_iff_iff,
      decide_eq_true_eq]
    exact hbit

theorem marked_setBlock (s : PMM) (bit : U32) (b : ℕ) :
    (s.setBlock bit).marked b =
      (s.marked b || (decide (b = bit.toNat) && decide (s.bitmap ≠ 0#32) &&
        decide (b < s.maxBlocks.toNat))) := by
  rw [setBlock]
  by_cases h0 : s.bitmap = 0#32
  · simp [h0, marked]
  by_cases hmax : bit ≥ s.maxBlocks
  · rw [if_pos (Or.inr hmax)]
    have hge : s.maxBlocks.toNat ≤ bit.toNat := BitVec.le_def.mp hmax
    by_cases hb : b = bit.toNat
    · simp [hb, Nat.not_lt.mpr hge]
    · simp [hb]
  rw [if_neg (by simp [h0, hmax]), testBlock_eq]
  cases ht : s.marked bit.toNat with
  | true =>
    by_cases hb : b = bit.toNat
    · simp [hb, ht]
    · simp [hb]
  | false =>
    have hset := Bitmap.test_set (w := 32) (by decide) s.words bit.toNat b
    rw [Bitmap.set, BitVec.twoPow_eq] at hset
    simp only [Bool.not_false, if_true, marked, toNat_div_bucket, toNat_mod_bucket]
    rw [hset]
    by_cases hb : b = bit.toNat
    · simp only [hb, decide_true, Bool.true_or, Bool.and_true, Bool.true_and]
      exact (Bool.or_eq_right_iff_imp.mpr fun h => (Bool.and_eq_true_iff.mp h).1).symm
    · simp [hb]

/-- A block out of range or marked already. -/
theorem setBlock_eq_self {s : PMM} {bit : U32}
    (h : s.bitmap = 0#32 ∨ s.maxBlocks ≤ bit ∨ s.marked bit.toNat = true) :
    s.setBlock bit = s := by
  rw [setBlock, testBlock_eq]
  by_cases hreject : s.bitmap = 0#32 ∨ bit ≥ s.maxBlocks
  · rw [if_pos hreject]
  · rw [if_neg hreject]
    rw [not_or] at hreject
    rcases h with h0 | hmax | hm
    · exact absurd h0 hreject.1
    · exact absurd hmax hreject.2
    · simp [hm]

theorem marked_unsetBlock (s : PMM) (bit : U32) (b : ℕ) :
    (s.unsetBlock bit).marked b = (decide (b ≠ bit.toNat) && s.marked b) := by
  rw [unsetBlock]
  by_cases h0 : s.bitmap = 0#32
  · simp [h0, marked]
  by_cases hmax : bit ≥ s.maxBlocks
  · rw [if_pos (Or.inr hmax)]
    have hge : s.maxBlocks.toNat ≤ bit.toNat := BitVec.le_def.mp hmax
    by_cases hb : b = bit.toNat
    · simp [hb, marked, Nat.not_lt.mpr hge]
    · simp [hb]
  rw [if_neg (by simp [h0, hmax]), testBlock_eq]
  cases ht : s.marked bit.toNat with
  | false =>
    by_cases hb : b = bit.toNat
    · simp [hb, ht]
    · simp [hb]
  | true =>
    have hclear := Bitmap.test_clear (w := 32) (by decide) s.words bit.toNat b
    rw [Bitmap.clear, BitVec.twoPow_eq] at hclear
    simp only [if_true, marked, toNat_div_bucket, toNat_mod_bucket]
    rw [hclear]
    by_cases hb : b = bit.toNat
    · simp [hb]
    · simp [hb]

@[simp] theorem setBlock_bitmap (s : PMM) (bit : U32) : (s.setBlock bit).bitmap = s.bitmap := by
  unfold setBlock; split <;> try split
  all_goals rfl

@[simp] theorem setBlock_maxBlocks (s : PMM) (bit : U32) :
    (s.setBlock bit).maxBlocks = s.maxBlocks := by
  unfold setBlock; split <;> try split
  all_goals rfl

@[simp] theorem unsetBlock_bitmap (s : PMM) (bit : U32) :
    (s.unsetBlock bit).bitmap = s.bitmap := by
  unfold unsetBlock; split <;> try split
  all_goals rfl

@[simp] theorem unsetBlock_maxBlocks (s : PMM) (bit : U32) :
    (s.unsetBlock bit).maxBlocks = s.maxBlocks := by
  unfold unsetBlock; split <;> try split
  all_goals rfl

@[simp] theorem freeBlock_bitmap (s : PMM) (addr : U32) :
    (s.freeBlock addr).bitmap = s.bitmap := by
  unfold freeBlock; split <;> try split <;> try split
  all_goals simp

@[simp] theorem freeBlock_maxBlocks (s : PMM) (addr : U32) :
    (s.freeBlock addr).maxBlocks = s.maxBlocks := by
  unfold freeBlock; split <;> try split <;> try split
  all_goals simp

theorem lt_of_marked {s : PMM} {b : ℕ} (h : s.marked b = true) : b < s.maxBlocks.toNat := by
  simp only [marked, Bool.and_eq_true, decide_eq_true_eq] at h
  exact h.1.2

theorem bitmap_of_marked {s : PMM} {b : ℕ} (h : s.marked b = true) : s.bitmap ≠ 0#32 := by
  simp only [marked, Bool.and_eq_true, decide_eq_true_eq] at h
  exact h.1.1

/-- Freeing a page-aligned, non-null address unmarks its block and no other. -/
theorem marked_freeBlock (s : PMM) (addr : U32) (b : ℕ) :
    (s.freeBlock addr).marked b =
      (s.marked b && !(decide (addr ≠ 0#32) && decide (addr.toNat = b * 4096))) := by
  have hdvd : (addr % blockSize).toNat = addr.toNat % 4096 := by rw [BitVec.toNat_umod]; rfl
  have hdiv : (addr / blockSize).toNat = addr.toNat / 4096 := by rw [BitVec.toNat_udiv]; rfl
  rw [freeBlock]
  by_cases h0 : addr = 0#32
  · simp [h0]
  by_cases hm : s.bitmap = 0#32
  · simp [hm, marked]
  rw [if_neg (by simp [h0, hm])]
  by_cases hal : addr % blockSize ≠ 0#32
  · rw [if_pos hal]
    have hne : addr.toNat ≠ b * 4096 := by
      intro heq
      refine hal (BitVec.eq_of_toNat_eq ?_)
      rw [hdvd, heq]
      simp
    simp [hne]
  rw [if_neg hal]
  rw [not_not] at hal
  have hal' : addr.toNat % 4096 = 0 := by rw [← hdvd, hal]; rfl
  by_cases hmax : addr / blockSize ≥ s.maxBlocks
  · rw [if_pos hmax]
    have hge : s.maxBlocks.toNat ≤ addr.toNat / 4096 := hdiv ▸ BitVec.le_def.mp hmax
    by_cases hb : addr.toNat = b * 4096
    · have : ¬ b < s.maxBlocks.toNat := by omega
      simp [marked, this]
    · simp [hb]
  · rw [if_neg hmax, marked_unsetBlock, hdiv, Bool.and_comm]
    congr 1
    by_cases hb : addr.toNat = b * 4096
    · simp [h0, hb]
    · have : b ≠ addr.toNat / 4096 := by omega
      simp [hb, this]

/-! ### Allocation -/

theorem toNat_block {i j n : ℕ} (hj : j < 32) (hn : i * 32 + j < n) (hmax : n < 2 ^ 20) :
    (BitVec.ofNat 32 i * blocksPerBucket + BitVec.ofNat 32 j).toNat = i * 32 + j := by
  rw [BitVec.toNat_add, BitVec.toNat_mul, BitVec.toNat_ofNat, BitVec.toNat_ofNat,
    show blocksPerBucket.toNat = 32 from rfl]
  omega

theorem toNat_allocated {s : PMM} {b : ℕ} (hb : b < s.maxBlocks.toNat) :
    (BitVec.ofNat 32 b * blockSize).toNat = b * 4096 := by
  have := s.maxBlocks_lt
  rw [BitVec.toNat_mul, BitVec.toNat_ofNat, show blockSize.toNat = 4096 from rfl]
  omega

/-- The search of the code is the search for the first clear bit. -/
theorem firstFreeBlock_eq (s : PMM) (h0 : s.bitmap ≠ 0#32) :
    s.firstFreeBlock =
      (Bitmap.firstClear s.words (s.maxBlocks.toNat / 32)).map (BitVec.ofNat 32) := by
  rw [firstFreeBlock]
  by_cases hmax : s.maxBlocks = 0#32
  · simp [hmax, Bitmap.firstClear]
  rw [if_neg (by simp [h0, hmax]), Bitmap.firstClear, toNat_div_bucket, List.map_findSome?]
  have hle := s.maxBlocks_lt
  have hword : ∀ i < s.maxBlocks.toNat / 32,
      (if s.words i ≠ 0xFFFFFFFF#32 then
        (List.range blocksPerBucket.toNat).findSome? fun j =>
          if s.words i &&& (1#32 <<< j) = 0#32 then
            let block := BitVec.ofNat 32 i * blocksPerBucket + BitVec.ofNat 32 j
            if block < s.maxBlocks then some block else none
          else none
      else none) =
      (Option.map (BitVec.ofNat 32) ∘ fun i =>
        if s.words i ≠ BitVec.allOnes 32 then
          (List.range 32).findSome? fun j =>
            if s.words i &&& BitVec.twoPow 32 j = 0#32 then some (i * 32 + j) else none
        else none) i := by
    intro i hi
    simp only [Function.comp, show BitVec.allOnes 32 = 0xFFFFFFFF#32 from rfl]
    by_cases hfull : s.words i ≠ 0xFFFFFFFF#32
    · rw [if_pos hfull, if_pos hfull, List.map_findSome?]
      refine Bitmap.findSome?_congr fun j hj => ?_
      have hj' : j < 32 := List.mem_range.mp hj
      rw [Function.comp, BitVec.twoPow_eq]
      have hn : i * 32 + j < s.maxBlocks.toNat := by omega
      have hblock := toNat_block hj' hn hle
      by_cases hclear : s.words i &&& 1#32 <<< j = 0#32
      · rw [if_pos hclear, if_pos hclear]
        have hlt : BitVec.ofNat 32 i * blocksPerBucket + BitVec.ofNat 32 j < s.maxBlocks := by
          rw [BitVec.lt_def, hblock]
          exact hn
        simp only [if_pos hlt, Option.map_some]
        rw [← hblock, BitVec.ofNat_toNat, BitVec.setWidth_eq]
      · rw [if_neg hclear, if_neg hclear, Option.map_none]
    · rw [if_neg hfull, if_neg hfull, Option.map_none]
  exact Bitmap.findSome?_congr fun i hi => hword i (List.mem_range.mp hi)

theorem marked_eq_test (s : PMM) (h0 : s.bitmap ≠ 0#32) {b : ℕ} (hb : b < s.scanned) :
    s.marked b = Bitmap.test s.words b := by
  have hlt : b < s.maxBlocks.toNat := lt_of_lt_of_le hb s.scanned_le
  simp [marked, h0, hlt]

/-- The search finds nothing when there is nothing to find. -/
theorem firstFreeBlock_eq_none_iff (s : PMM) :
    s.firstFreeBlock = none ↔ s.bitmap = 0#32 ∨ ∀ b < s.scanned, s.marked b = true := by
  by_cases h0 : s.bitmap = 0#32
  · rw [firstFreeBlock, if_pos (Or.inl h0)]
    exact iff_of_true rfl (Or.inl h0)
  rw [firstFreeBlock_eq s h0, Option.map_eq_none_iff, Bitmap.firstClear_eq_none_iff,
    or_iff_right h0]
  refine forall_congr' fun b => imp_congr_right fun hb => ?_
  rw [s.marked_eq_test h0 hb]

/-- What the search finds is the lowest unmarked block. -/
theorem firstFreeBlock_eq_some {s : PMM} {b : U32} (h : s.firstFreeBlock = some b) :
    s.bitmap ≠ 0#32 ∧ b.toNat < s.scanned ∧ s.marked b.toNat = false ∧
      ∀ c < b.toNat, s.marked c = true := by
  have h0 : s.bitmap ≠ 0#32 := by
    intro h0
    rw [(firstFreeBlock_eq_none_iff s).mpr (Or.inl h0)] at h
    exact absurd h (by simp)
  rw [firstFreeBlock_eq s h0] at h
  obtain ⟨n, hfound, rfl⟩ := Option.map_eq_some_iff.mp h
  obtain ⟨hn, hclear, hmin⟩ := (Bitmap.firstClear_eq_some_iff _ _ _).mp hfound
  have hn' : n < s.scanned := hn
  have hn32 : (BitVec.ofNat 32 n).toNat = n := by
    have := s.scanned_le
    have := s.maxBlocks_lt
    rw [BitVec.toNat_ofNat]
    omega
  rw [hn32]
  refine ⟨h0, hn', ?_, fun c hc => ?_⟩
  · rw [s.marked_eq_test h0 hn', hclear]
  · rw [s.marked_eq_test h0 (lt_trans hc hn'), hmin c hc]

/-- The address of the block that is found. -/
theorem toNat_found {s : PMM} {b : U32} (h : s.firstFreeBlock = some b) :
    (b * blockSize).toNat = b.toNat * 4096 := by
  obtain ⟨-, hb, -, -⟩ := firstFreeBlock_eq_some h
  have haddr := toNat_allocated (lt_of_lt_of_le hb s.scanned_le)
  rwa [BitVec.ofNat_toNat, BitVec.setWidth_eq] at haddr

/-- It is null for block 0 only. -/
theorem found_eq_zero_iff {s : PMM} {b : U32} (h : s.firstFreeBlock = some b) :
    b * blockSize = 0#32 ↔ b = 0#32 := by
  have haddr := toNat_found h
  rw [← BitVec.toNat_inj, ← BitVec.toNat_inj, haddr, show (0#32).toNat = 0 from rfl]
  omega

theorem allocateBlock_of_none {s : PMM} (h : s.firstFreeBlock = none) :
    s.allocateBlock = (s, 0#32) := by
  simp [allocateBlock, h]

theorem allocateBlock_of_some {s : PMM} {b : U32} (h : s.firstFreeBlock = some b) :
    s.allocateBlock = (s.setBlock b, b * blockSize) := by
  obtain ⟨h0, hb, -, -⟩ := firstFreeBlock_eq_some h
  have hlt : ¬ b ≥ s.maxBlocks := by
    rw [ge_iff_le, BitVec.le_def]
    exact Nat.not_le.mpr (lt_of_lt_of_le hb s.scanned_le)
  simp [allocateBlock, h, h0, hlt]

/-- **What `allocateBlock` does.**  Either it returns the null pointer, changes
nothing, and every scanned block is marked (or there is no bitmap); or it marks
and returns the lowest unmarked block of the scanned ones. -/
theorem allocateBlock_cases (s : PMM) :
    (s.allocateBlock = (s, 0#32) ∧
      (s.bitmap = 0#32 ∨ ∀ b < s.scanned, s.marked b = true)) ∨
    ∃ b, s.bitmap ≠ 0#32 ∧ b < s.scanned ∧ s.marked b = false ∧
      (∀ c < b, s.marked c = true) ∧
      s.allocateBlock = (s.setBlock (BitVec.ofNat 32 b), BitVec.ofNat 32 b * blockSize) := by
  cases hfound : s.firstFreeBlock with
  | none => exact Or.inl ⟨allocateBlock_of_none hfound, (firstFreeBlock_eq_none_iff s).mp hfound⟩
  | some b =>
    obtain ⟨h0, hb, hclear, hmin⟩ := firstFreeBlock_eq_some hfound
    refine Or.inr ⟨b.toNat, h0, hb, hclear, hmin, ?_⟩
    rw [BitVec.ofNat_toNat, BitVec.setWidth_eq]
    exact allocateBlock_of_some hfound

@[simp] theorem allocateBlock_bitmap (s : PMM) : s.allocateBlock.1.bitmap = s.bitmap := by
  rcases allocateBlock_cases s with ⟨h, -⟩ | ⟨b, -, -, -, -, h⟩ <;> rw [h]
  simp

@[simp] theorem allocateBlock_maxBlocks (s : PMM) :
    s.allocateBlock.1.maxBlocks = s.maxBlocks := by
  rcases allocateBlock_cases s with ⟨h, -⟩ | ⟨b, -, -, -, -, h⟩ <;> rw [h]
  simp

/-- Marking a block that there is changes that mark only. -/
theorem marked_setBlock_ofNat (s : PMM) (h0 : s.bitmap ≠ 0#32) {b : ℕ}
    (hb : b < s.maxBlocks.toNat) (c : ℕ) :
    (s.setBlock (BitVec.ofNat 32 b)).marked c = (s.marked c || decide (c = b)) := by
  have hb32 : (BitVec.ofNat 32 b).toNat = b := by
    have := s.maxBlocks_lt
    rw [BitVec.toNat_ofNat]
    omega
  rw [marked_setBlock, hb32]
  by_cases hc : c = b
  · simp [hc, h0, hb]
  · simp [hc]

/-- A block handed out (not null) is page aligned, was unmarked, and is the only
block whose mark changes. -/
theorem allocateBlock_spec {s s' : PMM} {p : U32} (h : s.allocateBlock = (s', p)) (hp : p ≠ 0#32) :
    ∃ b, p.toNat = b * 4096 ∧ 0 < b ∧ b < s.scanned ∧ s.marked b = false ∧
      (∀ c < b, s.marked c = true) ∧ ∀ c, s'.marked c = (s.marked c || decide (c = b)) := by
  rcases allocateBlock_cases s with ⟨hnull, -⟩ | ⟨b, h0, hb, hclear, hmin, hsome⟩
  · rw [hnull, Prod.mk.injEq] at h
    exact absurd h.2.symm hp
  · rw [hsome, Prod.mk.injEq] at h
    obtain ⟨rfl, rfl⟩ := h
    have hlt : b < s.maxBlocks.toNat := lt_of_lt_of_le hb s.scanned_le
    have haddr := toNat_allocated hlt
    have hpos : 0 < b := by
      rcases Nat.eq_zero_or_pos b with rfl | hpos
      · exact absurd (BitVec.eq_of_toNat_eq (by rw [haddr]; simp)) hp
      · exact hpos
    exact ⟨b, haddr, hpos, hb, hclear, hmin, s.marked_setBlock_ofNat h0 hlt⟩

/-- A call that returns the null pointer can only mark block 0. -/
theorem allocateBlock_null {s s' : PMM} (h : s.allocateBlock = (s', 0#32)) (b : ℕ) :
    s.marked b = true → s'.marked b = true := by
  intro hb
  rcases allocateBlock_cases s with ⟨hnull, -⟩ | ⟨c, -, -, -, -, hsome⟩
  · rw [hnull, Prod.mk.injEq] at h
    rwa [← h.1]
  · rw [hsome, Prod.mk.injEq] at h
    rw [← h.1, marked_setBlock, hb, Bool.true_or]

/-! ### Initialisation -/

theorem test_fillBytes (ws : ℕ → U32) (n b : ℕ) :
    b < 8 * n → Bitmap.test (fillBytes ws n) b = true := by
  intro hb
  rw [Bitmap.test, fillBytes, BitVec.getLsbD_or, getLsbD_lowMask]
  have h1 : b % 32 < 32 := Nat.mod_lt _ (by decide)
  have h2 : b % 32 < 8 * min 4 (n - 4 * (b / 32)) := by omega
  simp [h1, h2]

/-- Marking more blocks of a fully marked bitmap changes nothing. -/
theorem foldl_setBlock_eq_self (start : U32) (is : List ℕ) {s : PMM}
    (hs : ∀ b < s.maxBlocks.toNat, s.marked b = true) :
    is.foldl (fun t i =>
      if start + BitVec.ofNat 32 i < t.maxBlocks then
        t.setBlock (start + BitVec.ofNat 32 i) else t) s = s := by
  induction is with
  | nil => rfl
  | cons i is ih =>
    rw [List.foldl_cons]
    by_cases hi : start + BitVec.ofNat 32 i < s.maxBlocks
    · rw [if_pos hi, setBlock_eq_self (Or.inr (Or.inr (hs _ (BitVec.lt_def.mp hi)))), ih]
    · rw [if_neg hi, ih]

/-- The state that `initializePMM` makes of valid parameters, and a full bitmap. -/
theorem initializePMM_eq (s : PMM) (memory : ℕ → U32) {startAddr size : U32}
    (hstart : startAddr ≠ 0#32) (hsize : ¬ size < blockSize) :
    ∃ t : PMM, s.initializePMM memory startAddr size = t ∧ t.bitmap = startAddr ∧
      t.maxBlocks = size / blockSize ∧ t.usedBlocks = size / blockSize ∧
      ∀ b < (size / blockSize).toNat, t.marked b = true := by
  rw [initializePMM, if_neg (by simp [hstart, hsize])]
  have hle := div_blockSize_lt size
  have hbytes : ((size / blockSize + 7) / 8).toNat = ((size / blockSize).toNat + 7) / 8 := by
    rw [BitVec.toNat_udiv, BitVec.toNat_add, show (7 : U32).toNat = 7 from rfl,
      show (8 : U32).toNat = 8 from rfl]
    omega
  have hfull : ∀ b < (size / blockSize).toNat, PMM.marked
      { bitmap := startAddr
        words := fillBytes memory ((size / blockSize + 7) / 8).toNat
        maxBlocks := size / blockSize
        usedBlocks := size / blockSize
        maxBlocks_lt := hle } b = true := by
    intro b hb
    have htest := test_fillBytes memory ((size / blockSize + 7) / 8).toNat b
      (by rw [hbytes]; omega)
    rw [marked]
    simp only [htest, hb, decide_true, Bool.and_true, decide_eq_true_eq]
    exact hstart
  exact ⟨_, foldl_setBlock_eq_self _ _ hfull, rfl, rfl, rfl, hfull⟩

/-- After `initializePMM` with valid parameters every block is marked used. -/
theorem initializePMM_spec (s : PMM) (memory : ℕ → U32) {startAddr size : U32}
    (hstart : startAddr ≠ 0#32) (hsize : ¬ size < blockSize) :
    (s.initializePMM memory startAddr size).bitmap = startAddr ∧
    (s.initializePMM memory startAddr size).maxBlocks = size / blockSize ∧
    ∀ b, (s.initializePMM memory startAddr size).marked b =
      decide (b < (size / blockSize).toNat) := by
  obtain ⟨t, ht, hbitmap, hmax, -, hfull⟩ := s.initializePMM_eq memory hstart hsize
  rw [ht]
  refine ⟨hbitmap, hmax, fun b => ?_⟩
  by_cases hb : b < (size / blockSize).toNat
  · rw [hfull b hb, decide_eq_true hb]
  · rw [marked, hmax, decide_eq_false hb, Bool.and_false, Bool.false_and]

end PMM

end MesaOS.Memory
