/-
Freeing the available memory of a multiboot memory map (`PMM::load_memory_map`).

The map is a chain of entries in memory, each with a 64-bit base and a 64-bit
length in two halves; the code reads the low halves only and gives
`free_block` one address per page of the region.

* `freeRegion_spec` — the page loop ends, and frees exactly the blocks of the
  page run of a page-aligned region (`InPageRun`);
* `loadMemoryMap_spec` — so does the walk over the map, for the page runs of all
  its available entries;
* `handlesMap_iff` — the blocks freed are those inside available entries, with
  no entry above 4 GiB freeing low memory, exactly when every entry is
  `EntryOk`.
-/
import MesaOS.PMM
import MesaOS.Runs
import Mathlib.Data.List.Pairwise

open MachineWord Runs

namespace MesaOS.Memory

/-- The fields of the multiboot information that the kernel reads. -/
structure MultibootInfo where
  memLower : U32
  memUpper : U32
  mmapLength : U32
  mmapAddr : U32

structure MultibootMmapEntry where
  size : U32
  addrLow : U32
  addrHigh : U32
  lenLow : U32
  lenHigh : U32
  type : U32
  deriving DecidableEq

/-- The 32-bit word at a byte address. -/
def readWord (mem : U32 → U8) (a : U32) : U32 := mem (a + 3) ++ mem (a + 2) ++ mem (a + 1) ++ mem a

/-- The packed entry at a byte address. -/
def mmapEntryAt (mem : U32 → U8) (a : U32) : MultibootMmapEntry :=
  { size := readWord mem a
    addrLow := readWord mem (a + 4)
    addrHigh := readWord mem (a + 8)
    lenLow := readWord mem (a + 12)
    lenHigh := readWord mem (a + 16)
    type := readWord mem (a + 20) }

/-- More turns than any loop over 32-bit addresses takes. -/
def loopFuel : ℕ := 2 ^ 33

/-- The page loop over one region: one `free_block` for each page step. -/
def freeRegion (addr len : U32) (s : PMM) : Option PMM :=
  (whileLoop
    (fun st : U32 × PMM =>
      decide (st.1 < len) && decide (addr + st.1 < 0xFFFFFFFF#32 - blockSize))
    (fun st => some (st.1 + blockSize, st.2.freeBlock (addr + st.1)))
    loopFuel (0#32, s)).map Prod.snd

/-- The body of the walk for one entry. -/
def loadEntry (e : MultibootMmapEntry) (s : PMM) : Option PMM :=
  if e.type = 1 ∧ e.lenLow > 0 then freeRegion e.addrLow e.lenLow s else some s

/-- The walk over the chain of entries: the next entry, the state, and whether the
loop was left by its `break`. -/
def walkMap (mem : U32 → U8) (endAddr : U32) :
    ℕ → U32 × PMM × Bool → Option (U32 × PMM × Bool) :=
  whileLoop
    (fun st => !st.2.2 && decide (st.1 + 24 ≤ endAddr))
    (fun st => do
      let e := mmapEntryAt mem st.1
      let s ← loadEntry e st.2.1
      let nextAddr := st.1 + e.size + 4
      if nextAddr ≤ st.1 then some (st.1, s, true) else some (nextAddr, s, false))

def loadMemoryMap (mem : U32 → U8) (mbt : MultibootInfo) (s : PMM) : Option PMM :=
  if mbt.mmapAddr = 0#32 ∨ mbt.mmapLength = 0#32 then some s
  else
    (walkMap mem (mbt.mmapAddr + mbt.mmapLength) loopFuel (mbt.mmapAddr, s, false)).map
      fun st => st.2.1.setBlock 0

/-! ### One region -/

/-- Block `b` is met by the page steps of a region that starts on a page boundary. -/
def InPageRun (addr len : U32) (b : ℕ) : Prop :=
  4096 ∣ addr.toNat ∧ addr.toNat ≤ b * 4096 ∧ b * 4096 < addr.toNat + len.toNat

instance (addr len : U32) (b : ℕ) : Decidable (InPageRun addr len b) :=
  inferInstanceAs (Decidable (_ ∧ _ ∧ _))

/-- What the page loop keeps: the offset is a whole number of pages, does not
wrap, and the pages before it have been freed. -/
structure RegionInv (addr len : U32) (s : PMM) (st : U32 × PMM) : Prop where
  nowrap : addr.toNat + st.1.toNat < 2 ^ 32
  pages : 4096 ∣ st.1.toNat
  reached : st.1.toNat < len.toNat + 4096
  frame : st.2.bitmap = s.bitmap ∧ st.2.maxBlocks = s.maxBlocks
  freed : ∀ b, 0 < b → st.2.marked b =
    (s.marked b && !decide (4096 ∣ addr.toNat ∧ addr.toNat ≤ b * 4096 ∧
      b * 4096 < addr.toNat + st.1.toNat))

theorem regionInv_step {addr len : U32} {s : PMM} {i : U32} {t : PMM}
    (h : RegionInv addr len s (i, t)) (hlen : i < len)
    (hlimit : addr + i < 0xFFFFFFFF#32 - blockSize) :
    RegionInv addr len s (i + blockSize, t.freeBlock (addr + i)) ∧
      (i + blockSize).toNat = i.toNat + 4096 := by
  obtain ⟨hwrap, hpages, hreach, hframe, hfreed⟩ := h
  have hlen' : i.toNat < len.toNat := BitVec.lt_def.mp hlen
  have hsum : (addr + i).toNat = addr.toNat + i.toNat := by
    rw [BitVec.toNat_add]
    exact Nat.mod_eq_of_lt hwrap
  have hlim : addr.toNat + i.toNat < 4294963199 := by
    have := BitVec.lt_def.mp hlimit
    rwa [hsum] at this
  have hi : (i + blockSize).toNat = i.toNat + 4096 := by
    rw [BitVec.toNat_add, show blockSize.toNat = 4096 from rfl]
    omega
  refine ⟨⟨?_, ?_, ?_, ?_, fun b hb => ?_⟩, hi⟩
  · show addr.toNat + (i + blockSize).toNat < 2 ^ 32
    omega
  · show 4096 ∣ (i + blockSize).toNat
    rw [hi]
    exact Nat.dvd_add hpages (Nat.dvd_refl _)
  · show (i + blockSize).toNat < len.toNat + 4096
    omega
  · simpa using hframe
  · show (t.freeBlock (addr + i)).marked b = _
    rw [PMM.marked_freeBlock, hfreed b hb, hi, hsum, Bool.and_assoc, ← Bool.not_or]
    refine congrArg (fun x => s.marked b && !x) ?_
    have hpos : addr + i = 0#32 → addr.toNat + i.toNat = 0 := fun h0 => by rw [← hsum, h0]; rfl
    rw [← Bool.decide_and, ← Bool.decide_or, decide_eq_decide]
    have hdvd : 4096 ∣ i.toNat := hpages
    constructor
    · rintro (⟨h1, h2, h3⟩ | ⟨-, h2⟩)
      · exact ⟨h1, h2, by dsimp only at h3; omega⟩
      · refine ⟨?_, by omega, by omega⟩
        exact (Nat.dvd_add_left hdvd).mp ⟨b, by omega⟩
    · rintro ⟨h1, h2, h3⟩
      by_cases hlt : b * 4096 < addr.toNat + i.toNat
      · exact Or.inl ⟨h1, h2, hlt⟩
      · refine Or.inr ⟨fun h0 => ?_, ?_⟩
        · have := hpos h0
          omega
        · omega

theorem regionInv_init (addr len : U32) (s : PMM) : RegionInv addr len s (0#32, s) := by
  have hlt : addr.toNat < 2 ^ 32 := addr.isLt
  refine ⟨by simpa using hlt, by simp, by simp, ⟨rfl, rfl⟩, fun b hb => ?_⟩
  rw [eq_comm, Bool.and_eq_left_iff_imp]
  intro _
  simp only [Bool.not_eq_true', decide_eq_false_iff_not]
  rintro ⟨-, h2, h3⟩
  simp at h3
  omega

/-- **The page loop.**  It ends, and unmarks exactly the blocks of the page run. -/
theorem freeRegion_spec (addr len : U32) (s : PMM) :
    ∃ s', freeRegion addr len s = some s' ∧
      s'.bitmap = s.bitmap ∧ s'.maxBlocks = s.maxBlocks ∧
      ∀ b, 0 < b → s'.marked b = (s.marked b && !decide (InPageRun addr len b)) := by
  obtain ⟨⟨i, t⟩, hloop, hinv, hexit⟩ :=
    whileLoop_spec
      (fun st : U32 × PMM =>
        decide (st.1 < len) && decide (addr + st.1 < 0xFFFFFFFF#32 - blockSize))
      (fun st => some (st.1 + blockSize, st.2.freeBlock (addr + st.1)))
      (RegionInv addr len s) (fun st => 2 ^ 32 - st.1.toNat)
      (fun st hst hcond => by
        rw [Bool.and_eq_true, decide_eq_true_eq, decide_eq_true_eq] at hcond
        obtain ⟨hinv, hnext⟩ := regionInv_step hst hcond.1 hcond.2
        refine ⟨_, rfl, hinv, ?_⟩
        have := st.1.isLt
        show 2 ^ 32 - (st.1 + blockSize).toNat < _
        omega)
      loopFuel (regionInv_init addr len s) (by rw [loopFuel]; omega)
  obtain ⟨hwrap, hpages, hreach, hframe, hfreed⟩ := hinv
  dsimp only at hwrap hpages hreach hframe hfreed
  refine ⟨t, by rw [freeRegion, hloop]; rfl, hframe.1, hframe.2, fun b hb => ?_⟩
  rw [hfreed b hb]
  cases hm : s.marked b with
  | false => rfl
  | true =>
    -- a marked block lies below the bound of the loop, so the loop ends at `len` for it
    have hmax := PMM.lt_of_marked hm
    have hlt := s.maxBlocks_lt
    have hsum : (addr + i).toNat = addr.toNat + i.toNat := by
      rw [BitVec.toNat_add]
      exact Nat.mod_eq_of_lt hwrap
    rw [Bool.true_and, Bool.true_and, Bool.not_inj_iff, decide_eq_decide, InPageRun]
    refine and_congr_right fun hal => and_congr_right fun hle => ?_
    rw [Bool.and_eq_false_iff, decide_eq_false_iff_not, decide_eq_false_iff_not] at hexit
    rcases hexit with hlen | hlimit
    · have : len.toNat ≤ i.toNat := by rwa [BitVec.not_lt, BitVec.le_def] at hlen
      omega
    · have hge : 4294963199 ≤ addr.toNat + i.toNat := by
        rwa [BitVec.not_lt, BitVec.le_def, hsum] at hlimit
      omega

/-! ### The chain of entries -/

/-- The entries lie one after another from `a` to the end of the map. -/
def MmapAt (mem : U32 → U8) (endAddr : U32) : U32 → List MultibootMmapEntry → Prop
  | a, [] => a = endAddr ∧ a.toNat + 24 < 2 ^ 32
  | a, e :: es => mmapEntryAt mem a = e ∧ 20 ≤ e.size.toNat ∧
      a.toNat + e.size.toNat + 4 < 2 ^ 32 ∧ MmapAt mem endAddr (a + e.size + 4) es

/-- The entries of the map: those laid out from `mmap_addr` on, none when there is no map. -/
def MapOf (mem : U32 → U8) (mbt : MultibootInfo) (es : List MultibootMmapEntry) : Prop :=
  if mbt.mmapAddr = 0#32 then es = []
  else MmapAt mem (mbt.mmapAddr + mbt.mmapLength) mbt.mmapAddr es

/-- The entry gives block `b` to `free_block`. -/
def Frees (e : MultibootMmapEntry) (b : ℕ) : Prop :=
  e.type = 1 ∧ InPageRun e.addrLow e.lenLow b

instance (e : MultibootMmapEntry) (b : ℕ) : Decidable (Frees e b) :=
  inferInstanceAs (Decidable (_ ∧ _))

theorem loadEntry_spec (e : MultibootMmapEntry) (s : PMM) :
    ∃ s', loadEntry e s = some s' ∧ s'.bitmap = s.bitmap ∧ s'.maxBlocks = s.maxBlocks ∧
      ∀ b, 0 < b → s'.marked b = (s.marked b && !decide (Frees e b)) := by
  rw [loadEntry]
  by_cases h : e.type = 1 ∧ e.lenLow > 0
  · rw [if_pos h]
    obtain ⟨s', hs', hbm, hmax, hmark⟩ := freeRegion_spec e.addrLow e.lenLow s
    refine ⟨s', hs', hbm, hmax, fun b hb => ?_⟩
    rw [hmark b hb, decide_eq_decide.mpr (show Frees e b ↔ InPageRun e.addrLow e.lenLow b from
      and_iff_right h.1)]
  · rw [if_neg h]
    refine ⟨s, rfl, rfl, rfl, fun b hb => ?_⟩
    have hno : ¬ Frees e b := by
      rintro ⟨ht, -, hle, hlt⟩
      refine h ⟨ht, ?_⟩
      rw [gt_iff_lt, BitVec.lt_def]
      show 0 < e.lenLow.toNat
      omega
    simp [hno]

theorem toNat_next {a size : U32} (h : a.toNat + size.toNat + 4 < 2 ^ 32) :
    (a + size + 4).toNat = a.toNat + size.toNat + 4 := by
  rw [BitVec.toNat_add, BitVec.toNat_add, show (4 : U32).toNat = 4 from rfl]
  omega

theorem MmapAt.le_end {mem : U32 → U8} {endAddr : U32} :
    ∀ {es : List MultibootMmapEntry} {a : U32}, MmapAt mem endAddr a es →
      a.toNat ≤ endAddr.toNat
  | [], _, ⟨h, _⟩ => h ▸ le_refl _
  | _ :: _, _, ⟨_, _, hwrap, hrest⟩ => by
    have := hrest.le_end
    rw [toNat_next hwrap] at this
    omega

/-- The walk meets the entries in order. -/
theorem walkMap_spec {mem : U32 → U8} {endAddr : U32} :
    ∀ (es : List MultibootMmapEntry) (a : U32) (s : PMM) (fuel : ℕ),
      MmapAt mem endAddr a es → 2 ^ 32 - a.toNat < fuel →
      ∃ a' s', walkMap mem endAddr fuel (a, s, false) = some (a', s', false) ∧
        s'.bitmap = s.bitmap ∧ s'.maxBlocks = s.maxBlocks ∧
        ∀ b, 0 < b → s'.marked b = (s.marked b && !decide (∃ e ∈ es, Frees e b)) := by
  intro es
  induction es with
  | nil =>
    rintro a s fuel ⟨rfl, hend⟩ hfuel
    obtain ⟨fuel, rfl⟩ : ∃ k, fuel = k + 1 := ⟨fuel - 1, by omega⟩
    have hstop : ¬ a + 24 ≤ a := by
      rw [BitVec.le_def, BitVec.toNat_add, show (24 : U32).toNat = 24 from rfl]
      omega
    refine ⟨a, s, ?_, rfl, rfl, fun b hb => by simp⟩
    rw [walkMap, whileLoop]
    simp only [decide_eq_false hstop, Bool.and_false, Bool.false_eq_true, if_false]
  | cons e es ih =>
    rintro a s fuel ⟨he, hsize, hwrap, hrest⟩ hfuel
    obtain ⟨fuel, rfl⟩ : ∃ k, fuel = k + 1 := ⟨fuel - 1, by omega⟩
    have hnext := toNat_next hwrap
    have hle := hrest.le_end
    have hgo : a + 24 ≤ endAddr := by
      rw [BitVec.le_def, BitVec.toNat_add, show (24 : U32).toNat = 24 from rfl]
      omega
    have hadvance : ¬ a + e.size + 4 ≤ a := by
      rw [BitVec.le_def, hnext]
      omega
    obtain ⟨s₁, hs₁, hbm₁, hmax₁, hmark₁⟩ := loadEntry_spec e s
    obtain ⟨a', s', hs', hbm', hmax', hmark'⟩ := ih (a + e.size + 4) s₁ fuel hrest (by omega)
    refine ⟨a', s', ?_, hbm'.trans hbm₁, hmax'.trans hmax₁, fun b hb => ?_⟩
    · rw [walkMap, whileLoop]
      simp only [Bool.not_false, Bool.true_and, decide_eq_true hgo, if_true, he, hs₁,
        Option.bind_eq_bind, Option.bind_some, if_neg hadvance]
      exact hs'
    · rw [hmark' b hb, hmark₁ b hb, Bool.and_assoc, ← Bool.not_or, ← Bool.decide_or]
      refine congrArg (fun x => s.marked b && !x) ?_
      rw [decide_eq_decide]
      simp only [List.mem_cons, exists_eq_or_imp]

/-- **Loading a memory map** frees the page runs of its available entries. -/
theorem loadMemoryMap_spec {mem : U32 → U8} {mbt : MultibootInfo}
    {es : List MultibootMmapEntry} (hmap : MapOf mem mbt es) (s : PMM) :
    ∃ s', loadMemoryMap mem mbt s = some s' ∧ s'.bitmap = s.bitmap ∧
      s'.maxBlocks = s.maxBlocks ∧
      ∀ b, 0 < b → s'.marked b = (s.marked b && !decide (∃ e ∈ es, Frees e b)) := by
  rw [loadMemoryMap]
  rw [MapOf] at hmap
  by_cases haddr : mbt.mmapAddr = 0#32
  · rw [if_pos haddr] at hmap
    rw [if_pos (Or.inl haddr)]
    exact ⟨s, rfl, rfl, rfl, fun b _ => by simp [hmap]⟩
  rw [if_neg haddr] at hmap
  by_cases hlen : mbt.mmapLength = 0#32
  · rw [if_pos (Or.inr hlen)]
    refine ⟨s, rfl, rfl, rfl, fun b hb => ?_⟩
    cases es with
    | nil => simp
    | cons e es =>
      -- a map of length zero has no entries
      obtain ⟨-, -, hwrap, hrest⟩ := hmap
      have hle := hrest.le_end
      rw [toNat_next hwrap, hlen, BitVec.add_zero] at hle
      omega
  · rw [if_neg (by simp [haddr, hlen])]
    obtain ⟨a', s', hs', hbm, hmax, hmark⟩ :=
      walkMap_spec es mbt.mmapAddr s loopFuel hmap (by rw [loopFuel]; omega)
    refine ⟨s'.setBlock 0, by rw [hs']; rfl, by simpa using hbm, by simpa using hmax,
      fun b hb => ?_⟩
    have hb0 : b ≠ (0 : U32).toNat := Nat.pos_iff_ne_zero.mp hb
    rw [PMM.marked_setBlock, hmark b hb, decide_eq_false hb0, Bool.false_and, Bool.false_and,
      Bool.or_false]

/-! ### Whatever the memory holds -/

section AnyMap

variable {P : PMM → Prop}

/-- What every `free_block` keeps, the page loop keeps. -/
theorem freeRegion_keeps (hfree : ∀ t a, P t → P (t.freeBlock a)) (addr len : U32) {s : PMM}
    (hs : P s) : ∃ t, freeRegion addr len s = some t ∧ P t := by
  obtain ⟨⟨i, t⟩, hloop, ⟨-, ht⟩, -⟩ :=
    whileLoop_spec
      (fun st : U32 × PMM =>
        decide (st.1 < len) && decide (addr + st.1 < 0xFFFFFFFF#32 - blockSize))
      (fun st => some (st.1 + blockSize, st.2.freeBlock (addr + st.1)))
      (fun st => RegionInv addr len s st ∧ P st.2) (fun st => 2 ^ 32 - st.1.toNat)
      (fun st hst hcond => by
        rw [Bool.and_eq_true, decide_eq_true_eq, decide_eq_true_eq] at hcond
        obtain ⟨hinv, hnext⟩ := regionInv_step hst.1 hcond.1 hcond.2
        refine ⟨_, rfl, ⟨hinv, hfree _ _ hst.2⟩, ?_⟩
        have := st.1.isLt
        show 2 ^ 32 - (st.1 + blockSize).toNat < _
        omega)
      loopFuel ⟨regionInv_init addr len s, hs⟩ (by rw [loopFuel]; omega)
  exact ⟨t, by rw [freeRegion, hloop]; rfl, ht⟩

theorem loadEntry_keeps (hfree : ∀ t a, P t → P (t.freeBlock a)) (e : MultibootMmapEntry)
    {s : PMM} (hs : P s) : ∃ t, loadEntry e s = some t ∧ P t := by
  rw [loadEntry]
  by_cases h : e.type = 1 ∧ e.lenLow > 0
  · rw [if_pos h]
    exact freeRegion_keeps hfree _ _ hs
  · rw [if_neg h]
    exact ⟨s, rfl, hs⟩

/-- The walk ends on any memory contents: an address that does not go up ends it. -/
theorem walkMap_keeps (hfree : ∀ t a, P t → P (t.freeBlock a)) (mem : U32 → U8)
    (endAddr a : U32) {s : PMM} (hs : P s) :
    ∃ st, walkMap mem endAddr loopFuel (a, s, false) = some st ∧ P st.2.1 := by
  obtain ⟨st, hloop, hst, -⟩ :=
    whileLoop_spec
      (fun st : U32 × PMM × Bool => !st.2.2 && decide (st.1 + 24 ≤ endAddr))
      (fun st => do
        let e := mmapEntryAt mem st.1
        let s ← loadEntry e st.2.1
        let nextAddr := st.1 + e.size + 4
        if nextAddr ≤ st.1 then some (st.1, s, true) else some (nextAddr, s, false))
      (fun st => P st.2.1) (fun st => if st.2.2 then 0 else 2 ^ 32 - st.1.toNat)
      (fun st hst hcond => by
        obtain ⟨a, t, stopped⟩ := st
        obtain ⟨t', ht', hP⟩ := loadEntry_keeps hfree (mmapEntryAt mem a) hst
        rw [Bool.and_eq_true, Bool.not_eq_true'] at hcond
        have hgo : stopped = false := hcond.1
        subst hgo
        have hlt := a.isLt
        simp only [ht', Option.bind_eq_bind, Option.bind_some, Bool.false_eq_true, if_false]
        by_cases hnext : a + (mmapEntryAt mem a).size + 4 ≤ a
        · rw [if_pos hnext]
          refine ⟨_, rfl, hP, ?_⟩
          show 0 < 2 ^ 32 - a.toNat
          omega
        · rw [if_neg hnext]
          refine ⟨_, rfl, hP, ?_⟩
          rw [BitVec.not_le, BitVec.lt_def] at hnext
          show 2 ^ 32 - (a + (mmapEntryAt mem a).size + 4).toNat < 2 ^ 32 - a.toNat
          omega)
      loopFuel (s := (a, s, false)) hs (by
        show 2 ^ 32 - a.toNat < loopFuel
        rw [loopFuel]
        omega)
  exact ⟨st, hloop, hst⟩

/-- **Loading any memory map ends.**  What every `free_block` keeps holds at the end, up to
the lock of block 0. -/
theorem loadMemoryMap_keeps (hfree : ∀ t a, P t → P (t.freeBlock a)) (mem : U32 → U8)
    (mbt : MultibootInfo) {s : PMM} (hs : P s) :
    loadMemoryMap mem mbt s = some s ∨
      ∃ t, P t ∧ loadMemoryMap mem mbt s = some (t.setBlock 0) := by
  rw [loadMemoryMap]
  by_cases h : mbt.mmapAddr = 0#32 ∨ mbt.mmapLength = 0#32
  · rw [if_pos h]
    exact Or.inl rfl
  · rw [if_neg h]
    obtain ⟨st, hst, hP⟩ :=
      walkMap_keeps hfree mem (mbt.mmapAddr + mbt.mmapLength) mbt.mmapAddr hs
    refine Or.inr ⟨st.2.1, hP, ?_⟩
    rw [hst]
    rfl

end AnyMap

/-! ### Which blocks ought to be freed -/

namespace MultibootMmapEntry

/-- The 64-bit base. -/
def base (e : MultibootMmapEntry) : ℕ := e.addrHigh.toNat * 2 ^ 32 + e.addrLow.toNat

/-- The 64-bit length. -/
def length (e : MultibootMmapEntry) : ℕ := e.lenHigh.toNat * 2 ^ 32 + e.lenLow.toNat

/-- Byte `x` lies in the entry. -/
def Holds (e : MultibootMmapEntry) (x : ℕ) : Prop := e.base ≤ x ∧ x < e.base + e.length

/-- The two entries share no byte. -/
def Apart (e e' : MultibootMmapEntry) : Prop := ∀ x, ¬ (e.Holds x ∧ e'.Holds x)

instance : Std.Symm Apart := ⟨fun _ _ h x hx => h x ⟨hx.2, hx.1⟩⟩

/-- All bytes of block `b` lie in the entry. -/
def HoldsBlock (e : MultibootMmapEntry) (b : ℕ) : Prop :=
  ∀ x, b * 4096 ≤ x → x < b * 4096 + 4096 → e.Holds x

theorem holdsBlock_iff (e : MultibootMmapEntry) (b : ℕ) :
    e.HoldsBlock b ↔ e.base ≤ b * 4096 ∧ b * 4096 + 4096 ≤ e.base + e.length := by
  constructor
  · intro h
    obtain ⟨h1, -⟩ := h (b * 4096) (le_refl _) (by omega)
    obtain ⟨-, h2⟩ := h (b * 4096 + 4095) (by omega) (by omega)
    exact ⟨h1, by omega⟩
  · rintro ⟨h1, h2⟩ x hx hx'
    exact ⟨by omega, by omega⟩

/-- The block after the last one the page steps meet, counted with the low halves. -/
def pageEnd (e : MultibootMmapEntry) : ℕ := (e.addrLow.toNat + e.lenLow.toNat + 4095) / 4096

/-- The block after the last one that lies in the entry. -/
def heldEnd (e : MultibootMmapEntry) : ℕ := (e.base + e.length) / 4096

end MultibootMmapEntry

open MultibootMmapEntry

/-- An entry the code treats rightly, for a memory of `maxBlocks` blocks: it is not
available; or it begins below 4 GiB on a page boundary, and counting its pages
with the low half of the length ends where its last whole page ends; or it
begins below 4 GiB off a page boundary and holds no whole block; or it begins
above 4 GiB and its low halves name no block.  Only the blocks from 1 to
`maxBlocks - 1` count. -/
def EntryOk (maxBlocks : ℕ) (e : MultibootMmapEntry) : Prop :=
  e.type = 1 →
    if e.addrHigh = 0#32 then
      if 4096 ∣ e.addrLow.toNat then
        min maxBlocks (max (max 1 (e.addrLow.toNat / 4096)) e.pageEnd) =
          min maxBlocks (max (max 1 (e.addrLow.toNat / 4096)) e.heldEnd)
      else min maxBlocks e.heldEnd ≤ max 1 ((e.base + 4095) / 4096)
    else ¬ 4096 ∣ e.addrLow.toNat ∨
      min maxBlocks e.pageEnd ≤ max 1 (e.addrLow.toNat / 4096)

/-- Below 4 GiB an entry is right when it frees the blocks it holds. -/
theorem entryOk_of_low {maxBlocks : ℕ} {e : MultibootMmapEntry} (hlow : e.addrHigh = 0#32) :
    EntryOk maxBlocks e ↔
      (e.type = 1 → ∀ b, 1 ≤ b → b < maxBlocks → (Frees e b ↔ e.HoldsBlock b)) := by
  have hbase : e.base = e.addrLow.toNat := by rw [base, hlow]; simp
  rw [EntryOk]
  refine imp_congr_right fun ht => ?_
  rw [if_pos hlow]
  by_cases hal : 4096 ∣ e.addrLow.toNat
  · rw [if_pos hal]
    have hfrees : ∀ b, Frees e b ↔ e.addrLow.toNat / 4096 ≤ b ∧ b < e.pageEnd := by
      intro b
      rw [Frees, and_iff_right ht, InPageRun, and_iff_right hal, pageEnd]
      omega
    have hholds : ∀ b, e.HoldsBlock b ↔ e.addrLow.toNat / 4096 ≤ b ∧ b < e.heldEnd := by
      intro b
      rw [holdsBlock_iff, heldEnd, hbase]
      omega
    constructor
    · intro h b hb hmax
      rw [hfrees, hholds]
      omega
    · intro h
      -- where the two ends differ, the smaller one is a block on which the two sides differ
      by_contra hne
      rcases Nat.lt_or_gt_of_ne hne with hlt | hgt
      · have := h (max (max 1 (e.addrLow.toNat / 4096)) e.pageEnd) (by omega) (by omega)
        rw [hfrees, hholds] at this
        omega
      · have := h (max (max 1 (e.addrLow.toNat / 4096)) e.heldEnd) (by omega) (by omega)
        rw [hfrees, hholds] at this
        omega
  · rw [if_neg hal]
    have hfrees : ∀ b, ¬ Frees e b := fun b h => hal h.2.1
    have hholds : ∀ b, e.HoldsBlock b ↔ (e.base + 4095) / 4096 ≤ b ∧ b < e.heldEnd := by
      intro b
      rw [holdsBlock_iff, heldEnd]
      omega
    constructor
    · intro h b hb hmax
      refine iff_of_false (hfrees b) ?_
      rw [hholds]
      omega
    · intro h
      by_contra hgt
      have := h (max 1 ((e.base + 4095) / 4096)) (by omega) (by omega)
      refine hfrees _ (this.mpr ?_)
      rw [hholds]
      omega

/-- From 4 GiB on an entry is right when it frees nothing. -/
theorem entryOk_of_high {maxBlocks : ℕ} {e : MultibootMmapEntry} (hhigh : e.addrHigh ≠ 0#32) :
    EntryOk maxBlocks e ↔
      (e.type = 1 → ∀ b, 1 ≤ b → b < maxBlocks → ¬ Frees e b) := by
  rw [EntryOk]
  refine imp_congr_right fun ht => ?_
  rw [if_neg hhigh]
  by_cases hal : 4096 ∣ e.addrLow.toNat
  · have hfrees : ∀ b, Frees e b ↔ e.addrLow.toNat / 4096 ≤ b ∧ b < e.pageEnd := by
      intro b
      rw [Frees, and_iff_right ht, InPageRun, and_iff_right hal, pageEnd]
      omega
    constructor
    · rintro (h | h) b hb hmax
      · exact absurd hal h
      · rw [hfrees]
        omega
    · intro h
      refine Or.inr ?_
      by_contra hgt
      refine h (max 1 (e.addrLow.toNat / 4096)) (by omega) (by omega) ?_
      rw [hfrees]
      omega
  · exact iff_of_true (Or.inl hal) fun b _ _ h => hal h.2.1

theorem high_iff (e : MultibootMmapEntry) : 2 ^ 32 ≤ e.base ↔ e.addrHigh ≠ 0#32 := by
  have hlt : e.addrLow.toNat < 2 ^ 32 := e.addrLow.isLt
  rw [base, Ne, ← BitVec.toNat_inj]
  show _ ↔ ¬ e.addrHigh.toNat = 0
  omega

/-- The memory map is handled as it should be: after `initialize` and
`load_memory_map` the free blocks, block 0 aside, are those inside an available
entry, and no entry from 4 GiB on frees a block. -/
def HandlesMap (memory : ℕ → U32) (mem : U32 → U8) (mbt : MultibootInfo)
    (startAddr size : U32) (es : List MultibootMmapEntry) : Prop :=
  ∃ s, loadMemoryMap mem mbt (PMM.unset.initializePMM memory startAddr size) = some s ∧
    (∀ b, 1 ≤ b → b < s.maxBlocks.toNat →
      (s.marked b = false ↔ ∃ e ∈ es, e.type = 1 ∧ e.HoldsBlock b)) ∧
    ∀ e ∈ es, 2 ^ 32 ≤ e.base → ∀ s',
      loadEntry e (PMM.unset.initializePMM memory startAddr size) = some s' →
      ∀ b, 1 ≤ b → (PMM.unset.initializePMM memory startAddr size).marked b = true →
        s'.marked b = true

/-- How many blocks the manager has for these parameters: none when `initialize`
rejects them. -/
def managedBlocks (startAddr size : U32) : ℕ :=
  if startAddr = 0#32 ∨ size < blockSize then 0 else size.toNat / 4096

theorem maxBlocks_initial (memory : ℕ → U32) (startAddr size : U32) :
    (PMM.unset.initializePMM memory startAddr size).maxBlocks.toNat =
      managedBlocks startAddr size := by
  rw [managedBlocks]
  by_cases h : startAddr = 0#32 ∨ size < blockSize
  · rw [PMM.initializePMM, if_pos h, if_pos h]
    rfl
  · rw [if_neg h]
    rw [not_or] at h
    rw [(PMM.initializePMM_spec PMM.unset memory h.1 h.2).2.1, BitVec.toNat_udiv]
    rfl

/-- Before the map is loaded every block is marked, whatever the parameters. -/
theorem marked_initial (memory : ℕ → U32) (startAddr size : U32) (b : ℕ) :
    (PMM.unset.initializePMM memory startAddr size).marked b =
      decide (b < (PMM.unset.initializePMM memory startAddr size).maxBlocks.toNat) := by
  by_cases h : startAddr = 0#32 ∨ size < blockSize
  · rw [PMM.initializePMM, if_pos h]
    simp [PMM.marked, PMM.unset]
  · rw [not_or] at h
    obtain ⟨-, hmax, hmark⟩ := PMM.initializePMM_spec PMM.unset memory h.1 h.2
    rw [hmark b, hmax]

/-- **When a memory map is handled rightly.**  For every map laid out in memory
whose entries share no byte, this is so exactly when every entry is `EntryOk`. -/
theorem handlesMap_iff (memory : ℕ → U32) (mem : U32 → U8) (mbt : MultibootInfo)
    (startAddr size : U32) (es : List MultibootMmapEntry) (hmap : MapOf mem mbt es)
    (hdisjoint : es.Pairwise MultibootMmapEntry.Apart) :
    HandlesMap memory mem mbt startAddr size es ↔
      ∀ e ∈ es, EntryOk (managedBlocks startAddr size) e := by
  rw [← maxBlocks_initial memory]
  set s₀ := PMM.unset.initializePMM memory startAddr size with hs₀
  have hmark₀ : ∀ b, s₀.marked b = decide (b < s₀.maxBlocks.toNat) :=
    marked_initial memory startAddr size
  obtain ⟨s, hs, -, hmax, hmark⟩ := loadMemoryMap_spec hmap s₀
  -- after the walk the free blocks are those of the page runs
  have hfree : ∀ b, 1 ≤ b → b < s₀.maxBlocks.toNat →
      (s.marked b = false ↔ ∃ e ∈ es, Frees e b) := by
    intro b hb hlt
    rw [hmark b hb, hmark₀, decide_eq_true hlt, Bool.true_and, Bool.not_eq_false',
      decide_eq_true_eq]
  have hhigh : ∀ e, (∀ s', loadEntry e s₀ = some s' → ∀ b, 1 ≤ b → s₀.marked b = true →
      s'.marked b = true) ↔ ∀ b, 1 ≤ b → b < s₀.maxBlocks.toNat → ¬ Frees e b := by
    intro e
    obtain ⟨s', hs', -, -, hmark'⟩ := loadEntry_spec e s₀
    constructor
    · intro h b hb hlt hf
      have := h s' hs' b hb (by rw [hmark₀, decide_eq_true hlt])
      rw [hmark' b hb, decide_eq_true hf] at this
      simp at this
    · intro h s'' hs'' b hb hm
      rw [hs', Option.some_inj] at hs''
      subst hs''
      rw [hmark₀, decide_eq_true_eq] at hm
      rw [hmark' b hb, hmark₀, decide_eq_true hm, decide_eq_false (h b hb hm)]
      rfl
  -- two entries of the map that share a byte are the same entry
  have hsame : ∀ e ∈ es, ∀ e' ∈ es, ∀ x, e.Holds x → e'.Holds x → e = e' := by
    intro e he e' he' x hx hx'
    by_contra hne
    exact hdisjoint.forall he he' hne x ⟨hx, hx'⟩
  -- an entry below 4 GiB holds the first byte of each block it frees
  have hfirst : ∀ e b, e.addrHigh = 0#32 → Frees e b → e.Holds (b * 4096) := by
    rintro e b hlow ⟨-, -, hle, hlt⟩
    have : e.addrHigh.toNat = 0 := by rw [hlow]; rfl
    rw [Holds, base, length]
    omega
  constructor
  · rintro ⟨s', hs', hblocks, habove⟩ e he
    rw [hs, Option.some_inj] at hs'
    subst hs'
    rw [hmax] at hblocks
    by_cases hlow : e.addrHigh = 0#32
    · refine (entryOk_of_low hlow).mpr fun ht b hb hlt => ?_
      constructor
      · intro hf
        obtain ⟨e', he', -, hheld⟩ :=
          (hblocks b hb hlt).mp ((hfree b hb hlt).mpr ⟨e, he, hf⟩)
        rw [hsame e he e' he' (b * 4096) (hfirst e b hlow hf)
          (hheld _ (le_refl _) (by omega))]
        exact hheld
      · intro hheld
        obtain ⟨e', he', hf'⟩ :=
          (hfree b hb hlt).mp ((hblocks b hb hlt).mpr ⟨e, he, ht, hheld⟩)
        by_cases hlow' : e'.addrHigh = 0#32
        · rw [hsame e he e' he' (b * 4096) (hheld _ (le_refl _) (by omega))
            (hfirst e' b hlow' hf')]
          exact hf'
        · exact absurd hf'
            ((hhigh e').mp (habove e' he' ((high_iff e').mpr hlow')) b hb hlt)
    · exact (entryOk_of_high hlow).mpr fun _ =>
        (hhigh e).mp (habove e he ((high_iff e).mpr hlow))
  · intro hok
    refine ⟨s, hs, fun b hb hlt => ?_, fun e he hbase => ?_⟩
    · rw [hmax] at hlt
      rw [hfree b hb hlt]
      constructor
      · rintro ⟨e, he, hf⟩
        by_cases hlow : e.addrHigh = 0#32
        · exact ⟨e, he, hf.1, ((entryOk_of_low hlow).mp (hok e he) hf.1 b hb hlt).mp hf⟩
        · exact absurd hf ((entryOk_of_high hlow).mp (hok e he) hf.1 b hb hlt)
      · rintro ⟨e, he, ht, hheld⟩
        refine ⟨e, he, ((entryOk_of_low ?_).mp (hok e he) ht b hb hlt).mpr hheld⟩
        -- a block below `2 ^ 20` lies below 4 GiB, and so does the entry
        by_contra hhi
        have h32 := (high_iff e).mpr hhi
        have hle := ((holdsBlock_iff e b).mp hheld).1
        have := s₀.maxBlocks_lt
        omega
    · refine (hhigh e).mpr fun b hb hlt hf => ?_
      exact (entryOk_of_high ((high_iff e).mp hbase)).mp (hok e he) hf.1 b hb hlt hf

/-! ### Two maps -/

/-- The bytes of an entry. -/
def MultibootMmapEntry.bytes (e : MultibootMmapEntry) : List U8 :=
  le32 e.size ++ le32 e.addrLow ++ le32 e.addrHigh ++ le32 e.lenLow ++ le32 e.lenHigh ++
    le32 e.type

/-- A memory that holds the entries one after another from `a` on. -/
def storeMap (a : U32) (es : List MultibootMmapEntry) : U32 → U8 :=
  fun x => bufferOf (es.flatMap MultibootMmapEntry.bytes) (x - a).toNat

/-- The low memory of a PC: 639 KiB of RAM up to the EBDA, which is reserved. -/
def ebdaMap : List MultibootMmapEntry :=
  [⟨20, 0, 0, 0x9FC00, 0, 1⟩, ⟨20, 0x9FC00, 0, 0x400, 0, 2⟩]

/-- The page at `0x9F000` is freed, though its last KiB is reserved. -/
theorem ebda_not_handlesMap :
    ¬ HandlesMap (fun _ => 0) (storeMap 0x9000 ebdaMap) ⟨639, 31744, 48, 0x9000⟩
      0x200000 0x1F9FC00 ebdaMap := by
  rintro ⟨s, hs, hblocks, -⟩
  have hmap : MapOf (storeMap 0x9000 ebdaMap) ⟨639, 31744, 48, 0x9000⟩ ebdaMap :=
    ⟨by decide, by decide, by decide, by decide, by decide, by decide, by decide, by decide⟩
  obtain ⟨s', hs', -, hmax, hmark⟩ := loadMemoryMap_spec hmap
    (PMM.unset.initializePMM (fun _ => 0) 0x200000 0x1F9FC00)
  rw [hs', Option.some_inj] at hs
  subst hs
  have hlt : 0x9F < s'.maxBlocks.toNat := by
    rw [hmax, maxBlocks_initial]
    decide
  obtain ⟨e, he, ht, hheld⟩ := (hblocks 0x9F (by decide) hlt).mp (by
    rw [hmark 0x9F (by decide), decide_eq_true (by decide : ∃ e ∈ ebdaMap, Frees e 0x9F),
      Bool.not_true, Bool.and_false])
  rw [holdsBlock_iff] at hheld
  simp only [ebdaMap, List.mem_cons, List.not_mem_nil, or_false] at he
  rcases he with rfl | rfl
  · exact absurd hheld.2 (by decide)
  · exact absurd ht (by decide)

/-- Page-aligned RAM below 4 GiB, as the boot loader of an emulator reports it. -/
def alignedMap : List MultibootMmapEntry :=
  [⟨20, 0, 0, 0x9F000, 0, 1⟩, ⟨20, 0x9F000, 0, 0x61000, 0, 2⟩, ⟨20, 0x100000, 0, 0x1F00000, 0, 1⟩]

theorem mapOf_alignedMap : MapOf (storeMap 0x9000 alignedMap) ⟨639, 31744, 72, 0x9000⟩ alignedMap :=
  ⟨by decide, by decide, by decide, by decide, by decide, by decide, by decide, by decide,
    by decide, by decide, by decide⟩

theorem alignedMap_handlesMap_iff :
    HandlesMap (fun _ => 0) (storeMap 0x9000 alignedMap) ⟨639, 31744, 72, 0x9000⟩
      0x200000 0x1F9FC00 alignedMap ↔
        ∀ e ∈ alignedMap, EntryOk (managedBlocks 0x200000 0x1F9FC00) e :=
  handlesMap_iff _ _ ⟨639, 31744, 72, 0x9000⟩ _ _ _ mapOf_alignedMap
    (by
      simp only [alignedMap, List.pairwise_cons, List.mem_cons, List.not_mem_nil]
      refine ⟨?_, ?_, ?_, List.Pairwise.nil⟩
      · rintro e (rfl | rfl | h) x ⟨hx, hx'⟩
        · simp [Holds, base, length] at *
          omega
        · simp [Holds, base, length] at *
          omega
        · exact absurd h (by simp)
      · rintro e (rfl | h) x ⟨hx, hx'⟩
        · simp [Holds, base, length] at *
          omega
        · exact absurd h (by simp)
      · simp)

end MesaOS.Memory
