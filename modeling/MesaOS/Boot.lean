/-
The memory part of `kernel_main` (`kernel.cpp`).

Three regions are taken at boot: the kernel image from 1 MiB to `kernel_end`, the
bitmap of `PMM` behind it, and the 4 MiB of the kernel heap behind that.  The
image is locked after the memory map has been loaded, so it is safe.  The bitmap
is locked before, and the heap not at all, so the map frees both again when they
lie in available memory (`boot_not_safe`).

* `kernelMain_spec` — which blocks are free when the boot is done;
* `apart_step` — one call keeps the blocks handed out and the heap's objects
  apart, when every block that can be handed out avoids the regions;
* `allocated_eventually` — every free block is handed out some time;
* `boot_safe_iff` — hence all runs are safe exactly when no block that the map
  frees, and the locking loop leaves, touches the bitmap or the heap.
-/
import MesaOS.MemoryMap
import MesaOS.VMM
import MesaOS.KHeap

open MachineWord Runs

namespace MesaOS.Memory

/-! ### The kernel heap -/

namespace KHeap

/-- What every call keeps: the heap lies between `start` and `start + 4 MiB`. -/
structure Within (start : ℕ) (h : KHeap) : Prop where
  lower : start ≤ h.currentAddr.toNat
  upper : h.currentAddr.toNat ≤ (h.endAddr.toNat + 7) / 8 * 8
  ends : h.endAddr.toNat = start + 0x400000
  fits : start + 0x400000 + 8 ≤ 2 ^ 32

theorem Within.le_limit {start : ℕ} {h : KHeap} (hw : Within start h) :
    h.currentAddr.toNat ≤ 2 ^ 32 - 8 := by
  obtain ⟨-, hupper, hends, hfits⟩ := hw
  omega

theorem within_align {start : ℕ} {h : KHeap} (hw : Within start h) : Within start h.align := by
  have halign := toNat_align hw.le_limit
  obtain ⟨hlower, hupper, hends, hfits⟩ := hw
  constructor
  · rw [halign]
    omega
  · rw [halign, align_endAddr]
    omega
  · rw [align_endAddr, hends]
  · exact hfits

/-- `malloc` stays within the heap, and so does the object it returns. -/
theorem malloc_spec {start : ℕ} {h h' : KHeap} {size p : U32} (hw : Within start h)
    (hm : h.malloc size = some (h', p)) :
    Within start h' ∧
      (p ≠ 0#32 → start ≤ p.toNat ∧ p.toNat + size.toNat ≤ start + 0x400000) := by
  have ha := within_align hw
  rcases malloc_cases h size with ⟨hnone, -⟩ | ⟨hnull, -⟩ | ⟨hsome, -, hfit, hnew⟩
  · rw [hnone] at hm
    exact absurd hm (by simp)
  · rw [hnull, Option.some_inj, Prod.mk.injEq] at hm
    obtain ⟨rfl, rfl⟩ := hm
    exact ⟨ha, fun hne => absurd rfl hne⟩
  · rw [hsome, Option.some_inj, Prod.mk.injEq] at hm
    obtain ⟨rfl, rfl⟩ := hm
    obtain ⟨hlower, hupper, hends, hfits⟩ := ha
    rw [Fits, ← align_endAddr] at hfit
    refine ⟨⟨?_, ?_, hends, hfits⟩, fun _ => ⟨hlower, hends ▸ hfit⟩⟩
    · rw [hnew]
      omega
    · rw [hnew]
      show _ ≤ (h.align.endAddr.toNat + 7) / 8 * 8
      omega

theorem within_mallocs {start : ℕ} (sizes : List U32) {h h' : KHeap} (hw : Within start h)
    (hm : sizes.foldlM (fun h n => (h.malloc n).map Prod.fst) h = some h') : Within start h' := by
  induction sizes generalizing h with
  | nil =>
    rw [List.foldlM_nil] at hm
    cases hm
    exact hw
  | cons n sizes ih =>
    rw [List.foldlM_cons] at hm
    obtain ⟨h₁, h₂, hrest⟩ := Option.bind_eq_some_iff.mp hm
    obtain ⟨⟨h₃, p⟩, hmalloc, rfl⟩ := Option.map_eq_some_iff.mp h₂
    exact ih (malloc_spec hw hmalloc).1 hrest

/-- `kmalloc` returns an object within the heap. -/
theorem kmalloc_spec {start : ℕ} {h h' : KHeap} {size p : U32} {removal : Option (List U32)}
    (hw : Within start h) (hm : h.kmalloc size removal = some (h', p)) :
    Within start h' ∧ start ≤ p.toNat ∧ p.toNat + size.toNat ≤ start + 0x400000 := by
  rw [kmalloc] at hm
  obtain ⟨⟨h₁, p₁⟩, h1, hm⟩ := Option.bind_eq_some_iff.mp hm
  obtain ⟨hw₁, hobj₁⟩ := malloc_spec hw h1
  dsimp only at hm
  by_cases hp₁ : p₁ ≠ 0#32
  · rw [if_pos hp₁, Option.some_inj, Prod.mk.injEq] at hm
    obtain ⟨rfl, rfl⟩ := hm
    exact ⟨hw₁, hobj₁ hp₁⟩
  rw [if_neg hp₁] at hm
  cases removal with
  | none => exact absurd hm (by simp)
  | some sizes =>
    obtain ⟨h₂, h2, hm⟩ := Option.bind_eq_some_iff.mp hm
    obtain ⟨⟨h₃, p₃⟩, h3, hm⟩ := Option.bind_eq_some_iff.mp hm
    obtain ⟨hw₃, hobj₃⟩ := malloc_spec (within_mallocs sizes hw₁ h2) h3
    dsimp only at hm
    by_cases hp₃ : p₃ ≠ 0#32
    · rw [if_pos hp₃, Option.some_inj, Prod.mk.injEq] at hm
      obtain ⟨rfl, rfl⟩ := hm
      exact ⟨hw₃, hobj₃ hp₃⟩
    · rw [if_neg hp₃] at hm
      exact absurd hm (by simp)

end KHeap

/-! ### The boot sequence -/

/-- What the boot leaves, and what has been handed out since. -/
structure Kernel where
  pmm : PMM
  heap : KHeap
  /-- every block that `allocate_block` has returned -/
  returned : List U32
  /-- those that have not been given back -/
  outstanding : List U32
  /-- address and size of every object that `kmalloc` has returned -/
  objects : List (U32 × U32)

namespace Kernel

/-- A call of `PMM::allocate_block`. -/
def allocate (k : Kernel) : Kernel :=
  let (pmm, p) := k.pmm.allocateBlock
  if p = 0#32 then { k with pmm := pmm }
  else { k with pmm := pmm, returned := p :: k.returned, outstanding := p :: k.outstanding }

end Kernel

/-- The size of memory that the kernel computes from the multiboot information. -/
def memSize (mbt : MultibootInfo) : U32 := (mbt.memLower + mbt.memUpper) * 1024

/-- The loop that locks the blocks of the kernel image. -/
def lockKernel (kernelEnd : U32) (s : PMM) : Option PMM :=
  (whileLoop (fun st : U32 × PMM => decide (st.1 < kernelEnd))
    (fun st => some (st.1 + 4096, st.2.setBlock (st.1 / 4096))) loopFuel (0x100000#32, s)).map
    Prod.snd

def heapStart (kernelEnd memSize : U32) : U32 := kernelEnd + memSize / 32 / 8 + 4096

/-- The kernel heap has 4 MiB. -/
def heapSize : U32 := 4 * 1024 * 1024

/-- `Paging::initialize` allocates the kernel directory and the tables of 64 MiB. -/
def pagingBlocks : ℕ := 17

/-- The memory part of `kernel_main`: `words` is what memory holds at `kernel_end`, `mem`
the bytes of the memory map. -/
def kernelMain (words : ℕ → U32) (mem : U32 → U8) (mbt : MultibootInfo) (kernelEnd : U32) :
    Option Kernel := do
  let pmm := PMM.unset.initializePMM words kernelEnd (memSize mbt)
  let pmm ← loadMemoryMap mem mbt pmm
  let pmm ← lockKernel kernelEnd pmm
  let heap := KHeap.initializeHeap (heapStart kernelEnd (memSize mbt)) heapSize
  let k : Kernel := { pmm := pmm, heap := heap, returned := [], outstanding := [], objects := [] }
  some (Kernel.allocate^[pagingBlocks] k)

/-- A call after the boot. -/
inductive Act where
  | allocate
  | free (p : U32)
  | kmalloc (size : U32) (removal : Option (List U32))

def Kernel.step (k : Kernel) : Act → Option Kernel
  | .allocate => some k.allocate
  | .free p => some { k with pmm := k.pmm.freeBlock p, outstanding := k.outstanding.erase p }
  | .kmalloc size removal => (k.heap.kmalloc size removal).map fun (heap, p) =>
      { k with heap := heap, objects := (p, size) :: k.objects }

/-- Only outstanding blocks are given back. -/
def Act.Allowed (k : Kernel) : Act → Prop
  | .free p => p ∈ k.outstanding
  | _ => True

/-- The block at address `a` and the bytes from `lo` up to `hi` have one in common. -/
def Overlaps (a lo hi : ℕ) : Prop := ∃ x, a ≤ x ∧ x < a + 4096 ∧ lo ≤ x ∧ x < hi

/-- The bytes of the bitmap words for that much memory. -/
def bitmapBytes (memSize : U32) : ℕ := 4 * ((memSize.toNat / 4096 + 31) / 32)

/-- No block that was handed out overlaps the kernel image, the bitmap, the heap or an
object in it. -/
structure Safe (kernelEnd memSize : U32) (k : Kernel) : Prop where
  image : ∀ p ∈ k.returned, ¬ Overlaps p.toNat 0x100000 kernelEnd.toNat
  bitmap : ∀ p ∈ k.returned,
    ¬ Overlaps p.toNat kernelEnd.toNat (kernelEnd.toNat + bitmapBytes memSize)
  heap : ∀ p ∈ k.returned, ¬ Overlaps p.toNat (heapStart kernelEnd memSize).toNat
    ((heapStart kernelEnd memSize).toNat + 0x400000)
  objects : ∀ p ∈ k.returned, ∀ o ∈ k.objects,
    ¬ Overlaps p.toNat o.1.toNat (o.1.toNat + o.2.toNat)

/-! ### The state after the boot -/

/-- Block `b` belongs to the kernel image. -/
def InImage (kernelEnd : U32) (b : ℕ) : Prop := 256 ≤ b ∧ b * 4096 < kernelEnd.toNat

instance (kernelEnd : U32) (b : ℕ) : Decidable (InImage kernelEnd b) :=
  inferInstanceAs (Decidable (_ ∧ _))

/-- What the locking loop keeps: the blocks up to the current address are marked. -/
structure LockInv (kernelEnd : U32) (s : PMM) (st : U32 × PMM) : Prop where
  pages : 4096 ∣ st.1.toNat
  reached : st.1.toNat = 0x100000 ∨ st.1.toNat < kernelEnd.toNat + 4096
  lower : 0x100000 ≤ st.1.toNat
  frame : st.2.bitmap = s.bitmap ∧ st.2.maxBlocks = s.maxBlocks
  locked : ∀ b, st.2.marked b = (s.marked b || decide (s.bitmap ≠ 0#32 ∧
    b < s.maxBlocks.toNat ∧ 256 ≤ b ∧ b * 4096 < st.1.toNat))

theorem lockInv_step {kernelEnd : U32} {s t : PMM} {i : U32}
    (hend : kernelEnd.toNat + 4096 ≤ 2 ^ 32) (h : LockInv kernelEnd s (i, t))
    (hlt : i < kernelEnd) :
    LockInv kernelEnd s (i + 4096, t.setBlock (i / 4096)) ∧
      (i + 4096).toNat = i.toNat + 4096 := by
  obtain ⟨hpages, -, hlower, hframe, hlocked⟩ := h
  dsimp only at hpages hlower hframe hlocked
  have hlt' : i.toNat < kernelEnd.toNat := BitVec.lt_def.mp hlt
  have hi : (i + 4096).toNat = i.toNat + 4096 := by
    rw [BitVec.toNat_add, show (4096 : U32).toNat = 4096 from rfl]
    omega
  have hdiv : (i / 4096).toNat = i.toNat / 4096 := by
    rw [BitVec.toNat_udiv]
    rfl
  refine ⟨⟨?_, Or.inr ?_, ?_, by simpa using hframe, fun b => ?_⟩, hi⟩
  · show 4096 ∣ (i + 4096).toNat
    rw [hi]
    exact Nat.dvd_add hpages (Nat.dvd_refl _)
  · show (i + 4096).toNat < kernelEnd.toNat + 4096
    omega
  · show 0x100000 ≤ (i + 4096).toNat
    omega
  · show (t.setBlock (i / 4096)).marked b = _
    rw [PMM.marked_setBlock, hlocked b, hdiv, hframe.1, hframe.2, Bool.or_assoc,
      ← Bool.decide_and, ← Bool.decide_and, ← Bool.decide_or, hi]
    refine congrArg (fun x => s.marked b || x) (decide_eq_decide.mpr ?_)
    constructor
    · rintro (⟨h0, hb, h1, h2⟩ | ⟨⟨h1, h0⟩, hb⟩)
      · exact ⟨h0, hb, h1, by omega⟩
      · exact ⟨h0, hb, by omega, by omega⟩
    · rintro ⟨h0, hb, h1, h2⟩
      by_cases hbi : b * 4096 < i.toNat
      · exact Or.inl ⟨h0, hb, h1, hbi⟩
      · exact Or.inr ⟨⟨by omega, h0⟩, hb⟩

/-- The locking loop ends, and marks the blocks of the image. -/
theorem lockKernel_spec {kernelEnd : U32} (hend : kernelEnd.toNat + 4096 ≤ 2 ^ 32) (s : PMM) :
    ∃ s', lockKernel kernelEnd s = some s' ∧ s'.bitmap = s.bitmap ∧
      s'.maxBlocks = s.maxBlocks ∧
      ∀ b, s'.marked b = (s.marked b || decide (s.bitmap ≠ 0#32 ∧ b < s.maxBlocks.toNat ∧
        InImage kernelEnd b)) := by
  have hinit : LockInv kernelEnd s (0x100000#32, s) := by
    have h0 : (0x100000#32).toNat = 0x100000 := rfl
    refine ⟨⟨256, h0⟩, Or.inl rfl, le_refl _, ⟨rfl, rfl⟩, fun b => ?_⟩
    rw [eq_comm, Bool.or_eq_left_iff_imp, decide_eq_true_eq]
    rintro ⟨-, -, h1, h2⟩
    dsimp only at h2
    omega
  obtain ⟨⟨i, t⟩, hloop, hinv, hexit⟩ :=
    whileLoop_spec (fun st : U32 × PMM => decide (st.1 < kernelEnd))
      (fun st => some (st.1 + 4096, st.2.setBlock (st.1 / 4096)))
      (LockInv kernelEnd s) (fun st => 2 ^ 32 - st.1.toNat)
      (fun st hst hcond => by
        obtain ⟨hinv, hnext⟩ := lockInv_step hend hst (of_decide_eq_true hcond)
        refine ⟨_, rfl, hinv, ?_⟩
        have := st.1.isLt
        show 2 ^ 32 - (st.1 + 4096).toNat < _
        omega)
      loopFuel hinit (by rw [loopFuel]; omega)
  obtain ⟨hpages, hreach, hlower, hframe, hlocked⟩ := hinv
  dsimp only at hpages hreach hlower hframe hlocked
  have hge : kernelEnd.toNat ≤ i.toNat := by
    have hnot := of_decide_eq_false hexit
    rwa [BitVec.not_lt, BitVec.le_def] at hnot
  refine ⟨t, by rw [lockKernel, hloop]; rfl, hframe.1, hframe.2, fun b => ?_⟩
  rw [hlocked b]
  refine congrArg (fun x => s.marked b || x) (decide_eq_decide.mpr ?_)
  rw [InImage]
  refine and_congr_right fun _ => and_congr_right fun _ => and_congr_right fun h256 => ?_
  omega

namespace Kernel

@[simp] theorem allocate_heap (k : Kernel) : k.allocate.heap = k.heap := by
  rw [allocate]
  dsimp only
  split <;> rfl

@[simp] theorem allocate_objects (k : Kernel) : k.allocate.objects = k.objects := by
  rw [allocate]
  dsimp only
  split <;> rfl

@[simp] theorem allocate_pmm (k : Kernel) : k.allocate.pmm = k.pmm.allocateBlock.1 := by
  rw [allocate]
  dsimp only
  split <;> rfl

/-- Either nothing changes, for want of a free block; or the lowest free block is marked,
and it is returned unless it is block 0, whose address is the null pointer. -/
theorem allocate_cases (k : Kernel) :
    (k.allocate = k ∧ (k.pmm.bitmap = 0#32 ∨ ∀ c < k.pmm.scanned, k.pmm.marked c = true)) ∨
    ∃ b < k.pmm.scanned, k.pmm.marked b = false ∧ (∀ c < b, k.pmm.marked c = true) ∧
      (∀ c, k.allocate.pmm.marked c = (k.pmm.marked c || decide (c = b))) ∧
      ((b = 0 ∧ k.allocate.returned = k.returned ∧ k.allocate.outstanding = k.outstanding) ∨
        (0 < b ∧ ∃ p, p.toNat = b * 4096 ∧ k.allocate.returned = p :: k.returned ∧
          k.allocate.outstanding = p :: k.outstanding)) := by
  rcases PMM.allocateBlock_cases k.pmm with ⟨ha, hnone⟩ | ⟨b, h0, hb, hclear, hmin, ha⟩
  · exact Or.inl ⟨by rw [allocate, ha]; rfl, hnone⟩
  have hlt : b < k.pmm.maxBlocks.toNat := lt_of_lt_of_le hb k.pmm.scanned_le
  have haddr := PMM.toNat_allocated hlt
  have hmark : ∀ c, k.allocate.pmm.marked c = (k.pmm.marked c || decide (c = b)) := by
    rw [allocate_pmm, ha]
    exact k.pmm.marked_setBlock_ofNat h0 hlt
  refine Or.inr ⟨b, hb, hclear, hmin, hmark, ?_⟩
  rcases Nat.eq_zero_or_pos b with rfl | hpos
  · have hp : BitVec.ofNat 32 0 * blockSize = 0#32 := rfl
    refine Or.inl ⟨rfl, ?_, ?_⟩ <;> simp [allocate, ha, hp]
  · have hp : BitVec.ofNat 32 b * blockSize ≠ 0#32 := by
      intro heq
      rw [heq] at haddr
      simp at haddr
      omega
    refine Or.inr ⟨hpos, _, haddr, ?_, ?_⟩ <;> rw [allocate, ha] <;> simp only [if_neg hp]

end Kernel

/-- `Paging::initialize` takes that many blocks from the manager, one after another. -/
theorem initializePaging_pmm (m : Machine) :
    (Paging.initializePaging m).pmm =
      (fun s : PMM => s.allocateBlock.1)^[pagingBlocks] m.pmm := by
  have hwords : ∀ (p : U32) (x : ℕ → U32) (is : List ℕ) (m : Machine),
      (is.foldl (fun m i => m.setWord p i (x i)) m).pmm = m.pmm := by
    intro p x is
    induction is with
    | nil => exact fun m => rfl
    | cons i is ih => exact fun m => by rw [List.foldl_cons, ih, Machine.setWord_pmm]
  have htable : ∀ (m : Machine) (j : ℕ), (Paging.mapTable m j).pmm = m.pmm.allocateBlock.1 := by
    intro m j
    rw [Paging.mapTable]
    dsimp only
    rw [Machine.setWord_pmm, hwords, Machine.clearPage_pmm]
    rfl
  have hfold : ∀ (n : ℕ) (m : Machine), ((List.range n).foldl Paging.mapTable m).pmm =
      (fun s : PMM => s.allocateBlock.1)^[n] m.pmm := by
    intro n
    induction n with
    | zero => exact fun m => rfl
    | succ n ih =>
      intro m
      rw [List.range_succ, List.foldl_append, List.foldl_cons, List.foldl_nil, htable, ih,
        Function.iterate_succ_apply']
  rw [Paging.initializePaging]
  dsimp only
  rw [hfold, show pagingBlocks = 16 + 1 from rfl, Function.iterate_succ_apply]
  rfl

/-- Before paging the free blocks are those that the map frees and the locking loop leaves. -/
theorem lockedMap_spec (words : ℕ → U32) {mem : U32 → U8} {mbt : MultibootInfo}
    {kernelEnd : U32} {es : List MultibootMmapEntry} (hmap : MapOf mem mbt es)
    (hend : kernelEnd.toNat + 4096 ≤ 2 ^ 32) :
    ∃ s₁ s, loadMemoryMap mem mbt (PMM.unset.initializePMM words kernelEnd (memSize mbt)) =
        some s₁ ∧ lockKernel kernelEnd s₁ = some s ∧
      s.maxBlocks.toNat = managedBlocks kernelEnd (memSize mbt) ∧
      (0 < s.maxBlocks.toNat → s.bitmap ≠ 0#32) ∧ (∀ b, s₁.marked b = true → s.marked b = true) ∧
      ∀ b, 0 < b → b < s.maxBlocks.toNat →
        (s.marked b = false ↔ (∃ e ∈ es, Frees e b) ∧ ¬ InImage kernelEnd b) := by
  set s₀ := PMM.unset.initializePMM words kernelEnd (memSize mbt) with hs₀
  have hmax₀ : s₀.maxBlocks.toNat = managedBlocks kernelEnd (memSize mbt) :=
    maxBlocks_initial words kernelEnd (memSize mbt)
  have hmark₀ : ∀ b, s₀.marked b = decide (b < s₀.maxBlocks.toNat) :=
    marked_initial words kernelEnd (memSize mbt)
  obtain ⟨s₁, h₁, hbm₁, hmax₁, hmark₁⟩ := loadMemoryMap_spec hmap s₀
  obtain ⟨s₂, h₂, hbm₂, hmax₂, hmark₂⟩ := lockKernel_spec hend s₁
  have hbitmap : 0 < s₂.maxBlocks.toNat → s₂.bitmap ≠ 0#32 := by
    intro hpos
    rw [hmax₂, hmax₁] at hpos
    rw [hbm₂, hbm₁]
    exact PMM.bitmap_of_marked ((hmark₀ 0).trans (decide_eq_true hpos))
  refine ⟨s₁, s₂, h₁, h₂, by rw [hmax₂, hmax₁, hmax₀], hbitmap, fun b hb => ?_,
    fun b hb hlt => ?_⟩
  · rw [hmark₂, hb, Bool.true_or]
  · have hbm := hbitmap (Nat.zero_lt_of_lt hlt)
    rw [hbm₂] at hbm
    rw [hmax₂] at hlt
    rw [hmark₂ b, hmark₁ b hb, hmark₀ b, decide_eq_true (hmax₁ ▸ hlt), Bool.true_and,
      Bool.or_eq_false_iff, Bool.not_eq_false', decide_eq_true_eq, decide_eq_false_iff_not]
    exact and_congr_right fun _ => not_congr ⟨fun h => h.2.2, fun h => ⟨hbm, hlt, h⟩⟩

/-- **After the boot** the blocks for paging have then been taken. -/
theorem kernelMain_spec (words : ℕ → U32) {mem : U32 → U8} {mbt : MultibootInfo}
    {kernelEnd : U32} {es : List MultibootMmapEntry} (hmap : MapOf mem mbt es)
    (hend : kernelEnd.toNat + 4096 ≤ 2 ^ 32) :
    ∃ s, kernelMain words mem mbt kernelEnd = some (Kernel.allocate^[pagingBlocks]
        ⟨s, KHeap.initializeHeap (heapStart kernelEnd (memSize mbt)) heapSize, [], [], []⟩) ∧
      s.maxBlocks.toNat = managedBlocks kernelEnd (memSize mbt) ∧
      (0 < s.maxBlocks.toNat → s.bitmap ≠ 0#32) ∧
      ∀ b, 0 < b → b < s.maxBlocks.toNat →
        (s.marked b = false ↔ (∃ e ∈ es, Frees e b) ∧ ¬ InImage kernelEnd b) := by
  obtain ⟨s₁, s, h₁, h, hmax, hbitmap, -, hfree⟩ := lockedMap_spec words hmap hend
  refine ⟨s, ?_, hmax, hbitmap, hfree⟩
  rw [kernelMain, h₁]
  simp only [Option.bind_eq_bind, Option.bind_some, h]

/-! ### Runs after the boot -/

theorem overlaps_iff (a lo hi : ℕ) : Overlaps a lo hi ↔ a < hi ∧ lo < a + 4096 ∧ lo < hi := by
  constructor
  · rintro ⟨x, h1, h2, h3, h4⟩
    omega
  · rintro ⟨h1, h2, h3⟩
    exact ⟨max a lo, by omega, by omega, by omega, by omega⟩

/-- Block `b` touches neither the bitmap nor the heap. -/
def Clear (kernelEnd memSize : U32) (b : ℕ) : Prop :=
  ¬ Overlaps (b * 4096) kernelEnd.toNat (kernelEnd.toNat + bitmapBytes memSize) ∧
  ¬ Overlaps (b * 4096) (heapStart kernelEnd memSize).toNat
    ((heapStart kernelEnd memSize).toNat + 0x400000)

/-- What every call keeps, when all free blocks are good ones. -/
structure Drawn (good : ℕ → Prop) (k : Kernel) : Prop where
  free : ∀ b, 0 < b → b < k.pmm.scanned → k.pmm.marked b = false → good b
  returned : ∀ p ∈ k.returned, ∃ b, p.toNat = b * 4096 ∧ good b
  outstanding : ∀ p ∈ k.outstanding, p ∈ k.returned

/-- The same, with the heap and its objects in their region. -/
structure Apart (good : ℕ → Prop) (start : ℕ) (k : Kernel) : Prop where
  free : ∀ b, 0 < b → b < k.pmm.scanned → k.pmm.marked b = false → good b
  returned : ∀ p ∈ k.returned, ∃ b, p.toNat = b * 4096 ∧ good b
  outstanding : ∀ p ∈ k.outstanding, p ∈ k.returned
  within : KHeap.Within start k.heap
  objects : ∀ o ∈ k.objects, start ≤ o.1.toNat ∧ o.1.toNat + o.2.toNat ≤ start + 0x400000

section Runs

variable {good : ℕ → Prop} {start : ℕ}

theorem drawn_allocate {k : Kernel} (h : Drawn good k) : Drawn good k.allocate := by
  have hscan : k.allocate.pmm.scanned = k.pmm.scanned := by simp [PMM.scanned]
  rcases Kernel.allocate_cases k with ⟨heq, -⟩ | ⟨b, hlt, hclear, -, hmark, hret⟩
  · rwa [heq]
  have hfree : ∀ c, 0 < c → c < k.allocate.pmm.scanned → k.allocate.pmm.marked c = false →
      good c := by
    intro c hc hlt' hfree
    rw [hmark, Bool.or_eq_false_iff] at hfree
    exact h.free c hc (hscan ▸ hlt') hfree.1
  rcases hret with ⟨-, hret, hout⟩ | ⟨hb, p, hp, hret, hout⟩
  · exact ⟨hfree, hret ▸ h.returned, by rw [hret, hout]; exact h.outstanding⟩
  · refine ⟨hfree, fun q hq => ?_, fun q hq => ?_⟩
    · rw [hret] at hq
      rcases List.mem_cons.mp hq with rfl | hq
      · exact ⟨b, hp, h.free b hb hlt hclear⟩
      · exact h.returned q hq
    · rw [hout] at hq
      rw [hret]
      rcases List.mem_cons.mp hq with rfl | hq
      · exact List.mem_cons_self
      · exact List.mem_cons_of_mem p (h.outstanding q hq)

/-- **One call** draws on the good blocks. -/
theorem drawn_step {k k' : Kernel} {a : Act} (h : Drawn good k) (hok : a.Allowed k)
    (hstep : k.step a = some k') : Drawn good k' := by
  cases a with
  | allocate =>
    simp only [Kernel.step, Option.some_inj] at hstep
    exact hstep ▸ drawn_allocate h
  | free p =>
    simp only [Kernel.step, Option.some_inj] at hstep
    subst hstep
    refine ⟨fun c hc hlt hfree => ?_, h.returned,
      fun q hq => h.outstanding q (List.mem_of_mem_erase hq)⟩
    -- a block that is free now was free before, or is the one that was given back
    dsimp only at hlt hfree
    rw [PMM.marked_freeBlock, Bool.and_eq_false_iff] at hfree
    rcases hfree with hfree | hfree
    · exact h.free c hc (by simpa [PMM.scanned] using hlt) hfree
    · rw [Bool.not_eq_false', Bool.and_eq_true, decide_eq_true_eq, decide_eq_true_eq] at hfree
      obtain ⟨b, hb, hgood⟩ := h.returned p (h.outstanding p hok)
      rwa [show c = b by omega]
  | kmalloc size removal =>
    obtain ⟨⟨heap, p⟩, -, rfl⟩ := Option.map_eq_some_iff.mp hstep
    exact ⟨h.free, h.returned, h.outstanding⟩

theorem Apart.drawn {k : Kernel} (h : Apart good start k) : Drawn good k :=
  ⟨h.free, h.returned, h.outstanding⟩

theorem Drawn.apart {k : Kernel} (h : Drawn good k) (hwithin : KHeap.Within start k.heap)
    (hobjects : ∀ o ∈ k.objects,
      start ≤ o.1.toNat ∧ o.1.toNat + o.2.toNat ≤ start + 0x400000) : Apart good start k :=
  ⟨h.free, h.returned, h.outstanding, hwithin, hobjects⟩

theorem apart_allocate {k : Kernel} (h : Apart good start k) : Apart good start k.allocate :=
  (drawn_allocate h.drawn).apart (Kernel.allocate_heap k ▸ h.within)
    (Kernel.allocate_objects k ▸ h.objects)

theorem apart_iterate (n : ℕ) {k : Kernel} (h : Apart good start k) :
    Apart good start (Kernel.allocate^[n] k) := by
  induction n generalizing k with
  | zero => exact h
  | succ n ih => exact ih (apart_allocate h)

/-- **One call** keeps blocks and objects apart. -/
theorem apart_step {k k' : Kernel} {a : Act} (h : Apart good start k) (hok : a.Allowed k)
    (hstep : k.step a = some k') : Apart good start k' := by
  have hdrawn := drawn_step h.drawn hok hstep
  cases a with
  | allocate =>
    simp only [Kernel.step, Option.some_inj] at hstep
    exact hstep ▸ apart_allocate h
  | free p =>
    simp only [Kernel.step, Option.some_inj] at hstep
    subst hstep
    exact hdrawn.apart h.within h.objects
  | kmalloc size removal =>
    obtain ⟨⟨heap, p⟩, hk, rfl⟩ := Option.map_eq_some_iff.mp hstep
    obtain ⟨hw, hlo, hhi⟩ := KHeap.kmalloc_spec h.within hk
    refine hdrawn.apart hw fun o ho => ?_
    rcases List.mem_cons.mp ho with rfl | ho
    · exact ⟨hlo, hhi⟩
    · exact h.objects o ho

end Runs

theorem safe_of_apart {kernelEnd memSize : U32} {k : Kernel}
    (h : Apart (fun b => ¬ InImage kernelEnd b ∧ Clear kernelEnd memSize b)
      (heapStart kernelEnd memSize).toNat k) : Safe kernelEnd memSize k := by
  refine ⟨fun p hp => ?_, fun p hp => ?_, fun p hp => ?_, fun p hp o ho => ?_⟩
  all_goals obtain ⟨b, hb, himage, hbitmap, hheap⟩ := h.returned p hp
  · rw [hb, overlaps_iff]
    rintro ⟨h1, h2, -⟩
    exact himage ⟨by omega, h1⟩
  · rw [hb]
    exact hbitmap
  · rw [hb]
    exact hheap
  · obtain ⟨hlo, hhi⟩ := h.objects o ho
    rintro ⟨x, h1, h2, h3, h4⟩
    exact hheap ⟨x, by omega, by omega, by omega, by omega⟩

/-! ### Every free block is handed out some time -/

/-- Block `b` is free or has been handed out. -/
def Pending (b : ℕ) (k : Kernel) : Prop :=
  k.pmm.marked b = false ∨ ∃ p ∈ k.returned, p.toNat = b * 4096

theorem pending_allocate {b : ℕ} (hb : 0 < b) {k : Kernel} (h : Pending b k) :
    Pending b k.allocate := by
  rcases Kernel.allocate_cases k with ⟨heq, -⟩ | ⟨c, -, -, -, hmark, hret⟩
  · rwa [heq]
  rcases h with h | ⟨q, hq, hqb⟩
  · by_cases hbc : b = c
    · rcases hret with ⟨h0, -, -⟩ | ⟨-, p, hp, hret, -⟩
      · omega
      · exact Or.inr ⟨p, hret ▸ List.mem_cons_self, hbc ▸ hp⟩
    · exact Or.inl (by rw [hmark, h, Bool.false_or, decide_eq_false hbc])
  · refine Or.inr ⟨q, ?_, hqb⟩
    rcases hret with ⟨-, hret, -⟩ | ⟨-, p, -, hret, -⟩
    · exact hret ▸ hq
    · exact hret ▸ List.mem_cons_of_mem p hq

theorem pending_iterate {b : ℕ} (hb : 0 < b) (n : ℕ) {k : Kernel} (h : Pending b k) :
    Pending b (Kernel.allocate^[n] k) := by
  induction n generalizing k with
  | zero => exact h
  | succ n ih => exact ih (pending_allocate hb h)

theorem iterate_allocateBlock (n : ℕ) (s : PMM) :
    ((fun s : PMM => s.allocateBlock.1)^[n] s).bitmap = s.bitmap ∧
      ((fun s : PMM => s.allocateBlock.1)^[n] s).maxBlocks = s.maxBlocks := by
  induction n generalizing s with
  | zero => exact ⟨rfl, rfl⟩
  | succ n ih => simpa using ih s.allocateBlock.1

theorem iterate_pmm (n : ℕ) (k : Kernel) :
    (Kernel.allocate^[n] k).pmm.bitmap = k.pmm.bitmap ∧
      (Kernel.allocate^[n] k).pmm.maxBlocks = k.pmm.maxBlocks := by
  induction n generalizing k with
  | zero => exact ⟨rfl, rfl⟩
  | succ n ih => simpa using ih k.allocate

/-- Allocating on and on marks the blocks in order. -/
theorem marked_below {b : ℕ} (hb : 0 < b) {k : Kernel} (h0 : k.pmm.bitmap ≠ 0#32)
    (hscan : b < k.pmm.scanned) (hpend : Pending b k) :
    ∀ n ≤ b, ∃ j, (∀ c < n, (Kernel.allocate^[j] k).pmm.marked c = true) ∧
      Pending b (Kernel.allocate^[j] k) := by
  intro n
  induction n with
  | zero => exact fun _ => ⟨0, by simp, hpend⟩
  | succ n ih =>
    intro hn
    obtain ⟨j, hbelow, hj⟩ := ih (by omega)
    obtain ⟨hbm, hmax⟩ := iterate_pmm j k
    cases hm : (Kernel.allocate^[j] k).pmm.marked n with
    | true =>
      refine ⟨j, fun c hc => ?_, hj⟩
      rcases Nat.lt_succ_iff_lt_or_eq.mp hc with hlt | rfl
      · exact hbelow c hlt
      · exact hm
    | false =>
      -- block `n` is the lowest free one, so the next call takes it
      have hns : n < (Kernel.allocate^[j] k).pmm.scanned := by
        rw [PMM.scanned, hmax, ← PMM.scanned]
        omega
      refine ⟨j + 1, fun c hc => ?_, ?_⟩
      · rw [Function.iterate_succ_apply']
        rcases Kernel.allocate_cases (Kernel.allocate^[j] k) with ⟨-, hnone | hall⟩ |
          ⟨d, -, hd, hmin, hmark, -⟩
        · exact absurd hnone (by rwa [hbm])
        · rw [hall n hns] at hm
          exact absurd hm (by simp)
        · have hdn : ¬ n < d := fun hlt => by
            rw [hmin n hlt] at hm
            exact absurd hm (by simp)
          have hdn' : ¬ d < n := fun hlt => by
            rw [hbelow d hlt] at hd
            exact absurd hd (by simp)
          rw [hmark]
          by_cases hcn : c = d
          · simp [hcn]
          · rw [hbelow c (by omega), Bool.true_or]
      · rw [Function.iterate_succ_apply']
        exact pending_allocate hb hj

/-- **A free block is handed out** by calling `allocate_block` often enough. -/
theorem allocated_eventually {b : ℕ} (hb : 0 < b) {k : Kernel} (h0 : k.pmm.bitmap ≠ 0#32)
    (hscan : b < k.pmm.scanned) (hpend : Pending b k) :
    ∃ j, ∃ p ∈ (Kernel.allocate^[j] k).returned, p.toNat = b * 4096 := by
  obtain ⟨j, hbelow, hj⟩ := marked_below hb h0 hscan hpend b (le_refl b)
  obtain ⟨hbm, hmax⟩ := iterate_pmm j k
  rcases hj with hfree | hret
  · refine ⟨j + 1, ?_⟩
    rw [Function.iterate_succ_apply']
    rcases Kernel.allocate_cases (Kernel.allocate^[j] k) with ⟨-, hnone | hall⟩ |
      ⟨d, -, hd, hmin, -, hret⟩
    · exact absurd hnone (by rwa [hbm])
    · rw [hall b (by rwa [PMM.scanned, hmax, ← PMM.scanned])] at hfree
      exact absurd hfree (by simp)
    · have hdb : ¬ b < d := fun hlt => by
        rw [hmin b hlt] at hfree
        exact absurd hfree (by simp)
      have hdb' : ¬ d < b := fun hlt => by
        rw [hbelow d hlt] at hd
        exact absurd hd (by simp)
      rcases hret with ⟨h0', -, -⟩ | ⟨-, p, hp, hret, -⟩
      · omega
      · exact ⟨p, hret ▸ List.mem_cons_self, by rw [hp]; omega⟩
  · exact ⟨j, hret⟩

theorem run_allocate {ok : Kernel → Act → Prop} (hok : ∀ k, ok k .allocate) (j : ℕ)
    (k : Kernel) : Guarded Kernel.step ok k (List.replicate j .allocate) ∧
      run Kernel.step k (List.replicate j .allocate) = some (Kernel.allocate^[j] k) := by
  induction j generalizing k with
  | zero => exact ⟨trivial, rfl⟩
  | succ j ih =>
    rw [List.replicate_succ]
    refine ⟨⟨hok k, fun k' hk' => ?_⟩, ?_⟩
    · simp only [Kernel.step, Option.some_inj] at hk'
      exact hk' ▸ (ih k.allocate).1
    · rw [run_cons, Kernel.step, Option.bind_some, (ih k.allocate).2]
      rfl

/-- The boot comes to its end, and every run after it is safe. -/
def BootSafe (words : ℕ → U32) (mem : U32 → U8) (mbt : MultibootInfo) (kernelEnd : U32) : Prop :=
  ∃ k, kernelMain words mem mbt kernelEnd = some k ∧ ∀ acts : List Act,
    Guarded Kernel.step (fun k a => a.Allowed k) k acts →
    ∀ k', run Kernel.step k acts = some k' → Safe kernelEnd (memSize mbt) k'

section Boot

variable {words : ℕ → U32} {mem : U32 → U8} {mbt : MultibootInfo} {kernelEnd : U32}
  {es : List MultibootMmapEntry}

/-- The heap before the first `kmalloc`. -/
theorem within_initializeHeap
    (hfits : kernelEnd.toNat + (memSize mbt).toNat / 256 + 4096 + 0x400000 + 8 ≤ 2 ^ 32) :
    KHeap.Within (heapStart kernelEnd (memSize mbt)).toNat
      (KHeap.initializeHeap (heapStart kernelEnd (memSize mbt)) heapSize) := by
  have hstart : (heapStart kernelEnd (memSize mbt)).toNat =
      kernelEnd.toNat + (memSize mbt).toNat / 256 + 4096 := by
    rw [heapStart, BitVec.toNat_add, BitVec.toNat_add, BitVec.toNat_udiv, BitVec.toNat_udiv,
      show (32 : U32).toNat = 32 from rfl, show (8 : U32).toNat = 8 from rfl,
      show (4096 : U32).toNat = 4096 from rfl, Nat.div_div_eq_div_mul]
    omega
  have hends : (heapStart kernelEnd (memSize mbt) + heapSize).toNat =
      (heapStart kernelEnd (memSize mbt)).toNat + 0x400000 := by
    rw [BitVec.toNat_add, show heapSize.toNat = 0x400000 from rfl]
    omega
  refine ⟨le_refl _, ?_, hends, by omega⟩
  show (heapStart kernelEnd (memSize mbt)).toNat ≤
    ((heapStart kernelEnd (memSize mbt) + heapSize).toNat + 7) / 8 * 8
  omega

/-- If a block that can be handed out touches the bitmap or the heap, it is handed out. -/
theorem clear_of_bootSafe (hmap : MapOf mem mbt es) (hend : kernelEnd.toNat + 4096 ≤ 2 ^ 32)
    (hsafe : BootSafe words mem mbt kernelEnd) {b : ℕ} (hb : 1 ≤ b)
    (hlt : b < managedBlocks kernelEnd (memSize mbt) / 32 * 32) (hfrees : ∃ e ∈ es, Frees e b)
    (himage : ¬ InImage kernelEnd b) : Clear kernelEnd (memSize mbt) b := by
  obtain ⟨s, hk, hmax, hbm, hfree⟩ := kernelMain_spec words hmap hend
  have hle := s.scanned_le
  have hlt' : b < s.scanned := by rwa [PMM.scanned, hmax]
  have hclear := (hfree b hb (by omega)).mpr ⟨hfrees, himage⟩
  set k₀ : Kernel :=
    ⟨s, KHeap.initializeHeap (heapStart kernelEnd (memSize mbt)) heapSize, [], [], []⟩
  obtain ⟨hbm', hmax'⟩ := iterate_pmm pagingBlocks k₀
  have hpend := pending_iterate hb pagingBlocks (k := k₀) (Or.inl hclear)
  obtain ⟨j, p, hp, hpb⟩ := allocated_eventually hb (by rw [hbm']; exact hbm (by omega))
    (by rw [PMM.scanned, hmax', ← PMM.scanned]; exact hlt') hpend
  have hallowed : ∀ k, Act.allocate.Allowed k := fun _ => trivial
  obtain ⟨hok, hrun⟩ := run_allocate hallowed j (Kernel.allocate^[pagingBlocks] k₀)
  obtain ⟨k, hk', hruns⟩ := hsafe
  rw [hk, Option.some_inj] at hk'
  subst hk'
  have hsafe' := hruns _ hok _ hrun
  rw [Clear, ← hpb]
  exact ⟨hsafe'.bitmap p hp, hsafe'.heap p hp⟩

/-- If no such block can be handed out, no run goes wrong. -/
theorem bootSafe_of_clear (hmap : MapOf mem mbt es)
    (hfits : kernelEnd.toNat + (memSize mbt).toNat / 256 + 4096 + 0x400000 + 8 ≤ 2 ^ 32)
    (hgood : ∀ b, 1 ≤ b → b < managedBlocks kernelEnd (memSize mbt) / 32 * 32 →
      (∃ e ∈ es, Frees e b) → ¬ InImage kernelEnd b → Clear kernelEnd (memSize mbt) b) :
    BootSafe words mem mbt kernelEnd := by
  have hend : kernelEnd.toNat + 4096 ≤ 2 ^ 32 := by omega
  obtain ⟨s, hk, hmax, -, hfree⟩ := kernelMain_spec words hmap hend
  have hle := s.scanned_le
  refine ⟨_, hk, fun acts hok k' hrun => ?_⟩
  refine safe_of_apart (run_invariant (fun _ _ _ h hok hstep => apart_step h hok hstep) ?_ hok
    hrun)
  refine apart_iterate pagingBlocks ⟨fun b hb hlt hclear => ?_, by simp, by simp,
    within_initializeHeap hfits, by simp⟩
  dsimp only at hlt hclear
  obtain ⟨hfrees, himage⟩ := (hfree b hb (by omega)).mp hclear
  exact ⟨himage, hgood b hb (by rwa [PMM.scanned, hmax] at hlt) hfrees himage⟩

end Boot

/-- **When the boot is safe.**  For every memory map and memory size, if bitmap and heap
fit below 4 GiB behind the kernel: all runs are safe exactly when every block that the
map frees and that is not part of the image is clear of the bitmap and of the heap. -/
theorem boot_safe_iff (words : ℕ → U32) (mem : U32 → U8) (mbt : MultibootInfo)
    (kernelEnd : U32) (es : List MultibootMmapEntry) (hmap : MapOf mem mbt es)
    (hfits : kernelEnd.toNat + (memSize mbt).toNat / 256 + 4096 + 0x400000 + 8 ≤ 2 ^ 32) :
    BootSafe words mem mbt kernelEnd ↔
      ∀ b, 1 ≤ b → b < managedBlocks kernelEnd (memSize mbt) / 32 * 32 →
        (∃ e ∈ es, Frees e b) → ¬ InImage kernelEnd b → Clear kernelEnd (memSize mbt) b :=
  ⟨fun hsafe _ hb hlt hfrees himage =>
    clear_of_bootSafe hmap (by omega) hsafe hb hlt hfrees himage, bootSafe_of_clear hmap hfits⟩

/-- A memory map in which the available memory lies above the heap. -/
def highMap : List MultibootMmapEntry :=
  [⟨20, 0, 0, 0x1000000, 0, 2⟩, ⟨20, 0x1000000, 0, 0xF00000, 0, 1⟩]

theorem boot_safe_highMap :
    BootSafe (fun _ => 0) (storeMap 0x9000 highMap) ⟨639, 31744, 48, 0x9000⟩ 0x120000 := by
  have hmap : MapOf (storeMap 0x9000 highMap) ⟨639, 31744, 48, 0x9000⟩ highMap :=
    ⟨by decide, by decide, by decide, by decide, by decide, by decide, by decide, by decide⟩
  refine (boot_safe_iff _ _ _ _ highMap hmap (by decide)).mpr ?_
  rintro b hb hlt ⟨e, he, ht, -, hlo, -⟩ -
  -- the only available entry begins at 16 MiB
  have hb' : 0x1000000 ≤ b * 4096 := by
    simp only [highMap, List.mem_cons, List.not_mem_nil, or_false] at he
    rcases he with rfl | rfl
    · exact absurd ht (by decide)
    · exact hlo
  have h1 : (0x120000 : U32).toNat + bitmapBytes (memSize ⟨639, 31744, 48, 0x9000⟩) < 0x1000000 := by
    decide
  have h2 : (heapStart 0x120000 (memSize ⟨639, 31744, 48, 0x9000⟩)).toNat + 0x400000 <
      0x1000000 := by
    decide
  constructor
  · rintro ⟨x, hx, -, -, hx'⟩
    omega
  · rintro ⟨x, hx, -, -, hx'⟩
    omega

/-- On a PC with 32 MiB the map frees the block of the bitmap itself. -/
theorem boot_not_safe :
    ¬ BootSafe (fun _ => 0) (storeMap 0x9000 alignedMap) ⟨639, 31744, 72, 0x9000⟩ 0x120000 := by
  intro hsafe
  have hclear := clear_of_bootSafe mapOf_alignedMap (by decide) hsafe (b := 0x120) (by decide) (by decide)
    (by decide) (by decide)
  exact hclear.1 ⟨0x120000, by decide, by decide, by decide, by decide⟩

end MesaOS.Memory
