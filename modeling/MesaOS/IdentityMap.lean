/-
The identity map of the kernel (`Paging::initialize` in `memory/paging.cpp`).

The kernel reads and writes the blocks that `PMM::allocate_block` hands out at their
physical addresses, and `Paging::initialize` maps the first 64 MiB to themselves.  Which
blocks there are is up to the memory map of the boot loader.

* `marked_iterate` — the blocks that paging takes are the lowest ones;
* `identityTables_mapTable` — one turn of its loop, for a table that maps its 4 MiB to
  themselves;
* `alwaysMapped_iff` — all blocks handed out afterwards are mapped, exactly if the map
  frees no block from 64 MiB on but those that paging takes itself.
-/
import MesaOS.Boot
import MesaOS.FreshSpaces
import MesaOS.PMMRuns

open MachineWord Runs

namespace MesaOS.Memory

/-! ### The blocks for paging -/

/-- After `n` calls of `allocate_block` the lowest `n` free blocks are taken. -/
theorem marked_iterate (n : ℕ) {s : PMM} (h0 : s.bitmap ≠ 0#32) {b : ℕ} (hb : b < s.scanned) :
    ((fun s : PMM => s.allocateBlock.1)^[n] s).marked b = false ↔
      s.marked b = false ∧ n ≤ Nat.count (fun c => s.marked c = false) b := by
  induction n generalizing s with
  | zero => exact (and_iff_left (Nat.zero_le _)).symm
  | succ n ih =>
    have hscan : s.allocateBlock.1.scanned = s.scanned := by
      rw [PMM.scanned, PMM.allocateBlock_maxBlocks, PMM.scanned]
    rw [Function.iterate_succ_apply, ih (by rwa [PMM.allocateBlock_bitmap]) (by rwa [hscan])]
    rcases s.allocateBlock_cases with ⟨-, h | hall⟩ | ⟨a, -, ha, hclear, hmin, heq⟩
    · exact absurd h h0
    · -- no block is free, now or after the call
      have hmarked := hall b hb
      have hkept : s.allocateBlock.1.marked b = true := by
        rw [PMM.allocateBlock_eq_self (Or.inr hall)]
        exact hmarked
      rw [hkept, hmarked]
      simp
    have hmark : ∀ c, s.allocateBlock.1.marked c = (s.marked c || decide (c = a)) := by
      rw [heq]
      exact s.marked_setBlock_ofNat h0 (lt_of_lt_of_le ha s.scanned_le)
    rcases Nat.lt_trichotomy b a with hlt | rfl | hlt
    · rw [hmark, hmin b hlt]
      simp
    · -- the block that is taken had none below it
      have hnone : Nat.count (fun c => s.marked c = false) b = 0 := by
        rw [Nat.count_eq_card_filter_range, Finset.card_eq_zero, Finset.filter_eq_empty_iff]
        intro c hc
        rw [hmin c (Finset.mem_range.mp hc)]
        decide
      rw [hmark, hnone]
      simp
    · have hcount : Nat.count (fun c => s.marked c = false) b =
          Nat.count (fun c => s.allocateBlock.1.marked c = false) b + 1 := by
        refine Bitmap.count_insert hlt (by simp [hmark]) fun c => ?_
        rw [hmark]
        by_cases hc : c = a
        · simp [hc, hclear]
        · simp [hc]
      rw [hcount, hmark, decide_eq_false (Nat.ne_of_gt hlt), Bool.or_false]
      exact and_congr_right fun _ => Nat.succ_le_succ_iff.symm

/-! ### The tables -/

/-- The loop that fills a table. -/
theorem fillTable_spec {p : U32} (hp : 4096 ∣ p.toNat) (x : ℕ → U32) {k : ℕ} (hk : k ≤ 1024)
    (m : Machine) :
    ∃ m', (List.range k).foldl (fun m i => m.setWord p i (x i)) m = m' ∧ m'.pmm = m.pmm ∧
      m'.kernelDirectory = m.kernelDirectory ∧ m'.pageDirectory = m.pageDirectory ∧
      ∀ f, ∀ l < 1024, m'.cell f l = if f = frame p ∧ l < k then x l else m.cell f l := by
  induction k with
  | zero => exact ⟨m, rfl, rfl, rfl, rfl, fun f l _ => by simp⟩
  | succ k ih =>
    obtain ⟨m', hm', hpmm, hkern, hdir, hcell⟩ := ih (by omega)
    rw [List.range_succ, List.foldl_append, hm']
    refine ⟨_, rfl, hpmm, hkern, hdir, fun f l hl => ?_⟩
    rw [List.foldl_cons, List.foldl_nil, Machine.cell_setWord _ hp (by omega) _ _ hl, hcell f l hl]
    by_cases hf : f = frame p
    · rcases Nat.lt_trichotomy l k with hlt | rfl | hlt
      · rw [if_neg (by omega), if_pos ⟨hf, hlt⟩, if_pos ⟨hf, by omega⟩]
      · rw [if_pos ⟨hf, rfl⟩, if_pos ⟨hf, by omega⟩]
      · rw [if_neg (by omega), if_neg (by omega), if_neg (by omega)]
    · simp [hf]

/-- The first `n` tables of the directory map their pages to themselves, and there are no
others. -/
structure IdentityTables (m₀ : Machine) (n : ℕ) (m : Machine) : Prop where
  building : Building m₀ m m.pageDirectory
  null : m.pmm.NullReserved
  available : m₀.pmm.available = m.pmm.available + 1 + n
  write : ∀ i < n, writable (pde m m.pageDirectory i) = true
  pages : ∀ i < n, ∀ l < 1024, ∃ x, entry m m.pageDirectory i l = some x ∧
    frame x = i * 1024 + l ∧ writable x = true
  absent : ∀ i < 1024, n ≤ i → present (pde m m.pageDirectory i) = false

/-- The table entry for page `n` of the identity map. -/
theorem identityEntry_spec {n : ℕ} (hn : n < 2 ^ 20) :
    present (BitVec.ofNat 32 (n * 4096) ||| 3#32) = true ∧
      frame (BitVec.ofNat 32 (n * 4096) ||| 3#32) = n ∧
      writable (BitVec.ofNat 32 (n * 4096) ||| 3#32) = true := by
  have hval : (BitVec.ofNat 32 (n * 4096)).toNat = n * 4096 := by
    rw [BitVec.toNat_ofNat]
    omega
  have hal : 4096 ∣ (BitVec.ofNat 32 (n * 4096)).toNat := ⟨n, by rw [hval, Nat.mul_comm]⟩
  refine ⟨?_, ?_, ?_⟩
  · rw [present_or hal]
    rfl
  · rw [frame_or hal (by decide), frame, hval]
    omega
  · rw [writable_or hal]
    rfl

/-- **One more table** of the identity map. -/
theorem identityTables_mapTable {m₀ m : Machine} {n : ℕ} (hn : n < 16)
    (h : IdentityTables m₀ n m) (hav : m.pmm.available ≠ 0) :
    IdentityTables m₀ (n + 1) (Paging.mapTable m n) := by
  obtain ⟨m₁, t, ha⟩ : ∃ m₁ t, m.allocateBlock = (m₁, t) := ⟨_, _, rfl⟩
  obtain ⟨hnull₁, hnone, hsome⟩ := allocateBlock_available h.null ha
  have ht : t ≠ 0#32 := fun ht => hav (hnone ht).2
  obtain ⟨hal, hfree, hmem, hk, -⟩ := Machine.allocateBlock_spec ha ht
  have hdir₁ : m₁.pageDirectory = m.pageDirectory := by
    rw [Machine.allocateBlock, Prod.mk.injEq] at ha
    rw [← ha.1]
  obtain ⟨m₂, hm₂, hpmm₂, hk₂, hdir₂, hcell₂⟩ := fillTable_spec hal
    (fun i => BitVec.ofNat 32 ((n * 1024 + i) * 4096) ||| 3#32) (le_refl 1024) (m₁.clearPage t)
  have hother : ∀ f, f ≠ frame t → ∀ l < 1024, m₂.cell f l = m.cell f l := by
    intro f hf l hl
    rw [hcell₂ f l hl, if_neg fun hh => hf hh.1, Machine.cell_clearPage _ hal f hl, if_neg hf,
      Machine.cell, Machine.cell, hmem]
  have htable : ∀ l < 1024, m₂.cell (frame t) l =
      BitVec.ofNat 32 ((n * 1024 + l) * 4096) ||| 3#32 := by
    intro l hl
    rw [hcell₂ _ l hl, if_pos ⟨rfl, hl⟩]
  have hdir : m₂.pageDirectory = m.pageDirectory := hdir₂.trans hdir₁
  have hmap : Paging.mapTable m n = m₂.setWord m.pageDirectory n (t ||| 3#32) := by
    rw [Paging.mapTable, ha]
    dsimp only
    rw [hm₂, hdir]
  have hn' : n < 1024 := by omega
  obtain ⟨hb, hpde, helse, hnew⟩ := h.building.addTable ha ht (y := 3#32) (by decide) rfl hn'
    (h.absent n hn' (le_refl n)) hpmm₂ (hk₂.trans hk) hother
  have hpmm : (m₂.setWord m.pageDirectory n (t ||| 3#32)).pmm = m₁.pmm := hpmm₂
  have hdir' : (m₂.setWord m.pageDirectory n (t ||| 3#32)).pageDirectory = m.pageDirectory := hdir
  rw [hmap]
  generalize m₂.setWord m.pageDirectory n (t ||| 3#32) = m' at hb hpde helse hnew hpmm hdir' ⊢
  refine ⟨hdir' ▸ hb, hpmm ▸ hnull₁, ?_, fun i hi => ?_, fun i hi l hl => ?_, fun i hi hni => ?_⟩
  · have := hsome ht
    have := h.available
    rw [hpmm]
    omega
  · rw [hdir', hpde i (by omega)]
    by_cases hin : i = n
    · rw [if_pos hin, writable_or hal]
      rfl
    · rw [if_neg hin]
      exact h.write i (by omega)
  · rw [hdir']
    by_cases hin : i = n
    · subst hin
      obtain ⟨hpres, hframe, hwrite⟩ := identityEntry_spec (n := i * 1024 + l) (by omega)
      rw [hnew l hl, htable l hl, if_pos hpres]
      exact ⟨_, rfl, hframe, hwrite⟩
    · rw [helse i (by omega) hin l hl]
      exact h.pages i (by omega) l hl
  · rw [hdir', hpde i hi, if_neg (by omega)]
    exact h.absent i hi (by omega)

/-- **`Paging::initialize`** makes the tables of the first 64 MiB, if it gets its blocks. -/
theorem identityTables_initializePaging {m : Machine} (hnull : m.pmm.NullReserved)
    (hav : pagingBlocks ≤ m.pmm.available) :
    IdentityTables m 16 (Paging.initializePaging m) := by
  rw [pagingBlocks] at hav
  obtain ⟨m₁, d, ha⟩ : ∃ m₁ d, m.allocateBlock = (m₁, d) := ⟨_, _, rfl⟩
  obtain ⟨hnull₁, hnone, hsome⟩ := allocateBlock_available hnull ha
  have hd : d ≠ 0#32 := by
    intro hd
    have := (hnone hd).2
    omega
  obtain ⟨hb, hempty⟩ := building_directory ha hd
  have hav₁ := hsome hd
  obtain ⟨m₂, hm₂⟩ : ∃ m₂, m₂ = { m₁ with pageDirectory := d }.clearPage d := ⟨_, rfl⟩
  -- the static member for the directory is no part of memory
  have hb₂ : Building m m₂ d := by
    subst hm₂
    obtain ⟨⟨h1, h2, h3, h4⟩, hfresh, htables, hmarks, hkept, hkern⟩ := hb
    exact ⟨⟨h1, h2, h3, h4⟩, hfresh, htables, hmarks, hkept, hkern⟩
  have hempty₂ : ∀ i < 1024, pde m₂ d i = 0#32 := by
    subst hm₂
    exact hempty
  have hpmm₂ : m₂.pmm = m₁.pmm := by rw [hm₂]; rfl
  have hdir₂ : m₂.pageDirectory = d := by rw [hm₂]; rfl
  have hloop : ∀ n ≤ 16, IdentityTables m n ((List.range n).foldl Paging.mapTable m₂) := by
    intro n
    induction n with
    | zero =>
      intro _
      rw [List.range_zero, List.foldl_nil]
      refine ⟨hdir₂ ▸ hb₂, hpmm₂ ▸ hnull₁, hpmm₂ ▸ hav₁, by simp, by simp, fun i hi _ => ?_⟩
      rw [hdir₂, hempty₂ i hi]
      decide
    | succ n ih =>
      intro hn
      have h := ih (by omega)
      rw [List.range_succ, List.foldl_append, List.foldl_cons, List.foldl_nil]
      refine identityTables_mapTable (by omega) h ?_
      have := h.available
      omega
  have hall := hloop 16 (le_refl 16)
  rw [Paging.initializePaging, ha]
  dsimp only
  rwa [← hm₂]

/-! ### Runs after the boot -/

/-- `kernel_main` up to `Paging::initialize`; `memory` is what physical memory holds. -/
def bootPaging (words memory : ℕ → U32) (mem : U32 → U8) (mbt : MultibootInfo) (kernelEnd : U32) :
    Option Machine := do
  let pmm := PMM.unset.initializePMM words kernelEnd (memSize mbt)
  let pmm ← loadMemoryMap mem mbt pmm
  let pmm ← lockKernel kernelEnd pmm
  some (Paging.initializePaging
    { pmm := pmm, mem := memory, pageDirectory := 0, kernelDirectory := 0 })

/-- The kernel after that, with nothing handed out. -/
def booted (m : Machine) (mbt : MultibootInfo) (kernelEnd : U32) : Kernel :=
  { pmm := m.pmm, heap := KHeap.initializeHeap (heapStart kernelEnd (memSize mbt)) heapSize
    returned := [], outstanding := [], objects := [] }

/-- A call of `allocate_block` or `free_block`. -/
def Act.OnBlocks : Act → Prop
  | .kmalloc .. => False
  | _ => True

/-- The kernel directory maps the page of `p` to itself, for writing. -/
def IdentityMapped (m : Machine) (p : U32) : Prop :=
  ∃ x, entry m m.pageDirectory (dirIndex p) (tableIndex p) = some x ∧ frame x = frame p ∧
    writable x = true ∧ writable (pde m m.pageDirectory (dirIndex p)) = true

/-- The boot comes to its end, and every block that is handed out afterwards is mapped to
itself. -/
def AlwaysMapped (words memory : ℕ → U32) (mem : U32 → U8) (mbt : MultibootInfo)
    (kernelEnd : U32) : Prop :=
  ∃ m, bootPaging words memory mem mbt kernelEnd = some m ∧ ∀ acts : List Act,
    Guarded Kernel.step (fun k a => a.OnBlocks ∧ a.Allowed k) (booted m mbt kernelEnd) acts →
    ∀ k, run Kernel.step (booted m mbt kernelEnd) acts = some k → ∀ p ∈ k.returned,
      IdentityMapped { m with pmm := k.pmm } p

/-- The manager covers block `b`, the map frees it, and it is not part of the kernel image. -/
def FreeAtBoot (es : List MultibootMmapEntry) (kernelEnd memSize : U32) (b : ℕ) : Prop :=
  1 ≤ b ∧ b < managedBlocks kernelEnd memSize / 32 * 32 ∧ (∃ e ∈ es, Frees e b) ∧
    ¬ InImage kernelEnd b

instance (es : List MultibootMmapEntry) (kernelEnd memSize : U32) :
    DecidablePred (FreeAtBoot es kernelEnd memSize) := fun _ =>
  inferInstanceAs (Decidable (_ ∧ _ ∧ _ ∧ _))

/-- The number of blocks in 64 MiB. -/
def mappedBlocks : ℕ := 16 * 1024

section Boot

variable {words memory : ℕ → U32} {mem : U32 → U8} {mbt : MultibootInfo} {kernelEnd : U32}
  {es : List MultibootMmapEntry}

/-- Before paging the free blocks are those of `FreeAtBoot`. -/
theorem bootPaging_spec (words memory : ℕ → U32) (hmap : MapOf mem mbt es)
    (hend : kernelEnd.toNat + 4096 ≤ 2 ^ 32) :
    ∃ m : Machine, bootPaging words memory mem mbt kernelEnd =
        some (Paging.initializePaging m) ∧
      m.pmm.scanned = managedBlocks kernelEnd (memSize mbt) / 32 * 32 ∧
      (0 < m.pmm.scanned → m.pmm.bitmap ≠ 0#32) ∧ m.pmm.NullReserved ∧
      ∀ b < m.pmm.scanned, m.pmm.marked b = false ↔
        FreeAtBoot es kernelEnd (memSize mbt) b := by
  obtain ⟨s₁, s, h₁, h, hmax, hbitmap, hmarks, hfree⟩ := lockedMap_spec words hmap hend
  obtain ⟨s₁', h₁', htracked⟩ :=
    BlockLedger.tracked_initial words kernelEnd (memSize mbt) mem mbt
  rw [h₁, Option.some_inj] at h₁'
  subst h₁'
  have hle := s.scanned_le
  have hscan : s.scanned = managedBlocks kernelEnd (memSize mbt) / 32 * 32 := by
    rw [PMM.scanned, hmax]
  -- block 0 has been locked
  have hzero : s.scanned = 0 ∨ s.marked 0 = true := by
    rcases Nat.eq_zero_or_pos s.scanned with hz | hpos
    · exact Or.inl hz
    · obtain ⟨s₂, h₂, hbm₂, hmax₂, -⟩ := lockKernel_spec hend s₁
      rw [h, Option.some_inj] at h₂
      subst h₂
      have hbm := hbitmap (lt_of_lt_of_le hpos hle)
      rw [hbm₂] at hbm
      refine Or.inr (hmarks 0 (htracked.zero hbm ?_))
      dsimp only
      rw [← hmax₂]
      exact lt_of_lt_of_le hpos hle
  refine ⟨{ pmm := s, mem := memory, pageDirectory := 0, kernelDirectory := 0 }, ?_, hscan,
    fun hpos => hbitmap (lt_of_lt_of_le hpos hle), Or.inr hzero, fun b hb => ?_⟩
  · rw [bootPaging, h₁]
    simp only [Option.bind_eq_bind, Option.bind_some, h]
  · dsimp only at hb ⊢
    rw [FreeAtBoot, ← hscan]
    rcases Nat.eq_zero_or_pos b with rfl | hpos
    · rcases hzero with hz | hz
      · omega
      · rw [hz]
        simp
    · rw [hfree b hpos (by omega)]
      exact ⟨fun h => ⟨hpos, hb, h⟩, fun h => h.2.2⟩

/-- After paging they are the same but for the 17 lowest. -/
theorem free_after_paging {m : Machine} (hbm : 0 < m.pmm.scanned → m.pmm.bitmap ≠ 0#32)
    (hfree : ∀ b < m.pmm.scanned,
      m.pmm.marked b = false ↔ FreeAtBoot es kernelEnd (memSize mbt) b) {b : ℕ}
    (hb : b < m.pmm.scanned) :
    (Paging.initializePaging m).pmm.marked b = false ↔ FreeAtBoot es kernelEnd (memSize mbt) b ∧
      pagingBlocks ≤ Nat.count (FreeAtBoot es kernelEnd (memSize mbt)) b := by
  have hcount : Nat.count (fun c => m.pmm.marked c = false) b =
      Nat.count (FreeAtBoot es kernelEnd (memSize mbt)) b := by
    rw [Nat.count_eq_card_filter_range, Nat.count_eq_card_filter_range]
    refine congrArg Finset.card (Finset.filter_congr fun c hc => ?_)
    exact hfree c (lt_trans (Finset.mem_range.mp hc) hb)
  rw [initializePaging_pmm, marked_iterate _ (hbm (Nat.zero_lt_of_lt hb)) hb, hfree b hb, hcount]

/-- If a block is left, paging has got all of its own. -/
theorem identityTables_of_free {m : Machine} (hbm : 0 < m.pmm.scanned → m.pmm.bitmap ≠ 0#32)
    (hnull : m.pmm.NullReserved) {b : ℕ} (hb : b < m.pmm.scanned)
    (hfree : (Paging.initializePaging m).pmm.marked b = false) :
    IdentityTables m 16 (Paging.initializePaging m) := by
  have h0 := hbm (Nat.zero_lt_of_lt hb)
  refine identityTables_initializePaging hnull ?_
  rw [initializePaging_pmm, marked_iterate _ h0 hb] at hfree
  rw [PMM.available, if_neg h0]
  exact le_trans hfree.2 (Nat.count_monotone _ (le_of_lt hb))

/-- With these tables the mapped blocks are those below 64 MiB. -/
theorem IdentityTables.identityMapped_iff {m₀ m : Machine} (h : IdentityTables m₀ 16 m) {p : U32}
    {b : ℕ} (hp : p.toNat = b * 4096) : IdentityMapped m p ↔ b < mappedBlocks := by
  have hlt := p.isLt
  have hi : dirIndex p = b / 1024 := by
    rw [dirIndex_eq]
    omega
  have hj : tableIndex p = b % 1024 := by
    rw [tableIndex_eq]
    omega
  have hframe : frame p = b := by
    rw [frame]
    omega
  rw [IdentityMapped, hi, hj, hframe, mappedBlocks]
  constructor
  · rintro ⟨x, hx, -⟩
    by_contra hge
    have habsent := h.absent (b / 1024) (by omega) (by omega)
    rw [entry_of_absent habsent] at hx
    exact absurd hx (by simp)
  · intro hb
    obtain ⟨x, hx, hf, hw⟩ := h.pages (b / 1024) (by omega) (b % 1024) (by omega)
    exact ⟨x, hx, by omega, hw, h.write _ (by omega)⟩

/-- A block that is left and lies above 64 MiB is handed out some time. -/
theorem lt_of_alwaysMapped (hmap : MapOf mem mbt es) (hend : kernelEnd.toNat + 4096 ≤ 2 ^ 32)
    (halways : AlwaysMapped words memory mem mbt kernelEnd) {b : ℕ}
    (hb : FreeAtBoot es kernelEnd (memSize mbt) b)
    (hcount : pagingBlocks ≤ Nat.count (FreeAtBoot es kernelEnd (memSize mbt)) b) :
    b < mappedBlocks := by
  obtain ⟨m₀, hboot, hscan, hbm, hnull, hfree⟩ := bootPaging_spec words memory hmap hend
  obtain ⟨m, hm, hruns⟩ := halways
  rw [hboot, Option.some_inj] at hm
  have hb' : b < m₀.pmm.scanned := hscan ▸ hb.2.1
  have hleft := (free_after_paging hbm hfree hb').mpr ⟨hb, hcount⟩
  have htables := identityTables_of_free hbm hnull hb' hleft
  have hpmm := initializePaging_pmm m₀
  rw [hm] at hleft htables hpmm
  obtain ⟨hbm', hmax'⟩ : m.pmm.bitmap = m₀.pmm.bitmap ∧ m.pmm.maxBlocks = m₀.pmm.maxBlocks := by
    rw [hpmm]
    exact iterate_allocateBlock pagingBlocks m₀.pmm
  have hbm₀ : (booted m mbt kernelEnd).pmm.bitmap ≠ 0#32 := by
    show m.pmm.bitmap ≠ 0#32
    rw [hbm']
    exact hbm (Nat.zero_lt_of_lt hb')
  have hscan₀ : b < (booted m mbt kernelEnd).pmm.scanned := by
    show b < m.pmm.scanned
    rwa [PMM.scanned, hmax', ← PMM.scanned]
  obtain ⟨j, p, hp, hpb⟩ := allocated_eventually hb.1 hbm₀ hscan₀ (Or.inl hleft)
  obtain ⟨hok, hrun⟩ : Guarded Kernel.step (fun k a => a.OnBlocks ∧ a.Allowed k)
      (booted m mbt kernelEnd) (List.replicate j .allocate) ∧
      run Kernel.step (booted m mbt kernelEnd) (List.replicate j .allocate) =
        some (Kernel.allocate^[j] (booted m mbt kernelEnd)) :=
    run_allocate (fun _ => ⟨trivial, trivial⟩) j _
  exact (htables.identityMapped_iff hpb).mp (hruns _ hok _ hrun p hp)

/-- If all blocks that are left lie below 64 MiB, all that are handed out are mapped. -/
theorem alwaysMapped_of_lt (hmap : MapOf mem mbt es) (hend : kernelEnd.toNat + 4096 ≤ 2 ^ 32)
    (hlow : ∀ b, FreeAtBoot es kernelEnd (memSize mbt) b →
      pagingBlocks ≤ Nat.count (FreeAtBoot es kernelEnd (memSize mbt)) b → b < mappedBlocks) :
    AlwaysMapped words memory mem mbt kernelEnd := by
  obtain ⟨m₀, hboot, hscan, hbm, hnull, hfree⟩ := bootPaging_spec words memory hmap hend
  refine ⟨_, hboot, fun acts hok k hrun p hp => ?_⟩
  have hafter := fun {b} (hb : b < m₀.pmm.scanned) => free_after_paging hbm hfree hb
  have htables := fun {b} (hb : b < m₀.pmm.scanned) => identityTables_of_free hbm hnull hb
  have hscan' : (Paging.initializePaging m₀).pmm.scanned = m₀.pmm.scanned := by
    rw [PMM.scanned, initializePaging_pmm, (iterate_allocateBlock pagingBlocks m₀.pmm).2,
      PMM.scanned]
  generalize Paging.initializePaging m₀ = m at hok hrun hscan' hafter htables ⊢
  -- whatever is handed out was left by paging
  have hdrawn : Drawn (fun b => b < m₀.pmm.scanned ∧ m.pmm.marked b = false) k := by
    refine run_invariant (fun _ _ _ h hok hstep => drawn_step h hok.2 hstep) ?_ hok hrun
    exact ⟨fun b _ hb hclear => ⟨hscan' ▸ hb, hclear⟩, fun p hp => absurd hp (by simp [booted]),
      fun p hp => absurd hp (by simp [booted])⟩
  obtain ⟨b, hpb, hb, hclear⟩ := hdrawn.returned p hp
  obtain ⟨hfreeb, hcount⟩ := (hafter hb).mp hclear
  exact ((htables hb hclear).identityMapped_iff hpb).mpr (hlow b hfreeb hcount)

end Boot

/-- The same memory map on a machine with 128 MiB. -/
def largeMap : List MultibootMmapEntry :=
  [⟨20, 0, 0, 0x9F000, 0, 1⟩, ⟨20, 0x9F000, 0, 0x61000, 0, 2⟩,
    ⟨20, 0x100000, 0, 0x7EE0000, 0, 1⟩]

end MesaOS.Memory
