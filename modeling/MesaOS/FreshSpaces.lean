/-
New address spaces (`VMM::create_address_space`, `VMM::clone_address_space` and
`VMM::destroy_address_space` in `memory/vmm.cpp`).

While a directory is being built from a state `m₀`, it is `Building m₀ m d`: the
directory and its tables are blocks that were free in `m₀`, they are the only
ones that have been taken since, and everything that was in use in `m₀` holds what
it held.

* `building_directory`, `Building.addTable` — the two ways to take a block;
* `Building.destroy` — what is in use after `destroy_address_space`: also the
  tables of the kernel half, which it does not give back;
* `copyKernelTables_building`, `copyUserTables_building` — the two loops, with
  the number of free blocks that decides whether they get to the end.
-/
import MesaOS.PageTables

open MachineWord

namespace MesaOS.Memory

open VMM

/-! ### Free blocks -/

/-- The number of blocks that `allocate_block` can still find. -/
def PMM.available (s : PMM) : ℕ :=
  if s.bitmap = 0#32 then 0 else Nat.count (fun b => s.marked b = false) s.scanned

/-- Block 0, whose address is the null pointer, is never found. -/
def PMM.NullReserved (s : PMM) : Prop := s.bitmap = 0#32 ∨ s.scanned = 0 ∨ s.marked 0 = true

instance (s : PMM) : Decidable s.NullReserved := inferInstanceAs (Decidable (_ ∨ _ ∨ _))

theorem frame_ne_zero {p : U32} (hal : 4096 ∣ p.toNat) (hp : p ≠ 0#32) : frame p ≠ 0 := by
  intro hf
  refine hp (BitVec.eq_of_toNat_eq ?_)
  rw [toNat_of_dvd hal, hf, Nat.zero_mul]
  rfl

/-- **One call of `allocate_block`** takes one of the free blocks, and finds none only when
there is none, unless block 0 is free. -/
theorem allocateBlock_available {m m₁ : Machine} {p : U32} (hnull : m.pmm.NullReserved)
    (ha : m.allocateBlock = (m₁, p)) :
    m₁.pmm.NullReserved ∧ (p = 0#32 → m₁ = m ∧ m.pmm.available = 0) ∧
      (p ≠ 0#32 → m.pmm.available = m₁.pmm.available + 1) := by
  rw [Machine.allocateBlock, Prod.mk.injEq] at ha
  obtain ⟨rfl, hp⟩ := ha
  rcases m.pmm.allocateBlock_cases with ⟨heq, hfull⟩ | ⟨b, h0, hb, hclear, hmin, heq⟩
  · have hm : ({ m with pmm := m.pmm.allocateBlock.1 } : Machine) = m := by rw [heq]
    rw [heq] at hp
    rw [hm]
    refine ⟨hnull, fun _ => ⟨rfl, ?_⟩, fun hne => absurd hp.symm hne⟩
    rw [PMM.available]
    rcases hfull with h0 | hall
    · rw [if_pos h0]
    · split
      · rfl
      · rw [Nat.count_eq_card_filter_range, Finset.card_eq_zero, Finset.filter_eq_empty_iff]
        intro b hb
        rw [hall b (Finset.mem_range.mp hb)]
        decide
  · have hlt : b < m.pmm.maxBlocks.toNat := lt_of_lt_of_le hb m.pmm.scanned_le
    have hmark : ∀ c, m.pmm.allocateBlock.1.marked c = (m.pmm.marked c || decide (c = b)) := by
      rw [heq]
      exact m.pmm.marked_setBlock_ofNat h0 hlt
    have hscan : m.pmm.allocateBlock.1.scanned = m.pmm.scanned := by
      rw [PMM.scanned, PMM.allocateBlock_maxBlocks, PMM.scanned]
    have hzero : m.pmm.marked 0 = true := by
      rcases hnull with h | h | h
      · exact absurd h h0
      · omega
      · exact h
    have hpos : p ≠ 0#32 := by
      rw [heq] at hp
      dsimp only at hp
      rintro rfl
      have haddr := PMM.toNat_allocated hlt
      rw [hp, show (0#32).toNat = 0 from rfl] at haddr
      rw [show b = 0 by omega, hzero] at hclear
      exact absurd hclear (by simp)
    refine ⟨Or.inr (Or.inr ?_), fun h => absurd h hpos, fun _ => ?_⟩
    · rw [hmark, hzero, Bool.true_or]
    · rw [PMM.available, PMM.available, PMM.allocateBlock_bitmap, if_neg h0, if_neg h0, hscan]
      refine Bitmap.count_insert hb (by simp [hmark]) fun c => ?_
      rw [hmark]
      by_cases hc : c = b
      · simp [hc, hclear]
      · simp [hc]

/-- If block 0 is free, it is the block that is found, and taken for none. -/
theorem allocateBlock_null_free {m : Machine} (hnull : ¬ m.pmm.NullReserved) :
    m.allocateBlock.2 = 0#32 ∧ m.pmm.marked 0 = false ∧
      m.allocateBlock.1.pmm.marked 0 = true := by
  rw [PMM.NullReserved, not_or, not_or, Bool.not_eq_true] at hnull
  obtain ⟨h0, hscan, hfree⟩ := hnull
  rcases m.pmm.allocateBlock_cases with ⟨-, h | h⟩ | ⟨b, -, hb, -, hmin, heq⟩
  · exact absurd h h0
  · rw [h 0 (by omega)] at hfree
    exact absurd hfree (by simp)
  · have hb0 : b = 0 := by
      by_contra hne
      rw [hmin 0 (by omega)] at hfree
      exact absurd hfree (by simp)
    subst hb0
    refine ⟨?_, hfree, ?_⟩
    · rw [Machine.allocateBlock, heq]
      rfl
    · rw [Machine.allocateBlock, heq,
        m.pmm.marked_setBlock_ofNat h0 (lt_of_lt_of_le hb m.pmm.scanned_le)]
      simp

/-! ### A directory under construction -/

/-- The kernel directory is a block in use. -/
structure KernelInUse (m : Machine) : Prop where
  aligned : 4096 ∣ m.kernelDirectory.toNat
  marked : m.pmm.marked (frame m.kernelDirectory) = true

instance (m : Machine) : Decidable (KernelInUse m) :=
  decidable_of_iff (4096 ∣ m.kernelDirectory.toNat ∧
    m.pmm.marked (frame m.kernelDirectory) = true)
    ⟨fun h => ⟨h.1, h.2⟩, fun h => ⟨h.aligned, h.marked⟩⟩

/-- `m` is reached from `m₀` by building the directory `d` out of free blocks. -/
structure Building (m₀ m : Machine) (d : U32) : Prop where
  separated : Separated m d
  fresh : m₀.pmm.marked (frame d) = false
  tables : ∀ i < 1024, present (pde m d i) = true →
    m₀.pmm.marked (frame (pde m d i)) = false ∧ frame (pde m d i) ≠ 0
  marks : ∀ f, m.pmm.marked f = true ↔ m₀.pmm.marked f = true ∨ f = frame d ∨
    ∃ i < 1024, present (pde m d i) = true ∧ frame (pde m d i) = f
  kept : ∀ f, m₀.pmm.marked f = true → ∀ j < 1024, m.cell f j = m₀.cell f j
  kernel : m.kernelDirectory = m₀.kernelDirectory

section Build

variable {m₀ m m₁ : Machine} {d : U32}

theorem Building.held (h : Building m₀ m d) : Held m d :=
  ⟨(h.marks _).mpr (Or.inr (Or.inl rfl)), fun i hi hp =>
    (h.marks _).mpr (Or.inr (Or.inr ⟨i, hi, hp, rfl⟩))⟩

/-- The first block is the directory, and empty. -/
theorem building_directory (ha : m.allocateBlock = (m₁, d)) (hd : d ≠ 0#32) :
    Building m (m₁.clearPage d) d ∧ ∀ i < 1024, pde (m₁.clearPage d) d i = 0#32 := by
  obtain ⟨hal, hfree, hmem, hk, hmark⟩ := Machine.allocateBlock_spec ha hd
  have hpde : ∀ i < 1024, pde (m₁.clearPage d) d i = 0#32 := by
    intro i hi
    rw [pde, Machine.cell_clearPage _ hal _ hi, if_pos rfl]
  have habsent : ∀ i < 1024, present (pde (m₁.clearPage d) d i) ≠ true := by
    intro i hi
    rw [hpde i hi]
    decide
  refine ⟨⟨⟨hd, hal, fun i hi hp => absurd hp (habsent i hi),
    fun i hi j hj hp => absurd hp (habsent i hi)⟩, hfree, fun i hi hp => absurd hp (habsent i hi),
    fun f => ?_, fun f hf j hj => ?_, hk⟩, hpde⟩
  · rw [Machine.clearPage_pmm, hmark, Bool.or_eq_true, decide_eq_true_eq]
    refine or_congr_right (iff_self_or.mpr ?_)
    rintro ⟨i, hi, hp, -⟩
    exact absurd hp (habsent i hi)
  · rw [Machine.cell_clearPage _ hal _ hj, if_neg (ne_of_marked hf hfree), Machine.cell,
      Machine.cell, hmem]

/-- **One more table**, in a block that has been filled. -/
theorem Building.addTable (h : Building m₀ m d) {t y : U32} (ha : m.allocateBlock = (m₁, t))
    (ht : t ≠ 0#32) (hy : y.toNat < 4096) (hpy : present y = true) {i : ℕ} (hi : i < 1024)
    (habsent : present (pde m d i) = false) {m₂ : Machine} (hpmm : m₂.pmm = m₁.pmm)
    (hkern : m₂.kernelDirectory = m.kernelDirectory)
    (hother : ∀ f, f ≠ frame t → ∀ l < 1024, m₂.cell f l = m.cell f l) :
    Building m₀ (m₂.setWord d i (t ||| y)) d ∧
      (∀ k < 1024, pde (m₂.setWord d i (t ||| y)) d k = if k = i then t ||| y else pde m d k) ∧
      (∀ k < 1024, k ≠ i → ∀ l < 1024,
        entry (m₂.setWord d i (t ||| y)) d k l = entry m d k l) ∧
      ∀ l < 1024, entry (m₂.setWord d i (t ||| y)) d i l =
        if present (m₂.cell (frame t) l) then some (m₂.cell (frame t) l) else none := by
  obtain ⟨hal, hfree, -, -, hmark⟩ := Machine.allocateBlock_spec ha ht
  obtain ⟨hsep, hpde, helse, hnew⟩ :=
    addTable_spec h.separated hal (h.held.apart hfree) hy hi hother
  have hframe : frame (t ||| y) = frame t := frame_or hal hy
  have hfree₀ : m₀.pmm.marked (frame t) = false := by
    by_contra hmarked
    rw [(h.marks _).mpr (Or.inl (Bool.eq_true_of_not_eq_false hmarked))] at hfree
    exact absurd hfree (by simp)
  refine ⟨⟨hsep, h.fresh, fun k hk hp => ?_, fun f => ?_, fun f hf j hj => ?_,
    hkern.trans h.kernel⟩, hpde, helse, fun l hl => ?_⟩
  · rw [hpde k hk] at hp ⊢
    by_cases hki : k = i
    · rw [if_pos hki, hframe]
      exact ⟨hfree₀, frame_ne_zero hal ht⟩
    · rw [if_neg hki] at hp ⊢
      exact h.tables k hk hp
  · rw [Machine.setWord_pmm, hpmm, hmark, Bool.or_eq_true, decide_eq_true_eq, h.marks, or_assoc,
      or_assoc]
    refine or_congr_right (or_congr_right ?_)
    constructor
    · rintro (⟨k, hk, hp, hf⟩ | hf)
      · have hki : k ≠ i := by
          rintro rfl
          rw [habsent] at hp
          exact absurd hp (by simp)
        exact ⟨k, hk, by rw [hpde k hk, if_neg hki]; exact ⟨hp, hf⟩⟩
      · exact ⟨i, hi, by rw [hpde i hi, if_pos rfl, present_or hal, hframe]; exact ⟨hpy, hf.symm⟩⟩
    · rintro ⟨k, hk, hp, hf⟩
      rw [hpde k hk] at hp hf
      by_cases hki : k = i
      · rw [if_pos hki, hframe] at hf
        exact Or.inr hf.symm
      · rw [if_neg hki] at hp hf
        exact Or.inl ⟨k, hk, hp, hf⟩
  · have hfd : f ≠ frame d := ne_of_marked hf h.fresh
    rw [Machine.cell_setWord _ h.separated.aligned hi _ _ hj, if_neg fun hh => hfd hh.1,
      hother f (ne_of_marked hf hfree₀) j hj, h.kept f hf j hj]
  · rw [hnew l hl]
    exact if_congr (and_iff_right hpy) rfl rfl

/-- **What `destroy_address_space` leaves in use**: what was in use before, and the tables of the
kernel half. -/
theorem Building.destroy (h : Building m₀ m d) (hkern : KernelInUse m₀) (f : ℕ) :
    (destroyAddressSpace m d).pmm.marked f = true ↔ m₀.pmm.marked f = true ∨
      ∃ i < kernelSpaceEntries, present (pde m d i) = true ∧ frame (pde m d i) = f := by
  have hdk : d ≠ m.kernelDirectory := by
    rintro rfl
    have hmarked := hkern.marked
    rw [← h.kernel, h.fresh] at hmarked
    exact absurd hmarked (by simp)
  have hal := h.separated.aligned
  have hd0 := frame_ne_zero hal h.separated.nonnull
  obtain ⟨-, -, hmark⟩ := freeTables_spec d userEntries m
  rw [destroyAddressSpace, if_neg (by simp [h.separated.nonnull, hdk]), Machine.freeBlock,
    PMM.marked_freeBlock, Bool.and_eq_true, hmark, toNat_of_dvd hal, h.marks]
  have hword : ∀ i, m.word d i = pde m d i := m.word_eq_cell hal
  simp only [hword, mem_userEntries, UserIndex]
  have hfd : (!(decide (d ≠ 0#32) && decide (frame d * 4096 = f * 4096))) = true ↔ f ≠ frame d := by
    rw [decide_eq_true h.separated.nonnull, Bool.true_and, Bool.not_eq_true',
      decide_eq_false_iff_not]
    omega
  rw [hfd]
  constructor
  · rintro ⟨⟨hin | heq | ⟨i, hi, hp, hf⟩, huser⟩, hne⟩
    · exact Or.inl hin
    · exact absurd heq hne
    · -- the frame of a table, and not of a user table
      refine Or.inr ⟨i, Nat.lt_of_not_le fun hle => ?_, hp, hf⟩
      exact huser i ⟨hle, hi⟩ hp (hf ▸ (h.tables i hi hp).2) hf
  · rintro (hin | ⟨i, hi, hp, hf⟩)
    · refine ⟨⟨Or.inl hin, fun i hi hp _ => ?_⟩, ne_of_marked hin h.fresh⟩
      exact (ne_of_marked hin (h.tables i hi.2 hp).1).symm
    · have hi' : i < 1024 := lt_trans hi (by decide)
      refine ⟨⟨Or.inr (Or.inr ⟨i, hi', hp, hf⟩), fun k hk hpk _ hfk => ?_⟩, ?_⟩
      · have := h.separated.tables i hi' k hk.2 hp hpk (hf.trans hfk.symm)
        have := hk.1
        omega
      · exact hf ▸ h.separated.directory i hi' hp

/-- The same blocks are in use. -/
def SameBlocks (m m' : Machine) : Prop := ∀ f, m'.pmm.marked f = m.pmm.marked f

/-- So nothing is left over exactly if no table of the kernel half had been copied. -/
theorem Building.destroy_same (h : Building m₀ m d) (hkern : KernelInUse m₀) :
    SameBlocks m₀ (destroyAddressSpace m d) ↔
      ∀ i < kernelSpaceEntries, present (pde m d i) = false := by
  have hmark := h.destroy hkern
  constructor
  · intro hsame i hi
    by_contra hp
    rw [Bool.not_eq_false] at hp
    have hleft := (hmark _).mpr (Or.inr ⟨i, hi, hp, rfl⟩)
    rw [hsame, (h.tables i (lt_trans hi (by decide)) hp).1] at hleft
    exact absurd hleft (by simp)
  · intro habsent f
    rw [Bool.eq_iff_iff, hmark]
    refine or_iff_left ?_
    rintro ⟨i, hi, hp, -⟩
    rw [habsent i hi] at hp
    exact absurd hp (by simp)

/-! ### The loops -/

/-- The number of directory entries among `is` that have a table. -/
def tableCount (m : Machine) (d : U32) (is : List ℕ) : ℕ := is.countP fun i => present (m.word d i)

theorem tableCount_cons (m : Machine) (d : U32) (i : ℕ) (is : List ℕ) :
    tableCount m d (i :: is) = tableCount m d is + if present (m.word d i) then 1 else 0 :=
  List.countP_cons

/-- A kernel table copied to a new block. -/
theorem copiedPage_spec {t s : U32} (ha : m.allocateBlock = (m₁, t)) (ht : t ≠ 0#32)
    {m₂ : Machine} (hm₂ : m₂ = m₁.copyPage t (pageBase s)) :
    m₂.pmm = m₁.pmm ∧ m₂.kernelDirectory = m.kernelDirectory ∧
      ∀ f, f ≠ frame t → ∀ l < 1024, m₂.cell f l = m.cell f l := by
  obtain ⟨hal, -, hmem, hk, -⟩ := Machine.allocateBlock_spec ha ht
  subst hm₂
  refine ⟨rfl, hk, fun f hf l hl => ?_⟩
  rw [Machine.cell_copyPage _ hal (dvd_pageBase _) f hl, if_neg hf, Machine.cell, Machine.cell,
    hmem]

/-- One iteration of the loop over the kernel entries: there is no table, there is no block for
it, or it has been copied. -/
theorem copyKernelTables_iteration (hkern : KernelInUse m₀) {i : ℕ} {is : List ℕ} (hi : i < 1024)
    (h : Building m₀ m d) (hnull : m.pmm.NullReserved) (hempty : present (pde m d i) = false)
    {m' : Machine} {done : Bool} (hcopy : copyKernelTables d (i :: is) m = (m', done)) :
    (present (m₀.word m₀.kernelDirectory i) = false ∧ copyKernelTables d is m = (m', done)) ∨
    (present (m₀.word m₀.kernelDirectory i) = true ∧
      ((done = false ∧ m.pmm.available = 0 ∧ m' = destroyAddressSpace m d) ∨
        ∃ m₃, copyKernelTables d is m₃ = (m', done) ∧ Building m₀ m₃ d ∧
          m₃.pmm.NullReserved ∧ m.pmm.available = m₃.pmm.available + 1 ∧
          present (pde m₃ d i) = true ∧ ∀ k < 1024, k ≠ i → pde m₃ d k = pde m d k)) := by
  have hentry : m.word m₀.kernelDirectory i = m₀.word m₀.kernelDirectory i := by
    rw [m.word_eq_cell hkern.aligned, m₀.word_eq_cell hkern.aligned]
    exact h.kept _ hkern.marked i hi
  rw [copyKernelTables, h.kernel, hentry] at hcopy
  by_cases hp : present (m₀.word m₀.kernelDirectory i) = true
  swap
  · rw [if_neg hp] at hcopy
    exact Or.inl ⟨Bool.eq_false_of_not_eq_true hp, hcopy⟩
  rw [if_pos hp] at hcopy
  refine Or.inr ⟨hp, ?_⟩
  obtain ⟨m₁, t, ha⟩ : ∃ m₁ t, m.allocateBlock = (m₁, t) := ⟨_, _, rfl⟩
  obtain ⟨hnull₁, hnone, hsome⟩ := allocateBlock_available hnull ha
  simp only [ha] at hcopy
  by_cases ht : t = 0#32
  · rw [if_pos ht, Prod.mk.injEq] at hcopy
    obtain ⟨rfl, rfl⟩ := hcopy
    obtain ⟨rfl, hav⟩ := hnone ht
    exact Or.inl ⟨rfl, hav, rfl⟩
  rw [if_neg ht] at hcopy
  obtain ⟨m₂, hm₂⟩ : ∃ m₂, m₂ = m₁.copyPage t (pageBase (m₀.word m₀.kernelDirectory i)) :=
    ⟨_, rfl⟩
  obtain ⟨hpmm₂, hk₂, hother⟩ := copiedPage_spec ha ht hm₂
  rw [← hm₂] at hcopy
  -- the flags are read again after the copy
  have hkt : frame m₀.kernelDirectory ≠ frame t :=
    ne_of_marked ((h.marks _).mpr (Or.inl hkern.marked)) (Machine.allocateBlock_spec ha ht).2.1
  have hentry₂ : m₂.word m₂.kernelDirectory i = m₀.word m₀.kernelDirectory i := by
    rw [hk₂, h.kernel, m₂.word_eq_cell hkern.aligned, hother _ hkt i hi,
      ← m.word_eq_cell hkern.aligned, hentry]
  rw [hentry₂] at hcopy
  have hpflags : present (pageFlags (m₀.word m₀.kernelDirectory i)) = true := by
    rw [present_pageFlags, hp]
  obtain ⟨h₃, hpde₃, -, -⟩ := h.addTable ha ht (toNat_pageFlags_lt _) hpflags hi hempty hpmm₂ hk₂
    hother
  have hpmm₃ : (m₂.setWord d i (t ||| pageFlags (m₀.word m₀.kernelDirectory i))).pmm =
    m₁.pmm := hpmm₂
  refine Or.inr ⟨_, hcopy, h₃, by rwa [hpmm₃], by rw [hpmm₃]; exact hsome ht, ?_,
    fun k hk hki => by rw [hpde₃ k hk, if_neg hki]⟩
  rw [hpde₃ i hi, if_pos rfl, present_or (Machine.allocateBlock_spec ha ht).1, hpflags]

/-- **The loop over the kernel entries** gets to the end if there are enough free blocks. -/
theorem copyKernelTables_building (hkern : KernelInUse m₀) {is : List ℕ}
    (his : ∀ i ∈ is, i < kernelSpaceEntries) (hnodup : is.Nodup) {m : Machine}
    (h : Building m₀ m d) (hnull : m.pmm.NullReserved)
    (hempty : ∀ i ∈ is, present (pde m d i) = false) :
    ∀ {m' : Machine} {done : Bool}, copyKernelTables d is m = (m', done) →
      (done = true → Building m₀ m' d ∧ m'.pmm.NullReserved ∧
        m.pmm.available = m'.pmm.available + tableCount m₀ m₀.kernelDirectory is ∧
        ∀ k < 1024, (k ∉ is → pde m' d k = pde m d k) ∧
          (k ∈ is → present (pde m' d k) = present (m₀.word m₀.kernelDirectory k))) ∧
      (done = false → m.pmm.available < tableCount m₀ m₀.kernelDirectory is ∧
        (SameBlocks m₀ m' ↔ m.pmm.available = 0 ∧
          ∀ i < kernelSpaceEntries, present (pde m d i) = false)) := by
  induction is generalizing m with
  | nil =>
    intro m' done hcopy
    rw [copyKernelTables, Prod.mk.injEq] at hcopy
    obtain ⟨rfl, rfl⟩ := hcopy
    exact ⟨fun _ => ⟨h, hnull, rfl, fun k _ => ⟨fun _ => rfl, fun hk => absurd hk (by simp)⟩⟩,
      by simp⟩
  | cons i is ih =>
    intro m' done hcopy
    obtain ⟨hiis, hnodup'⟩ := List.nodup_cons.mp hnodup
    have his' : ∀ k ∈ is, k < kernelSpaceEntries := fun k hk => his k (List.mem_cons_of_mem i hk)
    have hempty' : ∀ k ∈ is, present (pde m d k) = false :=
      fun k hk => hempty k (List.mem_cons_of_mem i hk)
    have hi : i < 1024 := lt_trans (his i List.mem_cons_self) (by decide)
    rw [tableCount_cons]
    rcases copyKernelTables_iteration hkern hi h hnull (hempty i List.mem_cons_self) hcopy with
      ⟨hp, hrest⟩ | ⟨hp, ⟨rfl, hav, rfl⟩ | ⟨m₃, hrest, h₃, hnull₃, hav, hpi, hpde₃⟩⟩
    · rw [hp, if_neg Bool.false_ne_true, Nat.add_zero]
      obtain ⟨hdone, hfail⟩ := ih his' hnodup' h hnull hempty' hrest
      refine ⟨fun hd => ?_, hfail⟩
      obtain ⟨hb, hn, hav, hpde⟩ := hdone hd
      refine ⟨hb, hn, hav, fun k hk => ⟨fun hnot => (hpde k hk).1 ?_, fun hin => ?_⟩⟩
      · exact fun hin => hnot (List.mem_cons_of_mem i hin)
      · rcases List.mem_cons.mp hin with rfl | hin
        · rw [(hpde k hk).1 hiis, hempty k List.mem_cons_self, hp]
        · exact (hpde k hk).2 hin
    · -- no block: nothing has changed since, and the directory goes
      rw [if_pos hp]
      refine ⟨by simp, fun _ => ⟨by omega, ?_⟩⟩
      rw [h.destroy_same hkern, and_iff_right hav]
    rw [if_pos hp]
    obtain ⟨hdone, hfail⟩ := ih his' hnodup' h₃ hnull₃ (fun k hk => by
      have hki : k ≠ i := fun heq => hiis (heq ▸ hk)
      rw [hpde₃ k (lt_trans (his' k hk) (by decide)) hki]
      exact hempty' k hk) hrest
    refine ⟨fun hd => ?_, fun hd => ?_⟩
    · obtain ⟨hb, hn, hav', hpde⟩ := hdone hd
      refine ⟨hb, hn, by omega, fun k hk => ⟨fun hnot => ?_, fun hin => ?_⟩⟩
      · rw [List.mem_cons, not_or] at hnot
        rw [(hpde k hk).1 hnot.2, hpde₃ k hk hnot.1]
      · rcases List.mem_cons.mp hin with rfl | hin
        · rw [(hpde k hk).1 hiis, hpi, hp]
        · exact (hpde k hk).2 hin
    · -- one table has been copied, and stays behind
      obtain ⟨hlt, hsame⟩ := hfail hd
      refine ⟨by omega, iff_of_false (fun hs => ?_) fun hs => by omega⟩
      have habsent := (hsame.mp hs).2 i (his i List.mem_cons_self)
      rw [hpi] at habsent
      exact absurd habsent (by simp)

@[simp] theorem writable_pageFlags (x : U32) : writable (pageFlags x) = writable x := by
  refine decide_eq_decide.mpr ?_
  have h := and_twoPow_ne_zero_iff (w := 32) (k := 1)
  rw [show BitVec.twoPow 32 1 = 0x2#32 from rfl] at h
  rw [h _ (by decide), h _ (by decide), getLsbD_pageFlags x (by decide)]

/-- Region `k` of `d` is that of `s` in `m₀`, copy on write. -/
structure ClonedRegion (m₀ : Machine) (s : U32) (m : Machine) (d : U32) (k : ℕ) : Prop where
  write : present (pde m₀ s k) = true → writable (pde m d k) = writable (pde m₀ s k)
  entries : ∀ l < 1024, entry m d k l = (entry m₀ s k l).map cowEntry

/-- The entries of a table that has been cloned. -/
theorem clonedRegion_addTable (h : Building m₀ m d) {s t : U32} (hs : Held m₀ s) {i : ℕ}
    (hi : i < 1024) (hp : present (pde m₀ s i) = true) (hal : 4096 ∣ t.toNat) {m₂ m₃ : Machine}
    (htable : ∀ j < 1024, m₂.cell (frame t) j =
      if present (m.cell (frame (pde m₀ s i)) j) then cowEntry (m.cell (frame (pde m₀ s i)) j)
      else 0#32)
    (hpde : pde m₃ d i = t ||| pageFlags (pde m₀ s i))
    (hentry : ∀ l < 1024, entry m₃ d i l =
      if present (m₂.cell (frame t) l) then some (m₂.cell (frame t) l) else none) :
    ClonedRegion m₀ s m₃ d i := by
  refine ⟨fun _ => by rw [hpde, writable_or hal, writable_pageFlags], fun l hl => ?_⟩
  rw [hentry l hl, htable l hl, h.kept _ (hs.tables i hi hp) l hl, entry_eq]
  by_cases hpl : present (m₀.cell (frame (pde m₀ s i)) l) = true
  · rw [if_pos hpl, present_cowEntry, if_pos hpl, if_pos ⟨hp, hpl⟩, Option.map_some]
  · rw [if_neg hpl, if_neg (by decide), if_neg fun hh => hpl hh.2, Option.map_none]

/-- One iteration of the loop over the user entries. -/
theorem copyUserTables_iteration {s : U32} (hsal : 4096 ∣ s.toNat) (hs : Held m₀ s) {i : ℕ}
    {is : List ℕ} (hi : i < 1024) (h : Building m₀ m d) (hnull : m.pmm.NullReserved)
    (hempty : present (pde m d i) = false) {m' : Machine} {done : Bool}
    (hcopy : copyUserTables d s (i :: is) m = (m', done)) :
    (present (pde m₀ s i) = false ∧ copyUserTables d s is m = (m', done)) ∨
    (present (pde m₀ s i) = true ∧
      ((done = false ∧ m.pmm.available = 0 ∧ m' = destroyAddressSpace m d) ∨
        ∃ m₃, copyUserTables d s is m₃ = (m', done) ∧ Building m₀ m₃ d ∧
          m₃.pmm.NullReserved ∧ m.pmm.available = m₃.pmm.available + 1 ∧
          ClonedRegion m₀ s m₃ d i ∧ ∀ k < 1024, k ≠ i → pde m₃ d k = pde m d k ∧
            ∀ l < 1024, entry m₃ d k l = entry m d k l)) := by
  have hentry : m.word s i = pde m₀ s i := by
    rw [m.word_eq_cell hsal]
    exact h.kept _ hs.directory i hi
  rw [copyUserTables, hentry] at hcopy
  by_cases hp : present (pde m₀ s i) = true
  swap
  · rw [if_neg hp] at hcopy
    exact Or.inl ⟨Bool.eq_false_of_not_eq_true hp, hcopy⟩
  rw [if_pos hp] at hcopy
  refine Or.inr ⟨hp, ?_⟩
  obtain ⟨m₁, t, ha⟩ : ∃ m₁ t, m.allocateBlock = (m₁, t) := ⟨_, _, rfl⟩
  obtain ⟨hnull₁, hnone, hsome⟩ := allocateBlock_available hnull ha
  simp only [ha] at hcopy
  by_cases ht : t = 0#32
  · rw [if_pos ht, Prod.mk.injEq] at hcopy
    obtain ⟨rfl, rfl⟩ := hcopy
    obtain ⟨rfl, hav⟩ := hnone ht
    exact Or.inl ⟨rfl, hav, rfl⟩
  rw [if_neg ht] at hcopy
  obtain ⟨m₂, hm₂⟩ : ∃ m₂, m₂ = copyEntries t (pageBase (pde m₀ s i))
    (List.range pageTableEntries) (m₁.clearPage t) := ⟨_, rfl⟩
  have hmarked : m.pmm.marked (frame (pageBase (pde m₀ s i))) = true := by
    rw [frame_pageBase]
    exact (h.marks _).mpr (Or.inl (hs.tables i hi hp))
  obtain ⟨hal, hfree, -, -, -⟩ := Machine.allocateBlock_spec ha ht
  obtain ⟨hpmm₂, hk₂, hother, htable⟩ :=
    cloneTable_spec ha ht (dvd_pageBase _) (ne_of_marked hmarked hfree).symm hm₂
  rw [frame_pageBase] at htable
  rw [← hm₂] at hcopy
  -- the flags are read again after the copy
  have hst : frame s ≠ frame t := ne_of_marked ((h.marks _).mpr (Or.inl hs.directory)) hfree
  have hentry₂ : m₂.word s i = pde m₀ s i := by
    rw [m₂.word_eq_cell hsal, hother _ hst i hi, ← m.word_eq_cell hsal, hentry]
  rw [hentry₂] at hcopy
  have hpflags : present (pageFlags (pde m₀ s i)) = true := by rw [present_pageFlags, hp]
  obtain ⟨h₃, hpde₃, helse₃, hnew₃⟩ := h.addTable ha ht (toNat_pageFlags_lt _) hpflags hi hempty
    hpmm₂ hk₂ hother
  have hpmm₃ : (m₂.setWord d i (t ||| pageFlags (pde m₀ s i))).pmm = m₁.pmm := hpmm₂
  exact Or.inr ⟨_, hcopy, h₃, by rwa [hpmm₃], by rw [hpmm₃]; exact hsome ht,
    clonedRegion_addTable h hs hi hp hal htable (by rw [hpde₃ i hi, if_pos rfl]) hnew₃,
    fun k hk hki => ⟨by rw [hpde₃ k hk, if_neg hki], helse₃ k hk hki⟩⟩

/-- **The loop over the user entries** clones every region, if there are enough free blocks. -/
theorem copyUserTables_building {s : U32} (hsal : 4096 ∣ s.toNat) (hs : Held m₀ s)
    (hkern : KernelInUse m₀) {is : List ℕ}
    (his : ∀ i ∈ is, UserIndex i) (hnodup : is.Nodup) {m : Machine} (h : Building m₀ m d)
    (hnull : m.pmm.NullReserved) (hempty : ∀ i ∈ is, present (pde m d i) = false) :
    ∀ {m' : Machine} {done : Bool}, copyUserTables d s is m = (m', done) →
      (done = true → Building m₀ m' d ∧ m.pmm.available = m'.pmm.available + tableCount m₀ s is ∧
        ∀ k < 1024, (k ∉ is → pde m' d k = pde m d k ∧
            ∀ l < 1024, entry m' d k l = entry m d k l) ∧
          (k ∈ is → ClonedRegion m₀ s m' d k)) ∧
      (done = false → m.pmm.available < tableCount m₀ s is ∧
        (SameBlocks m₀ m' ↔ ∀ i < kernelSpaceEntries, present (pde m d i) = false)) := by
  induction is generalizing m with
  | nil =>
    intro m' done hcopy
    rw [copyUserTables, Prod.mk.injEq] at hcopy
    obtain ⟨rfl, rfl⟩ := hcopy
    exact ⟨fun _ => ⟨h, rfl, fun k _ => ⟨fun _ => ⟨rfl, fun _ _ => rfl⟩,
      fun hk => absurd hk (by simp)⟩⟩, by simp⟩
  | cons i is ih =>
    intro m' done hcopy
    obtain ⟨hiis, hnodup'⟩ := List.nodup_cons.mp hnodup
    have hi := (his i List.mem_cons_self).lt
    have his' : ∀ k ∈ is, UserIndex k := fun k hk => his k (List.mem_cons_of_mem i hk)
    have hempty' : ∀ k ∈ is, present (pde m d k) = false :=
      fun k hk => hempty k (List.mem_cons_of_mem i hk)
    rw [tableCount_cons, show m₀.word s i = pde m₀ s i from m₀.word_eq_cell hsal i]
    rcases copyUserTables_iteration hsal hs hi h hnull (hempty i List.mem_cons_self) hcopy with
      ⟨hp, hrest⟩ | ⟨hp, ⟨rfl, hav, rfl⟩ | ⟨m₃, hrest, h₃, hnull₃, hav, hregion, hsame₃⟩⟩
    · rw [hp, if_neg Bool.false_ne_true, Nat.add_zero]
      obtain ⟨hdone, hfail⟩ := ih his' hnodup' h hnull hempty' hrest
      refine ⟨fun hd => ?_, hfail⟩
      obtain ⟨hb, hav, hpde⟩ := hdone hd
      refine ⟨hb, hav, fun k hk => ⟨fun hnot => (hpde k hk).1 ?_, fun hin => ?_⟩⟩
      · exact fun hin => hnot (List.mem_cons_of_mem i hin)
      · rcases List.mem_cons.mp hin with rfl | hin
        · refine ⟨fun hpk => absurd (hp.symm.trans hpk) (by simp), fun l hl => ?_⟩
          rw [((hpde k hk).1 hiis).2 l hl, entry_of_absent (hempty k List.mem_cons_self),
            entry_of_absent hp, Option.map_none]
        · exact (hpde k hk).2 hin
    · rw [if_pos hp]
      exact ⟨by simp, fun _ => ⟨by omega, h.destroy_same hkern⟩⟩
    rw [if_pos hp]
    obtain ⟨hdone, hfail⟩ := ih his' hnodup' h₃ hnull₃ (fun k hk => by
      have hki : k ≠ i := fun heq => hiis (heq ▸ hk)
      rw [(hsame₃ k (his' k hk).lt hki).1]
      exact hempty' k hk) hrest
    refine ⟨fun hd => ?_, fun hd => ?_⟩
    · obtain ⟨hb, hav', hpde⟩ := hdone hd
      refine ⟨hb, by omega, fun k hk => ⟨fun hnot => ?_, fun hin => ?_⟩⟩
      · rw [List.mem_cons, not_or] at hnot
        obtain ⟨hpk, hek⟩ := (hpde k hk).1 hnot.2
        obtain ⟨hpk₃, hek₃⟩ := hsame₃ k hk hnot.1
        exact ⟨hpk.trans hpk₃, fun l hl => (hek l hl).trans (hek₃ l hl)⟩
      · rcases List.mem_cons.mp hin with rfl | hin
        · obtain ⟨hpk, hek⟩ := (hpde k hk).1 hiis
          exact ⟨fun hpp => by rw [hpk, hregion.write hpp],
            fun l hl => (hek l hl).trans (hregion.entries l hl)⟩
        · exact (hpde k hk).2 hin
    · -- the tables of the user half are given back
      obtain ⟨hlt, hsame⟩ := hfail hd
      refine ⟨by omega, hsame.trans (forall₂_congr fun k hk => ?_)⟩
      have hki : k ≠ i := by
        have := (his i List.mem_cons_self).1
        omega
      rw [(hsame₃ k (lt_trans hk (by decide)) hki).1]

end Build

/-! ### Pages -/

/-- Every table of `m'` is one of `m`, or lies in a block that was free. -/
def TablesFrom (m m' : Machine) (d : U32) : Prop :=
  ∀ i < 1024, present (pde m' d i) = true → present (pde m d i) = true ∧ pde m' d i = pde m d i ∨
    m.pmm.marked (frame (pde m' d i)) = false

/-- Mapping a page keeps the tables separate and in use; a new one was free. -/
theorem mapPageInSpace_tables {m : Machine} {d : U32} (h : Separated m d) (hheld : Held m d)
    (va pa : U32) (user rw : Bool) :
    Separated (mapPageInSpace m d va pa user rw) d ∧
      Held (mapPageInSpace m d va pa user rw) d ∧
      TablesFrom m (mapPageInSpace m d va pa user rw) d := by
  by_cases hc : (MapCall.mk va pa user rw).Maps m d
  · obtain ⟨hentry, hheld', -⟩ := Requests.maps_spec h hheld hc
    refine ⟨hentry.separated, hheld', fun i hi hp => ?_⟩
    dsimp only at hentry hp
    cases hold : present (pde m d i) with
    | true => exact Or.inl ⟨rfl, hentry.pde_eq hi hold⟩
    | false =>
      by_cases heq : i = dirIndex va
      · subst heq
        have hne := hc.2.2 hold
        have hnew := (mapPageInSpace_entry h hc.1 hc.2.1 (hheld.supplied hc) user rw).2 hold
        obtain ⟨m₁, t, ha⟩ : ∃ m₁ t, m.allocateBlock = (m₁, t) := ⟨_, _, rfl⟩
        rw [ha] at hne hnew
        obtain ⟨hal, hfree, -, -, -⟩ := Machine.allocateBlock_spec ha hne
        have hframe : frame (t ||| dirFlags user) = frame t := frame_or hal (dirFlags_spec user).1
        rw [hnew, hframe]
        exact Or.inr hfree
      · have hsame := hentry.pdes i hi fun hh => absurd hh heq
        rw [hsame, hold] at hp
        exact absurd hp (by simp)
  · have hmem := Requests.not_maps_entry h hc
    dsimp only at hmem
    have hpde := fun i => Requests.pde_of_mem (d := d) hmem i
    refine ⟨Requests.Separated.of_mem h hmem, hheld.of_pdes (mapPageInSpace_marks h va pa user rw)
      fun i _ _ => Or.inl (hpde i), fun i _ hp => ?_⟩
    rw [hpde] at hp ⊢
    exact Or.inl ⟨hp, rfl⟩

/-- **One call of `allocate_page`** keeps the tables separate and in use, and the page that it
gets lies apart from them. -/
theorem allocatePage_tables {m : Machine} {d : U32} (h : Separated m d) (hheld : Held m d)
    (va : U32) (user rw : Bool) {m₁ m' : Machine} {p q : U32} (ha : m.allocateBlock = (m₁, p))
    (hm' : allocatePage m d va user rw = (m', q)) :
    Separated m' d ∧ Held m' d ∧ TablesFrom m m' d ∧
      (∀ f, m.pmm.marked f = true → m'.pmm.marked f = true) ∧
      (p ≠ 0#32 → m'.pmm.marked (frame p) = true ∧ ApartFrom m' d p) := by
  obtain ⟨hmem, -, hmarks₁⟩ := Machine.allocateBlock_keeps ha
  have hpde := fun i => Requests.pde_of_mem (d := d) hmem i
  have h₁ := Requests.Separated.of_mem h hmem
  have hheld₁ : Held m₁ d := hheld.of_pdes hmarks₁ fun i _ _ => Or.inl (hpde i)
  rw [allocatePage, if_neg h.nonnull] at hm'
  simp only [ha] at hm'
  by_cases hp : p = 0#32
  · rw [if_pos hp, Prod.mk.injEq] at hm'
    obtain ⟨rfl, -⟩ := hm'
    refine ⟨h₁, hheld₁, fun i _ hpi => ?_, hmarks₁, fun hne => absurd hp hne⟩
    rw [hpde] at hpi ⊢
    exact Or.inl ⟨hpi, rfl⟩
  rw [if_neg hp, Prod.mk.injEq] at hm'
  obtain ⟨rfl, -⟩ := hm'
  obtain ⟨-, hfree, -, -, hmark⟩ := Machine.allocateBlock_spec ha hp
  have hpm₁ : m₁.pmm.marked (frame p) = true := by rw [hmark]; simp
  have hmarks := mapPageInSpace_marks h₁ va p user rw
  obtain ⟨h₂, hheld₂, hfrom⟩ := mapPageInSpace_tables h₁ hheld₁ va p user rw
  refine ⟨h₂, hheld₂, fun i hi hpi => ?_, fun f hf => hmarks f (hmarks₁ f hf),
    fun _ => ⟨hmarks _ hpm₁, (hheld.apart hfree).1, fun i hi hpi heq => ?_⟩⟩
  · rcases hfrom i hi hpi with ⟨hold, hsame⟩ | hnew
    · rw [hpde] at hold hsame
      exact Or.inl ⟨hold, hsame⟩
    · refine Or.inr ?_
      rw [hmark, Bool.or_eq_false_iff] at hnew
      exact hnew.1
  · rcases hfrom i hi hpi with ⟨hold, hsame⟩ | hnew
    · rw [hpde] at hold hsame
      rw [hsame] at heq
      exact (hheld.apart hfree).2 i hi hold heq
    · rw [heq, hpm₁] at hnew
      exact absurd hnew (by simp)

theorem allocatePage_held {m : Machine} {d : U32} (h : Separated m d) (hheld : Held m d) (va : U32)
    (user rw : Bool) :
    Separated (allocatePage m d va user rw).1 d ∧ Held (allocatePage m d va user rw).1 d := by
  obtain ⟨m₁, p, ha⟩ : ∃ m₁ p, m.allocateBlock = (m₁, p) := ⟨_, _, rfl⟩
  obtain ⟨m', q, hm'⟩ : ∃ m' q, allocatePage m d va user rw = (m', q) := ⟨_, _, rfl⟩
  obtain ⟨h', hheld', -⟩ := allocatePage_tables h hheld va user rw ha hm'
  rw [hm']
  exact ⟨h', hheld'⟩

/-! ### The calls -/

/-- The number of tables in the kernel half of the kernel directory. -/
def kernelTables (m : Machine) : ℕ :=
  tableCount m m.kernelDirectory (List.range kernelSpaceEntries)

section Calls

variable {m m' : Machine} {p : U32}

/-- A call that makes a directory has found one to copy from, and a block. -/
theorem kernelDirectory_of_created (h : (createAddressSpace m).2 ≠ 0#32) :
    m.kernelDirectory ≠ 0#32 := by
  intro hk
  rw [createAddressSpace, if_pos hk] at h
  exact h rfl

theorem nullReserved_of_created (h : (createAddressSpace m).2 ≠ 0#32) :
    m.pmm.NullReserved := by
  by_contra hnull
  rw [createAddressSpace, if_neg (kernelDirectory_of_created h)] at h
  simp only [(allocateBlock_null_free hnull).1, if_true] at h
  exact h rfl

/-- **Creating an address space**: a directory with copies of the kernel's tables.  A call that
runs out of blocks leaves copies behind, unless it made none. -/
theorem createAddressSpace_building (hkern : KernelInUse m) (hk0 : m.kernelDirectory ≠ 0#32)
    (hnull : m.pmm.NullReserved) (hc : createAddressSpace m = (m', p)) :
    (p ≠ 0#32 → Building m m' p ∧ m'.pmm.NullReserved ∧
      m.pmm.available = m'.pmm.available + kernelTables m + 1 ∧
      (∀ k < kernelSpaceEntries, present (pde m' p k) = present (m.word m.kernelDirectory k)) ∧
      ∀ k, UserIndex k → present (pde m' p k) = false) ∧
    (p = 0#32 → m.pmm.available < kernelTables m + 1 ∧
      (SameBlocks m m' ↔ m.pmm.available ≤ 1 ∨ kernelTables m = 0)) := by
  rw [createAddressSpace, if_neg hk0] at hc
  obtain ⟨m₁, d, ha⟩ : ∃ m₁ d, m.allocateBlock = (m₁, d) := ⟨_, _, rfl⟩
  obtain ⟨hnull₁, hnone, hsome⟩ := allocateBlock_available hnull ha
  simp only [ha] at hc
  by_cases hd : d = 0#32
  · rw [if_pos hd, Prod.mk.injEq] at hc
    obtain ⟨rfl, rfl⟩ := hc
    obtain ⟨rfl, hav⟩ := hnone hd
    refine ⟨fun hne => absurd rfl hne, fun _ => ⟨by omega, ?_⟩⟩
    exact iff_of_true (fun _ => rfl) (Or.inl (by omega))
  rw [if_neg hd] at hc
  obtain ⟨hb, hempty⟩ := building_directory ha hd
  have habsent : ∀ i < 1024, present (pde (m₁.clearPage d) d i) = false := by
    intro i hi
    rw [hempty i hi]
    decide
  have hav := hsome hd
  rcases hcopy : copyKernelTables d (List.range kernelSpaceEntries) (m₁.clearPage d) with
    ⟨m₂, done⟩
  rw [hcopy] at hc
  have hlt : ∀ i ∈ List.range kernelSpaceEntries, i < kernelSpaceEntries :=
    fun i hi => List.mem_range.mp hi
  have hlt' : ∀ i < kernelSpaceEntries, i < 1024 := fun i hi => lt_trans hi (by decide)
  obtain ⟨hdone, hfail⟩ := copyKernelTables_building hkern hlt List.nodup_range hb
    (by rw [Machine.clearPage_pmm]; exact hnull₁) (fun i hi => habsent i (hlt' i (hlt i hi))) hcopy
  rw [Machine.clearPage_pmm] at hdone hfail
  cases done with
  | false =>
    simp only [Bool.false_eq_true, if_false, Prod.mk.injEq] at hc
    obtain ⟨rfl, rfl⟩ := hc
    obtain ⟨hfew, hsame⟩ := hfail rfl
    rw [kernelTables]
    refine ⟨fun hne => absurd rfl hne, fun _ => ⟨by omega, hsame.trans ?_⟩⟩
    rw [and_iff_left fun i hi => habsent i (hlt' i hi)]
    omega
  | true =>
    simp only [if_true, Prod.mk.injEq] at hc
    obtain ⟨rfl, rfl⟩ := hc
    obtain ⟨hb', hnull', hav', hpde⟩ := hdone rfl
    refine ⟨fun _ => ⟨hb', hnull', by rw [kernelTables]; omega, fun k hk => ?_, fun k hk => ?_⟩,
      fun h0 => absurd h0 hd⟩
    · exact (hpde k (hlt' k hk)).2 (List.mem_range.mpr hk)
    · have hnot : k ∉ List.range kernelSpaceEntries := fun hin =>
        absurd (hlt k hin) (Nat.not_lt.mpr hk.1)
      rw [(hpde k hk.lt).1 hnot, habsent k hk.lt]

/-- Whether the kernel has tables shows in the new directory. -/
theorem kernelTables_eq_zero_iff {d : U32} (hpde : ∀ k < kernelSpaceEntries,
    present (pde m' d k) = present (m.word m.kernelDirectory k)) :
    kernelTables m = 0 ↔ ∀ k < kernelSpaceEntries, present (pde m' d k) = false := by
  rw [kernelTables, tableCount, List.countP_eq_zero]
  refine forall_congr' fun k => ?_
  rw [List.mem_range]
  refine imp_congr_right fun hk => ?_
  rw [hpde k hk, Bool.not_eq_true]

/-- **Cloning an address space**: a new one, with the user regions of the source, copy on
write. -/
theorem cloneAddressSpace_building {s : U32} (hkern : KernelInUse m)
    (hk0 : m.kernelDirectory ≠ 0#32) (hsal : 4096 ∣ s.toNat) (hs : Held m s) (hs0 : s ≠ 0#32) (hsk : s ≠ m.kernelDirectory)
    (hnull : m.pmm.NullReserved) (hc : cloneAddressSpace m s = (m', p)) :
    (p ≠ 0#32 → Building m m' p ∧ ∀ k, UserIndex k → ClonedRegion m s m' p k) ∧
    (p = 0#32 → m.pmm.available < kernelTables m + 1 + tableCount m s userEntries ∧
      (SameBlocks m m' ↔ m.pmm.available ≤ 1 ∨ kernelTables m = 0)) ∧
    (p ≠ 0#32 → kernelTables m + 1 + tableCount m s userEntries ≤ m.pmm.available) := by
  rw [cloneAddressSpace, if_neg (by simp [hs0, hsk])] at hc
  rcases hcreate : createAddressSpace m with ⟨m₁, d⟩
  simp only [hcreate] at hc
  obtain ⟨hmade, hfailed⟩ := createAddressSpace_building hkern hk0 hnull hcreate
  by_cases hd : d = 0#32
  · rw [if_pos hd, Prod.mk.injEq] at hc
    obtain ⟨rfl, rfl⟩ := hc
    obtain ⟨hfew, hsame⟩ := hfailed hd
    exact ⟨fun hne => absurd rfl hne, fun _ => ⟨by omega, hsame⟩, fun hne => absurd rfl hne⟩
  rw [if_neg hd] at hc
  obtain ⟨hb, hnull₁, hav, hpde, huser⟩ := hmade hd
  rcases hcopy : copyUserTables d s userEntries m₁ with ⟨m₂, done⟩
  rw [hcopy] at hc
  obtain ⟨hdone, hfail⟩ := copyUserTables_building hsal hs hkern
    (fun i hi => (mem_userEntries i).mp hi) nodup_userEntries hb hnull₁
    (fun i hi => huser i ((mem_userEntries i).mp hi)) hcopy
  cases done with
  | false =>
    simp only [Bool.false_eq_true, if_false, Prod.mk.injEq] at hc
    obtain ⟨rfl, rfl⟩ := hc
    obtain ⟨hfew, hsame⟩ := hfail rfl
    refine ⟨fun hne => absurd rfl hne, fun _ => ⟨by omega, ?_⟩, fun hne => absurd rfl hne⟩
    rw [hsame, ← kernelTables_eq_zero_iff hpde]
    omega
  | true =>
    simp only [if_true, Prod.mk.injEq] at hc
    obtain ⟨rfl, rfl⟩ := hc
    obtain ⟨hb', hav', hregion⟩ := hdone rfl
    refine ⟨fun _ => ⟨hb', fun k hk => ?_⟩, fun h0 => absurd h0 hd, fun _ => by omega⟩
    exact (hregion k hk.lt).2 ((mem_userEntries k).mpr hk)

end Calls

end MesaOS.Memory
