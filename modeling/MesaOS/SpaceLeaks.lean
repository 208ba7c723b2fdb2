/-
Blocks that address spaces leave behind (`VMM::create_address_space`,
`VMM::clone_address_space`, `VMM::allocate_page` and `VMM::destroy_address_space` in
`memory/vmm.cpp`).

`destroy_address_space` gives back the directory and the tables of its user half.  The
copies of the kernel's tables and the pages stay in use for ever, and so does the clean-up
of a failed call, which uses it.  A block that stays is a `Stray` one:

* `stray_allocatePage`, `stray_destroy` — no call of `allocate_page` gives it back, and
  neither does `destroy_address_space`;
* `leaks_nothing_iff` — when the three ways to end leave no block behind.
-/
import MesaOS.AddressSpaces
import MesaOS.FreshSpaces

open MachineWord

namespace MesaOS.Memory

open VMM

/-- A call of `allocate_page`. -/
structure PageRequest where
  va : U32
  user : Bool
  rw : Bool

def allocatePages (d : U32) (requests : List PageRequest) (m : Machine) : Machine :=
  requests.foldl (fun m r => (allocatePage m d r.va r.user r.rw).1) m

/-- A call of `create_address_space` that returns null leaves the same blocks in use. -/
def CreateClean (m : Machine) : Prop :=
  (createAddressSpace m).2 = 0#32 → SameBlocks m (createAddressSpace m).1

/-- So does one of `clone_address_space`. -/
def CloneClean (m : Machine) (src : U32) : Prop :=
  (cloneAddressSpace m src).2 = 0#32 → SameBlocks m (cloneAddressSpace m src).1

/-- An address space is created, gets pages and is destroyed, and the same blocks are in use. -/
def LifeClean (m : Machine) (requests : List PageRequest) : Prop :=
  (createAddressSpace m).2 ≠ 0#32 → SameBlocks m (destroyAddressSpace
    (allocatePages (createAddressSpace m).2 requests (createAddressSpace m).1)
    (createAddressSpace m).2)

/-- A block in use, free at first, that is neither the directory nor a user table. -/
structure Stray (m₀ m : Machine) (d : U32) (g : ℕ) : Prop where
  free : m₀.pmm.marked g = false
  used : m.pmm.marked g = true
  directory : g ≠ frame d
  tables : ∀ i, UserIndex i → present (pde m d i) = true → frame (pde m d i) ≠ g

section Strays

variable {m₀ m : Machine} {d : U32} {g : ℕ}

theorem stray_allocatePage (h : Separated m d) (hheld : Held m d) (hs : Stray m₀ m d g)
    (r : PageRequest) : Stray m₀ (allocatePage m d r.va r.user r.rw).1 d g := by
  obtain ⟨m₁, p, ha⟩ : ∃ m₁ p, m.allocateBlock = (m₁, p) := ⟨_, _, rfl⟩
  obtain ⟨m', q, hm'⟩ : ∃ m' q, allocatePage m d r.va r.user r.rw = (m', q) := ⟨_, _, rfl⟩
  obtain ⟨-, -, hfrom, hmarks, -⟩ := allocatePage_tables h hheld r.va r.user r.rw ha hm'
  rw [hm']
  refine ⟨hs.free, hmarks g hs.used, hs.directory, fun i hi hp heq => ?_⟩
  rcases hfrom i hi.lt hp with ⟨hold, hsame⟩ | hnew
  · rw [hsame] at heq
    exact hs.tables i hi hold heq
  · rw [heq, hs.used] at hnew
    exact absurd hnew (by simp)

theorem stray_allocatePages (h : Separated m d) (hheld : Held m d) (hs : Stray m₀ m d g)
    (requests : List PageRequest) :
    Separated (allocatePages d requests m) d ∧ Stray m₀ (allocatePages d requests m) d g := by
  induction requests generalizing m with
  | nil => exact ⟨h, hs⟩
  | cons r requests ih =>
    obtain ⟨h', hheld'⟩ := allocatePage_held h hheld r.va r.user r.rw
    exact ih h' hheld' (stray_allocatePage h hheld hs r)

/-- A stray block outlives the address space. -/
theorem stray_destroy (h : Separated m d) (hs : Stray m₀ m d g) :
    ¬ SameBlocks m₀ (destroyAddressSpace m d) := by
  intro hsame
  have hused : (destroyAddressSpace m d).pmm.marked g = true := by
    rw [destroyAddressSpace]
    by_cases hnull : d = 0#32 ∨ d = m.kernelDirectory
    · rw [if_pos hnull]
      exact hs.used
    · rw [if_neg hnull]
      obtain ⟨-, -, hmark⟩ := freeTables_spec d userEntries m
      have haddr : d.toNat ≠ g * 4096 := by
        have := hs.directory
        rw [toNat_of_dvd h.aligned]
        omega
      rw [Machine.freeBlock, PMM.marked_freeBlock, decide_eq_false haddr, Bool.and_false,
        Bool.not_false, Bool.and_true, hmark]
      refine ⟨hs.used, fun i hi hp _ => ?_⟩
      rw [m.word_eq_cell h.aligned] at hp ⊢
      exact hs.tables i ((mem_userEntries i).mp hi) hp
  rw [hsame, hs.free] at hused
  exact absurd hused (by simp)

/-- The copy of a kernel table is a stray block. -/
theorem stray_kernelTable (h : Building m₀ m d) {k : ℕ} (hk : k < kernelSpaceEntries)
    (hp : present (pde m d k) = true) : Stray m₀ m d (frame (pde m d k)) := by
  have hk' : k < 1024 := lt_trans hk (by decide)
  refine ⟨(h.tables k hk' hp).1, h.held.tables k hk' hp, h.separated.directory k hk' hp,
    fun i hi hpi heq => ?_⟩
  have hik := h.separated.tables i hi.lt k hk' hpi hp heq
  have hle := hi.1
  omega

/-- So is a page. -/
theorem stray_page (h : Building m₀ m d) (hnull : m.pmm.NullReserved) (hav : m.pmm.available ≠ 0)
    (r : PageRequest) : ∃ g, Stray m₀ (allocatePage m d r.va r.user r.rw).1 d g := by
  obtain ⟨m₁, p, ha⟩ : ∃ m₁ p, m.allocateBlock = (m₁, p) := ⟨_, _, rfl⟩
  obtain ⟨m', q, hm'⟩ : ∃ m' q, allocatePage m d r.va r.user r.rw = (m', q) := ⟨_, _, rfl⟩
  have hp : p ≠ 0#32 := fun hp => hav ((allocateBlock_available hnull ha).2.1 hp).2
  obtain ⟨-, -, -, -, hpage⟩ :=
    allocatePage_tables h.separated h.held r.va r.user r.rw ha hm'
  obtain ⟨hused, hdir, htables⟩ := hpage hp
  have hfree := (Machine.allocateBlock_spec ha hp).2.1
  rw [hm']
  refine ⟨frame p, ?_, hused, hdir, fun i hi => htables i hi.lt⟩
  by_contra hmarked
  rw [(h.marks _).mpr (Or.inl (Bool.eq_true_of_not_eq_false hmarked))] at hfree
  exact absurd hfree (by simp)

/-- Without a free block, requests change nothing. -/
theorem allocatePages_full (hnull : m.pmm.NullReserved) (hav : m.pmm.available = 0)
    (requests : List PageRequest) : allocatePages d requests m = m := by
  induction requests with
  | nil => rfl
  | cons r requests ih =>
    obtain ⟨m₁, p, ha⟩ : ∃ m₁ p, m.allocateBlock = (m₁, p) := ⟨_, _, rfl⟩
    obtain ⟨-, hnone, hsome⟩ := allocateBlock_available hnull ha
    have hp : p = 0#32 := by
      by_contra hp
      have := hsome hp
      omega
    obtain ⟨rfl, -⟩ := hnone hp
    have hstep : (allocatePage m₁ d r.va r.user r.rw).1 = m₁ := by
      rw [allocatePage]
      split
      · rfl
      · simp only [ha, hp, if_true]
    rw [allocatePages, List.foldl_cons, hstep]
    exact ih

end Strays

section Calls

variable {m : Machine}

/-- When block 0 is free, the first call of `allocate_block` takes it for none, and marks it. -/
theorem create_of_nullFree (hk0 : m.kernelDirectory ≠ 0#32) (hnull : ¬ m.pmm.NullReserved) :
    (createAddressSpace m).2 = 0#32 ∧ ¬ SameBlocks m (createAddressSpace m).1 := by
  obtain ⟨hnone, hfree, hused⟩ := allocateBlock_null_free hnull
  rw [createAddressSpace, if_neg hk0]
  simp only [hnone, if_true, true_and]
  intro hsame
  rw [hsame 0, hfree] at hused
  exact absurd hused (by simp)

theorem createClean_iff (hkern : m.kernelDirectory ≠ 0#32 → KernelInUse m) :
    CreateClean m ↔ m.kernelDirectory = 0#32 ∨ m.pmm.NullReserved ∧
      (m.pmm.available ≤ 1 ∨ kernelTables m = 0 ∨ kernelTables m + 1 ≤ m.pmm.available) := by
  by_cases hk0 : m.kernelDirectory = 0#32
  · rw [CreateClean, createAddressSpace, if_pos hk0]
    exact iff_of_true (fun _ _ => rfl) (Or.inl hk0)
  rw [or_iff_right hk0]
  by_cases hnull : m.pmm.NullReserved
  swap
  · obtain ⟨hnone, hleft⟩ := create_of_nullFree hk0 hnull
    exact iff_of_false (fun h => hleft (h hnone)) fun h => hnull h.1
  rw [and_iff_right hnull, CreateClean]
  rcases hc : createAddressSpace m with ⟨m', p⟩
  obtain ⟨hmade, hfailed⟩ := createAddressSpace_building (hkern hk0) hk0 hnull hc
  by_cases hp : p = 0#32
  · obtain ⟨hfew, hsame⟩ := hfailed hp
    rw [forall_prop_of_true hp, hsame]
    omega
  · obtain ⟨-, -, hav, -⟩ := hmade hp
    exact iff_of_true (fun h => absurd h hp) (by omega)

theorem cloneClean_iff (hkern : m.kernelDirectory ≠ 0#32 → KernelInUse m) {src : U32}
    (hsal : 4096 ∣ src.toNat) (hsrc : Held m src) :
    CloneClean m src ↔
      src = 0#32 ∨ src = m.kernelDirectory ∨ m.kernelDirectory = 0#32 ∨ m.pmm.NullReserved ∧
        (m.pmm.available ≤ 1 ∨ kernelTables m = 0 ∨
          kernelTables m + 1 + tableCount m src userEntries ≤ m.pmm.available) := by
  rw [← or_assoc]
  by_cases hreject : src = 0#32 ∨ src = m.kernelDirectory
  · rw [CloneClean, cloneAddressSpace, if_pos hreject]
    exact iff_of_true (fun _ _ => rfl) (Or.inl hreject)
  rw [or_iff_right hreject]
  by_cases hk0 : m.kernelDirectory = 0#32
  · rw [CloneClean, cloneAddressSpace, if_neg hreject, createAddressSpace, if_pos hk0]
    exact iff_of_true (fun _ _ => rfl) (Or.inl hk0)
  rw [or_iff_right hk0]
  by_cases hnull : m.pmm.NullReserved
  swap
  · obtain ⟨hnone, hleft⟩ := create_of_nullFree hk0 hnull
    refine iff_of_false (fun h => hleft ?_) fun h => hnull h.1
    rw [CloneClean, cloneAddressSpace, if_neg hreject] at h
    rcases hc : createAddressSpace m with ⟨m', p⟩
    rw [hc] at hnone
    simp only [hc, hnone, if_true, forall_const] at h ⊢
    exact h
  rw [and_iff_right hnull, CloneClean]
  rw [not_or] at hreject
  rcases hc : cloneAddressSpace m src with ⟨m', p⟩
  obtain ⟨-, hfailed, hmade⟩ := cloneAddressSpace_building (hkern hk0) hk0 hsal hsrc hreject.1
    hreject.2 hnull hc
  by_cases hp : p = 0#32
  · obtain ⟨hfew, hsame⟩ := hfailed hp
    rw [forall_prop_of_true hp, hsame]
    omega
  · exact iff_of_true (fun h => absurd h hp) (Or.inr (Or.inr (hmade hp)))

theorem lifeClean_iff (hkern : m.kernelDirectory ≠ 0#32 → KernelInUse m)
    (requests : List PageRequest) :
    LifeClean m requests ↔
      m.kernelDirectory = 0#32 ∨ ¬ m.pmm.NullReserved ∨ m.pmm.available ≤ kernelTables m ∨
        kernelTables m = 0 ∧ (requests = [] ∨ m.pmm.available = 1) := by
  by_cases hk0 : m.kernelDirectory = 0#32
  · rw [LifeClean, createAddressSpace, if_pos hk0]
    exact iff_of_true (fun h => absurd rfl h) (Or.inl hk0)
  rw [or_iff_right hk0]
  by_cases hnull : m.pmm.NullReserved
  swap
  · exact iff_of_true (fun h => absurd (create_of_nullFree hk0 hnull).1 h) (Or.inl hnull)
  rw [or_iff_right (not_not.mpr hnull), LifeClean]
  rcases hc : createAddressSpace m with ⟨m₁, d⟩
  obtain ⟨hmade, hfailed⟩ := createAddressSpace_building (hkern hk0) hk0 hnull hc
  by_cases hd : d = 0#32
  · obtain ⟨hfew, -⟩ := hfailed hd
    exact iff_of_true (fun h => absurd hd h) (Or.inl (by omega))
  obtain ⟨hb, hnull₁, hav, hpde, -⟩ := hmade hd
  rw [forall_prop_of_true hd, or_iff_right (by omega)]
  dsimp only
  by_cases hK : kernelTables m = 0
  swap
  · -- the copy of some kernel table stays
    rw [kernelTables_eq_zero_iff hpde, not_forall] at hK
    obtain ⟨k, hk⟩ := hK
    rw [Classical.not_imp, Bool.not_eq_false] at hk
    obtain ⟨hsep, hstray⟩ := stray_allocatePages hb.separated hb.held
      (stray_kernelTable hb hk.1 hk.2) requests
    refine iff_of_false (stray_destroy hsep hstray) fun h => ?_
    rw [(kernelTables_eq_zero_iff hpde).mp h.1 k hk.1] at hk
    exact absurd hk.2 (by simp)
  rw [and_iff_right hK]
  have habsent := (kernelTables_eq_zero_iff hpde).mp hK
  by_cases hone : m₁.pmm.available = 0
  · rw [allocatePages_full hnull₁ hone]
    exact iff_of_true ((hb.destroy_same (hkern hk0)).mpr habsent) (Or.inr (by omega))
  cases requests with
  | nil => exact iff_of_true ((hb.destroy_same (hkern hk0)).mpr habsent) (Or.inl rfl)
  | cons r requests =>
    -- the first page stays
    obtain ⟨g, hstray⟩ := stray_page hb hnull₁ hone r
    obtain ⟨h', hheld'⟩ := allocatePage_held hb.separated hb.held r.va r.user r.rw
    obtain ⟨hsep, hstray'⟩ := stray_allocatePages h' hheld' hstray requests
    refine iff_of_false (stray_destroy hsep hstray') ?_
    rintro (h | h)
    · exact absurd h (by simp)
    · omega

end Calls

/-- **When an address space leaks nothing.**  A call that fails leaves the same blocks in use
exactly if no kernel table had been copied by then; and a whole life of an address space does,
exactly if the kernel has no tables in its half and no page was handed out. -/
theorem leaks_nothing_iff (m : Machine) (hkern : m.kernelDirectory ≠ 0#32 → KernelInUse m) :
    (CreateClean m ↔ m.kernelDirectory = 0#32 ∨ m.pmm.NullReserved ∧
      (m.pmm.available ≤ 1 ∨ kernelTables m = 0 ∨ kernelTables m + 1 ≤ m.pmm.available)) ∧
    (∀ src : U32, 4096 ∣ src.toNat → Held m src → (CloneClean m src ↔
      src = 0#32 ∨ src = m.kernelDirectory ∨ m.kernelDirectory = 0#32 ∨ m.pmm.NullReserved ∧
        (m.pmm.available ≤ 1 ∨ kernelTables m = 0 ∨
          kernelTables m + 1 + tableCount m src userEntries ≤ m.pmm.available))) ∧
    ∀ requests, LifeClean m requests ↔
      m.kernelDirectory = 0#32 ∨ ¬ m.pmm.NullReserved ∨ m.pmm.available ≤ kernelTables m ∨
        kernelTables m = 0 ∧ (requests = [] ∨ m.pmm.available = 1) :=
  ⟨createClean_iff hkern, fun _ hsal hsrc => cloneClean_iff hkern hsal hsrc, lifeClean_iff hkern⟩

/-- With enough free blocks no call fails. -/
theorem leaks_nothing_iff_identityMapped : CreateClean identityMapped :=
  (leaks_nothing_iff identityMapped fun _ => by decide +kernel).1.mpr
    (Or.inr ⟨by decide +kernel, Or.inr (Or.inr (by decide +kernel))⟩)

set_option maxRecDepth 100000 in
/-- An address space is created and destroyed at once, and the copies of the kernel's 16 tables
stay in use. -/
theorem identityMapped_not_clean :
    ¬ ∀ m, (m.kernelDirectory ≠ 0#32 → KernelInUse m) → m.pmm.NullReserved → ∀ requests,
      LifeClean m requests := by
  intro h
  have hlife := h identityMapped (fun _ => by decide +kernel) (by decide +kernel) []
  have hmade : (createAddressSpace identityMapped).2 = 0x12000 := by decide +kernel
  have hsame := hlife (by rw [hmade]; decide) 0x13
  rw [hmade] at hsame
  have hused : (destroyAddressSpace (createAddressSpace identityMapped).1 0x12000).pmm.marked
      0x13 = true := by decide +kernel
  rw [show identityMapped.pmm.marked 0x13 = false by decide +kernel] at hsame
  exact absurd (hused.symm.trans hsame) (by simp)

end MesaOS.Memory
