/-
What a clone maps (`VMM::clone_address_space` and `VMM::create_address_space` in
`memory/vmm.cpp`).

Both loops copy tables into blocks of the memory manager and enter them in the new directory.
All that is asked of the directories they copy from is that the manager finds neither these
nor their tables free: they may share tables, or be laid out in any way.

* `Copying.copyTable` — one table more;
* `copyKernelTables_copying`, `copyUserTables_copying` — the two loops;
* `clone_translates` — the clone translates kernel addresses as the kernel directory does and
  user addresses as the source does, without write permission, and the directories that it
  was made from are as they were.
-/
import MesaOS.FreshSpaces

open MachineWord

namespace MesaOS.Memory

open VMM

/-- No call of `allocate_block` finds block `f`. -/
def PMM.Spared (s : PMM) (f : ℕ) : Prop := f < s.scanned → s.marked f = true

/-- The directory and its tables are no blocks that the memory manager could hand out. -/
structure TablesSpared (m : Machine) (d : U32) : Prop where
  aligned : 4096 ∣ d.toNat
  directory : m.pmm.Spared (frame d)
  tables : ∀ i < 1024, present (pde m d i) = true → m.pmm.Spared (frame (pde m d i))

/-- A block that is handed out was not spared, and is from then on. -/
theorem allocateBlock_spared {m m₁ : Machine} {p : U32} (ha : m.allocateBlock = (m₁, p))
    (hp : p ≠ 0#32) :
    ¬ m.pmm.Spared (frame p) ∧ m₁.pmm.Spared (frame p) ∧
      ∀ f, m.pmm.Spared f → m₁.pmm.Spared f := by
  obtain ⟨-, -, -, -, hmark⟩ := Machine.allocateBlock_spec ha hp
  rw [Machine.allocateBlock, Prod.mk.injEq] at ha
  obtain ⟨rfl, h2⟩ := ha
  have hpmm : m.pmm.allocateBlock = (m.pmm.allocateBlock.1, p) := by rw [← h2]
  obtain ⟨b, hb, -, hscan, hclear, -⟩ := PMM.allocateBlock_spec hpmm hp
  have hframe : frame p = b := by
    rw [frame, hb]
    exact Nat.mul_div_cancel b (by decide)
  have hscanned : m.pmm.allocateBlock.1.scanned = m.pmm.scanned := by
    rw [PMM.scanned, PMM.allocateBlock_maxBlocks, PMM.scanned]
  refine ⟨fun h => ?_, fun _ => ?_, fun f hf hlt => ?_⟩
  · rw [hframe] at h
    rw [h hscan] at hclear
    exact absurd hclear (by simp)
  · rw [hmark, decide_eq_true rfl, Bool.or_true]
  · rw [hmark, hf (hscanned ▸ hlt), Bool.true_or]

/-- Region `k` of `d` is that of `s` in `m₀`, with every entry changed by `g`. -/
structure CopiedRegion (m₀ : Machine) (s : U32) (g : U32 → U32) (m : Machine) (d : U32)
    (k : ℕ) : Prop where
  present_eq : present (pde m d k) = present (pde m₀ s k)
  entries : present (pde m₀ s k) = true → ∀ l < 1024,
    m.cell (frame (pde m d k)) l = g (m₀.cell (frame (pde m₀ s k)) l)

/-- Region `k` of `d` is left as it is. -/
structure SameRegion (m : Machine) (d : U32) (m' : Machine) (k : ℕ) : Prop where
  pde_eq : pde m' d k = pde m d k
  entries : present (pde m d k) = true → ∀ l < 1024,
    m'.cell (frame (pde m d k)) l = m.cell (frame (pde m d k)) l

/-- `m` is reached from `m₀` by copying tables for the directory `d`. -/
structure Copying (m₀ m : Machine) (d : U32) : Prop where
  own : TablesSpared m d
  apart : ∀ i < 1024, present (pde m d i) = true → frame (pde m d i) ≠ frame d
  fresh : ¬ m₀.pmm.Spared (frame d)
  spared : ∀ f, m₀.pmm.Spared f → m.pmm.Spared f
  kept : ∀ f, m₀.pmm.Spared f → ∀ j < 1024, m.cell f j = m₀.cell f j
  kernel : m.kernelDirectory = m₀.kernelDirectory

section

variable {m₀ m m₁ m₂ m' : Machine} {d s t : U32} {g : U32 → U32} {k : ℕ}

theorem SameRegion.refl (m : Machine) (d : U32) (k : ℕ) : SameRegion m d m k :=
  ⟨rfl, fun _ _ _ => rfl⟩

theorem SameRegion.trans (h : SameRegion m d m₁ k) (h₁ : SameRegion m₁ d m₂ k) :
    SameRegion m d m₂ k := by
  refine ⟨h₁.pde_eq.trans h.pde_eq, fun hp l hl => ?_⟩
  have hentries := h₁.entries (by rw [h.pde_eq]; exact hp) l hl
  rw [h.pde_eq] at hentries
  exact hentries.trans (h.entries hp l hl)

theorem CopiedRegion.of_same (h : CopiedRegion m₀ s g m d k) (hsame : SameRegion m d m' k) :
    CopiedRegion m₀ s g m' d k := by
  refine ⟨by rw [hsame.pde_eq, h.present_eq], fun hp l hl => ?_⟩
  rw [hsame.pde_eq, hsame.entries (h.present_eq.trans hp) l hl, h.entries hp l hl]

/-- A region that neither of the two has. -/
theorem copiedRegion_of_absent (hs : present (pde m₀ s k) ≠ true)
    (hd : present (pde m d k) = false) : CopiedRegion m₀ s g m d k :=
  ⟨by rw [hd, Bool.eq_false_of_not_eq_true hs], fun hp => absurd hp hs⟩

/-- The loop has copied the regions `is`, and left the others. -/
structure Copied (m₀ : Machine) (s : U32) (g : U32 → U32) (m : Machine) (d : U32)
    (is : List ℕ) (m' : Machine) : Prop where
  copying : Copying m₀ m' d
  regions : ∀ k ∈ is, CopiedRegion m₀ s g m' d k
  others : ∀ k < 1024, k ∉ is → SameRegion m d m' k

theorem Copied.nil (h : Copying m₀ m d) : Copied m₀ s g m d [] m :=
  ⟨h, fun k hk => absurd hk (by simp), fun k _ _ => SameRegion.refl m d k⟩

theorem Copied.cons {i : ℕ} {is : List ℕ} (hi : i < 1024) (hiis : i ∉ is)
    (hregion : CopiedRegion m₀ s g m₁ d i)
    (hsame : ∀ k < 1024, k ≠ i → SameRegion m d m₁ k) (h : Copied m₀ s g m₁ d is m') :
    Copied m₀ s g m d (i :: is) m' := by
  refine ⟨h.copying, fun k hk => ?_, fun k hk hnot => ?_⟩
  · rcases List.mem_cons.mp hk with rfl | hin
    · exact hregion.of_same (h.others k hi hiis)
    · exact h.regions k hin
  · rw [List.mem_cons, not_or] at hnot
    exact (hsame k hk hnot.1).trans (h.others k hk hnot.2)

/-- The new directory, empty. -/
theorem copying_directory (ha : m.allocateBlock = (m₁, d)) (hd : d ≠ 0#32) :
    Copying m (m₁.clearPage d) d ∧ ∀ i < 1024, present (pde (m₁.clearPage d) d i) = false := by
  obtain ⟨hal, -, hmem, hk, -⟩ := Machine.allocateBlock_spec ha hd
  obtain ⟨hfresh, hown, hspared⟩ := allocateBlock_spared ha hd
  have habsent : ∀ i < 1024, present (pde (m₁.clearPage d) d i) = false := by
    intro i hi
    rw [pde, Machine.cell_clearPage _ hal _ hi, if_pos rfl]
    decide
  have hnone : ∀ i < 1024, present (pde (m₁.clearPage d) d i) ≠ true := fun i hi => by
    rw [habsent i hi]
    decide
  refine ⟨⟨⟨hal, hown, fun i hi hp => absurd hp (hnone i hi)⟩,
    fun i hi hp => absurd hp (hnone i hi), hfresh, hspared, fun f hf j hj => ?_, hk⟩, habsent⟩
  have hne : f ≠ frame d := fun h => hfresh (h ▸ hf)
  rw [Machine.cell_clearPage _ hal _ hj, if_neg hne, Machine.cell, Machine.cell, hmem]

/-- **One table more**: a block filled with the entries of a source table, and the directory
entry for it with the flags of the source. -/
theorem Copying.copyTable (h : Copying m₀ m d) (hs : TablesSpared m₀ s) {i : ℕ} (hi : i < 1024)
    (hp : present (pde m₀ s i) = true) (ha : m.allocateBlock = (m₁, t)) (ht : t ≠ 0#32)
    (hpmm : m₂.pmm = m₁.pmm) (hkern : m₂.kernelDirectory = m.kernelDirectory)
    (hother : ∀ f, f ≠ frame t → ∀ l < 1024, m₂.cell f l = m.cell f l)
    (htable : ∀ l < 1024, m₂.cell (frame t) l = g (m.cell (frame (pde m₀ s i)) l))
    (hm' : m' = m₂.setWord d i (t ||| pageFlags (pde m₀ s i))) :
    Copying m₀ m' d ∧ CopiedRegion m₀ s g m' d i ∧
      ∀ k < 1024, k ≠ i → SameRegion m d m' k := by
  obtain ⟨hal, -, -, -, -⟩ := Machine.allocateBlock_spec ha ht
  obtain ⟨hfree, htown, hspared⟩ := allocateBlock_spared ha ht
  have hne : ∀ {f}, m.pmm.Spared f → f ≠ frame t := fun hf heq => hfree (heq ▸ hf)
  have hcell : ∀ f, ∀ {l}, l < 1024 → m'.cell f l =
      if f = frame d ∧ l = i then t ||| pageFlags (pde m₀ s i) else m₂.cell f l := by
    intro f l hl
    rw [hm', Machine.cell_setWord _ h.own.aligned hi _ _ hl]
  have hpde : ∀ l < 1024, pde m' d l =
      if l = i then t ||| pageFlags (pde m₀ s i) else pde m d l := by
    intro l hl
    rw [pde, hcell _ hl]
    by_cases hli : l = i
    · rw [if_pos ⟨rfl, hli⟩, if_pos hli]
    · rw [if_neg fun hh => hli hh.2, if_neg hli, hother _ (hne h.own.directory) l hl, ← pde]
  have hframe : frame (t ||| pageFlags (pde m₀ s i)) = frame t := frame_or hal (toNat_pageFlags_lt _)
  have hpres : present (t ||| pageFlags (pde m₀ s i)) = true := by
    rw [present_or hal, present_pageFlags, hp]
  have hpmm' : m'.pmm = m₁.pmm := by rw [hm', Machine.setWord_pmm, hpmm]
  -- the new table is in a frame of its own, so all but the entry for it is as before
  refine ⟨⟨⟨h.own.aligned, ?_, fun l hl hpl => ?_⟩, fun l hl hpl => ?_, h.fresh, fun f hf => ?_,
    fun f hf l hl => ?_, ?_⟩, ⟨?_, fun _ l hl => ?_⟩, fun l hl hli => ⟨?_, fun hpl j hj => ?_⟩⟩
  · rw [hpmm']
    exact hspared _ h.own.directory
  · rw [hpde l hl] at hpl ⊢
    rw [hpmm']
    by_cases hli : l = i
    · rw [if_pos hli, hframe]
      exact htown
    · rw [if_neg hli] at hpl ⊢
      exact hspared _ (h.own.tables l hl hpl)
  · rw [hpde l hl] at hpl ⊢
    by_cases hli : l = i
    · rw [if_pos hli, hframe]
      exact (hne h.own.directory).symm
    · rw [if_neg hli] at hpl ⊢
      exact h.apart l hl hpl
  · rw [hpmm']
    exact hspared f (h.spared f hf)
  · have hfd : ¬ (f = frame d ∧ l = i) := fun hh => h.fresh (hh.1 ▸ hf)
    rw [hcell f hl, if_neg hfd, hother f (hne (h.spared f hf)) l hl, h.kept f hf l hl]
  · rw [hm', Machine.setWord_kernelDirectory, hkern, h.kernel]
  · rw [hpde i hi, if_pos rfl, hpres, hp]
  · have htd : ¬ (frame t = frame d ∧ l = i) := fun hh => hne h.own.directory hh.1.symm
    rw [hpde i hi, if_pos rfl, hframe, hcell _ hl, if_neg htd, htable l hl,
      h.kept _ (hs.tables i hi hp) l hl]
  · rw [hpde l hl, if_neg hli]
  · -- another table is neither the new one nor the directory
    have hld : ¬ (frame (pde m d l) = frame d ∧ j = i) := fun hh => h.apart l hl hpl hh.1
    rw [hcell _ hj, if_neg hld, hother _ (hne (h.own.tables l hl hpl)) j hj]

/-- A loop each of whose iterations copies one region. -/
theorem copied_of_loop (loop : List ℕ → Machine → Machine × Bool)
    (hnil : ∀ m, loop [] m = (m, true))
    (hstep : ∀ {i is m m'}, i < 1024 → Copying m₀ m d → present (pde m d i) = false →
      loop (i :: is) m = (m', true) → ∃ m₁, loop is m₁ = (m', true) ∧ Copying m₀ m₁ d ∧
        CopiedRegion m₀ s g m₁ d i ∧ ∀ k < 1024, k ≠ i → SameRegion m d m₁ k)
    {is : List ℕ} (his : ∀ i ∈ is, i < 1024) (hnodup : is.Nodup) {m m' : Machine}
    (h : Copying m₀ m d) (hempty : ∀ i ∈ is, present (pde m d i) = false)
    (hcopy : loop is m = (m', true)) : Copied m₀ s g m d is m' := by
  induction is generalizing m with
  | nil =>
    rw [hnil, Prod.mk.injEq] at hcopy
    obtain ⟨rfl, -⟩ := hcopy
    exact Copied.nil h
  | cons i is ih =>
    obtain ⟨hiis, hnodup'⟩ := List.nodup_cons.mp hnodup
    have hi := his i List.mem_cons_self
    have his' : ∀ k ∈ is, k < 1024 := fun k hk => his k (List.mem_cons_of_mem i hk)
    obtain ⟨m₁, hrest, h₁, hregion, hsame⟩ := hstep hi h (hempty i List.mem_cons_self) hcopy
    -- the later regions are still empty
    have hempty₁ : ∀ k ∈ is, present (pde m₁ d k) = false := by
      intro k hk
      have hki : k ≠ i := fun heq => hiis (heq ▸ hk)
      rw [(hsame k (his' k hk) hki).pde_eq]
      exact hempty k (List.mem_cons_of_mem i hk)
    exact (ih his' hnodup' h₁ hempty₁ hrest).cons hi hiis hregion hsame

/-- One iteration of the loop over the kernel entries. -/
theorem copyKernelTables_step (hk : TablesSpared m₀ m₀.kernelDirectory) {i : ℕ} {is : List ℕ}
    (hi : i < 1024) (h : Copying m₀ m d) (hempty : present (pde m d i) = false)
    (hcopy : copyKernelTables d (i :: is) m = (m', true)) :
    ∃ m₃, copyKernelTables d is m₃ = (m', true) ∧ Copying m₀ m₃ d ∧
      CopiedRegion m₀ m₀.kernelDirectory id m₃ d i ∧
      ∀ k < 1024, k ≠ i → SameRegion m d m₃ k := by
  have hentry : m.word m₀.kernelDirectory i = pde m₀ m₀.kernelDirectory i := by
    rw [m.word_eq_cell hk.aligned]
    exact h.kept _ hk.directory i hi
  rw [copyKernelTables, h.kernel, hentry] at hcopy
  by_cases hp : present (pde m₀ m₀.kernelDirectory i) = true
  swap
  · rw [if_neg hp] at hcopy
    exact ⟨m, hcopy, h, copiedRegion_of_absent hp hempty, fun k _ _ => SameRegion.refl m d k⟩
  rw [if_pos hp] at hcopy
  obtain ⟨m₁, t, ha⟩ : ∃ m₁ t, m.allocateBlock = (m₁, t) := ⟨_, _, rfl⟩
  simp only [ha] at hcopy
  by_cases ht : t = 0#32
  · rw [if_pos ht, Prod.mk.injEq] at hcopy
    exact absurd hcopy.2 (by simp)
  rw [if_neg ht] at hcopy
  obtain ⟨hal, -, hmem, -, -⟩ := Machine.allocateBlock_spec ha ht
  obtain ⟨m₂, hm₂⟩ : ∃ m₂, m₂ = m₁.copyPage t (pageBase (pde m₀ m₀.kernelDirectory i)) :=
    ⟨_, rfl⟩
  obtain ⟨hpmm₂, hk₂, hother⟩ := copiedPage_spec ha ht hm₂
  rw [← hm₂] at hcopy
  have hfree := (allocateBlock_spared ha ht).1
  have htable : ∀ l < 1024, m₂.cell (frame t) l =
      id (m.cell (frame (pde m₀ m₀.kernelDirectory i)) l) := by
    intro l hl
    rw [hm₂, Machine.cell_copyPage _ hal (dvd_pageBase _) _ hl, if_pos rfl, frame_pageBase,
      Machine.cell, hmem]
    rfl
  -- the flags are read again after the copy
  have hkt : frame m₀.kernelDirectory ≠ frame t := fun heq =>
    hfree (heq ▸ h.spared _ hk.directory)
  have hentry₂ : m₂.word m₂.kernelDirectory i = pde m₀ m₀.kernelDirectory i := by
    rw [hk₂, h.kernel, m₂.word_eq_cell hk.aligned, hother _ hkt i hi,
      ← m.word_eq_cell hk.aligned, hentry]
  rw [hentry₂] at hcopy
  exact ⟨_, hcopy, h.copyTable hk hi hp ha ht hpmm₂ hk₂ hother htable rfl⟩

/-- **The loop over the kernel entries.** -/
theorem copyKernelTables_copying (hk : TablesSpared m₀ m₀.kernelDirectory) {is : List ℕ}
    (his : ∀ i ∈ is, i < 1024) (hnodup : is.Nodup) {m m' : Machine} (h : Copying m₀ m d)
    (hempty : ∀ i ∈ is, present (pde m d i) = false)
    (hcopy : copyKernelTables d is m = (m', true)) :
    Copied m₀ m₀.kernelDirectory id m d is m' :=
  copied_of_loop (copyKernelTables d) (fun _ => rfl) (copyKernelTables_step hk) his hnodup h
    hempty hcopy

/-- An entry as it is in a cloned table. -/
def clonedEntry (x : U32) : U32 := if present x then cowEntry x else 0#32

/-- One iteration of the loop over the user entries. -/
theorem copyUserTables_step (hs : TablesSpared m₀ s) {i : ℕ} {is : List ℕ} (hi : i < 1024)
    (h : Copying m₀ m d) (hempty : present (pde m d i) = false)
    (hcopy : copyUserTables d s (i :: is) m = (m', true)) :
    ∃ m₃, copyUserTables d s is m₃ = (m', true) ∧ Copying m₀ m₃ d ∧
      CopiedRegion m₀ s clonedEntry m₃ d i ∧ ∀ k < 1024, k ≠ i → SameRegion m d m₃ k := by
  have hentry : m.word s i = pde m₀ s i := by
    rw [m.word_eq_cell hs.aligned]
    exact h.kept _ hs.directory i hi
  rw [copyUserTables, hentry] at hcopy
  by_cases hp : present (pde m₀ s i) = true
  swap
  · rw [if_neg hp] at hcopy
    exact ⟨m, hcopy, h, copiedRegion_of_absent hp hempty, fun k _ _ => SameRegion.refl m d k⟩
  rw [if_pos hp] at hcopy
  obtain ⟨m₁, t, ha⟩ : ∃ m₁ t, m.allocateBlock = (m₁, t) := ⟨_, _, rfl⟩
  simp only [ha] at hcopy
  by_cases ht : t = 0#32
  · rw [if_pos ht, Prod.mk.injEq] at hcopy
    exact absurd hcopy.2 (by simp)
  rw [if_neg ht] at hcopy
  have hfree := (allocateBlock_spared ha ht).1
  have hne : frame t ≠ frame (pageBase (pde m₀ s i)) := by
    rw [frame_pageBase]
    exact fun heq => hfree (heq ▸ h.spared _ (hs.tables i hi hp))
  obtain ⟨m₂, hm₂⟩ : ∃ m₂, m₂ = copyEntries t (pageBase (pde m₀ s i))
    (List.range pageTableEntries) (m₁.clearPage t) := ⟨_, rfl⟩
  obtain ⟨hpmm₂, hk₂, hother, htable⟩ := cloneTable_spec ha ht (dvd_pageBase _) hne hm₂
  rw [frame_pageBase] at htable
  rw [← hm₂] at hcopy
  -- the flags are read again after the copy
  have hst : frame s ≠ frame t := fun heq => hfree (heq ▸ h.spared _ hs.directory)
  have hentry₂ : m₂.word s i = pde m₀ s i := by
    rw [m₂.word_eq_cell hs.aligned, hother _ hst i hi, ← m.word_eq_cell hs.aligned, hentry]
  rw [hentry₂] at hcopy
  exact ⟨_, hcopy, h.copyTable (g := clonedEntry) hs hi hp ha ht hpmm₂ hk₂ hother htable rfl⟩

/-- **The loop over the user entries.** -/
theorem copyUserTables_copying (hs : TablesSpared m₀ s) {is : List ℕ}
    (his : ∀ i ∈ is, i < 1024) (hnodup : is.Nodup) {m m' : Machine} (h : Copying m₀ m d)
    (hempty : ∀ i ∈ is, present (pde m d i) = false)
    (hcopy : copyUserTables d s is m = (m', true)) :
    Copied m₀ s clonedEntry m d is m' :=
  copied_of_loop (copyUserTables d s) (fun _ => rfl) (copyUserTables_step hs) his hnodup h hempty
    hcopy

/-! ### The clone -/

/-- The two loops of a call that succeeds. -/
theorem cloneAddressSpace_copying (hk : TablesSpared m m.kernelDirectory)
    (hs : TablesSpared m s) (hc : cloneAddressSpace m s = (m', d)) (hd : d ≠ 0#32) :
    s ≠ 0#32 ∧ m.kernelDirectory ≠ 0#32 ∧ Copying m m' d ∧
      (∀ k < kernelSpaceEntries, CopiedRegion m m.kernelDirectory id m' d k) ∧
      ∀ k, UserIndex k → CopiedRegion m s clonedEntry m' d k := by
  rw [cloneAddressSpace] at hc
  by_cases hchecks : s = 0#32 ∨ s = m.kernelDirectory
  · rw [if_pos hchecks, Prod.mk.injEq] at hc
    exact absurd hc.2.symm hd
  rw [if_neg hchecks, createAddressSpace] at hc
  by_cases hk0 : m.kernelDirectory = 0#32
  · simp only [if_pos hk0, if_true, Prod.mk.injEq] at hc
    exact absurd hc.2.symm hd
  rw [if_neg hk0] at hc
  obtain ⟨m₁, p, ha⟩ : ∃ m₁ p, m.allocateBlock = (m₁, p) := ⟨_, _, rfl⟩
  simp only [ha] at hc
  by_cases hp : p = 0#32
  · simp only [if_pos hp, if_true, Prod.mk.injEq] at hc
    exact absurd hc.2.symm hd
  simp only [if_neg hp] at hc
  obtain ⟨h₀, hempty⟩ := copying_directory ha hp
  rcases hkernel : copyKernelTables p (List.range kernelSpaceEntries) (m₁.clearPage p) with
    ⟨m₂, done⟩
  rw [hkernel] at hc
  cases done with
  | false =>
    simp only [Bool.false_eq_true, if_false, if_true, Prod.mk.injEq] at hc
    exact absurd hc.2.symm hd
  | true =>
    simp only [if_true, if_neg hp] at hc
    have hlt : ∀ {i}, i ∈ List.range kernelSpaceEntries → i < 1024 := fun hi =>
      lt_trans (List.mem_range.mp hi) (by decide)
    obtain ⟨h₂, hregions, hsame⟩ := copyKernelTables_copying hk (fun i hi => hlt hi)
      List.nodup_range h₀ (fun i hi => hempty i (hlt hi)) hkernel
    have huser : ∀ {i}, UserIndex i → i ∉ List.range kernelSpaceEntries := fun hi hin =>
      absurd (List.mem_range.mp hin) (Nat.not_lt.mpr hi.1)
    rcases hcopy : copyUserTables p s userEntries m₂ with ⟨m₃, done⟩
    rw [hcopy] at hc
    cases done with
    | false =>
      simp only [Bool.false_eq_true, if_false, Prod.mk.injEq] at hc
      exact absurd hc.2.symm hd
    | true =>
      simp only [if_true, Prod.mk.injEq] at hc
      obtain ⟨rfl, rfl⟩ := hc
      have hindex : ∀ i ∈ userEntries, UserIndex i := fun i hi => (mem_userEntries i).mp hi
      obtain ⟨h₃, hregions₃, hsame₃⟩ := copyUserTables_copying hs
        (fun i hi => (hindex i hi).lt) nodup_userEntries h₂ (fun i hi => by
          rw [(hsame i (hindex i hi).lt (huser (hindex i hi))).pde_eq]
          exact hempty i (hindex i hi).lt) hcopy
      refine ⟨fun h => hchecks (Or.inl h), hk0, h₃, fun k hk => ?_,
        fun k hk => hregions₃ k ((mem_userEntries k).mpr hk)⟩
      have hnot : k ∉ userEntries := fun hin => absurd hk (Nat.not_lt.mpr (hindex k hin).1)
      exact (hregions k (List.mem_range.mpr hk)).of_same
        (hsame₃ k (lt_trans hk (by decide)) hnot)

/-- A copied region translates as the one it was copied from. -/
theorem CopiedRegion.translate {va : U32} (h : CopiedRegion m₀ s g m d (dirIndex va))
    (hg : ∀ x, present (g x) = present x ∧ (present x = true → pageBase (g x) = pageBase x))
    (hs : s ≠ 0#32) (hsal : 4096 ∣ s.toNat) (hd : d ≠ 0#32) (hdal : 4096 ∣ d.toNat) :
    getPhysicalAddress m d va = getPhysicalAddress m₀ s va := by
  rw [getPhysicalAddress_cell m hd hdal, getPhysicalAddress_cell m₀ hs hsal, h.present_eq]
  by_cases hp : present (pde m₀ s (dirIndex va)) = true
  · rw [h.entries hp _ (tableIndex_lt va), (hg _).1]
    by_cases hx : present (m₀.cell (frame (pde m₀ s (dirIndex va))) (tableIndex va)) = true
    · rw [if_pos ⟨hp, hx⟩, if_pos ⟨hp, hx⟩, (hg _).2 hx]
    · rw [if_neg fun hh => hx hh.2, if_neg fun hh => hx hh.2]
  · rw [if_neg fun hh => hp hh.1, if_neg fun hh => hp hh.1]

/-- The directories that tables are copied from translate as before. -/
theorem Copying.translate_kept (h : Copying m₀ m d) (hs : TablesSpared m₀ s) (hs0 : s ≠ 0#32)
    (va : U32) : getPhysicalAddress m s va = getPhysicalAddress m₀ s va := by
  have hpde : pde m s (dirIndex va) = pde m₀ s (dirIndex va) :=
    h.kept _ hs.directory _ (dirIndex_lt va)
  have hregion : CopiedRegion m₀ s id m s (dirIndex va) := by
    refine ⟨by rw [hpde], fun hp l hl => ?_⟩
    rw [hpde]
    exact h.kept _ (hs.tables _ (dirIndex_lt va) hp) l hl
  exact hregion.translate (fun _ => ⟨rfl, fun _ => rfl⟩) hs0 hs.aligned hs0 hs.aligned

theorem clonedEntry_spec (x : U32) :
    present (clonedEntry x) = present x ∧ writable (clonedEntry x) = false ∧
      (present x = true → pageBase (clonedEntry x) = pageBase x) := by
  rw [clonedEntry]
  by_cases hp : present x = true
  · rw [if_pos hp]
    refine ⟨present_cowEntry x, writable_cowEntry x, fun _ => ?_⟩
    refine eq_of_frame (dvd_pageBase _) (dvd_pageBase _) ?_
    rw [frame_pageBase, frame_pageBase, frame_cowEntry]
  · rw [if_neg hp, Bool.eq_false_of_not_eq_true hp]
    exact ⟨by decide, by decide, by simp⟩

end

/-- Frame `f` is that of the directory or of one of its tables. -/
def TableFrame (m : Machine) (d : U32) (f : ℕ) : Prop :=
  f = frame d ∨ ∃ i < 1024, present (pde m d i) = true ∧ f = frame (pde m d i)

/-- **What a clone maps**, for every kernel directory and every source. -/
theorem clone_translates (m : Machine) (s : U32) (hk : TablesSpared m m.kernelDirectory)
    (hs : TablesSpared m s) (m' : Machine) (clone : U32)
    (hc : cloneAddressSpace m s = (m', clone)) (hne : clone ≠ 0#32) :
    (∀ va, 0xC0000000#32 ≤ va → getPhysicalAddress m' clone va = getPhysicalAddress m' s va) ∧
      (∀ va, va < 0xC0000000#32 →
        getPhysicalAddress m' clone va = getPhysicalAddress m' m.kernelDirectory va) ∧
      (∀ i, UserIndex i → present (pde m' clone i) = true → ∀ j < 1024,
        writable (m'.cell (frame (pde m' clone i)) j) = false) ∧
      ∀ f, TableFrame m s f ∨ TableFrame m m.kernelDirectory f →
        ∀ j < 1024, m'.cell f j = m.cell f j := by
  obtain ⟨hs0, hk0, hcopying, hkernel, huser⟩ := cloneAddressSpace_copying hk hs hc hne
  have hspared : ∀ {d f}, TablesSpared m d → TableFrame m d f → m.pmm.Spared f := by
    rintro d f hd (rfl | ⟨i, hi, hp, rfl⟩)
    · exact hd.directory
    · exact hd.tables i hi hp
  refine ⟨fun va hva => ?_, fun va hva => ?_, fun i hi hp j hj => ?_, fun f hf => ?_⟩
  · rw [hcopying.translate_kept hs hs0]
    exact (huser _ (userIndex_dirIndex hva)).translate
      (fun x => ⟨(clonedEntry_spec x).1, (clonedEntry_spec x).2.2⟩) hs0 hs.aligned hne
      hcopying.own.aligned
  · have hlow : dirIndex va < kernelSpaceEntries := by
      have hlt := BitVec.lt_def.mp hva
      rw [dirIndex_eq, kernelSpaceEntries]
      rw [show (0xC0000000#32).toNat = 768 * 2 ^ 22 from rfl] at hlt
      omega
    rw [hcopying.translate_kept hk hk0]
    exact (hkernel _ hlow).translate (fun _ => ⟨rfl, fun _ => rfl⟩) hk0 hk.aligned hne
      hcopying.own.aligned
  · have hregion := huser i hi
    rw [hregion.entries (hregion.present_eq ▸ hp) j hj]
    exact (clonedEntry_spec _).2.1
  · rcases hf with hf | hf
    · exact hcopying.kept f (hspared hs hf)
    · exact hcopying.kept f (hspared hk hf)

/-- A kernel with one table and one page, and a process at `0x3000` with one table and one
page. -/
def onePageProcess : Machine where
  pmm :=
    { bitmap := 0x200000, words := fun i => if i = 0 then 0x7F else 0, maxBlocks := 128
      usedBlocks := 7, maxBlocks_lt := PMM.toNat_128_lt }
  mem := fun n =>
    if n = 0x1000 / 4 then 0x2003 else if n = 0x2000 / 4 + 5 then 0x5003
    else if n = 0x3000 / 4 + 768 then 0x4007 else if n = 0x4000 / 4 then 0x6007 else 0
  pageDirectory := 0x1000
  kernelDirectory := 0x1000

/-- Each directory of it has one entry. -/
theorem pde_onePageProcess {i : ℕ} (hi : i < 1024) :
    (present (pde onePageProcess 0x1000 i) = true → i = 0) ∧
      (present (pde onePageProcess 0x3000 i) = true → i = 768) := by
  have habsent : ∀ n, n ≠ 1024 → n ≠ 2053 → n ≠ 3840 → n ≠ 4096 →
      present (onePageProcess.mem n) ≠ true := by
    intro n h₁ h₂ h₃ h₄
    simp only [onePageProcess]
    rw [if_neg h₁, if_neg h₂, if_neg h₃, if_neg h₄]
    decide
  rw [pde, pde, Machine.cell, Machine.cell, show frame 0x1000 = 1 from rfl,
    show frame 0x3000 = 3 from rfl]
  constructor
  · intro hp
    by_contra hne
    exact habsent _ (by omega) (by omega) (by omega) (by omega) hp
  · intro hp
    by_contra hne
    exact habsent _ (by omega) (by omega) (by omega) (by omega) hp

set_option maxRecDepth 100000 in
theorem clone_onePageProcess : (cloneAddressSpace onePageProcess 0x3000).2 = 0x7000 := by
  decide +kernel

theorem clone_translates_onePage :
    ∃ m', cloneAddressSpace onePageProcess 0x3000 = (m', 0x7000) ∧
      getPhysicalAddress m' 0x7000 0xC0000123 = getPhysicalAddress m' 0x3000 0xC0000123 ∧
      getPhysicalAddress m' 0x7000 0x5123 = getPhysicalAddress m' 0x1000 0x5123 ∧
      m'.cell 4 0 = 0x6007 := by
  have hkernel : TablesSpared onePageProcess 0x1000 := by
    refine ⟨by decide, fun _ => by decide +kernel, fun i hi hp _ => ?_⟩
    rw [(pde_onePageProcess hi).1 hp]
    decide +kernel
  have hsource : TablesSpared onePageProcess 0x3000 := by
    refine ⟨by decide, fun _ => by decide +kernel, fun i hi hp _ => ?_⟩
    rw [(pde_onePageProcess hi).2 hp]
    decide +kernel
  rcases hc : cloneAddressSpace onePageProcess 0x3000 with ⟨m', clone⟩
  obtain rfl : clone = 0x7000 := by rw [← clone_onePageProcess, hc]
  obtain ⟨huser, hlow, -, hkept⟩ :=
    clone_translates onePageProcess 0x3000 hkernel hsource m' 0x7000 hc (by decide)
  refine ⟨m', rfl, huser _ (by decide), hlow _ (by decide), ?_⟩
  rw [hkept 4 (Or.inl (Or.inr ⟨768, by decide, by decide +kernel, by decide +kernel⟩)) 0
    (by decide)]
  rfl

end MesaOS.Memory
