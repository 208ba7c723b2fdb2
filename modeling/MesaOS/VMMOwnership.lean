/-
Who owns a physical frame.

The address spaces that are live share the physical memory with each other and
with the allocator.  What keeps them apart is that every frame they use has one
role — a directory, the table at one place of one directory, or the page of one
virtual page number — and is marked in the bitmap.  `Owned m live role` says so,
and `Owns` hides the roles.

The pieces every operation is made of keep `Owned`: stores elsewhere
(`Owned.of_keeps`), a fresh frame (`Owned.extend`), a new directory
(`Owned.addDirectory`), and stores into a directory (`Owned.setPde`) or a table
(`Owned.setPte`).  From them come one lemma for each operation:
`createAddressSpace_spec`, `cloneAddressSpace_spec`, `destroyAddressSpace_spec`,
`allocatePage_spec`, `freePage_spec` and `pageFault_spec`.
-/
import MesaOS.VMM

open MachineWord

namespace MesaOS.Memory

/-- The index of a directory entry in user space. -/
def UserIndex (i : ℕ) : Prop := kernelSpaceEntries ≤ i ∧ i < pageTableEntries

/-- What a frame is used for. -/
inductive Role where
  | directory
  /-- a copy of a page table of the kernel -/
  | kernelTable
  /-- the page table at entry `i` of the directory `d` -/
  | table (d : U32) (i : ℕ)
  /-- a page mapped at entry `j` of the table at entry `i` -/
  | page (i j : ℕ)

/-- The role of a page table of the directory `d`. -/
def Role.isTableOf (d : U32) : Role → Bool
  | .table c _ => decide (c = d)
  | _ => false

/-- The roles when the directory `d` and its tables give theirs up. -/
def withoutSpace (role : ℕ → Option Role) (d : U32) (f : ℕ) : Option Role :=
  if f = frame d then none else (role f).filter fun r => !r.isTableOf d

/-- The user entry at `(i, j)` of the address space `d`, if it is present. -/
def entry (m : Machine) (d : U32) (i j : ℕ) : Option U32 :=
  if present (m.cell (frame d) i) ∧ present (m.cell (frame (m.cell (frame d) i)) j) then
    some (m.cell (frame (m.cell (frame d) i)) j)
  else none

/-- The roles of the frames used by the live address spaces. -/
structure Owned (m : Machine) (live : List U32) (role : ℕ → Option Role) : Prop where
  marked : ∀ f, role f ≠ none → m.pmm.marked f = true
  aligned : ∀ d ∈ live, 4096 ∣ d.toNat
  nonnull : ∀ d ∈ live, d ≠ 0#32
  directory : ∀ d ∈ live, role (frame d) = some .directory
  table : ∀ d ∈ live, ∀ i, UserIndex i → present (m.cell (frame d) i) = true →
    role (frame (m.cell (frame d) i)) = some (.table d i)
  page : ∀ d ∈ live, ∀ i, UserIndex i → ∀ j < 1024, ∀ x, entry m d i j = some x →
    role (frame x) = some (.page i j)

/-- The live address spaces can be given roles. -/
def Owns (m : Machine) (live : List U32) : Prop := ∃ role, Owned m live role

theorem UserIndex.lt {i : ℕ} (h : UserIndex i) : i < 1024 := h.2

theorem entry_eq_some_iff (m : Machine) (d : U32) (i j : ℕ) (x : U32) :
    entry m d i j = some x ↔ present (m.cell (frame d) i) = true ∧
      m.cell (frame (m.cell (frame d) i)) j = x ∧ present x = true := by
  rw [entry]
  by_cases h : present (m.cell (frame d) i) ∧ present (m.cell (frame (m.cell (frame d) i)) j)
  · rw [if_pos h, Option.some_inj]
    constructor
    · rintro rfl
      exact ⟨h.1, rfl, h.2⟩
    · exact fun h' => h'.2.1
  · rw [if_neg h]
    refine iff_of_false (by simp) ?_
    rintro ⟨h1, rfl, h3⟩
    exact h ⟨h1, h3⟩

/-- An entry depends only on one word of the directory and one of the table. -/
theorem entry_congr {m m' : Machine} {d : U32} {i j : ℕ}
    (h1 : m'.cell (frame d) i = m.cell (frame d) i)
    (h2 : present (m.cell (frame d) i) = true →
      m'.cell (frame (m.cell (frame d) i)) j = m.cell (frame (m.cell (frame d) i)) j) :
    entry m' d i j = entry m d i j := by
  rw [entry, entry, h1]
  by_cases hp : present (m.cell (frame d) i) = true
  · rw [h2 hp]
  · simp [hp]

namespace Owned

variable {m m' : Machine} {live : List U32} {role : ℕ → Option Role}

/-- Every word of a directory or page table is as before. -/
def KeepsTables (role : ℕ → Option Role) (m m' : Machine) : Prop :=
  ∀ f, (role f = some .directory ∨ ∃ d i, role f = some (.table d i)) →
    ∀ j < 1024, m'.cell f j = m.cell f j

/-- Every word of a frame with a role is as before. -/
def Keeps (role : ℕ → Option Role) (m m' : Machine) : Prop :=
  ∀ f, role f ≠ none → ∀ j < 1024, m'.cell f j = m.cell f j

theorem Keeps.tables (hk : Keeps role m m') : KeepsTables role m m' := by
  rintro f (hf | ⟨d, i, hf⟩) j hj
  · exact hk f (by simp [hf]) j hj
  · exact hk f (by simp [hf]) j hj

theorem entry_of_keepsTables (h : Owned m live role) (hk : KeepsTables role m m') {d : U32}
    (hd : d ∈ live) {i j : ℕ} (hi : UserIndex i) (hj : j < 1024) :
    entry m' d i j = entry m d i j :=
  entry_congr (hk _ (Or.inl (h.directory d hd)) i hi.lt) fun hp =>
    hk _ (Or.inr ⟨d, i, h.table d hd i hi hp⟩) j hj

theorem entry_of_keeps (h : Owned m live role) (hk : Keeps role m m') {d : U32} (hd : d ∈ live)
    {i j : ℕ} (hi : UserIndex i) (hj : j < 1024) : entry m' d i j = entry m d i j :=
  h.entry_of_keepsTables hk.tables hd hi hj

/-- Stores to frames that are no table, and marks set or cleared on frames without a role,
do not matter. -/
theorem of_keepsTables (h : Owned m live role) (hk : KeepsTables role m m')
    (hmark : ∀ f, role f ≠ none → m'.pmm.marked f = true) : Owned m' live role := by
  have hpde : ∀ d ∈ live, ∀ i, UserIndex i → m'.cell (frame d) i = m.cell (frame d) i :=
    fun d hd i hi => hk _ (Or.inl (h.directory d hd)) i hi.lt
  refine ⟨hmark, h.aligned, h.nonnull, h.directory, fun d hd i hi hp => ?_,
    fun d hd i hi j hj x hx => ?_⟩
  · rw [hpde d hd i hi] at hp ⊢
    exact h.table d hd i hi hp
  · rw [h.entry_of_keepsTables hk hd hi hj] at hx
    exact h.page d hd i hi j hj x hx

theorem of_keeps (h : Owned m live role) (hk : Keeps role m m')
    (hmark : ∀ f, role f ≠ none → m'.pmm.marked f = true) : Owned m' live role :=
  h.of_keepsTables hk.tables hmark

theorem mono (h : Owned m live role) {live' : List U32} (hsub : ∀ d ∈ live', d ∈ live) :
    Owned m live' role :=
  ⟨h.marked, fun d hd => h.aligned d (hsub d hd), fun d hd => h.nonnull d (hsub d hd),
    fun d hd => h.directory d (hsub d hd), fun d hd => h.table d (hsub d hd),
    fun d hd => h.page d (hsub d hd)⟩

/-- A marked frame without a role may be given one. -/
theorem extend (h : Owned m live role) {f : ℕ} (hf : role f = none)
    (hm : m.pmm.marked f = true) (r : Role) :
    Owned m live (Function.update role f (some r)) := by
  have hold : ∀ g s, role g = some s → Function.update role f (some r) g = some s := by
    intro g s hg
    rw [Function.update_of_ne (by rintro rfl; rw [hf] at hg; simp at hg), hg]
  refine ⟨fun g hg => ?_, h.aligned, h.nonnull, fun d hd => hold _ _ (h.directory d hd),
    fun d hd i hi hp => hold _ _ (h.table d hd i hi hp),
    fun d hd i hi j hj x hx => hold _ _ (h.page d hd i hi j hj x hx)⟩
  by_cases hgf : g = f
  · rw [hgf, hm]
  · rw [Function.update_of_ne hgf] at hg
    exact h.marked g hg

theorem role_eq_none (h : Owned m live role) {f : ℕ} (hf : m.pmm.marked f = false) :
    role f = none := by
  by_contra hr
  rw [h.marked f hr] at hf
  exact absurd hf (by simp)

/-- A frame with another role, or with none, is not that of a directory. -/
theorem ne_directory (h : Owned m live role) {d : U32} (hd : d ∈ live) {f : ℕ}
    (hf : role f ≠ some .directory) : f ≠ frame d := by
  rintro rfl
  exact hf (h.directory d hd)

theorem eq_of_frame (h : Owned m live role) {d d' : U32} (hd : d ∈ live) (hd' : d' ∈ live)
    (hf : frame d = frame d') : d = d' :=
  Memory.eq_of_frame (h.aligned d hd) (h.aligned d' hd') hf

/-- A directory whose user entries are all absent becomes a live address space. -/
theorem addDirectory (h : Owned m live role) {d : U32} (hal : 4096 ∣ d.toNat) (hd0 : d ≠ 0#32)
    (hrole : role (frame d) = some .directory)
    (hempty : ∀ i, UserIndex i → present (m.cell (frame d) i) = false) :
    Owned m (d :: live) role := by
  refine ⟨h.marked, ?_, ?_, ?_, ?_, ?_⟩
  · rintro c hc
    rcases List.mem_cons.mp hc with rfl | hc
    · exact hal
    · exact h.aligned c hc
  · rintro c hc
    rcases List.mem_cons.mp hc with rfl | hc
    · exact hd0
    · exact h.nonnull c hc
  · rintro c hc
    rcases List.mem_cons.mp hc with rfl | hc
    · exact hrole
    · exact h.directory c hc
  · rintro c hc i hi hp
    rcases List.mem_cons.mp hc with rfl | hc
    · rw [hempty i hi] at hp
      exact absurd hp (by simp)
    · exact h.table c hc i hi hp
  · rintro c hc i hi j hj x hx
    rcases List.mem_cons.mp hc with rfl | hc
    · rw [entry_eq_some_iff, hempty i hi] at hx
      exact absurd hx.1 (by simp)
    · exact h.page c hc i hi j hj x hx

/-- Storing a kernel entry of a directory changes no user entry. -/
theorem setKernelPde (h : Owned m live role) {d : U32} (hd : d ∈ live) {i : ℕ}
    (hi : i < kernelSpaceEntries) (x : U32) : Owned (m.setWord d i x) live role := by
  have hi' : i < 1024 := lt_trans hi (by decide)
  have hne : ∀ {k : ℕ}, UserIndex k → k ≠ i := fun hk => by have := hk.1; omega
  have hcell := fun g {k} (hk : k < 1024) => m.cell_setWord (h.aligned d hd) hi' x g hk
  have hentry : ∀ c ∈ live, ∀ k, UserIndex k → ∀ j < 1024,
      entry (m.setWord d i x) c k j = entry m c k j := by
    intro c hc k hk j hj
    refine entry_congr ?_ fun hp => ?_
    · rw [hcell _ hk.lt, if_neg fun hh => hne hk hh.2]
    · rw [hcell _ hj, if_neg]
      rintro ⟨hf, -⟩
      have h1 := h.table c hc k hk hp
      rw [hf, h.directory d hd] at h1
      exact absurd h1 (by simp)
  refine ⟨h.marked, h.aligned, h.nonnull, h.directory, fun c hc k hk hp => ?_,
    fun c hc k hk j hj y hy => ?_⟩
  · rw [hcell _ hk.lt, if_neg fun hh => hne hk hh.2] at hp ⊢
    exact h.table c hc k hk hp
  · rw [hentry c hc k hk j hj] at hy
    exact h.page c hc k hk j hj y hy

/-- Storing a table with suitable entries into a directory. -/
theorem setPde (h : Owned m live role) {d t y : U32} (hd : d ∈ live) {i : ℕ} (hi : UserIndex i)
    (ht : 4096 ∣ t.toNat) (hy : y.toNat < 4096)
    (htable : role (frame t) = some (.table d i))
    (hpages : ∀ j < 1024, present (m.cell (frame t) j) = true →
      role (frame (m.cell (frame t) j)) = some (.page i j)) :
    Owned (m.setWord d i (t ||| y)) live role := by
  have hcell := fun g {k} (hk : k < 1024) => m.cell_setWord (h.aligned d hd) hi.lt (t ||| y) g hk
  -- no table lies in the frame of a directory
  have htab : ∀ f c k, role f = some (.table c k) → ∀ j < 1024,
      (m.setWord d i (t ||| y)).cell f j = m.cell f j := by
    intro f c k hf j hj
    rw [hcell _ hj, if_neg]
    rintro ⟨rfl, -⟩
    rw [h.directory d hd] at hf
    exact absurd hf (by simp)
  refine ⟨h.marked, h.aligned, h.nonnull, h.directory, fun c hc k hk hp => ?_,
    fun c hc k hk j hj x hx => ?_⟩
  · rw [hcell _ hk.lt] at hp ⊢
    by_cases hck : frame c = frame d ∧ k = i
    · rw [if_pos hck, frame_or ht hy, htable, h.eq_of_frame hc hd hck.1, hck.2]
    · rw [if_neg hck] at hp ⊢
      exact h.table c hc k hk hp
  · rw [entry_eq_some_iff, hcell _ hk.lt] at hx
    by_cases hck : frame c = frame d ∧ k = i
    · rw [if_pos hck, frame_or ht hy, htab _ _ _ htable j hj] at hx
      obtain ⟨-, rfl, hx⟩ := hx
      rw [hpages j hj hx, hck.2]
    · rw [if_neg hck] at hx
      rw [htab _ _ _ (h.table c hc k hk hx.1) j hj] at hx
      exact h.page c hc k hk j hj x ((entry_eq_some_iff m c k j x).mpr hx)

/-- What storing into a table does to the entries of the live address spaces. -/
theorem entry_setPte (h : Owned m live role) {d : U32} (hd : d ∈ live) {i j : ℕ}
    (hi : UserIndex i) (hj : j < 1024) (hp : present (m.cell (frame d) i) = true) (x : U32)
    {c : U32} (hc : c ∈ live) {k l : ℕ} (hk : UserIndex k) (hl : l < 1024) :
    entry (m.setWord (pageBase (m.cell (frame d) i)) j x) c k l =
      if c = d ∧ k = i ∧ l = j then (if present x then some x else none) else entry m c k l := by
  have hcell := fun g {n} (hn : n < 1024) =>
    m.cell_setWord (dvd_pageBase (m.cell (frame d) i)) hj x g hn
  rw [frame_pageBase] at hcell
  -- the table is not in the frame of a directory
  have hpde : (m.setWord (pageBase (m.cell (frame d) i)) j x).cell (frame c) k =
      m.cell (frame c) k := by
    rw [hcell _ hk.lt, if_neg]
    rintro ⟨hf, -⟩
    have h1 := h.table d hd i hi hp
    rw [← hf, h.directory c hc] at h1
    exact absurd h1 (by simp)
  by_cases hckl : c = d ∧ k = i ∧ l = j
  · obtain ⟨rfl, rfl, rfl⟩ := hckl
    rw [if_pos ⟨rfl, rfl, rfl⟩, entry, hpde, hcell _ hl]
    simp [hp]
  · rw [if_neg hckl]
    refine entry_congr hpde fun hpk => ?_
    rw [hcell _ hl, if_neg]
    rintro ⟨hf, rfl⟩
    have h1 := h.table c hc k hk hpk
    rw [hf, h.table d hd i hi hp] at h1
    simp only [Option.some_inj, Role.table.injEq] at h1
    exact hckl ⟨h1.1.symm, h1.2.symm, rfl⟩

/-- Storing an entry for a page with the right role into a table. -/
theorem setPte (h : Owned m live role) {d : U32} (hd : d ∈ live) {i j : ℕ}
    (hi : UserIndex i) (hj : j < 1024) (hp : present (m.cell (frame d) i) = true) (x : U32)
    (hpage : present x = true → role (frame x) = some (.page i j)) :
    Owned (m.setWord (pageBase (m.cell (frame d) i)) j x) live role := by
  have hpde : ∀ c ∈ live, ∀ k, UserIndex k →
      (m.setWord (pageBase (m.cell (frame d) i)) j x).cell (frame c) k = m.cell (frame c) k := by
    intro c hc k hk
    rw [m.cell_setWord (dvd_pageBase _) hj x _ hk.lt, frame_pageBase, if_neg]
    rintro ⟨hf, -⟩
    have h1 := h.table d hd i hi hp
    rw [← hf, h.directory c hc] at h1
    exact absurd h1 (by simp)
  refine ⟨h.marked, h.aligned, h.nonnull, h.directory, fun c hc k hk hpk => ?_,
    fun c hc k hk l hl y hy => ?_⟩
  · rw [hpde c hc k hk] at hpk ⊢
    exact h.table c hc k hk hpk
  · rw [h.entry_setPte hd hi hj hp x hc hk hl] at hy
    by_cases hckl : c = d ∧ k = i ∧ l = j
    · rw [if_pos hckl] at hy
      by_cases hx : present x = true
      · rw [if_pos hx, Option.some_inj] at hy
        subst hy
        rw [hpage hx, hckl.2.1, hckl.2.2]
      · rw [if_neg hx] at hy
        exact absurd hy (by simp)
    · rw [if_neg hckl] at hy
      exact h.page c hc k hk l hl y hy

/-- A call of `allocateBlock` alone takes nothing away. -/
theorem allocate (h : Owned m live role) {p : U32} (ha : m.allocateBlock = (m', p)) :
    Owned m' live role := by
  obtain ⟨hmem, -, hmark⟩ := Machine.allocateBlock_keeps ha
  refine h.of_keeps (fun f _ j _ => ?_) fun f hf => hmark f (h.marked f hf)
  rw [Machine.cell, Machine.cell, hmem]

/-- A new block, and what is then stored in it, for a frame of the given role. -/
theorem freshFrame (h : Owned m live role) (m' : Machine) {m₁ : Machine} {p : U32}
    (ha : m.allocateBlock = (m₁, p)) (hp : p ≠ 0#32) (hpmm : m'.pmm = m₁.pmm)
    (hcell : ∀ g, g ≠ frame p → ∀ j < 1024, m'.cell g j = m.cell g j) (r : Role) :
    role (frame p) = none ∧ Owned m' live (Function.update role (frame p) (some r)) := by
  obtain ⟨-, hclear, -, -, hmark⟩ := Machine.allocateBlock_spec ha hp
  have hnone := h.role_eq_none hclear
  have h' : Owned m' live role := by
    refine h.of_keeps (fun f hf j hj => hcell f ?_ j hj) fun f hf => ?_
    · rintro rfl
      exact hf hnone
    · rw [hpmm, hmark, h.marked f hf, Bool.true_or]
  exact ⟨hnone, h'.extend hnone (by rw [hpmm, hmark]; simp) r⟩

end Owned

/-- `m'` differs from `m` only in frames that were unmarked, and in the frame of `d`;
no mark is taken away. -/
structure Untouched (d : U32) (m m' : Machine) : Prop where
  cells : ∀ f, m.pmm.marked f = true → f ≠ frame d → ∀ j < 1024, m'.cell f j = m.cell f j
  marks : ∀ f, m.pmm.marked f = true → m'.pmm.marked f = true
  kernel : m'.kernelDirectory = m.kernelDirectory

theorem Untouched.refl (d : U32) (m : Machine) : Untouched d m m :=
  ⟨fun _ _ _ _ _ => rfl, fun _ hf => hf, rfl⟩

theorem Untouched.trans {d : U32} {m₁ m₂ m₃ : Machine} (h : Untouched d m₁ m₂)
    (h' : Untouched d m₂ m₃) : Untouched d m₁ m₃ :=
  ⟨fun f hf hfd j hj => (h'.cells f (h.marks f hf) hfd j hj).trans (h.cells f hf hfd j hj),
    fun f hf => h'.marks f (h.marks f hf), h'.kernel.trans h.kernel⟩

namespace VMM

/-! ### Destroying an address space -/

theorem mem_userEntries (i : ℕ) : i ∈ userEntries ↔ UserIndex i := by
  rw [userEntries, List.mem_range'_1, UserIndex, kernelSpaceEntries, pageTableEntries]

/-- A table is given back, unless it would be block 0. -/
theorem freePageTable_spec (m : Machine) (x : U32) :
    (freePageTable m (pageBase x)).mem = m.mem ∧
    (freePageTable m (pageBase x)).kernelDirectory = m.kernelDirectory ∧
    ∀ f, (freePageTable m (pageBase x)).pmm.marked f = true ↔
      m.pmm.marked f = true ∧ (f ≠ 0 → frame x ≠ f) := by
  have haddr := toNat_pageBase x
  rw [freePageTable]
  by_cases ht : pageBase x ≠ 0#32
  · rw [if_pos ht]
    have hx : frame x ≠ 0 := fun h0 => ht (BitVec.eq_of_toNat_eq (by rw [haddr, h0]; simp))
    refine ⟨rfl, rfl, fun f => ?_⟩
    rw [Machine.freeBlock, PMM.marked_freeBlock, haddr]
    by_cases hf : frame x = f
    · simp [ht, ← hf, hx]
    · simp [hf]
  · rw [if_neg ht]
    rw [not_not] at ht
    have hx : frame x = 0 := by
      rw [ht, show (0#32).toNat = 0 from rfl] at haddr
      omega
    refine ⟨rfl, rfl, fun f => (and_iff_left fun hf => ?_).symm⟩
    rw [hx]
    exact hf.symm

/-- Freeing the tables of a directory unmarks their frames, except for block 0. -/
theorem freeTables_spec (d : U32) (is : List ℕ) (m : Machine) :
    (freeTables d is m).mem = m.mem ∧
    (freeTables d is m).kernelDirectory = m.kernelDirectory ∧
    ∀ f, (freeTables d is m).pmm.marked f = true ↔ m.pmm.marked f = true ∧
      ∀ i ∈ is, present (m.word d i) = true → f ≠ 0 → frame (m.word d i) ≠ f := by
  induction is generalizing m with
  | nil => exact ⟨rfl, rfl, fun f => (and_iff_left fun i hi => absurd hi (by simp)).symm⟩
  | cons i is ih =>
    rw [freeTables, List.foldl_cons]
    by_cases hp : present (m.word d i) = true
    · rw [if_pos hp]
      obtain ⟨hmem, hk, hmark⟩ := freePageTable_spec m (m.word d i)
      obtain ⟨hmem', hk', hmark'⟩ := ih (freePageTable m (pageBase (m.word d i)))
      refine ⟨hmem'.trans hmem, hk'.trans hk, fun f => (hmark' f).trans ?_⟩
      have hword : ∀ k, (freePageTable m (pageBase (m.word d i))).word d k = m.word d k :=
        fun k => congrFun hmem _
      simp only [hword, hmark, List.forall_mem_cons, hp, forall_const, and_assoc]
    · rw [if_neg hp]
      obtain ⟨hmem', hk', hmark'⟩ := ih m
      refine ⟨hmem', hk', fun f => (hmark' f).trans (and_congr_right fun _ => ?_)⟩
      rw [List.forall_mem_cons]
      exact (and_iff_right fun h => absurd h hp).symm

/-- Destroying an address space leaves the others as they are. -/
theorem destroyAddressSpace_spec {m : Machine} {live : List U32} (h : Owns m live) {d : U32}
    (hd : d ∈ live) :
    Owns (destroyAddressSpace m d) (live.filter (· ≠ d)) ∧
      (destroyAddressSpace m d).mem = m.mem ∧
      (destroyAddressSpace m d).kernelDirectory = m.kernelDirectory := by
  obtain ⟨role, h⟩ := h
  have hsub : ∀ c ∈ live.filter (· ≠ d), c ∈ live ∧ c ≠ d := by
    intro c hc
    simpa using hc
  rw [destroyAddressSpace]
  by_cases hnull : d = 0#32 ∨ d = m.kernelDirectory
  · rw [if_pos hnull]
    exact ⟨⟨role, h.mono fun c hc => (hsub c hc).1⟩, rfl, rfl⟩
  · rw [if_neg hnull]
    obtain ⟨hmem, hk, hmark⟩ := freeTables_spec d userEntries m
    refine ⟨⟨withoutSpace role d, ?_⟩, hmem, hk⟩
    have hword := m.word_eq_cell (h.aligned d hd)
    have hcell : ∀ f j, ((freeTables d userEntries m).freeBlock d).cell f j = m.cell f j :=
      fun f j => by rw [Machine.cell, Machine.cell, Machine.freeBlock, hmem]
    have hentry : ∀ c i j, entry ((freeTables d userEntries m).freeBlock d) c i j =
        entry m c i j := fun c i j => entry_congr (hcell _ _) fun _ => hcell _ _
    refine ⟨fun f hf => ?_, fun c hc => h.aligned c (hsub c hc).1,
      fun c hc => h.nonnull c (hsub c hc).1, fun c hc => ?_, fun c hc i hi hp => ?_,
      fun c hc i hi j hj x hx => ?_⟩
    · -- a frame that keeps its role is neither the directory nor one of its tables
      have hfd : f ≠ frame d := fun heq => hf (by rw [withoutSpace, if_pos heq])
      rw [withoutSpace, if_neg hfd] at hf
      have haddr : d.toNat ≠ f * 4096 := fun heq => hfd (by rw [frame]; omega)
      rw [Machine.freeBlock, PMM.marked_freeBlock, decide_eq_false haddr, Bool.and_false,
        Bool.not_false, Bool.and_true]
      refine (hmark f).mpr
        ⟨h.marked f fun hnone => hf (by rw [hnone]; rfl), fun i hi hp _ heq => ?_⟩
      rw [hword] at hp heq
      rw [← heq, h.table d hd i ((mem_userEntries i).mp hi) hp] at hf
      exact hf (by simp [Role.isTableOf])
    · obtain ⟨hcl, hcd⟩ := hsub c hc
      have hne : frame c ≠ frame d := fun heq => hcd (h.eq_of_frame hcl hd heq)
      simp [withoutSpace, hne, h.directory c hcl, Role.isTableOf]
    · obtain ⟨hcl, hcd⟩ := hsub c hc
      rw [hcell] at hp ⊢
      have hrole := h.table c hcl i hi hp
      have hne : frame (m.cell (frame c) i) ≠ frame d := h.ne_directory hd (by rw [hrole]; simp)
      simp [withoutSpace, hne, hrole, hcd, Role.isTableOf]
    · obtain ⟨hcl, hcd⟩ := hsub c hc
      rw [hentry] at hx
      have hrole := h.page c hcl i hi j hj x hx
      have hne : frame x ≠ frame d := h.ne_directory hd (by rw [hrole]; simp)
      simp [withoutSpace, hne, hrole, Role.isTableOf]

theorem filter_ne_cons {d : U32} {live : List U32} (hd : d ∉ live) :
    (d :: live).filter (· ≠ d) = live := by
  rw [List.filter_cons_of_neg (by simp), List.filter_eq_self]
  intro c hc
  simpa using fun heq : c = d => hd (heq ▸ hc)

/-! ### Creating an address space -/

theorem ne_of_marked {s : PMM} {f g : ℕ} (hf : s.marked f = true) (hg : s.marked g = false) :
    f ≠ g := by
  rintro rfl
  rw [hf] at hg
  exact absurd hg (by simp)

/-- When there is no block for a table, the new directory is destroyed. -/
theorem noBlock_spec {m m₁ : Machine} {d p : U32} {live : List U32} (hd : d ∉ live)
    (h : Owns m (d :: live)) (ha : m.allocateBlock = (m₁, p)) :
    (∀ f j, (destroyAddressSpace m₁ d).cell f j = m.cell f j) ∧
      (destroyAddressSpace m₁ d).kernelDirectory = m.kernelDirectory ∧
      Owns (destroyAddressSpace m₁ d) live := by
  obtain ⟨role, h⟩ := h
  obtain ⟨hmem, hk, -⟩ := Machine.allocateBlock_keeps ha
  obtain ⟨hown, hmem', hk'⟩ := destroyAddressSpace_spec ⟨role, h.allocate ha⟩ List.mem_cons_self
  rw [filter_ne_cons hd] at hown
  refine ⟨fun f j => ?_, hk'.trans hk, hown⟩
  rw [Machine.cell, Machine.cell, hmem', hmem]

/-- The copies of the kernel tables go to fresh frames, the entries for them into the
kernel part of the new directory. -/
theorem copyKernelTables_spec {d : U32} {live : List U32} (hd : d ∉ live) {is : List ℕ}
    (his : ∀ i ∈ is, i < kernelSpaceEntries) {m : Machine} (h : Owns m (d :: live)) :
    ∀ {m' : Machine} {done : Bool}, copyKernelTables d is m = (m', done) →
      (∀ f, m.pmm.marked f = true → f ≠ frame d → ∀ j < 1024, m'.cell f j = m.cell f j) ∧
      m'.kernelDirectory = m.kernelDirectory ∧
      (done = false → Owns m' live) ∧
      (done = true → Owns m' (d :: live) ∧ Untouched d m m' ∧
        ∀ i, UserIndex i → m'.cell (frame d) i = m.cell (frame d) i) := by
  induction is generalizing m with
  | nil =>
    intro m' done hcopy
    rw [copyKernelTables, Prod.mk.injEq] at hcopy
    obtain ⟨rfl, rfl⟩ := hcopy
    exact ⟨fun _ _ _ _ _ => rfl, rfl, by simp,
      fun _ => ⟨h, Untouched.refl d m, fun _ _ => rfl⟩⟩
  | cons i is ih =>
    intro m' done hcopy
    have his' : ∀ k ∈ is, k < kernelSpaceEntries := fun k hk => his k (List.mem_cons_of_mem i hk)
    rw [copyKernelTables] at hcopy
    by_cases hp : present (m.word m.kernelDirectory i) = true
    swap
    · rw [if_neg hp] at hcopy
      exact ih his' h hcopy
    rw [if_pos hp] at hcopy
    obtain ⟨m₁, newTable, ha⟩ : ∃ m₁ t, m.allocateBlock = (m₁, t) := ⟨_, _, rfl⟩
    simp only [ha] at hcopy
    by_cases ht : newTable = 0#32
    · rw [if_pos ht, Prod.mk.injEq] at hcopy
      obtain ⟨rfl, rfl⟩ := hcopy
      obtain ⟨hcells, hkern, hown⟩ := noBlock_spec hd h ha
      exact ⟨fun f _ _ j _ => hcells f j, hkern, fun _ => hown, by simp⟩
    · rw [if_neg ht] at hcopy
      obtain ⟨role, h⟩ := h
      obtain ⟨hal, hclear, hmem, hk, hmark⟩ := Machine.allocateBlock_spec ha ht
      have hdal := h.aligned d List.mem_cons_self
      have hi : i < 1024 := lt_trans (his i List.mem_cons_self) (by decide)
      set x := newTable ||| pageFlags
        ((m₁.copyPage newTable (pageBase (m.word m.kernelDirectory i))).word
          (m₁.copyPage newTable (pageBase (m.word m.kernelDirectory i))).kernelDirectory i) with hx
      set m₂ := m₁.copyPage newTable (pageBase (m.word m.kernelDirectory i)) with hm₂
      have hcell₂ : ∀ f, f ≠ frame newTable → ∀ j < 1024, m₂.cell f j = m.cell f j := by
        intro f hf j hj
        rw [hm₂, Machine.cell_copyPage _ hal (dvd_pageBase _) f hj, if_neg hf, Machine.cell,
          Machine.cell, hmem]
      obtain ⟨hnone, h₂⟩ := h.freshFrame m₂ ha ht rfl hcell₂ .kernelTable
      have hne : frame newTable ≠ frame d :=
        h.ne_directory List.mem_cons_self (by rw [hnone]; simp)
      have h₃ := h₂.setKernelPde List.mem_cons_self (his i List.mem_cons_self) x
      -- what the turn of the loop leaves alone
      have hu : Untouched d m (m₂.setWord d i x) := by
        refine ⟨fun f hf hfd j hj => ?_, fun f hf => ?_, hk⟩
        · rw [Machine.cell_setWord _ hdal hi _ _ hj, if_neg fun hh => hfd hh.1]
          exact hcell₂ f (ne_of_marked hf hclear) j hj
        · show m₁.pmm.marked f = true
          rw [hmark, hf, Bool.true_or]
      have huser : ∀ k, UserIndex k →
          (m₂.setWord d i x).cell (frame d) k = m.cell (frame d) k := by
        intro k hk'
        have hki : k ≠ i := by
          have := hk'.1
          have := his i List.mem_cons_self
          omega
        rw [Machine.cell_setWord _ hdal hi _ _ hk'.lt, if_neg fun hh => hki hh.2]
        exact hcell₂ _ hne.symm k hk'.lt
      obtain ⟨hcells, hkern, hfail, hdone⟩ := ih his' ⟨_, h₃⟩ hcopy
      refine ⟨fun f hf hfd j hj => ?_, hkern.trans hu.kernel, hfail, fun hd' => ?_⟩
      · rw [hcells f (hu.marks f hf) hfd j hj, hu.cells f hf hfd j hj]
      · obtain ⟨hown, hu', huser'⟩ := hdone hd'
        exact ⟨hown, hu.trans hu', fun k hk' => (huser' k hk').trans (huser k hk')⟩

/-- **Creating an address space** leaves the marked frames alone; the new directory was
unmarked and has no user entry. -/
theorem createAddressSpace_spec {m m' : Machine} {live : List U32} {p : U32} (h : Owns m live)
    (hc : createAddressSpace m = (m', p)) :
    (∀ f, m.pmm.marked f = true → ∀ j < 1024, m'.cell f j = m.cell f j) ∧
    m'.kernelDirectory = m.kernelDirectory ∧
    (p = 0#32 → Owns m' live) ∧
    (p ≠ 0#32 → Owns m' (p :: live) ∧ m.pmm.marked (frame p) = false ∧
      (∀ f, m.pmm.marked f = true → m'.pmm.marked f = true) ∧
      ∀ i, UserIndex i → present (m'.cell (frame p) i) = false) := by
  rw [createAddressSpace] at hc
  by_cases hk : m.kernelDirectory = 0#32
  · rw [if_pos hk, Prod.mk.injEq] at hc
    obtain ⟨rfl, rfl⟩ := hc
    exact ⟨fun _ _ _ _ => rfl, rfl, fun _ => h, fun hne => absurd rfl hne⟩
  rw [if_neg hk] at hc
  obtain ⟨m₁, d, ha⟩ : ∃ m₁ d, m.allocateBlock = (m₁, d) := ⟨_, _, rfl⟩
  simp only [ha] at hc
  obtain ⟨role, h⟩ := h
  by_cases hd0 : d = 0#32
  · rw [if_pos hd0, Prod.mk.injEq] at hc
    obtain ⟨rfl, rfl⟩ := hc
    obtain ⟨hmem, hk', -⟩ := Machine.allocateBlock_keeps ha
    exact ⟨fun f _ j _ => by rw [Machine.cell, Machine.cell, hmem], hk',
      fun _ => ⟨role, h.allocate ha⟩, fun hne => absurd rfl hne⟩
  rw [if_neg hd0] at hc
  obtain ⟨hal, hclear, hmem, hk', hmark⟩ := Machine.allocateBlock_spec ha hd0
  have hcell : ∀ f, f ≠ frame d → ∀ j < 1024, (m₁.clearPage d).cell f j = m.cell f j := by
    intro f hf j hj
    rw [Machine.cell_clearPage _ hal f hj, if_neg hf, Machine.cell, Machine.cell, hmem]
  obtain ⟨hnone, h₂⟩ := h.freshFrame (m₁.clearPage d) ha hd0 rfl hcell .directory
  have hfresh : ∀ c ∈ live, frame c ≠ frame d := fun c hc' =>
    (h.ne_directory hc' (by rw [hnone]; simp)).symm
  have h₃ : Owned (m₁.clearPage d) (d :: live) _ :=
    h₂.addDirectory hal hd0 (Function.update_self ..) fun i hi => by
      rw [Machine.cell_clearPage _ hal _ hi.lt, if_pos rfl]
      rfl
  rcases hcopy : copyKernelTables d (List.range kernelSpaceEntries) (m₁.clearPage d) with
    ⟨m₂, done⟩
  have hnotin : d ∉ live := fun hin => hfresh d hin rfl
  obtain ⟨hcells, hkern, hfail, hdone⟩ :=
    copyKernelTables_spec hnotin (fun i hi => List.mem_range.mp hi) ⟨_, h₃⟩ hcopy
  simp only [hcopy] at hc
  have hmarked : ∀ f, m.pmm.marked f = true → (m₁.clearPage d).pmm.marked f = true := by
    intro f hf
    show m₁.pmm.marked f = true
    rw [hmark, hf, Bool.true_or]
  have hold : ∀ f, m.pmm.marked f = true → f ≠ frame d := fun f hf => ne_of_marked hf hclear
  have hkeep : ∀ f, m.pmm.marked f = true → ∀ j < 1024, m₂.cell f j = m.cell f j :=
    fun f hf j hj => (hcells f (hmarked f hf) (hold f hf) j hj).trans (hcell f (hold f hf) j hj)
  cases done with
  | false =>
    simp only [Bool.false_eq_true, if_false, Prod.mk.injEq] at hc
    obtain ⟨rfl, rfl⟩ := hc
    exact ⟨hkeep, hkern.trans hk', fun _ => hfail rfl, fun hne => absurd rfl hne⟩
  | true =>
    simp only [if_true, Prod.mk.injEq] at hc
    obtain ⟨rfl, rfl⟩ := hc
    obtain ⟨hown, hu, huser⟩ := hdone rfl
    refine ⟨hkeep, hkern.trans hk', fun h0 => absurd h0 hd0, fun _ => ⟨hown, hclear, ?_, ?_⟩⟩
    · exact fun f hf => hu.marks f (hmarked f hf)
    · intro i hi
      rw [huser i hi, Machine.cell_clearPage _ hal _ hi.lt, if_pos rfl]
      rfl

/-! ### Cloning an address space -/

theorem toNat_cowFlags_lt (x : U32) :
    ((pageFlags x &&& ~~~0x2#32) ||| (1#32 <<< 9)).toNat < 4096 := by
  have hlt := toNat_pageFlags_lt x
  rw [BitVec.toNat_or]
  refine Nat.or_lt_two_pow (n := 12) ?_ (by decide)
  rw [BitVec.toNat_and]
  exact lt_of_le_of_lt Nat.and_le_left hlt

/-- The clone's entry maps the same frame. -/
theorem frame_cowEntry (x : U32) : frame (cowEntry x) = frame x := by
  rw [cowEntry, frame_or (dvd_pageBase x) (toNat_cowFlags_lt x), frame_pageBase]

theorem getLsbD_pageFlags (x : U32) {k : ℕ} (hk : k < 12) :
    (pageFlags x).getLsbD k = x.getLsbD k := by
  have h32 : k < 32 := by omega
  rw [pageFlags, show 0xFFF#32 = lowMask 32 12 from rfl, BitVec.getLsbD_and, getLsbD_lowMask]
  simp [hk, h32]

@[simp] theorem present_pageFlags (x : U32) : present (pageFlags x) = present x := by
  refine decide_eq_decide.mpr ?_
  have h := and_twoPow_ne_zero_iff (w := 32) (k := 0)
  rw [show BitVec.twoPow 32 0 = 0x1#32 from rfl] at h
  rw [h _ (by decide), h _ (by decide), getLsbD_pageFlags x (by decide)]

/-- The clone's entry is present when the source's is. -/
theorem present_cowEntry (x : U32) : present (cowEntry x) = present x := by
  rw [cowEntry, present_or (dvd_pageBase x)]
  refine decide_eq_decide.mpr ?_
  have h := and_twoPow_ne_zero_iff (w := 32) (k := 0)
  rw [show BitVec.twoPow 32 0 = 0x1#32 from rfl] at h
  rw [h _ (by decide), h _ (by decide), BitVec.getLsbD_or, BitVec.getLsbD_and,
    getLsbD_pageFlags x (by decide)]
  simp

/-- The clone's entry is read-only. -/
theorem writable_cowEntry (x : U32) : writable (cowEntry x) = false := by
  rw [cowEntry, writable_or (dvd_pageBase x)]
  refine decide_eq_false ?_
  have h := and_twoPow_ne_zero_iff (w := 32) (k := 1)
  rw [show BitVec.twoPow 32 1 = 0x2#32 from rfl] at h
  rw [h _ (by decide), BitVec.getLsbD_or, BitVec.getLsbD_and]
  simp

/-- The copied table holds the clones of the present source entries. -/
theorem copyEntries_spec {t s : U32} (ht : 4096 ∣ t.toNat) (hs : 4096 ∣ s.toNat)
    (hne : frame t ≠ frame s) :
    ∀ (js : List ℕ), (∀ j ∈ js, j < 1024) → ∀ (m : Machine),
      (copyEntries t s js m).pmm = m.pmm ∧
      (copyEntries t s js m).kernelDirectory = m.kernelDirectory ∧
      ∀ f, ∀ j < 1024, (copyEntries t s js m).cell f j =
        if f = frame t ∧ j ∈ js ∧ present (m.cell (frame s) j) then
          cowEntry (m.cell (frame s) j)
        else m.cell f j := by
  intro js
  induction js with
  | nil =>
    intro _ m
    exact ⟨rfl, rfl, fun f j _ => by simp [copyEntries]⟩
  | cons k js ih =>
    intro hjs m
    have hk : k < 1024 := hjs k List.mem_cons_self
    have hjs' : ∀ j ∈ js, j < 1024 := fun j hj => hjs j (List.mem_cons_of_mem k hj)
    rw [copyEntries, List.foldl_cons]
    by_cases hp : present (m.word s k) = true
    · rw [if_pos hp]
      obtain ⟨hpmm, hkern, hcell⟩ := ih hjs' (m.setWord t k (cowEntry (m.word s k)))
      refine ⟨hpmm, hkern, fun f j hj => ?_⟩
      have hset := fun g {n} (hn : n < 1024) =>
        m.cell_setWord ht hk (cowEntry (m.word s k)) g hn
      -- the store leaves the source table alone
      have hsrc : (m.setWord t k (cowEntry (m.word s k))).cell (frame s) j =
          m.cell (frame s) j := by
        rw [hset _ hj, if_neg fun hh => hne hh.1.symm]
      refine (hcell f j hj).trans ?_
      rw [hsrc, hset f hj]
      rw [m.word_eq_cell hs] at hp
      by_cases hf : f = frame t
      · by_cases hjk : j = k
        · subst hjk
          simp [hf, hp, m.word_eq_cell hs]
        · simp [hf, hjk]
      · simp [hf]
    · rw [if_neg hp]
      obtain ⟨hpmm, hkern, hcell⟩ := ih hjs' m
      refine ⟨hpmm, hkern, fun f j hj => (hcell f j hj).trans ?_⟩
      rw [m.word_eq_cell hs] at hp
      by_cases hjk : j = k
      · subst hjk
        simp [hp]
      · simp [hjk]

/-- What is untouched leaves the entries of the other address spaces alone. -/
theorem entry_of_untouched {m m' : Machine} {d s : U32} {live : List U32}
    (h : Owns m live) (hu : Untouched d m m') (hs : s ∈ live) (hd : d ∈ live) (hne : s ≠ d)
    {i j : ℕ} (hi : UserIndex i) (hj : j < 1024) : entry m' s i j = entry m s i j := by
  obtain ⟨role, h⟩ := h
  refine entry_congr (hu.cells _ (h.marked _ ?_) ?_ i hi.lt) fun hp =>
    hu.cells _ (h.marked _ ?_) ?_ j hj
  · rw [h.directory s hs]
    simp
  · exact fun heq => hne (h.eq_of_frame hs hd heq)
  · rw [h.table s hs i hi hp]
    simp
  · exact h.ne_directory hd (by rw [h.table s hs i hi hp]; simp)

/-- The table made for one directory entry of the clone. -/
theorem cloneTable_spec {m m₁ : Machine} {t s : U32} (ha : m.allocateBlock = (m₁, t))
    (ht : t ≠ 0#32) (hs : 4096 ∣ s.toNat) (hne : frame t ≠ frame s) {m₃ : Machine}
    (hm₃ : m₃ = copyEntries t s (List.range pageTableEntries) (m₁.clearPage t)) :
    m₃.pmm = m₁.pmm ∧ m₃.kernelDirectory = m.kernelDirectory ∧
      (∀ f, f ≠ frame t → ∀ j < 1024, m₃.cell f j = m.cell f j) ∧
      ∀ j < 1024, m₃.cell (frame t) j =
        if present (m.cell (frame s) j) then cowEntry (m.cell (frame s) j) else 0#32 := by
  obtain ⟨hal, -, hmem, hk, -⟩ := Machine.allocateBlock_spec ha ht
  have hcell : ∀ f, f ≠ frame t → ∀ j < 1024, (m₁.clearPage t).cell f j = m.cell f j := by
    intro f hf j hj
    rw [Machine.cell_clearPage _ hal f hj, if_neg hf, Machine.cell, Machine.cell, hmem]
  obtain ⟨hpmm₃, hkern₃, hcell₃⟩ := copyEntries_spec hal hs hne (List.range pageTableEntries)
    (fun j hj => List.mem_range.mp hj) (m₁.clearPage t)
  rw [← hm₃] at hpmm₃ hkern₃ hcell₃
  refine ⟨hpmm₃, hkern₃.trans hk, fun f hf j hj => ?_, fun j hj => ?_⟩
  · rw [hcell₃ f j hj, if_neg fun hh => hf hh.1, hcell f hf j hj]
  · rw [hcell₃ _ j hj, hcell _ hne.symm j hj, Machine.cell_clearPage _ hal _ hj, if_pos rfl]
    simp [pageTableEntries, hj]

/-- Installing that table in the clone: the entries at `i` are those of the source. -/
theorem installTable_spec {m m₁ m₃ : Machine} {live : List U32} {d s t : U32} {i : ℕ}
    (h : Owns m (d :: live)) (hs : s ∈ live) (hi : UserIndex i)
    (hp : present (m.cell (frame s) i) = true) (ha : m.allocateBlock = (m₁, t)) (ht : t ≠ 0#32)
    (hpmm : m₃.pmm = m₁.pmm) (hkern : m₃.kernelDirectory = m.kernelDirectory)
    (hother : ∀ f, f ≠ frame t → ∀ j < 1024, m₃.cell f j = m.cell f j)
    (htable : ∀ j < 1024, m₃.cell (frame t) j =
      if present (m.cell (frame (m.cell (frame s) i)) j) then
        cowEntry (m.cell (frame (m.cell (frame s) i)) j) else 0#32) :
    Owns (m₃.setWord d i (t ||| pageFlags (m₃.word s i))) (d :: live) ∧
    Untouched d m (m₃.setWord d i (t ||| pageFlags (m₃.word s i))) ∧
    (∀ k, UserIndex k → k ≠ i → ((m₃.setWord d i (t ||| pageFlags (m₃.word s i))).cell
      (frame d) k = m.cell (frame d) k ∧ ∀ j < 1024,
      entry (m₃.setWord d i (t ||| pageFlags (m₃.word s i))) d k j = entry m d k j)) ∧
    ∀ j < 1024, entry (m₃.setWord d i (t ||| pageFlags (m₃.word s i))) d i j =
      (entry m s i j).map cowEntry := by
  obtain ⟨role, h⟩ := h
  have hs' : s ∈ d :: live := List.mem_cons_of_mem d hs
  obtain ⟨hal, hclear, -, -, hmark⟩ := Machine.allocateBlock_spec ha ht
  obtain ⟨hnone, h₃⟩ := h.freshFrame _ ha ht hpmm hother (.table d i)
  have hfresh : ∀ c ∈ d :: live, frame c ≠ frame t := fun c hc =>
    (h.ne_directory hc (by rw [hnone]; simp)).symm
  have hd := List.mem_cons_self (a := d) (l := live)
  have hdal := h.aligned d hd
  have hcell := fun g {k} (hk : k < 1024) =>
    m₃.cell_setWord hdal hi.lt (t ||| pageFlags (m₃.word s i)) g hk
  have hentry₃ : ∀ j < 1024, entry m₃ s i j = entry m s i j := fun j hj =>
    h.entry_of_keeps (fun f hf k hk => hother f (fun heq => hf (heq ▸ hnone)) k hk) hs' hi hj
  have h₄ := h₃.setPde hd hi hal (toNat_pageFlags_lt (m₃.word s i)) (Function.update_self ..) (by
    intro j hj hpj
    rw [htable j hj] at hpj ⊢
    by_cases hpe : present (m.cell (frame (m.cell (frame s) i)) j) = true
    · rw [if_pos hpe, frame_cowEntry]
      refine h₃.page s hs' i hi j hj _ ?_
      rw [hentry₃ j hj, entry_eq_some_iff]
      exact ⟨hp, rfl, hpe⟩
    · rw [if_neg hpe] at hpj
      exact absurd hpj (by decide))
  have hu : Untouched d m (m₃.setWord d i (t ||| pageFlags (m₃.word s i))) := by
    refine ⟨fun f hf hfd j hj => ?_, fun f hf => ?_, hkern⟩
    · rw [hcell f hj, if_neg fun hh => hfd hh.1]
      exact hother f (ne_of_marked hf hclear) j hj
    · rw [Machine.setWord_pmm, hpmm, hmark, hf, Bool.true_or]
  refine ⟨⟨_, h₄⟩, hu, fun k hk hki => ?_, fun j hj => ?_⟩
  · have hpk : (m₃.setWord d i (t ||| pageFlags (m₃.word s i))).cell (frame d) k =
        m.cell (frame d) k := by
      rw [hcell _ hk.lt, if_neg fun hh => hki hh.2, hother _ (hfresh d hd) k hk.lt]
    refine ⟨hpk, fun j hj => entry_congr hpk fun hpres => hu.cells _ (h.marked _ ?_) ?_ j hj⟩
    · rw [h.table d hd k hk hpres]
      simp
    · exact h.ne_directory hd (by rw [h.table d hd k hk hpres]; simp)
  · have hflags : present (t ||| pageFlags (m₃.word s i)) = true := by
      rw [present_or hal, present_pageFlags, m₃.word_eq_cell (h.aligned s hs'),
        hother _ (hfresh s hs') i hi.lt, hp]
    have hpdi : (m₃.setWord d i (t ||| pageFlags (m₃.word s i))).cell (frame d) i =
        t ||| pageFlags (m₃.word s i) := by
      rw [hcell _ hi.lt, if_pos ⟨rfl, rfl⟩]
    have htab : (m₃.setWord d i (t ||| pageFlags (m₃.word s i))).cell (frame t) j =
        if present (m.cell (frame (m.cell (frame s) i)) j) then
          cowEntry (m.cell (frame (m.cell (frame s) i)) j) else 0#32 := by
      rw [hcell _ hj, if_neg fun hh => hfresh d hd hh.1.symm, htable j hj]
    rw [entry, entry, hpdi, frame_or hal (toNat_pageFlags_lt _), htab]
    by_cases hpe : present (m.cell (frame (m.cell (frame s) i)) j) = true
    · simp [hp, hpe, hflags, present_cowEntry]
    · simp [hpe, show present 0#32 = false from rfl]

/-- The user tables of the source are copied to fresh frames, entry by entry. -/
theorem copyUserTables_spec {d s : U32} {live : List U32} (hd : d ∉ live) (hs : s ∈ live)
    {is : List ℕ} (his : ∀ i ∈ is, UserIndex i) (hnodup : is.Nodup) {m : Machine}
    (h : Owns m (d :: live)) (hempty : ∀ i ∈ is, present (m.cell (frame d) i) = false) :
    ∀ {m' : Machine} {done : Bool}, copyUserTables d s is m = (m', done) →
      (∀ f, m.pmm.marked f = true → f ≠ frame d → ∀ j < 1024, m'.cell f j = m.cell f j) ∧
      m'.kernelDirectory = m.kernelDirectory ∧
      (done = false → Owns m' live) ∧
      (done = true → Owns m' (d :: live) ∧ Untouched d m m' ∧
        ∀ i, UserIndex i → ∀ j < 1024, entry m' d i j =
          if i ∈ is then (entry m s i j).map cowEntry else entry m d i j) := by
  have hsd : s ≠ d := fun heq => hd (heq ▸ hs)
  have hs' : s ∈ d :: live := List.mem_cons_of_mem d hs
  induction is generalizing m with
  | nil =>
    intro m' done hcopy
    rw [copyUserTables, Prod.mk.injEq] at hcopy
    obtain ⟨rfl, rfl⟩ := hcopy
    exact ⟨fun _ _ _ _ _ => rfl, rfl, by simp,
      fun _ => ⟨h, Untouched.refl d m, fun _ _ _ _ => by simp⟩⟩
  | cons i is ih =>
    intro m' done hcopy
    have hi : UserIndex i := his i List.mem_cons_self
    have his' : ∀ k ∈ is, UserIndex k := fun k hk => his k (List.mem_cons_of_mem i hk)
    obtain ⟨hiis, hnodup'⟩ := List.nodup_cons.mp hnodup
    have hempty' : ∀ k ∈ is, present (m.cell (frame d) k) = false :=
      fun k hk => hempty k (List.mem_cons_of_mem i hk)
    rw [copyUserTables] at hcopy
    have ⟨role, hr⟩ := h
    rw [m.word_eq_cell (hr.aligned s hs')] at hcopy
    by_cases hp : present (m.cell (frame s) i) = true
    swap
    · rw [if_neg hp] at hcopy
      obtain ⟨hcells, hkern, hfail, hdone⟩ := ih his' hnodup' h hempty' hcopy
      refine ⟨hcells, hkern, hfail, fun hd' => ?_⟩
      obtain ⟨hown, hu, hentry⟩ := hdone hd'
      refine ⟨hown, hu, fun k hk j hj => (hentry k hk j hj).trans ?_⟩
      by_cases hki : k = i
      · subst hki
        have h1 : entry m d k j = none := by rw [entry, hempty k List.mem_cons_self]; simp
        have h2 : entry m s k j = none := by rw [entry, Bool.eq_false_of_not_eq_true hp]; simp
        simp [hiis, h1, h2]
      · simp [hki]
    rw [if_pos hp] at hcopy
    obtain ⟨m₁, t, ha⟩ : ∃ m₁ t, m.allocateBlock = (m₁, t) := ⟨_, _, rfl⟩
    simp only [ha] at hcopy
    by_cases ht : t = 0#32
    · rw [if_pos ht, Prod.mk.injEq] at hcopy
      obtain ⟨rfl, rfl⟩ := hcopy
      obtain ⟨hcells, hkern, hown⟩ := noBlock_spec hd h ha
      exact ⟨fun f _ _ j _ => hcells f j, hkern, fun _ => hown, by simp⟩
    rw [if_neg ht] at hcopy
    have hmarked : m.pmm.marked (frame (pageBase (m.cell (frame s) i))) = true := by
      rw [frame_pageBase]
      exact hr.marked _ (by rw [hr.table s hs' i hi hp]; simp)
    obtain ⟨m₃, hm₃⟩ : ∃ m₃, m₃ = copyEntries t (pageBase (m.cell (frame s) i))
      (List.range pageTableEntries) (m₁.clearPage t) := ⟨_, rfl⟩
    obtain ⟨hpmm₃, hkern₃, hother, htable⟩ :=
      cloneTable_spec ha ht (dvd_pageBase _)
        (ne_of_marked hmarked (Machine.allocateBlock_spec ha ht).2.1).symm hm₃
    rw [frame_pageBase] at htable
    obtain ⟨h₄, hu, hrest, hnew⟩ :=
      installTable_spec h hs hi hp ha ht hpmm₃ hkern₃ hother htable
    rw [← hm₃] at hcopy
    obtain ⟨hcells, hkern, hfail, hdone⟩ := ih his' hnodup' h₄ (fun k hk => by
      have hki : k ≠ i := fun heq => hiis (heq ▸ hk)
      rw [(hrest k (his' k hk) hki).1]
      exact hempty' k hk) hcopy
    refine ⟨fun f hf hfd j hj => ?_, hkern.trans hu.kernel, hfail, fun hd' => ?_⟩
    · rw [hcells f (hu.marks f hf) hfd j hj, hu.cells f hf hfd j hj]
    · obtain ⟨hown, hu', hentry⟩ := hdone hd'
      refine ⟨hown, hu.trans hu', fun k hk j hj => (hentry k hk j hj).trans ?_⟩
      by_cases hki : k = i
      · subst hki
        rw [if_neg hiis, if_pos List.mem_cons_self, hnew j hj]
      · rw [entry_of_untouched h hu hs' List.mem_cons_self hsd hk hj, (hrest k hk hki).2 j hj]
        simp [hki]

theorem nodup_userEntries : userEntries.Nodup := List.nodup_range'

/-- **Cloning an address space** leaves the marked frames alone; the clone maps the
frames of the source, read-only. -/
theorem cloneAddressSpace_spec {m m' : Machine} {live : List U32} {s p : U32}
    (h : Owns m live) (hs : s ∈ live) (hc : cloneAddressSpace m s = (m', p)) :
    (∀ f, m.pmm.marked f = true → ∀ j < 1024, m'.cell f j = m.cell f j) ∧
    (p = 0#32 → Owns m' live) ∧
    (p ≠ 0#32 → Owns m' (p :: live) ∧ p ∉ live ∧
      ∀ i, UserIndex i → ∀ j < 1024, entry m' p i j = (entry m s i j).map cowEntry) := by
  rw [cloneAddressSpace] at hc
  by_cases hnull : s = 0#32 ∨ s = m.kernelDirectory
  · rw [if_pos hnull, Prod.mk.injEq] at hc
    obtain ⟨rfl, rfl⟩ := hc
    exact ⟨fun _ _ _ _ => rfl, fun _ => h, fun hne => absurd rfl hne⟩
  rw [if_neg hnull] at hc
  rcases hcreate : createAddressSpace m with ⟨m₁, d⟩
  simp only [hcreate] at hc
  obtain ⟨hkeep, -, hfail, hdone⟩ := createAddressSpace_spec h hcreate
  by_cases hd0 : d = 0#32
  · rw [if_pos hd0, Prod.mk.injEq] at hc
    obtain ⟨rfl, rfl⟩ := hc
    exact ⟨hkeep, fun _ => hfail hd0, fun hne => absurd rfl hne⟩
  rw [if_neg hd0] at hc
  obtain ⟨hown, hclear, hmarks, hempty⟩ := hdone hd0
  obtain ⟨role, hr⟩ := h
  have hnotin : d ∉ live := by
    intro hin
    rw [hr.marked _ (by rw [hr.directory d hin]; simp)] at hclear
    exact absurd hclear (by simp)
  have hold : ∀ f, m.pmm.marked f = true → f ≠ frame d := fun f hf => ne_of_marked hf hclear
  rcases hcopy : copyUserTables d s userEntries m₁ with ⟨m₂, done⟩
  simp only [hcopy] at hc
  obtain ⟨hcells, -, hfail', hdone'⟩ := copyUserTables_spec hnotin hs
    (fun i hi => (mem_userEntries i).mp hi) nodup_userEntries hown
    (fun i hi => hempty i ((mem_userEntries i).mp hi)) hcopy
  have hkeep' : ∀ f, m.pmm.marked f = true → ∀ j < 1024, m₂.cell f j = m.cell f j :=
    fun f hf j hj => (hcells f (hmarks f hf) (hold f hf) j hj).trans (hkeep f hf j hj)
  cases done with
  | false =>
    simp only [Bool.false_eq_true, if_false, Prod.mk.injEq] at hc
    obtain ⟨rfl, rfl⟩ := hc
    exact ⟨hkeep', fun _ => hfail' rfl, fun hne => absurd rfl hne⟩
  | true =>
    simp only [if_true, Prod.mk.injEq] at hc
    obtain ⟨rfl, rfl⟩ := hc
    obtain ⟨hown', -, hentry⟩ := hdone' rfl
    refine ⟨hkeep', fun h0 => absurd h0 hd0, fun _ => ⟨hown', hnotin, fun i hi j hj => ?_⟩⟩
    rw [hentry i hi j hj, if_pos ((mem_userEntries i).mpr hi),
      hr.entry_of_keeps (fun f hf k hk => hkeep f (hr.marked f hf) k hk) hs hi hj]

/-! ### Pages -/

/-- Fields of a user virtual address. -/
theorem userIndex_dirIndex {va : U32} (hva : 0xC0000000#32 ≤ va) : UserIndex (dirIndex va) := by
  refine ⟨?_, dirIndex_lt va⟩
  have h := BitVec.le_def.mp hva
  rw [dirIndex_eq]
  show 768 ≤ va.toNat / 2 ^ 22
  have : (0xC0000000#32).toNat = 768 * 2 ^ 22 := rfl
  omega

/-- The page at `(i, j)` of `d` changes to `e`, all else stays. -/
structure Remapped (live : List U32) (d : U32) (i j : ℕ) (e : Option U32) (m m' : Machine) :
    Prop where
  owns : Owns m' live
  here : entry m' d i j = e
  elsewhere : ∀ c ∈ live, ∀ k, UserIndex k → ∀ l < 1024, ¬ (c = d ∧ k = i ∧ l = j) →
    entry m' c k l = entry m c k l

/-- The words of the mapped pages of the live address spaces are as before. -/
def PagesKept (live : List U32) (m m' : Machine) : Prop :=
  ∀ c ∈ live, ∀ k, UserIndex k → ∀ l < 1024, ∀ x, entry m c k l = some x →
    ∀ n < 1024, m'.cell (frame x) n = m.cell (frame x) n

theorem Remapped.refl {m : Machine} {live : List U32} (h : Owns m live) (d : U32) (i j : ℕ) :
    Remapped live d i j (entry m d i j) m m :=
  ⟨h, rfl, fun _ _ _ _ _ _ _ => rfl⟩

/-- Steps before that change no entry. -/
theorem Remapped.of_entries {m m₁ m' : Machine} {live : List U32} {d : U32} {i j : ℕ}
    {e : Option U32} (h : Remapped live d i j e m₁ m')
    (hentry : ∀ c ∈ live, ∀ k, UserIndex k → ∀ l < 1024, entry m₁ c k l = entry m c k l) :
    Remapped live d i j e m m' :=
  ⟨h.owns, h.here, fun c hc k hk l hl hne =>
    (h.elsewhere c hc k hk l hl hne).trans (hentry c hc k hk l hl)⟩

/-- Storing a table entry, for a table that is already there. -/
theorem remapped_setWord {m : Machine} {live : List U32} {role : ℕ → Option Role}
    (h : Owned m live role) {d : U32} (hd : d ∈ live) {i j : ℕ} (hi : UserIndex i)
    (hj : j < 1024) (hp : present (m.cell (frame d) i) = true) {x : U32}
    (hpage : present x = true → role (frame x) = some (.page i j)) :
    Remapped live d i j (if present x then some x else none) m
      (m.setWord (pageBase (m.cell (frame d) i)) j x) where
  owns := ⟨role, h.setPte hd hi hj hp x hpage⟩
  here := by rw [h.entry_setPte hd hi hj hp x hd hi hj, if_pos ⟨rfl, rfl, rfl⟩]
  elsewhere := fun c hc k hk l hl hne => by
    rw [h.entry_setPte hd hi hj hp x hc hk hl, if_neg hne]

/-- Such a store is not to a mapped page. -/
theorem cell_page_setWord {m : Machine} {live : List U32} {role : ℕ → Option Role}
    (h : Owned m live role) {d : U32} (hd : d ∈ live) {i j : ℕ} (hi : UserIndex i)
    (hj : j < 1024) (hp : present (m.cell (frame d) i) = true) (x : U32) {f k l : ℕ}
    (hf : role f = some (.page k l)) {n : ℕ} (hn : n < 1024) :
    (m.setWord (pageBase (m.cell (frame d) i)) j x).cell f n = m.cell f n := by
  rw [m.cell_setWord (dvd_pageBase _) hj x f hn, frame_pageBase, if_neg]
  rintro ⟨rfl, -⟩
  rw [h.table d hd i hi hp] at hf
  exact absurd hf (by simp)

/-- What a handled page fault has checked and done. -/
theorem pageFault_cases {m m' : Machine} {d va errCode : U32}
    (hf : pageFault m d va errCode = some m') :
    present (m.word d (dirIndex va)) = true ∧
    present (m.word (pageBase (m.word d (dirIndex va))) (tableIndex va)) = true ∧
    copyOnWrite (pageFlags (m.word (pageBase (m.word d (dirIndex va))) (tableIndex va))) = true ∧
    ∃ m₁ p, m.allocateBlock = (m₁, p) ∧ p ≠ 0#32 ∧
      m' = (m₁.copyPage p (pageBase
          (m.word (pageBase (m.word d (dirIndex va))) (tableIndex va)))).setWord
        (pageBase (m.word d (dirIndex va))) (tableIndex va)
        (p ||| (pageFlags (m.word (pageBase (m.word d (dirIndex va))) (tableIndex va)) &&&
          ~~~(1#32 <<< 9)) ||| 0x2#32) := by
  simp only [pageFault] at hf
  obtain ⟨m₁, p, ha⟩ : ∃ m₁ p, m.allocateBlock = (m₁, p) := ⟨_, _, rfl⟩
  have hmem : m₁.mem = m.mem := (Machine.allocateBlock_keeps ha).1
  by_cases herr : present errCode ∧ writable errCode
  swap
  · rw [if_neg herr] at hf
    exact absurd hf (by simp)
  rw [if_pos herr] at hf
  by_cases hdir : d ≠ 0#32 ∧ dirIndex va < 1024 ∧ present (m.word d (dirIndex va)) = true
  swap
  · rw [if_neg hdir] at hf
    exact absurd hf (by simp)
  rw [if_pos hdir] at hf
  by_cases hpte : present (m.word (pageBase (m.word d (dirIndex va))) (tableIndex va)) = true
  swap
  · rw [if_neg hpte] at hf
    exact absurd hf (by simp)
  rw [if_pos hpte] at hf
  by_cases hcow : copyOnWrite
      (pageFlags (m.word (pageBase (m.word d (dirIndex va))) (tableIndex va))) = true
  swap
  · rw [if_neg hcow] at hf
    exact absurd hf (by simp)
  rw [if_pos hcow] at hf
  simp only [ha] at hf
  by_cases hp : p ≠ 0#32
  swap
  · rw [if_neg hp] at hf
    exact absurd hf (by simp)
  rw [if_pos hp, Option.some_inj] at hf
  refine ⟨hdir.2.2, hpte, hcow, m₁, p, ha, hp, hf.symm.trans ?_⟩
  rw [Machine.word, Machine.word, hmem, ← Machine.word]

/-- The flags of an entry after a handled fault: present, writable, below one page. -/
theorem faultFlags_spec {p x : U32} (hp : 4096 ∣ p.toNat) (hx : present x = true) :
    frame (p ||| (pageFlags x &&& ~~~(1#32 <<< 9)) ||| 0x2#32) = frame p ∧
    present (p ||| (pageFlags x &&& ~~~(1#32 <<< 9)) ||| 0x2#32) = true ∧
    writable (p ||| (pageFlags x &&& ~~~(1#32 <<< 9)) ||| 0x2#32) = true := by
  have hlt : ((pageFlags x &&& ~~~(1#32 <<< 9)) ||| 0x2#32).toNat < 2 ^ 12 := by
    rw [BitVec.toNat_or]
    refine Nat.or_lt_two_pow ?_ (by decide)
    rw [BitVec.toNat_and]
    exact lt_of_le_of_lt Nat.and_le_left (toNat_pageFlags_lt x)
  have h := fun k => and_twoPow_ne_zero_iff (w := 32) (k := k)
  rw [BitVec.or_assoc]
  refine ⟨frame_or hp hlt, ?_, ?_⟩
  · rw [present_or hp]
    have hx' := of_decide_eq_true hx
    rw [show 0x1#32 = BitVec.twoPow 32 0 from rfl, h 0 _ (by decide)] at hx'
    refine decide_eq_true ?_
    rw [show 0x1#32 = BitVec.twoPow 32 0 from rfl, h 0 _ (by decide), BitVec.getLsbD_or,
      BitVec.getLsbD_and, getLsbD_pageFlags x (by decide), hx']
    decide
  · rw [writable_or hp]
    refine decide_eq_true ?_
    rw [show 0x2#32 = BitVec.twoPow 32 1 from rfl, h 1 _ (by decide), BitVec.getLsbD_or]
    simp

/-- A page fault that is handled replaces one entry by a writable one, for a fresh frame
that holds a copy of the page. -/
theorem pageFault_spec {m m' : Machine} {live : List U32} (h : Owns m live) {d : U32}
    (hd : d ∈ live) {va errCode : U32} (hva : 0xC0000000#32 ≤ va)
    (hf : pageFault m d va errCode = some m') :
    ∃ x y, entry m d (dirIndex va) (tableIndex va) = some x ∧ copyOnWrite (pageFlags x) = true ∧
      Remapped live d (dirIndex va) (tableIndex va) (some y) m m' ∧
      m.pmm.marked (frame y) = false ∧ writable y = true ∧
      (∀ n < 1024, m'.cell (frame y) n = m.cell (frame x) n) ∧ PagesKept live m m' := by
  obtain ⟨role, h⟩ := h
  have hi := userIndex_dirIndex hva
  have hj := tableIndex_lt va
  obtain ⟨hp, hpte, hcow, m₁, p, ha, hp0, rfl⟩ := pageFault_cases hf
  rw [m.word_eq_cell (h.aligned d hd)] at hp hpte hcow ⊢
  generalize dirIndex va = i at hi hp hpte hcow ⊢
  generalize tableIndex va = j at hj hpte hcow ⊢
  rw [m.word_eq_cell (dvd_pageBase _), frame_pageBase] at hpte hcow ⊢
  set x := m.cell (frame (m.cell (frame d) i)) j with hx
  have hentry : entry m d i j = some x := (entry_eq_some_iff m d i j x).mpr ⟨hp, rfl, hpte⟩
  obtain ⟨hal, hclear, hmem, -, -⟩ := Machine.allocateBlock_spec ha hp0
  obtain ⟨hframe, hpres, hwrite⟩ := faultFlags_spec (x := x) hal hpte
  set y := p ||| (pageFlags x &&& ~~~(1#32 <<< 9)) ||| 0x2#32 with hy
  -- the copy goes to a frame without a role
  have hcopy := fun g {n} (hn : n < 1024) => m₁.cell_copyPage hal (dvd_pageBase x) g hn
  have hcell : ∀ g, g ≠ frame p → ∀ n < 1024,
      (m₁.copyPage p (pageBase x)).cell g n = m.cell g n := by
    intro g hg n hn
    rw [hcopy g hn, if_neg hg, Machine.cell, Machine.cell, hmem]
  obtain ⟨hnone, h₂⟩ := h.freshFrame (m₁.copyPage p (pageBase x)) ha hp0 rfl hcell (.page i j)
  have hpd : (m₁.copyPage p (pageBase x)).cell (frame d) i = m.cell (frame d) i :=
    hcell _ (h.ne_directory hd (by rw [hnone]; simp)).symm i hi.lt
  have hkeep : ∀ c ∈ live, ∀ k, UserIndex k → ∀ l < 1024,
      entry (m₁.copyPage p (pageBase x)) c k l = entry m c k l := fun c hc k hk l hl =>
    h.entry_of_keeps (fun f hf n hn => hcell f (fun heq => hf (heq ▸ hnone)) n hn) hc hk hl
  have hrole : Function.update role (frame p) (some (.page i j)) (frame y) =
      some (.page i j) := by rw [hframe, Function.update_self]
  rw [← hpd] at hp ⊢
  have hre := remapped_setWord h₂ hd hi hj hp fun _ => hrole
  rw [if_pos hpres] at hre
  have hpages := fun {f k l} hf {n} hn =>
    cell_page_setWord h₂ hd hi hj hp y (f := f) (k := k) (l := l) hf (n := n) hn
  refine ⟨x, y, hentry, hcow, ⟨hre.owns, hre.here, fun c hc k hk l hl hne => ?_⟩,
    hframe ▸ hclear, hwrite, fun n hn => ?_, fun c hc k hk l hl z hz n hn => ?_⟩
  · rw [hre.elsewhere c hc k hk l hl hne, hkeep c hc k hk l hl]
  · rw [hpages hrole hn, hframe, hcopy _ hn, if_pos rfl, frame_pageBase, Machine.cell,
      Machine.cell, hmem]
  · have hz' := hkeep c hc k hk l hl
    rw [hz] at hz'
    rw [hpages (h₂.page c hc k hk l hl z hz') hn, hcell]
    · rintro heq
      have h1 := h.page c hc k hk l hl z hz
      rw [heq, hnone] at h1
      exact absurd h1 (by simp)
    · exact hn

/-- The flags of a new table entry. -/
theorem entryFlags_spec (user rw : Bool) :
    (entryFlags user rw).toNat < 4096 ∧ present (entryFlags user rw) = true := by
  cases user <;> cases rw <;> decide

theorem dirFlags_spec (user : Bool) :
    (if user then 7#32 else 3#32 : U32).toNat < 4096 ∧
      present (if user then 7#32 else 3#32) = true := by
  cases user <;> decide

/-- A fresh, empty table in a directory entry that was absent changes no entry. -/
theorem newTable_spec {m m₁ : Machine} {live : List U32} {role : ℕ → Option Role}
    (h : Owned m live role) {d t y : U32} (hd : d ∈ live) {i : ℕ} (hi : UserIndex i)
    (habsent : present (m.cell (frame d) i) = false) (ha : m.allocateBlock = (m₁, t))
    (ht : t ≠ 0#32) (hy : y.toNat < 4096) :
    role (frame t) = none ∧
    Owned ((m₁.clearPage t).setWord d i (t ||| y)) live
      (Function.update role (frame t) (some (.table d i))) ∧
    ((m₁.clearPage t).setWord d i (t ||| y)).cell (frame d) i = t ||| y ∧
    ∀ c ∈ live, ∀ k, UserIndex k → ∀ l < 1024,
      entry ((m₁.clearPage t).setWord d i (t ||| y)) c k l = entry m c k l := by
  obtain ⟨hal, -, hmem, -, -⟩ := Machine.allocateBlock_spec ha ht
  have hcell : ∀ f, f ≠ frame t → ∀ j < 1024, (m₁.clearPage t).cell f j = m.cell f j := by
    intro f hf j hj
    rw [Machine.cell_clearPage _ hal f hj, if_neg hf, Machine.cell, Machine.cell, hmem]
  have hzero : ∀ j < 1024, (m₁.clearPage t).cell (frame t) j = 0#32 := fun j hj => by
    rw [Machine.cell_clearPage _ hal _ hj, if_pos rfl]
  obtain ⟨hnone, h₂⟩ := h.freshFrame (m₁.clearPage t) ha ht rfl hcell (.table d i)
  have hdt : frame d ≠ frame t := (h.ne_directory hd (by rw [hnone]; simp)).symm
  have h₃ := h₂.setPde hd hi hal hy (Function.update_self ..) fun j hj hp => by
    rw [hzero j hj] at hp
    exact absurd hp (by decide)
  have hset := fun g {k} (hk : k < 1024) =>
    (m₁.clearPage t).cell_setWord (h.aligned d hd) hi.lt (t ||| y) g hk
  have hpde : ((m₁.clearPage t).setWord d i (t ||| y)).cell (frame d) i = t ||| y := by
    rw [hset _ hi.lt, if_pos ⟨rfl, rfl⟩]
  refine ⟨hnone, h₃, hpde, fun c hc k hk l hl => ?_⟩
  by_cases hck : frame c = frame d ∧ k = i
  · -- the entries of the new table are absent, and so were those of the missing one
    have hcd := h.eq_of_frame hc hd hck.1
    obtain ⟨-, rfl⟩ := hck
    subst hcd
    have htab : ((m₁.clearPage t).setWord c k (t ||| y)).cell (frame t) l = 0#32 := by
      rw [hset _ hl, if_neg fun hh => hdt hh.1.symm, hzero l hl]
    rw [entry, entry, hpde, frame_or hal hy, htab, habsent, show present 0#32 = false from rfl]
    simp
  · rw [← h.entry_of_keeps (fun f hf n hn => hcell f (fun heq => hf (heq ▸ hnone)) n hn) hc hk hl]
    refine entry_congr (by rw [hset _ hk.lt, if_neg hck]) fun hp => ?_
    rw [hset _ hl, if_neg]
    rintro ⟨heq, -⟩
    have h1 := h₂.table c hc k hk hp
    rw [heq, h₂.directory d hd] at h1
    exact absurd h1 (by simp)

/-- Mapping a page that has the role for its place changes at most that place. -/
theorem mapPageInSpace_spec {m : Machine} {live : List U32} {role : ℕ → Option Role}
    (h : Owned m live role) {d va pa : U32} (hd : d ∈ live) (hva : 0xC0000000#32 ≤ va)
    (hpa : role (frame pa) = some (.page (dirIndex va) (tableIndex va))) (user rw : Bool) :
    ∃ e, Remapped live d (dirIndex va) (tableIndex va) e m
      (mapPageInSpace m d va pa user rw) := by
  have hi := userIndex_dirIndex hva
  have hj := tableIndex_lt va
  rw [mapPageInSpace]
  by_cases hreject : d = 0#32 ∨ va &&& 0xFFF#32 ≠ 0#32 ∨ pa &&& 0xFFF#32 ≠ 0#32
  · rw [if_pos hreject]
    exact ⟨_, Remapped.refl ⟨role, h⟩ d _ _⟩
  rw [if_neg hreject]
  dsimp only
  rw [if_neg (Nat.not_le.mpr hi.2), m.word_eq_cell (h.aligned d hd)]
  generalize dirIndex va = i at hi hpa ⊢
  generalize tableIndex va = j at hj hpa ⊢
  obtain ⟨hflags, hpres⟩ := entryFlags_spec user rw
  have hframe : frame (pageBase pa ||| entryFlags user rw) = frame pa := by
    rw [frame_or (dvd_pageBase pa) hflags, frame_pageBase]
  cases hp : present (m.cell (frame d) i) with
  | true =>
    rw [if_neg (by simp)]
    exact ⟨_, remapped_setWord h hd hi hj hp fun _ => hframe ▸ hpa⟩
  | false =>
    rw [if_pos (by simp)]
    rcases ha : m.allocateBlock with ⟨m₁, t⟩
    by_cases ht : t = 0#32
    · obtain ⟨hmem, -, -⟩ := Machine.allocateBlock_keeps ha
      simp only [if_pos ht]
      have hcell : ∀ f k, m₁.cell f k = m.cell f k := fun f k => by
        rw [Machine.cell, Machine.cell, hmem]
      exact ⟨_, (Remapped.refl ⟨role, h.allocate ha⟩ d i j).of_entries fun c _ k _ l _ =>
        entry_congr (hcell _ _) fun _ => hcell _ _⟩
    · simp only [if_neg ht]
      obtain ⟨hal, -, -, -, -⟩ := Machine.allocateBlock_spec ha ht
      obtain ⟨hy, hypres⟩ := dirFlags_spec user
      obtain ⟨hnone, h₂, hpde, hentry⟩ := newTable_spec h hd hi hp ha ht hy
      have hne : frame pa ≠ frame t := by
        intro heq
        rw [← heq, hpa] at hnone
        exact absurd hnone (by simp)
      have hp₂ : present (((m₁.clearPage t).setWord d i
          (t ||| if user then 7#32 else 3#32)).cell (frame d) i) = true := by
        rw [hpde, present_or hal, hypres]
      have hre := remapped_setWord h₂ hd hi hj hp₂ (x := pageBase pa ||| entryFlags user rw)
        fun _ => by rw [hframe, Function.update_of_ne hne, hpa]
      rw [hpde, pageBase_or hal hy] at hre
      exact ⟨_, hre.of_entries hentry⟩

/-- **Allocating a page** changes the entry at its address at most. -/
theorem allocatePage_spec {m m' : Machine} {live : List U32} (h : Owns m live) {d va p : U32}
    (hd : d ∈ live) (hva : 0xC0000000#32 ≤ va) {user rw : Bool}
    (hc : allocatePage m d va user rw = (m', p)) :
    ∃ e, Remapped live d (dirIndex va) (tableIndex va) e m m' := by
  obtain ⟨role, h⟩ := h
  rw [allocatePage, if_neg (h.nonnull d hd)] at hc
  rcases ha : m.allocateBlock with ⟨m₁, q⟩
  simp only [ha] at hc
  obtain ⟨hmem, -, -⟩ := Machine.allocateBlock_keeps ha
  have hcell : ∀ f k, m₁.cell f k = m.cell f k := fun f k => by
    rw [Machine.cell, Machine.cell, hmem]
  have hentry : ∀ c ∈ live, ∀ k, UserIndex k → ∀ l < 1024, entry m₁ c k l = entry m c k l :=
    fun c _ k _ l _ => entry_congr (hcell _ _) fun _ => hcell _ _
  by_cases hq : q = 0#32
  · rw [if_pos hq, Prod.mk.injEq] at hc
    obtain ⟨rfl, -⟩ := hc
    exact ⟨_, (Remapped.refl ⟨role, h.allocate ha⟩ d _ _).of_entries hentry⟩
  · rw [if_neg hq, Prod.mk.injEq] at hc
    obtain ⟨rfl, -⟩ := hc
    obtain ⟨-, h₁⟩ := h.freshFrame m₁ ha hq rfl (fun g _ n _ => hcell g n)
      (.page (dirIndex va) (tableIndex va))
    obtain ⟨e, hre⟩ := mapPageInSpace_spec h₁ hd hva (Function.update_self ..) user rw
    exact ⟨e, hre.of_entries hentry⟩

/-- A page that no live address space maps can be given back. -/
theorem owned_freeBlock {m : Machine} {live : List U32} {role : ℕ → Option Role}
    (h : Owned m live role) {p : U32} {i j : ℕ} (hrole : role (frame p) = some (.page i j))
    (hfree : ∀ c ∈ live, ∀ k, UserIndex k → ∀ l < 1024, ∀ x, entry m c k l = some x →
      frame x ≠ frame p) :
    Owned (m.freeBlock p) live (Function.update role (frame p) none) := by
  refine ⟨fun f hf => ?_, h.aligned, h.nonnull, fun c hc => ?_, fun c hc k hk hp => ?_,
    fun c hc k hk l hl x hx => ?_⟩
  · have hne : f ≠ frame p := by
      rintro rfl
      exact hf (Function.update_self ..)
    rw [Function.update_of_ne hne] at hf
    have haddr : p.toNat ≠ f * 4096 := fun heq => hne (by rw [frame]; omega)
    rw [Machine.freeBlock, PMM.marked_freeBlock, h.marked f hf, decide_eq_false haddr,
      Bool.and_false, Bool.not_false, Bool.true_and]
  · rw [Function.update_of_ne, h.directory c hc]
    intro heq
    have h1 := h.directory c hc
    rw [heq, hrole] at h1
    exact absurd h1 (by simp)
  · have h1 := h.table c hc k hk hp
    rw [Machine.freeBlock_cell, Function.update_of_ne, h1]
    intro heq
    rw [heq, hrole] at h1
    exact absurd h1 (by simp)
  · have hx' : entry m c k l = some x := hx
    rw [Function.update_of_ne (hfree c hc k hk l hl x hx'), h.page c hc k hk l hl x hx']

/-- **Freeing a page** that no other live address space maps changes the entry at its
address at most. -/
theorem freePage_spec {m : Machine} {live : List U32} (h : Owns m live) {d va : U32}
    (hd : d ∈ live) (hva : 0xC0000000#32 ≤ va) (hal : va &&& 0xFFF#32 = 0#32)
    (hlast : ∀ x, entry m d (dirIndex va) (tableIndex va) = some x →
      ∀ c ∈ live, c ≠ d → ∀ k, UserIndex k → ∀ l < 1024, ∀ z, entry m c k l = some z →
        frame z ≠ frame x) :
    ∃ e, Remapped live d (dirIndex va) (tableIndex va) e m (freePage m d va) := by
  have howns := h
  obtain ⟨role, h⟩ := h
  have hi := userIndex_dirIndex hva
  have hj := tableIndex_lt va
  rw [freePage, if_neg (h.nonnull d hd)]
  simp only [getPhysicalAddress, unmapPage, if_neg (h.nonnull d hd), Machine.freeBlock_word,
    m.word_eq_cell (h.aligned d hd), m.word_eq_cell (dvd_pageBase _), frame_pageBase, hal,
    BitVec.or_zero, Nat.not_le.mpr hi.2, false_or]
  have halive : ¬ (d = 0#32 ∨ 0#32 ≠ 0#32) := by simp [h.nonnull d hd]
  simp only [if_neg halive]
  generalize dirIndex va = i at hi hlast ⊢
  generalize tableIndex va = j at hj hlast ⊢
  have hrefl := Remapped.refl howns d i j
  cases hp : present (m.cell (frame d) i) with
  | false =>
    simp only [Bool.not_false, if_true]
    rw [if_neg (by simp)]
    exact ⟨_, hrefl⟩
  | true =>
    simp only [Bool.not_true, Bool.false_eq_true, if_false]
    cases hx : present (m.cell (frame (m.cell (frame d) i)) j) with
    | false =>
      rw [if_neg (by simp)]
      exact ⟨_, hrefl⟩
    | true =>
      rw [if_pos rfl]
      set x := m.cell (frame (m.cell (frame d) i)) j with hxdef
      have hentry : entry m d i j = some x := (entry_eq_some_iff m d i j x).mpr ⟨hp, rfl, hx⟩
      by_cases h0 : pageBase x ≠ 0#32
      swap
      · rw [if_neg h0]
        exact ⟨_, hrefl⟩
      rw [if_pos h0]
      -- unmapping first and freeing afterwards gives the same state
      have hre := remapped_setWord h hd hi hj hp (x := 0#32) fun h1 => absurd h1 (by decide)
      rw [if_neg (by decide)] at hre
      have hun := h.setPte hd hi hj hp 0#32 fun h1 => absurd h1 (by decide)
      have hrole : role (frame x) = some (.page i j) := h.page d hd i hi j hj x hentry
      have hfree := owned_freeBlock hun (p := pageBase x) (i := i) (j := j)
        (by rw [frame_pageBase, hrole]) (by
          intro c hc k hk l hl z hz
          rw [frame_pageBase]
          by_cases hckl : c = d ∧ k = i ∧ l = j
          · obtain ⟨rfl, rfl, rfl⟩ := hckl
            rw [hre.here] at hz
            exact absurd hz (by simp)
          · rw [hre.elsewhere c hc k hk l hl hckl] at hz
            intro heq
            have h1 := h.page c hc k hk l hl z hz
            rw [heq, hrole] at h1
            simp only [Option.some_inj, Role.page.injEq] at h1
            exact hlast x hentry c hc (fun hcd => hckl ⟨hcd, h1.1.symm, h1.2.symm⟩) k hk l hl z
              hz heq)
      exact ⟨none, ⟨_, hfree⟩, hre.here, hre.elsewhere⟩

end VMM

end MesaOS.Memory
