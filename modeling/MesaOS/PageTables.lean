/-
The page tables of one address space (`VMM::map_page_in_space`, `VMM::unmap_page`
and `VMM::get_physical_address` in `memory/vmm.cpp`).

A directory is `Separated` when its tables lie in different pages, none of them
the page of the directory itself.  Then a store into one table changes one entry
(`setEntry_spec`), and a new table those of its own region (`addTable_spec`).

* `translate_of_run` — over any sequence of calls the two levels behave as one
  finite map from virtual pages to physical pages;
* `granted_iff_guarded` — the permissions a page has are those of the last call
  that mapped it exactly as long as no call asks for more than the directory
  entry, which the first call of its 4 MiB region has set, grants.
-/
import MesaOS.VMMOwnership
import MesaOS.Runs

open MachineWord Runs

namespace MesaOS.Memory

open VMM

/-- Entry `i` of the directory. -/
def pde (m : Machine) (d : U32) (i : ℕ) : U32 := m.cell (frame d) i

/-- The directory and its tables lie in different pages. -/
structure Separated (m : Machine) (d : U32) : Prop where
  nonnull : d ≠ 0#32
  aligned : 4096 ∣ d.toNat
  directory : ∀ i < 1024, present (pde m d i) = true → frame (pde m d i) ≠ frame d
  tables : ∀ i < 1024, ∀ j < 1024, present (pde m d i) = true → present (pde m d j) = true →
    frame (pde m d i) = frame (pde m d j) → i = j

/-- Block `p` lies apart from the directory and its tables. -/
def ApartFrom (m : Machine) (d p : U32) : Prop :=
  frame p ≠ frame d ∧ ∀ i < 1024, present (pde m d i) = true → frame (pde m d i) ≠ frame p

/-! ### Stores into a table, and new tables -/

section Stores

variable {m : Machine} {d : U32}

theorem entry_eq (m : Machine) (d : U32) (i j : ℕ) :
    entry m d i j = if present (pde m d i) ∧ present (m.cell (frame (pde m d i)) j) then
      some (m.cell (frame (pde m d i)) j) else none := rfl

/-- A store into a table changes one entry. -/
theorem setEntry_spec (h : Separated m d) {i j : ℕ} (hi : i < 1024) (hj : j < 1024)
    (hp : present (pde m d i) = true) (y : U32) :
    Separated (m.setWord (pageBase (pde m d i)) j y) d ∧
      (∀ k < 1024, pde (m.setWord (pageBase (pde m d i)) j y) d k = pde m d k) ∧
      ∀ k < 1024, ∀ l < 1024, entry (m.setWord (pageBase (pde m d i)) j y) d k l =
        if k = i ∧ l = j then (if present y then some y else none) else entry m d k l := by
  have hcell := fun g {n} (hn : n < 1024) =>
    m.cell_setWord (dvd_pageBase (pde m d i)) hj y g hn
  rw [frame_pageBase] at hcell
  have hpde : ∀ k < 1024, pde (m.setWord (pageBase (pde m d i)) j y) d k = pde m d k := by
    intro k hk
    rw [pde, hcell _ hk, if_neg fun hh => h.directory i hi hp hh.1.symm]
    rfl
  refine ⟨⟨h.nonnull, h.aligned, fun k hk hpk => ?_, fun k hk l hl hpk hpl hkl => ?_⟩, hpde,
    fun k hk l hl => ?_⟩
  · rw [hpde k hk] at hpk ⊢
    exact h.directory k hk hpk
  · rw [hpde k hk] at hpk hkl
    rw [hpde l hl] at hpl hkl
    exact h.tables k hk l hl hpk hpl hkl
  · by_cases hkl : k = i ∧ l = j
    · obtain ⟨rfl, rfl⟩ := hkl
      have hword : (m.setWord (pageBase (pde m d k)) l y).cell (frame (pde m d k)) l = y := by
        rw [hcell _ hl, if_pos ⟨rfl, rfl⟩]
      rw [if_pos ⟨rfl, rfl⟩, entry_eq, hpde k hk, hword]
      simp [hp]
    · rw [if_neg hkl]
      refine entry_congr (hpde k hk) fun hpk => ?_
      rw [hcell _ hl, if_neg]
      -- the same word of the same frame would be the same entry
      rintro ⟨hf, rfl⟩
      exact hkl ⟨h.tables k hk i hi hpk hp hf, rfl⟩

/-- What happens in a page apart from the tables changes no entry. -/
theorem separated_of_apart (h : Separated m d) {p : U32} (hapart : ApartFrom m d p)
    {m₁ : Machine} (hother : ∀ f, f ≠ frame p → ∀ l < 1024, m₁.cell f l = m.cell f l) :
    Separated m₁ d ∧ (∀ k < 1024, pde m₁ d k = pde m d k) ∧
      ∀ k < 1024, ∀ l < 1024, entry m₁ d k l = entry m d k l := by
  have hpde : ∀ k < 1024, pde m₁ d k = pde m d k := fun k hk => hother _ hapart.1.symm k hk
  refine ⟨⟨h.nonnull, h.aligned, fun k hk hp => ?_, fun k hk l hl hpk hpl hkl => ?_⟩, hpde,
    fun k hk l hl => entry_congr (hpde k hk) fun hp => hother _ (hapart.2 k hk hp) l hl⟩
  · rw [hpde k hk] at hp ⊢
    exact h.directory k hk hp
  · rw [hpde k hk] at hpk hkl
    rw [hpde l hl] at hpl hkl
    exact h.tables k hk l hl hpk hpl hkl

/-- A new table changes the entries of its own region only; these are what the page holds. -/
theorem addTable_spec (h : Separated m d) {t y : U32} (ht : 4096 ∣ t.toNat)
    (hapart : ApartFrom m d t) (hy : y.toNat < 4096) {i : ℕ} (hi : i < 1024) {m₁ : Machine}
    (hother : ∀ f, f ≠ frame t → ∀ l < 1024, m₁.cell f l = m.cell f l) :
    Separated (m₁.setWord d i (t ||| y)) d ∧
      (∀ k < 1024, pde (m₁.setWord d i (t ||| y)) d k = if k = i then t ||| y else pde m d k) ∧
      (∀ k < 1024, k ≠ i → ∀ l < 1024,
        entry (m₁.setWord d i (t ||| y)) d k l = entry m d k l) ∧
      ∀ l < 1024, entry (m₁.setWord d i (t ||| y)) d i l =
        if present y ∧ present (m₁.cell (frame t) l) then some (m₁.cell (frame t) l)
        else none := by
  obtain ⟨htd, htables⟩ := hapart
  have hcell := fun g {n} (hn : n < 1024) => m₁.cell_setWord h.aligned hi (t ||| y) g hn
  have hpde : ∀ k < 1024, pde (m₁.setWord d i (t ||| y)) d k =
      if k = i then t ||| y else pde m d k := by
    intro k hk
    rw [pde, hcell _ hk, hother _ htd.symm k hk]
    refine if_congr ?_ rfl rfl
    exact and_iff_right rfl
  have hframe : frame (t ||| y) = frame t := frame_or ht hy
  refine ⟨⟨h.nonnull, h.aligned, fun k hk hpk => ?_, fun k hk l hl hpk hpl hkl => ?_⟩, hpde,
    fun k hk hki l hl => ?_, fun l hl => ?_⟩
  · rw [hpde k hk] at hpk ⊢
    by_cases hki : k = i
    · rw [if_pos hki, hframe]
      exact htd
    · rw [if_neg hki] at hpk ⊢
      exact h.directory k hk hpk
  · rw [hpde k hk] at hpk hkl
    rw [hpde l hl] at hpl hkl
    by_cases hki : k = i <;> by_cases hli : l = i
    · rw [hki, hli]
    · rw [if_pos hki, if_neg hli, hframe] at hkl
      rw [if_neg hli] at hpl
      exact absurd hkl.symm (htables l hl hpl)
    · rw [if_neg hki, if_pos hli, hframe] at hkl
      rw [if_neg hki] at hpk
      exact absurd hkl (htables k hk hpk)
    · rw [if_neg hki, if_neg hli] at hkl
      rw [if_neg hki] at hpk
      rw [if_neg hli] at hpl
      exact h.tables k hk l hl hpk hpl hkl
  · have hpk := hpde k hk
    rw [if_neg hki] at hpk
    refine entry_congr hpk fun hp => ?_
    rw [hcell _ hl, if_neg fun hh => h.directory k hk hp hh.1]
    exact hother _ (htables k hk hp) l hl
  · -- the store into the directory leaves the new page alone
    have hnew : (m₁.setWord d i (t ||| y)).cell (frame t) l = m₁.cell (frame t) l := by
      rw [hcell _ hl, if_neg fun hh => htd hh.1]
    rw [entry_eq, hpde i hi, if_pos rfl, hframe, hnew, present_or ht]

theorem entry_of_absent {i : ℕ} (hp : present (pde m d i) = false) (j : ℕ) :
    entry m d i j = none := by
  rw [entry_eq, hp]
  simp

/-- From `m` to `m'` the entry at `(i, j)` becomes `e`, the other entries stay, and so do the
directory entries, but for the one of a new table. -/
structure EntryBecomes (d : U32) (i j : ℕ) (e : Option U32) (m m' : Machine) : Prop where
  separated : Separated m' d
  here : entry m' d i j = e
  elsewhere : ∀ k < 1024, ∀ l < 1024, ¬ (k = i ∧ l = j) → entry m' d k l = entry m d k l
  pdes : ∀ k < 1024, (k = i → present (pde m d i) = true) → pde m' d k = pde m d k

/-- The directory entry of a table that is there stays. -/
theorem EntryBecomes.pde_eq {i j : ℕ} {e : Option U32} {m' : Machine}
    (h : EntryBecomes d i j e m m') {k : ℕ} (hk : k < 1024) (hp : present (pde m d k) = true) :
    pde m' d k = pde m d k :=
  h.pdes k hk fun heq => heq ▸ hp

theorem entryBecomes_self (h : Separated m d) (i j : ℕ) :
    EntryBecomes d i j (entry m d i j) m m :=
  ⟨h, rfl, fun _ _ _ _ _ => rfl, fun _ _ _ => rfl⟩

/-- A store into the table that the directory has. -/
theorem entryBecomes_setWord (h : Separated m d) {i j : ℕ} (hi : i < 1024) (hj : j < 1024)
    (hp : present (pde m d i) = true) (y : U32) :
    EntryBecomes d i j (if present y then some y else none) m
      (m.setWord (pageBase (pde m d i)) j y) := by
  obtain ⟨hsep, hpde, hentry⟩ := setEntry_spec h hi hj hp y
  refine ⟨hsep, ?_, fun k hk l hl hne => ?_, fun k hk _ => hpde k hk⟩
  · rw [hentry i hi j hj, if_pos ⟨rfl, rfl⟩]
  · rw [hentry k hk l hl, if_neg hne]

/-- If the table of directory entry `i` is missing, the manager has a block for it, apart from
the tables that there are. -/
def TableSupplied (m : Machine) (d : U32) (i : ℕ) : Prop :=
  present (pde m d i) = false →
    m.allocateBlock.2 ≠ 0#32 ∧ ApartFrom m d m.allocateBlock.2

/-- The flags of the directory entry for a new table. -/
def dirFlags (user : Bool) : U32 := if user then 7#32 else 3#32

theorem pageBase_of_aligned {pa : U32} (hpa : pa &&& 0xFFF#32 = 0#32) : pageBase pa = pa := by
  have hmod : (pa &&& 0xFFF#32).toNat = pa.toNat % 2 ^ 12 :=
    toNat_and_lowMask (k := 12) pa (by decide)
  rw [hpa] at hmod
  refine BitVec.eq_of_toNat_eq ?_
  rw [toNat_pageBase, frame]
  have : (0#32).toNat = 0 := rfl
  omega

/-- A call with an address off the page boundary is rejected. -/
theorem mapPageInSpace_of_unaligned {va pa : U32}
    (h : ¬ (va &&& 0xFFF#32 = 0#32 ∧ pa &&& 0xFFF#32 = 0#32)) (user rw : Bool) :
    mapPageInSpace m d va pa user rw = m := by
  rw [mapPageInSpace, if_pos]
  by_cases hva : va &&& 0xFFF#32 = 0#32
  · exact Or.inr (Or.inr fun hpa => h ⟨hva, hpa⟩)
  · exact Or.inr (Or.inl hva)

/-- Mapping an aligned page without a block for its table changes no memory. -/
theorem mapPageInSpace_of_noTable (h : Separated m d) {va pa : U32}
    (hp : present (pde m d (dirIndex va)) = false) (hnone : m.allocateBlock.2 = 0#32)
    (user rw : Bool) :
    mapPageInSpace m d va pa user rw = m ∨
      mapPageInSpace m d va pa user rw = m.allocateBlock.1 := by
  rw [mapPageInSpace]
  by_cases hreject : d = 0#32 ∨ va &&& 0xFFF#32 ≠ 0#32 ∨ pa &&& 0xFFF#32 ≠ 0#32
  · rw [if_pos hreject]
    exact Or.inl rfl
  · have hlt : ¬ pageTableEntries ≤ dirIndex va := Nat.not_le.mpr (dirIndex_lt va)
    rw [if_neg hreject]
    dsimp only
    rw [if_neg hlt, m.word_eq_cell h.aligned, ← pde, hp, if_pos (by simp), if_pos hnone]
    exact Or.inr rfl

/-- Mapping takes one block at most, for the table. -/
theorem mapPageInSpace_pmm (h : Separated m d) (va pa : U32) (user rw : Bool) :
    (mapPageInSpace m d va pa user rw).pmm =
      if va &&& 0xFFF#32 = 0#32 ∧ pa &&& 0xFFF#32 = 0#32 ∧
          present (pde m d (dirIndex va)) = false then m.allocateBlock.1.pmm
      else m.pmm := by
  by_cases hal : va &&& 0xFFF#32 = 0#32 ∧ pa &&& 0xFFF#32 = 0#32
  · have hreject : ¬ (d = 0#32 ∨ va &&& 0xFFF#32 ≠ 0#32 ∨ pa &&& 0xFFF#32 ≠ 0#32) := by
      simp [h.nonnull, hal.1, hal.2]
    have hlt : ¬ pageTableEntries ≤ dirIndex va := Nat.not_le.mpr (dirIndex_lt va)
    rw [mapPageInSpace, if_neg hreject]
    dsimp only
    rw [if_neg hlt, m.word_eq_cell h.aligned, ← pde]
    cases hp : present (pde m d (dirIndex va)) with
    | true => simp
    | false =>
      simp only [hal, and_self, if_true, Bool.not_false]
      split <;> rfl
  · rw [mapPageInSpace_of_unaligned hal, if_neg fun hh => hal ⟨hh.1, hh.2.1⟩]

/-- **Mapping an aligned page** sets its entry.  A new table gets the flags of the page it is
made for, the other directory entries stay. -/
theorem mapPageInSpace_entry (h : Separated m d) {va pa : U32} (hva : va &&& 0xFFF#32 = 0#32)
    (hpa : pa &&& 0xFFF#32 = 0#32) (hsupplied : TableSupplied m d (dirIndex va))
    (user rw : Bool) :
    EntryBecomes d (dirIndex va) (tableIndex va) (some (pa ||| entryFlags user rw)) m
        (mapPageInSpace m d va pa user rw) ∧
      (present (pde m d (dirIndex va)) = false →
        pde (mapPageInSpace m d va pa user rw) d (dirIndex va) =
          m.allocateBlock.2 ||| dirFlags user) := by
  have hi := dirIndex_lt va
  have hj := tableIndex_lt va
  have hreject : ¬ (d = 0#32 ∨ va &&& 0xFFF#32 ≠ 0#32 ∨ pa &&& 0xFFF#32 ≠ 0#32) := by
    simp [h.nonnull, hva, hpa]
  have hpres : present (pa ||| entryFlags user rw) = true := by
    rw [← pageBase_of_aligned hpa, present_or (dvd_pageBase pa), (entryFlags_spec user rw).2]
  rw [mapPageInSpace, if_neg hreject, pageBase_of_aligned hpa]
  have hlt : ¬ pageTableEntries ≤ dirIndex va := Nat.not_le.mpr hi
  dsimp only
  rw [if_neg hlt, m.word_eq_cell h.aligned, ← pde]
  generalize dirIndex va = i at hi hsupplied ⊢
  generalize tableIndex va = j at hj ⊢
  cases hp : present (pde m d i) with
  | true =>
    rw [if_neg (by simp)]
    have hstore := entryBecomes_setWord h hi hj hp (pa ||| entryFlags user rw)
    rw [if_pos hpres] at hstore
    exact ⟨hstore, fun hno => absurd hno (by simp)⟩
  | false =>
    obtain ⟨m₁, t, ha⟩ : ∃ m₁ t, m.allocateBlock = (m₁, t) := ⟨_, _, rfl⟩
    obtain ⟨ht0, hapart⟩ := hsupplied hp
    rw [ha] at ht0 hapart
    obtain ⟨hal, -, hmem, -, -⟩ := Machine.allocateBlock_spec ha ht0
    obtain ⟨hy, hypres⟩ := dirFlags_spec user
    have hclear := fun g {l} (hl : l < 1024) => m₁.cell_clearPage hal g hl
    have hkept : ∀ f, f ≠ frame t → ∀ l < 1024, (m₁.clearPage t).cell f l = m.cell f l := by
      intro f hf l hl
      rw [hclear f hl, if_neg hf, Machine.cell, Machine.cell, hmem]
    obtain ⟨hsep, hpde, hother, hnew⟩ := addTable_spec h hal hapart hy hi hkept
    rw [if_pos (by simp), ha]
    simp only [if_neg ht0]
    generalize hm₂ : (m₁.clearPage t).setWord d i (t ||| if user then 7#32 else 3#32) = m₂
      at hsep hpde hother hnew ⊢
    -- the entries of the new table are absent, and so were those of the missing one
    have hentry : ∀ k < 1024, ∀ l < 1024, entry m₂ d k l = entry m d k l := by
      intro k hk l hl
      by_cases hki : k = i
      · rw [hki, hnew l hl, hclear _ hl, if_pos rfl, entry_of_absent hp]
        exact if_neg fun hh => absurd hh.2 (by decide)
      · exact hother k hk hki l hl
    have hpi : pde m₂ d i = t ||| if user then 7#32 else 3#32 := by
      rw [hpde i hi, if_pos rfl]
    have hp₂ : present (pde m₂ d i) = true := by rw [hpi, present_or hal, hypres]
    have hstore := entryBecomes_setWord hsep hi hj hp₂ (pa ||| entryFlags user rw)
    rw [if_pos hpres, hpi, pageBase_or hal hy] at hstore
    refine ⟨⟨hstore.separated, hstore.here, fun k hk l hl hne => ?_, fun k hk hki => ?_⟩,
      fun _ => ?_⟩
    · rw [hstore.elsewhere k hk l hl hne, hentry k hk l hl]
    · have hne : k ≠ i := fun heq => by
        have := hki heq
        rw [hp] at this
        exact absurd this (by simp)
      rw [hstore.pdes k hk fun heq => absurd heq hne, hpde k hk, if_neg hne]
    · rw [hstore.pdes i hi fun _ => hp₂, hpi, dirFlags]

/-- **Unmapping an aligned page** clears its entry. -/
theorem unmapPage_entry (h : Separated m d) {va : U32} (hva : va &&& 0xFFF#32 = 0#32) :
    EntryBecomes d (dirIndex va) (tableIndex va) none m (unmapPage m d va) := by
  have hi := dirIndex_lt va
  rw [unmapPage, if_neg (by simp [h.nonnull, hva])]
  dsimp only
  rw [m.word_eq_cell h.aligned, ← pde]
  cases hp : present (pde m d (dirIndex va)) with
  | true =>
    rw [if_neg (by simp [pageTableEntries, hi])]
    exact entryBecomes_setWord h hi (tableIndex_lt va) hp 0#32
  | false =>
    rw [if_pos (by simp)]
    exact entry_of_absent hp (tableIndex va) ▸ entryBecomes_self h _ _

end Stores

/-! ### The finite map -/

/-- The virtual page of an address. -/
def pageNumber (va : U32) : ℕ := va.toNat / 4096

/-- A finite map from virtual pages to physical pages. -/
abbrev PageMap := ℕ → Option U32

/-- What the tables of `d` map. -/
def pagesOf (m : Machine) (d : U32) : PageMap :=
  fun n => (entry m d (n / 1024) (n % 1024)).map pageBase

inductive PageCall where
  | map (va pa : U32) (user rw : Bool)
  | unmap (va : U32)

def PageCall.address : PageCall → U32
  | .map va _ _ _ => va
  | .unmap va => va

/-- A call on the directory `d`. -/
def pageStep (d : U32) (m : Machine) : PageCall → Option Machine
  | .map va pa user rw => some (mapPageInSpace m d va pa user rw)
  | .unmap va => some (unmapPage m d va)

/-- A page that is mapped finds its table, or gets a block for it. -/
def PageCall.Supplied (d : U32) (m : Machine) : PageCall → Prop
  | .map va pa _ _ => va &&& 0xFFF#32 = 0#32 → pa &&& 0xFFF#32 = 0#32 →
      TableSupplied m d (dirIndex va)
  | .unmap _ => True

namespace PageMap

/-- What the call does to the map: nothing, unless its addresses are aligned. -/
def apply (M : PageMap) : PageCall → PageMap
  | .map va pa _ _ =>
    if va &&& 0xFFF#32 = 0#32 ∧ pa &&& 0xFFF#32 = 0#32 then
      Function.update M (pageNumber va) (some pa)
    else M
  | .unmap va =>
    if va &&& 0xFFF#32 = 0#32 then Function.update M (pageNumber va) none else M

/-- The address that `va` is mapped to, `0` when its page is unmapped. -/
def translate (M : PageMap) (va : U32) : U32 :=
  match M (pageNumber va) with
  | some pa => pa ||| (va &&& 0xFFF#32)
  | none => 0#32

end PageMap

theorem pageNumber_lt (va : U32) : pageNumber va < 2 ^ 20 := by
  have := va.isLt
  rw [pageNumber]
  omega

theorem pageNumber_div (va : U32) : pageNumber va / 1024 = dirIndex va := by
  rw [pageNumber, dirIndex_eq]
  omega

theorem pageNumber_mod (va : U32) : pageNumber va % 1024 = tableIndex va := by
  rw [pageNumber, tableIndex_eq]

theorem not_entries_le_dirIndex (va : U32) : ¬ pageTableEntries ≤ dirIndex va :=
  Nat.not_le.mpr (dirIndex_lt va)

theorem getPhysicalAddress_word (m : Machine) (hd : d ≠ 0#32) (va : U32) :
    getPhysicalAddress m d va =
      if present (m.word d (dirIndex va)) = true ∧
          present (m.word (pageBase (m.word d (dirIndex va))) (tableIndex va)) = true then
        pageBase (m.word (pageBase (m.word d (dirIndex va))) (tableIndex va)) |||
          (va &&& 0xFFF#32)
      else 0#32 := by
  rw [getPhysicalAddress, if_neg hd]
  dsimp only
  by_cases hp : present (m.word d (dirIndex va)) = true
  · simp [not_entries_le_dirIndex, hp]
  · simp [hp]

theorem getPhysicalAddress_cell (m : Machine) {d : U32} (hd : d ≠ 0#32) (hal : 4096 ∣ d.toNat)
    (va : U32) :
    getPhysicalAddress m d va =
      if present (pde m d (dirIndex va)) = true ∧
          present (m.cell (frame (pde m d (dirIndex va))) (tableIndex va)) = true then
        pageBase (m.cell (frame (pde m d (dirIndex va))) (tableIndex va)) ||| (va &&& 0xFFF#32)
      else 0#32 := by
  rw [getPhysicalAddress_word m hd, m.word_eq_cell hal, m.word_eq_cell (dvd_pageBase _),
    frame_pageBase]
  rfl

/-- `get_physical_address` looks the page up in the map. -/
theorem getPhysicalAddress_eq {m : Machine} {d : U32} (h : Separated m d) (va : U32) :
    getPhysicalAddress m d va = (pagesOf m d).translate va := by
  rw [getPhysicalAddress_cell m h.nonnull h.aligned, PageMap.translate, pagesOf,
    pageNumber_div, pageNumber_mod, entry_eq]
  by_cases hx : present (pde m d (dirIndex va)) = true ∧
      present (m.cell (frame (pde m d (dirIndex va))) (tableIndex va)) = true
  · simp [hx]
  · simp only [if_neg hx, Option.map_none]

/-- A changed entry is a changed point of the map. -/
theorem pagesOf_entryBecomes {m m' : Machine} {d va : U32} {e : Option U32}
    (h : EntryBecomes d (dirIndex va) (tableIndex va) e m m') {n : ℕ} (hn : n < 2 ^ 20) :
    pagesOf m' d n = Function.update (pagesOf m d) (pageNumber va) (e.map pageBase) n := by
  have hi := pageNumber_div va
  have hj := pageNumber_mod va
  by_cases heq : n = pageNumber va
  · rw [heq, Function.update_self, pagesOf, hi, hj, h.here]
  · rw [Function.update_of_ne heq, pagesOf, pagesOf,
      h.elsewhere _ (by omega) _ (Nat.mod_lt _ (by decide)) fun hh => heq (by omega)]

/-- **One call** on separated tables is one step of the map. -/
theorem pageStep_refines {m m' : Machine} {d : U32} {c : PageCall} (h : Separated m d)
    (hok : c.Supplied d m) (hstep : pageStep d m c = some m') :
    Separated m' d ∧ ∀ n < 2 ^ 20, pagesOf m' d n = (pagesOf m d).apply c n := by
  cases c with
  | map va pa user rw =>
    rw [pageStep, Option.some_inj] at hstep
    subst hstep
    by_cases hal : va &&& 0xFFF#32 = 0#32 ∧ pa &&& 0xFFF#32 = 0#32
    · obtain ⟨hentry, -⟩ := mapPageInSpace_entry h hal.1 hal.2 (hok hal.1 hal.2) user rw
      refine ⟨hentry.separated, fun n hn => ?_⟩
      have hbase : pageBase (pa ||| entryFlags user rw) = pa := by
        have hpb := pageBase_of_aligned hal.2
        rw [← hpb, pageBase_or (dvd_pageBase pa) (entryFlags_spec user rw).1]
      rw [pagesOf_entryBecomes hentry hn, PageMap.apply, if_pos hal, Option.map_some, hbase]
    · rw [mapPageInSpace_of_unaligned hal]
      refine ⟨h, fun n _ => ?_⟩
      rw [PageMap.apply, if_neg hal]
  | unmap va =>
    rw [pageStep, Option.some_inj] at hstep
    subst hstep
    by_cases hva : va &&& 0xFFF#32 = 0#32
    · have hentry := unmapPage_entry h hva
      refine ⟨hentry.separated, fun n hn => ?_⟩
      rw [pagesOf_entryBecomes hentry hn, PageMap.apply, if_pos hva, Option.map_none]
    · rw [unmapPage, if_pos (Or.inr hva)]
      refine ⟨h, fun n _ => ?_⟩
      rw [PageMap.apply, if_neg hva]

theorem translate_congr {M M' : PageMap} (h : ∀ n < 2 ^ 20, M n = M' n) (va : U32) :
    M.translate va = M'.translate va := by
  rw [PageMap.translate, PageMap.translate, h _ (pageNumber_lt va)]

theorem apply_congr {M M' : PageMap} (h : ∀ n < 2 ^ 20, M n = M' n) (c : PageCall) :
    ∀ n < 2 ^ 20, M.apply c n = M'.apply c n := by
  intro n hn
  cases c with
  | map va pa user rw =>
    simp only [PageMap.apply]
    split
    · rw [Function.update_apply, Function.update_apply, h n hn]
    · exact h n hn
  | unmap va =>
    simp only [PageMap.apply]
    split
    · rw [Function.update_apply, Function.update_apply, h n hn]
    · exact h n hn

/-- A call leaves the other pages of the map alone. -/
theorem apply_elsewhere (M : PageMap) (c : PageCall) {n : ℕ} (hn : n ≠ pageNumber c.address) :
    M.apply c n = M n := by
  cases c with
  | map va pa user rw =>
    rw [PageMap.apply]
    split
    · exact Function.update_of_ne hn _ _
    · rfl
  | unmap va =>
    rw [PageMap.apply]
    split
    · exact Function.update_of_ne hn _ _
    · rfl

/-- **The tables are a finite map.**  For every directory with separate tables and every run
of calls that get the blocks they need: the address of every page is what the map gives, and
one more call changes the translation of no page but its own. -/
theorem translate_of_run (m : Machine) (d : U32) (h : Separated m d) (calls : List PageCall)
    (hok : Guarded (pageStep d) (fun m c => c.Supplied d m) m calls) :
    ∃ m', run (pageStep d) m calls = some m' ∧
      (∀ va, getPhysicalAddress m' d va =
        (calls.foldl PageMap.apply (pagesOf m d)).translate va) ∧
      ∀ c m'', PageCall.Supplied d m' c → pageStep d m' c = some m'' → ∀ va,
        pageNumber va ≠ pageNumber c.address →
          getPhysicalAddress m'' d va = getPhysicalAddress m' d va := by
  have hrun : ∀ (calls : List PageCall) (m : Machine) (M : PageMap), Separated m d →
      (∀ n < 2 ^ 20, pagesOf m d n = M n) →
      Guarded (pageStep d) (fun m c => c.Supplied d m) m calls →
      ∃ m', run (pageStep d) m calls = some m' ∧ Separated m' d ∧
        ∀ n < 2 ^ 20, pagesOf m' d n = calls.foldl PageMap.apply M n := by
    intro calls
    induction calls with
    | nil => exact fun m M h hM _ => ⟨m, rfl, h, hM⟩
    | cons c calls ih =>
      intro m M h hM hok
      obtain ⟨m₁, hm₁⟩ : ∃ m₁, pageStep d m c = some m₁ := by
        cases c <;> exact ⟨_, rfl⟩
      obtain ⟨h₁, hM₁⟩ := pageStep_refines h hok.1 hm₁
      obtain ⟨m', hm', h', hM'⟩ := ih m₁ (M.apply c) h₁
        (fun n hn => by rw [hM₁ n hn, apply_congr hM c n hn]) (hok.2 m₁ hm₁)
      exact ⟨m', by rw [run_cons, hm₁]; exact hm', h', hM'⟩
  obtain ⟨m', hm', h', hM'⟩ := hrun calls m (pagesOf m d) h (fun _ _ => rfl) hok
  refine ⟨m', hm', fun va => ?_, fun c m'' hc hm'' va hne => ?_⟩
  · rw [getPhysicalAddress_eq h', translate_congr hM']
  · obtain ⟨h'', hM''⟩ := pageStep_refines h' hc hm''
    rw [getPhysicalAddress_eq h'', getPhysicalAddress_eq h', PageMap.translate,
      PageMap.translate, hM'' _ (pageNumber_lt va), apply_elsewhere _ _ hne]

/-- A directory without tables in a small memory. -/
def emptyDirectory : Machine where
  pmm :=
    { bitmap := 0x200000, words := fun i => if i = 0 then 0x3 else 0, maxBlocks := 128
      usedBlocks := 2, maxBlocks_lt := PMM.toNat_128_lt }
  mem := fun _ => 0
  pageDirectory := 0x1000
  kernelDirectory := 0

theorem absent_emptyDirectory (i : ℕ) : present (pde emptyDirectory 0x1000 i) ≠ true := by
  rw [show pde emptyDirectory 0x1000 i = 0#32 from rfl]
  decide

theorem separated_emptyDirectory : Separated emptyDirectory 0x1000 :=
  ⟨by decide, by decide, fun i _ hp => absurd hp (absent_emptyDirectory i),
    fun i _ _ _ hp => absurd hp (absent_emptyDirectory i)⟩

theorem translate_of_run_mapThenUnmap :
    ∃ m', run (pageStep 0x1000) emptyDirectory
        [.map 0xC0000000 0x5000 true true, .unmap 0xC0000000] = some m' ∧
      getPhysicalAddress m' 0x1000 0xC0000123 = 0#32 := by
  obtain ⟨m', hm', hget, -⟩ := translate_of_run emptyDirectory 0x1000 separated_emptyDirectory
    [.map 0xC0000000 0x5000 true true, .unmap 0xC0000000]
    ⟨fun _ _ _ => ⟨by decide, by decide, fun i _ hp => absurd hp (absent_emptyDirectory i)⟩,
      fun _ _ => ⟨trivial, fun _ _ => trivial⟩⟩
  refine ⟨m', hm', ?_⟩
  rw [hget]
  decide

/-! ### Permissions -/

/-- Bit 2 of an entry. -/
def userBit (x : U32) : Bool := decide (x &&& 0x4#32 ≠ 0#32)

/-- What the processor lets a program do with virtual page `n`: the user bits and the write
bits of both levels count. -/
def permission (m : Machine) (d : U32) (n : ℕ) : Option (Bool × Bool) :=
  (entry m d (n / 1024) (n % 1024)).map fun x =>
    (userBit (pde m d (n / 1024)) && userBit x, writable (pde m d (n / 1024)) && writable x)

/-- A call of `map_page_in_space`. -/
structure MapCall where
  va : U32
  pa : U32
  user : Bool
  rw : Bool

/-- The machine, and for each page what the last call that mapped it asked for. -/
structure Requests where
  machine : Machine
  last : ℕ → Option (Bool × Bool)

/-- The call maps its page: the addresses are aligned, and there is a table or a block. -/
def MapCall.Maps (m : Machine) (d : U32) (c : MapCall) : Prop :=
  c.va &&& 0xFFF#32 = 0#32 ∧ c.pa &&& 0xFFF#32 = 0#32 ∧
    (present (pde m d (dirIndex c.va)) = false → m.allocateBlock.2 ≠ 0#32)

instance (m : Machine) (d : U32) (c : MapCall) : Decidable (c.Maps m d) :=
  inferInstanceAs (Decidable (_ ∧ _ ∧ _))

def Requests.step (d : U32) (s : Requests) (c : MapCall) : Option Requests :=
  some
    { machine := mapPageInSpace s.machine d c.va c.pa c.user c.rw
      last := if c.Maps s.machine d then
        Function.update s.last (pageNumber c.va) (some (c.user, c.rw)) else s.last }

/-- Every page has the permissions that the last call asked for. -/
def Granted (d : U32) (s : Requests) : Prop :=
  ∀ n < 2 ^ 20, ∀ p, s.last n = some p → permission s.machine d n = some p

/-- The table's directory entry, if there is one, grants what the call asks for. -/
def MapCall.Compatible (d : U32) (s : Requests) (c : MapCall) : Prop :=
  c.Maps s.machine d → present (pde s.machine d (dirIndex c.va)) = true →
    (c.user = true → userBit (pde s.machine d (dirIndex c.va)) = true) ∧
      (c.rw = true → writable (pde s.machine d (dirIndex c.va)) = true)

instance (d : U32) (s : Requests) (c : MapCall) : Decidable (c.Compatible d s) :=
  inferInstanceAs (Decidable (_ → _ → _))

/-- The directory and its tables are blocks in use. -/
structure Held (m : Machine) (d : U32) : Prop where
  directory : m.pmm.marked (frame d) = true
  tables : ∀ i < 1024, present (pde m d i) = true → m.pmm.marked (frame (pde m d i)) = true

/-- What every call keeps: tables that are separate and in use, also for every page that has
been mapped. -/
structure Requests.Kept (d : U32) (s : Requests) : Prop where
  separated : Separated s.machine d
  held : Held s.machine d
  table : ∀ n < 2 ^ 20, s.last n ≠ none → present (pde s.machine d (n / 1024)) = true

/-- A free block lies apart from tables that are in use. -/
theorem Held.apart {m : Machine} {d p : U32} (h : Held m d)
    (hfree : m.pmm.marked (frame p) = false) : ApartFrom m d p :=
  ⟨(ne_of_marked h.directory hfree).symm, fun i hi hp => ne_of_marked (h.tables i hi hp) hfree⟩

theorem Held.supplied {m : Machine} {d : U32} (h : Held m d) {c : MapCall} (hc : c.Maps m d) :
    TableSupplied m d (dirIndex c.va) := by
  intro hp
  have hne := hc.2.2 hp
  obtain ⟨m₁, t, ha⟩ : ∃ m₁ t, m.allocateBlock = (m₁, t) := ⟨_, _, rfl⟩
  rw [ha] at hne ⊢
  obtain ⟨-, hfree, -, -, -⟩ := Machine.allocateBlock_spec ha hne
  exact ⟨hne, h.apart hfree⟩

theorem Held.of_pdes {m m' : Machine} {d : U32} (h : Held m d)
    (hmarks : ∀ f, m.pmm.marked f = true → m'.pmm.marked f = true)
    (hpdes : ∀ i < 1024, present (pde m' d i) = true → pde m' d i = pde m d i ∨
      m'.pmm.marked (frame (pde m' d i)) = true) : Held m' d := by
  refine ⟨hmarks _ h.directory, fun i hi hp => ?_⟩
  rcases hpdes i hi hp with heq | hm
  · rw [heq] at hp ⊢
    exact hmarks _ (h.tables i hi hp)
  · exact hm

theorem mapPageInSpace_marks {m : Machine} {d : U32} (h : Separated m d) (va pa : U32)
    (user rw : Bool) (f : ℕ) (hf : m.pmm.marked f = true) :
    (mapPageInSpace m d va pa user rw).pmm.marked f = true := by
  rw [mapPageInSpace_pmm h]
  split
  · obtain ⟨m₁, t, ha⟩ : ∃ m₁ t, m.allocateBlock = (m₁, t) := ⟨_, _, rfl⟩
    rw [ha]
    exact (Machine.allocateBlock_keeps ha).2.2 f hf
  · exact hf

/-- The two levels of flags for a page that has just been mapped. -/
theorem permission_entryFlags {pa : U32} (hpa : pa &&& 0xFFF#32 = 0#32) (user rw : Bool) :
    userBit (pa ||| entryFlags user rw) = user ∧ writable (pa ||| entryFlags user rw) = rw := by
  have hdvd : 4096 ∣ pa.toNat := pageBase_of_aligned hpa ▸ dvd_pageBase pa
  have huser : userBit (pa ||| entryFlags user rw) = userBit (entryFlags user rw) :=
    decide_eq_decide.mpr (flag_or hdvd (k := 2) (by decide))
  rw [huser, writable_or hdvd]
  cases user <;> cases rw <;> decide

theorem permission_dirFlags {t : U32} (ht : 4096 ∣ t.toNat) (user : Bool) :
    (user = true → userBit (t ||| dirFlags user) = true) ∧
      writable (t ||| dirFlags user) = true := by
  have huser : userBit (t ||| dirFlags user) = userBit (dirFlags user) :=
    decide_eq_decide.mpr (flag_or ht (k := 2) (by decide))
  rw [huser, writable_or ht]
  cases user <;> decide

namespace Requests

variable {d : U32}

/-- A call that does not map its page changes no entry. -/
theorem not_maps_entry {m : Machine} (h : Separated m d) {c : MapCall} (hc : ¬ c.Maps m d) :
    (mapPageInSpace m d c.va c.pa c.user c.rw).mem = m.mem := by
  by_cases hal : c.va &&& 0xFFF#32 = 0#32 ∧ c.pa &&& 0xFFF#32 = 0#32
  · have hno : ¬ (present (pde m d (dirIndex c.va)) = false → m.allocateBlock.2 ≠ 0#32) :=
      fun hh => hc ⟨hal.1, hal.2, hh⟩
    rw [Classical.not_imp, not_not] at hno
    have hkeep : mapPageInSpace m d c.va c.pa c.user c.rw = m ∨
        mapPageInSpace m d c.va c.pa c.user c.rw = m.allocateBlock.1 :=
      mapPageInSpace_of_noTable h hno.1 hno.2 c.user c.rw
    rcases hkeep with heq | heq
    · rw [heq]
    · rw [heq]
      rfl
  · rw [mapPageInSpace_of_unaligned hal]

theorem pde_of_mem {m m' : Machine} (h : m'.mem = m.mem) (i : ℕ) : pde m' d i = pde m d i := by
  rw [pde, pde, Machine.cell, Machine.cell, h]

theorem entry_of_mem {m m' : Machine} (h : m'.mem = m.mem) (i j : ℕ) :
    entry m' d i j = entry m d i j :=
  entry_congr (pde_of_mem h i) fun _ => congrFun h _

theorem Separated.of_mem {m m' : Machine} (hs : Separated m d) (h : m'.mem = m.mem) :
    Separated m' d := by
  refine ⟨hs.nonnull, hs.aligned, fun i hi hp => ?_, fun i hi j hj hpi hpj hij => ?_⟩
  · rw [pde_of_mem h] at hp ⊢
    exact hs.directory i hi hp
  · rw [pde_of_mem h] at hpi hpj hij
    rw [pde_of_mem h] at hij
    exact hs.tables i hi j hj hpi hpj hij

/-- A call that maps its page: the tables stay in use, and a new one gets the flags that the
call asks for. -/
theorem maps_spec {m : Machine} (hsep : Separated m d) (hheld : Held m d) {c : MapCall}
    (hc : c.Maps m d) :
    EntryBecomes d (dirIndex c.va) (tableIndex c.va) (some (c.pa ||| entryFlags c.user c.rw)) m
        (mapPageInSpace m d c.va c.pa c.user c.rw) ∧
      Held (mapPageInSpace m d c.va c.pa c.user c.rw) d ∧
      (present (pde m d (dirIndex c.va)) = false →
        (c.user = true →
          userBit (pde (mapPageInSpace m d c.va c.pa c.user c.rw) d (dirIndex c.va)) = true) ∧
        writable (pde (mapPageInSpace m d c.va c.pa c.user c.rw) d (dirIndex c.va)) = true) := by
  obtain ⟨hentry, hnew⟩ := mapPageInSpace_entry hsep hc.1 hc.2.1 (hheld.supplied hc) c.user c.rw
  have hmarks := mapPageInSpace_marks hsep c.va c.pa c.user c.rw
  have hpmm := mapPageInSpace_pmm hsep c.va c.pa c.user c.rw
  generalize mapPageInSpace m d c.va c.pa c.user c.rw = m' at hentry hnew hmarks hpmm ⊢
  obtain ⟨m₁, t, ha⟩ : ∃ m₁ t, m.allocateBlock = (m₁, t) := ⟨_, _, rfl⟩
  have ht := hc.2.2
  rw [ha] at ht hnew hpmm
  refine ⟨hentry, hheld.of_pdes hmarks fun i hi hp => ?_, fun habsent => ?_⟩
  · cases hold : present (pde m d i) with
    | true => exact Or.inl (hentry.pde_eq hi hold)
    | false =>
      by_cases heq : i = dirIndex c.va
      · subst heq
        obtain ⟨hal, -, -, -, hmark⟩ := Machine.allocateBlock_spec ha (ht hold)
        have hframe : frame (t ||| dirFlags c.user) = frame t :=
          frame_or hal (dirFlags_spec c.user).1
        rw [if_pos ⟨hc.1, hc.2.1, hold⟩] at hpmm
        rw [hnew hold, hframe, hpmm, hmark]
        exact Or.inr (by simp)
      · exact Or.inl (hentry.pdes i hi fun h => absurd h heq)
  · obtain ⟨hal, -, -, -, -⟩ := Machine.allocateBlock_spec ha (ht habsent)
    rw [hnew habsent]
    exact permission_dirFlags hal c.user

/-- **One call** keeps the tables, and it loses the permissions exactly if it asks for more
than the directory entry of an existing table grants. -/
theorem granted_step {s s' : Requests} {c : MapCall} (hs : s.Kept d)
    (hstep : s.step d c = some s') :
    s'.Kept d ∧ (Granted d s → (Granted d s' ↔ c.Compatible d s)) := by
  obtain ⟨hsep, hheld, htable⟩ := hs
  rw [step, Option.some_inj] at hstep
  subst hstep
  by_cases hc : c.Maps s.machine d
  swap
  · -- nothing has changed but marks
    have hmem := not_maps_entry hsep hc
    have hmarks := mapPageInSpace_marks hsep c.va c.pa c.user c.rw
    rw [if_neg hc]
    refine ⟨⟨Separated.of_mem hsep hmem, hheld.of_pdes hmarks fun i _ _ =>
      Or.inl (pde_of_mem hmem i), fun n hn hne => ?_⟩, fun hP => ?_⟩
    · rw [pde_of_mem hmem]
      exact htable n hn hne
    · refine iff_of_true (fun n hn p hp => ?_) fun hmaps => absurd hmaps hc
      rw [permission, entry_of_mem hmem, pde_of_mem hmem]
      exact hP n hn p hp
  rw [if_pos hc]
  obtain ⟨hentry, hheld', hnew⟩ := maps_spec hsep hheld hc
  generalize mapPageInSpace s.machine d c.va c.pa c.user c.rw = m' at hentry hheld' hnew ⊢
  have hi := dirIndex_lt c.va
  have hdiv := pageNumber_div c.va
  have hmod := pageNumber_mod c.va
  have hflags := permission_entryFlags hc.2.1 c.user c.rw
  have hlast : ∀ n, Function.update s.last (pageNumber c.va) (some (c.user, c.rw)) n =
      if n = pageNumber c.va then some (c.user, c.rw) else s.last n :=
    fun n => Function.update_apply ..
  -- the directory entry of a page that was mapped before stays
  have hstays : ∀ n < 2 ^ 20, s.last n ≠ none →
      pde m' d (n / 1024) = pde s.machine d (n / 1024) := fun n hn hne =>
    hentry.pde_eq (by omega) (htable n hn hne)
  refine ⟨⟨hentry.separated, hheld', fun n hn hne => ?_⟩, fun hP => ?_⟩
  · dsimp only at hne ⊢
    by_cases heq : n = pageNumber c.va
    · rw [heq, hdiv]
      exact ((entry_eq_some_iff _ _ _ _ _).mp hentry.here).1
    · rw [hlast, if_neg heq] at hne
      rw [hstays n hn hne]
      exact htable n hn hne
  have hperm : permission m' d (pageNumber c.va) =
      some (userBit (pde m' d (dirIndex c.va)) && c.user,
        writable (pde m' d (dirIndex c.va)) && c.rw) := by
    rw [permission, hdiv, hmod, hentry.here, Option.map_some, hflags.1, hflags.2]
  -- so the page gets what it asks for when the directory entry grants it
  have hgrants : permission m' d (pageNumber c.va) = some (c.user, c.rw) ↔
      (c.user = true → userBit (pde m' d (dirIndex c.va)) = true) ∧
        (c.rw = true → writable (pde m' d (dirIndex c.va)) = true) := by
    rw [hperm, Option.some_inj, Prod.mk.injEq, Bool.and_eq_right_iff_imp,
      Bool.and_eq_right_iff_imp]
  constructor
  · intro hP' _ hold
    rw [← hentry.pde_eq hi hold]
    exact hgrants.mp (hP' _ (pageNumber_lt c.va) _ (by dsimp only; rw [hlast, if_pos rfl]))
  · intro hcompat n hn p hp
    dsimp only at hp ⊢
    rw [hlast] at hp
    by_cases heq : n = pageNumber c.va
    · rw [if_pos heq, Option.some_inj] at hp
      rw [heq, ← hp, hgrants]
      cases hold : present (pde s.machine d (dirIndex c.va)) with
      | true =>
        rw [hentry.pde_eq hi hold]
        exact hcompat hc hold
      | false => exact ⟨(hnew hold).1, fun _ => (hnew hold).2⟩
    · rw [if_neg heq] at hp
      have hne : s.last n ≠ none := by
        rw [hp]
        simp
      rw [permission, hstays n hn hne, hentry.elsewhere _ (by omega) _
        (Nat.mod_lt _ (by decide)) fun hh => heq (by omega)]
      exact hP n hn p hp

end Requests

/-- **When all permissions are granted.**  For every directory whose tables are separate and in
use and every sequence of calls: every page has the permissions that the last call for it asked
for, all along the run, exactly when no call asks for more than the directory entry of a table
that is there grants. -/
theorem granted_iff_guarded (m : Machine) (d : U32) (hsep : Separated m d) (hheld : Held m d)
    (calls : List MapCall) :
    (∀ before, before <+: calls →
      ∀ s, run (Requests.step d) ⟨m, fun _ => none⟩ before = some s → Granted d s) ↔
      Guarded (Requests.step d) (fun s c => c.Compatible d s) ⟨m, fun _ => none⟩ calls := by
  refine forall_prefix_iff_guarded (I := Requests.Kept d) (fun s c hs => ?_)
    (fun s c s' hs hP hstep => (Requests.granted_step hs hstep).2 hP)
    ⟨hsep, hheld, fun n _ hn => absurd rfl hn⟩ (fun n _ p hp => absurd hp (by simp))
  exact ⟨_, rfl, (Requests.granted_step hs rfl).1⟩

theorem held_emptyDirectory : Held emptyDirectory 0x1000 :=
  ⟨by decide, fun i _ hp => absurd hp (absent_emptyDirectory i)⟩

/-- A writable and a read-only page for user programs. -/
def userPages : List MapCall := [⟨0xC0000000, 0x5000, true, true⟩, ⟨0xC0001000, 0x6000, true, false⟩]

theorem granted_iff_guarded_userPages :
    ∃ s, run (Requests.step 0x1000) ⟨emptyDirectory, fun _ => none⟩ userPages = some s ∧
      Granted 0x1000 s :=
  ⟨_, rfl, (granted_iff_guarded emptyDirectory 0x1000 separated_emptyDirectory
    held_emptyDirectory userPages).mpr (by decide +kernel) userPages (List.prefix_refl _) _ rfl⟩

/-- A page of the kernel, and then a page for user programs in the same 4 MiB. -/
def kernelPageFirst : List MapCall :=
  [⟨0xC0000000, 0x5000, false, true⟩, ⟨0xC0001000, 0x6000, true, true⟩]

/-- The second page stays out of reach for user programs. -/
theorem kernelPageFirst_not_granted :
    ¬ ∀ m d, Separated m d → Held m d → ∀ calls s,
      run (Requests.step d) ⟨m, fun _ => none⟩ calls = some s → Granted d s := by
  intro h
  have hrun : (run (Requests.step 0x1000) ⟨emptyDirectory, fun _ => none⟩ kernelPageFirst).map
      (fun s => (s.last 0xC0001, permission s.machine 0x1000 0xC0001)) =
        some (some (true, true), some (false, true)) := by
    decide +kernel
  obtain ⟨s, hs, hval⟩ := Option.map_eq_some_iff.mp hrun
  rw [Prod.mk.injEq] at hval
  have hgranted := h emptyDirectory 0x1000 separated_emptyDirectory held_emptyDirectory
    kernelPageFirst s hs 0xC0001 (by decide) _ hval.1
  rw [hval.2] at hgranted
  exact absurd hgranted (by decide)

end MesaOS.Memory
