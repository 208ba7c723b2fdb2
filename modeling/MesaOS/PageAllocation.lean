/-
What `VMM::allocate_page` returns (`memory/vmm.cpp`).

The frame is taken first and returned whatever becomes of it: `map_page_in_space` has no
result, and maps nothing when the address is not page aligned, or when the region has no
table and there is no block left for one.

* `mapsOrKeeps_iff` — when the frame that is returned is the one the address is mapped to;
* `placeable_iff_of_held` — the condition for a directory that is in use with its tables,
  where no store into a table can hit the directory.
-/
import MesaOS.PageTables

open MachineWord

namespace MesaOS.Memory

open VMM

/-- A frame that `va` is mapped to, or null, and then nothing has changed. -/
def MapsOrKeeps (m : Machine) (d va : U32) (result : Machine × U32) : Prop :=
  result.2 ≠ 0#32 ∧ getPhysicalAddress result.1 d va = result.2 ∨
    result.2 = 0#32 ∧ (∀ b, result.1.pmm.marked b = m.pmm.marked b) ∧
      ∀ d' va', getPhysicalAddress result.1 d' va' = getPhysicalAddress m d' va'

/-- The page table for the region of `va`: the one that is there, or the next free block. -/
def tableFor (m : Machine) (d va : U32) : Option U32 :=
  if present (m.word d (dirIndex va)) then some (pageBase (m.word d (dirIndex va)))
  else m.pmm.firstFreeBlock.map (· * blockSize)

/-- With `p` stored in table `t`, the directory still leads to `p`: the store has not hit the
directory's own entry, or has and leads to `p` by what page `p` holds. -/
def Reaches (m : Machine) (d va t p : U32) : Prop :=
  t.toNat / 4 + tableIndex va ≠ d.toNat / 4 + dirIndex va ∨ t = p ∨
    present (m.word p (tableIndex va)) = true ∧ pageBase (m.word p (tableIndex va)) = p

/-- There is a frame for `va`, and a table for the frame. -/
def Placeable (m : Machine) (d va : U32) : Prop :=
  ∃ b t, m.pmm.firstFreeBlock = some b ∧ b ≠ 0#32 ∧ va &&& 0xFFF#32 = 0#32 ∧
    tableFor { m with pmm := m.pmm.setBlock b } d va = some t ∧
    Reaches m d va t (b * blockSize)

/-- The block that is found next is a later one. -/
theorem PMM.found_lt_of_setBlock {s : PMM} {b c : U32} (hb : s.firstFreeBlock = some b)
    (hc : (s.setBlock b).firstFreeBlock = some c) : b.toNat < c.toNat := by
  obtain ⟨h0, hscan, -, hmin⟩ := firstFreeBlock_eq_some hb
  obtain ⟨-, -, hclear, -⟩ := firstFreeBlock_eq_some hc
  have hmark := s.marked_setBlock_ofNat h0 (lt_of_lt_of_le hscan s.scanned_le) c.toNat
  rw [BitVec.ofNat_toNat, BitVec.setWidth_eq, hclear, eq_comm, Bool.or_eq_false_iff,
    decide_eq_false_iff_not] at hmark
  by_contra hle
  rw [hmin c.toNat (by omega)] at hmark
  exact absurd hmark.1 (by simp)

section

variable {m : Machine} {d va : U32}

theorem pageBase_and (x : U32) : pageBase x &&& 0xFFF#32 = 0#32 := by
  rw [pageBase, BitVec.and_assoc, show ~~~0xFFF#32 &&& 0xFFF#32 = 0#32 by decide]
  exact BitVec.and_zero

/-- An address keeps its offset in the page, so one that is not aligned has no frame address. -/
theorem getPhysicalAddress_ne_of_unaligned (m : Machine) (d : U32) {p : U32} (hp : p ≠ 0#32)
    (hal : p &&& 0xFFF#32 = 0#32) (hva : va &&& 0xFFF#32 ≠ 0#32) :
    getPhysicalAddress m d va ≠ p := by
  intro h
  by_cases hd : d = 0#32
  · rw [getPhysicalAddress, if_pos hd] at h
    exact hp h.symm
  rw [getPhysicalAddress_word m hd] at h
  split at h
  · refine hva ?_
    rw [← hal, ← h, BitVec.and_or_distrib_right, pageBase_and, BitVec.zero_or, BitVec.and_assoc,
      BitVec.and_self]
  · exact hp h.symm

/-! ### The store into the table -/

/-- After the store the directory leads to the table, unless its own entry has been hit. -/
theorem getPhysicalAddress_setWord (hd : d ≠ 0#32) (hva : va &&& 0xFFF#32 = 0#32) {t p y : U32}
    (ht : 4096 ∣ t.toNat) (hp : 4096 ∣ p.toNat) (hp0 : p ≠ 0#32)
    (hpres : present (m.word d (dirIndex va)) = true)
    (hbase : pageBase (m.word d (dirIndex va)) = t) (hy : present y = true)
    (hybase : pageBase y = p) :
    getPhysicalAddress (m.setWord t (tableIndex va) y) d va = p ↔ Reaches m d va t p := by
  have hstore : ∀ q i, (m.setWord t (tableIndex va) y).word q i =
      if q.toNat / 4 + i = t.toNat / 4 + tableIndex va then y else m.word q i := fun _ _ => rfl
  rw [getPhysicalAddress_word _ hd, hva, BitVec.or_zero, Reaches, hstore d]
  by_cases hhit : t.toNat / 4 + tableIndex va = d.toNat / 4 + dirIndex va
  · -- the directory's entry is the new one, and leads into page `p`
    rw [if_pos hhit.symm, hybase, hstore p, or_iff_right (not_not.mpr hhit)]
    by_cases htp : t = p
    · rw [htp, if_pos rfl, hybase]
      simp [hy]
    · have hother : ¬ p.toNat / 4 + tableIndex va = t.toNat / 4 + tableIndex va := by
        intro h
        refine htp (BitVec.eq_of_toNat_eq ?_)
        omega
      rw [if_neg hother, or_iff_right htp]
      by_cases hx : present (m.word p (tableIndex va)) = true
      · simp [hy, hx]
      · simp [hx, hp0.symm]
  · rw [if_neg (Ne.symm hhit), hbase, hstore t, if_pos rfl, hybase]
    simp [hpres, hy, hhit]

theorem entryFlags_pageBase {p : U32} (hp : 4096 ∣ p.toNat) (user rw : Bool) :
    present (p ||| entryFlags user rw) = true ∧ pageBase (p ||| entryFlags user rw) = p :=
  ⟨by rw [present_or hp, (entryFlags_spec user rw).2], pageBase_or hp (entryFlags_spec user rw).1⟩

/-- A table that is there. -/
theorem mapPageInSpace_present (hd : d ≠ 0#32) (hva : va &&& 0xFFF#32 = 0#32) {p : U32}
    (hpal : p &&& 0xFFF#32 = 0#32) (hp0 : p ≠ 0#32)
    (hpres : present (m.word d (dirIndex va)) = true) (user rw : Bool) :
    getPhysicalAddress (mapPageInSpace m d va p user rw) d va = p ↔
      Reaches m d va (pageBase (m.word d (dirIndex va))) p := by
  have hp : 4096 ∣ p.toNat := pageBase_of_aligned hpal ▸ dvd_pageBase p
  obtain ⟨hy, hybase⟩ := entryFlags_pageBase hp user rw
  rw [mapPageInSpace, if_neg (by simp [hd, hva, hpal]), pageBase_of_aligned hpal]
  dsimp only
  rw [if_neg (not_entries_le_dirIndex va), if_neg (by simp [hpres])]
  exact getPhysicalAddress_setWord hd hva (dvd_pageBase _) hp hp0 hpres rfl hy hybase

/-- A region without a table, and a block for one. -/
theorem mapPageInSpace_newTable (hd : d ≠ 0#32) (hva : va &&& 0xFFF#32 = 0#32) {p : U32}
    (hpal : p &&& 0xFFF#32 = 0#32) (hp0 : p ≠ 0#32)
    (hpres : ¬ present (m.word d (dirIndex va)) = true) {m₁ : Machine} {t : U32}
    (ha : m.allocateBlock = (m₁, t)) (ht0 : t ≠ 0#32) (htp : t ≠ p) (user rw : Bool) :
    getPhysicalAddress (mapPageInSpace m d va p user rw) d va = p ↔ Reaches m d va t p := by
  have hp : 4096 ∣ p.toNat := pageBase_of_aligned hpal ▸ dvd_pageBase p
  obtain ⟨ht, -, hmem, -, -⟩ := Machine.allocateBlock_spec ha ht0
  obtain ⟨hy, hybase⟩ := entryFlags_pageBase hp user rw
  obtain ⟨hflags, hflagsPres⟩ := dirFlags_spec user
  rw [mapPageInSpace, if_neg (by simp [hd, hva, hpal]), pageBase_of_aligned hpal]
  dsimp only
  rw [if_neg (not_entries_le_dirIndex va), if_pos (by simp [hpres]), ha]
  dsimp only
  rw [if_neg ht0]
  generalize hm₂ : (m₁.clearPage t).setWord d (dirIndex va) (t ||| if user then 7#32 else 3#32) = m₂
  have hword : m₂.word d (dirIndex va) = t ||| dirFlags user := by
    rw [← hm₂]
    exact if_pos rfl
  have hreach : Reaches m₂ d va t p ↔ Reaches m d va t p := by
    refine or_congr_right' fun hhit => or_congr_right ?_
    have hidx := tableIndex_lt va
    -- the word in page `p` lies outside the cleared page, and is not the directory's
    have hsame : m₂.word p (tableIndex va) = m.word p (tableIndex va) := by
      have hne : t.toNat ≠ p.toNat := fun h => htp (BitVec.eq_of_toNat_eq h)
      rw [← hm₂]
      simp only [Machine.word, Machine.setWord, Machine.clearPage, hmem]
      rw [if_neg (by omega), if_neg (by omega)]
    rw [hsame]
  rw [← hreach]
  exact getPhysicalAddress_setWord hd hva ht hp hp0
    (by rw [hword, present_or ht]; exact hflagsPres)
    (by rw [hword]; exact pageBase_or ht hflags) hy hybase

/-- A region without a table, and no block for one. -/
theorem mapPageInSpace_noTable (m : Machine) {p : U32}
    (hpres : ¬ present (m.word d (dirIndex va)) = true) (hnone : m.pmm.firstFreeBlock = none)
    (hp0 : p ≠ 0#32) (user rw : Bool) :
    getPhysicalAddress (mapPageInSpace m d va p user rw) d va ≠ p := by
  have hm : mapPageInSpace m d va p user rw = m := by
    rw [mapPageInSpace]
    split
    · rfl
    · dsimp only
      rw [if_neg (not_entries_le_dirIndex va), if_pos (by simp [hpres]),
        Machine.allocateBlock, PMM.allocateBlock_of_none hnone]
      rfl
  rw [hm]
  by_cases hd : d = 0#32
  · rw [getPhysicalAddress, if_pos hd]
    exact hp0.symm
  · rw [getPhysicalAddress_word m hd, if_neg fun h => hpres h.1]
    exact hp0.symm

/-- Mapping the frame, whatever is there for a table. -/
theorem mapPageInSpace_iff (m : Machine) (va : U32) (hd : d ≠ 0#32) {p : U32} (hpal : p &&& 0xFFF#32 = 0#32)
    (hp0 : p ≠ 0#32) (hzero : ∀ c, m.pmm.firstFreeBlock = some c → c * blockSize ≠ 0#32)
    (hother : ∀ c, m.pmm.firstFreeBlock = some c → c * blockSize ≠ p) (user rw : Bool) :
    getPhysicalAddress (mapPageInSpace m d va p user rw) d va = p ↔
      va &&& 0xFFF#32 = 0#32 ∧ ∃ t, tableFor m d va = some t ∧ Reaches m d va t p := by
  by_cases hva : va &&& 0xFFF#32 = 0#32
  · rw [and_iff_right hva, tableFor]
    by_cases hpres : present (m.word d (dirIndex va)) = true
    · rw [if_pos hpres, mapPageInSpace_present hd hva hpal hp0 hpres]
      simp
    · rw [if_neg hpres]
      cases hfound : m.pmm.firstFreeBlock with
      | none =>
        exact iff_of_false (mapPageInSpace_noTable m hpres hfound hp0 user rw) (by simp)
      | some c =>
        have ha : m.allocateBlock = ({ m with pmm := m.pmm.setBlock c }, c * blockSize) := by
          rw [Machine.allocateBlock, PMM.allocateBlock_of_some hfound]
        rw [mapPageInSpace_newTable hd hva hpal hp0 hpres ha (hzero c hfound) (hother c hfound)]
        simp
  · rw [mapPageInSpace_of_unaligned fun h => hva h.1]
    exact iff_of_false (getPhysicalAddress_ne_of_unaligned m d hp0 hpal hva) fun h => hva h.1

theorem aligned_of_found {p : PMM} {b : U32} (hfound : p.firstFreeBlock = some b) :
    (b * blockSize) &&& 0xFFF#32 = 0#32 := by
  have hdvd : 4096 ∣ (b * blockSize).toNat := ⟨b.toNat, by
    rw [PMM.toNat_found hfound, Nat.mul_comm]⟩
  rw [← eq_of_frame (dvd_pageBase _) hdvd (frame_pageBase _), pageBase_and]

/-- The block that is found next lies behind the first one. -/
theorem next_found_ne {p : PMM} {b c : U32} (hfound : p.firstFreeBlock = some b)
    (hnext : (p.setBlock b).firstFreeBlock = some c) :
    c * blockSize ≠ 0#32 ∧ c * blockSize ≠ b * blockSize := by
  have hlt := PMM.found_lt_of_setBlock hfound hnext
  have hb := PMM.toNat_found hfound
  have hc := PMM.toNat_found hnext
  refine ⟨fun h => ?_, fun h => ?_⟩
  · rw [h, show (0#32).toNat = 0 from rfl] at hc
    omega
  · rw [h] at hc
    omega

/-- **When the frame that is returned is mapped**, for every directory and address, all flags and
every state of the memory manager. -/
theorem mapsOrKeeps_iff (m : Machine) (d va : U32) (user rw : Bool) :
    MapsOrKeeps m d va (allocatePage m d va user rw) ↔
      d = 0#32 ∨ m.pmm.firstFreeBlock = none ∨ Placeable m d va := by
  by_cases hd : d = 0#32
  · rw [allocatePage, if_pos hd]
    exact iff_of_true (Or.inr ⟨rfl, fun _ => rfl, fun _ _ => rfl⟩) (Or.inl hd)
  rw [allocatePage, if_neg hd, or_iff_right hd, Placeable]
  dsimp only
  cases hfound : m.pmm.firstFreeBlock with
  | none =>
    have ha : m.allocateBlock = (m, 0#32) := by
      rw [Machine.allocateBlock, PMM.allocateBlock_of_none hfound]
    rw [ha]
    exact iff_of_true (Or.inr ⟨rfl, fun _ => rfl, fun _ _ => rfl⟩) (Or.inl rfl)
  | some b =>
    obtain ⟨h0, hb, hclear, hmin⟩ := PMM.firstFreeBlock_eq_some hfound
    have ha : m.allocateBlock = ({ m with pmm := m.pmm.setBlock b }, b * blockSize) := by
      rw [Machine.allocateBlock, PMM.allocateBlock_of_some hfound]
    have hmark := m.pmm.marked_setBlock_ofNat h0 (lt_of_lt_of_le hb m.pmm.scanned_le)
    rw [BitVec.ofNat_toNat, BitVec.setWidth_eq] at hmark
    rw [ha]
    dsimp only
    by_cases hb0 : b = 0#32
    · -- null is returned, but block 0 is marked now
      rw [if_pos ((PMM.found_eq_zero_iff hfound).mpr hb0)]
      refine iff_of_false ?_ ?_
      · rintro (h | ⟨-, hsame, -⟩)
        · exact h.1 rfl
        · have h := hsame b.toNat
          rw [hmark, hclear, decide_eq_true rfl] at h
          exact absurd h (by simp)
      · rintro (h | ⟨c, t, hc, hc0, -⟩)
        · exact absurd h (by simp)
        · exact hc0 (Option.some_inj.mp hc ▸ hb0)
    have hp0 : b * blockSize ≠ 0#32 := fun h => hb0 ((PMM.found_eq_zero_iff hfound).mp h)
    rw [if_neg hp0]
    -- a block for a table is allocated after the one that is mapped
    have hmaps := mapPageInSpace_iff { m with pmm := m.pmm.setBlock b } va hd
      (aligned_of_found hfound) hp0 (fun c hc => (next_found_ne hfound hc).1)
      (fun c hc => (next_found_ne hfound hc).2) user rw
    constructor
    · rintro (⟨-, h⟩ | ⟨h, -⟩)
      · obtain ⟨hva, t, ht, hreach⟩ := hmaps.mp h
        exact Or.inr ⟨b, t, rfl, hb0, hva, ht, hreach⟩
      · exact absurd h hp0
    · rintro (h | ⟨c, t, hc, -, hva, ht, hreach⟩)
      · exact absurd h (by simp)
      · obtain rfl := Option.some_inj.mp hc
        exact Or.inl ⟨hp0, hmaps.mpr ⟨hva, t, ht, hreach⟩⟩

/-- An empty directory at `0x1000`, and block 5 is free. -/
def oneFreeBlock : Machine where
  pmm :=
    { bitmap := 0x200000, words := fun i => if i = 0 then 0xFFFFFFDF else 0xFFFFFFFF
      maxBlocks := 128, usedBlocks := 127, maxBlocks_lt := PMM.toNat_128_lt }
  mem := fun _ => 0
  pageDirectory := 0x1000
  kernelDirectory := 0

/-- With one free block the frame is taken, and no table can be made for it. -/
theorem oneFreeBlock_not_mapsOrKeeps :
    ¬ ∀ m d va user rw, MapsOrKeeps m d va (allocatePage m d va user rw) := by
  intro h
  have hresult : (allocatePage oneFreeBlock 0x1000 0xC0000000 true true).2 = 0x5000#32 ∧
      getPhysicalAddress (allocatePage oneFreeBlock 0x1000 0xC0000000 true true).1 0x1000
        0xC0000000 = 0#32 := by
    decide +kernel
  rcases h oneFreeBlock 0x1000 0xC0000000 true true with ⟨-, hget⟩ | ⟨hnull, -⟩
  · rw [hresult.1, hresult.2] at hget
    exact absurd hget (by decide)
  · rw [hresult.1] at hnull
    exact absurd hnull (by decide)

/-! ### Directories in use -/

/-- The tables of a directory lie in other pages, and so does a free block. -/
theorem reaches_of_held (hsep : Separated m d) (hheld : Held m d) {b t : U32}
    (ht : tableFor { m with pmm := m.pmm.setBlock b } d va = some t) :
    Reaches m d va t (b * blockSize) := by
  have hwords : ∀ {u : U32}, 4096 ∣ u.toNat → frame u ≠ frame d →
      u.toNat / 4 + tableIndex va ≠ d.toNat / 4 + dirIndex va := by
    intro u hu hne
    have := toNat_of_dvd hu
    have := toNat_of_dvd hsep.aligned
    have := dirIndex_lt va
    have := tableIndex_lt va
    omega
  have hword : m.word d (dirIndex va) = pde m d (dirIndex va) := m.word_eq_cell hsep.aligned _
  rw [tableFor] at ht
  split at ht
  · rename_i hpres
    obtain rfl := Option.some_inj.mp ht
    refine Or.inl (hwords (dvd_pageBase _) ?_)
    rw [frame_pageBase]
    exact hword ▸ hsep.directory _ (dirIndex_lt va) (hword ▸ hpres)
  · obtain ⟨c, hc, rfl⟩ := Option.map_eq_some_iff.mp ht
    have haddr := PMM.toNat_found hc
    obtain ⟨-, -, hclear, -⟩ := PMM.firstFreeBlock_eq_some hc
    rw [PMM.marked_setBlock, Bool.or_eq_false_iff] at hclear
    refine Or.inl (hwords ⟨c.toNat, by rw [haddr, Nat.mul_comm]⟩ fun hframe => ?_)
    have hcd : frame d = c.toNat := by
      rw [← hframe, frame, haddr]
      exact Nat.mul_div_cancel _ (by decide)
    rw [← hcd, hheld.directory] at hclear
    exact absurd hclear.1 (by simp)

/-- **For a directory in use**: there is a block other than block 0, the address is aligned, and
there is a table or a second block. -/
theorem placeable_iff_of_held (hsep : Separated m d) (hheld : Held m d) :
    Placeable m d va ↔ ∃ b, m.pmm.firstFreeBlock = some b ∧ b ≠ 0#32 ∧ va &&& 0xFFF#32 = 0#32 ∧
      (present (pde m d (dirIndex va)) = true ∨ (m.pmm.setBlock b).firstFreeBlock ≠ none) := by
  have hword : m.word d (dirIndex va) = pde m d (dirIndex va) := m.word_eq_cell hsep.aligned _
  have htable : ∀ b, (present (pde m d (dirIndex va)) = true ∨
      (m.pmm.setBlock b).firstFreeBlock ≠ none) ↔
      ∃ t, tableFor { m with pmm := m.pmm.setBlock b } d va = some t := by
    intro b
    rw [tableFor, show ({ m with pmm := m.pmm.setBlock b } : Machine).word d (dirIndex va) =
      m.word d (dirIndex va) from rfl, hword]
    by_cases hp : present (pde m d (dirIndex va)) = true
    · simp [hp]
    · simp [hp, Option.ne_none_iff_exists']
  refine exists_congr fun b => ⟨?_, ?_⟩
  · rintro ⟨t, hb, hb0, hva, ht, -⟩
    exact ⟨hb, hb0, hva, (htable b).mpr ⟨t, ht⟩⟩
  · rintro ⟨hb, hb0, hva, hsome⟩
    obtain ⟨t, ht⟩ := (htable b).mp hsome
    exact ⟨t, hb, hb0, hva, ht, reaches_of_held hsep hheld ht⟩

end

end MesaOS.Memory
