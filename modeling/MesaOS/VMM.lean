/-
Page directories and page tables (`memory/paging.cpp`, `memory/vmm.cpp` and the
page-fault branch of `arch/i386/isr.cpp`).

Physical memory is a store of 32-bit words.  A directory or table is one page of
it, and a pointer to one is the address of that page; `word m p i` is `p[i]`.
All reasoning about these goes through `cell m f i`, the `i`-th word of frame
`f`: `word_eq_cell` for aligned pointers, and `cell_setWord`, `cell_clearPage`,
`cell_copyPage` for what each store changes.
-/
import MesaOS.PMM

open MachineWord

namespace MesaOS.Memory

def kernelSpaceEntries : ℕ := 768

def pageTableEntries : ℕ := 1024

/-- Physical memory and the static members of `PMM`, `Paging` and `VMM`. -/
structure Machine where
  pmm : PMM
  /-- word `n` lies at the byte address `4 * n` -/
  mem : ℕ → U32
  /-- `Paging::page_directory` -/
  pageDirectory : U32
  /-- `VMM::kernel_directory` -/
  kernelDirectory : U32

namespace Machine

/-- `p[i]`, for a pointer to words. -/
def word (m : Machine) (p : U32) (i : ℕ) : U32 := m.mem (p.toNat / 4 + i)

/-- `p[i] = x`. -/
def setWord (m : Machine) (p : U32) (i : ℕ) (x : U32) : Machine :=
  { m with mem := fun n => if n = p.toNat / 4 + i then x else m.mem n }

/-- `memset(p, 0, 4096)`. -/
def clearPage (m : Machine) (p : U32) : Machine :=
  { m with mem := fun n =>
      if p.toNat / 4 ≤ n ∧ n < p.toNat / 4 + 1024 then 0 else m.mem n }

/-- `memcpy(dst, src, 4096)`, for two different pages. -/
def copyPage (m : Machine) (dst src : U32) : Machine :=
  { m with mem := fun n =>
      if dst.toNat / 4 ≤ n ∧ n < dst.toNat / 4 + 1024 then
        m.mem (src.toNat / 4 + (n - dst.toNat / 4))
      else m.mem n }

def allocateBlock (m : Machine) : Machine × U32 :=
  ({ m with pmm := m.pmm.allocateBlock.1 }, m.pmm.allocateBlock.2)

def freeBlock (m : Machine) (addr : U32) : Machine := { m with pmm := m.pmm.freeBlock addr }

end Machine

/-- `x & ~0xFFF`: the address in a directory or table entry. -/
def pageBase (x : U32) : U32 := x &&& ~~~0xFFF#32

/-- `x & 0xFFF`: the flags in a directory or table entry. -/
def pageFlags (x : U32) : U32 := x &&& 0xFFF#32

/-- Bit 0 of an entry. -/
def present (x : U32) : Bool := decide (x &&& 0x1#32 ≠ 0#32)

/-- Bit 1 of an entry. -/
def writable (x : U32) : Bool := decide (x &&& 0x2#32 ≠ 0#32)

/-- Bit 9 of an entry, which marks a copy-on-write page. -/
def copyOnWrite (x : U32) : Bool := decide (x &&& (1#32 <<< 9) ≠ 0#32)

def dirIndex (virtualAddr : U32) : ℕ := (virtualAddr >>> 22).toNat

def tableIndex (virtualAddr : U32) : ℕ := ((virtualAddr >>> 12) &&& 0x03FF#32).toNat

namespace Paging

/-- One page table of the identity map: table `j` maps its 1024 pages to themselves. -/
def mapTable (m : Machine) (j : ℕ) : Machine :=
  let (m, pageTable) := m.allocateBlock
  let m := m.clearPage pageTable
  let m := (List.range 1024).foldl
    (fun m i => m.setWord pageTable i (BitVec.ofNat 32 ((j * 1024 + i) * 4096) ||| 3#32)) m
  m.setWord m.pageDirectory j (pageTable ||| 3#32)

/-- `Paging::initialize`, up to the switch to the new directory. -/
def initializePaging (m : Machine) : Machine :=
  let (m, pageDirectory) := m.allocateBlock
  let m := { m with pageDirectory := pageDirectory }
  (List.range 16).foldl mapTable (m.clearPage pageDirectory)

end Paging

namespace VMM

/-- `VMM::initialize`: the kernel directory is the one `Paging` made. -/
def initializeVMM (m : Machine) : Machine := { m with kernelDirectory := m.pageDirectory }

def freePageTable (m : Machine) (table : U32) : Machine :=
  if table ≠ 0#32 then m.freeBlock table else m

/-- The loop over the user entries of a directory that is being destroyed. -/
def freeTables (directory : U32) (is : List ℕ) (m : Machine) : Machine :=
  is.foldl (fun m i =>
    if present (m.word directory i) then
      freePageTable m (pageBase (m.word directory i))
    else m) m

/-- The directory entries of user space, `KERNEL_SPACE_ENTRIES` to 1023. -/
def userEntries : List ℕ := List.range' kernelSpaceEntries (pageTableEntries - kernelSpaceEntries)

def destroyAddressSpace (m : Machine) (directory : U32) : Machine :=
  if directory = 0#32 ∨ directory = m.kernelDirectory then m
  else (freeTables directory userEntries m).freeBlock directory

/-- The loop over the kernel entries; `false` when it gave up. -/
def copyKernelTables (newDirectory : U32) : List ℕ → Machine → Machine × Bool
  | [], m => (m, true)
  | i :: is, m =>
    if present (m.word m.kernelDirectory i) then
      let kernelTable := pageBase (m.word m.kernelDirectory i)
      let (m, newTable) := m.allocateBlock
      if newTable = 0#32 then (destroyAddressSpace m newDirectory, false)
      else
        let m := m.copyPage newTable kernelTable
        let m := m.setWord newDirectory i
          (newTable ||| pageFlags (m.word m.kernelDirectory i))
        copyKernelTables newDirectory is m
    else copyKernelTables newDirectory is m

/-- The new state and the new directory, `0` for the null pointer. -/
def createAddressSpace (m : Machine) : Machine × U32 :=
  if m.kernelDirectory = 0#32 then (m, 0#32)
  else
    let (m, newDirectory) := m.allocateBlock
    if newDirectory = 0#32 then (m, 0#32)
    else
      let m := m.clearPage newDirectory
      let (m, done) := copyKernelTables newDirectory (List.range kernelSpaceEntries) m
      if done then (m, newDirectory) else (m, 0#32)

/-- A source entry as the clone gets it: read-only, with the copy-on-write flag. -/
def cowEntry (x : U32) : U32 :=
  pageBase x ||| ((pageFlags x &&& ~~~0x2#32) ||| (1#32 <<< 9))

/-- The loop over one source table. -/
def copyEntries (newTable srcTable : U32) (js : List ℕ) (m : Machine) : Machine :=
  js.foldl (fun m j =>
    if present (m.word srcTable j) then
      m.setWord newTable j (cowEntry (m.word srcTable j))
    else m) m

/-- The loop over the user entries of the source; `false` when it gave up. -/
def copyUserTables (newDirectory srcDirectory : U32) : List ℕ → Machine → Machine × Bool
  | [], m => (m, true)
  | i :: is, m =>
    if present (m.word srcDirectory i) then
      let srcTable := pageBase (m.word srcDirectory i)
      let (m, newTable) := m.allocateBlock
      if newTable = 0#32 then (destroyAddressSpace m newDirectory, false)
      else
        let m := m.clearPage newTable
        let m := copyEntries newTable srcTable (List.range pageTableEntries) m
        let m := m.setWord newDirectory i
          (newTable ||| pageFlags (m.word srcDirectory i))
        copyUserTables newDirectory srcDirectory is m
    else copyUserTables newDirectory srcDirectory is m

def cloneAddressSpace (m : Machine) (srcDirectory : U32) : Machine × U32 :=
  if srcDirectory = 0#32 ∨ srcDirectory = m.kernelDirectory then (m, 0#32)
  else
    let (m, newDirectory) := createAddressSpace m
    if newDirectory = 0#32 then (m, 0#32)
    else
      let (m, done) := copyUserTables newDirectory srcDirectory userEntries m
      if done then (m, newDirectory) else (m, 0#32)

/-- The flags of a new table entry. -/
def entryFlags (user rw : Bool) : U32 :=
  let flags := if user then 7#32 else 3#32
  if rw then flags else flags &&& ~~~0x2#32

def mapPageInSpace (m : Machine) (directory virtualAddr physicalAddr : U32) (user rw : Bool) :
    Machine :=
  if directory = 0#32 ∨ virtualAddr &&& 0xFFF#32 ≠ 0#32 ∨ physicalAddr &&& 0xFFF#32 ≠ 0#32 then m
  else
    let dirIdx := dirIndex virtualAddr
    let tableIdx := tableIndex virtualAddr
    if pageTableEntries ≤ dirIdx then m
    else if !present (m.word directory dirIdx) then
      let (m, table) := m.allocateBlock
      if table = 0#32 then m
      else
        let m := m.clearPage table
        let m := m.setWord directory dirIdx (table ||| (if user then 7#32 else 3#32))
        m.setWord table tableIdx (pageBase physicalAddr ||| entryFlags user rw)
    else
      m.setWord (pageBase (m.word directory dirIdx)) tableIdx
        (pageBase physicalAddr ||| entryFlags user rw)

def unmapPage (m : Machine) (directory virtualAddr : U32) : Machine :=
  if directory = 0#32 ∨ virtualAddr &&& 0xFFF#32 ≠ 0#32 then m
  else
    let dirIdx := dirIndex virtualAddr
    if pageTableEntries ≤ dirIdx ∨ !present (m.word directory dirIdx) then m
    else m.setWord (pageBase (m.word directory dirIdx)) (tableIndex virtualAddr) 0#32

def getPhysicalAddress (m : Machine) (directory virtualAddr : U32) : U32 :=
  if directory = 0#32 then 0#32
  else
    let dirIdx := dirIndex virtualAddr
    if pageTableEntries ≤ dirIdx ∨ !present (m.word directory dirIdx) then 0#32
    else
      let entry := m.word (pageBase (m.word directory dirIdx)) (tableIndex virtualAddr)
      if present entry then pageBase entry ||| (virtualAddr &&& 0xFFF#32) else 0#32

def allocatePage (m : Machine) (directory virtualAddr : U32) (user rw : Bool) : Machine × U32 :=
  if directory = 0#32 then (m, 0#32)
  else
    let (m, physicalPage) := m.allocateBlock
    if physicalPage = 0#32 then (m, 0#32)
    else (mapPageInSpace m directory virtualAddr physicalPage user rw, physicalPage)

def freePage (m : Machine) (directory virtualAddr : U32) : Machine :=
  if directory = 0#32 then m
  else
    let physicalAddr := getPhysicalAddress m directory virtualAddr
    if physicalAddr ≠ 0#32 then unmapPage (m.freeBlock physicalAddr) directory virtualAddr
    else m

end VMM

/-- The page-fault branch of `isr_handler`: the state in which execution resumes,
or `none` for the kernel panic. -/
def pageFault (m : Machine) (currentDir faultingAddress errCode : U32) : Option Machine :=
  if present errCode ∧ writable errCode then
    let dirIdx := dirIndex faultingAddress
    let tableIdx := tableIndex faultingAddress
    if currentDir ≠ 0#32 ∧ dirIdx < 1024 ∧ present (m.word currentDir dirIdx) then
      let table := pageBase (m.word currentDir dirIdx)
      if present (m.word table tableIdx) then
        let flags := pageFlags (m.word table tableIdx)
        if copyOnWrite flags then
          let (m, newPage) := m.allocateBlock
          if newPage ≠ 0#32 then
            let m := m.copyPage newPage (pageBase (m.word table tableIdx))
            some (m.setWord table tableIdx (newPage ||| (flags &&& ~~~(1#32 <<< 9)) ||| 0x2#32))
          else none
        else none
      else none
    else none
  else none

/-! ### Words by frame -/

/-- The frame an entry or a page address points to. -/
def frame (x : U32) : ℕ := x.toNat / 4096

namespace Machine

/-- Word `i` of frame `f`. -/
def cell (m : Machine) (f i : ℕ) : U32 := m.mem (f * 1024 + i)

theorem word_eq_cell (m : Machine) {p : U32} (hp : 4096 ∣ p.toNat) (i : ℕ) :
    m.word p i = m.cell (frame p) i := by
  rw [word, cell, frame]
  congr 1
  omega

theorem cell_setWord (m : Machine) {p : U32} (hp : 4096 ∣ p.toNat) {i : ℕ} (hi : i < 1024)
    (x : U32) (g : ℕ) {j : ℕ} (hj : j < 1024) :
    (m.setWord p i x).cell g j = if g = frame p ∧ j = i then x else m.cell g j := by
  simp only [setWord, cell, frame]
  refine if_congr ?_ rfl rfl
  omega

theorem cell_clearPage (m : Machine) {p : U32} (hp : 4096 ∣ p.toNat) (g : ℕ) {j : ℕ}
    (hj : j < 1024) : (m.clearPage p).cell g j = if g = frame p then 0#32 else m.cell g j := by
  simp only [clearPage, cell, frame]
  refine if_congr ?_ rfl rfl
  omega

theorem cell_copyPage (m : Machine) {p q : U32} (hp : 4096 ∣ p.toNat) (hq : 4096 ∣ q.toNat)
    (g : ℕ) {j : ℕ} (hj : j < 1024) :
    (m.copyPage p q).cell g j = if g = frame p then m.cell (frame q) j else m.cell g j := by
  have hf : frame p = p.toNat / 4096 := rfl
  have hq' : frame q = q.toNat / 4096 := rfl
  simp only [copyPage, cell]
  by_cases hg : g = frame p
  · rw [if_pos (by omega), if_pos hg]
    congr 1
    omega
  · rw [if_neg (by omega), if_neg hg]

@[simp] theorem setWord_pmm (m : Machine) (p : U32) (i : ℕ) (x : U32) :
    (m.setWord p i x).pmm = m.pmm := rfl

@[simp] theorem clearPage_pmm (m : Machine) (p : U32) : (m.clearPage p).pmm = m.pmm := rfl

@[simp] theorem copyPage_pmm (m : Machine) (p q : U32) : (m.copyPage p q).pmm = m.pmm := rfl

@[simp] theorem setWord_kernelDirectory (m : Machine) (p : U32) (i : ℕ) (x : U32) :
    (m.setWord p i x).kernelDirectory = m.kernelDirectory := rfl

@[simp] theorem clearPage_kernelDirectory (m : Machine) (p : U32) :
    (m.clearPage p).kernelDirectory = m.kernelDirectory := rfl

@[simp] theorem copyPage_kernelDirectory (m : Machine) (p q : U32) :
    (m.copyPage p q).kernelDirectory = m.kernelDirectory := rfl

@[simp] theorem freeBlock_kernelDirectory (m : Machine) (p : U32) :
    (m.freeBlock p).kernelDirectory = m.kernelDirectory := rfl

@[simp] theorem freeBlock_cell (m : Machine) (p : U32) (f i : ℕ) :
    (m.freeBlock p).cell f i = m.cell f i := rfl

@[simp] theorem freeBlock_word (m : Machine) (p q : U32) (i : ℕ) :
    (m.freeBlock p).word q i = m.word q i := rfl

/-- A block that `allocateBlock` hands out is a page whose frame was unmarked; no
memory changes, and only that frame's mark does. -/
theorem allocateBlock_spec {m m' : Machine} {p : U32} (h : m.allocateBlock = (m', p))
    (hp : p ≠ 0#32) :
    4096 ∣ p.toNat ∧ m.pmm.marked (frame p) = false ∧ m'.mem = m.mem ∧
      m'.kernelDirectory = m.kernelDirectory ∧
      ∀ f, m'.pmm.marked f = (m.pmm.marked f || decide (f = frame p)) := by
  rw [allocateBlock, Prod.mk.injEq] at h
  obtain ⟨rfl, h2⟩ := h
  have hpmm : m.pmm.allocateBlock = (m.pmm.allocateBlock.1, p) := by rw [← h2]
  obtain ⟨b, hb, -, -, hclear, -, hmark⟩ := PMM.allocateBlock_spec hpmm hp
  have hframe : frame p = b := by
    rw [frame]
    omega
  rw [hframe]
  exact ⟨⟨b, by omega⟩, hclear, rfl, rfl, hmark⟩

/-- A call of `allocateBlock` takes no mark away and changes no memory. -/
theorem allocateBlock_keeps {m m' : Machine} {p : U32} (h : m.allocateBlock = (m', p)) :
    m'.mem = m.mem ∧ m'.kernelDirectory = m.kernelDirectory ∧
      ∀ f, m.pmm.marked f = true → m'.pmm.marked f = true := by
  by_cases hp : p = 0#32
  · rw [allocateBlock, Prod.mk.injEq] at h
    obtain ⟨rfl, h2⟩ := h
    exact ⟨rfl, rfl, PMM.allocateBlock_null (s := m.pmm) (by rw [← hp, ← h2])⟩
  · obtain ⟨-, -, hmem, hk, hmark⟩ := allocateBlock_spec h hp
    exact ⟨hmem, hk, fun f hf => by rw [hmark, hf, Bool.true_or]⟩

end Machine

/-! ### Entries -/

theorem toNat_pageBase (x : U32) : (pageBase x).toNat = frame x * 4096 :=
  toNat_and_not_lowMask x 12

theorem dvd_pageBase (x : U32) : 4096 ∣ (pageBase x).toNat :=
  ⟨frame x, by rw [toNat_pageBase, Nat.mul_comm]⟩

@[simp] theorem frame_pageBase (x : U32) : frame (pageBase x) = frame x := by
  rw [frame, toNat_pageBase]
  omega

theorem toNat_pageFlags_lt (x : U32) : (pageFlags x).toNat < 4096 := by
  have : (pageFlags x).toNat = x.toNat % 2 ^ 12 := toNat_and_lowMask (k := 12) x (by decide)
  rw [this]
  exact Nat.mod_lt _ (by decide)

theorem toNat_of_dvd {p : U32} (hp : 4096 ∣ p.toNat) : p.toNat = frame p * 4096 := by
  rw [frame]
  omega

theorem eq_of_frame {p q : U32} (hp : 4096 ∣ p.toNat) (hq : 4096 ∣ q.toNat)
    (h : frame p = frame q) : p = q := by
  apply BitVec.eq_of_toNat_eq
  rw [toNat_of_dvd hp, toNat_of_dvd hq, h]

/-- The address taken out of a page address with flags. -/
theorem pageBase_or {p y : U32} (hp : 4096 ∣ p.toNat) (hy : y.toNat < 4096) :
    pageBase (p ||| y) = p :=
  or_and_not_lowMask (k := 12) hp hy

theorem frame_or {p y : U32} (hp : 4096 ∣ p.toNat) (hy : y.toNat < 4096) :
    frame (p ||| y) = frame p := by
  rw [← frame_pageBase, pageBase_or hp hy]

/-- A flag of a page address with flags is a flag of the flags. -/
theorem flag_or {p y : U32} (hp : 4096 ∣ p.toNat) {k : ℕ} (hk : k < 12) :
    (p ||| y) &&& BitVec.twoPow 32 k ≠ 0#32 ↔ y &&& BitVec.twoPow 32 k ≠ 0#32 := by
  have hk' : k < 32 := by omega
  rw [and_twoPow_ne_zero_iff _ hk', and_twoPow_ne_zero_iff _ hk', BitVec.getLsbD_or,
    getLsbD_of_dvd (k := 12) hp hk, Bool.false_or]

theorem present_or {p : U32} (hp : 4096 ∣ p.toNat) (y : U32) : present (p ||| y) = present y :=
  decide_eq_decide.mpr (flag_or hp (k := 0) (by decide))

theorem writable_or {p : U32} (hp : 4096 ∣ p.toNat) (y : U32) :
    writable (p ||| y) = writable y :=
  decide_eq_decide.mpr (flag_or hp (k := 1) (by decide))

theorem copyOnWrite_or {p : U32} (hp : 4096 ∣ p.toNat) (y : U32) :
    copyOnWrite (p ||| y) = copyOnWrite y :=
  decide_eq_decide.mpr (flag_or hp (k := 9) (by decide))

theorem dirIndex_eq (a : U32) : dirIndex a = a.toNat / 2 ^ 22 := by
  rw [dirIndex, BitVec.toNat_ushiftRight, Nat.shiftRight_eq_div_pow]

theorem tableIndex_eq (a : U32) : tableIndex a = a.toNat / 4096 % 1024 := by
  rw [tableIndex, show 0x03FF#32 = lowMask 32 10 from rfl, toNat_and_lowMask _ (by decide),
    BitVec.toNat_ushiftRight, Nat.shiftRight_eq_div_pow]
  rfl

theorem dirIndex_lt (a : U32) : dirIndex a < 1024 := by
  have := a.isLt
  rw [dirIndex_eq]
  omega

theorem tableIndex_lt (a : U32) : tableIndex a < 1024 := by
  rw [tableIndex_eq]
  exact Nat.mod_lt _ (by decide)

end MesaOS.Memory
