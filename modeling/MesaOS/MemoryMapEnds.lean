/-
That `PMM::load_memory_map` ends, whatever the memory holds.

The map may lie where the bitmap does, and then freeing a block changes entries that are still
to be read.  So the memory is a function of the state here.

* `pageLoop_ends` — the page loop takes no more than `2 ^ 20` turns, as the offset cannot pass the
  last page below `2 ^ 32`;
* `walkLive_ends` — the walk takes no more than `2 ^ 32`, as the address goes up in each;
* `loadMemoryMap_ends` — both, and the whole call.
-/
import MesaOS.MemoryMap

open MachineWord Runs

namespace MesaOS.Memory

/-- The page loop over one region. -/
def pageLoop (addr len : U32) : ℕ → U32 × PMM → Option (U32 × PMM) :=
  whileLoop
    (fun st => decide (st.1 < len) && decide (addr + st.1 < 0xFFFFFFFF#32 - blockSize))
    fun st => some (st.1 + blockSize, st.2.freeBlock (addr + st.1))

/-- The walk over a map in memory that depends on the state; the size of an entry is read behind
its page loop. -/
def walkLive (mem : PMM → U32 → U8) (endAddr : U32) :
    ℕ → U32 × PMM × Bool → Option (U32 × PMM × Bool) :=
  whileLoop
    (fun st => !st.2.2 && decide (st.1 + 24 ≤ endAddr))
    (fun st => do
      let s ← loadEntry (mmapEntryAt (mem st.2.1) st.1) st.2.1
      let nextAddr := st.1 + (mmapEntryAt (mem s) st.1).size + 4
      if nextAddr ≤ st.1 then some (st.1, s, true) else some (nextAddr, s, false))

/-- `PMM::load_memory_map` on such a memory. -/
def loadMemoryMapLive (mem : PMM → U32 → U8) (mbt : MultibootInfo) (s : PMM) : Option PMM :=
  if mbt.mmapAddr = 0#32 ∨ mbt.mmapLength = 0#32 then some s
  else
    (walkLive mem (mbt.mmapAddr + mbt.mmapLength) loopFuel (mbt.mmapAddr, s, false)).map
      fun st => st.2.1.setBlock 0

/-- Where the map lies apart from the bitmap, the memory stays the same. -/
theorem loadMemoryMapLive_const (mem : U32 → U8) (mbt : MultibootInfo) (s : PMM) :
    loadMemoryMapLive (fun _ => mem) mbt s = loadMemoryMap mem mbt s := rfl

theorem freeRegion_eq (addr len : U32) (s : PMM) :
    freeRegion addr len s = (pageLoop addr len loopFuel (0#32, s)).map Prod.snd := rfl

/-- **The page loop ends.**  The offset is a whole number of pages and does not wrap. -/
theorem pageLoop_ends (addr len : U32) (s : PMM) :
    ∃ st, pageLoop addr len (2 ^ 20 + 1) (0#32, s) = some st := by
  obtain ⟨st, hloop, -, -⟩ :=
    whileLoop_spec
      (fun st : U32 × PMM =>
        decide (st.1 < len) && decide (addr + st.1 < 0xFFFFFFFF#32 - blockSize))
      (fun st => some (st.1 + blockSize, st.2.freeBlock (addr + st.1)))
      (RegionInv addr len s) (fun st => 2 ^ 20 - st.1.toNat / 4096)
      (fun st hst hcond => by
        rw [Bool.and_eq_true, decide_eq_true_eq, decide_eq_true_eq] at hcond
        obtain ⟨hinv, hnext⟩ := regionInv_step hst hcond.1 hcond.2
        refine ⟨_, rfl, hinv, ?_⟩
        have hlt := st.1.isLt
        show 2 ^ 20 - (st.1 + blockSize).toNat / 4096 < _
        omega)
      (2 ^ 20 + 1) (regionInv_init addr len s) (by omega)
  exact ⟨st, hloop⟩

theorem freeRegion_ends (addr len : U32) (s : PMM) : ∃ t, freeRegion addr len s = some t := by
  obtain ⟨st, hst⟩ := pageLoop_ends addr len s
  have hmore : pageLoop addr len loopFuel (0#32, s) = some st := whileLoop_more hst (by decide)
  exact ⟨st.2, by rw [freeRegion_eq, hmore, Option.map_some]⟩

theorem loadEntry_ends (e : MultibootMmapEntry) (s : PMM) : ∃ t, loadEntry e s = some t := by
  rw [loadEntry]
  split
  · exact freeRegion_ends e.addrLow e.lenLow s
  · exact ⟨s, rfl⟩

/-- **The walk ends**: an address that does not go up is the last one. -/
theorem walkLive_ends (mem : PMM → U32 → U8) (endAddr a : U32) (s : PMM) :
    ∃ st, walkLive mem endAddr (2 ^ 32 + 1) (a, s, false) = some st := by
  obtain ⟨st, hloop, -, -⟩ :=
    whileLoop_spec
      (fun st : U32 × PMM × Bool => !st.2.2 && decide (st.1 + 24 ≤ endAddr))
      (fun st => do
        let s ← loadEntry (mmapEntryAt (mem st.2.1) st.1) st.2.1
        let nextAddr := st.1 + (mmapEntryAt (mem s) st.1).size + 4
        if nextAddr ≤ st.1 then some (st.1, s, true) else some (nextAddr, s, false))
      (fun _ => True) (fun st => if st.2.2 then 0 else 2 ^ 32 - st.1.toNat)
      (fun st _ hcond => by
        obtain ⟨a, t, stopped⟩ := st
        rw [Bool.and_eq_true, Bool.not_eq_true'] at hcond
        obtain ⟨hgo, -⟩ := hcond
        subst hgo
        obtain ⟨u, hu⟩ := loadEntry_ends (mmapEntryAt (mem t) a) t
        have hlt := a.isLt
        simp only [hu, Option.bind_eq_bind, Option.bind_some, Bool.false_eq_true, if_false]
        by_cases hnext : a + (mmapEntryAt (mem u) a).size + 4 ≤ a
        · -- the address wraps or stays, and the walk stops
          rw [if_pos hnext]
          refine ⟨_, rfl, trivial, ?_⟩
          show 0 < 2 ^ 32 - a.toNat
          omega
        · rw [if_neg hnext]
          refine ⟨_, rfl, trivial, ?_⟩
          rw [BitVec.not_le, BitVec.lt_def] at hnext
          show 2 ^ 32 - (a + (mmapEntryAt (mem u) a).size + 4).toNat < 2 ^ 32 - a.toNat
          omega)
      (2 ^ 32 + 1) (s := (a, s, false)) trivial (by
        show 2 ^ 32 - a.toNat < 2 ^ 32 + 1
        omega)
  exact ⟨st, hloop⟩

/-- **Loading a memory map ends**: its page loops, its walk and the call. -/
theorem loadMemoryMap_ends (mem : PMM → U32 → U8) (mbt : MultibootInfo) (s : PMM) :
    (∀ addr len t, ∃ st, pageLoop addr len (2 ^ 20 + 1) (0#32, t) = some st) ∧
      (∃ st, walkLive mem (mbt.mmapAddr + mbt.mmapLength) (2 ^ 32 + 1)
        (mbt.mmapAddr, s, false) = some st) ∧
      ∃ t, loadMemoryMapLive mem mbt s = some t := by
  obtain ⟨st, hst⟩ := walkLive_ends mem (mbt.mmapAddr + mbt.mmapLength) mbt.mmapAddr s
  refine ⟨pageLoop_ends, ⟨st, hst⟩, ?_⟩
  have hmore : walkLive mem (mbt.mmapAddr + mbt.mmapLength) loopFuel (mbt.mmapAddr, s, false) =
      some st := whileLoop_more hst (by decide)
  rw [loadMemoryMapLive]
  split
  · exact ⟨s, rfl⟩
  · exact ⟨_, by rw [hmore, Option.map_some]⟩

end MesaOS.Memory
