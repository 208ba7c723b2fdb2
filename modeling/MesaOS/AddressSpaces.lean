/-
Frames mapped by live address spaces (`VMM` and the copy-on-write handler over
whole runs).

A run is any sequence of the operations of `VMM` and of page faults, over any
number of address spaces, starting with none.  Physical frames have no reference
count: `VMM::free_page` gives a frame back without a look at the other address
spaces, and after `VMM::clone_address_space` another one may still map it
(`clone_then_free`).  That is the only way things go wrong:

* `step_owns` — every operation keeps `Owns`, if `free_page` is only called on
  pages that no other live address space maps (`LastMapping`);
* `mapped_frames_marked` — so in every run of such calls a mapped frame stays
  marked and is never handed out again.
-/
import MesaOS.VMMOwnership
import MesaOS.Runs

open MachineWord Runs

namespace MesaOS.Memory

open VMM

/-- The machine, and the directories returned by `create_address_space` and
`clone_address_space` and not destroyed yet. -/
structure Spaces where
  machine : Machine
  live : List U32

/-- One operation of a run; `fault` is a page fault taken while `d` is the current
directory. -/
inductive Call where
  | create
  | clone (src : U32)
  | allocatePage (d va : U32) (user rw : Bool)
  | freePage (d va : U32)
  | destroy (d : U32)
  | fault (d va errCode : U32)

/-- A new directory, unless it is the null pointer. -/
def addSpace (live : List U32) (d : U32) : List U32 := if d = 0#32 then live else d :: live

def Spaces.step (s : Spaces) : Call → Option Spaces
  | .create =>
    let (m, d) := createAddressSpace s.machine
    some ⟨m, addSpace s.live d⟩
  | .clone src =>
    let (m, d) := cloneAddressSpace s.machine src
    some ⟨m, addSpace s.live d⟩
  | .allocatePage d va user rw => some ⟨(allocatePage s.machine d va user rw).1, s.live⟩
  | .freePage d va => some ⟨freePage s.machine d va, s.live⟩
  | .destroy d => some ⟨destroyAddressSpace s.machine d, s.live.filter (· ≠ d)⟩
  | .fault d va errCode => (pageFault s.machine d va errCode).map fun m => ⟨m, s.live⟩

/-- Operations are on live address spaces, and on page-aligned addresses in user space. -/
def Call.WellFormed (s : Spaces) : Call → Prop
  | .create => True
  | .clone src => src ∈ s.live
  | .allocatePage d va _ _ => d ∈ s.live ∧ 0xC0000000#32 ≤ va ∧ va &&& 0xFFF#32 = 0#32
  | .freePage d va => d ∈ s.live ∧ 0xC0000000#32 ≤ va ∧ va &&& 0xFFF#32 = 0#32
  | .destroy d => d ∈ s.live
  | .fault d va _ => d ∈ s.live ∧ 0xC0000000#32 ≤ va

instance (s : Spaces) : ∀ c : Call, Decidable (c.WellFormed s)
  | .create => isTrue trivial
  | .clone _ => inferInstanceAs (Decidable (_ ∈ _))
  | .allocatePage .. => inferInstanceAs (Decidable (_ ∧ _ ∧ _))
  | .freePage .. => inferInstanceAs (Decidable (_ ∧ _ ∧ _))
  | .destroy _ => inferInstanceAs (Decidable (_ ∈ _))
  | .fault .. => inferInstanceAs (Decidable (_ ∧ _))

/-- The address space `c` maps frame `f` in user space. -/
def Maps (m : Machine) (c : U32) (f : ℕ) : Prop :=
  ∃ i, UserIndex i ∧ ∃ j < 1024, ∃ x, entry m c i j = some x ∧ frame x = f

/-- A page that is freed is not mapped by another live address space. -/
def Call.LastMapping (s : Spaces) : Call → Prop
  | .freePage d va => ∀ x, entry s.machine d (dirIndex va) (tableIndex va) = some x →
      ∀ c ∈ s.live, c ≠ d → ¬ Maps s.machine c (frame x)
  | _ => True

theorem owns_addSpace {m : Machine} {live : List U32} {d : U32} (h0 : d = 0#32 → Owns m live)
    (h : d ≠ 0#32 → Owns m (d :: live)) : Owns m (addSpace live d) := by
  rw [addSpace]
  by_cases hd : d = 0#32
  · rw [if_pos hd]
    exact h0 hd
  · rw [if_neg hd]
    exact h hd

/-- **Each step** keeps every frame in its role. -/
theorem step_owns {s s' : Spaces} {c : Call} (h : Owns s.machine s.live)
    (hok : c.WellFormed s ∧ c.LastMapping s) (hstep : s.step c = some s') :
    Owns s'.machine s'.live := by
  obtain ⟨hwf, hlast⟩ := hok
  cases c with
  | create =>
    rcases hc : createAddressSpace s.machine with ⟨m, d⟩
    simp only [Spaces.step, hc, Option.some_inj] at hstep
    subst hstep
    obtain ⟨-, -, h0, hd⟩ := createAddressSpace_spec h hc
    exact owns_addSpace h0 fun hne => (hd hne).1
  | clone src =>
    rcases hc : cloneAddressSpace s.machine src with ⟨m, d⟩
    simp only [Spaces.step, hc, Option.some_inj] at hstep
    subst hstep
    obtain ⟨-, h0, hd⟩ := cloneAddressSpace_spec h hwf hc
    exact owns_addSpace h0 fun hne => (hd hne).1
  | allocatePage d va user rw =>
    simp only [Spaces.step, Option.some_inj] at hstep
    subst hstep
    obtain ⟨e, hre⟩ := allocatePage_spec h hwf.1 hwf.2.1 rfl
    exact hre.owns
  | freePage d va =>
    simp only [Spaces.step, Option.some_inj] at hstep
    subst hstep
    obtain ⟨e, hre⟩ := freePage_spec h hwf.1 hwf.2.1 hwf.2.2
      fun x hx c hc hne k hk l hl z hz heq => hlast x hx c hc hne ⟨k, hk, l, hl, z, hz, heq⟩
    exact hre.owns
  | destroy d =>
    simp only [Spaces.step, Option.some_inj] at hstep
    subst hstep
    exact (destroyAddressSpace_spec h hwf).1
  | fault d va errCode =>
    obtain ⟨m, hm, rfl⟩ := Option.map_eq_some_iff.mp hstep
    obtain ⟨x, y, -, -, hre, -⟩ := pageFault_spec h hwf.1 hwf.2 hm
    exact hre.owns

/-- Without live address spaces no frame needs a role. -/
theorem owns_nil (m : Machine) : Owns m [] :=
  ⟨fun _ => none, by simp, by simp, by simp, by simp, by simp, by simp⟩

/-- Every frame that a live address space maps in user space is marked, and so is not the
frame that `allocate_block` would hand out next. -/
def MappedFramesMarked (s : Spaces) : Prop :=
  ∀ d ∈ s.live, ∀ f, Maps s.machine d f → s.machine.pmm.marked f = true ∧
    ∀ m' p, s.machine.allocateBlock = (m', p) → p ≠ 0#32 → frame p ≠ f

theorem mappedFramesMarked_of_owns {s : Spaces} (h : Owns s.machine s.live) :
    MappedFramesMarked s := by
  obtain ⟨role, h⟩ := h
  rintro d hd f ⟨i, hi, j, hj, x, hx, rfl⟩
  have hmark : s.machine.pmm.marked (frame x) = true :=
    h.marked _ (by rw [h.page d hd i hi j hj x hx]; simp)
  refine ⟨hmark, fun m' p ha hp heq => ?_⟩
  rw [← heq, (Machine.allocateBlock_spec ha hp).2.1] at hmark
  exact absurd hmark (by simp)

/-- **Mapped frames stay marked**, in every run whose calls of `free_page` give back
pages that no other live address space maps. -/
theorem mapped_frames_marked (m : Machine) (calls : List Call)
    (hok : Guarded Spaces.step (fun s c => c.WellFormed s ∧ c.LastMapping s) ⟨m, []⟩ calls)
    (s : Spaces) (hrun : run Spaces.step ⟨m, []⟩ calls = some s) : MappedFramesMarked s :=
  mappedFramesMarked_of_owns
    (run_invariant (P := fun s : Spaces => Owns s.machine s.live)
      (fun _ _ _ h hok hstep => step_owns h hok hstep) (owns_nil m) hok hrun)

/-! ### A clone and a free -/

/-- The machine after `Paging::initialize` when the blocks from 1 on are free: the kernel
directory in frame 1, the tables of the identity map in frames 2 to 17. -/
def identityMapped : Machine where
  pmm :=
    { bitmap := 0x200000, words := fun i => if i = 0 then 0x3FFFF else 0, maxBlocks := 128
      usedBlocks := 18, maxBlocks_lt := PMM.toNat_128_lt }
  mem := fun n =>
    if n / 1024 = 1 then
      if n % 1024 < 16 then BitVec.ofNat 32 ((n % 1024 + 2) * 4096 + 3) else 0
    else if 2 ≤ n / 1024 ∧ n / 1024 < 18 then BitVec.ofNat 32 ((n - 2048) * 4096 + 3)
    else 0
  pageDirectory := 0x1000
  kernelDirectory := 0x1000

theorem create_live :
    (Spaces.step ⟨identityMapped, []⟩ .create).map (·.live) = some [0x12000] := by
  decide +kernel

/-- After the first address space has been created, no call but `destroy` removes it. -/
theorem live_of_create {s t : Spaces} (hs : Spaces.step ⟨identityMapped, []⟩ .create = some s)
    (ht : s.step (.allocatePage 0x12000 0xC0000000 true true) = some t) :
    s.live = [0x12000] ∧ t.live = [0x12000] := by
  have hlive := create_live
  rw [hs, Option.map_some, Option.some_inj] at hlive
  simp only [Spaces.step, Option.some_inj] at ht
  subst ht
  exact ⟨hlive, hlive⟩

/-- A process gets a page, and frees it before anyone else has it. -/
def allocateThenFree : List Call :=
  [.create, .allocatePage 0x12000 0xC0000000 true true, .freePage 0x12000 0xC0000000]

theorem mapped_frames_marked_allocateThenFree :
    ∃ s, run Spaces.step ⟨identityMapped, []⟩ allocateThenFree = some s ∧
      MappedFramesMarked s := by
  obtain ⟨s, hrun⟩ : ∃ s, run Spaces.step ⟨identityMapped, []⟩ allocateThenFree = some s :=
    ⟨_, rfl⟩
  refine ⟨s, hrun, mapped_frames_marked identityMapped allocateThenFree ?_ s hrun⟩
  refine ⟨⟨trivial, trivial⟩, fun s₁ h₁ => ⟨⟨?_, trivial⟩, fun s₂ h₂ => ⟨⟨?_, ?_⟩,
    fun _ _ => trivial⟩⟩⟩
  · have hlive := create_live
    rw [h₁, Option.map_some, Option.some_inj] at hlive
    exact ⟨by simp [hlive], by decide, by decide⟩
  · exact ⟨by simp [(live_of_create h₁ h₂).2], by decide, by decide⟩
  · intro x _ c hc hne
    rw [(live_of_create h₁ h₂).2] at hc
    exact absurd (List.mem_singleton.mp hc) hne

/-- A process gets a page and is cloned, and its page is freed. -/
def cloneThenFree : List Call :=
  [.create, .allocatePage 0x12000 0xC0000000 true true, .clone 0x12000,
    .freePage 0x12000 0xC0000000]

theorem wellFormed_cloneThenFree :
    Guarded Spaces.step (fun s c => c.WellFormed s) ⟨identityMapped, []⟩ cloneThenFree := by
  refine ⟨trivial, fun s₁ h₁ => ⟨?_, fun s₂ h₂ => ⟨?_, fun s₃ h₃ => ⟨?_, fun _ _ => trivial⟩⟩⟩⟩
  · have hlive := create_live
    rw [h₁, Option.map_some, Option.some_inj] at hlive
    exact ⟨by simp [hlive], by decide, by decide⟩
  · show 0x12000#32 ∈ s₂.live
    simp [(live_of_create h₁ h₂).2]
  · refine ⟨?_, by decide, by decide⟩
    simp only [Spaces.step, Option.some_inj] at h₃
    subst h₃
    rw [addSpace]
    split <;> simp [(live_of_create h₁ h₂).2]

set_option maxRecDepth 100000 in
/-- The clone still maps the frame that was freed. -/
theorem clone_then_free :
    ¬ ∀ m calls, Guarded Spaces.step (fun s c => c.WellFormed s) ⟨m, []⟩ calls →
      ∀ s, run Spaces.step ⟨m, []⟩ calls = some s → MappedFramesMarked s := by
  intro h
  have hrun : (run Spaces.step ⟨identityMapped, []⟩ cloneThenFree).map
      (fun s => (decide (0x25000 ∈ s.live), entry s.machine 0x25000 768 0,
        s.machine.pmm.marked 35)) = some (true, some 0x23205, false) := by
    decide +kernel
  obtain ⟨s, hs, hval⟩ := Option.map_eq_some_iff.mp hrun
  simp only [Prod.mk.injEq, decide_eq_true_eq] at hval
  obtain ⟨hlive, hentry, hfree⟩ := hval
  have hmaps : Maps s.machine 0x25000 35 :=
    ⟨768, ⟨le_refl _, by decide⟩, 0, by decide, _, hentry, by decide⟩
  have hmark := (h _ _ wellFormed_cloneThenFree s hs _ hlive 35 hmaps).1
  rw [hfree] at hmark
  exact absurd hmark (by simp)

end MesaOS.Memory
