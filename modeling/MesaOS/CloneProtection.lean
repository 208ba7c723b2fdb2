/-
Write protection of a cloned address space (`VMM::clone_address_space` and the
copy-on-write branch of `isr_handler`).

The clone takes the write bit from every page of the source and marks the page
copy on write.  The handler goes by that mark alone: it gives the faulting page
back writable, also when the source had it read-only.

* `pageFault_entry` — what a handled fault does to the tables of one address space;
* `kept_clone` — the clone's tables are the source's, with every page still marked;
* `protected_iff_spares` — a page that the source maps read-only is never writable in
  the clone, exactly in the runs of faults that spare such pages.
-/
import MesaOS.AddressSpaces
import MesaOS.FreshSpaces

open MachineWord Runs

namespace MesaOS.Memory

open VMM

/-- A handled fault clears the mark of the page. -/
theorem copyOnWrite_faultFlags {p : U32} (hp : 4096 ∣ p.toNat) (x : U32) :
    copyOnWrite (p ||| (pageFlags x &&& ~~~(1#32 <<< 9)) ||| 0x2#32) = false := by
  rw [BitVec.or_assoc, copyOnWrite_or hp]
  refine decide_eq_false ?_
  rw [← BitVec.twoPow_eq, and_twoPow_ne_zero_iff _ (by decide), BitVec.getLsbD_or,
    BitVec.getLsbD_and]
  simp

theorem copyOnWrite_pageFlags (x : U32) : copyOnWrite (pageFlags x) = copyOnWrite x := by
  refine decide_eq_decide.mpr ?_
  rw [← BitVec.twoPow_eq, and_twoPow_ne_zero_iff _ (by decide),
    and_twoPow_ne_zero_iff _ (by decide), getLsbD_pageFlags x (by decide)]

/-- **A handled fault** is on a marked page; it leaves the page writable and without the mark,
and changes nothing else in the tables. -/
theorem pageFault_entry {m m' : Machine} {d va errCode : U32} (hsep : Separated m d)
    (hheld : Held m d) (hf : pageFault m d va errCode = some m') :
    ∃ x y, entry m d (dirIndex va) (tableIndex va) = some x ∧ copyOnWrite x = true ∧
      writable y = true ∧ copyOnWrite y = false ∧ Separated m' d ∧ Held m' d ∧
      (∀ k < 1024, pde m' d k = pde m d k) ∧
      ∀ k < 1024, ∀ l < 1024, entry m' d k l =
        if k = dirIndex va ∧ l = tableIndex va then some y else entry m d k l := by
  have hi := dirIndex_lt va
  have hj := tableIndex_lt va
  obtain ⟨hp, hpte, hcow, m₁, p, ha, hp0, rfl⟩ := pageFault_cases hf
  rw [m.word_eq_cell hsep.aligned, ← pde] at hp hpte hcow ⊢
  generalize dirIndex va = i at hi hp hpte hcow ⊢
  generalize tableIndex va = j at hj hpte hcow ⊢
  rw [m.word_eq_cell (dvd_pageBase _), frame_pageBase] at hpte hcow ⊢
  generalize hx : m.cell (frame (pde m d i)) j = x at hpte hcow ⊢
  obtain ⟨hal, hfree, hmem, -, hmark⟩ := Machine.allocateBlock_spec ha hp0
  obtain ⟨-, hpres, hwrite⟩ := faultFlags_spec (x := x) hal hpte
  have hclear := copyOnWrite_faultFlags hal x
  generalize p ||| (pageFlags x &&& ~~~(1#32 <<< 9)) ||| 0x2#32 = y at hpres hwrite hclear ⊢
  -- the copy of the page goes to a block apart from the tables
  have hother : ∀ f, f ≠ frame p → ∀ l < 1024,
      (m₁.copyPage p (pageBase x)).cell f l = m.cell f l := by
    intro f hf l hl
    rw [Machine.cell_copyPage _ hal (dvd_pageBase _) f hl, if_neg hf, Machine.cell, Machine.cell,
      hmem]
  obtain ⟨hsep₁, hpde₁, hentry₁⟩ := separated_of_apart hsep (hheld.apart hfree) hother
  have hmarks : ∀ f, m.pmm.marked f = true → (m₁.copyPage p (pageBase x)).pmm.marked f = true := by
    intro f hf
    rw [Machine.copyPage_pmm, hmark, hf, Bool.true_or]
  generalize m₁.copyPage p (pageBase x) = m₂ at hsep₁ hpde₁ hentry₁ hmarks ⊢
  rw [← hpde₁ i hi] at hp ⊢
  obtain ⟨hsep₂, hpde₂, hentry₂⟩ := setEntry_spec hsep₁ hi hj hp y
  have hpdes : ∀ k < 1024, pde (m₂.setWord (pageBase (pde m₂ d i)) j y) d k = pde m d k :=
    fun k hk => (hpde₂ k hk).trans (hpde₁ k hk)
  refine ⟨x, y, ?_, copyOnWrite_pageFlags x ▸ hcow, hwrite, hclear, hsep₂,
    hheld.of_pdes hmarks fun k hk _ => Or.inl (hpdes k hk), hpdes, fun k hk l hl => ?_⟩
  · rw [entry_eq, hx]
    rw [hpde₁ i hi] at hp
    simp [hp, hpte]
  · rw [hentry₂ k hk l hl, if_pos hpres, hentry₁ k hk l hl]

/-! ### The clone -/

/-- A page fault in the clone. -/
structure Fault where
  address : U32
  errCode : U32

/-- The fault, when the handler gets to the end of its copy-on-write branch. -/
def faultStep (clone : U32) (m : Machine) (f : Fault) : Option Machine :=
  pageFault m clone f.address f.errCode

/-- The two levels together grant no write access to the page. -/
def ReadOnly (m : Machine) (d : U32) (i j : ℕ) : Prop :=
  ∃ x, entry m d i j = some x ∧ (writable (pde m d i) && writable x) = false

def Writable (m : Machine) (d : U32) (i j : ℕ) : Prop :=
  ∃ x, entry m d i j = some x ∧ (writable (pde m d i) && writable x) = true

/-- A user page that `src` had read-only is not writable in the clone. -/
def Protected (m₀ : Machine) (src clone : U32) (m : Machine) : Prop :=
  ∀ i, UserIndex i → ∀ j < 1024, ReadOnly m₀ src i j → ¬ Writable m clone i j

/-- The fault is not on a user page that only its own entry makes read-only in `src`. -/
def Fault.Spares (m₀ : Machine) (src : U32) (f : Fault) : Prop :=
  0xC0000000#32 ≤ f.address →
    ∀ x, entry m₀ src (dirIndex f.address) (tableIndex f.address) = some x →
      writable (pde m₀ src (dirIndex f.address)) = true → writable x = true

/-- What faults keep: each user page of the clone is still that of the source, read-only and
marked, or has become writable and lost the mark. -/
structure KeptClone (m₀ : Machine) (src clone : U32) (m : Machine) : Prop where
  separated : Separated m clone
  held : Held m clone
  write : ∀ i, UserIndex i → present (pde m₀ src i) = true →
    writable (pde m clone i) = writable (pde m₀ src i)
  pages : ∀ i, UserIndex i → ∀ j < 1024, ∀ y, entry m clone i j = some y →
    ∃ x, entry m₀ src i j = some x ∧
      (y = cowEntry x ∨ writable y = true ∧ copyOnWrite y = false)

section Faults

variable {m₀ m m' : Machine} {src clone : U32}

theorem present_of_entry {d : U32} {i j : ℕ} {x : U32} (h : entry m d i j = some x) :
    present (pde m d i) = true :=
  ((entry_eq_some_iff m d i j x).mp h).1

/-- The page of the fault is writable afterwards, and was not before. -/
theorem keptClone_step {f : Fault} (h : KeptClone m₀ src clone m)
    (hstep : faultStep clone m f = some m') :
    KeptClone m₀ src clone m' ∧
      (Protected m₀ src clone m' ↔ Protected m₀ src clone m ∧ f.Spares m₀ src) := by
  obtain ⟨y, z, hy, hcow, hwrite, hclear, hsep, hheld, hpde, hentry⟩ :=
    pageFault_entry h.separated h.held hstep
  have hj := tableIndex_lt f.address
  have hother : ∀ i, UserIndex i → ∀ j < 1024,
      ¬ (i = dirIndex f.address ∧ j = tableIndex f.address) →
        (Writable m' clone i j ↔ Writable m clone i j) := by
    intro i hi j hj hne
    rw [Writable, Writable, hentry i hi.lt j hj, if_neg hne, hpde i hi.lt]
  refine ⟨⟨hsep, hheld, fun i hi hp => ?_, fun i hi j hj w hw => ?_⟩, ?_⟩
  · rw [hpde i hi.lt]
    exact h.write i hi hp
  · rw [hentry i hi.lt j hj] at hw
    by_cases hij : i = dirIndex f.address ∧ j = tableIndex f.address
    · obtain ⟨rfl, rfl⟩ := hij
      rw [if_pos ⟨rfl, rfl⟩, Option.some_inj] at hw
      obtain ⟨x, hx, -⟩ := h.pages _ hi _ hj y hy
      exact ⟨x, hx, Or.inr ⟨hw ▸ hwrite, hw ▸ hclear⟩⟩
    · rw [if_neg hij] at hw
      exact h.pages i hi j hj w hw
  by_cases huser : 0xC0000000#32 ≤ f.address
  swap
  · -- a fault in the kernel half concerns no user page
    have hne : ∀ i, UserIndex i → ∀ j, ¬ (i = dirIndex f.address ∧ j = tableIndex f.address) := by
      rintro i hi j ⟨rfl, -⟩
      have hle := hi.1
      rw [dirIndex_eq] at hle
      exact huser (BitVec.le_def.mpr (show 768 * 2 ^ 22 ≤ f.address.toNat by
        rw [kernelSpaceEntries] at hle
        omega))
    have hspares : f.Spares m₀ src := fun hu => absurd hu huser
    rw [and_iff_left hspares]
    refine forall₂_congr fun i hi => forall₂_congr fun j hj => imp_congr_right fun _ => ?_
    exact not_congr (hother i hi j hj (hne i hi j))
  have hi := userIndex_dirIndex huser
  obtain ⟨x, hx, hyx⟩ := h.pages _ hi _ hj y hy
  -- the page was still marked, so it is the source's
  have hyx : y = cowEntry x := by
    rcases hyx with hyx | ⟨-, hno⟩
    · exact hyx
    · rw [hcow] at hno
      exact absurd hno (by simp)
  have hpw := h.write _ hi (present_of_entry hx)
  have hbefore : ¬ Writable m clone (dirIndex f.address) (tableIndex f.address) := by
    rintro ⟨w, hw, hww⟩
    rw [hy, Option.some_inj] at hw
    rw [← hw, hyx, writable_cowEntry, Bool.and_false] at hww
    exact absurd hww (by simp)
  have hafter : Writable m' clone (dirIndex f.address) (tableIndex f.address) ↔
      writable (pde m₀ src (dirIndex f.address)) = true := by
    rw [Writable, hentry _ hi.lt _ hj, if_pos ⟨rfl, rfl⟩, hpde _ hi.lt, hpw]
    constructor
    · rintro ⟨w, -, hw⟩
      exact (Bool.and_eq_true_iff.mp hw).1
    · intro hw
      exact ⟨z, rfl, by rw [hw, hwrite]; rfl⟩
  constructor
  · intro hP
    refine ⟨fun i hi' j hj' hro => ?_, fun _ w hw hpd => ?_⟩
    · by_cases hij : i = dirIndex f.address ∧ j = tableIndex f.address
      · rw [hij.1, hij.2]
        exact hbefore
      · rw [← hother i hi' j hj' hij]
        exact hP i hi' j hj' hro
    · by_contra hro
      rw [Bool.not_eq_true] at hro
      exact hP _ hi _ hj ⟨w, hw, by rw [hro, Bool.and_false]⟩ (hafter.mpr hpd)
  · rintro ⟨hP, hspares⟩ i hi' j hj' hro
    by_cases hij : i = dirIndex f.address ∧ j = tableIndex f.address
    · obtain ⟨rfl, rfl⟩ := hij
      obtain ⟨w, hw, hww⟩ := hro
      rw [hafter]
      intro hpd
      rw [hpd, hspares huser w hw hpd] at hww
      exact absurd hww (by simp)
    · rw [hother i hi' j hj' hij]
      exact hP i hi' j hj' hro

end Faults

/-- Every page of a new clone is marked. -/
theorem kept_clone {m m₁ : Machine} {src clone : U32} (hkern : KernelInUse m)
    (hsal : 4096 ∣ src.toNat) (hsrc : Held m src) (hc : cloneAddressSpace m src = (m₁, clone))
    (hne : clone ≠ 0#32) : KeptClone m src clone m₁ ∧ Protected m src clone m₁ := by
  -- a call that returns a directory got past its checks
  have hchecks : ¬ (src = 0#32 ∨ src = m.kernelDirectory) := by
    intro h
    rw [cloneAddressSpace, if_pos h, Prod.mk.injEq] at hc
    exact hne hc.2.symm
  have hfailed : (createAddressSpace m).2 ≠ 0#32 := by
    intro h
    rw [cloneAddressSpace, if_neg hchecks] at hc
    simp only [h, if_true, Prod.mk.injEq] at hc
    exact hne hc.2.symm
  rw [not_or] at hchecks
  obtain ⟨hdone, -, -⟩ := cloneAddressSpace_building hkern (kernelDirectory_of_created hfailed) hsal
    hsrc hchecks.1 hchecks.2 (nullReserved_of_created hfailed) hc
  obtain ⟨hb, hregion⟩ := hdone hne
  have hpages : ∀ i, UserIndex i → ∀ j < 1024, ∀ y, entry m₁ clone i j = some y →
      ∃ x, entry m src i j = some x ∧ y = cowEntry x := by
    intro i hi j hj y hy
    rw [(hregion i hi).entries j hj] at hy
    obtain ⟨x, hx, heq⟩ := Option.map_eq_some_iff.mp hy
    exact ⟨x, hx, heq.symm⟩
  refine ⟨⟨hb.separated, hb.held, fun i hi => (hregion i hi).write, fun i hi j hj y hy => ?_⟩,
    fun i hi j hj _ => ?_⟩
  · obtain ⟨x, hx, heq⟩ := hpages i hi j hj y hy
    exact ⟨x, hx, Or.inl heq⟩
  · rintro ⟨y, hy, hwrite⟩
    obtain ⟨x, -, rfl⟩ := hpages i hi j hj y hy
    rw [writable_cowEntry, Bool.and_false] at hwrite
    exact absurd hwrite (by simp)

/-- **When read-only pages stay read-only.**  For every address space and its clone and every
run of faults that the handler resolves: the pages that the source maps without write
permission are not writable in the clone, exactly if no fault was on one of those whose
directory entry allows writing. -/
theorem protected_iff_spares (m : Machine) (src : U32) (hkern : KernelInUse m)
    (hsal : 4096 ∣ src.toNat) (hsrc : Held m src) (m₁ : Machine) (clone : U32)
    (hc : cloneAddressSpace m src = (m₁, clone)) (hne : clone ≠ 0#32) (faults : List Fault)
    (m₂ : Machine) (hrun : run (faultStep clone) m₁ faults = some m₂) :
    Protected m src clone m₂ ↔ ∀ f ∈ faults, f.Spares m src := by
  obtain ⟨hkept, hP⟩ := kept_clone hkern hsal hsrc hc hne
  have hiff : Protected m src clone m₂ ↔ Protected m src clone m₁ ∧
      Guarded (faultStep clone) (fun _ f => f.Spares m src) m₁ faults :=
    run_iff_guarded (I := KeptClone m src clone)
      (fun _ _ _ h _ hstep => (keptClone_step h hstep).1)
      (fun _ _ _ h _ hstep => (keptClone_step h hstep).2) hkept (guarded_true _ _ _) hrun
  rw [hiff, and_iff_right hP, guarded_iff_forall_mem hrun]

/-! ### A read-only page -/

/-- A process with a writable page, and a read-only one after it. -/
def readOnlySecond : Machine :=
  let m := (createAddressSpace identityMapped).1
  let m := (allocatePage m 0x12000 0xC0000000 true true).1
  (allocatePage m 0x12000 0xC0001000 true false).1

theorem kernelInUse_readOnlySecond : KernelInUse readOnlySecond := by decide +kernel

theorem held_readOnlySecond : Held readOnlySecond 0x12000 := by
  rcases hc : createAddressSpace identityMapped with ⟨m, d⟩
  have hd : d = 0x12000 := by
    have hlive := create_live
    simp only [Spaces.step, hc, Option.map_some, Option.some_inj, addSpace] at hlive
    split at hlive
    · exact absurd hlive (by simp)
    · exact List.singleton_inj.mp hlive
  obtain ⟨hmade, -⟩ :=
    createAddressSpace_building (by decide +kernel) (by decide) (by decide +kernel) hc
  obtain ⟨hb, -⟩ := hmade (by rw [hd]; decide)
  subst hd
  obtain ⟨h₁, hheld₁⟩ := allocatePage_held hb.separated hb.held 0xC0000000 true true
  rw [readOnlySecond, hc]
  exact (allocatePage_held h₁ hheld₁ 0xC0001000 true false).2

set_option maxRecDepth 100000 in
/-- The process is cloned, and the clone writes to both pages: what the source has at them, and
the second one in the clone. -/
theorem faults_readOnlySecond :
    (run (faultStep 0x26000) (cloneAddressSpace readOnlySecond 0x12000).1
      [⟨0xC0000000, 7⟩, ⟨0xC0001000, 7⟩]).map (fun m =>
        ((cloneAddressSpace readOnlySecond 0x12000).2, entry readOnlySecond 0x12000 768 0,
          entry readOnlySecond 0x12000 768 1, pde m 0x26000 768, entry m 0x26000 768 1)) =
      some (0x26000, some 0x23007, some 0x25005, 0x37007, some 0x39007) := by
  decide +kernel

/-- A fault on the writable page is resolved, and the other page stays read-only. -/
theorem protected_iff_spares_writablePage :
    ∃ m₂, run (faultStep 0x26000) (cloneAddressSpace readOnlySecond 0x12000).1
        [⟨0xC0000000, 7⟩] = some m₂ ∧
      Protected readOnlySecond 0x12000 0x26000 m₂ := by
  obtain ⟨m₃, hm₃, hval⟩ := Option.map_eq_some_iff.mp faults_readOnlySecond
  rcases hc : cloneAddressSpace readOnlySecond 0x12000 with ⟨m₁, clone⟩
  rw [hc] at hm₃ hval
  rw [show [Fault.mk 0xC0000000 7, Fault.mk 0xC0001000 7] =
    [Fault.mk 0xC0000000 7] ++ [Fault.mk 0xC0001000 7] from rfl, run_append] at hm₃
  obtain ⟨m₂, hm₂, -⟩ := Option.bind_eq_some_iff.mp hm₃
  simp only [Prod.mk.injEq] at hval
  obtain ⟨rfl, hfirst, -⟩ := hval
  refine ⟨m₂, hm₂, (protected_iff_spares readOnlySecond 0x12000 kernelInUse_readOnlySecond
    (by decide) held_readOnlySecond m₁ 0x26000 hc (by decide) [⟨0xC0000000, 7⟩] m₂ hm₂).mpr
      fun f hf => ?_⟩
  rw [List.mem_singleton.mp hf]
  intro _ x hx _
  rw [show dirIndex 0xC0000000 = 768 from rfl, show tableIndex 0xC0000000 = 0 from rfl,
    hfirst, Option.some_inj] at hx
  rw [← hx]
  decide

/-- After a write to it, the read-only page is writable in the clone. -/
theorem readOnlySecond_not_protected :
    ¬ ∀ m src, KernelInUse m → 4096 ∣ src.toNat → Held m src → ∀ m₁ clone,
      cloneAddressSpace m src = (m₁, clone) → clone ≠ 0#32 → ∀ faults m₂,
        run (faultStep clone) m₁ faults = some m₂ → Protected m src clone m₂ := by
  intro h
  obtain ⟨m₂, hm₂, hval⟩ := Option.map_eq_some_iff.mp faults_readOnlySecond
  rcases hc : cloneAddressSpace readOnlySecond 0x12000 with ⟨m₁, clone⟩
  rw [hc] at hm₂ hval
  simp only [Prod.mk.injEq] at hval
  obtain ⟨rfl, -, hsecond, hpde, hentry⟩ := hval
  have hP := h readOnlySecond 0x12000 kernelInUse_readOnlySecond (by decide) held_readOnlySecond
    m₁ 0x26000 hc (by decide) _ m₂ hm₂
  refine hP 768 ⟨le_refl _, by decide⟩ 1 (by decide) ⟨_, hsecond, ?_⟩ ⟨_, hentry, ?_⟩
  · rw [show writable 0x25005 = false by decide, Bool.and_false]
  · rw [hpde]
    decide

end MesaOS.Memory
