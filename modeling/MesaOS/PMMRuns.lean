/-
Runs of the physical memory manager (`memory/pmm.cpp`).

* `counted_of_run` — the counter `used_blocks` is the number of marked blocks in
  every state that the calls of the interface lead to, whatever their arguments,
  and a call that is rejected or finds its work done changes nothing;
* `allocatesLowest_of_run` — when a call finds the lowest free block, and when it
  misses what is free;
* `sound_of_run` — the blocks that are out are distinct, aligned, inside the
  memory and marked, and a block is handed out again only after it has been
  given back.

The runs follow from what one call does: `counted_step` and `tracked_step`.
-/
import MesaOS.MemoryMap
import MesaOS.Ledger

open MachineWord Runs Ledger

namespace MesaOS.Memory

namespace PMM

/-- A call of the interface, after `initialize`. -/
inductive Call where
  | setBlock (bit : U32)
  | unsetBlock (bit : U32)
  | allocateBlock
  | freeBlock (addr : U32)
  | loadMemoryMap (mem : U32 → U8) (mbt : MultibootInfo)

def step (s : PMM) : Call → Option PMM
  | .setBlock bit => some (s.setBlock bit)
  | .unsetBlock bit => some (s.unsetBlock bit)
  | .allocateBlock => some s.allocateBlock.1
  | .freeBlock addr => some (s.freeBlock addr)
  | .loadMemoryMap mem mbt => Memory.loadMemoryMap mem mbt s

/-- The call is rejected, or there is nothing left to do for it. -/
def Call.Idle (s : PMM) : Call → Prop
  | .setBlock bit => s.bitmap = 0#32 ∨ s.maxBlocks ≤ bit ∨ s.marked bit.toNat = true
  | .unsetBlock bit => s.bitmap = 0#32 ∨ s.maxBlocks ≤ bit ∨ s.marked bit.toNat = false
  | .allocateBlock => s.bitmap = 0#32 ∨ ∀ b < s.scanned, s.marked b = true
  | .freeBlock addr => addr = 0#32 ∨ s.bitmap = 0#32 ∨ addr % blockSize ≠ 0#32 ∨
      s.maxBlocks ≤ addr / blockSize ∨ s.marked (addr / blockSize).toNat = false
  | .loadMemoryMap mem mbt => mbt.mmapAddr = 0#32 ∨ mbt.mmapLength = 0#32 ∨
      ∃ s', Memory.loadMemoryMap mem mbt s = some s' ∧ ∀ b, s'.marked b = s.marked b

/-! ### What one call does to the counter -/

/-- The counter is the number of marked blocks. -/
def Counted (s : PMM) : Prop :=
  s.usedBlocks.toNat = Nat.count (fun b => s.marked b = true) s.maxBlocks.toNat

theorem unsetBlock_eq_self {s : PMM} {bit : U32}
    (h : s.bitmap = 0#32 ∨ s.maxBlocks ≤ bit ∨ s.marked bit.toNat = false) :
    s.unsetBlock bit = s := by
  rw [unsetBlock, testBlock_eq]
  by_cases hreject : s.bitmap = 0#32 ∨ bit ≥ s.maxBlocks
  · rw [if_pos hreject]
  · rw [if_neg hreject]
    rw [not_or] at hreject
    rcases h with h0 | hmax | hm
    · exact absurd h0 hreject.1
    · exact absurd hmax hreject.2
    · simp [hm]

theorem freeBlock_eq_self {s : PMM} {addr : U32} (h : (Call.freeBlock addr).Idle s) :
    s.freeBlock addr = s := by
  rw [freeBlock]
  by_cases h0 : addr = 0#32 ∨ s.bitmap = 0#32
  · rw [if_pos h0]
  rw [if_neg h0]
  by_cases hal : addr % blockSize ≠ 0#32
  · rw [if_pos hal]
  rw [if_neg hal]
  by_cases hmax : addr / blockSize ≥ s.maxBlocks
  · rw [if_pos hmax]
  rw [if_neg hmax]
  rw [not_or] at h0
  rcases h with h | h | h | h | h
  · exact absurd h h0.1
  · exact absurd h h0.2
  · exact absurd h hal
  · exact absurd h hmax
  · exact unsetBlock_eq_self (Or.inr (Or.inr h))

theorem allocateBlock_eq_self {s : PMM} (h : Call.allocateBlock.Idle s) :
    s.allocateBlock.1 = s := by
  rcases allocateBlock_cases s with ⟨ha, -⟩ | ⟨b, h0, hb, hclear, -, -⟩
  · rw [ha]
  · rcases h with h | h
    · exact absurd h h0
    · rw [h b hb] at hclear
      exact absurd hclear (by simp)

theorem counted_setBlock {s : PMM} (h : s.Counted) (bit : U32) : (s.setBlock bit).Counted := by
  by_cases hidle : s.bitmap = 0#32 ∨ s.maxBlocks ≤ bit ∨ s.marked bit.toNat = true
  · rwa [setBlock_eq_self hidle]
  rw [not_or, not_or, BitVec.not_le, BitVec.lt_def, Bool.not_eq_true] at hidle
  obtain ⟨h0, hlt, hclear⟩ := hidle
  have hcount : Nat.count (fun b => (s.setBlock bit).marked b = true) s.maxBlocks.toNat =
      Nat.count (fun b => s.marked b = true) s.maxBlocks.toNat + 1 := by
    refine Bitmap.count_insert hlt (by simp [hclear]) fun b => ?_
    rw [marked_setBlock, Bool.or_eq_true]
    refine or_congr_right ?_
    constructor
    · intro hb
      simp only [Bool.and_eq_true, decide_eq_true_eq] at hb
      exact hb.1.1
    · rintro rfl
      simp [h0, hlt]
  have hused : (s.setBlock bit).usedBlocks = s.usedBlocks + 1 := by
    rw [setBlock, testBlock_eq, if_neg (by simp [h0, BitVec.lt_def, hlt]), hclear]
    rfl
  -- the counter does not wrap: it is below the number of blocks
  have hle : Nat.count (fun b => (s.setBlock bit).marked b = true) s.maxBlocks.toNat ≤
      s.maxBlocks.toNat := Nat.count_le _
  have hmax := s.maxBlocks_lt
  rw [Counted, setBlock_maxBlocks, hused, BitVec.toNat_add, h, hcount]
  show (_ + 1) % 2 ^ 32 = _
  omega

theorem counted_unsetBlock {s : PMM} (h : s.Counted) (bit : U32) :
    (s.unsetBlock bit).Counted := by
  by_cases hidle : s.bitmap = 0#32 ∨ s.maxBlocks ≤ bit ∨ s.marked bit.toNat = false
  · rwa [unsetBlock_eq_self hidle]
  rw [not_or, not_or, BitVec.not_le, BitVec.lt_def, Bool.not_eq_false] at hidle
  obtain ⟨h0, hlt, hset⟩ := hidle
  have hcount : Nat.count (fun b => s.marked b = true) s.maxBlocks.toNat =
      Nat.count (fun b => (s.unsetBlock bit).marked b = true) s.maxBlocks.toNat + 1 := by
    refine Bitmap.count_insert hlt (by simp [marked_unsetBlock]) fun b => ?_
    rw [marked_unsetBlock, Bool.and_eq_true, decide_eq_true_eq]
    by_cases hb : b = bit.toNat
    · simp [hb, hset]
    · simp [hb]
  have hused : (s.unsetBlock bit).usedBlocks = s.usedBlocks - 1 := by
    rw [unsetBlock, testBlock_eq, if_neg (by simp [h0, BitVec.lt_def, hlt]), hset]
    rfl
  -- nor does it go below zero: the block was counted
  have hle : Nat.count (fun b => s.marked b = true) s.maxBlocks.toNat ≤ s.maxBlocks.toNat :=
    Nat.count_le _
  have hmax := s.maxBlocks_lt
  rw [Counted, unsetBlock_maxBlocks, hused, BitVec.toNat_sub, h, hcount]
  show (2 ^ 32 - 1 + (_ + 1)) % 2 ^ 32 = _
  omega

theorem counted_freeBlock {s : PMM} (h : s.Counted) (addr : U32) : (s.freeBlock addr).Counted := by
  rw [freeBlock]
  split
  · exact h
  split
  · exact h
  split
  · exact h
  · exact counted_unsetBlock h _

theorem counted_allocateBlock {s : PMM} (h : s.Counted) : s.allocateBlock.1.Counted := by
  rcases allocateBlock_cases s with ⟨ha, -⟩ | ⟨b, -, -, -, -, ha⟩
  · rwa [ha]
  · rw [ha]
    exact counted_setBlock h _

/-- **One call** keeps the counter right, and it returns. -/
theorem counted_step {s : PMM} (h : s.Counted) (c : Call) :
    ∃ s', s.step c = some s' ∧ s'.Counted := by
  cases c with
  | setBlock bit => exact ⟨_, rfl, counted_setBlock h bit⟩
  | unsetBlock bit => exact ⟨_, rfl, counted_unsetBlock h bit⟩
  | allocateBlock => exact ⟨_, rfl, counted_allocateBlock h⟩
  | freeBlock addr => exact ⟨_, rfl, counted_freeBlock h addr⟩
  | loadMemoryMap mem mbt =>
    rcases loadMemoryMap_keeps (P := Counted) (fun _ a ht => counted_freeBlock ht a) mem mbt h with
      hload | ⟨t, ht, hload⟩
    · exact ⟨s, hload, h⟩
    · exact ⟨t.setBlock 0, hload, counted_setBlock ht 0⟩

/-- After `initialize` the counter is right, also when it has rejected its parameters. -/
theorem counted_initial (memory : ℕ → U32) (startAddr size : U32) :
    (unset.initializePMM memory startAddr size).Counted := by
  have hcount : Nat.count
      (fun b => (unset.initializePMM memory startAddr size).marked b = true)
        (unset.initializePMM memory startAddr size).maxBlocks.toNat =
      (unset.initializePMM memory startAddr size).maxBlocks.toNat := by
    refine Nat.count_iff_forall.mpr fun b hb => ?_
    rw [marked_initial, decide_eq_true hb]
  rw [Counted, hcount]
  by_cases h : startAddr = 0#32 ∨ size < blockSize
  · rw [initializePMM, if_pos h]
    rfl
  · rw [not_or] at h
    obtain ⟨t, ht, -, hmax, hused, -⟩ := unset.initializePMM_eq memory h.1 h.2
    rw [ht, hmax, hused]

/-- A `free_block` that changes no mark changes nothing. -/
theorem freeBlock_eq_self_of_marked {s : PMM} {addr : U32}
    (h : ∀ b, (s.freeBlock addr).marked b = s.marked b) : s.freeBlock addr = s := by
  refine freeBlock_eq_self ?_
  by_contra hidle
  simp only [Call.Idle, not_or, not_not, BitVec.not_le, Bool.not_eq_false] at hidle
  obtain ⟨h0, -, hal, -, hm⟩ := hidle
  have hdvd : (addr % blockSize).toNat = addr.toNat % 4096 := by rw [BitVec.toNat_umod]; rfl
  have hdiv : (addr / blockSize).toNat = addr.toNat / 4096 := by rw [BitVec.toNat_udiv]; rfl
  have haddr : addr.toNat = (addr / blockSize).toNat * 4096 := by
    rw [hal] at hdvd
    have : (0#32).toNat = 0 := rfl
    omega
  have hfree := h (addr / blockSize).toNat
  rw [marked_freeBlock, hm, decide_eq_true h0, decide_eq_true haddr] at hfree
  exact absurd hfree (by decide)

/-- The address of block 0 is the null pointer, so it is never freed. -/
theorem marked_zero_freeBlock {s : PMM} (addr : U32) (h : s.marked 0 = true) :
    (s.freeBlock addr).marked 0 = true := by
  rw [marked_freeBlock, h, Bool.true_and, Bool.not_eq_true', ← Bool.decide_and,
    decide_eq_false_iff_not]
  rintro ⟨hne, hzero⟩
  exact hne (BitVec.eq_of_toNat_eq (by rw [hzero]; rfl))

/-- What the loads keep: marks only go, block 0 keeps its mark, and as long as none has gone
the state is the one at the start. -/
structure Draining (s t : PMM) : Prop where
  marks : ∀ b, t.marked b = true → s.marked b = true
  zero : s.marked 0 = true → t.marked 0 = true
  same : (∀ b, s.marked b = true → t.marked b = true) → t = s

theorem draining_freeBlock {s t : PMM} (h : Draining s t) (addr : U32) :
    Draining s (t.freeBlock addr) := by
  have hfewer : ∀ b, (t.freeBlock addr).marked b = true → t.marked b = true := by
    intro b hb
    rw [marked_freeBlock, Bool.and_eq_true] at hb
    exact hb.1
  refine ⟨fun b hb => h.marks b (hfewer b hb), fun h0 => ?_, fun hall => ?_⟩
  · exact marked_zero_freeBlock addr (h.zero h0)
  · have hts : t = s := h.same fun b hb => hfewer b (hall b hb)
    subst hts
    refine freeBlock_eq_self_of_marked fun b => ?_
    cases hb : t.marked b with
    | true => exact hall b hb
    | false =>
      rw [Bool.eq_false_iff]
      intro hb'
      rw [hfewer b hb'] at hb
      exact absurd hb (by simp)

/-- **A call that is rejected or has nothing to do** leaves bitmap and counter alone. -/
theorem step_of_idle {s : PMM} {c : Call} (h : c.Idle s) : s.step c = some s := by
  cases c with
  | setBlock bit => exact congrArg some (setBlock_eq_self h)
  | unsetBlock bit => exact congrArg some (unsetBlock_eq_self h)
  | allocateBlock => exact congrArg some (allocateBlock_eq_self h)
  | freeBlock addr => exact congrArg some (freeBlock_eq_self h)
  | loadMemoryMap mem mbt =>
    rw [step]
    rcases h with haddr | hlength | ⟨s', hs', hsame⟩
    · rw [Memory.loadMemoryMap, if_pos (Or.inl haddr)]
    · rw [Memory.loadMemoryMap, if_pos (Or.inr hlength)]
    rcases loadMemoryMap_keeps (P := Draining s) (fun _ a ht => draining_freeBlock ht a) mem mbt
      ⟨fun _ => id, id, fun _ => rfl⟩ with hload | ⟨t, ht, hload⟩
    · exact hload
    rw [hload, Option.some_inj] at hs'
    subst hs'
    rw [hload]
    refine congrArg some ?_
    by_cases hidle : t.bitmap = 0#32 ∨ t.maxBlocks ≤ 0 ∨ t.marked (0 : U32).toNat = true
    · rw [setBlock_eq_self hidle] at hsame ⊢
      exact ht.same fun b hb => by rw [hsame, hb]
    · -- the lock would have set a mark that `s` has, and block 0 never loses it
      rw [not_or, not_or, BitVec.not_le, BitVec.lt_def] at hidle
      obtain ⟨h0, hpos, hclear⟩ := hidle
      have hlocked : (t.setBlock 0).marked 0 = true := by
        rw [marked_setBlock]
        simp only [decide_eq_true h0, decide_eq_true (show 0 = (0 : U32).toNat from rfl),
          decide_eq_true (show 0 < t.maxBlocks.toNat from hpos), Bool.and_true, Bool.or_true]
      rw [hsame] at hlocked
      exact absurd (ht.zero hlocked) hclear

/-- **The counter is right in every state**: for all sequences of calls with any arguments. -/
theorem counted_of_run (memory : ℕ → U32) (startAddr size : U32) (calls : List Call) :
    ∃ s, run step (unset.initializePMM memory startAddr size) calls = some s ∧ s.Counted ∧
      s.usedBlocks ≤ s.maxBlocks ∧ ∀ c : Call, c.Idle s → s.step c = some s := by
  obtain ⟨s, hs, hcounted⟩ := run_total (P := Counted)
    (fun s c h _ => counted_step h c) (counted_initial memory startAddr size)
    (guarded_true step _ calls)
  refine ⟨s, hs, hcounted, ?_, fun c hc => step_of_idle hc⟩
  rw [BitVec.le_def, hcounted]
  exact Nat.count_le _

/-- The second of two equal calls of `free_block` does nothing. -/
theorem counted_of_run_freeTwice :
    ∃ s, run step (unset.initializePMM (fun _ => 0) 0x200000 0x100000) [.freeBlock 0x5000] =
      some s ∧ s.step (.freeBlock 0x5000) = some s := by
  obtain ⟨s, hs, -, -, hidle⟩ :=
    counted_of_run (fun _ => 0) 0x200000 0x100000 [.freeBlock 0x5000]
  refine ⟨s, hs, hidle _ (Or.inr (Or.inr (Or.inr (Or.inr ?_))))⟩
  rw [run_cons, step, Option.bind_some, run_nil, Option.some_inj] at hs
  rw [← hs, marked_freeBlock, decide_eq_true (by decide), decide_eq_true (by decide)]
  simp

/-! ### The lowest free block -/

/-- `allocate_block` returns null exactly if all blocks are used, and else takes the lowest free
one. -/
def AllocatesLowest (s : PMM) : Prop :=
  (s.allocateBlock.2 = 0#32 ↔ ∀ b < s.maxBlocks.toNat, s.marked b = true) ∧
    (s.allocateBlock.2 ≠ 0#32 → ∃ b < s.maxBlocks.toNat, s.marked b = false ∧
      (∀ c < b, s.marked c = true) ∧ s.allocateBlock.2.toNat = b * 4096 ∧
      ∀ c, s.allocateBlock.1.marked c = (s.marked c || decide (c = b)))

/-- The search sees the blocks of whole bitmap words only, and block 0 is not told from null. -/
theorem allocatesLowest_iff (s : PMM) :
    s.AllocatesLowest ↔ (∀ b < s.maxBlocks.toNat, s.marked b = true) ∨
      s.marked 0 = true ∧ ∃ b < s.maxBlocks.toNat / 32 * 32, s.marked b = false := by
  cases hfound : s.firstFreeBlock with
  | none =>
    have hnone : ¬ (s.marked 0 = true ∧ ∃ b < s.maxBlocks.toNat / 32 * 32, s.marked b = false) := by
      rintro ⟨hzero, b, hb, hclear⟩
      rcases (firstFreeBlock_eq_none_iff s).mp hfound with h0 | hall
      · exact bitmap_of_marked hzero h0
      · rw [hall b hb] at hclear
        exact absurd hclear (by simp)
    rw [or_iff_left hnone, AllocatesLowest, allocateBlock_of_none hfound]
    exact ⟨fun h => h.1.mp rfl, fun h => ⟨iff_of_true rfl h, fun hne => absurd rfl hne⟩⟩
  | some b =>
    obtain ⟨h0, hb, hclear, hmin⟩ := firstFreeBlock_eq_some hfound
    have hlt : b.toNat < s.maxBlocks.toNat := lt_of_lt_of_le hb s.scanned_le
    have hsome : ¬ ∀ c < s.maxBlocks.toNat, s.marked c = true := by
      intro hall
      rw [hall _ hlt] at hclear
      exact absurd hclear (by simp)
    rw [or_iff_right hsome, AllocatesLowest, iff_false_right hsome]
    by_cases hzero : s.marked 0 = true
    · have hpos : b ≠ 0#32 := by
        rintro rfl
        rw [show (0#32).toNat = 0 from rfl, hzero] at hclear
        exact absurd hclear (by simp)
      have hptr : s.allocateBlock.2 = b * blockSize := congrArg Prod.snd (allocateBlock_of_some hfound)
      have hne : s.allocateBlock.2 ≠ 0#32 := by
        rw [hptr]
        exact fun h => hpos ((found_eq_zero_iff hfound).mp h)
      refine iff_of_true ⟨hne, fun _ => ⟨b.toNat, hlt, hclear, hmin, ?_, fun c => ?_⟩⟩
        ⟨hzero, b.toNat, hb, hclear⟩
      · rw [hptr, toNat_found hfound]
      · have hmark := s.marked_setBlock_ofNat h0 hlt c
        rw [BitVec.ofNat_toNat, BitVec.setWidth_eq] at hmark
        rw [allocateBlock_of_some hfound, hmark]
    · refine iff_of_false (fun h => h.1 ?_) fun h => hzero h.1
      -- the lowest free block is block 0, whose address is null
      have hb0 : b = 0#32 := by
        refine BitVec.eq_of_toNat_eq ?_
        by_contra hne
        exact hzero (hmin 0 (Nat.pos_of_ne_zero hne))
      rw [allocateBlock_of_some hfound, hb0]
      rfl

/-- **When `allocate_block` finds what is free**, in every state that calls lead to. -/
theorem allocatesLowest_of_run (memory : ℕ → U32) (startAddr size : U32) (calls : List Call) :
    ∃ s, run step (unset.initializePMM memory startAddr size) calls = some s ∧
      (s.AllocatesLowest ↔ (∀ b < s.maxBlocks.toNat, s.marked b = true) ∨
        s.marked 0 = true ∧ ∃ b < s.maxBlocks.toNat / 32 * 32, s.marked b = false) := by
  obtain ⟨s, hs, -⟩ := counted_of_run memory startAddr size calls
  exact ⟨s, hs, allocatesLowest_iff s⟩

/-- Of 33 blocks the last one is free, and is not found. -/
theorem lastBlock_not_found :
    ∃ s, run step (unset.initializePMM (fun _ => 0) 0x100000 0x21000) [.freeBlock 0x20000] =
      some s ∧ s.marked 32 = false ∧ s.allocateBlock = (s, 0#32) ∧ ¬ s.AllocatesLowest := by
  have hclear : ((unset.initializePMM (fun _ => 0) 0x100000 0x21000).freeBlock 0x20000).marked 32 =
      false := by decide +kernel
  have hnone : ((unset.initializePMM (fun _ => 0) 0x100000 0x21000).freeBlock
      0x20000).firstFreeBlock = none := by decide +kernel
  have hnull := allocateBlock_of_none hnone
  refine ⟨_, rfl, hclear, hnull, fun h => ?_⟩
  have hall := h.1.mp (congrArg Prod.snd hnull) 32 (by decide +kernel)
  rw [hclear] at hall
  exact absurd hall (by simp)

end PMM

/-! ### Blocks that are out -/

/-- The manager, and a ledger of the blocks that it has handed out and got back, by address.
A block is entered whenever the search found one, whatever its address. -/
structure BlockLedger where
  pmm : PMM
  events : List (Event U32)

inductive BlockCall where
  | allocateBlock
  | freeBlock (p : U32)

namespace BlockLedger

/-- The blocks that are out. -/
def blocks (l : BlockLedger) : List U32 := outstanding l.events

def step (l : BlockLedger) : BlockCall → Option BlockLedger
  | .allocateBlock =>
    let (pmm, p) := l.pmm.allocateBlock
    some { pmm := pmm
           events := if l.pmm.firstFreeBlock.isSome then .taken p :: l.events else l.events }
  | .freeBlock p => some { pmm := l.pmm.freeBlock p, events := .returned p :: l.events }

/-- What the manager's callers rely on. -/
structure Sound (l : BlockLedger) : Prop where
  distinct : l.blocks.Nodup
  nonnull : ∀ p ∈ l.blocks, p ≠ 0#32
  aligned : ∀ p ∈ l.blocks, 4096 ∣ p.toNat
  inside : ∀ p ∈ l.blocks, p.toNat < l.pmm.maxBlocks.toNat * 4096
  used : ∀ p ∈ l.blocks, l.pmm.testBlock (p / blockSize) = true
  again : ∀ p newer between older,
    l.events = newer ++ .taken p :: (between ++ .taken p :: older) → .returned p ∈ between

/-- What every call keeps: block 0 is never free, and what is out is marked. -/
structure Tracked (l : BlockLedger) : Prop where
  zero : l.pmm.bitmap ≠ 0#32 → 0 < l.pmm.maxBlocks.toNat → l.pmm.marked 0 = true
  once : NeverTwice l.events
  out : ∀ p ∈ l.blocks, ∃ b, 0 < b ∧ p.toNat = b * 4096 ∧ l.pmm.marked b = true

end BlockLedger

/-- Only blocks that are out are given back. -/
def BlockCall.Allowed (l : BlockLedger) : BlockCall → Prop
  | .allocateBlock => True
  | .freeBlock p => p ∈ l.blocks

namespace BlockLedger

theorem tracked_allocate {l l' : BlockLedger} (h : l.Tracked)
    (hstep : l.step .allocateBlock = some l') : l'.Tracked := by
  rw [step, Option.some_inj] at hstep
  subst hstep
  rcases PMM.allocateBlock_cases l.pmm with ⟨ha, hnone⟩ | ⟨b, h0, hb, hclear, -, ha⟩
  · -- nothing was found, so nothing is entered
    rw [(PMM.firstFreeBlock_eq_none_iff l.pmm).mpr hnone, ha]
    exact h
  have hsome : l.pmm.firstFreeBlock.isSome = true := by
    rw [Option.isSome_iff_ne_none, Ne, PMM.firstFreeBlock_eq_none_iff, not_or, not_forall]
    refine ⟨h0, b, fun hall => ?_⟩
    rw [hall hb] at hclear
    exact absurd hclear (by simp)
  have hlt : b < l.pmm.maxBlocks.toNat := lt_of_lt_of_le hb l.pmm.scanned_le
  have hp := PMM.toNat_allocated hlt
  have hb32 : (BitVec.ofNat 32 b).toNat = b := by
    have := l.pmm.maxBlocks_lt
    rw [BitVec.toNat_ofNat]
    omega
  have hmark : ∀ c, (l.pmm.setBlock (BitVec.ofNat 32 b)).marked c =
      (l.pmm.marked c || decide (c = b)) := by
    intro c
    rw [PMM.marked_setBlock, hb32]
    by_cases hc : c = b
    · simp [hc, h0, hlt]
    · simp [hc]
  have hpos : 0 < b := by
    rcases Nat.eq_zero_or_pos b with rfl | hpos
    · rw [h.zero h0 hlt] at hclear
      exact absurd hclear (by simp)
    · exact hpos
  rw [ha, hsome]
  constructor
  · intro _ _
    show (l.pmm.setBlock (BitVec.ofNat 32 b)).marked 0 = true
    rw [hmark, h.zero h0 (Nat.zero_lt_of_lt hlt), Bool.true_or]
  · refine neverTwice_taken h.once fun hin => ?_
    -- what is out is marked, and `b` was not
    obtain ⟨c, -, hc, hm⟩ := h.out _ hin
    have hcb : c = b := Nat.eq_of_mul_eq_mul_right (by decide) (hc.symm.trans hp)
    rw [hcb, hclear] at hm
    exact absurd hm (by simp)
  · intro q hq
    rcases List.mem_cons.mp hq with rfl | hq
    · exact ⟨b, hpos, hp, by rw [hmark]; simp⟩
    · obtain ⟨c, hc0, hc, hm⟩ := h.out q hq
      exact ⟨c, hc0, hc, by rw [hmark, hm, Bool.true_or]⟩

theorem tracked_free {l l' : BlockLedger} (h : l.Tracked) {p : U32} (hp : p ∈ l.blocks)
    (hstep : l.step (.freeBlock p) = some l') : l'.Tracked := by
  rw [step, Option.some_inj] at hstep
  subst hstep
  obtain ⟨b, hb, hpb, -⟩ := h.out p hp
  constructor
  · intro h0 hpos
    dsimp only at h0 hpos ⊢
    rw [PMM.freeBlock_bitmap] at h0
    rw [PMM.freeBlock_maxBlocks] at hpos
    exact PMM.marked_zero_freeBlock p (h.zero h0 hpos)
  · exact neverTwice_returned h.once p
  · intro q hq
    -- a block that is still out is another one, because none is out twice
    have hnodup : l.blocks.Nodup := h.once _ (List.suffix_refl _)
    obtain ⟨hne, hq⟩ := (List.Nodup.mem_erase_iff hnodup).mp hq
    obtain ⟨c, hc0, hc, hm⟩ := h.out q hq
    refine ⟨c, hc0, hc, ?_⟩
    have hpc : ¬ p.toNat = c * 4096 := fun heq => hne (BitVec.eq_of_toNat_eq (by rw [hc, heq]))
    rw [PMM.marked_freeBlock, hm, decide_eq_false hpc]
    simp

theorem tracked_step {l l' : BlockLedger} {c : BlockCall} (h : l.Tracked) (hok : c.Allowed l)
    (hstep : l.step c = some l') : l'.Tracked := by
  cases c with
  | allocateBlock => exact tracked_allocate h hstep
  | freeBlock p => exact tracked_free h hok hstep

theorem sound_of_tracked {l : BlockLedger} (h : l.Tracked) : l.Sound := by
  constructor
  · exact h.once _ (List.suffix_refl _)
  · rintro p hp rfl
    obtain ⟨b, hb, h0, -⟩ := h.out _ hp
    have : (0#32).toNat = 0 := rfl
    omega
  · intro p hp
    obtain ⟨b, -, hpb, -⟩ := h.out p hp
    exact ⟨b, by rw [hpb, Nat.mul_comm]⟩
  · intro p hp
    obtain ⟨b, -, hpb, hm⟩ := h.out p hp
    have := PMM.lt_of_marked hm
    omega
  · intro p hp
    obtain ⟨b, -, hpb, hm⟩ := h.out p hp
    have hdiv : (p / blockSize).toNat = b := by
      rw [BitVec.toNat_udiv, hpb]
      exact Nat.mul_div_cancel b (by decide)
    rw [PMM.testBlock_eq, hdiv, hm]
  · intro p newer between older hevents
    exact returned_of_taken_again h.once hevents

/-- After `initialize` and `load_memory_map` nothing is out, and block 0 is locked. -/
theorem tracked_initial (memory : ℕ → U32) (startAddr size : U32) (mem : U32 → U8)
    (mbt : MultibootInfo) :
    ∃ s, loadMemoryMap mem mbt (PMM.unset.initializePMM memory startAddr size) = some s ∧
      Tracked ⟨s, []⟩ := by
  have htracked : ∀ s : PMM, (s.bitmap ≠ 0#32 → 0 < s.maxBlocks.toNat → s.marked 0 = true) →
      Tracked ⟨s, []⟩ := by
    intro s hs
    refine ⟨hs, fun past hpast => ?_, fun p hp => absurd hp List.not_mem_nil⟩
    rw [List.suffix_nil.mp hpast]
    exact List.nodup_nil
  have hzero : (PMM.unset.initializePMM memory startAddr size).bitmap ≠ 0#32 →
      0 < (PMM.unset.initializePMM memory startAddr size).maxBlocks.toNat →
      (PMM.unset.initializePMM memory startAddr size).marked 0 = true := by
    intro _ hpos
    rw [marked_initial, decide_eq_true hpos]
  -- no `free_block` takes the mark of block 0: its address is the null pointer
  rcases loadMemoryMap_keeps
    (P := fun t => t.bitmap ≠ 0#32 → 0 < t.maxBlocks.toNat → t.marked 0 = true)
    (fun t a ht h0 hpos => by
      rw [PMM.freeBlock_bitmap] at h0
      rw [PMM.freeBlock_maxBlocks] at hpos
      exact PMM.marked_zero_freeBlock a (ht h0 hpos)) mem mbt hzero with
    hload | ⟨t, ht, hload⟩
  · exact ⟨_, hload, htracked _ hzero⟩
  · refine ⟨_, hload, htracked _ fun h0 hpos => ?_⟩
    rw [PMM.setBlock_bitmap] at h0
    rw [PMM.setBlock_maxBlocks] at hpos
    rw [PMM.marked_setBlock, ht h0 hpos, Bool.true_or]

/-- **What is handed out is sound.**  For all parameters of `initialize`, every memory map and
every sequence of `allocate_block` and of `free_block` on blocks that are out. -/
theorem sound_of_run (memory : ℕ → U32) (startAddr size : U32) (mem : U32 → U8)
    (mbt : MultibootInfo) :
    ∃ s, loadMemoryMap mem mbt (PMM.unset.initializePMM memory startAddr size) = some s ∧
      ∀ calls, Guarded step (fun l c => c.Allowed l) ⟨s, []⟩ calls →
        ∃ l, run step ⟨s, []⟩ calls = some l ∧ l.Sound := by
  obtain ⟨s, hs, hinit⟩ := tracked_initial memory startAddr size mem mbt
  refine ⟨s, hs, fun calls hok => ?_⟩
  have htotal : ∀ l c, Tracked l → c.Allowed l → ∃ l', step l c = some l' ∧ l'.Tracked := by
    intro l c h hc
    obtain ⟨l', hl'⟩ : ∃ l', step l c = some l' := by cases c <;> exact ⟨_, rfl⟩
    exact ⟨l', hl', tracked_step h hc hl'⟩
  obtain ⟨l, hl, htracked⟩ := run_total htotal hinit hok
  exact ⟨l, hl, sound_of_tracked htracked⟩

/-- Two calls on a PC with 32 MiB. -/
theorem sound_of_run_two :
    ∃ s l, run step ⟨s, []⟩ [.allocateBlock, .allocateBlock] = some l ∧ l.Sound := by
  obtain ⟨s, -, hruns⟩ := sound_of_run (fun _ => 0) 0x200000 0x1F9FC00
    (storeMap 0x9000 alignedMap) ⟨639, 31744, 72, 0x9000⟩
  obtain ⟨l, hl, hsound⟩ := hruns [.allocateBlock, .allocateBlock]
    ⟨trivial, fun _ _ => ⟨trivial, fun _ _ => trivial⟩⟩
  exact ⟨s, l, hl, hsound⟩

end BlockLedger

end MesaOS.Memory
