/-
The kernel heap (`memory/kheap.cpp`).

A bump allocator.  The check `current_addr + size > end_addr` is made in 32 bits,
so a size near 4 GiB wraps around and passes it.

* `malloc_cases` — what one call does: it does not come back, it returns the null
  pointer, or it returns the aligned pointer;
* `serves_iff` — a sequence of requests gets what it asked for, objects inside the
  heap and apart, exactly when no request wraps around below the end.
-/
import MesaOS.MachineWord
import MesaOS.Runs

open MachineWord Runs

namespace MesaOS.Memory

/-- A bump allocator. -/
structure KHeap where
  currentAddr : U32
  endAddr : U32

namespace KHeap

def initializeHeap (startAddr size : U32) : KHeap :=
  { currentAddr := startAddr, endAddr := startAddr + size }

/-- The alignment of `current_addr` to 8 bytes. -/
def align (h : KHeap) : KHeap :=
  if h.currentAddr % 8 ≠ 0#32 then
    { h with currentAddr := h.currentAddr + (8 - h.currentAddr % 8) }
  else h

/-- The new heap and the pointer.  A size with which `current_addr + size` wraps passes
the check; then the `memset` runs up to the end of the address space, over pages that
are not mapped, and does not come back: `none`. -/
def malloc (h : KHeap) (size : U32) : Option (KHeap × U32) :=
  let h := h.align
  if h.currentAddr + size > h.endAddr then some (h, 0#32)
  else if 2 ^ 32 ≤ h.currentAddr.toNat + size.toNat then none
  else some ({ h with currentAddr := h.currentAddr + size }, h.currentAddr)

/-- `kmalloc`, with `none` for a panic.  When `malloc` fails and there is a process other
than the kernel's to kill, `removal` is what `Scheduler::remove_process`, which the
kernel calls but does not define, takes from the heap; the address is private to the
heap, so it changes in no other way. -/
def kmalloc (h : KHeap) (size : U32) (removal : Option (List U32)) : Option (KHeap × U32) := do
  let (h, ptr) ← h.malloc size
  if ptr ≠ 0#32 then some (h, ptr)
  else
    match removal with
    | none => none
    | some sizes =>
      let h ← sizes.foldlM (fun h n => (h.malloc n).map Prod.fst) h
      let (h, ptr) ← h.malloc size
      if ptr ≠ 0#32 then some (h, ptr) else none

@[simp] theorem align_endAddr (h : KHeap) : h.align.endAddr = h.endAddr := by
  rw [align]
  split <;> rfl

theorem toNat_align {h : KHeap} (hcur : h.currentAddr.toNat ≤ 2 ^ 32 - 8) :
    h.align.currentAddr.toNat = (h.currentAddr.toNat + 7) / 8 * 8 := by
  have hmod : (h.currentAddr % 8).toNat = h.currentAddr.toNat % 8 := by
    rw [BitVec.toNat_umod]
    rfl
  rw [align]
  by_cases h8 : h.currentAddr % 8 ≠ 0#32
  · have hne : h.currentAddr.toNat % 8 ≠ 0 := fun h0 =>
      h8 (BitVec.eq_of_toNat_eq (by rw [hmod, h0]; rfl))
    rw [if_pos h8, BitVec.toNat_add, BitVec.toNat_sub, hmod, show (8 : U32).toNat = 8 from rfl]
    omega
  · rw [if_neg h8]
    rw [not_not] at h8
    have h0 : h.currentAddr.toNat % 8 = 0 := by rw [← hmod, h8]; rfl
    omega

/-- There is room for the request behind the aligned pointer. -/
def Fits (h : KHeap) (size : U32) : Prop :=
  h.align.currentAddr.toNat + size.toNat ≤ h.endAddr.toNat

/-- The request does not wrap around, or it does but still ends above the heap. -/
def Bounded (h : KHeap) (size : U32) : Prop :=
  h.align.currentAddr.toNat + size.toNat < 2 ^ 32 ∨ h.endAddr < h.align.currentAddr + size

instance (h : KHeap) (size : U32) : Decidable (h.Bounded size) :=
  inferInstanceAs (Decidable (_ ∨ _))

/-- What one call does. -/
theorem malloc_cases (h : KHeap) (size : U32) :
    (h.malloc size = none ∧ ¬ h.Bounded size ∧ ¬ h.Fits size) ∨
    (h.malloc size = some (h.align, 0#32) ∧ h.Bounded size ∧ ¬ h.Fits size) ∨
    (h.malloc size = some ({ h.align with currentAddr := h.align.currentAddr + size },
        h.align.currentAddr) ∧ h.Bounded size ∧ h.Fits size ∧
      (h.align.currentAddr + size).toNat = h.align.currentAddr.toNat + size.toNat) := by
  have hlt := h.endAddr.isLt
  simp only [malloc, align_endAddr, Bounded, Fits]
  by_cases hend : h.align.currentAddr + size > h.endAddr
  · -- the sum is above the end, wrapped around or not
    have hend' := BitVec.lt_def.mp hend
    rw [BitVec.toNat_add] at hend'
    rw [if_pos hend]
    exact Or.inr (Or.inl ⟨rfl, Or.inr hend, by omega⟩)
  rw [if_neg hend]
  by_cases hwrap : 2 ^ 32 ≤ h.align.currentAddr.toNat + size.toNat
  · rw [if_pos hwrap]
    refine Or.inl ⟨rfl, ?_, by omega⟩
    rintro (hno | hno)
    · omega
    · exact hend hno
  · have hsum : (h.align.currentAddr + size).toNat =
        h.align.currentAddr.toNat + size.toNat := by
      rw [BitVec.toNat_add]
      omega
    have hle := toNat_le_of_not_lt hend
    rw [if_neg hwrap]
    exact Or.inr (Or.inr ⟨rfl, Or.inl (by omega), by omega, hsum⟩)

end KHeap

/-! ### Sequences of requests -/

/-- The heap, and the requests that it has answered: size and pointer, newest first. -/
structure HeapRun where
  heap : KHeap
  answers : List (U32 × U32)

namespace HeapRun

def request (r : HeapRun) (size : U32) : Option HeapRun :=
  (r.heap.malloc size).map fun (heap, p) => { heap := heap, answers := (size, p) :: r.answers }

/-- After `KHeap::initialize`. -/
def start (startAddr size : U32) : HeapRun :=
  { heap := KHeap.initializeHeap startAddr size, answers := [] }

/-- Byte `x` belongs to an object that was handed out. -/
def Owns (o : U32 × U32) (x : ℕ) : Prop :=
  o.2 ≠ 0#32 ∧ o.2.toNat ≤ x ∧ x < o.2.toNat + o.1.toNat

/-- The objects lie where they should. -/
structure Placed (lo hi : ℕ) (answers : List (U32 × U32)) : Prop where
  aligned : ∀ o ∈ answers, o.2 ≠ 0#32 → 8 ∣ o.2.toNat
  inside : ∀ o ∈ answers, o.2 ≠ 0#32 → lo ≤ o.2.toNat ∧ o.2.toNat + o.1.toNat ≤ hi
  apart : answers.Pairwise fun o o' => ∀ x, ¬ (Owns o x ∧ Owns o' x)

/-- Every request is answered, the objects lie where they should, and a request without room
gets the null pointer. -/
structure Serves (startAddr size : U32) (sizes : List U32) : Prop where
  answered : ∃ r, run request (start startAddr size) sizes = some r ∧
    Placed startAddr.toNat (startAddr.toNat + size.toNat) r.answers
  refused : ∀ before n after, sizes = before ++ n :: after → ∀ r,
    run request (start startAddr size) before = some r → ¬ r.heap.Fits n →
      ∃ heap, r.heap.malloc n = some (heap, 0#32)

/-- What every answered request keeps: the objects lie below the bump pointer. -/
structure Bumped (lo hi : ℕ) (r : HeapRun) : Prop where
  lower : lo ≤ r.heap.currentAddr.toNat
  upper : r.heap.currentAddr.toNat ≤ (hi + 7) / 8 * 8
  ends : r.heap.endAddr.toNat = hi
  limit : hi ≤ 2 ^ 32 - 8
  placed : Placed lo hi r.answers
  below : ∀ o ∈ r.answers, o.2 ≠ 0#32 → o.2.toNat + o.1.toNat ≤ r.heap.currentAddr.toNat

theorem Bumped.le_limit {lo hi : ℕ} {r : HeapRun} (h : r.Bumped lo hi) :
    r.heap.currentAddr.toNat ≤ 2 ^ 32 - 8 := by
  obtain ⟨-, hupper, -, hlimit, -, -⟩ := h
  omega

/-- **One request** that is bounded is answered, and the new object lies behind the others. -/
theorem bumped_request {lo hi : ℕ} {r : HeapRun} {n : U32} (h : r.Bumped lo hi)
    (hok : r.heap.Bounded n) : ∃ r', r.request n = some r' ∧ r'.Bumped lo hi := by
  have halign := KHeap.toNat_align h.le_limit
  obtain ⟨hlower, hupper, hends, hlimit, ⟨haligned, hinside, hapart⟩, hbelow⟩ := h
  rcases KHeap.malloc_cases r.heap n with ⟨-, hno, -⟩ | ⟨hm, -, -⟩ | ⟨hm, -, hfit, hnew⟩
  · exact absurd hok hno
  · -- the null pointer owns nothing, and the pointer has only been aligned
    have hnull : ∀ {P : U32 × U32 → Prop}, (∀ o ∈ r.answers, o.2 ≠ 0#32 → P o) →
        ∀ o ∈ (n, 0#32) :: r.answers, o.2 ≠ 0#32 → P o := by
      intro P hP o ho hne
      rcases List.mem_cons.mp ho with rfl | ho
      · exact absurd rfl hne
      · exact hP o ho hne
    refine ⟨_, by rw [request, hm]; rfl, ?_, ?_, ?_, hlimit, ⟨hnull haligned, hnull hinside, ?_⟩,
      hnull fun o ho hne => ?_⟩
    · show lo ≤ r.heap.align.currentAddr.toNat
      omega
    · show r.heap.align.currentAddr.toNat ≤ _
      omega
    · show r.heap.align.endAddr.toNat = hi
      rw [KHeap.align_endAddr, hends]
    · exact List.pairwise_cons.mpr ⟨fun o _ x hx => hx.1.1 rfl, hapart⟩
    · have := hbelow o ho hne
      show _ ≤ r.heap.align.currentAddr.toNat
      omega
  · rw [KHeap.Fits, hends] at hfit
    have hold : ∀ o ∈ r.answers, o.2 ≠ 0#32 →
        o.2.toNat + o.1.toNat ≤ r.heap.align.currentAddr.toNat := by
      intro o ho hne
      have := hbelow o ho hne
      omega
    refine ⟨_, by rw [request, hm]; rfl, ?_, ?_, ?_, hlimit, ⟨?_, ?_, ?_⟩, ?_⟩
    · show lo ≤ (r.heap.align.currentAddr + n).toNat
      omega
    · show (r.heap.align.currentAddr + n).toNat ≤ _
      omega
    · show r.heap.align.endAddr.toNat = hi
      rw [KHeap.align_endAddr, hends]
    · intro o ho hne
      rcases List.mem_cons.mp ho with rfl | ho
      · exact ⟨_, by rw [halign, Nat.mul_comm]⟩
      · exact haligned o ho hne
    · intro o ho hne
      rcases List.mem_cons.mp ho with rfl | ho
      · exact ⟨by rw [halign]; omega, hfit⟩
      · exact hinside o ho hne
    · refine List.pairwise_cons.mpr ⟨fun o ho x hx => ?_, hapart⟩
      obtain ⟨⟨-, hlo, -⟩, hne, -, hhi⟩ := hx
      have := hold o ho hne
      dsimp only at hlo
      omega
    · intro o ho hne
      show _ ≤ (r.heap.align.currentAddr + n).toNat
      rw [hnew]
      rcases List.mem_cons.mp ho with rfl | ho
      · exact le_refl _
      · have := hold o ho hne
        omega

/-- A request that is not bounded is not answered. -/
theorem request_eq_none {r : HeapRun} {n : U32} (h : ¬ r.heap.Bounded n) :
    r.request n = none := by
  rcases KHeap.malloc_cases r.heap n with ⟨hm, -, -⟩ | ⟨-, hb, -⟩ | ⟨-, hb, -, -⟩
  · rw [request, hm]
    rfl
  · exact absurd hb h
  · exact absurd hb h

/-- An answered run consists of bounded requests. -/
theorem guarded_of_answered {r r' : HeapRun} {sizes : List U32}
    (h : run request r sizes = some r') :
    Guarded request (fun r n => r.heap.Bounded n) r sizes := by
  induction sizes generalizing r with
  | nil => trivial
  | cons n sizes ih =>
    rw [run_cons] at h
    obtain ⟨t, ht, hrest⟩ := Option.bind_eq_some_iff.mp h
    refine ⟨?_, fun s hs => ?_⟩
    · by_contra hb
      rw [request_eq_none hb] at ht
      exact absurd ht (by simp)
    · rw [ht, Option.some_inj] at hs
      exact hs ▸ ih hrest

/-- **When the heap serves a sequence of requests.**  For every region that ends 8 bytes below
4 GiB and all sizes: exactly when no request wraps around and passes the check. -/
theorem serves_iff (startAddr size : U32)
    (hlimit : startAddr.toNat + size.toNat ≤ 2 ^ 32 - 8) (sizes : List U32) :
    Serves startAddr size sizes ↔
      Guarded request (fun r n => r.heap.Bounded n) (start startAddr size) sizes := by
  constructor
  · rintro ⟨⟨r, hr, -⟩, -⟩
    exact guarded_of_answered hr
  intro hok
  have hinit : (start startAddr size).Bumped startAddr.toNat (startAddr.toNat + size.toNat) := by
    have hend : (startAddr + size).toNat = startAddr.toNat + size.toNat := by
      rw [BitVec.toNat_add]
      omega
    refine ⟨le_refl _, ?_, hend, hlimit, ⟨?_, ?_, List.Pairwise.nil⟩, ?_⟩
    · show startAddr.toNat ≤ _
      omega
    all_goals
      intro o ho
      exact absurd ho List.not_mem_nil
  constructor
  · obtain ⟨r, hr, hbumped⟩ := run_total (fun _ _ h hb => bumped_request h hb) hinit hok
    exact ⟨r, hr, hbumped.placed⟩
  · rintro before n after rfl r hr hfit
    have hb := guarded_append hok hr
    rcases KHeap.malloc_cases r.heap n with ⟨-, hno, -⟩ | ⟨hm, -, -⟩ | ⟨-, -, hf, -⟩
    · exact absurd hb.1 hno
    · exact ⟨_, hm⟩
    · exact absurd hf hfit

/-- Two objects and a request that is too large. -/
theorem serves_bounded : Serves 0x100000 0x1000 [24, 16, 0x2000] :=
  (serves_iff 0x100000 0x1000 (by decide) [24, 16, 0x2000]).mpr (by decide)

/-- The second sum is `0x100000` again, the start of the heap and of the first object. -/
theorem not_serves_wrapped : ¬ Serves 0x100000 0x1000 [0x100, 0xFFFFFF00] := by
  rintro ⟨⟨r, hr, -⟩, -⟩
  exact absurd (guarded_of_answered hr) (by decide)

end HeapRun

end MesaOS.Memory
