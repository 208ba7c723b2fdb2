/-
Isolation of an address space and its clone.

User code reads and writes single bytes through an address space; a write to a
page whose entry is read-only goes through the page-fault handler and is then
taken again.  After `clone_address_space` both sides map the same frames.  The
clone's entries are read-only and copy on write, but the source keeps its
writable ones, so a write through the source is seen in the clone until the
clone has its own copy (`clone_sees_write`).  Apart from that the two are
private memories:

* `userRead_store`, `userRead_pageFault` — what a store and a handled fault do to
  every read through either side;
* `isolated_step` — an access that does not write through the source to a
  writable page that the clone shares (`Access.Unshared`) keeps the two apart;
* `clone_isolated` — so over every run of such accesses, from every reachable
  state, each side reads what it last wrote, or what was there at the clone.
-/
import MesaOS.AddressSpaces

open MachineWord Runs

namespace MesaOS.Memory

open VMM

/-! ### Bytes of user memory -/

/-- The byte at a physical address. -/
def Machine.byte (m : Machine) (a : ℕ) : U8 := getByte (m.mem (a / 4)) (a % 4)

def Machine.setByte (m : Machine) (a : ℕ) (b : U8) : Machine :=
  { m with mem := fun n => if n = a / 4 then MachineWord.setByte (m.mem n) (a % 4) b else m.mem n }

/-- What the processor does with an address: the table entry, if table and page are
present. -/
def walk (m : Machine) (d va : U32) : Option U32 :=
  if present (m.word d (dirIndex va)) ∧
      present (m.word (pageBase (m.word d (dirIndex va))) (tableIndex va)) then
    some (m.word (pageBase (m.word d (dirIndex va))) (tableIndex va))
  else none

/-- The physical address of `va` in the page that `x` maps. -/
def physical (x va : U32) : ℕ := (pageBase x).toNat + va.toNat % 4096

/-- A read; `none` when the page is not present, which is a panic. -/
def userRead (m : Machine) (d va : U32) : Option U8 :=
  (walk m d va).map fun x => m.byte (physical x va)

/-- A write to a page that is present and writable. -/
def userStore (m : Machine) (d va : U32) (b : U8) : Option Machine :=
  match walk m d va with
  | some x => if writable x then some (m.setByte (physical x va) b) else none
  | none => none

/-- The error code of a fault on a user write: bit 0 says whether the page is present. -/
def writeFault (m : Machine) (d va : U32) : U32 := if (walk m d va).isSome then 7#32 else 6#32

/-- A write: when it faults and the handler returns, the instruction is taken again. -/
def userWrite (m : Machine) (d va : U32) (b : U8) : Option Machine :=
  match userStore m d va b with
  | some m' => some m'
  | none => (pageFault m d va (writeFault m d va)).bind fun m' => userStore m' d va b

theorem walk_eq_entry (m : Machine) {d : U32} (hd : 4096 ∣ d.toNat) (va : U32) :
    walk m d va = entry m d (dirIndex va) (tableIndex va) := by
  rw [walk, entry, m.word_eq_cell hd, m.word_eq_cell (dvd_pageBase _), frame_pageBase]

/-- The byte of a page at an offset. -/
def pageByte (m : Machine) (f o : ℕ) : U8 := getByte (m.cell f (o / 4)) (o % 4)

theorem byte_physical (m : Machine) (x va : U32) :
    m.byte (physical x va) = pageByte m (frame x) (va.toNat % 4096) := by
  rw [Machine.byte, pageByte, Machine.cell, physical, toNat_pageBase]
  congr 1
  · congr 1
    omega
  · omega

theorem cell_setByte (m : Machine) (x va : U32) (b : U8) (g : ℕ) {n : ℕ} (hn : n < 1024) :
    (m.setByte (physical x va) b).cell g n =
      if g = frame x ∧ n = va.toNat % 4096 / 4 then
        MachineWord.setByte (m.cell g n) (va.toNat % 4) b
      else m.cell g n := by
  have ha : physical x va = frame x * 4096 + va.toNat % 4096 := by
    rw [physical, toNat_pageBase]
  simp only [Machine.setByte, Machine.cell, ha]
  rw [show (frame x * 4096 + va.toNat % 4096) % 4 = va.toNat % 4 by omega]
  refine if_congr ?_ rfl rfl
  omega

theorem pageByte_setByte (m : Machine) (x va : U32) (b : U8) (g : ℕ) {o : ℕ} (ho : o < 4096) :
    pageByte (m.setByte (physical x va) b) g o =
      if g = frame x ∧ o = va.toNat % 4096 then b else pageByte m g o := by
  rw [pageByte, cell_setByte m x va b g (by omega)]
  by_cases hw : g = frame x ∧ o / 4 = va.toNat % 4096 / 4
  · rw [if_pos hw, getByte_setByte _ _ (Nat.mod_lt _ (by decide)), pageByte]
    refine if_congr ?_ rfl rfl
    constructor
    · exact fun hb => ⟨hw.1, by omega⟩
    · exact fun hb => by omega
  · rw [if_neg hw, if_neg, pageByte]
    rintro ⟨hg, rfl⟩
    exact hw ⟨hg, rfl⟩

/-- An address is determined by its three fields. -/
theorem eq_of_fields {a b : U32} (h1 : dirIndex a = dirIndex b)
    (h2 : tableIndex a = tableIndex b) (h3 : a.toNat % 4096 = b.toNat % 4096) : a = b := by
  rw [dirIndex_eq, dirIndex_eq] at h1
  rw [tableIndex_eq, tableIndex_eq] at h2
  apply BitVec.eq_of_toNat_eq
  omega

section Reads

variable {m m' : Machine} {live : List U32}

theorem userRead_eq (h : Owns m live) {c : U32} (hc : c ∈ live) (va : U32) :
    userRead m c va = (entry m c (dirIndex va) (tableIndex va)).map fun x =>
      pageByte m (frame x) (va.toNat % 4096) := by
  obtain ⟨role, h⟩ := h
  rw [userRead, walk_eq_entry m (h.aligned c hc)]
  exact Option.map_congr fun x _ => byte_physical m x va

/-- A store to a mapped page keeps every frame in its role and every entry as it is. -/
theorem owns_setByte (h : Owns m live) {d : U32} (hd : d ∈ live) {va x : U32}
    (hva : 0xC0000000#32 ≤ va) (hx : entry m d (dirIndex va) (tableIndex va) = some x) (b : U8) :
    Owns (m.setByte (physical x va) b) live ∧
      ∀ c ∈ live, ∀ i, UserIndex i → ∀ j < 1024,
        entry (m.setByte (physical x va) b) c i j = entry m c i j := by
  obtain ⟨role, h⟩ := h
  have hpage := h.page d hd _ (userIndex_dirIndex hva) _ (tableIndex_lt va) x hx
  have hk : Owned.KeepsTables role m (m.setByte (physical x va) b) := by
    intro f hf j hj
    rw [cell_setByte m x va b f hj, if_neg]
    rintro ⟨rfl, -⟩
    rw [hpage] at hf
    rcases hf with hf | ⟨c, i, hf⟩ <;> exact absurd hf (by simp)
  exact ⟨⟨role, h.of_keepsTables hk h.marked⟩,
    fun c hc i hi j hj => h.entry_of_keepsTables hk hc hi hj⟩

/-- **What a store does to reads.**  It changes the one address in its own address
space, and no read through another one that does not share the page. -/
theorem userRead_store (h : Owns m live) {d c : U32} (hd : d ∈ live) (hc : c ∈ live)
    {va x : U32} (hva : 0xC0000000#32 ≤ va)
    (hx : entry m d (dirIndex va) (tableIndex va) = some x)
    (hapart : c ≠ d → ∀ y, entry m c (dirIndex va) (tableIndex va) = some y →
      frame y ≠ frame x) (b : U8) {va' : U32} (hva' : 0xC0000000#32 ≤ va') :
    userRead (m.setByte (physical x va) b) c va' =
      if c = d ∧ va' = va then some b else userRead m c va' := by
  obtain ⟨howns, hentry⟩ := owns_setByte h hd hva hx b
  rw [userRead_eq howns hc, userRead_eq h hc,
    hentry c hc _ (userIndex_dirIndex hva') _ (tableIndex_lt va')]
  cases hz : entry m c (dirIndex va') (tableIndex va') with
  | none =>
    rw [Option.map_none, Option.map_none, if_neg]
    rintro ⟨rfl, rfl⟩
    rw [hx] at hz
    exact absurd hz (by simp)
  | some z =>
    rw [Option.map_some, Option.map_some,
      pageByte_setByte m x va b (frame z) (Nat.mod_lt _ (by decide))]
    by_cases hcv : c = d ∧ va' = va
    · obtain ⟨rfl, rfl⟩ := hcv
      rw [hx, Option.some_inj] at hz
      rw [if_pos ⟨by rw [hz], rfl⟩, if_pos ⟨rfl, rfl⟩]
    · rw [if_neg hcv, if_neg]
      rintro ⟨hf, ho⟩
      -- the same frame means the same page number, and not in another address space
      obtain ⟨role, h⟩ := h
      have h1 := h.page c hc _ (userIndex_dirIndex hva') _ (tableIndex_lt va') z hz
      rw [hf, h.page d hd _ (userIndex_dirIndex hva) _ (tableIndex_lt va) x hx] at h1
      simp only [Option.some_inj, Role.page.injEq] at h1
      by_cases hcd : c = d
      · exact hcv ⟨hcd, eq_of_fields h1.1.symm h1.2.symm ho⟩
      · rw [← h1.1, ← h1.2] at hz
        exact hapart hcd z hz hf

/-- **What a handled fault does to reads**: nothing. -/
theorem userRead_pageFault (h : Owns m live) {d c : U32} (hd : d ∈ live) (hc : c ∈ live)
    {va errCode : U32} (hva : 0xC0000000#32 ≤ va) (hf : pageFault m d va errCode = some m')
    {va' : U32} (hva' : 0xC0000000#32 ≤ va') : userRead m' c va' = userRead m c va' := by
  obtain ⟨x, y, hx, -, hre, -, -, hcopy, hkept⟩ := pageFault_spec h hd hva hf
  rw [userRead_eq hre.owns hc, userRead_eq h hc]
  by_cases hhere : c = d ∧ dirIndex va' = dirIndex va ∧ tableIndex va' = tableIndex va
  · obtain ⟨rfl, h1, h2⟩ := hhere
    rw [h1, h2, hre.here, hx, Option.map_some, Option.map_some, pageByte, pageByte,
      hcopy _ (by omega)]
  · rw [hre.elsewhere c hc _ (userIndex_dirIndex hva') _ (tableIndex_lt va') hhere]
    refine Option.map_congr fun z hz => ?_
    rw [pageByte, pageByte, hkept c hc _ (userIndex_dirIndex hva') _ (tableIndex_lt va') z hz
      _ (by omega)]

end Reads

/-! ### The source and its clone -/

inductive Side where
  | source
  | clone
  deriving DecidableEq

/-- The directory of a side. -/
def Side.directory (src clone : U32) : Side → U32
  | .source => src
  | .clone => clone

inductive Access where
  | read (side : Side) (va : U32)
  | write (side : Side) (va : U32) (b : U8)

/-- The machine, and beside it what each side ought to read: the byte it last wrote,
or the one that was there when the clone was made. -/
structure Shared where
  machine : Machine
  expected : Side → U32 → Option U8

def Shared.step (src clone : U32) (s : Shared) : Access → Option Shared
  | .read side va => (userRead s.machine (side.directory src clone) va).map fun _ => s
  | .write side va b =>
    (userWrite s.machine (side.directory src clone) va b).map fun m =>
      { machine := m
        expected := fun t a => if t = side ∧ a = va then some b else s.expected t a }

/-- The access is to user space. -/
def Access.ToUser : Access → Prop
  | .read _ va => 0xC0000000#32 ≤ va
  | .write _ va _ => 0xC0000000#32 ≤ va

instance : ∀ a : Access, Decidable a.ToUser
  | .read _ va => inferInstanceAs (Decidable (0xC0000000#32 ≤ va))
  | .write _ va _ => inferInstanceAs (Decidable (0xC0000000#32 ≤ va))

/-- A write through the source is not to a writable page that the clone still shares. -/
def Access.Unshared (src clone : U32) (s : Shared) : Access → Prop
  | .write .source va _ =>
    ∀ x, entry s.machine src (dirIndex va) (tableIndex va) = some x → writable x = true →
      ∀ y, entry s.machine clone (dirIndex va) (tableIndex va) = some y → frame y ≠ frame x
  | _ => True

/-- The two sides are private memories, and a writable page of the clone is its own. -/
structure Isolated (src clone : U32) (live : List U32) (s : Shared) : Prop where
  owns : Owns s.machine live
  reads : ∀ side va, 0xC0000000#32 ≤ va →
    userRead s.machine (side.directory src clone) va = s.expected side va
  apart : ∀ i, UserIndex i → ∀ j < 1024, ∀ x y, entry s.machine clone i j = some x →
    entry s.machine src i j = some y → writable x = true → frame y ≠ frame x

section Sides

variable {src clone : U32} {live : List U32}

theorem mem_of_side (hsrc : src ∈ live) (hclone : clone ∈ live) (side : Side) :
    side.directory src clone ∈ live := by
  cases side
  · exact hsrc
  · exact hclone

theorem directory_inj (hne : src ≠ clone) {side t : Side} :
    side.directory src clone = t.directory src clone ↔ side = t := by
  cases side <;> cases t <;> simp [Side.directory, hne, hne.symm]

/-- Writing to a page of `side` that the other side does not share. -/
theorem isolated_store (hsrc : src ∈ live) (hclone : clone ∈ live) (hne : src ≠ clone)
    {s : Shared} (h : Isolated src clone live s) {side : Side} {va : U32}
    (hva : 0xC0000000#32 ≤ va) {b : U8} {m : Machine}
    (hstore : userStore s.machine (side.directory src clone) va b = some m)
    (hother : ∀ x, entry s.machine (side.directory src clone) (dirIndex va) (tableIndex va) =
      some x → writable x = true → ∀ t, t ≠ side → ∀ y, entry s.machine
        (t.directory src clone) (dirIndex va) (tableIndex va) = some y → frame y ≠ frame x) :
    Isolated src clone live
      ⟨m, fun t a => if t = side ∧ a = va then some b else s.expected t a⟩ := by
  have hd := mem_of_side hsrc hclone side
  have hal : 4096 ∣ (side.directory src clone).toNat := by
    obtain ⟨role, hr⟩ := h.owns
    exact hr.aligned _ hd
  rw [userStore, walk_eq_entry _ hal] at hstore
  cases hx : entry s.machine (side.directory src clone) (dirIndex va) (tableIndex va) with
  | none =>
    rw [hx] at hstore
    exact absurd hstore (by simp)
  | some x =>
    rw [hx] at hstore
    by_cases hw : writable x = true
    swap
    · simp [hw] at hstore
    simp only [hw, if_true, Option.some_inj] at hstore
    subst hstore
    obtain ⟨howns, hentry⟩ := owns_setByte h.owns hd hva hx b
    refine ⟨howns, fun t va' hva' => ?_, fun i hi j hj y z hy hz => ?_⟩
    · rw [userRead_store h.owns hd (mem_of_side hsrc hclone t) hva hx
        (fun htd y hy => hother x hx hw t (fun hts => htd (by rw [hts])) y hy) b hva',
        h.reads t va' hva']
      exact if_congr (and_congr_left fun _ => directory_inj hne) rfl rfl
    · rw [hentry clone hclone i hi j hj] at hy
      rw [hentry src hsrc i hi j hj] at hz
      exact h.apart i hi j hj y z hy hz

/-- A handled fault gives `side` a page of its own. -/
theorem isolated_fault (hsrc : src ∈ live) (hclone : clone ∈ live) (hne : src ≠ clone)
    {s : Shared} (h : Isolated src clone live s) {side : Side} {va errCode : U32}
    (hva : 0xC0000000#32 ≤ va) {m : Machine}
    (hf : pageFault s.machine (side.directory src clone) va errCode = some m) :
    Isolated src clone live ⟨m, s.expected⟩ ∧
      ∀ x, entry m (side.directory src clone) (dirIndex va) (tableIndex va) = some x →
        ∀ t, t ≠ side → ∀ y, entry m (t.directory src clone) (dirIndex va) (tableIndex va) =
          some y → frame y ≠ frame x := by
  have hd := mem_of_side hsrc hclone side
  have hi := userIndex_dirIndex hva
  have hj := tableIndex_lt va
  obtain ⟨-, y, -, -, hre, hclear, -, -, -⟩ := pageFault_spec h.owns hd hva hf
  -- a page mapped before the fault is marked, so it is not the fresh one
  have hold : ∀ c ∈ live, ∀ i, UserIndex i → ∀ j < 1024, ∀ z, entry s.machine c i j = some z →
      frame z ≠ frame y := by
    intro c hc i hi j hj z hz heq
    obtain ⟨role, hr⟩ := h.owns
    rw [← heq, hr.marked _ (by rw [hr.page c hc i hi j hj z hz]; simp)] at hclear
    exact absurd hclear (by simp)
  have hfresh : ∀ x, entry m (side.directory src clone) (dirIndex va) (tableIndex va) = some x →
      ∀ t, t ≠ side → ∀ z, entry m (t.directory src clone) (dirIndex va) (tableIndex va) =
        some z → frame z ≠ frame x := by
    intro x hx t hts z hz
    have htd : ¬ (t.directory src clone = side.directory src clone ∧
        dirIndex va = dirIndex va ∧ tableIndex va = tableIndex va) :=
      fun hh => hts ((directory_inj hne).mp hh.1)
    rw [hre.here, Option.some_inj] at hx
    rw [hre.elsewhere _ (mem_of_side hsrc hclone t) _ hi _ hj htd] at hz
    rw [← hx]
    exact hold _ (mem_of_side hsrc hclone t) _ hi _ hj z hz
  refine ⟨⟨hre.owns, fun t va' hva' => ?_, fun i hi' j hj' x z hx hz hw => ?_⟩, hfresh⟩
  · rw [userRead_pageFault h.owns hd (mem_of_side hsrc hclone t) hva hf hva']
    exact h.reads t va' hva'
  · by_cases hij : i = dirIndex va ∧ j = tableIndex va
    · obtain ⟨rfl, rfl⟩ := hij
      cases side with
      | source => exact (hfresh z hz .clone (by simp) x hx).symm
      | clone => exact hfresh x hx .source (by simp) z hz
    · dsimp only at hx hz
      rw [hre.elsewhere clone hclone i hi' j hj' fun hh => hij hh.2] at hx
      rw [hre.elsewhere src hsrc i hi' j hj' fun hh => hij hh.2] at hz
      exact h.apart i hi' j hj' x z hx hz hw

/-- **One access** keeps the two sides private memories. -/
theorem isolated_step (hsrc : src ∈ live) (hclone : clone ∈ live) (hne : src ≠ clone)
    {s s' : Shared} {a : Access} (h : Isolated src clone live s)
    (hok : a.ToUser ∧ a.Unshared src clone s) (hstep : s.step src clone a = some s') :
    Isolated src clone live s' := by
  cases a with
  | read side va =>
    obtain ⟨_, -, rfl⟩ := Option.map_eq_some_iff.mp hstep
    exact h
  | write side va b =>
    obtain ⟨hva, hunshared⟩ := hok
    obtain ⟨m, hm, rfl⟩ := Option.map_eq_some_iff.mp hstep
    rw [userWrite] at hm
    cases hs : userStore s.machine (side.directory src clone) va b with
    | some m₁ =>
      rw [hs, Option.some_inj] at hm
      subst hm
      refine isolated_store hsrc hclone hne h hva hs fun x hx hw t hts y hy => ?_
      cases side with
      | source =>
        cases t with
        | source => exact absurd rfl hts
        | clone => exact hunshared x hx hw y hy
      | clone =>
        cases t with
        | source => exact h.apart _ (userIndex_dirIndex hva) _ (tableIndex_lt va) x y hx hy hw
        | clone => exact absurd rfl hts
    | none =>
      rw [hs] at hm
      obtain ⟨m₁, hf, hs'⟩ := Option.bind_eq_some_iff.mp hm
      obtain ⟨h₁, hfresh⟩ := isolated_fault hsrc hclone hne h hva hf
      exact isolated_store hsrc hclone hne h₁ hva hs' fun x hx _ => hfresh x hx

end Sides

/-- Right after the clone both sides read what the source read before. -/
theorem isolated_clone {m m' : Machine} {live : List U32} {src clone : U32}
    (h : Owns m live) (hsrc : src ∈ live) (hc : cloneAddressSpace m src = (m', clone))
    (hne : clone ≠ 0#32) :
    Isolated src clone (clone :: live) ⟨m', fun _ va => userRead m src va⟩ ∧ src ≠ clone := by
  obtain ⟨hkeep, -, hdone⟩ := cloneAddressSpace_spec h hsrc hc
  obtain ⟨howns, hnotin, hentry⟩ := hdone hne
  have hsrc' : src ∈ clone :: live := List.mem_cons_of_mem clone hsrc
  obtain ⟨role, hr⟩ := h
  have hsame : ∀ i, UserIndex i → ∀ j < 1024, entry m' src i j = entry m src i j :=
    fun i hi j hj => hr.entry_of_keeps (fun f hf k hk => hkeep f (hr.marked f hf) k hk) hsrc hi hj
  have hbyte : ∀ va : U32, 0xC0000000#32 ≤ va → ∀ x,
      entry m src (dirIndex va) (tableIndex va) = some x →
      pageByte m' (frame x) (va.toNat % 4096) = pageByte m (frame x) (va.toNat % 4096) := by
    intro va hva x hx
    rw [pageByte, pageByte, hkeep _ (hr.marked _ ?_) _ (by omega)]
    rw [hr.page src hsrc _ (userIndex_dirIndex hva) _ (tableIndex_lt va) x hx]
    simp
  refine ⟨⟨howns, fun side va hva => ?_, fun i hi j hj x y hx _ hw => ?_⟩, ?_⟩
  · have hi := userIndex_dirIndex hva
    have hj := tableIndex_lt va
    show userRead m' (side.directory src clone) va = userRead m src va
    cases side with
    | source =>
      rw [Side.directory, userRead_eq howns hsrc', userRead_eq ⟨role, hr⟩ hsrc, hsame _ hi _ hj]
      exact Option.map_congr fun x hx => hbyte va hva x hx
    | clone =>
      rw [Side.directory, userRead_eq howns List.mem_cons_self, userRead_eq ⟨role, hr⟩ hsrc,
        hentry _ hi _ hj, Option.map_map]
      refine Option.map_congr fun x hx => ?_
      rw [Function.comp, frame_cowEntry]
      exact hbyte va hva x hx
  · dsimp only at hx
    rw [hentry i hi j hj] at hx
    obtain ⟨z, -, rfl⟩ := Option.map_eq_some_iff.mp hx
    rw [writable_cowEntry] at hw
    exact absurd hw (by simp)
  · rintro rfl
    exact hnotin hsrc

/-- **Isolation.**  Take any state that the operations on address spaces reach, any live
source and its clone.  In every run of reads and writes through the two in which the
source does not write to a writable page that the clone shares, each side reads what it
last wrote there, or what the source read when it was cloned. -/
theorem clone_isolated (m₀ : Machine) (calls : List Call)
    (hcalls : Guarded Spaces.step (fun s c => c.WellFormed s ∧ c.LastMapping s) ⟨m₀, []⟩ calls)
    (s : Spaces) (hrun : run Spaces.step ⟨m₀, []⟩ calls = some s) (src : U32)
    (hsrc : src ∈ s.live) (m : Machine) (clone : U32)
    (hclone : cloneAddressSpace s.machine src = (m, clone)) (hne : clone ≠ 0#32)
    (accesses : List Access)
    (hok : Guarded (Shared.step src clone) (fun t a => a.ToUser ∧ a.Unshared src clone t)
      ⟨m, fun _ va => userRead s.machine src va⟩ accesses)
    (t : Shared)
    (haccess : run (Shared.step src clone) ⟨m, fun _ va => userRead s.machine src va⟩ accesses =
      some t) (side : Side) (va : U32) (hva : 0xC0000000#32 ≤ va) :
    userRead t.machine (side.directory src clone) va = t.expected side va := by
  have howns := run_invariant (P := fun s : Spaces => Owns s.machine s.live)
    (fun _ _ _ h hok hstep => step_owns h hok hstep) (owns_nil m₀) hcalls hrun
  obtain ⟨hiso, hsc⟩ := isolated_clone howns hsrc hclone hne
  have hsrc' : src ∈ clone :: s.live := List.mem_cons_of_mem clone hsrc
  have hend := run_invariant (P := Isolated src clone (clone :: s.live))
    (fun _ _ _ h hok hstep => isolated_step hsrc' List.mem_cons_self hsc h hok hstep) hiso hok
    haccess
  exact hend.reads side va hva

/-- A process with one page. -/
def onePage : List Call := [.create, .allocatePage 0x12000 0xC0000000 true true]

theorem guarded_onePage : Guarded Spaces.step (fun s c => c.WellFormed s ∧ c.LastMapping s)
    ⟨identityMapped, []⟩ onePage := by
  refine ⟨⟨trivial, trivial⟩, fun s₁ h₁ => ⟨⟨?_, trivial⟩, fun _ _ => trivial⟩⟩
  have hlive := create_live
  rw [h₁, Option.map_some, Option.some_inj] at hlive
  exact ⟨by simp [hlive], by decide, by decide⟩

/-- What comes of a clone of the process and a write to the page by one side: whether the process
was there, its clone, what the clone then reads, and what it ought to read. -/
def afterWrite (s : Spaces) (side : Side) : Option (Bool × U32 × Option U8 × Option U8) :=
  (run (Shared.step 0x12000 0x25000) ⟨(cloneAddressSpace s.machine 0x12000).1,
    fun _ va => userRead s.machine 0x12000 va⟩ [.write side 0xC0000000 0x41]).map fun t =>
      (decide (0x12000 ∈ s.live), (cloneAddressSpace s.machine 0x12000).2,
        userRead t.machine 0x25000 0xC0000000, t.expected .clone 0xC0000000)

set_option maxRecDepth 100000 in
/-- Both sides at once, since most of the evaluation is the clone. -/
theorem afterWrite_onePage :
    (run Spaces.step ⟨identityMapped, []⟩ onePage).map (fun s =>
      decide (afterWrite s .source = some (true, 0x25000, some 0x41, some 0)) &&
        decide (afterWrite s .clone = some (true, 0x25000, some 0x41, some 0x41))) =
      some true := by
  decide +kernel

theorem write_after_clone (side : Side) :
    (run Spaces.step ⟨identityMapped, []⟩ onePage).bind (fun s => afterWrite s side) =
      some (true, 0x25000, some 0x41, if side = .source then some 0 else some 0x41) := by
  obtain ⟨s, hs, hboth⟩ := Option.map_eq_some_iff.mp afterWrite_onePage
  rw [Bool.and_eq_true, decide_eq_true_iff, decide_eq_true_iff] at hboth
  rw [hs, Option.bind_some]
  cases side with
  | source => exact hboth.1
  | clone => exact hboth.2

/-- The states of that run. -/
theorem exists_write_after_clone (side : Side) :
    ∃ s t, run Spaces.step ⟨identityMapped, []⟩ onePage = some s ∧ 0x12000#32 ∈ s.live ∧
      (cloneAddressSpace s.machine 0x12000).2 = 0x25000#32 ∧
      run (Shared.step 0x12000 0x25000) ⟨(cloneAddressSpace s.machine 0x12000).1,
        fun _ va => userRead s.machine 0x12000 va⟩ [.write side 0xC0000000 0x41] = some t ∧
      userRead t.machine 0x25000 0xC0000000 = some 0x41 ∧
      t.expected .clone 0xC0000000 = if side = .source then some 0 else some 0x41 := by
  obtain ⟨s, hs, hrest⟩ := Option.bind_eq_some_iff.mp (write_after_clone side)
  obtain ⟨t, ht, hval⟩ := Option.map_eq_some_iff.mp hrest
  simp only [Prod.mk.injEq, decide_eq_true_eq] at hval
  exact ⟨s, t, hs, hval.1, hval.2.1, ht, hval.2.2⟩

theorem clone_isolated_write_clone :
    ∃ s t, run Spaces.step ⟨identityMapped, []⟩ onePage = some s ∧
      run (Shared.step 0x12000 0x25000) ⟨(cloneAddressSpace s.machine 0x12000).1,
        fun _ va => userRead s.machine 0x12000 va⟩ [.write .clone 0xC0000000 0x41] = some t ∧
      userRead t.machine 0x12000 0xC0000000 = t.expected .source 0xC0000000 := by
  obtain ⟨s, t, hs, hlive, hclone, ht, -, -⟩ := exists_write_after_clone .clone
  refine ⟨s, t, hs, ht, ?_⟩
  exact clone_isolated identityMapped onePage guarded_onePage s hs 0x12000 hlive
    (cloneAddressSpace s.machine 0x12000).1 0x25000 (Prod.ext rfl hclone) (by decide)
    [.write .clone 0xC0000000 0x41] ⟨⟨BitVec.le_refl _, trivial⟩, fun _ _ => trivial⟩ t ht .source
    0xC0000000 (by decide)

/-- A write through the source right after the clone shows in the clone. -/
theorem clone_sees_write :
    ¬ ∀ (m₀ : Machine) (calls : List Call),
      Guarded Spaces.step (fun s c => c.WellFormed s ∧ c.LastMapping s) ⟨m₀, []⟩ calls →
      ∀ s, run Spaces.step ⟨m₀, []⟩ calls = some s → ∀ src ∈ s.live, ∀ m clone,
      cloneAddressSpace s.machine src = (m, clone) → clone ≠ 0#32 → ∀ accesses : List Access,
      Guarded (Shared.step src clone) (fun _ a => a.ToUser)
        ⟨m, fun _ va => userRead s.machine src va⟩ accesses →
      ∀ t, run (Shared.step src clone) ⟨m, fun _ va => userRead s.machine src va⟩ accesses =
        some t →
      ∀ side va, 0xC0000000#32 ≤ va →
        userRead t.machine (side.directory src clone) va = t.expected side va := by
  intro h
  obtain ⟨s, t, hs, hlive, hclone, ht, hread, hexpected⟩ := exists_write_after_clone .source
  have hsame := h identityMapped onePage guarded_onePage s hs 0x12000 hlive
    (cloneAddressSpace s.machine 0x12000).1 0x25000 (Prod.ext rfl hclone) (by decide)
    [.write .source 0xC0000000 0x41] ⟨BitVec.le_refl _, fun _ _ => trivial⟩ t ht .clone 0xC0000000
    (by decide)
  rw [hexpected, if_pos rfl] at hsame
  exact absurd (hread.symm.trans hsame) (by decide)

end MesaOS.Memory
