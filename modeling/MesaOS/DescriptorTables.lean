/-
The interrupt and the segment descriptor table (`idt.cpp`, `gdt.cpp`).

The fields of an entry are scattered over its eight bytes, and the processor puts them together
again.

* `segmentAt_setGate` — what the processor makes of the arguments of `GDT::set_gate`;
* `gateAt_initialize` — the gates behind `IDT::initialize`, one for the stub of each vector;
* `segmentAt_initialize` — the segments that `GDT::initialize` leaves in the table.
-/
import Mathlib.Data.Fintype.Basic
import MesaOS.IA32
import MesaOS.StoreLog

open MachineWord IA32

namespace MesaOS.Arch

/-! ### Segments -/

/-- `struct GDTEntry` -/
structure GDTEntry where
  limitLow : U16 := 0
  baseLow : U16 := 0
  baseMiddle : U8 := 0
  access : U8 := 0
  granularity : U8 := 0
  baseHigh : U8 := 0

/-- The bytes of the packed struct. -/
def GDTEntry.bytes (e : GDTEntry) : List U8 :=
  le16 e.limitLow ++ (le16 e.baseLow ++ [e.baseMiddle, e.access, e.granularity, e.baseHigh])

/-- What `GDT::set_gate` stores in an entry. -/
def GDTEntry.ofGate (base limit : U32) (access gran : U8) : GDTEntry where
  baseLow := (base &&& 0xFFFF).setWidth 16
  baseMiddle := ((base >>> 16) &&& 0xFF).setWidth 8
  baseHigh := ((base >>> 24) &&& 0xFF).setWidth 8
  limitLow := (limit &&& 0xFFFF).setWidth 16
  granularity := ((limit >>> 16) &&& 0x0F).setWidth 8 ||| (gran &&& 0xF0)
  access := access

/-- `GDT::set_gate` -/
def GDT.setGate (entries : ℕ → GDTEntry) (num : ℕ) (base limit : U32) (access gran : U8) :
    ℕ → GDTEntry :=
  Function.update entries num (.ofGate base limit access gran)

/-- `GDT::initialize`, up to `gdt_flush`. -/
def GDT.initializeEntries (entries : ℕ → GDTEntry) : ℕ → GDTEntry :=
  let entries := setGate entries 0 0 0 0 0
  let entries := setGate entries 1 0 0xFFFFFFFF 0x9A 0xCF
  let entries := setGate entries 2 0 0xFFFFFFFF 0x92 0xCF
  let entries := setGate entries 3 0 0xFFFFFFFF 0xFA 0xCF
  setGate entries 4 0 0xFFFFFFFF 0xF2 0xCF

/-! ### Gates -/

/-- The labels of `interrupts.s` that a gate leads to. -/
inductive Stub
  | isr (num : Fin 32)
  | irq (num : Fin 16)
  | syscallHandler
  deriving DecidableEq

/-- `struct IDTEntry` -/
structure IDTEntry where
  baseLow : U16 := 0
  selector : U16 := 0
  zero : U8 := 0
  flags : U8 := 0
  baseHigh : U16 := 0

def IDTEntry.bytes (e : IDTEntry) : List U8 :=
  le16 e.baseLow ++ (le16 e.selector ++ (e.zero :: e.flags :: le16 e.baseHigh))

/-- What `IDT::set_gate` stores in an entry. -/
def IDTEntry.ofGate (base : U32) (selector : U16) (flags : U8) : IDTEntry where
  baseLow := (base &&& 0xFFFF).setWidth 16
  baseHigh := ((base >>> 16) &&& 0xFFFF).setWidth 16
  selector := selector
  flags := flags

/-- The calls of `IDT::set_gate`: the vector, the label and the flags. -/
def gates : List (ℕ × Stub × U8) :=
  (List.finRange 32).map (fun num => (num.val, .isr num, 0x8E)) ++
    ((List.finRange 16).map (fun num => (32 + num.val, .irq num, 0x8E)) ++
      [(128, .syscallHandler, 0xEE)])

/-- `IDT::initialize`, without the controllers and up to `idt_flush`; `address` is where the
labels are. -/
def IDT.initializeEntries (address : Stub → U32) : ℕ → IDTEntry :=
  StoreLog.apply (fun _ => {})
    (gates.map fun g => (g.1, IDTEntry.ofGate (address g.2.1) 0x08 g.2.2))

/-- The stub of a vector. -/
def stubOf (vector : ℕ) : Option Stub :=
  if h : vector < 32 then some (.isr ⟨vector, h⟩)
  else if h : vector < 48 then some (.irq ⟨vector - 32, by omega⟩)
  else if vector = 128 then some .syscallHandler
  else none

/-- The privilege level from which `int` may name the vector. -/
def privilegeOf (vector : ℕ) : BitVec 2 := if vector = 128 then 3 else 0

/-! ### Tables in memory -/

/-- The entries of `n` descriptors lie in memory from `base` on. -/
def Loaded (m : ℕ → U8) (base n : ℕ) (bytes : ℕ → List U8) : Prop :=
  ∀ k < n, ∀ j < 8, m (base + 8 * k + j) = bufferOf (bytes k) j

variable {m : ℕ → U8} {base n : ℕ} {bytes : ℕ → List U8}

theorem Loaded.get16 (h : Loaded m base n bytes) {k j : ℕ} (hk : k < n) (hj : j < 7) :
    MachineWord.get16 m (base + 8 * k + j) = MachineWord.get16 (bufferOf (bytes k)) j := by
  rw [MachineWord.get16, MachineWord.get16, h k hk j (by omega), ← h k hk (j + 1) (by omega)]
  rfl

/-- A table that is stored entry by entry. -/
theorem loaded_flatMap (base : ℕ) (hlength : ∀ k < n, (bytes k).length = 8) :
    Loaded (fun a => bufferOf ((List.range n).flatMap bytes) (a - base)) base n bytes := by
  intro k hk j hj
  have hplace : base + 8 * k + j - base = 8 * k + j := by omega
  dsimp only
  rw [hplace, bufferOf_flatMap_range hlength hk hj]

/-! ### What the processor reads -/

/-- A field that is shifted down and masked. -/
theorem setWidth_shift_and {k w : ℕ} {mask : U32} (hmask : mask.setWidth w = BitVec.allOnes w)
    (x : U32) : ((x >>> k) &&& mask).setWidth w = x.extractLsb' k w := by
  rw [BitVec.setWidth_and, hmask, BitVec.and_allOnes, BitVec.setWidth_ushiftRight_eq_extractLsb]

theorem setWidth_low (x : U32) : (x &&& 0xFFFF).setWidth 16 = x.extractLsb' 0 16 := by
  have h : ((x >>> 0) &&& 0xFFFF).setWidth 16 = x.extractLsb' 0 16 := setWidth_shift_and rfl x
  rwa [BitVec.ushiftRight_zero] at h

theorem setWidth_high (x : U32) : ((x >>> 16) &&& 0xFFFF).setWidth 16 = x.extractLsb' 16 16 :=
  setWidth_shift_and rfl x

theorem setWidth_byte (x : U32) (k : ℕ) : ((x >>> k) &&& 0xFF).setWidth 8 = x.extractLsb' k 8 :=
  setWidth_shift_and rfl x

theorem extractLsb'_append {w : ℕ} (x : BitVec w) (k a b : ℕ) :
    x.extractLsb' (k + a) b ++ x.extractLsb' k a = x.extractLsb' k (b + a) :=
  BitVec.extractLsb'_append_extractLsb'_eq_extractLsb' rfl

/-- The gate of an entry. -/
theorem gateAt_eq (h : Loaded m base n bytes) {k : ℕ} (hk : k < n) {offset : U32}
    {selector : U16} {flags : U8} (hbytes : bytes k = (IDTEntry.ofGate offset selector flags).bytes) :
    gateAt m base k =
      if flags.getLsbD 7 ∧ flags.extractLsb' 0 5 = 0x0E then
        some ⟨selector, offset, flags.extractLsb' 5 2⟩
      else none := by
  have hflags : m (base + 8 * k + 5) = flags := by
    rw [h k hk 5 (by omega), hbytes]
    rfl
  have hselector : get16 m (base + 8 * k + 2) = selector := by
    rw [h.get16 hk (by omega), hbytes]
    exact get16_eq (le16 _) rfl rfl
  have hlow : get16 m (base + 8 * k) = offset.extractLsb' 0 16 := by
    have hfirst := h.get16 hk (j := 0) (by omega)
    rw [Nat.add_zero] at hfirst
    rw [hfirst, hbytes, ← setWidth_low offset]
    exact get16_eq [] rfl rfl
  have hhigh : get16 m (base + 8 * k + 6) = offset.extractLsb' 16 16 := by
    rw [h.get16 hk (by omega), hbytes, ← setWidth_high offset]
    exact get16_eq (le16 _ ++ (le16 _ ++ [_, _])) rfl rfl
  have hoffset : offset.extractLsb' 16 16 ++ offset.extractLsb' 0 16 = offset :=
    (extractLsb'_append offset 0 16 16).trans BitVec.extractLsb'_eq_self
  rw [gateAt, hflags, hselector, hlow, hhigh, hoffset]

/-- The byte that holds four bits of the limit and four flags. -/
theorem getLsbD_granularity (limit : U32) (gran : U8) {i : ℕ} (hi : i < 8) :
    (((limit >>> 16) &&& 0x0F).setWidth 8 ||| (gran &&& 0xF0)).getLsbD i =
      if i < 4 then limit.getLsbD (16 + i) else gran.getLsbD i := by
  have hlow : ∀ i < 8, (0x0F : U32).getLsbD i = decide (i < 4) := by decide
  have hhigh : ∀ i < 8, (0xF0 : U8).getLsbD i = !decide (i < 4) := by decide
  rw [BitVec.getLsbD_or, BitVec.getLsbD_setWidth, BitVec.getLsbD_and, BitVec.getLsbD_and,
    BitVec.getLsbD_ushiftRight, hlow i hi, hhigh i hi]
  by_cases h : i < 4
  · simp [h, hi]
  · simp [h]

/-- The segment of an entry.  Of the limit 20 bits are left. -/
theorem segmentAt_setGate (h : Loaded m base n bytes) {selector : U16}
    (hk : selector.toNat / 8 < n) {start limit : U32} {access gran : U8}
    (hbytes : bytes (selector.toNat / 8) = (GDTEntry.ofGate start limit access gran).bytes) :
    segmentAt m base selector =
      if access.getLsbD 7 ∧ access.getLsbD 4 then
        some
          { base := start
            limit := if gran.getLsbD 7 then limit.extractLsb' 0 20 ++ 0xFFF#12
              else (limit.extractLsb' 0 20).setWidth 32
            privilege := access.extractLsb' 5 2
            code := access.getLsbD 3
            big := gran.getLsbD 6 }
      else none := by
  set k := selector.toNat / 8 with hkdef
  let granularity := ((limit >>> 16) &&& 0x0F).setWidth 8 ||| (gran &&& 0xF0)
  have haccess : m (base + 8 * k + 5) = access := by
    rw [h k hk 5 (by omega), hbytes]
    rfl
  have hflags : m (base + 8 * k + 6) = granularity := by
    rw [h k hk 6 (by omega), hbytes]
    rfl
  have hmiddle : m (base + 8 * k + 4) = start.extractLsb' 16 8 := by
    rw [h k hk 4 (by omega), hbytes, ← setWidth_byte start]
    rfl
  have htop : m (base + 8 * k + 7) = start.extractLsb' 24 8 := by
    rw [h k hk 7 (by omega), hbytes, ← setWidth_byte start]
    rfl
  have hlow : get16 m (base + 8 * k + 2) = start.extractLsb' 0 16 := by
    rw [h.get16 hk (by omega), hbytes, ← setWidth_low start]
    exact get16_eq (le16 _) rfl rfl
  have hlimit : get16 m (base + 8 * k) = limit.extractLsb' 0 16 := by
    have hfirst := h.get16 hk (j := 0) (by omega)
    rw [Nat.add_zero] at hfirst
    rw [hfirst, hbytes, ← setWidth_low limit]
    exact get16_eq [] rfl rfl
  have hstart : start.extractLsb' 24 8 ++ (start.extractLsb' 16 8 ++ start.extractLsb' 0 16) =
      start := by
    have hfront := extractLsb'_append start 0 16 8
    exact (congrArg (start.extractLsb' 24 8 ++ ·) hfront).trans
      ((extractLsb'_append start 0 24 8).trans BitVec.extractLsb'_eq_self)
  have hparts : limit.extractLsb' 16 4 ++ limit.extractLsb' 0 16 = limit.extractLsb' 0 20 :=
    extractLsb'_append limit 0 16 4
  have hnibble : granularity.extractLsb' 0 4 = limit.extractLsb' 16 4 := by
    apply BitVec.eq_of_getLsbD_eq
    intro i hi
    rw [BitVec.getLsbD_extractLsb', BitVec.getLsbD_extractLsb', Nat.zero_add,
      getLsbD_granularity limit gran (by omega), if_pos hi]
  have hrest : ∀ i, 4 ≤ i → i < 8 → granularity.getLsbD i = gran.getLsbD i := by
    intro i hi hi8
    rw [getLsbD_granularity limit gran hi8, if_neg (by omega)]
  rw [segmentAt, ← hkdef, haccess, hflags, hmiddle, htop, hlow, hlimit, hstart, hnibble,
    hrest 6 (by omega) (by omega), hrest 7 (by omega) (by omega), hparts]

/-! ### The tables of the kernel -/

/-- Every stub has a call of `set_gate`, with flags of an interrupt gate. -/
theorem mem_gates {vector : ℕ} {stub : Stub} (h : stubOf vector = some stub) :
    ∃ flags, (vector, stub, flags) ∈ gates ∧ flags.getLsbD 7 ∧ flags.extractLsb' 0 5 = 0x0E ∧
      flags.extractLsb' 5 2 = privilegeOf vector := by
  rw [stubOf] at h
  by_cases hisr : vector < 32
  · rw [dif_pos hisr, Option.some_inj] at h
    have hmem : (vector, Stub.isr ⟨vector, hisr⟩, (0x8E : U8)) ∈ gates :=
      List.mem_append_left _ (List.mem_map_of_mem (List.mem_finRange ⟨vector, hisr⟩))
    refine ⟨0x8E, h ▸ hmem, ?_⟩
    rw [privilegeOf, if_neg (by omega)]
    decide
  rw [dif_neg hisr] at h
  by_cases hirq : vector < 48
  · rw [dif_pos hirq, Option.some_inj] at h
    have hmem : (32 + (vector - 32), Stub.irq ⟨vector - 32, by omega⟩, (0x8E : U8)) ∈ gates :=
      List.mem_append_right _ (List.mem_append_left _
        (List.mem_map_of_mem (List.mem_finRange (⟨vector - 32, by omega⟩ : Fin 16))))
    rw [Nat.add_sub_cancel' (by omega)] at hmem
    refine ⟨0x8E, h ▸ hmem, ?_⟩
    rw [privilegeOf, if_neg (by omega)]
    decide
  rw [dif_neg hirq, Option.ite_none_right_eq_some, Option.some_inj] at h
  obtain ⟨rfl, rfl⟩ := h
  exact ⟨0xEE, List.mem_append_right _ (List.mem_append_right _ (List.mem_singleton.mpr rfl)),
    by decide⟩

theorem stubOf_of_mem {g : ℕ × Stub × U8} (h : g ∈ gates) : stubOf g.1 = some g.2.1 := by
  rcases List.mem_append.mp h with hisr | h
  · obtain ⟨num, -, rfl⟩ := List.mem_map.mp hisr
    exact dif_pos num.isLt
  rcases List.mem_append.mp h with hirq | hsyscall
  · obtain ⟨num, -, rfl⟩ := List.mem_map.mp hirq
    have hstub : num = ⟨32 + num.val - 32, by omega⟩ := Fin.ext (by simp)
    rw [stubOf, dif_neg (by dsimp only; omega), dif_pos (by dsimp only; omega)]
    exact congrArg (fun n => some (Stub.irq n)) hstub.symm
  · obtain rfl := List.mem_singleton.mp hsyscall
    rfl

theorem nodup_gates : (gates.map Prod.fst).Nodup := by decide

/-- The entries behind `IDT::initialize`. -/
theorem initializeEntries_of_mem (address : Stub → U32) {vector : ℕ} {stub : Stub} {flags : U8}
    (h : (vector, stub, flags) ∈ gates) :
    IDT.initializeEntries address vector = .ofGate (address stub) 0x08 flags := by
  refine StoreLog.apply_of_mem ?_ (List.mem_map_of_mem h)
  rw [StoreLog.places, List.map_map]
  exact nodup_gates

theorem initializeEntries_of_none (address : Stub → U32) {vector : ℕ}
    (h : stubOf vector = none) : IDT.initializeEntries address vector = .ofGate 0 0 0 := by
  refine StoreLog.apply_of_notMem fun hmem => ?_
  rw [StoreLog.places, List.map_map] at hmem
  obtain ⟨g, hg, rfl⟩ := List.mem_map.mp hmem
  exact absurd (h.symm.trans (stubOf_of_mem hg)) (Option.some_ne_none _).symm

/-- The gates behind `IDT::initialize`. -/
theorem gateAt_initialize {address : Stub → U32}
    (h : Loaded m base 256 fun k => (IDT.initializeEntries address k).bytes) {vector : ℕ}
    (hvector : vector < 256) :
    gateAt m base vector =
      (stubOf vector).map fun stub => ⟨0x08, address stub, privilegeOf vector⟩ := by
  cases hstub : stubOf vector with
  | none =>
    rw [gateAt_eq h hvector (congrArg IDTEntry.bytes (initializeEntries_of_none address hstub))]
    rfl
  | some stub =>
    obtain ⟨flags, hmem, hpresent, hkind, hprivilege⟩ := mem_gates hstub
    rw [gateAt_eq h hvector (congrArg IDTEntry.bytes (initializeEntries_of_mem address hmem)),
      if_pos ⟨hpresent, hkind⟩, hprivilege]
    rfl

/-- The selectors of the code and the data segments, with their privilege levels. -/
def selectors : List (U16 × BitVec 2 × Bool) :=
  [(0x08, 0, true), (0x10, 0, false), (0x1B, 3, true), (0x23, 3, false)]

/-- All segments begin at 0 and reach to the end of memory. -/
theorem segmentAt_initialize {entries : ℕ → GDTEntry}
    (h : Loaded m base 5 fun k => (GDT.initializeEntries entries k).bytes) {selector : U16}
    {privilege : BitVec 2} {code : Bool} (hmem : (selector, privilege, code) ∈ selectors) :
    segmentAt m base selector = some ⟨0, 0xFFFFFFFF, privilege, code, true⟩ := by
  have hentry : ∃ access : U8, selector.toNat / 8 < 5 ∧
      GDT.initializeEntries entries (selector.toNat / 8) = .ofGate 0 0xFFFFFFFF access 0xCF ∧
      access.getLsbD 7 ∧ access.getLsbD 4 ∧ access.extractLsb' 5 2 = privilege ∧
      access.getLsbD 3 = code := by
    simp only [selectors, List.mem_cons, Prod.mk.injEq, List.not_mem_nil, or_false] at hmem
    rcases hmem with ⟨rfl, rfl, rfl⟩ | ⟨rfl, rfl, rfl⟩ | ⟨rfl, rfl, rfl⟩ | ⟨rfl, rfl, rfl⟩
    · exact ⟨0x9A, by decide, rfl, by decide⟩
    · exact ⟨0x92, by decide, rfl, by decide⟩
    · exact ⟨0xFA, by decide, rfl, by decide⟩
    · exact ⟨0xF2, by decide, rfl, by decide⟩
  obtain ⟨access, hk, hbytes, hpresent, hsegment, rfl, rfl⟩ := hentry
  rw [segmentAt_setGate h hk (congrArg GDTEntry.bytes hbytes), if_pos ⟨hpresent, hsegment⟩]
  rfl

/-- An offset in one of the segments is an address. -/
theorem linear_flat (privilege : BitVec 2) (code : Bool) (offset : U32) :
    Segment.linear ⟨0, 0xFFFFFFFF, privilege, code, true⟩ offset = some offset := by
  have hle : offset ≤ 0xFFFFFFFF := by
    rw [BitVec.le_def]
    have hlt := offset.isLt
    change offset.toNat ≤ 4294967295
    omega
  exact (if_pos hle).trans (congrArg some (BitVec.zero_add offset))

end MesaOS.Arch
