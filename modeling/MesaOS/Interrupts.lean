/-
The interrupt stubs and the handlers they call (`interrupts.s`, `isr.cpp`).

A stub pushes what the processor has left of the interrupted program, so that the stack holds a
`struct Registers`, and calls a C function with a pointer to it; behind the call it loads
everything from the structure that the returned pointer points to.

* `run_enter` — the C function gets the registers of the interrupted program;
* `run_leave` — behind the call the processor is what the returned structure says;
* `interrupt_transparent` — a handler that returns its argument and leaves the structure alone is
  not noticed;
* `irqHandler_eq` — an interrupt request gets its own vector, and `irq_handler` acknowledges it
  before it calls the handler, so that the controllers are left as they were.
-/
import MesaOS.DescriptorTables
import MesaOS.PIC8259
import MesaOS.Scheduler

open MachineWord IA32 ByteMemory Runs MesaOS.System

namespace MesaOS.Arch

/-! ### The stubs -/

/-- The exceptions with an `ISR_ERRCODE` stub. -/
def errCodeStubs : List ℕ := [8, 10, 11, 12, 13, 14, 17, 30]

namespace Stub

/-- The number that the stub pushes. -/
def number : Stub → U32
  | isr num => BitVec.ofNat 32 num.val
  | irq num => BitVec.ofNat 32 (32 + num.val)
  | syscallHandler => 128

/-- The stub leaves it to the processor to push an error code. -/
def hasErrCode : Stub → Bool
  | isr num => num.val ∈ errCodeStubs
  | irq _ => false
  | syscallHandler => false

/-- `ISR_NOERRCODE`, `ISR_ERRCODE`, `IRQ` and `syscall_handler` up to the jump. -/
def code (stub : Stub) : List Instr :=
  if stub.hasErrCode then [.cli, .pushImm stub.number]
  else [.cli, .pushImm 0, .pushImm stub.number]

end Stub

/-- Behind `pusha`, up to the call. -/
def changeSegments : List Instr :=
  [.movSegReg .ds .eax, .push .eax, .movImmReg 0x10 .eax, .movRegSeg .eax .ds,
    .movRegSeg .eax .es, .movRegSeg .eax .fs, .movRegSeg .eax .gs, .push .esp]

/-- `isr_common_stub` and `irq_common_stub` up to the call. -/
def commonEntry : List Instr := .pusha :: changeSegments

/-- Behind the call, as far as the data segment. -/
def restoreSegments : List Instr :=
  [.mov .eax .esp, .pop .ebx, .movRegSeg .ebx .ds, .movRegSeg .ebx .es, .movRegSeg .ebx .fs,
    .movRegSeg .ebx .gs]

/-- `isr_common_stub` and `irq_common_stub` behind the call. -/
def commonExit : List Instr := restoreSegments ++ [.popa, .addImm 8 .esp, .sti, .iret]

/-! ### The structure on the stack -/

/-- `*(Registers*)a` -/
def getRegisters (m : ℕ → U8) (a : ℕ) : Registers where
  ds := get32 m a
  edi := get32 m (a + 4)
  esi := get32 m (a + 8)
  ebp := get32 m (a + 12)
  esp := get32 m (a + 16)
  ebx := get32 m (a + 20)
  edx := get32 m (a + 24)
  ecx := get32 m (a + 28)
  eax := get32 m (a + 32)
  intNo := get32 m (a + 36)
  errCode := get32 m (a + 40)
  eip := get32 m (a + 44)
  cs := get32 m (a + 48)
  eflags := get32 m (a + 52)

/-- What a stub leaves of a program in the structure.  `ds` is moved to the lower half of `eax`,
and `esp` is the stack pointer that `pusha` finds. -/
def saved (c : Cpu) (number errCode : U32) : Registers where
  ds := setLow (c.reg .eax) (c.seg .ds)
  edi := c.reg .edi
  esi := c.reg .esi
  ebp := c.reg .ebp
  esp := c.reg .esp - 20
  ebx := c.reg .ebx
  edx := c.reg .edx
  ecx := c.reg .ecx
  eax := c.reg .eax
  intNo := number
  errCode := errCode
  eip := c.eip
  cs := (c.seg .cs).setWidth 32
  eflags := c.eflags

/-- The processor behind `iret`, with the stack pointer `sp`. -/
def restored (r : Registers) (sp : U32) : Cpu where
  reg
    | .eax => r.eax
    | .ecx => r.ecx
    | .edx => r.edx
    | .ebx => r.ebx
    | .esp => sp
    | .ebp => r.ebp
    | .esi => r.esi
    | .edi => r.edi
  seg
    | .cs => r.cs.setWidth 16
    | .ds | .es | .fs | .gs => r.ds.setWidth 16
  eip := r.eip
  eflags := r.eflags

/-- All data segments are the one in `ds`. -/
def flat (c : Cpu) : Cpu :=
  { c with seg := fun | .cs => c.seg .cs | .ds | .es | .fs | .gs => c.seg .ds }

theorem cs_saved (c : Cpu) (number errCode : U32) :
    (saved c number errCode).cs.setWidth 16 = c.seg .cs := by
  have hle : 16 ≤ 32 := by decide
  exact (BitVec.setWidth_setWidth_of_le (c.seg .cs) hle).trans (BitVec.setWidth_eq _)

theorem restored_saved (c : Cpu) (number errCode : U32) :
    restored (saved c number errCode) (c.reg .esp) = flat c := by
  have hreg : (restored (saved c number errCode) (c.reg .esp)).reg = c.reg := by
    funext r
    cases r <;> rfl
  have hseg : (restored (saved c number errCode) (c.reg .esp)).seg = (flat c).seg := by
    funext g
    cases g with
    | cs => exact cs_saved c number errCode
    | ds => exact setWidth_setLow ..
    | es => exact setWidth_setLow ..
    | fs => exact setWidth_setLow ..
    | gs => exact setWidth_setLow ..
  rw [Cpu.mk.injEq]
  exact ⟨hreg, hseg, rfl, rfl⟩

theorem getRegisters_congr {m m' : ℕ → U8} {a : ℕ} (h : ∀ j < 56, m (a + j) = m' (a + j)) :
    getRegisters m a = getRegisters m' a := by
  have hword : ∀ k, k + 4 ≤ 56 → get32 m (a + k) = get32 m' (a + k) := fun k hk =>
    get32_congr fun j hj => by rw [Nat.add_assoc, h (k + j) (by omega)]
  have hfirst : get32 m a = get32 m' a := hword 0 (by omega)
  rw [getRegisters, getRegisters, hfirst]
  simp only [hword, Nat.reduceAdd, Nat.reduceLeDiff]

/-! ### Into the handler -/

/-- What the processor and the stub push. -/
def pushedWords (c : Cpu) (number errCode : U32) : List U32 :=
  [c.eflags, (c.seg .cs).setWidth 32, c.eip, errCode, number]

/-- All that is pushed up to the call, from a state with the stack pointer `sp`. -/
def frameWords (c : Cpu) (number errCode : U32) : List U32 :=
  pushedWords c number errCode ++
    [c.reg .eax, c.reg .ecx, c.reg .edx, c.reg .ebx, c.reg .esp - 20, c.reg .ebp, c.reg .esi,
      c.reg .edi, setLow (c.reg .eax) (c.seg .ds), c.reg .esp - 56]

/-- A state in which the stub has masked interrupts and pushed `xs`. -/
structure Pushed (s : State) (xs : List U32) (t : State) : Prop where
  mem : t.mem = (pushAll s xs).mem
  reg : t.cpu.reg = (pushAll s xs).cpu.reg
  cs : t.cpu.seg .cs = 0x08
  ds : t.cpu.seg .ds = s.cpu.seg .ds
  masked : t.cpu.eflags &&& interruptFlag = 0

theorem and_not_and_interruptFlag (x : U32) : (x &&& ~~~interruptFlag) &&& interruptFlag = 0 := by
  rw [BitVec.and_assoc, BitVec.and_comm (~~~interruptFlag), BitVec.and_not_self]
  exact BitVec.and_zero

/-- The processor and the stub. -/
theorem run_code (s : State) {stub : Stub} (offset : U32) {errCode : Option U32}
    (herr : errCode.isSome = stub.hasErrCode) :
    ∃ t, run step (deliver s 0x08 offset errCode) stub.code = some t ∧
      Pushed s (pushedWords s.cpu stub.number (errCode.getD 0)) t := by
  rw [Stub.code, ← herr]
  cases errCode with
  | none => exact ⟨_, rfl, rfl, rfl, rfl, rfl, and_not_and_interruptFlag _⟩
  | some x => exact ⟨_, rfl, rfl, rfl, rfl, rfl, and_not_and_interruptFlag _⟩

theorem run_pusha (t : State) (rest : List Instr) :
    run step t (.pusha :: rest) = run step (pushAll t (pushaOrder.map t.cpu.reg)) rest := rfl

theorem run_changeSegments (t : State) :
    ∃ u, run step t changeSegments = some u ∧
      u.mem = (pushAll t [setLow (t.cpu.reg .eax) (t.cpu.seg .ds), t.sp - 4]).mem ∧
      u.sp = t.sp - 4 - 4 ∧ u.cpu.seg .cs = t.cpu.seg .cs ∧ u.cpu.eflags = t.cpu.eflags ∧
      ∀ g, g ≠ .cs → u.cpu.seg g = 0x10 := by
  refine ⟨_, rfl, rfl, rfl, rfl, rfl, fun g hg => ?_⟩
  cases g with
  | cs => exact absurd rfl hg
  | ds => exact setWidth_setLow ..
  | es => exact setWidth_setLow ..
  | fs => exact setWidth_setLow ..
  | gs => exact setWidth_setLow ..

/-- Up to the call of the handler. -/
structure Entered (s : State) (number errCode : U32) (t : State) : Prop where
  mem : t.mem = (pushAll s (frameWords s.cpu number errCode)).mem
  sp : t.sp = s.sp - 60
  cs : t.cpu.seg .cs = 0x08
  data : ∀ g, g ≠ .cs → t.cpu.seg g = 0x10
  masked : t.cpu.eflags &&& interruptFlag = 0

theorem run_enter (s : State) {stub : Stub} (offset : U32) {errCode : Option U32}
    (herr : errCode.isSome = stub.hasErrCode) :
    ∃ t, run step (deliver s 0x08 offset errCode) (stub.code ++ commonEntry) = some t ∧
      Entered s stub.number (errCode.getD 0) t := by
  obtain ⟨t, hcode, ht⟩ := run_code s offset herr
  set pushed := pushedWords s.cpu stub.number (errCode.getD 0) with hpushed
  have hsp : t.sp = s.sp - 20 := by
    have hall := congrFun ht.reg .esp
    rw [cpu_pushAll, Cpu.reg_setReg_self] at hall
    exact hall
  have hreg : ∀ r, r ≠ .esp → t.cpu.reg r = s.cpu.reg r := by
    intro r hr
    rw [ht.reg, cpu_pushAll, Cpu.reg_setReg_of_ne _ hr]
  set t' := pushAll t (pushaOrder.map t.cpu.reg) with ht'
  have hcpu : t'.cpu = t.cpu.setReg .esp (t.sp - 32) := cpu_pushAll ..
  have hsp' : t'.sp = s.sp - 52 := by
    rw [State.sp, hcpu, Cpu.reg_setReg_self, hsp, BitVec.sub_sub]
    rfl
  obtain ⟨u, hrun, hmem, husp, hcs, hflags, hdata⟩ := run_changeSegments t'
  have heax : t'.cpu.reg .eax = s.cpu.reg .eax := by
    rw [hcpu, Cpu.reg_setReg_of_ne _ (by decide), hreg _ (by decide)]
  have hds : t'.cpu.seg .ds = s.cpu.seg .ds := by
    rw [hcpu]
    exact ht.ds
  have hwords : pushaOrder.map t.cpu.reg = [s.cpu.reg .eax, s.cpu.reg .ecx, s.cpu.reg .edx,
      s.cpu.reg .ebx, s.sp - 20, s.cpu.reg .ebp, s.cpu.reg .esi, s.cpu.reg .edi] := by
    rw [← hsp]
    simp only [pushaOrder, List.map_cons, List.map_nil]
    rw [hreg .eax (by decide), hreg .ecx (by decide), hreg .edx (by decide), hreg .ebx (by decide),
      hreg .ebp (by decide), hreg .esi (by decide), hreg .edi (by decide)]
    rfl
  refine ⟨u, ?_, ?_, ?_, ?_, hdata, ?_⟩
  · rw [run_append, hcode, Option.bind_some, commonEntry, run_pusha, hrun]
  · rw [hmem, heax, hds, hsp', ht', ← pushAll_append, hwords,
      mem_pushAll_congr ht.reg ht.mem, ← pushAll_append, BitVec.sub_sub]
    rfl
  · rw [husp, hsp', BitVec.sub_sub, BitVec.sub_sub]
    rfl
  · rw [hcs, hcpu]
    exact ht.cs
  · rw [hflags, hcpu]
    exact ht.masked

/-- A stub pushes the vector whose gate leads to it. -/
theorem number_of_stubOf {vector : ℕ} {stub : Stub} (h : stubOf vector = some stub) :
    stub.number = BitVec.ofNat 32 vector := by
  rw [stubOf] at h
  by_cases hisr : vector < 32
  · rw [dif_pos hisr, Option.some_inj] at h
    exact h ▸ rfl
  rw [dif_neg hisr] at h
  by_cases hirq : vector < 48
  · rw [dif_pos hirq, Option.some_inj] at h
    subst h
    have hback : 32 + (vector - 32) = vector := Nat.add_sub_cancel' (by omega)
    exact congrArg (BitVec.ofNat 32) hback
  rw [dif_neg hirq, Option.ite_none_right_eq_some, Option.some_inj] at h
  obtain ⟨rfl, rfl⟩ := h
  rfl

variable {s t : State} {number errCode : U32}

theorem length_frameWords (c : Cpu) (number errCode : U32) :
    (frameWords c number errCode).length = 15 := rfl

/-- The word at `4 * i + 4` below the old stack pointer. -/
theorem Entered.get32 (h : Entered s number errCode t) (hroom : 60 ≤ s.sp.toNat) {a i : ℕ}
    (hi : i < 15) (ha : a + 4 * (i + 1) = s.sp.toNat) :
    MachineWord.get32 t.mem a = (frameWords s.cpu number errCode).getD i 0 := by
  have hlength : i < (frameWords s.cpu number errCode).length := hi
  rw [h.mem, List.getD_eq_getElem _ _ hlength]
  exact get32_pushAll_of_add (by rw [length_frameWords]; omega) hlength ha

/-- The argument of the handler. -/
theorem Entered.argument (h : Entered s number errCode t) (hroom : 60 ≤ s.sp.toNat) :
    MachineWord.get32 t.mem t.sp.toNat = s.sp - 56 := by
  have hsp : t.sp.toNat = s.sp.toNat - 60 := by
    have hle : (60 : U32) ≤ s.sp := BitVec.le_def.mpr hroom
    rw [h.sp, BitVec.toNat_sub_of_le hle]
    rfl
  exact h.get32 hroom (i := 14) (by omega) (by omega)

/-- The structure that the argument points to. -/
theorem Entered.getRegisters (h : Entered s number errCode t) (hroom : 60 ≤ s.sp.toNat) :
    Arch.getRegisters t.mem (s.sp.toNat - 56) = saved s.cpu number errCode := by
  have hword : ∀ k < 14, MachineWord.get32 t.mem (s.sp.toNat - 56 + 4 * k) =
      (frameWords s.cpu number errCode).getD (13 - k) 0 := fun k hk =>
    h.get32 hroom (by omega) (by omega)
  rw [Arch.getRegisters, Registers.mk.injEq]
  exact ⟨hword 0 (by omega), hword 1 (by omega), hword 2 (by omega), hword 3 (by omega),
    hword 4 (by omega), hword 5 (by omega), hword 6 (by omega), hword 7 (by omega),
    hword 8 (by omega), hword 9 (by omega), hword 10 (by omega), hword 11 (by omega),
    hword 12 (by omega), hword 13 (by omega)⟩

/-- The stack of the interrupted program, and all that is below what was pushed. -/
theorem Entered.outside (h : Entered s number errCode t) (hroom : 60 ≤ s.sp.toNat) {a : ℕ}
    (ha : a < s.sp.toNat - 60 ∨ s.sp.toNat ≤ a) : t.mem a = s.mem a := by
  rw [h.mem]
  refine pushAll_outside ?_ ?_
  · rw [length_frameWords]
    omega
  · rw [length_frameWords]
    omega

/-! ### Out of the handler -/

theorem run_restoreSegments (s : State) :
    ∃ c, run step s restoreSegments = some ⟨c, s.mem⟩ ∧ c.reg .esp = s.cpu.reg .eax + 4 ∧
      c.seg .cs = s.cpu.seg .cs ∧
      ∀ g, g ≠ .cs → c.seg g = (MachineWord.get32 s.mem (s.cpu.reg .eax).toNat).setWidth 16 := by
  refine ⟨_, rfl, rfl, rfl, fun g hg => ?_⟩
  cases g with
  | cs => exact absurd rfl hg
  | ds => rfl
  | es => rfl
  | fs => rfl
  | gs => rfl

theorem run_popa (t : State) :
    ∃ u, run step t [.popa, .addImm 8 .esp, .sti] = some u ∧ u.mem = t.mem ∧
      u.cpu.reg = Function.update (popped t.mem t.sp) .esp (t.sp + 40) ∧
      u.cpu.seg = t.cpu.seg := by
  have hsum : t.sp + 32 + 8 = t.sp + 40 := BitVec.add_assoc ..
  rw [← hsum]
  exact ⟨_, rfl, rfl, rfl, rfl⟩

/-- Behind `sti` the stack pointer is at the words that the processor pushed. -/
theorem run_popa_iret (t : State)
    (hring : (MachineWord.get32 t.mem ((t.sp + 40).toNat + 4)).setWidth 16 &&& 3 =
      t.cpu.seg .cs &&& 3) :
    run step t [.popa, .addImm 8 .esp, .sti, .iret] = some
      { cpu :=
          { reg := Function.update (popped t.mem t.sp) .esp (t.sp + 52)
            seg := Function.update t.cpu.seg .cs
              ((MachineWord.get32 t.mem ((t.sp + 40).toNat + 4)).setWidth 16)
            eip := MachineWord.get32 t.mem (t.sp + 40).toNat
            eflags := MachineWord.get32 t.mem ((t.sp + 40).toNat + 8) }
        mem := t.mem } := by
  obtain ⟨u, hrun, hmem, hreg, hseg⟩ := run_popa t
  have hsp : u.sp = t.sp + 40 := by
    rw [State.sp, hreg, Function.update_self]
  have hsum : t.sp + 40 + 12 = t.sp + 52 := BitVec.add_assoc ..
  have hregs : Function.update u.cpu.reg .esp (t.sp + 40 + 12) =
      Function.update (popped t.mem t.sp) .esp (t.sp + 52) := by
    rw [hreg, Function.update_idem, hsum]
  have hlist : [Instr.popa, .addImm 8 .esp, .sti, .iret] =
      [.popa, .addImm 8 .esp, .sti] ++ [.iret] := rfl
  rw [hlist, run_append, hrun, Option.bind_some, run_singleton, step, hmem, hsp, hseg,
    if_pos hring, ← hregs, ← hseg]
  rfl

/-- The common stub behind the call: the processor is what the structure says that the returned
pointer points to. -/
theorem run_leave {p : U32} (heax : s.cpu.reg .eax = p) (hcs : s.cpu.seg .cs = 0x08)
    (hfits : p.toNat + 56 < 2 ^ 32)
    (hring : (Arch.getRegisters s.mem p.toNat).cs.setWidth 16 &&& 3 = (0 : U16)) :
    run step s commonExit =
      some ⟨restored (Arch.getRegisters s.mem p.toNat) (p + 56), s.mem⟩ := by
  obtain ⟨c, hrun, hsp, hccs, hcdata⟩ := run_restoreSegments s
  rw [heax] at hsp hcdata
  have hplace : ∀ k : ℕ, k ≤ 56 → (p + BitVec.ofNat 32 k).toNat = p.toNat + k := by
    intro k hk
    have hof : (BitVec.ofNat 32 k).toNat = k := by
      rw [BitVec.toNat_ofNat, Nat.mod_eq_of_lt (by omega)]
    rw [BitVec.toNat_add_of_lt (by omega), hof]
  have hfour : (p + 4).toNat = p.toNat + 4 := hplace 4 (by omega)
  have htop : (p + 4 + 40).toNat = p.toNat + 44 := by
    rw [BitVec.add_assoc]
    exact hplace 44 (by omega)
  have hend : p + 4 + 52 = p + 56 := BitVec.add_assoc ..
  have hpopped : Function.update (popped s.mem (p + 4)) .esp (p + 56) =
      (restored (Arch.getRegisters s.mem p.toNat) (p + 56)).reg := by
    funext r
    cases r with
    | esp => exact Function.update_self ..
    | _ =>
      rw [Function.update_of_ne (by decide)]
      simp only [popped, hfour]
      rfl
  set u : State := ⟨c, s.mem⟩ with hu
  have husp : u.sp = p + 4 := hsp
  have hucs : u.cpu.seg .cs &&& 3 = 0 := by
    rw [hu, hccs, hcs]
    rfl
  have hseg : Function.update u.cpu.seg .cs
      ((MachineWord.get32 u.mem (p.toNat + 44 + 4)).setWidth 16) =
        (restored (Arch.getRegisters s.mem p.toNat) (p + 56)).seg := by
    funext g
    cases g with
    | cs => exact Function.update_self ..
    | _ => exact (Function.update_of_ne (by decide) ..).trans (hcdata _ (by decide))
  have hring' : (MachineWord.get32 u.mem ((u.sp + 40).toNat + 4)).setWidth 16 &&& 3 =
      u.cpu.seg .cs &&& 3 := by
    rw [hucs, husp, htop]
    exact hring
  rw [commonExit, run_append, hrun, Option.bind_some, run_popa_iret u hring', husp, htop, hend,
    hseg, hpopped]
  rfl

/-- The interrupt goes through its gate into the code segment of the kernel and up to the call of
the handler, which gets a pointer to the registers of the program; behind a handler that returns
the pointer and leaves the registers alone, the program goes on where it was. -/
def Transparent (address : Stub → U32) (idt gdt : ℕ) (s : State) (vector : ℕ) (stub : Stub)
    (errCode : Option U32) : Prop :=
  ∃ g seg t, gateAt s.mem idt vector = some g ∧ segmentAt s.mem gdt g.selector = some seg ∧
    seg.code ∧ seg.privilege = 0 ∧ seg.linear g.offset = some (address stub) ∧
    run step (deliver s g.selector g.offset errCode) (stub.code ++ commonEntry) = some t ∧
    get32 t.mem t.sp.toNat = s.sp - 56 ∧
    Arch.getRegisters t.mem (s.sp - 56).toNat =
      saved s.cpu (BitVec.ofNat 32 vector) (errCode.getD 0) ∧
    t.cpu.eflags &&& interruptFlag = 0 ∧
    (∀ a, s.sp.toNat ≤ a → t.mem a = s.mem a) ∧
    ∀ u : State, u.cpu.reg .eax = s.sp - 56 → u.cpu.seg .cs = t.cpu.seg .cs →
      (∀ a, (s.sp - 56).toNat ≤ a → a < s.sp.toNat → u.mem a = t.mem a) →
      run step u commonExit = some ⟨flat s.cpu, u.mem⟩

theorem interrupt_transparent {address : Stub → U32} {entries : ℕ → GDTEntry} {idt gdt vector : ℕ}
    {stub : Stub} {errCode : Option U32} (hvector : vector < 256) (hstub : stubOf vector = some stub)
    (hidt : Loaded s.mem idt 256 fun k => (IDT.initializeEntries address k).bytes)
    (hgdt : Loaded s.mem gdt 5 fun k => (GDT.initializeEntries entries k).bytes)
    (herr : errCode.isSome = stub.hasErrCode) (hroom : 60 ≤ s.sp.toNat)
    (hcs : s.cpu.seg .cs = 0x08) : Transparent address idt gdt s vector stub errCode := by
  have hgate := gateAt_initialize hidt hvector
  rw [hstub, Option.map_some] at hgate
  have hsegment : segmentAt s.mem gdt 0x08 = some ⟨0, 0xFFFFFFFF, 0, true, true⟩ :=
    segmentAt_initialize hgdt (List.mem_cons_self ..)
  obtain ⟨t, hrun, ht⟩ := run_enter s (address stub) herr
  have hnumber := number_of_stubOf hstub
  have hsub : (s.sp - 56).toNat = s.sp.toNat - 56 := by
    have hle : (56 : U32) ≤ s.sp := BitVec.le_def.mpr (show 56 ≤ s.sp.toNat by omega)
    rw [BitVec.toNat_sub_of_le hle]
    rfl
  have hframe := ht.getRegisters hroom
  rw [← hsub, hnumber] at hframe
  refine ⟨_, _, t, hgate, hsegment, rfl, rfl, linear_flat .., hrun,
    ht.argument hroom, hframe, ht.masked,
    fun a ha => ht.outside hroom (.inr ha), fun u heax hucs hkept => ?_⟩
  have hsame : Arch.getRegisters u.mem (s.sp - 56).toNat =
      saved s.cpu (BitVec.ofNat 32 vector) (errCode.getD 0) := by
    rw [← hframe]
    exact getRegisters_congr fun j hj => hkept _ (by omega) (by omega)
  have hring : (Arch.getRegisters u.mem (s.sp - 56).toNat).cs.setWidth 16 &&& 3 = (0 : U16) := by
    rw [hsame, cs_saved, hcs]
    rfl
  have hback : s.sp - 56 + 56 = s.sp := BitVec.sub_add_cancel ..
  rw [run_leave heax (hucs.trans ht.cs) (by omega) hring, hsame, hback]
  exact congrArg (fun c => some (State.mk c u.mem)) (restored_saved ..)

/-- The tables behind one another from address 0 on. -/
def tablesOnly (address : Stub → U32) : ℕ → U8 := fun a =>
  if a < 2048 then bufferOf ((List.range 256).flatMap fun k =>
    (IDT.initializeEntries address k).bytes) a
  else bufferOf ((List.range 5).flatMap fun k =>
    (GDT.initializeEntries (fun _ => {}) k).bytes) (a - 2048)

theorem loaded_tablesOnly (address : Stub → U32) :
    Loaded (tablesOnly address) 0 256 (fun k => (IDT.initializeEntries address k).bytes) ∧
      Loaded (tablesOnly address) 2048 5
        fun k => (GDT.initializeEntries (fun _ => {}) k).bytes := by
  constructor
  · intro k hk j hj
    rw [tablesOnly, if_pos (by omega)]
    exact loaded_flatMap 0 (fun _ _ => rfl) k hk j hj
  · intro k hk j hj
    rw [tablesOnly, if_neg (by omega)]
    exact loaded_flatMap 2048 (fun _ _ => rfl) k hk j hj

/-- A program that is stopped by a general protection fault. -/
def faulting : State where
  cpu := ⟨fun r => if r = .esp then 0x9000 else 7, fun g => if g = .cs then 0x08 else 0x10, 0x1234,
    0x202⟩
  mem := tablesOnly fun _ => 0x100000

theorem interrupt_transparent_fault :
    Transparent (fun _ => 0x100000) 0 2048 faulting 13 (.isr 13) (some 0x18) :=
  interrupt_transparent (by decide) rfl (loaded_tablesOnly _).1 (loaded_tablesOnly _).2 rfl
    (by decide) rfl

/-! ### The handlers -/

/-- What the handlers work on. -/
structure Machine where
  mem : ℕ → U8
  pics : PIC8259.Pair
  scheduler : Scheduler

/-- A function that is called with a pointer to the structure. -/
abbrev ISRHandler := U32 → Machine → Option Machine

def Machine.outb (m : Machine) (port : U16) (v : U8) : Machine :=
  { m with pics := m.pics.out port v }

/-- `register_irq_handler` -/
def registerIRQHandler (handlers : ℕ → Option ISRHandler) (n : U8) (handler : ISRHandler) :
    ℕ → Option ISRHandler :=
  Function.update handlers n.toNat (some handler)

/-- A handler is called if there is one. -/
def call (handler : Option ISRHandler) (esp : U32) (m : Machine) : Option Machine :=
  match handler with
  | some handler => handler esp m
  | none => some m

/-- `irq_handler`: the new state and the stack pointer returned. -/
def irqHandler (handlers : ℕ → Option ISRHandler) (esp : U32) (m : Machine) :
    Option (Machine × U32) :=
  let m := if (getRegisters m.mem esp.toNat).intNo ≥ 40 then m.outb 0xA0 0x20 else m
  let m := m.outb 0x20 0x20
  (call (handlers (getRegisters m.mem esp.toNat).intNo.toNat) esp m).bind fun m =>
    if (getRegisters m.mem esp.toNat).intNo = 32 then
      (m.scheduler.schedule esp).map fun (scheduler, next) => ({ m with scheduler := scheduler }, next)
    else some (m, esp)

/-- The writes to the controllers in `IDT::initialize`. -/
def remap : List (U16 × U8) :=
  [(0x20, 0x11), (0xA0, 0x11), (0x21, 0x20), (0xA1, 0x28), (0x21, 0x04), (0xA1, 0x02),
    (0x21, 0x01), (0xA1, 0x01), (0x21, 0x0), (0xA1, 0x0)]

/-- The controllers behind `IDT::initialize`. -/
structure Remapped (p : PIC8259.Pair) : Prop extends p.Idle where
  master_offset : p.master.offset = 0x20
  slave_offset : p.slave.offset = 0x28

theorem foldl_remap (p : PIC8259.Pair) : remap.foldl (fun p w => p.out w.1 w.2) p =
    ⟨⟨0x20, 4, 0, 0, false, .mask, true, false⟩, ⟨0x28, 2, 0, 0, false, .mask, true, false⟩⟩ := by
  simp [remap, PIC8259.Pair.out, PIC8259.Chip.command, PIC8259.Chip.data]

theorem remapped (p : PIC8259.Pair) : Remapped (remap.foldl (fun p w => p.out w.1 w.2) p) := by
  rw [foldl_remap]
  exact ⟨⟨rfl, rfl, rfl⟩, rfl, rfl⟩

/-- The vector of a request. -/
def vectorOf : PIC8259.Pair.Request → ℕ
  | .master k => 32 + k.val
  | .slave k => 40 + k.val
  | .spuriousMaster => 39
  | .spuriousSlave => 47

variable {p q : PIC8259.Pair} {r : PIC8259.Pair.Request} {v : U8}

/-- Every request has its own vector, a request that is gone that of the last line. -/
theorem Remapped.vector (h : Remapped p) (hack : p.acknowledge r = some (q, v)) :
    v.toNat = vectorOf r := by
  have hmaster : ∀ k : Fin 8, ((0x20 : U8) ||| BitVec.ofNat 8 k.val).toNat = 32 + k.val := by decide
  have hslave : ∀ k : Fin 8, ((0x28 : U8) ||| BitVec.ofNat 8 k.val).toNat = 40 + k.val := by decide
  cases r with
  | master k =>
    rw [PIC8259.Pair.acknowledge, Option.ite_none_right_eq_some, Option.some_inj,
      Prod.mk.injEq] at hack
    rw [← hack.2.2, PIC8259.Chip.acknowledge, h.master_offset]
    exact hmaster k
  | slave k =>
    rw [PIC8259.Pair.acknowledge, Option.ite_none_right_eq_some, Option.some_inj,
      Prod.mk.injEq] at hack
    rw [← hack.2.2, PIC8259.Chip.acknowledge, h.slave_offset]
    exact hslave k
  | spuriousMaster =>
    rw [PIC8259.Pair.acknowledge, Option.ite_none_right_eq_some, Option.some_inj,
      Prod.mk.injEq] at hack
    rw [← hack.2.2, h.master_offset]
    rfl
  | spuriousSlave =>
    rw [PIC8259.Pair.acknowledge, Option.ite_none_right_eq_some, Option.some_inj,
      Prod.mk.injEq] at hack
    rw [← hack.2.2, h.slave_offset]
    rfl

theorem vectorOf_lt (r : PIC8259.Pair.Request) : 32 ≤ vectorOf r ∧ vectorOf r < 48 := by
  cases r <;> (rw [vectorOf]; omega)

theorem le_vectorOf_iff (r : PIC8259.Pair.Request) :
    40 ≤ vectorOf r ↔ r.throughSlave = true := by
  cases r with
  | master k =>
    have hlt := k.isLt
    exact iff_of_false (by rw [vectorOf]; omega) Bool.false_ne_true
  | slave k => exact iff_of_true (Nat.le_add_right 40 k.val) rfl
  | spuriousMaster => exact iff_of_false (by decide) Bool.false_ne_true
  | spuriousSlave => exact iff_of_true (by decide) rfl

/-- The handler reports the end of the request that was acknowledged, whichever it was. -/
theorem irqHandler_eq (h : Remapped p) (hack : p.acknowledge r = some (q, v)) {m : Machine}
    (hpics : m.pics = q) {esp : U32}
    (hnumber : (getRegisters m.mem esp.toNat).intNo = BitVec.ofNat 32 (vectorOf r))
    (handlers : ℕ → Option ISRHandler) :
    irqHandler handlers esp m =
      (call (handlers (vectorOf r)) esp { m with pics := p }).bind fun m =>
        if (getRegisters m.mem esp.toNat).intNo = 32 then
          (m.scheduler.schedule esp).map fun (scheduler, next) =>
            ({ m with scheduler := scheduler }, next)
        else some (m, esp) := by
  have hbound := vectorOf_lt r
  have htoNat : (BitVec.ofNat 32 (vectorOf r)).toNat = vectorOf r := by
    rw [BitVec.toNat_ofNat, Nat.mod_eq_of_lt (by omega)]
  have hfinish : (if (BitVec.ofNat 32 (vectorOf r) : U32) ≥ 40 then m.outb 0xA0 0x20 else m).outb
      0x20 0x20 = { m with pics := p } := by
    have hge : (BitVec.ofNat 32 (vectorOf r) : U32) ≥ 40 ↔ r.throughSlave = true := by
      rw [← le_vectorOf_iff, ge_iff_le, BitVec.le_def, htoNat]
      rfl
    have hdone := PIC8259.Pair.finish_acknowledge h.toIdle hack
    rw [PIC8259.Pair.finish] at hdone
    rw [← hdone, ← hpics]
    by_cases hslave : r.throughSlave = true
    · rw [if_pos (hge.mpr hslave), if_pos hslave]
      rfl
    · rw [if_neg (mt hge.mp hslave), if_neg hslave]
      rfl
  rw [irqHandler]
  dsimp only
  rw [hnumber, hfinish]
  dsimp only
  rw [hnumber, htoNat]

end MesaOS.Arch
