/-
The instructions of a 32-bit x86 that save and restore what a program was doing.

A push stores a word below the stack pointer.  An interrupt without a change of privilege pushes
the flags, the code segment and the instruction pointer, and `iret` pops them.  Code is straight
lines here and is not read from memory, so `eip` is set by an interrupt and by `iret` only.

* `cpu_pushAll`, `get32_pushAll`, `pushAll_outside` — the words that are pushed, and the rest of
  memory;
* `step`, `deliver` — the instructions, and an interrupt;
* `gateAt`, `segmentAt` — what the processor reads from the descriptor tables.
-/
import MesaOS.ByteMemory
import MesaOS.Runs

open MachineWord Runs ByteMemory

namespace IA32

/-- The general registers in the order of their numbers. -/
inductive Reg
  | eax | ecx | edx | ebx | esp | ebp | esi | edi
  deriving DecidableEq

inductive Seg
  | cs | ds | es | fs | gs
  deriving DecidableEq

structure Cpu where
  reg : Reg → U32
  seg : Seg → U16
  eip : U32
  eflags : U32

structure State where
  cpu : Cpu
  mem : ℕ → U8

/-! ### Registers -/

def Cpu.setReg (c : Cpu) (r : Reg) (x : U32) : Cpu := { c with reg := Function.update c.reg r x }

def Cpu.setSeg (c : Cpu) (s : Seg) (x : U16) : Cpu := { c with seg := Function.update c.seg s x }

@[simp] theorem Cpu.reg_setReg_self (c : Cpu) (r : Reg) (x : U32) : (c.setReg r x).reg r = x :=
  Function.update_self ..

theorem Cpu.reg_setReg_of_ne (c : Cpu) {r r' : Reg} (h : r' ≠ r) (x : U32) :
    (c.setReg r x).reg r' = c.reg r' := Function.update_of_ne h ..

@[simp] theorem Cpu.setReg_setReg (c : Cpu) (r : Reg) (x y : U32) :
    (c.setReg r x).setReg r y = c.setReg r y :=
  congrArg (fun f => { c with reg := f }) (Function.update_idem ..)

/-- The stack pointer. -/
def State.sp (s : State) : U32 := s.cpu.reg .esp

/-! ### The stack -/

def push (s : State) (x : U32) : State :=
  { cpu := s.cpu.setReg .esp (s.sp - 4), mem := put32 s.mem (s.sp - 4).toNat x }

def pushAll (s : State) (xs : List U32) : State := xs.foldl push s

variable {s : State} {xs : List U32}

theorem sp_push (s : State) (x : U32) : (push s x).sp = s.sp - 4 :=
  Cpu.reg_setReg_self ..

theorem pushAll_cons (s : State) (x : U32) (xs : List U32) :
    pushAll s (x :: xs) = pushAll (push s x) xs := rfl

theorem pushAll_append (s : State) (xs ys : List U32) :
    pushAll s (xs ++ ys) = pushAll (pushAll s xs) ys := List.foldl_append ..

/-- Pushing changes the stack pointer and no other register. -/
theorem cpu_pushAll (s : State) (xs : List U32) :
    (pushAll s xs).cpu = s.cpu.setReg .esp (s.sp - BitVec.ofNat 32 (4 * xs.length)) := by
  induction xs generalizing s with
  | nil =>
    rw [List.length_nil, Nat.mul_zero, BitVec.sub_zero]
    exact (congrArg (fun f => { s.cpu with reg := f }) (Function.update_eq_self ..)).symm
  | cons x xs ih =>
    have hlength : (4 : U32) + BitVec.ofNat 32 (4 * xs.length) =
        BitVec.ofNat 32 (4 * (x :: xs).length) := by
      rw [show (4 : U32) = BitVec.ofNat 32 4 from rfl, ← BitVec.ofNat_add, List.length_cons]
      congr 1
      omega
    rw [pushAll_cons, ih, sp_push, push, Cpu.setReg_setReg, BitVec.sub_sub, hlength]

/-- What is pushed depends on the registers and the memory. -/
theorem mem_pushAll_congr {s t : State} (hreg : s.cpu.reg = t.cpu.reg) (hmem : s.mem = t.mem)
    (xs : List U32) : (pushAll s xs).mem = (pushAll t xs).mem := by
  induction xs generalizing s t with
  | nil => exact hmem
  | cons x xs ih =>
    have hsp : s.sp = t.sp := congrFun hreg .esp
    refine ih ?_ ?_
    · rw [push, push, hsp]
      exact congrArg (Function.update · Reg.esp (t.sp - 4)) hreg
    · rw [push, push, hsp, hmem]

theorem toNat_sub_four {x : U32} (h : 4 ≤ x.toNat) : (x - 4).toNat = x.toNat - 4 := by
  have hle : (4 : U32) ≤ x := BitVec.le_def.mpr h
  rw [BitVec.toNat_sub_of_le hle]
  rfl

/-- A push stores below the stack pointer. -/
theorem push_outside (h : 4 ≤ s.sp.toNat) (x : U32) {a : ℕ}
    (ha : a < s.sp.toNat - 4 ∨ s.sp.toNat ≤ a) : (push s x).mem a = s.mem a := by
  refine put32_outside x ?_
  rw [toNat_sub_four h]
  omega

theorem pushAll_outside (h : 4 * xs.length ≤ s.sp.toNat) {a : ℕ}
    (ha : a < s.sp.toNat - 4 * xs.length ∨ s.sp.toNat ≤ a) :
    (pushAll s xs).mem a = s.mem a := by
  induction xs generalizing s with
  | nil => rfl
  | cons x xs ih =>
    rw [List.length_cons] at h ha
    have hsp : (push s x).sp.toNat = s.sp.toNat - 4 := by rw [sp_push, toNat_sub_four (by omega)]
    rw [pushAll_cons, ih (by omega) (by omega), push_outside (by omega) x (by omega)]

/-- The words on the stack, the last one at the lowest address. -/
theorem get32_pushAll (h : 4 * xs.length ≤ s.sp.toNat) {i : ℕ} (hi : i < xs.length) :
    get32 (pushAll s xs).mem (s.sp.toNat - 4 * (i + 1)) = xs[i] := by
  induction xs generalizing s i with
  | nil => exact absurd hi (Nat.not_lt_zero i)
  | cons x xs ih =>
    rw [List.length_cons] at h hi
    have hsp : (push s x).sp.toNat = s.sp.toNat - 4 := by rw [sp_push, toNat_sub_four (by omega)]
    rw [pushAll_cons]
    cases i with
    | zero =>
      -- the later words are stored below it
      have hkept : get32 (pushAll (push s x) xs).mem (s.sp.toNat - 4) =
          get32 (push s x).mem (s.sp.toNat - 4) :=
        get32_congr fun j hj => pushAll_outside (by omega) (by omega)
      have hplace : (s.sp - 4).toNat = s.sp.toNat - 4 := toNat_sub_four (by omega)
      rw [Nat.zero_add, Nat.mul_one, hkept, push, ← hplace, get32_put32]
      rfl
    | succ i =>
      have hplace : s.sp.toNat - 4 * (i + 1 + 1) = (push s x).sp.toNat - 4 * (i + 1) := by omega
      rw [hplace, ih (by omega) (by omega)]
      rfl

theorem get32_pushAll_of_add {a i : ℕ} (h : 4 * xs.length ≤ s.sp.toNat) (hi : i < xs.length)
    (ha : a + 4 * (i + 1) = s.sp.toNat) : get32 (pushAll s xs).mem a = xs[i] := by
  have hplace : a = s.sp.toNat - 4 * (i + 1) := by omega
  rw [hplace, get32_pushAll h hi]

/-! ### Instructions -/

inductive Instr
  | cli
  | sti
  | pushImm (x : U32)
  | push (r : Reg)
  | pop (r : Reg)
  | pusha
  | popa
  | movSegReg (s : Seg) (r : Reg)
  | movImmReg (x : U16) (r : Reg)
  | movRegSeg (r : Reg) (s : Seg)
  | mov (src dst : Reg)
  | addImm (x : U32) (r : Reg)
  | iret

/-- The lower half of a register is replaced. -/
def setLow (v : U32) (x : U16) : U32 := v.extractLsb' 16 16 ++ x

/-- `IF` -/
def interruptFlag : U32 := 0x200

/-- The bits that an interrupt gate clears: `TF`, `IF`, `NT`, `RF` and `VM`. -/
def gateFlags : U32 := 0x34300

def setFlag (flags : U32) (k : ℕ) (b : Bool) : U32 :=
  if b then flags ||| 1#32 <<< k else flags &&& ~~~(1#32 <<< k)

/-- The flags behind the addition of `x` and `y`: `CF`, `PF`, `AF`, `ZF`, `SF` and `OF`. -/
def addFlags (x y flags : U32) : U32 :=
  let sum := x + y
  let parity := ((List.range 8).filter fun k => sum.getLsbD k).length % 2
  let flags := setFlag flags 0 (decide (2 ^ 32 ≤ x.toNat + y.toNat))
  let flags := setFlag flags 2 (parity == 0)
  let flags := setFlag flags 4 (decide (16 ≤ x.toNat % 16 + y.toNat % 16))
  let flags := setFlag flags 6 (sum == 0)
  let flags := setFlag flags 7 sum.msb
  setFlag flags 11 (x.msb == y.msb && sum.msb != x.msb)

/-- The registers that `popa` loads; it passes over the one for the stack pointer. -/
def popped (m : ℕ → U8) (sp : U32) : Reg → U32
  | .edi => get32 m sp.toNat
  | .esi => get32 m (sp.toNat + 4)
  | .ebp => get32 m (sp.toNat + 8)
  | .esp => sp + 32
  | .ebx => get32 m (sp.toNat + 16)
  | .edx => get32 m (sp.toNat + 20)
  | .ecx => get32 m (sp.toNat + 24)
  | .eax => get32 m (sp.toNat + 28)

/-- The order in which `pusha` pushes the registers. -/
def pushaOrder : List Reg := [.eax, .ecx, .edx, .ebx, .esp, .ebp, .esi, .edi]

/-- One instruction.  There is no result when `iret` would change the privilege level. -/
def step (s : State) : Instr → Option State
  | .cli => some { s with cpu := { s.cpu with eflags := s.cpu.eflags &&& ~~~interruptFlag } }
  | .sti => some { s with cpu := { s.cpu with eflags := s.cpu.eflags ||| interruptFlag } }
  | .pushImm x => some (push s x)
  | .push r => some (push s (s.cpu.reg r))
  | .pop r =>
    some { s with
      cpu := (s.cpu.setReg .esp (s.sp + 4)).setReg r (get32 s.mem s.sp.toNat) }
  | .pusha => some (pushAll s (pushaOrder.map s.cpu.reg))
  | .popa => some { s with cpu := { s.cpu with reg := popped s.mem s.sp } }
  | .movSegReg g r =>
    some { s with cpu := s.cpu.setReg r (setLow (s.cpu.reg r) (s.cpu.seg g)) }
  | .movImmReg x r => some { s with cpu := s.cpu.setReg r (setLow (s.cpu.reg r) x) }
  | .movRegSeg r g => some { s with cpu := s.cpu.setSeg g ((s.cpu.reg r).setWidth 16) }
  | .mov src dst => some { s with cpu := s.cpu.setReg dst (s.cpu.reg src) }
  | .addImm x r =>
    some { s with
      cpu := { s.cpu.setReg r (s.cpu.reg r + x) with
        eflags := addFlags (s.cpu.reg r) x s.cpu.eflags } }
  | .iret =>
    let cs := (get32 s.mem (s.sp.toNat + 4)).setWidth 16
    if cs &&& 3 = s.cpu.seg .cs &&& 3 then
      some { s with
        cpu := { (s.cpu.setReg .esp (s.sp + 12)).setSeg .cs cs with
          eip := get32 s.mem s.sp.toNat
          eflags := get32 s.mem (s.sp.toNat + 8) } }
    else none

/-- An interrupt through an interrupt gate of the same privilege level. -/
def deliver (s : State) (selector : U16) (offset : U32) (errorCode : Option U32) : State :=
  let pushed := [s.cpu.eflags, (s.cpu.seg .cs).setWidth 32, s.cpu.eip] ++ errorCode.toList
  let s' := pushAll s pushed
  { s' with
    cpu := { s'.cpu.setSeg .cs selector with
      eip := offset
      eflags := s.cpu.eflags &&& ~~~gateFlags } }

theorem setWidth_setLow (v : U32) (x : U16) : (setLow v x).setWidth 16 = x :=
  BitVec.setWidth_append_eq_right

/-! ### Descriptors -/

/-- A gate of the interrupt descriptor table. -/
structure Gate where
  selector : U16
  offset : U32
  privilege : BitVec 2
  deriving DecidableEq

/-- The gate for a vector in the table at `base`, if there is a 32-bit interrupt gate. -/
def gateAt (m : ℕ → U8) (base vector : ℕ) : Option Gate :=
  let a := base + 8 * vector
  let flags := m (a + 5)
  if flags.getLsbD 7 ∧ flags.extractLsb' 0 5 = 0x0E then
    some ⟨get16 m (a + 2), get16 m (a + 6) ++ get16 m a, flags.extractLsb' 5 2⟩
  else none

/-- A descriptor of a code or data segment. -/
structure Segment where
  base : U32
  /-- The last offset in the segment. -/
  limit : U32
  privilege : BitVec 2
  code : Bool
  /-- Operands and offsets have 32 bits. -/
  big : Bool
  deriving DecidableEq

/-- The segment that a selector names in the table at `base`, if it is present. -/
def segmentAt (m : ℕ → U8) (base : ℕ) (selector : U16) : Option Segment :=
  let a := base + 8 * (selector.toNat / 8)
  let access := m (a + 5)
  let flags := m (a + 6)
  let limit : BitVec 20 := flags.extractLsb' 0 4 ++ get16 m a
  if access.getLsbD 7 ∧ access.getLsbD 4 then
    some
      { base := m (a + 7) ++ (m (a + 4) ++ get16 m (a + 2))
        limit := if flags.getLsbD 7 then limit ++ 0xFFF#12 else limit.setWidth 32
        privilege := access.extractLsb' 5 2
        code := access.getLsbD 3
        big := flags.getLsbD 6 }
  else none

/-- Where an offset of a segment lies. -/
def Segment.linear (g : Segment) (offset : U32) : Option U32 :=
  if offset ≤ g.limit then some (g.base + offset) else none

end IA32
