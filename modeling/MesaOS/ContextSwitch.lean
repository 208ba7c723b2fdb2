/-
Processes that share the processor (`interrupts.s`, `isr.cpp`, `scheduler.cpp`).

The timer interrupt leaves the registers of a process on its stack and takes up the next process
where its own stack says.  The abstract machine has a processor and a stack for every process, and
an interrupt does nothing there but to give the turn to the next one.

* `Sim` — the one processor is that of the current process, and the others lie in the memory;
* `Sim.step_interrupt`, `Sim.step_addProcess`, `Sim.step_compute` — every step keeps it;
* `processes_unaware` — in every run each process finds its registers and its stack as it left
  them.
-/
import MesaOS.Interrupts

open MachineWord IA32 ByteMemory Runs MesaOS.System MesaOS.FS PIC8259.Pair

namespace MesaOS.Arch

/-! ### The machine -/

/-- The processor, and what the handlers work on. -/
structure Kernel where
  cpu : Cpu
  machine : Machine

inductive Event
  /-- The current process computes. -/
  | compute (cpu : Cpu) (mem : ℕ → U8)
  /-- An interrupt request, the handlers that are registered, and what a C function leaves in the
  registers that it need not keep. -/
  | interrupt (r : PIC8259.Pair.Request) (handlers : ℕ → Option ISRHandler) (clobbered : Cpu)
  /-- The current process calls `Scheduler::add_process`. -/
  | addProcess (name : CString) (entryPoint stack : U32)

/-- What `add_process` writes to the top of a stack. -/
def putInitial (m : ℕ → U8) (a : ℕ) (entryPoint : U32) : ℕ → U8 :=
  let m := memset m a 0 56
  let m := put32 m (a + 44) entryPoint
  let m := put32 m (a + 48) 0x08
  let m := put32 m a 0x10
  put32 m (a + 52) 0x202

/-- An interrupt from its request to `iret`.  There is no result when the request does not get
through or interrupts are masked. -/
def interrupt (address : Stub → U32) (k : Kernel) (r : PIC8259.Pair.Request)
    (handlers : ℕ → Option ISRHandler) (clobbered : Cpu) : Option Kernel :=
  if k.cpu.eflags &&& interruptFlag = 0 then none
  else
    (k.machine.pics.acknowledge r).bind fun (pics, v) =>
    (stubOf v.toNat).bind fun stub =>
    (run step (deliver ⟨k.cpu, k.machine.mem⟩ 0x08 (address stub) none)
      (stub.code ++ commonEntry)).bind fun t =>
    (irqHandler handlers (get32 t.mem t.sp.toNat)
      { k.machine with mem := t.mem, pics := pics }).bind fun (machine, esp) =>
    let returned : Cpu := { clobbered.setReg .eax esp with seg := t.cpu.seg }
    (run step ⟨returned, machine.mem⟩ commonExit).map fun s =>
      { cpu := s.cpu, machine := { machine with mem := s.mem } }

def Kernel.step (address : Stub → U32) (k : Kernel) : Event → Option Kernel
  | .compute cpu mem => some { cpu := cpu, machine := { k.machine with mem := mem } }
  | .interrupt r handlers clobbered => interrupt address k r handlers clobbered
  | .addProcess name entryPoint stack =>
    (k.machine.scheduler.addProcess name entryPoint stack).map fun scheduler =>
      let sp := stack + Scheduler.stackSize - registersSize
      { k with
        machine :=
          { k.machine with
            scheduler := scheduler
            mem := putInitial k.machine.mem sp.toNat entryPoint } }

/-! ### A machine for every process -/

/-- The memory that is set aside for a stack. -/
structure Region where
  bottom : ℕ
  top : ℕ

def Region.Disjoint (a b : Region) : Prop := a.top ≤ b.bottom ∨ b.top ≤ a.bottom

/-- The processes by their numbers, the next number, and what each of them has. -/
structure Virtual where
  round : RoundRobin ℕ
  fresh : ℕ
  region : ℕ → Region
  cpu : ℕ → Cpu
  stack : ℕ → ℕ → U8

/-- A process that has not yet run. -/
def started (entryPoint top : U32) : Cpu :=
  restored { eip := entryPoint, cs := 0x08, ds := 0x10, eflags := 0x202 } top

def Virtual.step (v : Virtual) : Event → Virtual
  | .compute cpu mem =>
    { v with
      cpu := Function.update v.cpu v.round.current cpu
      stack := Function.update v.stack v.round.current mem }
  | .interrupt r _ _ =>
    { v with
      cpu := Function.update v.cpu v.round.current (flat (v.cpu v.round.current))
      round := if vectorOf r = 32 then v.round.tick else v.round }
  | .addProcess _ entryPoint stack =>
    { v with
      round := v.round.add v.fresh
      fresh := v.fresh + 1
      region := Function.update v.region v.fresh ⟨stack.toNat, stack.toNat + 8192⟩
      cpu := Function.update v.cpu v.fresh (started entryPoint (stack + Scheduler.stackSize)) }

/-! ### What the steps may do -/

/-- The addresses that belong to a process: the stack of one that waits as a whole, and that of the
current one from its stack pointer on. -/
def Virtual.Owned (v : Virtual) (sp : ℕ) (a : ℕ) : Prop :=
  ∃ q ∈ v.round.members, (v.region q).bottom ≤ a ∧ a < (v.region q).top ∧
    (q = v.round.current → sp ≤ a)

/-- A handler returns, and writes neither to the processes nor to the controllers and the
scheduler. -/
def KeepsProcesses (v : Virtual) (esp : U32) (handler : ISRHandler) : Prop :=
  ∀ m, ∃ m', handler esp m = some m' ∧ m'.pics = m.pics ∧ m'.scheduler = m.scheduler ∧
    ∀ a, v.Owned esp.toNat a → m'.mem a = m.mem a

def Allowed (k : Kernel) (v : Virtual) : Event → Prop
  | .compute cpu mem =>
    -- the kernel stays at its own privilege level and in its own stack
    cpu.seg .cs = 0x08 ∧ (cpu.reg .esp).toNat ≤ (v.region v.round.current).top ∧
      ∀ q ∈ v.round.members, q ≠ v.round.current →
        ∀ a, (v.region q).bottom ≤ a → a < (v.region q).top → mem a = k.machine.mem a
  | .interrupt r handlers _ =>
    k.cpu.eflags &&& interruptFlag ≠ 0 ∧ r ≠ .cascade ∧
      (v.region v.round.current).bottom + 60 ≤ (k.cpu.reg .esp).toNat ∧
      ∀ n handler, handlers n = some handler → KeepsProcesses v (k.cpu.reg .esp - 56) handler
  | .addProcess name _ stack =>
    name.fits 32 = true ∧ stack.toNat + 8192 < 2 ^ 32 ∧
      ∀ q ∈ v.round.members, (v.region q).Disjoint ⟨stack.toNat, stack.toNat + 8192⟩

/-! ### The simulation -/

/-- A process that waits: its registers are on its stack at `sp`, and above them the stack is what
it was. -/
structure Waiting (m : ℕ → U8) (region : Region) (sp : U32) (c : Cpu) (stack : ℕ → U8) : Prop where
  bottom : region.bottom ≤ sp.toNat
  top : sp.toNat + 56 ≤ region.top
  cpu : restored (getRegisters m sp.toNat) (sp + 56) = c
  stack : ∀ a, sp.toNat + 56 ≤ a → a < region.top → m a = stack a

structure Sim (k : Kernel) (v : Virtual) : Prop where
  round : Scheduler.Represents k.machine.scheduler v.round
  fresh : v.fresh = k.machine.scheduler.nextPointer
  controllers : Remapped k.machine.pics
  disjoint : ∀ p ∈ v.round.members, ∀ q ∈ v.round.members, p ≠ q →
    (v.region p).Disjoint (v.region q)
  addressed : ∀ q ∈ v.round.members, (v.region q).top < 2 ^ 32
  privileged : ∀ q ∈ v.round.members, (v.cpu q).seg .cs = 0x08
  running : k.cpu = v.cpu v.round.current
  inside : (k.cpu.reg .esp).toNat ≤ (v.region v.round.current).top
  own : ∀ a, (v.region v.round.current).bottom ≤ a → (k.cpu.reg .esp).toNat ≤ a →
    a < (v.region v.round.current).top → k.machine.mem a = v.stack v.round.current a
  waiting : ∀ q ∈ v.round.members, q ≠ v.round.current →
    Waiting k.machine.mem (v.region q) (k.machine.scheduler.memory q).stackPtr (v.cpu q) (v.stack q)

variable {k k' : Kernel} {v : Virtual} {m m' : ℕ → U8} {region : Region} {sp : U32} {c : Cpu}
  {stack : ℕ → U8}

/-- What a waiting process has does not depend on the rest of memory. -/
theorem Waiting.congr (h : Waiting m region sp c stack)
    (hsame : ∀ a, region.bottom ≤ a → a < region.top → m' a = m a) :
    Waiting m' region sp c stack := by
  have hbottom := h.bottom
  have htop := h.top
  refine ⟨hbottom, htop, ?_, fun a ha hlt => ?_⟩
  · rw [← h.cpu]
    have hframe : getRegisters m' sp.toNat = getRegisters m sp.toNat :=
      getRegisters_congr fun j hj => hsame _ (by omega) (by omega)
    rw [hframe]
  · rw [hsame a (by omega) hlt, h.stack a ha hlt]

/-- The exit of an interrupt takes up a process that waits. -/
theorem Waiting.resume (h : Waiting m region sp c stack) (htop : region.top < 2 ^ 32)
    (hring : c.seg .cs = 0x08) {s : State} (hmem : s.mem = m) (heax : s.cpu.reg .eax = sp)
    (hcs : s.cpu.seg .cs = 0x08) : run step s commonExit = some ⟨c, m⟩ := by
  have hfits := h.top
  have hframe : (getRegisters m sp.toNat).cs.setWidth 16 &&& 3 = (0 : U16) := by
    have hsame : (getRegisters m sp.toNat).cs.setWidth 16 = c.seg .cs := by
      rw [← h.cpu]
      rfl
    rw [hsame, hring]
    rfl
  subst hmem
  rw [run_leave heax hcs (by omega) hframe, h.cpu]

/-- The stack pointer of a process that is taken up. -/
theorem Waiting.toNat_esp (h : Waiting m region sp c stack) (htop : region.top < 2 ^ 32) :
    (c.reg .esp).toNat = sp.toNat + 56 := by
  have hfits := h.top
  have hesp : c.reg .esp = sp + 56 := by
    rw [← h.cpu]
    rfl
  have hadd : sp.toNat + (56 : U32).toNat < 2 ^ 32 := by
    change sp.toNat + 56 < 2 ^ 32
    omega
  rw [hesp, BitVec.toNat_add_of_lt hadd]
  rfl

/-- When all processes wait, the one that is taken up runs and the others go on waiting. -/
theorem Sim.of_waiting (hround : Scheduler.Represents k.machine.scheduler v.round)
    (hfresh : v.fresh = k.machine.scheduler.nextPointer) (hpics : Remapped k.machine.pics)
    (hdisjoint : ∀ p ∈ v.round.members, ∀ q ∈ v.round.members, p ≠ q →
      (v.region p).Disjoint (v.region q))
    (haddressed : ∀ q ∈ v.round.members, (v.region q).top < 2 ^ 32)
    (hprivileged : ∀ q ∈ v.round.members, (v.cpu q).seg .cs = 0x08) {sps : ℕ → U32}
    (hwaiting : ∀ q ∈ v.round.members,
      Waiting k.machine.mem (v.region q) (sps q) (v.cpu q) (v.stack q))
    (hsps : ∀ q ∈ v.round.members, q ≠ v.round.current →
      (k.machine.scheduler.memory q).stackPtr = sps q)
    (hcpu : k.cpu = v.cpu v.round.current) : Sim k v := by
  have hcurrent := hwaiting _ v.round.current_mem_members
  have hesp := hcurrent.toNat_esp (haddressed _ v.round.current_mem_members)
  refine ⟨hround, hfresh, hpics, hdisjoint, haddressed, hprivileged, hcpu, ?_, ?_, ?_⟩
  · rw [hcpu, hesp]
    exact hcurrent.top
  · intro a _ ha hlt
    rw [hcpu, hesp] at ha
    exact hcurrent.stack a ha hlt
  · intro q hq hne
    rw [hsps q hq hne]
    exact hwaiting q hq

/-! ### Interrupts -/

/-- The stub of a request. -/
theorem stubOf_vectorOf (r : PIC8259.Pair.Request) :
    ∃ num, stubOf (vectorOf r) = some (.irq num) := by
  have hbound := vectorOf_lt r
  refine ⟨⟨vectorOf r - 32, by omega⟩, ?_⟩
  rw [stubOf, dif_neg (by omega), dif_pos (by omega)]

/-- The stack pointers with which the processes wait while the handlers run. -/
def waitingAt (k : Kernel) (v : Virtual) (q : ℕ) : U32 :=
  if q = v.round.current then k.cpu.reg .esp - 56
  else (k.machine.scheduler.memory q).stackPtr

/-- Up to the handlers, and behind those that keep to themselves, all processes wait. -/
theorem Sim.allWait (h : Sim k v) {t : State} {number : U32}
    (hentered : Entered ⟨k.cpu, k.machine.mem⟩ number 0 t)
    (hroom : (v.region v.round.current).bottom + 60 ≤ (k.cpu.reg .esp).toNat)
    (hkept : ∀ a, v.Owned (k.cpu.reg .esp - 56).toNat a → m a = t.mem a) {q : ℕ}
    (hq : q ∈ v.round.members) :
    Waiting m (v.region q) (waitingAt k v q)
      (Function.update v.cpu v.round.current (flat (v.cpu v.round.current)) q) (v.stack q) := by
  have hsp : (k.cpu.reg .esp - 56).toNat = (k.cpu.reg .esp).toNat - 56 := by
    have hle : (56 : U32) ≤ k.cpu.reg .esp :=
      BitVec.le_def.mpr (show 56 ≤ (k.cpu.reg .esp).toNat by omega)
    rw [BitVec.toNat_sub_of_le hle]
    rfl
  have hinside := h.inside
  by_cases hcurrent : q = v.round.current
  · subst hcurrent
    rw [Function.update_self, waitingAt, if_pos rfl]
    have hown : ∀ a, (k.cpu.reg .esp).toNat - 56 ≤ a → a < (v.region v.round.current).top →
        m a = t.mem a := fun a ha hlt =>
      hkept a ⟨_, hq, by omega, hlt, fun _ => by omega⟩
    refine ⟨by omega, by omega, ?_, fun a ha hlt => ?_⟩
    · have hframe : getRegisters m (k.cpu.reg .esp - 56).toNat = saved k.cpu number 0 := by
        rw [hsp, ← hentered.getRegisters (show 60 ≤ (k.cpu.reg .esp).toNat by omega)]
        exact getRegisters_congr fun j hj => hown _ (by omega) (by omega)
      have hback : k.cpu.reg .esp - 56 + 56 = k.cpu.reg .esp := BitVec.sub_add_cancel ..
      rw [hframe, hback, restored_saved, h.running]
    · rw [hown a (by omega) hlt,
        hentered.outside (show 60 ≤ (k.cpu.reg .esp).toNat by omega) (.inr (show
          (k.cpu.reg .esp).toNat ≤ a by omega))]
      exact h.own a (by omega) (by omega) hlt
  · rw [Function.update_of_ne hcurrent, waitingAt, if_neg hcurrent]
    refine (h.waiting q hq hcurrent).congr fun a hbottom htop => ?_
    have hapart := h.disjoint q hq _ v.round.current_mem_members hcurrent
    have hapart' : (v.region q).top ≤ (v.region v.round.current).bottom ∨
      (v.region v.round.current).top ≤ (v.region q).bottom := hapart
    rw [hkept a ⟨q, hq, hbottom, htop, fun heq => absurd heq hcurrent⟩]
    refine hentered.outside (show 60 ≤ (k.cpu.reg .esp).toNat by omega) ?_
    change a < (k.cpu.reg .esp).toNat - 60 ∨ (k.cpu.reg .esp).toNat ≤ a
    omega

theorem Virtual.round_interrupt (v : Virtual) (r : PIC8259.Pair.Request)
    (handlers : ℕ → Option ISRHandler) (clobbered : Cpu) : (v.step (.interrupt r handlers clobbered)).round =
      if vectorOf r = 32 then v.round.tick else v.round := rfl

theorem Virtual.members_interrupt (v : Virtual) (r : PIC8259.Pair.Request)
    (handlers : ℕ → Option ISRHandler) (clobbered : Cpu) :
    (v.step (.interrupt r handlers clobbered)).round.members = v.round.members := by
  rw [Virtual.round_interrupt]
  by_cases htimer : vectorOf r = 32
  · rw [if_pos htimer, RoundRobin.members_tick]
  · rw [if_neg htimer]

/-- What the scheduler makes of a request: the process whose turn it is then, and the stack pointer
with which it waits. -/
structure Scheduled (k : Kernel) (v : Virtual) (turn : RoundRobin ℕ) (t m : Machine) (esp : U32) :
    Prop where
  pics : m.pics = k.machine.pics
  round : Scheduler.Represents m.scheduler turn
  nextPointer : m.scheduler.nextPointer = k.machine.scheduler.nextPointer
  kept : ∀ a, v.Owned (k.cpu.reg .esp - 56).toNat a → m.mem a = t.mem a
  returned : esp = waitingAt k v turn.current
  others : ∀ q, q ≠ turn.current → (m.scheduler.memory q).stackPtr = waitingAt k v q

/-- The handler of a request, and `schedule` behind that of the timer. -/
theorem Sim.scheduled (h : Sim k v) {r : PIC8259.Pair.Request} {pics : PIC8259.Pair} {vector : U8}
    {handlers : ℕ → Option ISRHandler} (hack : k.machine.pics.acknowledge r = some (pics, vector))
    (hkeeps : ∀ n handler, handlers n = some handler →
      KeepsProcesses v (k.cpu.reg .esp - 56) handler)
    {t : Machine} (hpics : t.pics = pics) (hscheduler : t.scheduler = k.machine.scheduler)
    (hnumber : (getRegisters t.mem (k.cpu.reg .esp - 56).toNat).intNo =
      BitVec.ofNat 32 (vectorOf r))
    (hframe : ∀ j < 56, v.Owned (k.cpu.reg .esp - 56).toNat ((k.cpu.reg .esp - 56).toNat + j)) :
    ∃ m esp, irqHandler handlers (k.cpu.reg .esp - 56) t = some (m, esp) ∧
      Scheduled k v (if vectorOf r = 32 then v.round.tick else v.round) t m esp := by
  set sp := k.cpu.reg .esp - 56 with hsp
  obtain ⟨m, hm, hmpics, hmscheduler, hmkept⟩ : ∃ m : Machine,
      call (handlers (vectorOf r)) sp { t with pics := k.machine.pics } = some m ∧
      m.pics = k.machine.pics ∧ m.scheduler = t.scheduler ∧
      ∀ a, v.Owned sp.toNat a → m.mem a = t.mem a := by
    cases hhandler : handlers (vectorOf r) with
    | none => exact ⟨_, rfl, rfl, rfl, fun a _ => rfl⟩
    | some handler => exact hkeeps _ handler hhandler { t with pics := k.machine.pics }
  have hsame : (getRegisters m.mem sp.toNat).intNo = BitVec.ofNat 32 (vectorOf r) := by
    rw [← hnumber]
    exact congrArg Registers.intNo (getRegisters_congr fun j hj => hmkept _ (hframe j hj))
  have hbound := vectorOf_lt r
  have htimer : (BitVec.ofNat 32 (vectorOf r) : U32) = 32 ↔ vectorOf r = 32 := by
    rw [BitVec.toNat_eq, BitVec.toNat_ofNat, Nat.mod_eq_of_lt (by omega)]
    rfl
  have hround : Scheduler.Represents m.scheduler v.round := by
    rw [hmscheduler, hscheduler]
    exact h.round
  rw [irqHandler_eq h.controllers hack hpics hnumber, hm, Option.bind_some, hsame]
  by_cases hvector : vectorOf r = 32
  · rw [if_pos (htimer.mpr hvector), if_pos hvector]
    obtain ⟨hschedule, hnext⟩ := hround.schedule sp
    have hstack : ∀ q, ((m.scheduler.switched v.round.current v.round.tick.current sp).memory
        q).stackPtr = waitingAt k v q := by
      intro q
      rw [Scheduler.memory_switched, hmscheduler, hscheduler, waitingAt]
    rw [hschedule]
    refine ⟨_, _, rfl, hmpics, hnext, ?_, hmkept, hstack _, fun q _ => hstack q⟩
    rw [← hscheduler, ← hmscheduler]
    rfl
  · rw [if_neg (mt htimer.mp hvector), if_neg hvector]
    refine ⟨_, _, rfl, hmpics, hround, ?_, hmkept, ?_, fun q hq => ?_⟩
    · rw [hmscheduler, hscheduler]
    · rw [waitingAt, if_pos rfl]
    · rw [waitingAt, if_neg hq, hmscheduler, hscheduler]

/-- An interrupt gets through, and gives the turn to the next process if it is that of the
timer. -/
theorem Sim.step_interrupt (h : Sim k v) (address : Stub → U32) {r : PIC8259.Pair.Request}
    {handlers : ℕ → Option ISRHandler} {clobbered : Cpu}
    (hallowed : Allowed k v (.interrupt r handlers clobbered)) :
    ∃ k', interrupt address k r handlers clobbered = some k' ∧
      Sim k' (v.step (.interrupt r handlers clobbered)) := by
  obtain ⟨hflag, hline, hroom, hkeeps⟩ := hallowed
  obtain ⟨pics, vector, hack⟩ := acknowledge_isSome h.controllers.toIdle hline
  have hvector := h.controllers.vector hack
  obtain ⟨num, hstub⟩ := stubOf_vectorOf r
  have hnumber := number_of_stubOf hstub
  have hnoCode : (none : Option U32).isSome = (Stub.irq num).hasErrCode := rfl
  obtain ⟨t, hrun, ht⟩ :=
    run_enter (⟨k.cpu, k.machine.mem⟩ : State) (address (.irq num)) hnoCode
  have hsixty : 60 ≤ (⟨k.cpu, k.machine.mem⟩ : State).sp.toNat :=
    show 60 ≤ (k.cpu.reg .esp).toNat by omega
  have hsp : (k.cpu.reg .esp - 56).toNat = (k.cpu.reg .esp).toNat - 56 := by
    have hle : (56 : U32) ≤ k.cpu.reg .esp :=
      BitVec.le_def.mpr (show 56 ≤ (k.cpu.reg .esp).toNat by omega)
    rw [BitVec.toNat_sub_of_le hle]
    rfl
  have hargument : get32 t.mem t.sp.toNat = k.cpu.reg .esp - 56 := ht.argument hsixty
  have hintNo : (getRegisters t.mem (k.cpu.reg .esp - 56).toNat).intNo =
      BitVec.ofNat 32 (vectorOf r) := by
    have hregs := ht.getRegisters hsixty
    rw [hnumber] at hregs
    rw [hsp]
    exact congrArg Registers.intNo hregs
  have hinside := h.inside
  have hmem := v.round.current_mem_members
  obtain ⟨m, esp, hhandler, hm⟩ := h.scheduled (t := ⟨t.mem, pics, k.machine.scheduler⟩) hack hkeeps
    rfl rfl hintNo fun j hj => ⟨_, hmem, by omega, by omega, fun _ => by omega⟩
  set v' := v.step (.interrupt r handlers clobbered) with hv'
  have hmembers : v'.round.members = v.round.members := v.members_interrupt r handlers clobbered
  have hturn : v'.round.current ∈ v.round.members := hmembers ▸ v'.round.current_mem_members
  have hwaits : ∀ q ∈ v.round.members,
      Waiting m.mem (v.region q) (waitingAt k v q) (v'.cpu q) (v.stack q) := fun q hq =>
    h.allWait ht hroom hm.kept hq
  have hprivileged : ∀ q ∈ v.round.members, (v'.cpu q).seg .cs = 0x08 := by
    intro q hq
    by_cases hcurrent : q = v.round.current
    · have hcpu : v'.cpu v.round.current = flat (v.cpu v.round.current) := Function.update_self ..
      rw [hcurrent, hcpu]
      exact h.privileged _ hmem
    · have hcpu : v'.cpu q = v.cpu q := Function.update_of_ne hcurrent ..
      rw [hcpu]
      exact h.privileged q hq
  set u : State := ⟨{ clobbered.setReg .eax esp with seg := t.cpu.seg }, m.mem⟩ with hu
  have heax : u.cpu.reg .eax = esp := Cpu.reg_setReg_self clobbered .eax esp
  have hresume : run IA32.step u commonExit = some ⟨v'.cpu v'.round.current, m.mem⟩ := by
    refine (hwaits _ hturn).resume (h.addressed _ hturn) (hprivileged _ hturn) rfl ?_ ht.cs
    exact heax.trans hm.returned
  refine ⟨⟨v'.cpu v'.round.current, m⟩, ?_, ?_⟩
  · rw [interrupt, if_neg hflag, hack, Option.bind_some]
    dsimp only
    rw [hvector, hstub, Option.bind_some, hrun, Option.bind_some, hargument, hhandler,
      Option.bind_some]
    dsimp only
    rw [← hu, hresume]
    rfl
  · refine Sim.of_waiting hm.round (h.fresh.trans hm.nextPointer.symm) ?_ ?_ ?_ ?_ ?_
      (fun q hq hne => hm.others q hne) rfl
    · exact hm.pics ▸ h.controllers
    · exact hmembers ▸ h.disjoint
    · exact hmembers ▸ h.addressed
    · exact hmembers ▸ hprivileged
    · exact hmembers ▸ hwaits

/-! ### Computing -/

theorem Sim.step_compute (h : Sim k v) {cpu : Cpu} {mem : ℕ → U8}
    (hallowed : Allowed k v (.compute cpu mem)) :
    Sim ⟨cpu, { k.machine with mem := mem }⟩ (v.step (.compute cpu mem)) := by
  obtain ⟨hcs, hinside, hothers⟩ := hallowed
  have hcurrent : (v.step (.compute cpu mem)).cpu v.round.current = cpu :=
    Function.update_self ..
  have hcpu : ∀ q, q ≠ v.round.current → (v.step (.compute cpu mem)).cpu q = v.cpu q :=
    fun q hne => Function.update_of_ne hne ..
  have hown : (v.step (.compute cpu mem)).stack v.round.current = mem := Function.update_self ..
  have hstack : ∀ q, q ≠ v.round.current → (v.step (.compute cpu mem)).stack q = v.stack q :=
    fun q hne => Function.update_of_ne hne ..
  refine ⟨h.round, h.fresh, h.controllers, h.disjoint, h.addressed, fun q hq => ?_, hcurrent.symm,
    hinside, fun a _ _ _ => (congrFun hown a).symm, fun q hq hne => ?_⟩
  · by_cases heq : q = v.round.current
    · rw [heq, hcurrent]
      exact hcs
    · rw [hcpu q heq]
      exact h.privileged q hq
  · rw [hcpu q hne, hstack q hne]
    exact (h.waiting q hq hne).congr fun a hbottom htop => hothers q hq hne a hbottom htop

/-! ### A new process -/

theorem putInitial_outside (m : ℕ → U8) {a b : ℕ} (entryPoint : U32) (h : b < a ∨ a + 56 ≤ b) :
    putInitial m a entryPoint b = m b := by
  rw [putInitial, put32_outside _ (by omega), put32_outside _ (by omega),
    put32_outside _ (by omega), put32_outside _ (by omega), memset_outside _ (by omega)]

/-- A word that `add_process` leaves cleared. -/
theorem get32_putInitial (m : ℕ → U8) (a : ℕ) (entryPoint : U32) {j : ℕ} (hlow : 4 ≤ j)
    (hhigh : j ≤ 40) : get32 (putInitial m a entryPoint) (a + j) = 0 := by
  rw [putInitial, get32_put32_of_disjoint _ (by omega), get32_put32_of_disjoint _ (by omega),
    get32_put32_of_disjoint _ (by omega), get32_put32_of_disjoint _ (by omega)]
  have hcleared : ∀ i < 4, memset m a 0 56 (a + j + i) = 0 := fun i hi =>
    memset_apply 0 56 (by omega)
  have hfirst : memset m a 0 56 (a + j) = 0 := hcleared 0 (by omega)
  rw [get32, hfirst, hcleared 1 (by omega), hcleared 2 (by omega), hcleared 3 (by omega)]
  rfl

/-- What `add_process` writes is what the scheduler's model has as the frame. -/
theorem getRegisters_putInitial (m : ℕ → U8) (a : ℕ) (entryPoint : U32) :
    getRegisters (putInitial m a entryPoint) a =
      { eip := entryPoint, cs := 0x08, ds := 0x10, eflags := 0x202 } := by
  have hzero : ∀ j, 4 ≤ j → j ≤ 40 → get32 (putInitial m a entryPoint) (a + j) = 0 :=
    fun j hlow hhigh => get32_putInitial m a entryPoint hlow hhigh
  have hds : get32 (putInitial m a entryPoint) a = 0x10 := by
    rw [putInitial, get32_put32_of_disjoint _ (by omega), get32_put32]
  have heip : get32 (putInitial m a entryPoint) (a + 44) = entryPoint := by
    rw [putInitial, get32_put32_of_disjoint _ (by omega), get32_put32_of_disjoint _ (by omega),
      get32_put32_of_disjoint _ (by omega), get32_put32]
  have hcs : get32 (putInitial m a entryPoint) (a + 48) = 0x08 := by
    rw [putInitial, get32_put32_of_disjoint _ (by omega), get32_put32_of_disjoint _ (by omega),
      get32_put32]
  have hflags : get32 (putInitial m a entryPoint) (a + 52) = 0x202 := by
    rw [putInitial, get32_put32]
  rw [getRegisters, hds, heip, hcs, hflags]
  simp only [hzero, Nat.reduceLeDiff]

/-- The stack pointer and the frame that the model of the scheduler has for a new process. -/
theorem stackPtr_addProcess {s s' : Scheduler} {name : CString} {entryPoint stack : U32}
    (hadd : s.addProcess name entryPoint stack = some s') :
    (s'.memory s.nextPointer).stackPtr = stack + Scheduler.stackSize - registersSize ∧
      s'.frames (stack + Scheduler.stackSize - registersSize) =
        { eip := entryPoint, cs := 0x08, ds := 0x10, eflags := 0x202 } := by
  rw [Scheduler.addProcess] at hadd
  split at hadd
  · exact absurd hadd (Option.some_ne_none s').symm
  · rw [Option.some_inj] at hadd
    subst hadd
    constructor
    · dsimp only
      rw [Function.update_self]
    · dsimp only
      rw [Function.update_self]

theorem Sim.step_addProcess (h : Sim k v) (address : Stub → U32) {name : CString}
    {entryPoint stack : U32} (hallowed : Allowed k v (.addProcess name entryPoint stack)) :
    ∃ k', k.step address (.addProcess name entryPoint stack) = some k' ∧
      Sim k' (v.step (.addProcess name entryPoint stack)) := by
  obtain ⟨hname, hfits, hapart⟩ := hallowed
  obtain ⟨scheduler, hadd⟩ := k.machine.scheduler.addProcess_isSome hname entryPoint stack
  obtain ⟨hround, hnew⟩ := h.round.addProcess hadd
  obtain ⟨-, -, hpointer, -, -, hold⟩ := Scheduler.addProcess_spec hadd
  rw [← h.fresh] at hround hnew hpointer hold
  have hstackPtr := (stackPtr_addProcess hadd).1
  rw [← h.fresh] at hstackPtr
  set sp := stack + Scheduler.stackSize - registersSize with hsp
  have hplace : sp.toNat = stack.toNat + 8136 := by
    have hsum : sp = stack + 8136 := by
      rw [hsp, BitVec.sub_eq_add_neg, BitVec.add_assoc]
      rfl
    have hadd : stack.toNat + (8136 : U32).toNat < 2 ^ 32 := by
      change stack.toNat + 8136 < 2 ^ 32
      omega
    rw [hsum, BitVec.toNat_add_of_lt hadd]
    rfl
  have hend : sp + 56 = stack + Scheduler.stackSize := BitVec.sub_add_cancel ..
  set v' := v.step (.addProcess name entryPoint stack) with hv'
  have hmembers : v'.round.members = v.fresh :: v.round.members := rfl
  have hcurrent : v'.round.current = v.round.current := rfl
  -- the processes that there were
  have hne : ∀ q ∈ v.round.members, q ≠ v.fresh := fun q hq heq => hnew (heq ▸ hq)
  have hcpu : ∀ q ∈ v.round.members, v'.cpu q = v.cpu q := fun q hq =>
    Function.update_of_ne (hne q hq) ..
  have hregion : ∀ q ∈ v.round.members, v'.region q = v.region q := fun q hq =>
    Function.update_of_ne (hne q hq) ..
  have hmem : ∀ q ∈ v.round.members, ∀ a, (v.region q).bottom ≤ a → a < (v.region q).top →
      putInitial k.machine.mem sp.toNat entryPoint a = k.machine.mem a := by
    intro q hq a hbottom htop
    have hdisjoint : (v.region q).top ≤ stack.toNat ∨ stack.toNat + 8192 ≤ (v.region q).bottom :=
      hapart q hq
    exact putInitial_outside _ _ (by omega)
  -- the new one
  have hcpu' : v'.cpu v.fresh = started entryPoint (stack + Scheduler.stackSize) :=
    Function.update_self ..
  have hregion' : v'.region v.fresh = ⟨stack.toNat, stack.toNat + 8192⟩ := Function.update_self ..
  have hdisjoint : ∀ q ∈ v.round.members, (v'.region q).Disjoint (v'.region v.fresh) := by
    intro q hq
    rw [hregion q hq, hregion']
    exact hapart q hq
  have hnow := v.round.current_mem_members
  refine ⟨_, congrArg (Option.map _) hadd, hround, ?_, h.controllers, ?_, ?_, ?_, ?_, ?_, ?_, ?_⟩
  · exact (congrArg (· + 1) rfl).trans hpointer.symm
  · intro p hp q hq hpq
    rcases List.mem_cons.mp hp with rfl | hp
    · rcases List.mem_cons.mp hq with rfl | hq
      · exact absurd rfl hpq
      · exact (hdisjoint q hq).symm
    · rcases List.mem_cons.mp hq with rfl | hq
      · exact hdisjoint p hp
      · rw [hregion p hp, hregion q hq]
        exact h.disjoint p hp q hq hpq
  · intro q hq
    rcases List.mem_cons.mp hq with rfl | hq
    · rw [hregion']
      exact hfits
    · rw [hregion q hq]
      exact h.addressed q hq
  · intro q hq
    rcases List.mem_cons.mp hq with rfl | hq
    · rw [hcpu']
      rfl
    · rw [hcpu q hq]
      exact h.privileged q hq
  · rw [hcurrent, hcpu _ hnow]
    exact h.running
  · rw [hcurrent, hregion _ hnow]
    exact h.inside
  · intro a hbottom ha hlt
    rw [hcurrent, hregion _ hnow] at hbottom hlt
    exact (hmem _ hnow a hbottom hlt).trans (h.own a hbottom ha hlt)
  · intro q hq hneq
    rcases List.mem_cons.mp hq with rfl | hq
    · rw [hregion', hcpu']
      dsimp only
      rw [hstackPtr]
      refine ⟨show stack.toNat ≤ sp.toNat by omega, show sp.toNat + 56 ≤ stack.toNat + 8192 by omega,
        ?_, fun a ha hlt => ?_⟩
      · rw [getRegisters_putInitial, hend]
        rfl
      · dsimp only at hlt
        omega
    · rw [hregion q hq, hcpu q hq]
      dsimp only
      rw [hold q (hne q hq)]
      exact (h.waiting q hq hneq).congr (hmem q hq)

/-! ### Runs -/

/-- Both machines take the same step. -/
def stepBoth (address : Stub → U32) (s : Kernel × Virtual) (e : Event) : Option (Kernel × Virtual) :=
  (s.1.step address e).map fun k => (k, s.2.step e)

theorem run_stepBoth (address : Stub → U32) (k : Kernel) (v : Virtual) (events : List Event) :
    run (stepBoth address) (k, v) events =
      (run (Kernel.step address) k events).map fun k => (k, events.foldl Virtual.step v) := by
  induction events generalizing k v with
  | nil => rfl
  | cons e events ih =>
    rw [run_cons, run_cons, stepBoth]
    cases k.step address e with
    | none => rfl
    | some k' => exact ih k' (v.step e)

/-- One step of the machine is one of the abstract machine. -/
theorem Sim.step (h : Sim k v) (address : Stub → U32) {e : Event} (hallowed : Allowed k v e) :
    ∃ k', k.step address e = some k' ∧ Sim k' (v.step e) := by
  cases e with
  | compute cpu mem => exact ⟨_, rfl, h.step_compute hallowed⟩
  | interrupt r handlers clobbered => exact h.step_interrupt address hallowed
  | addProcess name entryPoint stack => exact h.step_addProcess address hallowed

/-- Behind the initialisation: the kernel runs on the stack of the boot code. -/
def booted (scheduler : Scheduler) (pics : PIC8259.Pair) (cpu : Cpu) (mem : ℕ → U8) : Kernel where
  cpu := cpu
  machine := ⟨mem, remap.foldl (fun p w => p.out w.1 w.2) pics, scheduler⟩

def bootedVirtual (scheduler : Scheduler) (kernel : ℕ) (region : Region) (cpu : Cpu)
    (mem : ℕ → U8) : Virtual where
  round := ⟨[], kernel, []⟩
  fresh := scheduler.nextPointer
  region := fun _ => region
  cpu := fun _ => cpu
  stack := fun _ => mem

/-- A run whose steps are all allowed does not stop, and the processes do not notice that they share
the processor. -/
theorem processes_unaware (address : Stub → U32) (scheduler : Scheduler) (stack : U32)
    (pics : PIC8259.Pair) {cpu : Cpu} (mem : ℕ → U8) {region : Region}
    (hcs : cpu.seg .cs = 0x08) (hinside : (cpu.reg .esp).toNat ≤ region.top)
    (htop : region.top < 2 ^ 32) :
    ∃ s₀, scheduler.initializeScheduler stack = some s₀ ∧ ∀ events,
      let k := booted s₀ pics cpu mem
      let v := bootedVirtual s₀ scheduler.nextPointer region cpu mem
      Guarded (stepBoth address) (fun s e => Allowed s.1 s.2 e) (k, v) events →
        ∃ k', run (Kernel.step address) k events = some k' ∧
          Sim k' (events.foldl Virtual.step v) := by
  obtain ⟨s₀, hinit, hinv⟩ := scheduler.initializeScheduler_spec stack
  refine ⟨s₀, hinit, ?_⟩
  intro events k v hguarded
  have hround : Scheduler.Represents s₀ ⟨[], scheduler.nextPointer, []⟩ := hinv.round
  have honly : ∀ q ∈ v.round.members, q = scheduler.nextPointer := fun q hq =>
    List.mem_singleton.mp hq
  have hstart : Sim k v := by
    refine ⟨hround, rfl, remapped pics, fun p hp q hq hne => ?_, fun _ _ => htop, fun _ _ => hcs,
      rfl, hinside, fun _ _ _ _ => rfl, fun q hq hne => absurd (honly q hq) hne⟩
    exact absurd ((honly p hp).trans (honly q hq).symm) hne
  obtain ⟨⟨k', v'⟩, hrun, hsim⟩ := run_total (P := fun s : Kernel × Virtual => Sim s.1 s.2)
    (fun s e hs he => by
      obtain ⟨k', hstep, hsim⟩ := hs.step address he
      exact ⟨(k', s.2.step e), by rw [stepBoth, hstep]; rfl, hsim⟩)
    hstart hguarded
  rw [run_stepBoth, Option.map_eq_some_iff] at hrun
  obtain ⟨k'', hk, heq⟩ := hrun
  rw [Prod.mk.injEq] at heq
  obtain ⟨rfl, rfl⟩ := heq
  exact ⟨_, hk, hsim⟩

/-- The kernel on its boot stack. -/
def kernelCpu : Cpu where
  reg := fun r => if r = .esp then 0x108000 else 0
  seg := fun g => if g = .cs then 0x08 else 0x10
  eip := 0x100000
  eflags := 0x202

/-- A process is added, and the timer ticks. -/
def firstTurn : List Event :=
  [.addProcess Scheduler.kernelName 0x2000 0x400000,
    .interrupt .timer (fun _ => none) kernelCpu]

theorem guarded_firstTurn (address : Stub → U32) (s₀ : Scheduler) (pics : PIC8259.Pair)
    (kernel : ℕ) (hfresh : s₀.nextPointer ≠ kernel) :
    Guarded (stepBoth address) (fun s e => Allowed s.1 s.2 e)
      (booted s₀ pics kernelCpu fun _ => 0,
        bootedVirtual s₀ kernel ⟨0x104000, 0x108000⟩ kernelCpu fun _ => 0) firstTurn := by
  have hbelow : 0x108000 ≤ (0x400000 : U32).toNat := by decide
  refine ⟨⟨by decide, by decide, fun q hq => .inl hbelow⟩, fun s hs => ⟨?_, fun _ _ => trivial⟩⟩
  rw [stepBoth, Option.map_eq_some_iff] at hs
  obtain ⟨k, hk, rfl⟩ := hs
  rw [Kernel.step, Option.map_eq_some_iff] at hk
  obtain ⟨scheduler, -, rfl⟩ := hk
  have hflag : kernelCpu.eflags &&& interruptFlag ≠ 0 := by decide
  refine ⟨hflag, by decide, ?_, fun n handler hhandler => absurd hhandler (by simp)⟩
  have hregion : Function.update (fun _ => (⟨0x104000, 0x108000⟩ : Region)) s₀.nextPointer
      ⟨(0x400000 : U32).toNat, (0x400000 : U32).toNat + 8192⟩ kernel = ⟨0x104000, 0x108000⟩ :=
    Function.update_of_ne hfresh.symm ..
  exact (congrArg (fun g : Region => g.bottom + 60 ≤ (kernelCpu.reg .esp).toNat) hregion).mpr
    (by decide)

/-- Controllers that have not been set up. -/
def unsetPics : PIC8259.Pair :=
  let chip : PIC8259.Chip := ⟨0, 0, 0xFF, 0, false, .mask, false, false⟩
  ⟨chip, chip⟩

/-- The new process begins at its entry point, at the top of its stack. -/
theorem processes_unaware_firstTurn :
    ∃ s₀ k', Scheduler.kernelAndShell.initializeScheduler 0x300000 = some s₀ ∧
      run (Kernel.step fun _ => 0) (booted s₀ unsetPics kernelCpu fun _ => 0) firstTurn =
        some k' ∧
      k'.cpu = started 0x2000 0x402000 := by
  have hinside : (kernelCpu.reg .esp).toNat ≤ (⟨0x104000, 0x108000⟩ : Region).top := by decide
  obtain ⟨s₀, hinit, hruns⟩ := processes_unaware (fun _ => 0) Scheduler.kernelAndShell 0x300000
    unsetPics (fun _ => 0) rfl hinside (by decide)
  have hexplicit : ∃ s₁, Scheduler.kernelAndShell.initializeScheduler 0x300000 = some s₁ ∧
      s₁.nextPointer = 3 := ⟨_, rfl, rfl⟩
  obtain ⟨s₁, hinit', hthree⟩ := hexplicit
  obtain rfl : s₁ = s₀ := Option.some_inj.mp (hinit'.symm.trans hinit)
  have hfresh : s₁.nextPointer ≠ 2 := by
    rw [hthree]
    decide
  obtain ⟨k', hrun, hsim⟩ := hruns firstTurn (guarded_firstTurn _ s₁ _ _ hfresh)
  -- the kernel was interrupted, and the turn goes to the front of the list
  exact ⟨s₁, k', hinit, hrun, hsim.running.trans
    ((Function.update_of_ne hfresh ..).trans (Function.update_self ..))⟩

end MesaOS.Arch
