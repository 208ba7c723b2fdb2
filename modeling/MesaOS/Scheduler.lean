/-
The scheduler (`scheduler.cpp`).

The processes are a linked list that grows at its head, and the turn goes along it.

* `Represents.schedule`, `Represents.addProcess` — the list and the turn are a `RoundRobin`;
* `contexts_kept` — in every run one process of the list is running, and `schedule` returns the
  stack pointer with which the process was left;
* `fair` — every process gets its turns, whatever is added.
-/
import Mathlib.Data.List.Count
import MesaOS.RoundRobin
import MesaOS.Shell

open MachineWord Runs MesaOS.FS

namespace MesaOS.System

/-- `struct Registers` of the interrupt handlers. -/
structure Registers where
  ds : U32 := 0
  edi : U32 := 0
  esi : U32 := 0
  ebp : U32 := 0
  esp : U32 := 0
  ebx : U32 := 0
  edx : U32 := 0
  ecx : U32 := 0
  eax : U32 := 0
  intNo : U32 := 0
  errCode : U32 := 0
  eip : U32 := 0
  cs : U32 := 0
  eflags : U32 := 0

/-- `sizeof(Registers)` -/
def registersSize : U32 := 56

inductive ProcessState
  | ready
  | running
  | suspended
  | terminated
  deriving DecidableEq

/-- `struct Process`, without the registers that `memset` clears and nothing reads. -/
structure Process where
  pid : U32
  name : CString
  state : ProcessState
  stackPtr : U32
  next : Option ℕ

/-- The static members, the memory that process pointers point to, and what is written at the
top of the stacks.  `kmalloc` hands out the processes in order. -/
structure Scheduler where
  processList : Option ℕ
  currentProcess : Option ℕ
  nextPid : U32
  memory : ℕ → Process
  nextPointer : ℕ
  frames : U32 → Registers

namespace Scheduler

/-- An assignment through a process pointer. -/
def modify (s : Scheduler) (p : ℕ) (f : Process → Process) : Scheduler :=
  { s with memory := Function.update s.memory p (f (s.memory p)) }

def stackSize : U32 := 8192

/-- `Scheduler::add_process`; `stack` is the block that `kmalloc` returns.  There is no result
when `strcpy` leaves `name[32]`. -/
def addProcess (s : Scheduler) (name : CString) (entryPoint stack : U32) : Option Scheduler :=
  if !name.fits 32 then none
  else
    let stackPtr := stack + stackSize - registersSize
    let regs : Registers := { eip := entryPoint, cs := 0x08, ds := 0x10, eflags := 0x202 }
    let proc : Process :=
      { pid := s.nextPid, name := name, state := .ready, stackPtr := stackPtr
        next := s.processList }
    some { s with
      nextPid := s.nextPid + 1
      memory := Function.update s.memory s.nextPointer proc
      nextPointer := s.nextPointer + 1
      frames := Function.update s.frames stackPtr regs
      processList := some s.nextPointer }

def kernelName : CString := ⟨chars "kernel", by decide⟩

/-- `Scheduler::initialize` -/
def initializeScheduler (s : Scheduler) (stack : U32) : Option Scheduler :=
  ({ s with processList := none, currentProcess := none, nextPid := 0 }.addProcess kernelName 0
    stack).bind fun s => s.processList.map fun p =>
      { s with currentProcess := some p }.modify p fun proc => { proc with state := .running }

/-- `Scheduler::schedule`: the new state and the value returned.  There is no result when a null
pointer is followed. -/
def schedule (s : Scheduler) (currentStack : U32) : Option (Scheduler × U32) :=
  match s.currentProcess with
  | none => some (s, currentStack)
  | some p =>
    let s := s.modify p fun proc => { proc with stackPtr := currentStack, state := .ready }
    ((s.memory p).next.or s.processList).map fun next =>
      let s := { s with currentProcess := some next }.modify next fun proc =>
        { proc with state := .running }
      (s, (s.memory next).stackPtr)

/-! ### The list -/

/-- The pointers from `p` along `next`. -/
def Chain (memory : ℕ → Process) : Option ℕ → List ℕ → Prop
  | p, [] => p = none
  | p, q :: qs => p = some q ∧ Chain memory (memory q).next qs

theorem Chain.unique {memory : ℕ → Process} {p : Option ℕ} {ps qs : List ℕ}
    (h : Chain memory p ps) (h' : Chain memory p qs) : ps = qs := by
  induction ps generalizing p qs with
  | nil =>
    cases qs with
    | nil => rfl
    | cons q qs => exact absurd (h.symm.trans h'.1) (by simp)
  | cons a ps ih =>
    cases qs with
    | nil => exact absurd (h'.symm.trans h.1) (by simp)
    | cons q qs =>
      obtain rfl : a = q := Option.some_inj.mp (h.1.symm.trans h'.1)
      rw [ih h.2 h'.2]

theorem Chain.of_append {memory : ℕ → Process} {p : Option ℕ} {before after : List ℕ} {q : ℕ}
    (h : Chain memory p (before ++ q :: after)) : Chain memory (some q) (q :: after) := by
  induction before generalizing p with
  | nil => exact ⟨rfl, h.2⟩
  | cons a before ih => exact ih h.2

/-- A list that ends goes through no process twice. -/
theorem Chain.nodup {memory : ℕ → Process} {p : Option ℕ} {ps : List ℕ}
    (h : Chain memory p ps) : ps.Nodup := by
  induction ps generalizing p with
  | nil => exact List.nodup_nil
  | cons q ps ih =>
    refine List.nodup_cons.mpr ⟨fun hmem => ?_, ih h.2⟩
    obtain ⟨before, after, rfl⟩ := List.append_of_mem hmem
    have hself : Chain memory (some q) (q :: (before ++ q :: after)) := ⟨rfl, h.2⟩
    have hsame := (Chain.of_append h.2).unique hself
    have hlength := congrArg List.length hsame
    rw [List.length_cons, List.length_cons, List.length_append, List.length_cons] at hlength
    omega

theorem Chain.congr {memory memory' : ℕ → Process} {p : Option ℕ} {ps : List ℕ}
    (hnext : ∀ q ∈ ps, (memory' q).next = (memory q).next) (h : Chain memory p ps) :
    Chain memory' p ps := by
  induction ps generalizing p with
  | nil => exact h
  | cons q ps ih =>
    refine ⟨h.1, ?_⟩
    rw [hnext q (List.mem_cons_self ..)]
    exact ih (fun x hx => hnext x (List.mem_cons_of_mem q hx)) h.2

/-- What follows a process in the list. -/
theorem Chain.next_eq {memory : ℕ → Process} {p : Option ℕ} {before after : List ℕ} {q : ℕ}
    (h : Chain memory p (before ++ q :: after)) : (memory q).next = after.head? := by
  have hafter := (Chain.of_append h).2
  cases after with
  | nil => exact hafter
  | cons a after => exact hafter.1

theorem Chain.head_eq {memory : ℕ → Process} {p : Option ℕ} {ps : List ℕ}
    (h : Chain memory p ps) : p = ps.head? := by
  cases ps with
  | nil => exact h
  | cons a ps => exact h.1

/-- The list and the turn are those of a round. -/
structure Represents (s : Scheduler) (r : RoundRobin ℕ) : Prop where
  chain : Chain s.memory s.processList r.members
  current : s.currentProcess = some r.current
  allocated : ∀ p ∈ r.members, p < s.nextPointer

variable {s s' : Scheduler} {r : RoundRobin ℕ}

theorem modify_memory (s : Scheduler) (p : ℕ) (f : Process → Process) (q : ℕ) :
    (s.modify p f).memory q = if q = p then f (s.memory q) else s.memory q := by
  by_cases hq : q = p
  · rw [if_pos hq, hq]
    exact Function.update_self ..
  · rw [if_neg hq]
    exact Function.update_of_ne hq ..

/-- The state behind a switch from `p` to `next`. -/
def switched (s : Scheduler) (p next : ℕ) (currentStack : U32) : Scheduler :=
  { s.modify p fun proc => { proc with stackPtr := currentStack, state := .ready } with
    currentProcess := some next }.modify next fun proc => { proc with state := .running }

/-- The process at `q` behind a switch from `p` to `next`. -/
theorem memory_switched (s : Scheduler) (p next : ℕ) (x : U32) (q : ℕ) :
    (s.switched p next x).memory q =
      { s.memory q with
        stackPtr := if q = p then x else (s.memory q).stackPtr
        state := if q = next then .running else if q = p then .ready
          else (s.memory q).state } := by
  rw [switched, modify_memory]
  dsimp only
  rw [modify_memory]
  by_cases hnext : q = next
  · rw [if_pos hnext, if_pos hnext]
    by_cases hp : q = p
    · rw [if_pos hp, if_pos hp]
    · rw [if_neg hp, if_neg hp]
  · rw [if_neg hnext, if_neg hnext]
    by_cases hp : q = p
    · rw [if_pos hp, if_pos hp, if_pos hp]
    · rw [if_neg hp, if_neg hp, if_neg hp]

theorem head_or_head (r : RoundRobin ℕ) :
    r.after.head?.or r.members.head? = some r.tick.current := by
  obtain ⟨before, current, after⟩ := r
  cases after with
  | cons next rest => rfl
  | nil => cases before <;> rfl

/-- `schedule` gives the turn to the next process of the round. -/
theorem Represents.schedule (h : Represents s r) (x : U32) :
    s.schedule x = some (s.switched r.current r.tick.current x,
      ((s.switched r.current r.tick.current x).memory r.tick.current).stackPtr) ∧
    Represents (s.switched r.current r.tick.current x) r.tick := by
  constructor
  · have hnext : (s.memory r.current).next = r.after.head? := h.chain.next_eq
    have hturn : ((s.modify r.current fun proc =>
        { proc with stackPtr := x, state := .ready }).memory r.current).next.or s.processList =
          some r.tick.current := by
      rw [modify_memory, if_pos rfl, hnext, h.chain.head_eq, head_or_head]
    rw [Scheduler.schedule, h.current]
    exact congrArg (Option.map _) hturn
  · have hmembers := r.members_tick
    refine ⟨?_, rfl, ?_⟩
    · rw [hmembers]
      exact h.chain.congr fun q _ => by rw [memory_switched]
    · rw [hmembers]
      exact h.allocated

/-- What `add_process` changes. -/
theorem addProcess_spec {name : CString} {entryPoint stack : U32}
    (hadd : s.addProcess name entryPoint stack = some s') :
    s'.processList = some s.nextPointer ∧ s'.currentProcess = s.currentProcess ∧
      s'.nextPointer = s.nextPointer + 1 ∧
      (s'.memory s.nextPointer).next = s.processList ∧
      (s'.memory s.nextPointer).state = .ready ∧
      ∀ q, q ≠ s.nextPointer → s'.memory q = s.memory q := by
  rw [addProcess] at hadd
  split at hadd
  · exact absurd hadd (Option.some_ne_none s').symm
  · rw [Option.some_inj] at hadd
    subst hadd
    refine ⟨rfl, rfl, rfl, ?_, ?_, fun q hq => Function.update_of_ne hq ..⟩
    · dsimp only
      rw [Function.update_self]
    · dsimp only
      rw [Function.update_self]

/-- A process that is added. -/
theorem Represents.addProcess (h : Represents s r) {name : CString} {entryPoint stack : U32}
    (hadd : s.addProcess name entryPoint stack = some s') :
    Represents s' (r.add s.nextPointer) ∧ s.nextPointer ∉ r.members := by
  have hnew : s.nextPointer ∉ r.members := fun hmem => Nat.lt_irrefl _ (h.allocated _ hmem)
  obtain ⟨hlist, hcurrent, hpointer, hnext, -, hold⟩ := addProcess_spec hadd
  refine ⟨⟨⟨hlist, ?_⟩, hcurrent.trans h.current, ?_⟩, hnew⟩
  · rw [hnext]
    refine h.chain.congr fun q hq => ?_
    rw [hold q fun heq => hnew (heq ▸ hq)]
  · intro q hq
    rw [hpointer]
    rcases List.mem_cons.mp hq with rfl | hmem
    · exact Nat.lt_succ_self _
    · exact Nat.lt_succ_of_lt (h.allocated q hmem)

theorem addProcess_isSome (s : Scheduler) {name : CString} (hname : name.fits 32 = true)
    (entryPoint stack : U32) : ∃ s', s.addProcess name entryPoint stack = some s' := by
  rw [addProcess, hname]
  exact ⟨_, rfl⟩

/-! ### Runs -/

inductive Event
  | addProcess (name : CString) (entryPoint stack : U32)
  | schedule (currentStack : U32)

/-- The names that the kernel gives to its processes are short. -/
def Event.NameFits : Event → Prop
  | .addProcess name _ _ => name.fits 32 = true
  | .schedule _ => True

/-- A call of `schedule`: the process that was current, the stack pointer passed, the process
that is current behind it, and the value returned. -/
structure Switch where
  previous : Option ℕ
  saved : U32
  next : Option ℕ
  returned : U32

/-- A scheduler with the calls of `schedule` so far and the stack pointers that the processes
were created with. -/
structure Traced where
  scheduler : Scheduler
  initialStack : ℕ → U32
  switches : List Switch

def Traced.step (t : Traced) : Event → Option Traced
  | .addProcess name entryPoint stack =>
    (t.scheduler.addProcess name entryPoint stack).map fun s =>
      let p := t.scheduler.nextPointer
      { t with
        scheduler := s
        initialStack := Function.update t.initialStack p (s.memory p).stackPtr }
  | .schedule currentStack =>
    (t.scheduler.schedule currentStack).map fun (s, returned) =>
      { t with
        scheduler := s
        switches := t.switches ++
          [⟨t.scheduler.currentProcess, currentStack, s.currentProcess, returned⟩] }

/-- A scheduler before its first call. -/
def traced (s : Scheduler) : Traced :=
  { scheduler := s, initialStack := fun p => (s.memory p).stackPtr, switches := [] }

/-- The stack pointer of the last call of `schedule` while `p` was current. -/
def lastSaved (switches : List Switch) (p : ℕ) : Option U32 :=
  (switches.filter fun e => e.previous = some p).getLast?.map Switch.saved

/-- One process of the list is running, and every value returned is the stack pointer with which
the new process was left, or the one it was created with. -/
structure Traced.ContextsKept (t : Traced) : Prop where
  processes : ∃ ps p, Chain t.scheduler.memory t.scheduler.processList ps ∧
    t.scheduler.currentProcess = some p ∧ p ∈ ps ∧
    ∀ q ∈ ps, (t.scheduler.memory q).state = if q = p then .running else .ready
  returned : ∀ before e, before ++ [e] <+: t.switches → ∃ q, e.next = some q ∧
    e.returned = (lastSaved (before ++ [e]) q).getD (t.initialStack q)

/-- What the round sees of an event. -/
def roundEvent (s : Scheduler) : Event → RoundRobin.Event ℕ
  | .addProcess .. => .add s.nextPointer
  | .schedule _ => .tick

theorem lastSaved_append (switches : List Switch) (e : Switch) (p : ℕ) :
    lastSaved (switches ++ [e]) p =
      if e.previous = some p then some e.saved else lastSaved switches p := by
  rw [lastSaved, List.filter_append]
  by_cases he : e.previous = some p
  · have hlast : [e].filter (fun e => decide (e.previous = some p)) = [e] := by simp [he]
    rw [if_pos he, hlast, List.getLast?_concat]
    rfl
  · have hlast : [e].filter (fun e => decide (e.previous = some p)) = [] := by simp [he]
    rw [if_neg he, hlast, List.append_nil]
    rfl

/-- What holds in every state of a run. -/
structure Traced.Inv (t : Traced) (r : RoundRobin ℕ) : Prop where
  round : Represents t.scheduler r
  states : ∀ q ∈ r.members,
    (t.scheduler.memory q).state = if q = r.current then .running else .ready
  saved : ∀ q ∈ r.members,
    (t.scheduler.memory q).stackPtr = (lastSaved t.switches q).getD (t.initialStack q)
  previous : ∀ e ∈ t.switches, ∀ q, e.previous = some q → q ∈ r.members
  returned : ∀ before e, before ++ [e] <+: t.switches → ∃ q ∈ r.members, e.next = some q ∧
    e.returned = (lastSaved (before ++ [e]) q).getD (t.initialStack q)

theorem lastSaved_none {switches : List Switch} {p : ℕ}
    (h : ∀ e ∈ switches, e.previous ≠ some p) : lastSaved switches p = none := by
  rw [lastSaved, List.filter_eq_nil_iff.mpr fun e he => by simpa using h e he]
  rfl

theorem mem_members_tick {r : RoundRobin ℕ} : r.tick.current ∈ r.members := by
  rw [← r.members_tick]
  exact r.tick.current_mem_members

/-- After a switch the next process is running, and the one before it is ready. -/
theorem Traced.Inv.state_switched {t : Traced} (h : t.Inv r) (x : U32) {q : ℕ}
    (hq : q ∈ r.members) :
    ((t.scheduler.switched r.current r.tick.current x).memory q).state =
      if q = r.tick.current then .running else .ready := by
  rw [memory_switched]
  dsimp only
  rw [h.states q hq]
  by_cases hnext : q = r.tick.current
  · rw [if_pos hnext, if_pos hnext]
  · rw [if_neg hnext, if_neg hnext]
    by_cases hcurrent : q = r.current
    · rw [if_pos hcurrent]
    · rw [if_neg hcurrent, if_neg hcurrent]

/-- A switch saves the stack pointer of the process that was running. -/
theorem Traced.Inv.stackPtr_switched {t : Traced} (h : t.Inv r) (x returned : U32) {q : ℕ}
    (hq : q ∈ r.members) :
    ((t.scheduler.switched r.current r.tick.current x).memory q).stackPtr =
      (lastSaved (t.switches ++ [⟨some r.current, x, some r.tick.current, returned⟩]) q).getD
        (t.initialStack q) := by
  rw [memory_switched, lastSaved_append]
  dsimp only
  by_cases hcurrent : q = r.current
  · rw [if_pos hcurrent, if_pos (congrArg some hcurrent.symm)]
    rfl
  · rw [if_neg hcurrent, if_neg fun heq => hcurrent (Option.some_inj.mp heq).symm]
    exact h.saved q hq

theorem Traced.Inv.schedule {t t' : Traced} (h : t.Inv r) {x : U32}
    (hstep : t.step (.schedule x) = some t') : t'.Inv r.tick := by
  obtain ⟨hrun, hround⟩ := h.round.schedule x
  rw [Traced.step, hrun, Option.map_some, Option.some_inj, h.round.current] at hstep
  subst hstep
  have hmembers := r.members_tick
  refine ⟨hround, ?_, ?_, ?_, ?_⟩
  · intro q hq
    exact h.state_switched x (hmembers ▸ hq)
  · intro q hq
    exact h.stackPtr_switched x _ (hmembers ▸ hq)
  · -- the process that was running is a member
    intro e he q hq
    rw [hmembers]
    rcases List.mem_append.mp he with hold | hnew
    · exact h.previous e hold q hq
    · obtain rfl := List.mem_singleton.mp hnew
      obtain rfl : r.current = q := Option.some_inj.mp hq
      exact r.current_mem_members
  · -- what the new switch returns is what the next process was left with
    intro before e hbefore
    rw [hmembers]
    rcases List.prefix_concat_iff.mp hbefore with heq | hold
    · obtain ⟨rfl, hlast⟩ := List.append_inj' heq rfl
      obtain rfl := List.singleton_injective hlast
      exact ⟨r.tick.current, mem_members_tick, rfl, h.stackPtr_switched x _ mem_members_tick⟩
    · exact h.returned before e hold

theorem Traced.Inv.addProcess {t t' : Traced} (h : t.Inv r) {name : CString}
    {entryPoint stack : U32} (hstep : t.step (.addProcess name entryPoint stack) = some t') :
    t'.Inv (r.add t.scheduler.nextPointer) := by
  rw [Traced.step, Option.map_eq_some_iff] at hstep
  obtain ⟨s', hadd, rfl⟩ := hstep
  obtain ⟨hround, hnew⟩ := h.round.addProcess hadd
  obtain ⟨-, -, -, -, hready, hold⟩ := addProcess_spec hadd
  have hne : ∀ q ∈ r.members, q ≠ t.scheduler.nextPointer := fun q hq heq => hnew (heq ▸ hq)
  refine ⟨hround, fun q hq => ?_, fun q hq => ?_, fun e he q hq => ?_, fun before e hbefore => ?_⟩
  · rcases List.mem_cons.mp hq with rfl | hmem
    · have hturn : t.scheduler.nextPointer ≠ r.current :=
        (hne r.current r.current_mem_members).symm
      exact hready.trans (if_neg hturn).symm
    · rw [hold q (hne q hmem)]
      exact h.states q hmem
  · rcases List.mem_cons.mp hq with rfl | hmem
    · -- nothing has been saved at a new address
      have hnone : lastSaved t.switches t.scheduler.nextPointer = none :=
        lastSaved_none fun e he heq => hnew (h.previous e he _ heq)
      dsimp only
      rw [hnone, Function.update_self]
      rfl
    · dsimp only
      rw [hold q (hne q hmem), Function.update_of_ne (hne q hmem)]
      exact h.saved q hmem
  · exact List.mem_cons_of_mem _ (h.previous e he q hq)
  · obtain ⟨q, hmem, hnext, hreturned⟩ := h.returned before e hbefore
    refine ⟨q, List.mem_cons_of_mem _ hmem, hnext, ?_⟩
    dsimp only
    rw [Function.update_of_ne (hne q hmem)]
    exact hreturned

theorem Traced.Inv.step {t t' : Traced} (h : t.Inv r) {e : Event} (hstep : t.step e = some t') :
    t'.Inv (r.step (roundEvent t.scheduler e)) := by
  cases e with
  | addProcess name entryPoint stack => exact h.addProcess hstep
  | schedule x => exact h.schedule hstep

theorem Represents.step_isSome {t : Traced} (h : Represents t.scheduler r) {e : Event}
    (he : e.NameFits) : ∃ t', t.step e = some t' := by
  cases e with
  | addProcess name entryPoint stack =>
    obtain ⟨s', hadd⟩ := t.scheduler.addProcess_isSome he entryPoint stack
    rw [Traced.step, hadd]
    exact ⟨_, rfl⟩
  | schedule x =>
    rw [Traced.step, (h.schedule x).1]
    exact ⟨_, rfl⟩

/-- After `initialize` the kernel is alone and running. -/
theorem initializeScheduler_spec (s : Scheduler) (stack : U32) :
    ∃ s₀, s.initializeScheduler stack = some s₀ ∧
      (traced s₀).Inv { before := [], current := s.nextPointer, after := [] } := by
  obtain ⟨s₁, hadd⟩ := addProcess_isSome
    { s with processList := none, currentProcess := none, nextPid := 0 }
    (show kernelName.fits 32 = true by decide) 0 stack
  obtain ⟨hlist, -, hpointer, hnext, -⟩ := addProcess_spec hadd
  have hinit : s.initializeScheduler stack = some ({ s₁ with
      currentProcess := some s.nextPointer }.modify s.nextPointer fun proc =>
        { proc with state := .running }) := by
    rw [initializeScheduler, hadd, Option.bind_some, hlist]
    rfl
  refine ⟨_, hinit, ⟨⟨hlist, ?_⟩, rfl, ?_⟩, ?_, fun q _ => rfl, ?_, ?_⟩
  · rw [traced]
    dsimp only
    rw [modify_memory, if_pos rfl]
    exact hnext
  · intro p hp
    obtain rfl : p = s.nextPointer := List.mem_singleton.mp hp
    exact Nat.lt_of_lt_of_eq (Nat.lt_succ_self _) hpointer.symm
  · intro q hq
    obtain rfl : q = s.nextPointer := List.mem_singleton.mp hq
    rw [if_pos rfl, traced]
    dsimp only
    rw [modify_memory, if_pos rfl]
  · exact fun e he => absurd he List.not_mem_nil
  · intro before e hbefore
    exact absurd (List.prefix_nil.mp hbefore) (by simp)

/-- No process's context is lost or given to another. -/
theorem contexts_kept (s : Scheduler) (stack : U32) {events : List Event}
    (hnames : ∀ e ∈ events, e.NameFits) :
    ∃ s₀ t, s.initializeScheduler stack = some s₀ ∧ run Traced.step (traced s₀) events = some t ∧
      t.ContextsKept := by
  obtain ⟨s₀, hinit, hinv⟩ := s.initializeScheduler_spec stack
  obtain ⟨t, hrun, r, hr⟩ := run_total (P := fun t : Traced => ∃ r, t.Inv r)
    (fun t e ⟨r, hr⟩ he => by
      obtain ⟨t', hstep⟩ := hr.round.step_isSome he
      exact ⟨t', hstep, _, hr.step hstep⟩)
    ⟨_, hinv⟩ (guarded_of_forall_mem hnames (traced s₀))
  refine ⟨s₀, t, hinit, hrun, ⟨r.members, r.current, hr.round.chain, hr.round.current,
    r.current_mem_members, hr.states⟩, fun before e hbefore => ?_⟩
  obtain ⟨q, -, hnext, hreturned⟩ := hr.returned before e hbefore
  exact ⟨q, hnext, hreturned⟩

/-! ### Turns -/

/-- The process list and the current process in it; `kmalloc` has not yet handed out what comes
next. -/
structure Listed (s : Scheduler) (ps : List ℕ) (p : ℕ) : Prop where
  chain : Chain s.memory s.processList ps
  current : s.currentProcess = some p
  mem : p ∈ ps
  allocated : ∀ q ∈ ps, q < s.nextPointer

theorem Listed.exists_round {ps : List ℕ} {p : ℕ} (h : Listed s ps p) :
    ∃ r : RoundRobin ℕ, Represents s r ∧ r.members = ps ∧ r.current = p := by
  obtain ⟨before, after, rfl⟩ := List.append_of_mem h.mem
  exact ⟨⟨before, p, after⟩, ⟨h.chain, h.current, h.allocated⟩, rfl, rfl⟩

/-- What the round sees of the events when the next process is put at `n`. -/
def roundEvents : ℕ → List Event → List (RoundRobin.Event ℕ)
  | _, [] => []
  | n, .addProcess .. :: events => .add n :: roundEvents (n + 1) events
  | n, .schedule _ :: events => .tick :: roundEvents n events

theorem roundEvents_schedules (n : ℕ) (saves : List U32) :
    roundEvents n (saves.map .schedule) = List.replicate saves.length .tick := by
  induction saves with
  | nil => rfl
  | cons x saves ih =>
    rw [List.map_cons, roundEvents, ih, List.length_cons, List.replicate_succ]

theorem Represents.step {t t' : Traced} (h : Represents t.scheduler r) {e : Event}
    (hstep : t.step e = some t') :
    Represents t'.scheduler (r.step (roundEvent t.scheduler e)) := by
  cases e with
  | addProcess name entryPoint stack =>
    rw [Traced.step, Option.map_eq_some_iff] at hstep
    obtain ⟨s', hadd, rfl⟩ := hstep
    exact (h.addProcess hadd).1
  | schedule x =>
    obtain ⟨hrun, hround⟩ := h.schedule x
    rw [Traced.step, hrun, Option.map_some, Option.some_inj] at hstep
    exact hstep ▸ hround

/-- A run goes along the round, and the switches are its turns. -/
theorem run_simulates {t t' : Traced} {events : List Event} (h : Represents t.scheduler r)
    (hrun : run Traced.step t events = some t') :
    let round := roundEvents t.scheduler.nextPointer events
    r.Fresh round ∧ Represents t'.scheduler (round.foldl RoundRobin.step r) ∧
      t'.switches.map Switch.next = t.switches.map Switch.next ++ (r.turns round).map some := by
  induction events generalizing t r with
  | nil =>
    rw [run_nil, Option.some_inj] at hrun
    subst hrun
    exact ⟨trivial, h, (List.append_nil _).symm⟩
  | cons e events ih =>
    rw [run_cons] at hrun
    obtain ⟨u, hu, hrest⟩ := Option.bind_eq_some_iff.mp hrun
    obtain ⟨hfresh, hround, hturns⟩ := ih (h.step hu) hrest
    cases e with
    | addProcess name entryPoint stack =>
      rw [Traced.step, Option.map_eq_some_iff] at hu
      obtain ⟨s', hadd, rfl⟩ := hu
      obtain ⟨-, -, hpointer, -⟩ := addProcess_spec hadd
      dsimp only at hfresh hround hturns
      rw [hpointer] at hfresh hround hturns
      exact ⟨⟨(h.addProcess hadd).2, hfresh⟩, hround, hturns⟩
    | schedule x =>
      rw [Traced.step, (h.schedule x).1, Option.map_some, Option.some_inj] at hu
      subst hu
      refine ⟨hfresh, hround, hturns.trans ?_⟩
      rw [List.map_append, List.append_assoc]
      rfl

/-- In as many calls as there are processes each gets one turn. -/
def TakesTurns (s : Scheduler) (ps : List ℕ) : Prop :=
  ∀ saves : List U32, saves.length = ps.length →
    ∃ t, run Traced.step (traced s) (saves.map .schedule) = some t ∧
      (t.switches.map Switch.next).Perm (ps.map some)

/-- Until the current process gets its next turn, every other one gets exactly one. -/
def OneTurnBetween (s : Scheduler) (ps : List ℕ) (p : ℕ) : Prop :=
  ∀ events t x u returned, run Traced.step (traced s) events = some t →
    some p ∉ t.switches.map Switch.next → t.scheduler.schedule x = some (u, returned) →
    u.currentProcess = some p →
    ∀ q ∈ ps, q ≠ p → (t.switches.map Switch.next).count (some q) = 1

/-- As long as `schedule` is called again and again, every process gets a turn. -/
def NeverStarves (s : Scheduler) (ps : List ℕ) : Prop :=
  ∀ events : ℕ → Event, (∀ n, (events n).NameFits) →
    (∀ n, ∃ m x, n ≤ m ∧ events m = .schedule x) →
    ∀ q ∈ ps, ∃ n x t, events n = .schedule x ∧
      run Traced.step (traced s) ((List.range (n + 1)).map events) = some t ∧
      t.scheduler.currentProcess = some q

theorem takesTurns (h : Represents s r) : TakesTurns s r.members := by
  intro saves hlength
  have hok : ∀ e ∈ saves.map Event.schedule, e.NameFits := by
    intro e he
    obtain ⟨x, -, rfl⟩ := List.mem_map.mp he
    trivial
  obtain ⟨t, hrun, -⟩ := run_total (P := fun t : Traced => ∃ r, Represents t.scheduler r)
    (fun t e ⟨r, hr⟩ he => by
      obtain ⟨t', hstep⟩ := hr.step_isSome he
      exact ⟨t', hstep, _, hr.step hstep⟩)
    ⟨r, h⟩ (guarded_of_forall_mem hok (traced s))
  obtain ⟨-, -, hturns⟩ := run_simulates (t := traced s) h hrun
  refine ⟨t, hrun, ?_⟩
  rw [hturns, roundEvents_schedules, hlength, r.turns_replicate_tick]
  exact r.upcoming_perm.map some

theorem oneTurnBetween (h : Represents s r) : OneTurnBetween s r.members r.current := by
  intro events t x u returned hrun hnot hlast hcurrent q hq hne
  obtain ⟨hfresh, hround, hturns⟩ := run_simulates (t := traced s) h hrun
  have hswitches : t.switches.map Switch.next =
      (r.turns (roundEvents s.nextPointer events)).map some := hturns
  rw [hswitches] at hnot ⊢
  rw [(hround.schedule x).1, Option.some_inj, Prod.mk.injEq] at hlast
  obtain ⟨rfl, -⟩ := hlast
  rw [List.count_map_of_injective _ some (Option.some_injective _)]
  refine RoundRobin.count_turns h.chain.nodup hfresh (fun hmem => ?_)
    (Option.some_inj.mp hcurrent) hq hne
  exact hnot (List.mem_map_of_mem hmem)

/-- The state after the first `n` events. -/
def stateAfter (s : Scheduler) (events : ℕ → Event) (n : ℕ) : Option Traced :=
  run Traced.step (traced s) ((List.range n).map events)

theorem stateAfter_succ (s : Scheduler) (events : ℕ → Event) (n : ℕ) :
    s.stateAfter events (n + 1) = (s.stateAfter events n).bind fun t => t.step (events n) := by
  rw [stateAfter, List.range_succ, List.map_append, run_append, List.map_singleton]
  exact congrArg _ (funext fun t => run_singleton Traced.step t (events n))

/-- A run without end goes along the round. -/
theorem exists_states (h : Represents s r) {events : ℕ → Event}
    (hnames : ∀ n, (events n).NameFits) :
    ∃ round : ℕ → RoundRobin.Event ℕ, ∀ n, ∃ t, s.stateAfter events n = some t ∧
      Represents t.scheduler (r.stateAt round n) ∧
      round n = roundEvent t.scheduler (events n) := by
  -- what the round sees depends on the state that the run has reached
  let round : ℕ → RoundRobin.Event ℕ := fun n =>
    roundEvent ((s.stateAfter events n).getD (traced s)).scheduler (events n)
  refine ⟨round, fun n => ?_⟩
  have hstate : ∃ t, s.stateAfter events n = some t ∧
      Represents t.scheduler (r.stateAt round n) := by
    induction n with
    | zero => exact ⟨traced s, rfl, h⟩
    | succ n ih =>
      obtain ⟨t, ht, hround⟩ := ih
      obtain ⟨t', hstep⟩ := hround.step_isSome (hnames n)
      have hevent : round n = roundEvent t.scheduler (events n) := by
        dsimp only [round]
        rw [ht, Option.getD_some]
      refine ⟨t', by rw [stateAfter_succ, ht, Option.bind_some, hstep], ?_⟩
      rw [RoundRobin.stateAt, hevent]
      exact hround.step hstep
  obtain ⟨t, ht, hround⟩ := hstate
  refine ⟨t, ht, hround, ?_⟩
  dsimp only [round]
  rw [ht, Option.getD_some]

theorem neverStarves (h : Represents s r) : NeverStarves s r.members := by
  intro events hnames hcalls q hq
  obtain ⟨round, hstates⟩ := exists_states h hnames
  have hticks : RoundRobin.Ticks round := by
    intro n
    obtain ⟨m, x, hm, hevent⟩ := hcalls n
    obtain ⟨t, -, -, hround⟩ := hstates m
    exact ⟨m, hm, by rw [hround, hevent]; rfl⟩
  obtain ⟨n, htick, hturn⟩ := RoundRobin.exists_turn hticks hq
  obtain ⟨u, -, -, hevent⟩ := hstates n
  obtain ⟨t, ht, hround, -⟩ := hstates (n + 1)
  cases hn : events n with
  | addProcess name entryPoint stack =>
    rw [hn, htick] at hevent
    exact absurd hevent (by simp [roundEvent])
  | schedule x =>
    exact ⟨n, x, t, hn, ht, by rw [hround.current, hturn]⟩

/-- In as many calls as there are processes each gets one turn; between two turns of a process
every other one gets exactly one, whatever is added; and every process gets a turn again. -/
theorem fair {ps : List ℕ} {p : ℕ} (h : Listed s ps p) :
    TakesTurns s ps ∧ OneTurnBetween s ps p ∧ NeverStarves s ps := by
  obtain ⟨r, hr, rfl, rfl⟩ := h.exists_round
  exact ⟨takesTurns hr, oneTurnBetween hr, neverStarves hr⟩

/-! ### Two processes -/

/-- The kernel and a shell in front of it in the list. -/
def kernelAndShell : Scheduler where
  processList := some 1
  currentProcess := some 0
  nextPid := 2
  nextPointer := 2
  frames := fun _ => {}
  memory := fun p =>
    { pid := BitVec.ofNat 32 p, name := kernelName, state := if p = 0 then .running else .ready
      stackPtr := 0, next := if p = 1 then some 0 else none }

theorem fair_kernelAndShell :
    TakesTurns kernelAndShell [1, 0] ∧ OneTurnBetween kernelAndShell [1, 0] 0 ∧
      NeverStarves kernelAndShell [1, 0] :=
  fair ⟨⟨rfl, rfl, rfl⟩, rfl, by decide, by decide⟩

theorem contexts_kept_shell :
    ∃ s₀ t, kernelAndShell.initializeScheduler 0x400000 = some s₀ ∧
      run Traced.step (traced s₀) [.addProcess kernelName 0x1000 0x500000, .schedule 0x401000] =
        some t ∧ t.ContextsKept :=
  contexts_kept kernelAndShell 0x400000 (by
    intro e he
    rcases List.mem_cons.mp he with rfl | he
    · exact (by decide : kernelName.fits 32 = true)
    · obtain rfl := List.mem_singleton.mp he
      trivial)

end Scheduler

end MesaOS.System
