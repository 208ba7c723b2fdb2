/-
The two 8259 interrupt controllers of a PC.

A controller has eight lines, the one with the lowest number first.  What it hands to the processor
stays in service until the processor reports the end of the interrupt, and until then no line of
the same or of a lower rank gets through.  The second controller stands behind line 2 of the first.
Priorities are not rotated here.

* `finish_acknowledge` — with nothing in service, what is acknowledged and then reported as ended
  leaves the controllers as they were;
* `acknowledge_isSome` — with nothing in service and nothing masked every line gets through.
-/
import MesaOS.MachineWord

open MachineWord

namespace PIC8259

/-- What a byte written to the data port is taken for. -/
inductive Awaits
  | vectorOffset
  | cascade
  | mode
  | mask
  deriving DecidableEq

structure Chip where
  offset : U8
  cascade : U8
  mask : U8
  inService : U8
  autoEnd : Bool
  awaits : Awaits
  modeFollows : Bool
  single : Bool
  deriving DecidableEq

structure Pair where
  master : Chip
  slave : Chip
  deriving DecidableEq

namespace Chip

/-- The command port: the first word of an initialisation, or the end of an interrupt, which is
the one of the highest rank if none is named. -/
def command (c : Chip) (v : U8) : Chip :=
  if v.getLsbD 4 then
    { c with
      mask := 0, inService := 0, autoEnd := false, awaits := .vectorOffset
      modeFollows := v.getLsbD 0, single := v.getLsbD 1 }
  else if v &&& 0xF8 = 0x20 then { c with inService := c.inService &&& (c.inService - 1) }
  else if v &&& 0xF8 = 0x60 then
    { c with inService := c.inService &&& ~~~(1#8 <<< (v &&& 7).toNat) }
  else c

/-- The data port: the further words of an initialisation, or the mask. -/
def data (c : Chip) (v : U8) : Chip :=
  let last : Awaits := if c.modeFollows then .mode else .mask
  match c.awaits with
  | .vectorOffset =>
    { c with offset := v &&& 0xF8, awaits := if c.single then last else .cascade }
  | .cascade => { c with cascade := v, awaits := last }
  | .mode => { c with autoEnd := v.getLsbD 1, awaits := .mask }
  | .mask => { c with mask := v }

/-- A request on line `k` gets through. -/
def takes (c : Chip) (k : Fin 8) : Bool :=
  c.awaits == .mask && !c.mask.getLsbD k &&
    (List.finRange 8).all fun j => !(decide (j ≤ k) && c.inService.getLsbD j)

/-- The processor asks for the vector of line `k`. -/
def acknowledge (c : Chip) (k : Fin 8) : Chip × U8 :=
  (if c.autoEnd then c else { c with inService := c.inService ||| 1#8 <<< k.val },
    c.offset ||| BitVec.ofNat 8 k.val)

end Chip

namespace Pair

/-- The ports of a PC. -/
def out (p : Pair) (port : U16) (v : U8) : Pair :=
  if port = 0x20 then { p with master := p.master.command v }
  else if port = 0x21 then { p with master := p.master.data v }
  else if port = 0xA0 then { p with slave := p.slave.command v }
  else if port = 0xA1 then { p with slave := p.slave.data v }
  else p

/-- What reaches the processor: a line of the first controller, one of the second, or a request
that is gone when the processor asks for it. -/
inductive Request
  | master (k : Fin 8)
  | slave (k : Fin 8)
  | spuriousMaster
  | spuriousSlave
  deriving DecidableEq

/-- The first controller lets the second one answer. -/
def linked (p : Pair) : Bool := p.master.cascade.getLsbD 2 && p.slave.cascade &&& 7 == 2

/-- The processor asks for the vector.  There is no result when the request does not get through;
a request that is gone gets the last vector, and the controller has nothing in service for it. -/
def acknowledge (p : Pair) : Request → Option (Pair × U8)
  | .master k =>
    if k ≠ 2 ∧ p.master.takes k then
      some ({ p with master := (p.master.acknowledge k).1 }, (p.master.acknowledge k).2)
    else none
  | .slave k =>
    if p.linked ∧ p.master.takes 2 ∧ p.slave.takes k then
      some (⟨(p.master.acknowledge 2).1, (p.slave.acknowledge k).1⟩, (p.slave.acknowledge k).2)
    else none
  | .spuriousMaster =>
    if p.master.awaits = .mask then some (p, p.master.offset ||| 7) else none
  | .spuriousSlave =>
    if p.linked ∧ p.master.takes 2 ∧ p.slave.awaits = .mask then
      some ({ p with master := (p.master.acknowledge 2).1 }, p.slave.offset ||| 7)
    else none

/-- The line of the timer. -/
def Request.timer : Request := .master 0

/-- The line that the second controller is at. -/
def Request.cascade : Request := .master 2

/-- The request came through the second controller. -/
def Request.throughSlave : Request → Bool
  | .master _ => false
  | .slave _ => true
  | .spuriousMaster => false
  | .spuriousSlave => true

/-- The end of an interrupt is reported. -/
def finish (p : Pair) (throughSlave : Bool) : Pair :=
  (if throughSlave then p.out 0xA0 0x20 else p).out 0x20 0x20

/-- Set up, and nothing in service or masked. -/
structure Idle (p : Pair) : Prop where
  linked : p.linked = true
  master : p.master = { p.master with
    mask := 0, inService := 0, autoEnd := false, awaits := .mask }
  slave : p.slave = { p.slave with mask := 0, inService := 0, autoEnd := false, awaits := .mask }

end Pair

/-! ### One controller -/

theorem Chip.takes_idle (c : Chip) (k : Fin 8) :
    { c with mask := 0, inService := 0, awaits := .mask : Chip }.takes k = true := by
  simp [Chip.takes]

theorem Chip.command_end (c : Chip) :
    c.command 0x20 = { c with inService := c.inService &&& (c.inService - 1) } := by
  rw [Chip.command, if_neg (by decide), if_pos (by decide)]

/-- Reporting an end with nothing in service changes nothing. -/
theorem Chip.command_idle (c : Chip) (h : c.inService = 0) : c.command 0x20 = c := by
  have hzero : c.inService &&& (c.inService - 1) = c.inService := by
    rw [h]
    rfl
  rw [Chip.command_end, hzero]

/-- The end that is reported is the one of the line that was acknowledged. -/
theorem Chip.command_acknowledge (c : Chip) (h : c.inService = 0) (k : Fin 8) :
    (c.acknowledge k).1.command 0x20 = c := by
  have hclear : ∀ k : Fin 8,
      ((0 : U8) ||| 1#8 <<< k.val) &&& (((0 : U8) ||| 1#8 <<< k.val) - 1) = 0 := by
    decide
  have hnone : { c with inService := 0 } = c := by rw [← h]
  rw [Chip.acknowledge]
  dsimp only
  by_cases hauto : c.autoEnd = true
  · rw [if_pos hauto, Chip.command_idle c h]
  · rw [if_neg hauto, Chip.command_end]
    dsimp only
    rw [h, hclear k, hnone]

/-! ### Both -/

namespace Pair

variable {p q : Pair} {r : Request} {v : U8}

theorem Idle.master_inService (h : Idle p) : p.master.inService = 0 := by
  rw [h.master]

theorem Idle.slave_inService (h : Idle p) : p.slave.inService = 0 := by
  rw [h.slave]

theorem Idle.takes_master (h : Idle p) (k : Fin 8) : p.master.takes k = true := by
  rw [h.master]
  exact Chip.takes_idle { p.master with autoEnd := false } k

theorem Idle.takes_slave (h : Idle p) (k : Fin 8) : p.slave.takes k = true := by
  rw [h.slave]
  exact Chip.takes_idle { p.slave with autoEnd := false } k

theorem Idle.master_awaits (h : Idle p) : p.master.awaits = .mask := by
  rw [h.master]

theorem Idle.slave_awaits (h : Idle p) : p.slave.awaits = .mask := by
  rw [h.slave]

/-- Every request gets through, but for line 2 of the first controller, which is the second one. -/
theorem acknowledge_isSome (h : Idle p) (hr : r ≠ .cascade) :
    ∃ q v, p.acknowledge r = some (q, v) := by
  cases r with
  | master k => exact ⟨_, _, if_pos ⟨fun hk => hr (hk ▸ rfl), h.takes_master k⟩⟩
  | slave k => exact ⟨_, _, if_pos ⟨h.linked, h.takes_master 2, h.takes_slave k⟩⟩
  | spuriousMaster => exact ⟨_, _, if_pos h.master_awaits⟩
  | spuriousSlave => exact ⟨_, _, if_pos ⟨h.linked, h.takes_master 2, h.slave_awaits⟩⟩

/-- A request that is acknowledged and reported as ended leaves nothing behind. -/
theorem finish_acknowledge (h : Idle p) (hack : p.acknowledge r = some (q, v)) :
    q.finish r.throughSlave = p := by
  have hmaster := h.master_inService
  have hslave := h.slave_inService
  cases r with
  | master k =>
    rw [acknowledge, Option.ite_none_right_eq_some] at hack
    obtain ⟨-, hq⟩ := hack
    rw [Option.some_inj, Prod.mk.injEq] at hq
    obtain ⟨rfl, -⟩ := hq
    exact congrArg (Pair.mk · p.slave) (p.master.command_acknowledge hmaster k)
  | slave k =>
    rw [acknowledge, Option.ite_none_right_eq_some] at hack
    obtain ⟨-, hq⟩ := hack
    rw [Option.some_inj, Prod.mk.injEq] at hq
    obtain ⟨rfl, -⟩ := hq
    exact congrArg₂ Pair.mk (p.master.command_acknowledge hmaster 2)
      (p.slave.command_acknowledge hslave k)
  | spuriousMaster =>
    rw [acknowledge, Option.ite_none_right_eq_some] at hack
    obtain ⟨-, hq⟩ := hack
    rw [Option.some_inj, Prod.mk.injEq] at hq
    obtain ⟨rfl, -⟩ := hq
    exact congrArg (Pair.mk · p.slave) (p.master.command_idle hmaster)
  | spuriousSlave =>
    rw [acknowledge, Option.ite_none_right_eq_some] at hack
    obtain ⟨-, hq⟩ := hack
    rw [Option.some_inj, Prod.mk.injEq] at hq
    obtain ⟨rfl, -⟩ := hq
    exact congrArg₂ Pair.mk (p.master.command_acknowledge hmaster 2)
      (p.slave.command_idle hslave)

end Pair

end PIC8259
