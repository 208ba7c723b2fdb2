/-
An ATA drive that is read and written word by word through ports.

A drive is busy for a while after a command and after each sector that it has got, and shows it
in its status; how long is up to the drive.  While it is busy it takes no notice of what is
written to it.  Sectors are addressed by 28 bits, and a command for a sector that is not there ends
with an error and without data.

* `out_registers` — the address that is written to the registers;
* `command_read`, `command_write`, `command_refused` — what a command makes the drive ready for;
* `dataIn_next`, `dataIn_last`, `dataOut_next`, `dataOut_last` — a word of the last sector.
-/
import MesaOS.ByteMemory

open MachineWord ByteMemory

namespace ATA

/-- The data that the drive has to give out or to get: the sector, the number of sectors left, and
the number of words done. -/
inductive Transfer
  | none
  | toHost (lba : BitVec 28) (left words : ℕ)
  | toDrive (lba : BitVec 28) (left words : ℕ) (buffer : ℕ → U8)

structure Drive where
  capacity : ℕ
  sectors : BitVec 28 → ℕ → U8
  sectorCount : U8
  lbaLow : U8
  lbaMid : U8
  lbaHigh : U8
  device : U8
  transfer : Transfer
  error : Bool
  /-- How often the status will still be read as busy. -/
  busy : ℕ
  /-- How long the drive will be busy the next times. -/
  delays : ℕ → ℕ

namespace Drive

/-- The drive gets busy. -/
def work (d : Drive) : Drive :=
  { d with busy := d.delays 0, delays := fun n => d.delays (n + 1) }

/-- Reading the status: `BSY`, or `DRDY` with `DRQ` and `ERR`. -/
def status (d : Drive) : U8 × Drive :=
  match d.busy with
  | n + 1 => (0x80, { d with busy := n })
  | 0 =>
    let drq : U8 := match d.transfer with
      | .none => 0
      | .toHost .. | .toDrive .. => 0x08
    (0x40 ||| drq ||| (if d.error then 0x01 else 0), d)

def address (d : Drive) : BitVec 28 :=
  d.device.extractLsb' 0 4 ++ (d.lbaHigh ++ (d.lbaMid ++ d.lbaLow))

/-- A count of 0 stands for 256. -/
def count (d : Drive) : ℕ := if d.sectorCount = 0 then 256 else d.sectorCount.toNat

/-- The sectors are there, and they are addressed by their numbers. -/
def accepts (d : Drive) : Bool :=
  d.device.getLsbD 6 && decide (d.address.toNat + d.count ≤ d.capacity)

/-- The command register: `READ SECTORS` and `WRITE SECTORS`.  The second drive is not there. -/
def command (d : Drive) (v : U8) : Drive :=
  if d.device.getLsbD 4 then d
  else if v = 0x20 ∧ d.accepts then
    { d with transfer := .toHost d.address d.count 0, error := false }.work
  else if v = 0x30 ∧ d.accepts then
    { d with transfer := .toDrive d.address d.count 0 fun _ => 0, error := false }.work
  else { d with transfer := .none, error := true }.work

/-- A byte written to a port. -/
def out (d : Drive) (port : U16) (v : U8) : Drive :=
  if d.busy ≠ 0 then d
  else if port = 0x1F2 then { d with sectorCount := v }
  else if port = 0x1F3 then { d with lbaLow := v }
  else if port = 0x1F4 then { d with lbaMid := v }
  else if port = 0x1F5 then { d with lbaHigh := v }
  else if port = 0x1F6 then { d with device := v }
  else if port = 0x1F7 then d.command v
  else d

/-- A word read from the data port.  The drive gets busy between two sectors. -/
def dataIn (d : Drive) : U16 × Drive :=
  match d.transfer with
  | .toHost lba left words =>
    if d.busy ≠ 0 then (0xFFFF, d)
    else
      (get16 (d.sectors lba) (2 * words),
        if words + 1 < 256 then { d with transfer := .toHost lba left (words + 1) }
        else if left ≤ 1 then { d with transfer := .none }
        else { d with transfer := .toHost (lba + 1) (left - 1) 0 }.work)
  | .none | .toDrive .. => (0xFFFF, d)

/-- The buffer of the drive behind a word. -/
def put (buffer : ℕ → U8) (words : ℕ) (v : U16) : ℕ → U8 := fun i =>
  if i = 2 * words then v.extractLsb' 0 8
  else if i = 2 * words + 1 then v.extractLsb' 8 8 else buffer i

/-- A word written to the data port.  The drive gets busy behind every sector. -/
def dataOut (d : Drive) (v : U16) : Drive :=
  match d.transfer with
  | .toDrive lba left words buffer =>
    if d.busy ≠ 0 then d
    else
      let buffer := put buffer words v
      if words + 1 < 256 then { d with transfer := .toDrive lba left (words + 1) buffer }
      else
        { d with
          sectors := Function.update d.sectors lba buffer
          transfer := if left ≤ 1 then .none else .toDrive (lba + 1) (left - 1) 0 fun _ => 0 }.work
  | .none | .toHost .. => d

variable {d : Drive}

/-! ### The status -/

/-- There is data to be read or written. -/
def Drq (d : Drive) : Prop := d.transfer ≠ .none

theorem status_busy {n : ℕ} (h : d.busy = n + 1) : d.status = (0x80, { d with busy := n }) := by
  rw [status, h]

theorem status_bsy (h : d.busy = 0) : d.status.1 &&& 0x80 = 0 ∧ d.status.2 = d := by
  rw [status, h]
  cases d.transfer <;> cases d.error <;> simp

theorem status_drq (h : d.busy = 0) : d.status.1 &&& 0x08 ≠ 0 ↔ d.Drq := by
  rw [status, h, Drq]
  cases d.transfer <;> cases d.error <;> simp

/-! ### Commands -/

/-- The drive with the address of a sector in its registers. -/
def addressed (d : Drive) (count low mid high device : U8) : Drive :=
  { d with sectorCount := count, lbaLow := low, lbaMid := mid, lbaHigh := high, device := device }

/-- The registers are written one after the other while the drive is not busy. -/
theorem out_registers (h : d.busy = 0) (count low mid high device : U8) :
    (((((d.out 0x1F6 device).out 0x1F2 count).out 0x1F3 low).out 0x1F4 mid).out 0x1F5 high) =
      d.addressed count low mid high device := by
  simp [out, addressed, h]

theorem out_command (h : d.busy = 0) (v : U8) : d.out 0x1F7 v = d.command v := by
  simp [out, h]

variable (hselected : d.device.getLsbD 4 = false)
include hselected

theorem command_read (h : d.accepts = true) :
    d.command 0x20 =
      { d with transfer := .toHost d.address d.count 0, error := false }.work := by
  rw [command, if_neg (by rw [hselected]; exact Bool.false_ne_true), if_pos ⟨rfl, h⟩]

theorem command_write (h : d.accepts = true) :
    d.command 0x30 =
      { d with transfer := .toDrive d.address d.count 0 fun _ => 0, error := false }.work := by
  rw [command, if_neg (by rw [hselected]; exact Bool.false_ne_true), if_neg (by simp),
    if_pos ⟨rfl, h⟩]

/-- A sector that is not there. -/
theorem command_refused (v : U8) (h : d.accepts = false) :
    d.command v = { d with transfer := .none, error := true }.work := by
  rw [command, if_neg (by rw [hselected]; exact Bool.false_ne_true), if_neg (by simp [h]),
    if_neg (by simp [h])]

omit hselected

/-! ### Data -/

section Data

variable {lba : BitVec 28} {words : ℕ} {buffer : ℕ → U8} (hbusy : d.busy = 0)
include hbusy

theorem dataIn_next {left : ℕ} (h : d.transfer = .toHost lba left words) (hw : words + 1 < 256) :
    d.dataIn =
      (get16 (d.sectors lba) (2 * words),
        { d with transfer := .toHost lba left (words + 1) }) := by
  rw [dataIn, h]
  dsimp only
  rw [if_neg (not_not.mpr hbusy), if_pos hw]

theorem dataIn_last (h : d.transfer = .toHost lba 1 255) :
    d.dataIn = (get16 (d.sectors lba) (2 * 255), { d with transfer := .none }) := by
  rw [dataIn, h]
  dsimp only
  rw [if_neg (not_not.mpr hbusy), if_neg (by decide), if_pos (Nat.le_refl 1)]

theorem dataOut_next {left : ℕ} (h : d.transfer = .toDrive lba left words buffer)
    (hw : words + 1 < 256) (v : U16) :
    d.dataOut v = { d with transfer := .toDrive lba left (words + 1) (put buffer words v) } := by
  rw [dataOut, h]
  dsimp only
  rw [if_neg (not_not.mpr hbusy), if_pos hw]

theorem dataOut_last (h : d.transfer = .toDrive lba 1 255 buffer) (v : U16) :
    d.dataOut v =
      { d with sectors := Function.update d.sectors lba (put buffer 255 v)
               transfer := .none }.work := by
  rw [dataOut, h]
  dsimp only
  rw [if_neg (not_not.mpr hbusy), if_neg (by decide), if_pos (Nat.le_refl 1)]

end Data

end Drive

end ATA
