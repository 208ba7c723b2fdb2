/-
The disk driver (`drivers/ide.cpp`) and the drive behind its ports.

`wait_bsy` and `wait_drq` look at the status until it is what they wait for; `fuel` bounds how
often.  `write_sector` does not wait for the drive to have written the sector; the `wait_bsy` that
the next request begins with does.

* `readSector_eq`, `writeSector_eq` — what a request for a sector of the drive does;
* `readSector_none`, `writeSector_none` — a request for another sector waits for ever;
* `requests_served` — a run of requests comes to an end if and only if all its sectors are on the
  drive, and then the drive is the sequence of sectors that the file system takes it for.
-/
import MesaOS.ATA
import MesaOS.MesaFS

open MachineWord ATA Runs

namespace MesaOS.Drivers

/-! ### The driver -/

/-- `IDEDriver::wait_bsy` -/
def waitBsy : ℕ → Drive → Option Drive
  | 0, _ => none
  | fuel + 1, d =>
    let (status, d) := d.status
    if status &&& 0x80 ≠ 0 then waitBsy fuel d else some d

/-- `IDEDriver::wait_drq` -/
def waitDrq : ℕ → Drive → Option Drive
  | 0, _ => none
  | fuel + 1, d =>
    let (status, d) := d.status
    if status &&& 0x08 ≠ 0 then some d else waitDrq fuel d

/-- The registers of a request, and its command. -/
def outRequest (d : Drive) (lba : U32) (command : U8) : Drive :=
  (((((d.out 0x1F6 (0xE0 ||| ((lba >>> 24) &&& 0x0F).setWidth 8)).out 0x1F2 1).out 0x1F3
    (lba.setWidth 8)).out 0x1F4 ((lba >>> 8).setWidth 8)).out 0x1F5
    ((lba >>> 16).setWidth 8)).out 0x1F7 command

/-- `n` turns of the loop that reads the words of a sector. -/
def inWords (n : ℕ) (buffer : ℕ → U8) (d : Drive) : (ℕ → U8) × Drive :=
  (List.range n).foldl (fun (buffer, d) i =>
    let (word, d) := d.dataIn
    (Drive.put buffer i word, d)) (buffer, d)

/-- `n` turns of the loop that writes them. -/
def outWords (n : ℕ) (buffer : ℕ → U8) (d : Drive) : Drive :=
  (List.range n).foldl (fun d i => d.dataOut (get16 buffer (2 * i))) d

/-- What reading and writing begin with: the request is made as soon as the drive takes it, and the
drive is waited for until there is data to be moved. -/
def request (fuel : ℕ) (d : Drive) (lba : U32) (command : U8) : Option Drive :=
  (waitBsy fuel d).bind fun d =>
    (waitBsy fuel (outRequest d lba command)).bind fun d => waitDrq fuel d

/-- `IDEDriver::read_sector`; `buffer` is what is in the buffer before. -/
def readSector (fuel : ℕ) (d : Drive) (lba : U32) (buffer : ℕ → U8) :
    Option ((ℕ → U8) × Drive) :=
  (request fuel d lba 0x20).map fun d => inWords 256 buffer d

/-- `IDEDriver::write_sector` -/
def writeSector (fuel : ℕ) (d : Drive) (lba : U32) (buffer : ℕ → U8) : Option Drive :=
  (request fuel d lba 0x30).map fun d => outWords 256 buffer d

variable {d : Drive} {lba : U32} {fuel : ℕ}

/-! ### Waiting -/

theorem idle_eq (h : d.busy = 0) : { d with busy := 0 } = d := by
  rw [← h]

/-- A wait for the drive takes as many looks as it is busy, and one more. -/
theorem waitBsy_eq (fuel : ℕ) (d : Drive) :
    waitBsy fuel d = if d.busy < fuel then some { d with busy := 0 } else none := by
  induction fuel generalizing d with
  | zero => rw [waitBsy, if_neg (Nat.not_lt_zero _)]
  | succ fuel ih =>
    rw [waitBsy]
    cases hbusy : d.busy with
    | zero =>
      obtain ⟨hbsy, hsame⟩ := Drive.status_bsy hbusy
      dsimp only
      rw [if_neg (not_not.mpr hbsy), if_pos (Nat.zero_lt_succ fuel), hsame, idle_eq hbusy]
    | succ n =>
      rw [Drive.status_busy hbusy]
      dsimp only
      rw [if_pos (by decide), ih]
      simp only [Nat.succ_lt_succ_iff]

theorem waitDrq_of_drq (hbusy : d.busy = 0) (h : d.Drq) (hfuel : 0 < fuel) :
    waitDrq fuel d = some d := by
  obtain ⟨fuel, rfl⟩ := Nat.exists_eq_succ_of_ne_zero (Nat.pos_iff_ne_zero.mp hfuel)
  rw [waitDrq]
  dsimp only
  rw [if_pos ((Drive.status_drq hbusy).mpr h), (Drive.status_bsy hbusy).2]

/-- The driver does not look for errors. -/
theorem waitDrq_none (hbusy : d.busy = 0) (h : ¬ d.Drq) (fuel : ℕ) : waitDrq fuel d = none := by
  induction fuel with
  | zero => rfl
  | succ fuel ih =>
    rw [waitDrq]
    dsimp only
    rw [if_neg (mt (Drive.status_drq hbusy).mp h), (Drive.status_bsy hbusy).2, ih]

/-! ### Addresses -/

/-- The sector that a request is for. -/
def sectorOf (lba : U32) : BitVec 28 := lba.setWidth 28

/-- The drive behind the registers of a request. -/
def requested (d : Drive) (lba : U32) : Drive :=
  d.addressed 1 (lba.setWidth 8) ((lba >>> 8).setWidth 8) ((lba >>> 16).setWidth 8)
    (0xE0 ||| ((lba >>> 24) &&& 0x0F).setWidth 8)

theorem outRequest_eq (hbusy : d.busy = 0) (lba : U32) (command : U8) :
    outRequest d lba command = (requested d lba).command command := by
  rw [outRequest, Drive.out_registers hbusy]
  exact Drive.out_command (d := requested d lba) hbusy command

/-- The bits of the device register: the address is a number, and it is for the first drive. -/
theorem getLsbD_device (lba : U32) {i : ℕ} (hi : i < 8) :
    (0xE0 ||| ((lba >>> 24) &&& 0x0F).setWidth 8 : U8).getLsbD i =
      if i < 4 then lba.getLsbD (24 + i) else decide (5 ≤ i) := by
  rcases (by omega : i = 0 ∨ i = 1 ∨ i = 2 ∨ i = 3 ∨ i = 4 ∨ i = 5 ∨ i = 6 ∨ i = 7) with
    rfl | rfl | rfl | rfl | rfl | rfl | rfl | rfl <;> simp

theorem selected_requested (d : Drive) (lba : U32) :
    (requested d lba).device.getLsbD 4 = false :=
  getLsbD_device lba (by omega)

theorem address_requested (d : Drive) (lba : U32) : (requested d lba).address = sectorOf lba := by
  apply BitVec.eq_of_getLsbD_eq
  intro i hi
  rw [sectorOf, Drive.address, requested, Drive.addressed]
  simp only [BitVec.getLsbD_append, BitVec.getLsbD_setWidth, BitVec.getLsbD_ushiftRight]
  by_cases hregisters : i < 24
  · by_cases hlow : i < 8
    · simp [hregisters, hlow, hi, show i < 16 by omega]
    · by_cases hmid : i < 16
      · simp [hregisters, hlow, hmid, hi, show i - 8 < 8 by omega, show 8 + (i - 8) = i by omega]
      · simp [hregisters, hmid, hi, show i - 16 < 8 by omega,
          show 16 + (i - 16) = i by omega]
  · -- the upper four bits are in the device register
    rw [if_neg (by omega), BitVec.getLsbD_extractLsb', getLsbD_device lba (by omega),
      if_pos (by omega), decide_eq_true hi, decide_eq_true (by omega)]
    exact congrArg (fun j => true && lba.getLsbD j) (by omega)

theorem accepts_requested (d : Drive) (lba : U32) :
    (requested d lba).accepts = decide ((sectorOf lba).toNat < d.capacity) := by
  have hcount : (requested d lba).count = 1 := rfl
  have hlba : (requested d lba).device.getLsbD 6 = true := getLsbD_device lba (by omega)
  rw [Drive.accepts, hlba, address_requested, hcount, Bool.true_and]
  rfl

/-! ### The words of a sector -/

theorem put_get16 (buffer f : ℕ → U8) (n : ℕ) :
    Drive.put (fun i => if i < 2 * n then f i else buffer i) n (get16 f (2 * n)) =
      fun i => if i < 2 * (n + 1) then f i else buffer i := by
  funext i
  have hlow : (get16 f (2 * n)).extractLsb' 0 8 = f (2 * n) := by
    apply BitVec.eq_of_getLsbD_eq
    intro b hb
    rw [BitVec.getLsbD_extractLsb', get16, BitVec.getLsbD_append]
    simp [hb]
  have hhigh : (get16 f (2 * n)).extractLsb' 8 8 = f (2 * n + 1) := by
    apply BitVec.eq_of_getLsbD_eq
    intro b hb
    rw [BitVec.getLsbD_extractLsb', get16, BitVec.getLsbD_append]
    simp [hb]
  rw [Drive.put, hlow, hhigh]
  by_cases h0 : i = 2 * n
  · rw [if_pos h0, if_pos (by omega), h0]
  by_cases h1 : i = 2 * n + 1
  · rw [if_neg h0, if_pos h1, if_pos (by omega), h1]
  rw [if_neg h0, if_neg h1]
  exact if_congr (by omega) rfl rfl

theorem inWords_succ (n : ℕ) (buffer : ℕ → U8) (d : Drive) :
    inWords (n + 1) buffer d =
      (Drive.put (inWords n buffer d).1 n (inWords n buffer d).2.dataIn.1,
        (inWords n buffer d).2.dataIn.2) := by
  rw [inWords, List.range_succ, List.foldl_append]
  rfl

theorem outWords_succ (n : ℕ) (buffer : ℕ → U8) (d : Drive) :
    outWords (n + 1) buffer d = (outWords n buffer d).dataOut (get16 buffer (2 * n)) := by
  rw [outWords, List.range_succ, List.foldl_append]
  rfl

theorem inWords_eq (buffer : ℕ → U8) {sector : BitVec 28} (hbusy : d.busy = 0)
    (h : d.transfer = .toHost sector 1 0) {n : ℕ} (hn : n < 256) :
    inWords n buffer d =
      (fun i => if i < 2 * n then d.sectors sector i else buffer i,
        { d with transfer := .toHost sector 1 n }) := by
  induction n with
  | zero =>
    rw [← h]
    rfl
  | succ n ih =>
    rw [inWords_succ, ih (by omega)]
    dsimp only
    rw [Drive.dataIn_next (d := { d with transfer := .toHost sector 1 n }) hbusy rfl hn, put_get16]

theorem outWords_eq (buffer : ℕ → U8) {sector : BitVec 28} {old : ℕ → U8} (hbusy : d.busy = 0)
    (h : d.transfer = .toDrive sector 1 0 old) {n : ℕ} (hn : n < 256) :
    outWords n buffer d =
      { d with transfer := .toDrive sector 1 n fun i => if i < 2 * n then buffer i else old i } := by
  induction n with
  | zero =>
    rw [outWords, List.range_zero, List.foldl_nil]
    simp [← h]
  | succ n ih =>
    rw [outWords_succ, ih (by omega), Drive.dataOut_next (by exact hbusy) rfl hn, put_get16]

/-- The first 512 bytes of a buffer. -/
def sectorBytes (new old : ℕ → U8) : ℕ → U8 := fun i => if i < 512 then new i else old i

/-- The whole sector. -/
theorem inWords_sector (buffer : ℕ → U8) {sector : BitVec 28} (hbusy : d.busy = 0)
    (h : d.transfer = .toHost sector 1 0) :
    inWords 256 buffer d =
      (sectorBytes (d.sectors sector) buffer, { d with transfer := .none }) := by
  rw [inWords_succ, inWords_eq buffer hbusy h (by omega)]
  dsimp only
  rw [Drive.dataIn_last (d := { d with transfer := .toHost sector 1 255 }) hbusy rfl, put_get16]
  rfl

theorem outWords_sector (buffer : ℕ → U8) {sector : BitVec 28} (hbusy : d.busy = 0)
    (h : d.transfer = .toDrive sector 1 0 fun _ => 0) :
    outWords 256 buffer d =
      { d with sectors := Function.update d.sectors sector (sectorBytes buffer fun _ => 0)
               transfer := .none }.work := by
  rw [outWords_succ, outWords_eq buffer hbusy h (by omega), Drive.dataOut_last (by exact hbusy) rfl,
    put_get16]
  rfl

/-! ### Requests -/

/-- The driver never has to look at the status as often as `fuel` says. -/
structure Prompt (fuel : ℕ) (d : Drive) : Prop where
  busy : d.busy < fuel
  delays : ∀ n, d.delays n < fuel

/-- The drive as a request leaves it: the sectors apart, only the registers have changed. -/
structure Served (d d' : Drive) (sectors : BitVec 28 → ℕ → U8) : Prop where
  sectors : d'.sectors = sectors
  capacity : d'.capacity = d.capacity
  transfer : d'.transfer = .none
  prompt : ∀ fuel, Prompt fuel d → Prompt fuel d'

theorem request_some {command : U8} {t : Transfer} (h : Prompt fuel d) (ht : t ≠ .none)
    (hcommand : (requested { d with busy := 0 } lba).command command =
      { requested { d with busy := 0 } lba with transfer := t, error := false }.work) :
    request fuel d lba command =
      some { requested d lba with
        transfer := t, error := false, busy := 0, delays := fun n => d.delays (n + 1) } := by
  have hfuel : 0 < fuel := Nat.zero_lt_of_lt h.busy
  rw [request, waitBsy_eq, if_pos h.busy, Option.bind_some, outRequest_eq rfl, hcommand,
    waitBsy_eq, if_pos (by exact h.delays 0), Option.bind_some]
  exact waitDrq_of_drq rfl ht hfuel

/-- Without the sector there is no data, and the driver waits for it. -/
theorem request_none (hlba : d.capacity ≤ (sectorOf lba).toNat) (fuel : ℕ) (command : U8) :
    request fuel d lba command = none := by
  have haccepts : (requested { d with busy := 0 } lba).accepts = false := by
    rw [accepts_requested]
    exact decide_eq_false (Nat.not_lt.mpr hlba)
  rw [request, waitBsy_eq]
  by_cases hbusy : d.busy < fuel
  · rw [if_pos hbusy, Option.bind_some, outRequest_eq rfl,
      Drive.command_refused (selected_requested _ lba) command haccepts, waitBsy_eq]
    by_cases hdelay : d.delays 0 < fuel
    · rw [if_pos (by exact hdelay), Option.bind_some]
      exact waitDrq_none rfl (not_not.mpr rfl) fuel
    · rw [if_neg (by exact hdelay), Option.bind_none]
  · rw [if_neg hbusy, Option.bind_none]

/-- **Reading a sector of the drive.** -/
theorem readSector_eq (h : Prompt fuel d) (hlba : (sectorOf lba).toNat < d.capacity)
    (buffer : ℕ → U8) :
    ∃ d', readSector fuel d lba buffer =
      some (sectorBytes (d.sectors (sectorOf lba)) buffer, d') ∧ Served d d' d.sectors := by
  have haccepts : (requested { d with busy := 0 } lba).accepts = true := by
    rw [accepts_requested]
    exact decide_eq_true hlba
  have hcommand := Drive.command_read (selected_requested { d with busy := 0 } lba) haccepts
  rw [address_requested] at hcommand
  rw [readSector, request_some h (by exact Transfer.noConfusion) hcommand, Option.map_some,
    inWords_sector buffer rfl rfl]
  refine ⟨_, rfl, rfl, rfl, rfl, fun fuel hprompt => ⟨?_, fun n => hprompt.delays (n + 1)⟩⟩
  exact Nat.zero_lt_of_lt hprompt.busy

/-- **Writing a sector of the drive.**  The drive is still busy with it. -/
theorem writeSector_eq (h : Prompt fuel d) (hlba : (sectorOf lba).toNat < d.capacity)
    (buffer : ℕ → U8) :
    ∃ d', writeSector fuel d lba buffer = some d' ∧
      Served d d' (Function.update d.sectors (sectorOf lba)
        (sectorBytes buffer fun _ => 0)) := by
  have haccepts : (requested { d with busy := 0 } lba).accepts = true := by
    rw [accepts_requested]
    exact decide_eq_true hlba
  have hcommand := Drive.command_write (selected_requested { d with busy := 0 } lba) haccepts
  rw [address_requested] at hcommand
  rw [writeSector, request_some h (by exact Transfer.noConfusion) hcommand, Option.map_some,
    outWords_sector buffer rfl rfl]
  exact ⟨_, rfl, rfl, rfl, rfl, fun fuel hprompt =>
    ⟨hprompt.delays 1, fun n => hprompt.delays (n + 2)⟩⟩

/-! ### Runs of requests -/

/-- A call of the driver; `buffer` is what is in the buffer before. -/
inductive Request
  | read (sector : U32) (buffer : ℕ → U8)
  | write (sector : U32) (buffer : ℕ → U8)

def Request.sector : Request → U32
  | .read sector _ | .write sector _ => sector

/-- The call, and the sectors read so far. -/
def Request.onDrive (fuel : ℕ) (s : Drive × List (List U8)) :
    Request → Option (Drive × List (List U8))
  | .read sector buffer => (readSector fuel s.1 sector buffer).map fun (buffer, d) =>
      (d, s.2 ++ [(List.range 512).map buffer])
  | .write sector buffer => (writeSector fuel s.1 sector buffer).map fun d => (d, s.2)

/-- The same call on the sequence of sectors that the file system sees. -/
def Request.onDisk (s : FS.Disk × List (List U8)) : Request → FS.Disk × List (List U8)
  | .read sector _ => (s.1, s.2 ++ [(List.range 512).map (FS.readSector s.1 sector)])
  | .write sector buffer => (FS.writeSector s.1 sector buffer, s.2)

/-- The drive has the sectors of the disk. -/
def Holds (d : Drive) (disk : FS.Disk) : Prop :=
  ∀ s : BitVec 28, s.toNat < d.capacity → ∀ i < 512, d.sectors s i = disk s i

theorem Holds.served {d' : Drive} {disk : FS.Disk} (h : Holds d disk)
    (hserved : Served d d' d.sectors) : Holds d' disk := by
  intro s hs i hi
  rw [hserved.sectors]
  exact h s (hserved.capacity ▸ hs) i hi

theorem Holds.write {d' : Drive} {disk : FS.Disk} {buffer buffer' : ℕ → U8} (h : Holds d disk)
    (hserved : Served d d' (Function.update d.sectors (sectorOf lba)
      (sectorBytes buffer fun _ => 0))) (hbuffer : ∀ i < 512, buffer i = buffer' i) :
    Holds d' (FS.writeSector disk lba buffer') := by
  intro s hs i hi
  rw [hserved.sectors, FS.writeSector]
  by_cases hsector : s = lba.setWidth 28
  · rw [hsector, sectorOf, Function.update_self, Function.update_self, sectorBytes, if_pos hi,
      hbuffer i hi]
  · rw [sectorOf, Function.update_of_ne hsector, Function.update_of_ne hsector]
    exact h s (hserved.capacity ▸ hs) i hi

/-- The bytes of a sector that has been read. -/
theorem Holds.read {disk : FS.Disk} (h : Holds d disk) (hlba : (sectorOf lba).toNat < d.capacity)
    (buffer : ℕ → U8) {i : ℕ} (hi : i < 512) :
    sectorBytes (d.sectors (sectorOf lba)) buffer i = FS.readSector disk lba i := by
  rw [sectorBytes, if_pos hi]
  exact h _ hlba i hi

theorem onDrive_some {disk : FS.Disk} (h : Prompt fuel d) (hholds : Holds d disk)
    (got : List (List U8)) {r : Request} (hr : (sectorOf r.sector).toNat < d.capacity) :
    ∃ d', r.onDrive fuel (d, got) = some (d', (r.onDisk (disk, got)).2) ∧
      Holds d' (r.onDisk (disk, got)).1 ∧ Prompt fuel d' ∧ d'.capacity = d.capacity := by
  cases r with
  | read sector buffer =>
    rw [Request.sector] at hr
    obtain ⟨d', hread, hserved⟩ := readSector_eq h hr buffer
    refine ⟨d', ?_, hholds.served hserved, hserved.prompt fuel h, hserved.capacity⟩
    have hbytes : (List.range 512).map (sectorBytes (d.sectors (sectorOf sector)) buffer) =
        (List.range 512).map (FS.readSector disk sector) :=
      List.map_congr_left fun i hi => hholds.read hr buffer (List.mem_range.mp hi)
    rw [Request.onDrive]
    dsimp only
    rw [hread, Option.map_some, hbytes]
    rfl
  | write sector buffer =>
    rw [Request.sector] at hr
    obtain ⟨d', hwrite, hserved⟩ := writeSector_eq h hr buffer
    refine ⟨d', ?_, hholds.write hserved fun _ _ => rfl, hserved.prompt fuel h, hserved.capacity⟩
    rw [Request.onDrive]
    dsimp only
    rw [hwrite]
    rfl

theorem onDrive_none (got : List (List U8)) {r : Request}
    (hr : d.capacity ≤ (sectorOf r.sector).toNat) (fuel : ℕ) :
    r.onDrive fuel (d, got) = none := by
  cases r with
  | read sector buffer =>
    exact congrArg (Option.map _) (congrArg (Option.map _) (request_none hr fuel 0x20))
  | write sector buffer =>
    exact congrArg (Option.map _) (congrArg (Option.map _) (request_none hr fuel 0x30))

theorem run_onDrive {disk : FS.Disk} (h : Prompt fuel d) (hholds : Holds d disk)
    (got : List (List U8)) (requests : List Request) :
    ((∀ r ∈ requests, (sectorOf r.sector).toNat < d.capacity) →
      ∃ d', run (Request.onDrive fuel) (d, got) requests =
          some (d', (requests.foldl Request.onDisk (disk, got)).2) ∧
        Holds d' (requests.foldl Request.onDisk (disk, got)).1) ∧
      ((∃ r ∈ requests, d.capacity ≤ (sectorOf r.sector).toNat) →
        run (Request.onDrive fuel) (d, got) requests = none) := by
  induction requests generalizing d disk got with
  | nil => exact ⟨fun _ => ⟨d, rfl, hholds⟩, fun ⟨r, hr, _⟩ => absurd hr List.not_mem_nil⟩
  | cons r requests ih =>
    rw [run_cons]
    by_cases hr : (sectorOf r.sector).toNat < d.capacity
    · obtain ⟨d', hstep, hholds', hprompt', hcapacity⟩ := onDrive_some h hholds got hr
      obtain ⟨hserved, hstuck⟩ := ih hprompt' hholds' (r.onDisk (disk, got)).2
      rw [hcapacity] at hserved hstuck
      rw [hstep, Option.bind_some]
      refine ⟨fun hall => hserved fun q hq => hall q (List.mem_cons_of_mem r hq), ?_⟩
      rintro ⟨q, hq, hbad⟩
      rcases List.mem_cons.mp hq with rfl | hq
      · exact absurd hr (Nat.not_lt.mpr hbad)
      · exact hstuck ⟨q, hq, hbad⟩
    · refine ⟨fun hall => absurd (hall r List.mem_cons_self) hr, fun _ => ?_⟩
      rw [onDrive_none got (Nat.not_lt.mp hr), Option.bind_none]

/-- **The driver serves its callers as a disk would**, as long as they stay on the drive, and waits
for ever at the first request that does not. -/
theorem requests_served {disk : FS.Disk} (h : Prompt fuel d) (hholds : Holds d disk)
    (requests : List Request) :
    ((∀ r ∈ requests, (sectorOf r.sector).toNat < d.capacity) →
      ∃ d', run (Request.onDrive fuel) (d, []) requests =
          some (d', (requests.foldl Request.onDisk (disk, [])).2) ∧
        Holds d' (requests.foldl Request.onDisk (disk, [])).1) ∧
      ((∃ r ∈ requests, d.capacity ≤ (sectorOf r.sector).toNat) →
        run (Request.onDrive fuel) (d, []) requests = none) :=
  run_onDrive h hholds [] requests

/-- An empty drive that is busy for two looks at the status at a time. -/
def emptyDrive (capacity : ℕ) : Drive where
  capacity := capacity
  sectors := fun _ _ => 0
  sectorCount := 0
  lbaLow := 0
  lbaMid := 0
  lbaHigh := 0
  device := 0xA0
  transfer := .none
  error := false
  busy := 1
  delays := fun _ => 2

theorem prompt_emptyDrive (capacity : ℕ) : Prompt 3 (emptyDrive capacity) :=
  ⟨Nat.lt_add_of_pos_left (Nat.zero_lt_succ 1), fun _ => Nat.lt_add_one 2⟩

theorem holds_emptyDrive (capacity : ℕ) : Holds (emptyDrive capacity) fun _ _ => 0 :=
  fun _ _ _ _ => rfl

/-- A sector is written twice and then read. -/
def writtenTwice : List Request :=
  [.write 5 fun _ => 1, .write 5 fun _ => 7, .read 5 fun _ => 0]

theorem requests_served_twice :
    ∃ d', run (Request.onDrive 3) (emptyDrive 6, []) writtenTwice =
      some (d', [(List.range 512).map fun _ => 7]) := by
  obtain ⟨d', hrun, -⟩ := (requests_served (prompt_emptyDrive 6) (holds_emptyDrive 6)
    writtenTwice).1 (by decide)
  refine ⟨d', hrun.trans ?_⟩
  have hsector : FS.readSector (FS.writeSector (FS.writeSector (fun _ _ => 0) 5 fun _ => 1) 5
      fun _ => 7) 5 = fun _ => 7 := by
    rw [FS.readSector, FS.writeSector, Function.update_self]
  rw [← hsector]
  rfl

end MesaOS.Drivers
