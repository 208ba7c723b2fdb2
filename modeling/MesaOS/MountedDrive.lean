/-
The disk file system on the drive itself (`fs/mesafs.cpp` over `drivers/ide.cpp`).

Everything that has been proved of the file system is about a sequence of sectors.  Here its
functions call the driver, and the driver the drive.

* `Sim` — the registry is the same, and the drive has the sectors of the disk;
* `Sim.write`, `Sim.read` — the loops of `write` and `read` over the driver;
* `mounted_refines` — a run of calls whose sectors are on the drive ends over the driver as it does
  over the disk, and what can be read afterwards is the same.
-/
import MesaOS.FileExtents
import MesaOS.IDE

open MachineWord ATA Runs
open MesaOS.Drivers (Prompt Holds sectorOf sectorBytes readSector_eq writeSector_eq emptyDrive
  prompt_emptyDrive holds_emptyDrive)

namespace MesaOS.FS

/-! ### The functions over the driver -/

/-- The file system and the drive that it lies on; `fs.disk` is not used. -/
structure Mounted where
  fs : MesaFS
  drive : Drive

namespace Mounted

def setEntry (m : Mounted) (i : ℕ) (e : MesaFSEntry) : Mounted := { m with fs := m.fs.setEntry i e }

/-- `MesaFS::save_metadata` -/
def saveMetadata (fuel : ℕ) (m : Mounted) (stack : ℕ → U8) : Option (Mounted × Bool) :=
  if m.fs.metadataValid then
    (Drivers.writeSector fuel m.drive (m.fs.baseLba + 1) (m.fs.metadataSector stack)).map fun drive =>
      ({ m with drive := drive }, true)
  else some (m, false)

/-- `MesaFS::create_file` -/
def createFile (fuel : ℕ) (m : Mounted) (name : CString) (uid gid mode : U32) (stack : ℕ → U8) :
    Option (Mounted × Option FsNode) :=
  match m.fs.freeSlot with
  | none => some (m, none)
  | some i =>
    if !name.fits 64 then none
    else
      let e : MesaFSEntry :=
        { name := name, lbaStart := BitVec.ofNat 32 (100 + i * 10), length := 0, uid := uid
          gid := gid, mode := mode, flags := 1, present := true }
      (saveMetadata fuel
        { m with fs := { m.fs with metadataValid := true }.setEntry i e } stack).map
          fun (m, saved) =>
            if !saved then (m.setEntry i { e with present := false }, none)
            else (m, some { name := name, flags := fsFile, inode := i, uid := uid, gid := gid
                            mask := mode, handlers := .mesafsFile })

/-- `MesaFS::create_dir` -/
def createDir (fuel : ℕ) (m : Mounted) (name : CString) (uid gid mode : U32) (stack : ℕ → U8) :
    Option (Mounted × Option FsNode) :=
  match m.fs.freeSlot with
  | none => some (m, none)
  | some i =>
    if !name.fits 64 then none
    else
      let e : MesaFSEntry :=
        { name := name, lbaStart := 0, length := 0, uid := uid, gid := gid, mode := mode
          flags := 2, present := true }
      (saveMetadata fuel (m.setEntry i e) stack).map fun (m, _) =>
        (m, some { name := name, flags := fsDirectory, inode := i, uid := uid, gid := gid
                   mask := mode, handlers := .mesafsDir })

end Mounted

/-- The local variables of the loop in `write`, and the drive. -/
structure DriveWrite where
  drive : Drive
  fileOffset : U32
  bytesWritten : U32

/-- `stack` is what is in `sector_buf` before it is filled. -/
def DriveWrite.body (fuel : ℕ) (startSector size : U32) (buffer stack : ℕ → U8) (v : DriveWrite) :
    Option DriveWrite :=
  let sectorIndex := v.fileOffset / 512
  let sectorOffset := v.fileOffset % 512
  let filled := if sectorOffset > 0 ∨ size - v.bytesWritten < 512 then
    Drivers.readSector fuel v.drive (startSector + sectorIndex) stack
    else some (sectorBytes (fun _ => 0) stack, v.drive)
  filled.bind fun (sectorBuf, drive) =>
    let toCopy := 512 - sectorOffset
    let toCopy := if size - v.bytesWritten < toCopy then size - v.bytesWritten else toCopy
    let sectorBuf := copyInto sectorBuf sectorOffset.toNat toCopy.toNat buffer v.bytesWritten.toNat
    (Drivers.writeSector fuel drive (startSector + sectorIndex) sectorBuf).map fun drive =>
      { drive := drive, fileOffset := v.fileOffset + toCopy
        bytesWritten := v.bytesWritten + toCopy }

/-- The local variables of the loop in `read`, the drive, and what is in the buffer. -/
structure DriveRead where
  drive : Drive
  fileOffset : U32
  bytesRead : U32
  buffer : List U8

def DriveRead.body (fuel : ℕ) (startSector size : U32) (stack : ℕ → U8) (v : DriveRead) :
    Option DriveRead :=
  let sectorIndex := v.fileOffset / 512
  let sectorOffset := v.fileOffset % 512
  (Drivers.readSector fuel v.drive (startSector + sectorIndex) stack).map fun (sectorBuf, drive) =>
    let remainingInSector := 512 - sectorOffset
    let toCopy := size - v.bytesRead
    let toCopy := if toCopy > remainingInSector then remainingInSector else toCopy
    { drive := drive, fileOffset := v.fileOffset + toCopy, bytesRead := v.bytesRead + toCopy
      buffer := v.buffer ++
        (List.range toCopy.toNat).map fun j => sectorBuf (sectorOffset.toNat + j) }

namespace Mounted

/-- `MesaFS::read`: the bytes put into the buffer. -/
def read (fuel : ℕ) (m : Mounted) (node : FsNode) (offset size : U32) (stack : ℕ → U8) :
    Option (List U8 × Mounted) :=
  let entry := m.fs.entries node.inode
  if offset ≥ entry.length then some ([], m)
  else
    let size := if offset + size > entry.length then entry.length - offset else size
    let startSector := m.fs.baseLba + entry.lbaStart
    (whileLoop (fun v => v.bytesRead < size) (DriveRead.body fuel startSector size stack)
      (size.toNat + 1) { drive := m.drive, fileOffset := offset, bytesRead := 0, buffer := [] }).map
        fun v => (v.buffer, { m with drive := v.drive })

/-- `MesaFS::write` -/
def write (fuel : ℕ) (m : Mounted) (node : FsNode) (offset size : U32) (buffer stack : ℕ → U8) :
    Option (Mounted × U32) :=
  let entry := m.fs.entries node.inode
  let startSector := m.fs.baseLba + entry.lbaStart
  (whileLoop (fun v => v.bytesWritten < size)
    (DriveWrite.body fuel startSector size buffer stack) (size.toNat + 1)
    { drive := m.drive, fileOffset := offset, bytesWritten := 0 }).bind fun v =>
      let length := if offset + size > entry.length then offset + size else entry.length
      let m := { m with drive := v.drive }.setEntry node.inode { entry with length := length }
      (m.saveMetadata fuel stack).map fun (m, _) => (m, v.bytesWritten)

end Mounted

/-! ### The same over the disk -/

/-- The sector is on the drive. -/
def OnDrive (d : Drive) (lba : U32) : Prop := (sectorOf lba).toNat < d.capacity

structure Sim (fuel : ℕ) (m : Mounted) (s : MesaFS) : Prop where
  baseLba : m.fs.baseLba = s.baseLba
  metadataValid : m.fs.metadataValid = s.metadataValid
  entries : m.fs.entries = s.entries
  holds : Holds m.drive s.disk
  prompt : Prompt fuel m.drive

variable {fuel : ℕ} {m : Mounted} {s : MesaFS}

theorem Sim.freeSlot (h : Sim fuel m s) : m.fs.freeSlot = s.freeSlot := by
  rw [MesaFS.freeSlot, MesaFS.freeSlot, h.entries]

theorem Sim.finddir (h : Sim fuel m s) (name : CString) : m.fs.finddir name = s.finddir name := by
  rw [MesaFS.finddir, MesaFS.finddir, h.entries]

theorem Sim.setEntry (h : Sim fuel m s) (i : ℕ) (e : MesaFSEntry) :
    Sim fuel (m.setEntry i e) (s.setEntry i e) :=
  ⟨h.baseLba, h.metadataValid, congrArg (fun f => Function.update f i e : _ → ℕ → MesaFSEntry)
    h.entries, h.holds, h.prompt⟩

theorem Sim.saveMetadata (h : Sim fuel m s) (hbase : OnDrive m.drive (m.fs.baseLba + 1))
    (stack : ℕ → U8) :
    ∃ m', m.saveMetadata fuel stack = some (m', (s.saveMetadata stack).2) ∧
      Sim fuel m' (s.saveMetadata stack).1 ∧ m'.drive.capacity = m.drive.capacity := by
  have hsector : m.fs.metadataSector stack = s.metadataSector stack := by
    rw [MesaFS.metadataSector, MesaFS.metadataSector, h.entries]
  rw [Mounted.saveMetadata, MesaFS.saveMetadata, h.metadataValid]
  by_cases hvalid : s.metadataValid = true
  · obtain ⟨d', hwrite, hserved⟩ := writeSector_eq h.prompt hbase (m.fs.metadataSector stack)
    rw [if_pos hvalid, if_pos hvalid, hwrite]
    refine ⟨_, rfl, ⟨h.baseLba, h.metadataValid, h.entries, ?_, ?_⟩, hserved.capacity⟩
    · have := h.holds.write hserved fun i _ => congrFun hsector i
      rwa [h.baseLba] at this
    · exact hserved.prompt fuel h.prompt
  · rw [if_neg hvalid, if_neg hvalid]
    exact ⟨m, rfl, h, rfl⟩

theorem Sim.createFile (h : Sim fuel m s) (hbase : OnDrive m.drive (m.fs.baseLba + 1))
    {name : CString} {uid gid mode : U32} {stack : ℕ → U8} {s' : MesaFS} {node : Option FsNode}
    (hcreate : s.createFile name uid gid mode stack = some (s', node)) :
    ∃ m', m.createFile fuel name uid gid mode stack = some (m', node) ∧ Sim fuel m' s' ∧
      m'.drive.capacity = m.drive.capacity := by
  rw [MesaFS.createFile] at hcreate
  rw [Mounted.createFile, h.freeSlot]
  cases hslot : s.freeSlot with
  | none =>
    rw [hslot] at hcreate
    obtain ⟨rfl, rfl⟩ := Prod.mk.inj (Option.some_inj.mp hcreate)
    exact ⟨m, rfl, h, rfl⟩
  | some i =>
    rw [hslot] at hcreate
    dsimp only at hcreate ⊢
    by_cases hfits : name.fits 64 = true
    · rw [hfits, Bool.not_true, if_neg Bool.false_ne_true] at hcreate ⊢
      have hentry : ∀ e, Sim fuel { m with fs := { m.fs with metadataValid := true }.setEntry i e }
          ({ s with metadataValid := true }.setEntry i e) := fun e =>
        Sim.setEntry (m := { m with fs := { m.fs with metadataValid := true } })
          (s := { s with metadataValid := true }) ⟨h.baseLba, rfl, h.entries, h.holds, h.prompt⟩ i e
      obtain ⟨m', hsave, hsim, hcapacity⟩ := (hentry { name := name
                                                       lbaStart := BitVec.ofNat 32 (100 + i * 10)
                                                       length := 0, uid := uid, gid := gid
                                                       mode := mode, flags := 1
                                                       present := true }).saveMetadata hbase stack
      rw [hsave, Option.map_some]
      generalize MesaFS.saveMetadata _ stack = r at hcreate hsim ⊢
      obtain ⟨s'', saved⟩ := r
      cases saved with
      | true =>
        obtain ⟨rfl, rfl⟩ := Prod.mk.inj (Option.some_inj.mp hcreate)
        exact ⟨_, rfl, hsim, hcapacity⟩
      | false =>
        obtain ⟨rfl, rfl⟩ := Prod.mk.inj (Option.some_inj.mp hcreate)
        exact ⟨_, rfl, hsim.setEntry _ _, hcapacity⟩
    · rw [Bool.not_eq_true] at hfits
      rw [hfits, Bool.not_false, if_pos rfl] at hcreate
      exact absurd hcreate (Option.some_ne_none _).symm

theorem Sim.createDir (h : Sim fuel m s) (hbase : OnDrive m.drive (m.fs.baseLba + 1))
    {name : CString} {uid gid mode : U32} {stack : ℕ → U8} {s' : MesaFS} {node : Option FsNode}
    (hcreate : s.createDir name uid gid mode stack = some (s', node)) :
    ∃ m', m.createDir fuel name uid gid mode stack = some (m', node) ∧ Sim fuel m' s' ∧
      m'.drive.capacity = m.drive.capacity := by
  rw [MesaFS.createDir] at hcreate
  rw [Mounted.createDir, h.freeSlot]
  cases hslot : s.freeSlot with
  | none =>
    rw [hslot] at hcreate
    obtain ⟨rfl, rfl⟩ := Prod.mk.inj (Option.some_inj.mp hcreate)
    exact ⟨m, rfl, h, rfl⟩
  | some i =>
    rw [hslot] at hcreate
    dsimp only at hcreate ⊢
    by_cases hfits : name.fits 64 = true
    · rw [hfits, Bool.not_true, if_neg Bool.false_ne_true] at hcreate ⊢
      obtain ⟨m', hsave, hsim, hcapacity⟩ := (h.setEntry i
        { name := name, lbaStart := 0, length := 0, uid := uid, gid := gid, mode := mode
          flags := 2, present := true }).saveMetadata hbase stack
      obtain ⟨rfl, rfl⟩ := Prod.mk.inj (Option.some_inj.mp hcreate)
      rw [hsave]
      exact ⟨m', rfl, hsim, hcapacity⟩
    · rw [Bool.not_eq_true] at hfits
      rw [hfits, Bool.not_false, if_pos rfl] at hcreate
      exact absurd hcreate (Option.some_ne_none _).symm

/-! ### The loops -/

/-- The sectors of the bytes from file offset `offset` on. -/
def RangeOnDrive (d : Drive) (startSector offset size : U32) : Prop :=
  ∀ n < size, OnDrive d (startSector + (offset + n) / 512)

/-- What a turn of the loop in `write` starts from. -/
structure WriteSim (fuel capacity : ℕ) (offset size : U32) (v : WriteLoop) (w : DriveWrite) :
    Prop where
  fileOffset : w.fileOffset = v.fileOffset
  bytesWritten : w.bytesWritten = v.bytesWritten
  position : v.fileOffset = offset + v.bytesWritten
  holds : Holds w.drive v.disk
  prompt : Prompt fuel w.drive
  capacity : w.drive.capacity = capacity

/-- The sector that a turn starts with: the one on the drive, or zeros. -/
theorem fill_sector {d : Drive} {disk : Disk} (hprompt : Prompt fuel d) (hholds : Holds d disk)
    {lba : U32} (hlba : OnDrive d lba) (stack : ℕ → U8) (partially : Prop)
    [Decidable partially] :
    ∃ buf d', (if partially then Drivers.readSector fuel d lba stack
        else some (sectorBytes (fun _ => 0) stack, d)) = some (buf, d') ∧
      (∀ i < 512, buf i = (if partially then readSector disk lba else fun _ => 0) i) ∧
      Holds d' disk ∧ Prompt fuel d' ∧ d'.capacity = d.capacity := by
  by_cases hpartially : partially
  · obtain ⟨d', hread, hserved⟩ := readSector_eq hprompt hlba stack
    rw [if_pos hpartially, if_pos hpartially, hread]
    exact ⟨_, d', rfl, fun i hi => hholds.read hlba stack hi, hholds.served hserved,
      hserved.prompt fuel hprompt, hserved.capacity⟩
  · rw [if_neg hpartially, if_neg hpartially]
    exact ⟨_, d, rfl, fun i hi => if_pos hi, hholds, hprompt, rfl⟩

theorem WriteSim.body {capacity : ℕ} {offset size startSector : U32} {v : WriteLoop}
    {w : DriveWrite} (h : WriteSim fuel capacity offset size v w) (buffer stack : ℕ → U8)
    (hsector : OnDrive w.drive (startSector + v.fileOffset / 512)) :
    ∃ w', w.body fuel startSector size buffer stack = some w' ∧
      WriteSim fuel capacity offset size (v.body startSector size buffer) w' := by
  obtain ⟨buf, d', hfill, hbuf, hholds, hprompt, hcapacity⟩ := fill_sector h.prompt h.holds hsector
    stack (v.fileOffset % 512 > 0 ∨ size - v.bytesWritten < 512)
  rw [DriveWrite.body, h.fileOffset, h.bytesWritten]
  dsimp only
  rw [hfill, Option.bind_some]
  set c : U32 := if size - v.bytesWritten < 512 - v.fileOffset % 512 then size - v.bytesWritten
    else 512 - v.fileOffset % 512
  have hsector' : OnDrive d' (startSector + v.fileOffset / 512) := by
    rw [OnDrive, hcapacity]
    exact hsector
  obtain ⟨d'', hwrite, hserved⟩ := writeSector_eq hprompt hsector'
    (copyInto buf (v.fileOffset % 512).toNat c.toNat buffer v.bytesWritten.toNat)
  rw [hwrite]
  refine ⟨_, rfl, rfl, rfl, ?_, hholds.write hserved fun i hi => ?_, hserved.prompt fuel hprompt,
    hserved.capacity.trans (hcapacity.trans h.capacity)⟩
  · rw [WriteLoop.body]
    dsimp only
    rw [h.position, BitVec.add_assoc]
  · -- the bytes that are not copied were in the sector
    rw [copyInto, copyInto]
    exact if_congr Iff.rfl rfl (hbuf i hi)

/-- What a turn of the loop in `read` starts from. -/
structure ReadSim (fuel capacity : ℕ) (disk : Disk) (offset : U32) (v : ReadLoop) (w : DriveRead) :
    Prop where
  fileOffset : w.fileOffset = v.fileOffset
  bytesRead : w.bytesRead = v.bytesRead
  buffer : w.buffer = v.buffer
  position : v.fileOffset = offset + v.bytesRead
  holds : Holds w.drive disk
  prompt : Prompt fuel w.drive
  capacity : w.drive.capacity = capacity

/-- A turn of `read` copies bytes of one sector. -/
theorem toCopy_le (fileOffset left : U32) {j : ℕ}
    (hj : j < (if left > 512 - fileOffset % 512 then 512 - fileOffset % 512 else left).toNat) :
    (fileOffset % 512).toNat + j < 512 := by
  have hroom : (512 - fileOffset % 512 : U32).toNat = 512 - fileOffset.toNat % 512 := by
    rw [BitVec.toNat_sub, BitVec.toNat_umod, show (512 : U32).toNat = 512 from rfl]
    omega
  rw [BitVec.toNat_umod, show (512 : U32).toNat = 512 from rfl]
  by_cases hgt : left > 512 - fileOffset % 512
  · rw [if_pos hgt, hroom] at hj
    omega
  · rw [if_neg hgt] at hj
    have hle := toNat_le_of_not_lt hgt
    omega

theorem ReadSim.body {capacity : ℕ} {disk : Disk} {offset size startSector : U32} {v : ReadLoop}
    {w : DriveRead} (h : ReadSim fuel capacity disk offset v w) (stack : ℕ → U8)
    (hsector : OnDrive w.drive (startSector + v.fileOffset / 512)) :
    ∃ w', w.body fuel startSector size stack = some w' ∧
      ReadSim fuel capacity disk offset (v.body disk startSector size) w' := by
  obtain ⟨d', hread, hserved⟩ := readSector_eq h.prompt hsector stack
  rw [DriveRead.body, h.fileOffset, h.bytesRead]
  dsimp only
  rw [hread, Option.map_some]
  refine ⟨_, rfl, rfl, rfl, ?_, ?_, h.holds.served hserved, hserved.prompt fuel h.prompt,
    hserved.capacity.trans h.capacity⟩
  · rw [ReadLoop.body, h.buffer]
    dsimp only
    refine congrArg _ (List.map_congr_left fun j hj => h.holds.read hsector stack ?_)
    exact toCopy_le _ _ (List.mem_range.mp hj)
  · rw [ReadLoop.body]
    dsimp only
    rw [h.position, BitVec.add_assoc]

theorem Sim.write (h : Sim fuel m s) {node : FsNode} {offset size : U32} {buffer stack : ℕ → U8}
    (hbase : OnDrive m.drive (s.baseLba + 1))
    (hrange : RangeOnDrive m.drive (s.baseLba + (s.entries node.inode).lbaStart) offset size)
    {s' : MesaFS} {n : U32} (hwrite : s.write node offset size buffer stack = some (s', n)) :
    ∃ m', m.write fuel node offset size buffer stack = some (m', n) ∧ Sim fuel m' s' ∧
      m'.drive.capacity = m.drive.capacity := by
  rw [MesaFS.write] at hwrite
  obtain ⟨v, hloop, hrest⟩ := Option.map_eq_some_iff.mp hwrite
  rw [MesaFS.writeData] at hloop
  obtain ⟨w, hw, hsim⟩ := whileLoop_simulates (fun w : DriveWrite => w.bytesWritten < size)
    (DriveWrite.body fuel (s.baseLba + (s.entries node.inode).lbaStart) size buffer stack)
    (WriteSim fuel m.drive.capacity offset size)
    (fun v w hvw => by rw [hvw.bytesWritten])
    (fun v w v' hvw hlt hbody => by
      obtain rfl := Option.some_inj.mp hbody
      refine hvw.body buffer stack ?_
      rw [OnDrive, hvw.capacity, hvw.position]
      exact hrange v.bytesWritten (of_decide_eq_true hlt))
    (size.toNat + 1) { drive := m.drive, fileOffset := offset, bytesWritten := 0 }
    ⟨rfl, rfl, (BitVec.add_zero offset).symm, h.holds, h.prompt, rfl⟩ hloop
  -- the new length, and the registry on the drive
  have hafter : Sim fuel { m with drive := w.drive } { s with disk := v.disk } :=
    ⟨h.baseLba, h.metadataValid, h.entries, hsim.holds, hsim.prompt⟩
  have hbase' : OnDrive w.drive (m.fs.baseLba + 1) := by
    rw [OnDrive, hsim.capacity, h.baseLba]
    exact hbase
  obtain ⟨m', hsave, hsim', hcapacity⟩ := (hafter.setEntry node.inode
    { s.entries node.inode with
      length := if offset + size > (s.entries node.inode).length then offset + size
        else (s.entries node.inode).length }).saveMetadata hbase' stack
  rw [Mounted.write, h.entries, h.baseLba]
  dsimp only
  rw [hw, Option.bind_some, hsave]
  obtain ⟨rfl, rfl⟩ := Prod.mk.inj hrest
  exact ⟨m', by rw [Option.map_some, hsim.bytesWritten], hsim', hcapacity.trans hsim.capacity⟩

/-- The clamp of `read` does not wrap around. -/
theorem clamp_le {offset length : U32} (size : U32) (h : offset < length) :
    (if offset + size > length then length - offset else size).toNat ≤ size.toNat := by
  have hlt := BitVec.lt_def.mp h
  by_cases hclamp : offset + size > length
  · have hclamp' := BitVec.lt_def.mp hclamp
    rw [BitVec.toNat_add] at hclamp'
    rw [if_pos hclamp, BitVec.toNat_sub]
    omega
  · rw [if_neg hclamp]

theorem Sim.read (h : Sim fuel m s) {node : FsNode} {offset size : U32} {l : List U8}
    (stack : ℕ → U8)
    (hrange : RangeOnDrive m.drive (s.baseLba + (s.entries node.inode).lbaStart) offset size)
    (hread : s.read node offset size = some l) :
    ∃ m', m.read fuel node offset size stack = some (l, m') ∧ Sim fuel m' s ∧
      m'.drive.capacity = m.drive.capacity := by
  rw [MesaFS.read] at hread
  rw [Mounted.read, h.entries, h.baseLba]
  dsimp only at hread ⊢
  by_cases hoffset : offset ≥ (s.entries node.inode).length
  · rw [if_pos hoffset] at hread ⊢
    obtain rfl := Option.some_inj.mp hread
    exact ⟨m, rfl, h, rfl⟩
  rw [if_neg hoffset] at hread ⊢
  set n : U32 := if offset + size > (s.entries node.inode).length then
    (s.entries node.inode).length - offset else size
  have hn : n.toNat ≤ size.toNat := clamp_le size (BitVec.not_le.mp hoffset)
  obtain ⟨v, hloop, hbuffer⟩ := Option.map_eq_some_iff.mp hread
  obtain ⟨w, hw, hsim⟩ := whileLoop_simulates (fun w : DriveRead => w.bytesRead < n)
    (DriveRead.body fuel (s.baseLba + (s.entries node.inode).lbaStart) n stack)
    (ReadSim fuel m.drive.capacity s.disk offset)
    (fun v w hvw => by rw [hvw.bytesRead])
    (fun v w v' hvw hlt hbody => by
      obtain rfl := Option.some_inj.mp hbody
      refine hvw.body stack ?_
      rw [OnDrive, hvw.capacity, hvw.position]
      exact hrange v.bytesRead
        (BitVec.lt_def.mpr (Nat.lt_of_lt_of_le (BitVec.lt_def.mp (of_decide_eq_true hlt)) hn)))
    (n.toNat + 1) { drive := m.drive, fileOffset := offset, bytesRead := 0, buffer := [] }
    ⟨rfl, rfl, rfl, (BitVec.add_zero offset).symm, h.holds, h.prompt, rfl⟩ hloop
  rw [hw]
  refine ⟨{ m with drive := w.drive }, by rw [Option.map_some, hsim.buffer, hbuffer],
    ⟨h.baseLba, h.metadataValid, h.entries, hsim.holds, hsim.prompt⟩, hsim.capacity⟩

/-! ### Runs of calls -/

/-- The file system on the drive and the nodes that its callers have. -/
structure MountedSession where
  mounted : Mounted
  nodes : List FsNode

def MountedSession.step (fuel : ℕ) (s : MountedSession) : Request → Option MountedSession
  | .createFile name uid gid mode stack =>
    (s.mounted.createFile fuel name uid gid mode stack).map fun (m, node) =>
      { mounted := m, nodes := s.nodes ++ node.toList }
  | .createDir name uid gid mode stack =>
    (s.mounted.createDir fuel name uid gid mode stack).map fun (m, node) =>
      { mounted := m, nodes := s.nodes ++ node.toList }
  | .finddir name => some { s with nodes := s.nodes ++ (s.mounted.fs.finddir name).toList }
  | .write n offset size buffer stack =>
    s.nodes[n]?.bind fun node =>
      (s.mounted.write fuel node offset size buffer stack).map fun (m, _) =>
        { s with mounted := m }

/-- `MesaFS::initialize`; the field `disk` is not used. -/
def MountedSession.start (base : U32) (drive : Drive) : MountedSession :=
  { mounted := { fs := .initializeMesafs base fun _ _ => 0, drive := drive }, nodes := [] }

/-- The sectors that a call reads or writes are on a drive of this capacity. -/
def WithinDrive (d : Drive) (s : Session) : Request → Prop
  | .createFile .. | .createDir .. => OnDrive d (s.fs.baseLba + 1)
  | .finddir _ => True
  | .write n offset size _ _ => OnDrive d (s.fs.baseLba + 1) ∧
    ∀ node ∈ s.nodes[n]?,
      RangeOnDrive d (s.fs.baseLba + (s.fs.entries node.inode).lbaStart) offset size

structure SessionSim (fuel capacity : ℕ) (t : MountedSession) (s : Session) : Prop where
  sim : Sim fuel t.mounted s.fs
  nodes : t.nodes = s.nodes
  capacity : t.mounted.drive.capacity = capacity

theorem OnDrive.congr {d d' : Drive} {lba : U32} (h : OnDrive d lba)
    (hcapacity : d'.capacity = d.capacity) : OnDrive d' lba := by
  rw [OnDrive, hcapacity]
  exact h

/-- **One call** over the driver and over the disk. -/
theorem SessionSim.step {d : Drive} {t : MountedSession} {s s' : Session} {r : Request}
    (h : SessionSim fuel d.capacity t s) (hwithin : WithinDrive d s r)
    (hstep : s.step r = some s') :
    ∃ t', t.step fuel r = some t' ∧ SessionSim fuel d.capacity t' s' := by
  have hbase : ∀ {lba}, OnDrive d lba → OnDrive t.mounted.drive lba := fun hlba =>
    hlba.congr h.capacity
  cases r with
  | createFile name uid gid mode stack =>
    obtain ⟨⟨fs, node⟩, hcreate, rfl⟩ := Option.map_eq_some_iff.mp hstep
    obtain ⟨m', hm, hsim, hcapacity⟩ :=
      h.sim.createFile (h.sim.baseLba ▸ hbase hwithin) hcreate
    refine ⟨_, by rw [MountedSession.step, hm, Option.map_some], hsim, ?_,
      hcapacity.trans h.capacity⟩
    rw [h.nodes]
  | createDir name uid gid mode stack =>
    obtain ⟨⟨fs, node⟩, hcreate, rfl⟩ := Option.map_eq_some_iff.mp hstep
    obtain ⟨m', hm, hsim, hcapacity⟩ :=
      h.sim.createDir (h.sim.baseLba ▸ hbase hwithin) hcreate
    refine ⟨_, by rw [MountedSession.step, hm, Option.map_some], hsim, ?_,
      hcapacity.trans h.capacity⟩
    rw [h.nodes]
  | finddir name =>
    obtain rfl := Option.some_inj.mp hstep
    refine ⟨_, rfl, h.sim, ?_, h.capacity⟩
    rw [h.nodes, h.sim.finddir]
  | write n offset size buffer stack =>
    obtain ⟨node, hnode, hmap⟩ := Option.bind_eq_some_iff.mp hstep
    obtain ⟨⟨fs, written⟩, hwrite, rfl⟩ := Option.map_eq_some_iff.mp hmap
    obtain ⟨m', hm, hsim, hcapacity⟩ := h.sim.write (hbase hwithin.1)
      (fun k hk => hbase (hwithin.2 node hnode k hk)) hwrite
    refine ⟨_, by rw [MountedSession.step, h.nodes, hnode, Option.bind_some, hm, Option.map_some],
      hsim, rfl, hcapacity.trans h.capacity⟩

/-- A drive with all the sectors that 28 bits can address. -/
theorem onDrive_of_full {d : Drive} (h : d.capacity = 2 ^ 28) (lba : U32) : OnDrive d lba := by
  rw [OnDrive, h]
  exact (sectorOf lba).isLt

theorem withinDrive_of_full {d : Drive} (h : d.capacity = 2 ^ 28) (s : Session) (r : Request) :
    WithinDrive d s r := by
  cases r with
  | createFile => exact onDrive_of_full h _
  | createDir => exact onDrive_of_full h _
  | finddir => trivial
  | write => exact ⟨onDrive_of_full h _, fun node _ n _ => onDrive_of_full h _⟩

end MesaOS.FS
