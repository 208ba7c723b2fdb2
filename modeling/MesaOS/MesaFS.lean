/-
The disk file system (`fs/mesafs.cpp`) and the sectors of the disk it lies on
(`drivers/ide.cpp`).

The disk behind the partition's first sector is seen as a sequence of bytes
(`byteAt`).  In these terms

* `writeData_spec` — the loop of `write` copies the buffer to the `size` file
  offsets from `offset` on, modulo `2 ^ 32`, behind the entry's first sector, and
  nowhere else;
* `read_spec` — a read that does not wrap around returns the bytes there.
-/
import MesaOS.VFS
import MesaOS.Runs

open MachineWord Runs

namespace MesaOS.FS

/-! ### Sectors -/

/-- The sectors of the drive; its address is 28 bits wide. -/
abbrev Disk := BitVec 28 → ℕ → U8

/-- `IDEDriver::read_sector`: the upper four bits of `lba` are not sent. -/
def readSector (d : Disk) (lba : U32) : ℕ → U8 := d (lba.setWidth 28)

/-- `IDEDriver::write_sector` -/
def writeSector (d : Disk) (lba : U32) (buffer : ℕ → U8) : Disk :=
  Function.update d (lba.setWidth 28) buffer

/-- Byte `a` of the disk, counted from sector `base`. -/
def byteAt (base : U32) (d : Disk) (a : ℕ) : U8 :=
  readSector d (base + BitVec.ofNat 32 (a / 512)) (a % 512)

theorem setWidth_add_inj (base : U32) {x y : ℕ} (hx : x < 2 ^ 28) (hy : y < 2 ^ 28) :
    (base + BitVec.ofNat 32 x).setWidth 28 = (base + BitVec.ofNat 32 y).setWidth 28 ↔ x = y := by
  rw [← BitVec.toNat_inj, BitVec.toNat_setWidth, BitVec.toNat_setWidth, BitVec.toNat_add,
    BitVec.toNat_add, BitVec.toNat_ofNat, BitVec.toNat_ofNat]
  omega

theorem byteAt_writeSector (base : U32) (d : Disk) (buffer : ℕ → U8) {x a : ℕ}
    (hx : x < 2 ^ 28) (ha : a < 512 * 2 ^ 28) :
    byteAt base (writeSector d (base + BitVec.ofNat 32 x) buffer) a =
      if a / 512 = x then buffer (a % 512) else byteAt base d a := by
  rw [byteAt, byteAt, readSector, readSector, writeSector, Function.update_apply]
  by_cases h : a / 512 = x
  · rw [if_pos h, if_pos (by rw [h])]
  · rw [if_neg h, if_neg fun he => h ((setWidth_add_inj base (by omega) hx).mp he)]

/-! ### The registry -/

/-- `struct MesaFSEntry`, without the `hmac` that stays zero. -/
structure MesaFSEntry where
  name : CString
  lbaStart : U32
  length : U32
  uid : U32
  gid : U32
  mode : U32
  flags : U8
  present : Bool

/-- The static members of the class, the registry and the disk. -/
structure MesaFS where
  baseLba : U32
  metadataValid : Bool
  entries : ℕ → MesaFSEntry
  disk : Disk

/-- `entries[8]`. -/
def maxEntries : ℕ := 8

/-- An entry as `memset` leaves it. -/
def MesaFSEntry.clear : MesaFSEntry :=
  { name := .empty, lbaStart := 0, length := 0, uid := 0, gid := 0, mode := 0, flags := 0
    present := false }

/-- The 120 bytes of an entry. -/
def MesaFSEntry.bytes (e : MesaFSEntry) : List U8 :=
  e.name.bytes ++ List.replicate (64 - e.name.bytes.length) 0 ++ le32 e.lbaStart ++
    le32 e.length ++ le32 e.uid ++ le32 e.gid ++ le32 e.mode ++
    [e.flags, if e.present then 1 else 0] ++ List.replicate 34 0

namespace MesaFS

/-- `MesaFS::initialize`; `load_metadata` always fails. -/
def initializeMesafs (base : U32) (disk : Disk) : MesaFS :=
  { baseLba := base, metadataValid := true, entries := fun _ => .clear, disk := disk }

/-- The sector that `save_metadata` writes.  `header.metadata_hmac` holds what is on the
stack; of the entries only the first 464 bytes reach the sector. -/
def metadataSector (s : MesaFS) (stack : ℕ → U8) : ℕ → U8 :=
  bufferOf (le32 0x5341534D ++ le32 1 ++ le32 0 ++ le32 1000 ++ (List.range 32).map stack ++
    (List.range maxEntries).flatMap fun i => (s.entries i).bytes)

/-- `MesaFS::save_metadata` -/
def saveMetadata (s : MesaFS) (stack : ℕ → U8) : MesaFS × Bool :=
  if s.metadataValid then
    ({ s with disk := writeSector s.disk (s.baseLba + 1) (s.metadataSector stack) }, true)
  else (s, false)

/-- The slot that a new entry gets. -/
def freeSlot (s : MesaFS) : Option ℕ :=
  (List.range maxEntries).find? fun i => !(s.entries i).present

def setEntry (s : MesaFS) (i : ℕ) (e : MesaFSEntry) : MesaFS :=
  { s with entries := Function.update s.entries i e }

/-- `MesaFS::create_file`: the new state and the node; no result when the name leaves its
array. -/
def createFile (s : MesaFS) (name : CString) (uid gid mode : U32) (stack : ℕ → U8) :
    Option (MesaFS × Option FsNode) :=
  match s.freeSlot with
  | none => some (s, none)
  | some i =>
    if !name.fits 64 then none
    else
      let e : MesaFSEntry :=
        { name := name, lbaStart := BitVec.ofNat 32 (100 + i * 10), length := 0, uid := uid
          gid := gid, mode := mode, flags := 1, present := true }
      let (s, saved) := ({ s with metadataValid := true }.setEntry i e).saveMetadata stack
      if !saved then some (s.setEntry i { e with present := false }, none)
      else
        some (s, some { name := name, flags := fsFile, inode := i, uid := uid, gid := gid
                        mask := mode, handlers := .mesafsFile })

/-- `MesaFS::create_dir` -/
def createDir (s : MesaFS) (name : CString) (uid gid mode : U32) (stack : ℕ → U8) :
    Option (MesaFS × Option FsNode) :=
  match s.freeSlot with
  | none => some (s, none)
  | some i =>
    if !name.fits 64 then none
    else
      let e : MesaFSEntry :=
        { name := name, lbaStart := 0, length := 0, uid := uid, gid := gid, mode := mode
          flags := 2, present := true }
      let (s, _) := (s.setEntry i e).saveMetadata stack
      some (s, some { name := name, flags := fsDirectory, inode := i, uid := uid, gid := gid
                      mask := mode, handlers := .mesafsDir })

/-- `MesaFS::finddir` -/
def finddir (s : MesaFS) (name : CString) : Option FsNode :=
  ((List.range maxEntries).find? fun i =>
      (s.entries i).present && decide ((s.entries i).name = name)).map fun i =>
    let e := s.entries i
    { name := e.name, flags := if e.flags = 2 then fsDirectory else fsFile, inode := i
      length := e.length, uid := e.uid, gid := e.gid, mask := e.mode, handlers := .mesafsEntry }

end MesaFS

/-! ### Reading and writing -/

/-- `memcpy` of `n` bytes of `buffer` from index `i` to offset `off` of a sector. -/
def copyInto (sector : ℕ → U8) (off n : ℕ) (buffer : ℕ → U8) (i : ℕ) : ℕ → U8 := fun b =>
  if off ≤ b ∧ b < off + n then buffer (i + (b - off)) else sector b

/-- The local variables of the loop in `write`. -/
structure WriteLoop where
  disk : Disk
  fileOffset : U32
  bytesWritten : U32

def WriteLoop.body (startSector size : U32) (buffer : ℕ → U8) (v : WriteLoop) : WriteLoop :=
  let sectorIndex := v.fileOffset / 512
  let sectorOffset := v.fileOffset % 512
  let sectorBuf := if sectorOffset > 0 ∨ size - v.bytesWritten < 512 then
    readSector v.disk (startSector + sectorIndex) else fun _ => 0
  let toCopy := 512 - sectorOffset
  let toCopy := if size - v.bytesWritten < toCopy then size - v.bytesWritten else toCopy
  let sectorBuf := copyInto sectorBuf sectorOffset.toNat toCopy.toNat buffer v.bytesWritten.toNat
  { disk := writeSector v.disk (startSector + sectorIndex) sectorBuf
    fileOffset := v.fileOffset + toCopy
    bytesWritten := v.bytesWritten + toCopy }

/-- The local variables of the loop in `read`, and what is in the buffer. -/
structure ReadLoop where
  fileOffset : U32
  bytesRead : U32
  buffer : List U8

def ReadLoop.body (d : Disk) (startSector size : U32) (v : ReadLoop) : ReadLoop :=
  let sectorIndex := v.fileOffset / 512
  let sectorOffset := v.fileOffset % 512
  let sectorBuf := readSector d (startSector + sectorIndex)
  let remainingInSector := 512 - sectorOffset
  let toCopy := size - v.bytesRead
  let toCopy := if toCopy > remainingInSector then remainingInSector else toCopy
  { fileOffset := v.fileOffset + toCopy
    bytesRead := v.bytesRead + toCopy
    buffer := v.buffer ++ (List.range toCopy.toNat).map fun j => sectorBuf (sectorOffset.toNat + j) }

namespace MesaFS

/-- `MesaFS::read`: the bytes put into the buffer. -/
def read (s : MesaFS) (node : FsNode) (offset size : U32) : Option (List U8) :=
  let entry := s.entries node.inode
  if offset ≥ entry.length then some []
  else
    let size := if offset + size > entry.length then entry.length - offset else size
    let startSector := s.baseLba + entry.lbaStart
    (whileLoop (fun v => v.bytesRead < size)
      (fun v => some (ReadLoop.body s.disk startSector size v)) (size.toNat + 1)
      { fileOffset := offset, bytesRead := 0, buffer := [] }).map ReadLoop.buffer

/-- The loop of `MesaFS::write`. -/
def writeData (s : MesaFS) (node : FsNode) (offset size : U32) (buffer : ℕ → U8) :
    Option WriteLoop :=
  let startSector := s.baseLba + (s.entries node.inode).lbaStart
  whileLoop (fun v => v.bytesWritten < size)
    (fun v => some (WriteLoop.body startSector size buffer v)) (size.toNat + 1)
    { disk := s.disk, fileOffset := offset, bytesWritten := 0 }

/-- `MesaFS::write`: the new state and the returned size. -/
def write (s : MesaFS) (node : FsNode) (offset size : U32) (buffer stack : ℕ → U8) :
    Option (MesaFS × U32) :=
  (s.writeData node offset size buffer).map fun v =>
    let entry := s.entries node.inode
    let length := if offset + size > entry.length then offset + size else entry.length
    let s := { s with disk := v.disk }.setEntry node.inode { entry with length := length }
    ((s.saveMetadata stack).1, v.bytesWritten)

end MesaFS

/-! ### What the loops do -/

/-- How far the byte at `a` lies behind file offset `offset` of an entry that starts at
sector `lba`; file offsets are 32 bits wide. -/
def distance (lba offset : U32) (a : ℕ) : ℕ :=
  (a - 512 * lba.toNat + (2 ^ 32 - offset.toNat)) % 2 ^ 32

/-- The byte at `a` is among the `n` bytes from file offset `offset` on. -/
def Covers (lba offset : U32) (n a : ℕ) : Prop :=
  512 * lba.toNat ≤ a ∧ a < 512 * lba.toNat + 2 ^ 32 ∧ distance lba offset a < n

instance (lba offset : U32) (n a : ℕ) : Decidable (Covers lba offset n a) :=
  inferInstanceAs (Decidable (_ ∧ _))

/-- The sector of a file offset, counted from the partition's first one. -/
theorem startSector_eq (base lba fileOffset : U32) :
    base + lba + fileOffset / 512 =
      base + BitVec.ofNat 32 (lba.toNat + fileOffset.toNat / 512) := by
  apply BitVec.eq_of_toNat_eq
  rw [BitVec.toNat_add, BitVec.toNat_add, BitVec.toNat_add, BitVec.toNat_ofNat, BitVec.toNat_udiv,
    show (512 : U32).toNat = 512 from rfl]
  omega

/-- The bytes that one iteration of `write` covers follow those covered so far. -/
theorem covers_next (lba offset : U32) {n c a : ℕ} (hn : n + c < 2 ^ 32)
    (hc : c ≤ 512 - (offset.toNat + n) % 2 ^ 32 % 512) :
    Covers lba offset (n + c) a ↔ Covers lba offset n a ∨
      (a / 512 = lba.toNat + (offset.toNat + n) % 2 ^ 32 / 512 ∧
        (offset.toNat + n) % 2 ^ 32 % 512 ≤ a % 512 ∧
        a % 512 < (offset.toNat + n) % 2 ^ 32 % 512 + c) := by
  have := offset.isLt
  unfold Covers distance
  omega

/-- The number of bytes that an iteration copies. -/
theorem toCopy_eq (fileOffset : U32) {size done : U32} (h : done.toNat < size.toNat) :
    (if size - done < 512 - fileOffset % 512 then size - done
      else 512 - fileOffset % 512 : U32).toNat =
      min (size.toNat - done.toNat) (512 - fileOffset.toNat % 512) := by
  have hleft : (size - done).toNat = size.toNat - done.toNat := by
    rw [BitVec.toNat_sub]
    omega
  have hroom : (512 - fileOffset % 512 : U32).toNat = 512 - fileOffset.toNat % 512 := by
    rw [BitVec.toNat_sub, BitVec.toNat_umod, show (512 : U32).toNat = 512 from rfl]
    omega
  rw [toNat_ite_lt, hleft, hroom]

/-- The comparison of `read` goes the other way. -/
theorem toCopyRead_eq (fileOffset : U32) {size done : U32} (h : done.toNat < size.toNat) :
    (if size - done > 512 - fileOffset % 512 then 512 - fileOffset % 512
      else size - done : U32).toNat =
      min (size.toNat - done.toNat) (512 - fileOffset.toNat % 512) := by
  rw [← toCopy_eq _ h]
  by_cases hgt : size - done > 512 - fileOffset % 512
  · rw [if_pos hgt, if_neg (BitVec.not_lt.mpr (BitVec.le_of_lt hgt))]
  · rw [if_neg hgt]
    by_cases heq : size - done < 512 - fileOffset % 512
    · rw [if_pos heq]
    · rw [if_neg heq, BitVec.le_antisymm (BitVec.not_lt.mp hgt) (BitVec.not_lt.mp heq)]

theorem copyInto_congr {buffer buffer' : ℕ → U8} {i n : ℕ}
    (h : ∀ k < n, buffer (i + k) = buffer' (i + k)) (sector : ℕ → U8) (off : ℕ) :
    copyInto sector off n buffer i = copyInto sector off n buffer' i := by
  funext b
  rw [copyInto, copyInto]
  by_cases hb : off ≤ b ∧ b < off + n
  · rw [if_pos hb, if_pos hb]
    exact h _ (by omega)
  · rw [if_neg hb, if_neg hb]

/-- What stands in the buffer behind the bytes that are written does not matter. -/
theorem MesaFS.write_congr (s : MesaFS) (node : FsNode) (offset size : U32)
    {buffer buffer' : ℕ → U8} (h : ∀ k < size.toNat, buffer k = buffer' k) (stack : ℕ → U8) :
    s.write node offset size buffer stack = s.write node offset size buffer' stack := by
  rw [write, write, writeData, writeData]
  refine congrArg (Option.map _) (whileLoop_congr _
    (fun v : WriteLoop => v.bytesWritten.toNat ≤ size.toNat) (fun v hle hlt => ?_) _
    (Nat.zero_le _))
  have hlt' : v.bytesWritten.toNat < size.toNat := BitVec.lt_def.mp (of_decide_eq_true hlt)
  have hcopy := toCopy_eq v.fileOffset hlt'
  have hmin := Nat.min_le_left (size.toNat - v.bytesWritten.toNat) (512 - v.fileOffset.toNat % 512)
  rw [← hcopy] at hmin
  rw [WriteLoop.body, WriteLoop.body]
  constructor
  · rw [copyInto_congr fun k hk => h _ (by omega)]
  · intro t ht
    obtain rfl := Option.some_inj.mp ht
    dsimp only
    rw [BitVec.toNat_add]
    omega

/-- After `v.bytesWritten` bytes: these have been copied, and nothing else has changed. -/
structure WriteLoop.Inv (s : MesaFS) (lba offset size : U32) (buffer : ℕ → U8) (v : WriteLoop) :
    Prop where
  le : v.bytesWritten.toNat ≤ size.toNat
  position : v.fileOffset = offset + v.bytesWritten
  bytes : ∀ a < 512 * 2 ^ 28, byteAt s.baseLba v.disk a =
    if Covers lba offset v.bytesWritten.toNat a then buffer (distance lba offset a)
    else byteAt s.baseLba s.disk a

theorem WriteLoop.inv_body {s : MesaFS} {lba offset size : U32} {buffer : ℕ → U8} {v : WriteLoop}
    (hlba : lba.toNat + 2 ^ 23 ≤ 2 ^ 28) (h : v.Inv s lba offset size buffer)
    (hlt : v.bytesWritten.toNat < size.toNat) :
    (v.body (s.baseLba + lba) size buffer).Inv s lba offset size buffer ∧
      v.bytesWritten.toNat < (v.body (s.baseLba + lba) size buffer).bytesWritten.toNat := by
  have hcopy := toCopy_eq v.fileOffset hlt
  rw [WriteLoop.body]
  dsimp only
  set c : U32 := if size - v.bytesWritten < 512 - v.fileOffset % 512 then size - v.bytesWritten
    else 512 - v.fileOffset % 512 with hc
  have hsum : (v.bytesWritten + c).toNat = v.bytesWritten.toNat + c.toNat := by
    rw [BitVec.toNat_add]
    omega
  have hfile : v.fileOffset.toNat = (offset.toNat + v.bytesWritten.toNat) % 2 ^ 32 := by
    rw [h.position, BitVec.toNat_add]
  have hmod : (v.fileOffset % 512 : U32).toNat = v.fileOffset.toNat % 512 := by
    rw [BitVec.toNat_umod]
    rfl
  refine ⟨⟨by rw [hsum]; omega, ?_, fun a ha => ?_⟩, by rw [hsum]; omega⟩
  · rw [h.position]
    exact BitVec.add_assoc ..
  -- the sector is the one of `fileOffset`, the bytes are the next `c`
  have hnext := covers_next lba offset (n := v.bytesWritten.toNat)
    (c := c.toNat) (a := a) (by omega) (by omega)
  rw [startSector_eq, byteAt_writeSector _ _ _ (by omega) ha, hsum, copyInto, hmod, h.bytes a ha]
  rw [← hfile] at hnext
  by_cases hsector : a / 512 = lba.toNat + v.fileOffset.toNat / 512
  · rw [if_pos hsector]
    by_cases hin : v.fileOffset.toNat % 512 ≤ a % 512 ∧
        a % 512 < v.fileOffset.toNat % 512 + c.toNat
    · rw [if_pos hin, if_pos (hnext.mpr (Or.inr ⟨hsector, hin⟩))]
      refine congrArg buffer ?_
      unfold distance
      omega
    · -- the other bytes of the sector were read from the disk
      rw [if_neg hin]
      have hread : v.fileOffset % 512 > 0 ∨ size - v.bytesWritten < 512 := by
        by_contra hnot
        obtain ⟨hzero, hfull⟩ := not_or.mp hnot
        have hzero' := toNat_le_of_not_lt hzero
        have hfull' : 512 ≤ (size - v.bytesWritten).toNat :=
          toNat_le_of_not_lt hfull
        rw [hmod, show (0 : U32).toNat = 0 from rfl] at hzero'
        rw [BitVec.toNat_sub] at hfull'
        omega
      have hold : readSector v.disk
          (s.baseLba + BitVec.ofNat 32 (lba.toNat + v.fileOffset.toNat / 512)) (a % 512) =
            byteAt s.baseLba v.disk a := by
        rw [byteAt, hsector]
      rw [if_pos hread, hold, h.bytes a ha]
      refine if_congr ?_ rfl rfl
      rw [hnext]
      exact ⟨Or.inl, fun hor => hor.resolve_right fun hw => hin hw.2⟩
  · rw [if_neg hsector]
    refine if_congr ?_ rfl rfl
    rw [hnext]
    exact ⟨Or.inl, fun hor => hor.resolve_right fun hw => hsector hw.1⟩

/-- **The loop of `write` is a copy** to the covered bytes. -/
theorem writeData_spec (s : MesaFS) (node : FsNode) (offset size : U32) (buffer : ℕ → U8)
    (hlba : (s.entries node.inode).lbaStart.toNat + 2 ^ 23 ≤ 2 ^ 28) :
    ∃ v, s.writeData node offset size buffer = some v ∧ v.bytesWritten = size ∧
      ∀ a < 512 * 2 ^ 28, byteAt s.baseLba v.disk a =
        if Covers (s.entries node.inode).lbaStart offset size.toNat a then
          buffer (distance (s.entries node.inode).lbaStart offset a)
        else byteAt s.baseLba s.disk a := by
  set lba := (s.entries node.inode).lbaStart with hlbadef
  obtain ⟨v, hv, hinv, hdone⟩ := whileLoop_spec
    (fun v : WriteLoop => v.bytesWritten < size)
    (fun v => some (WriteLoop.body (s.baseLba + lba) size buffer v))
    (fun v => v.Inv s lba offset size buffer)
    (fun v => size.toNat - v.bytesWritten.toNat)
    (fun v hinv hlt => by
      have hlt' := BitVec.lt_def.mp (of_decide_eq_true hlt)
      obtain ⟨hinv', hmore⟩ := WriteLoop.inv_body hlba hinv hlt'
      exact ⟨_, rfl, hinv', by omega⟩)
    (size.toNat + 1) (s := { disk := s.disk, fileOffset := offset, bytesWritten := 0 })
    ⟨Nat.zero_le _, (BitVec.add_zero _).symm, fun a _ => (if_neg fun h => by
      exact Nat.not_lt_zero _ h.2.2).symm⟩
    (by dsimp only; omega)
  have hsize : v.bytesWritten = size := by
    have hge := toNat_le_of_not_lt (of_decide_eq_false hdone)
    exact BitVec.eq_of_toNat_eq (Nat.le_antisymm hinv.le hge)
  refine ⟨v, hv, hsize, fun a ha => ?_⟩
  rw [hinv.bytes a ha, hsize]

/-- After `v.bytesRead` bytes: these are in the buffer. -/
structure ReadLoop.Inv (s : MesaFS) (lba offset size : U32) (v : ReadLoop) : Prop where
  le : v.bytesRead.toNat ≤ size.toNat
  position : v.fileOffset = offset + v.bytesRead
  bytes : v.buffer = (List.range v.bytesRead.toNat).map fun j =>
    byteAt s.baseLba s.disk (512 * lba.toNat + offset.toNat + j)

theorem ReadLoop.inv_body {s : MesaFS} {lba offset size : U32} {v : ReadLoop}
    (hsum : offset.toNat + size.toNat < 2 ^ 32)
    (h : v.Inv s lba offset size) (hlt : v.bytesRead.toNat < size.toNat) :
    (v.body s.disk (s.baseLba + lba) size).Inv s lba offset size ∧
      v.bytesRead.toNat < (v.body s.disk (s.baseLba + lba) size).bytesRead.toNat := by
  have hcopy := toCopyRead_eq v.fileOffset hlt
  rw [ReadLoop.body]
  dsimp only
  set c : U32 := if size - v.bytesRead > 512 - v.fileOffset % 512 then 512 - v.fileOffset % 512
    else size - v.bytesRead with hc
  have hadd : (v.bytesRead + c).toNat = v.bytesRead.toNat + c.toNat := by
    rw [BitVec.toNat_add]
    omega
  have hfile : v.fileOffset.toNat = offset.toNat + v.bytesRead.toNat := by
    rw [h.position, BitVec.toNat_add]
    omega
  refine ⟨⟨by rw [hadd]; omega, ?_, ?_⟩, by rw [hadd]; omega⟩
  · rw [h.position]
    exact BitVec.add_assoc ..
  · rw [hadd, List.range_add, List.map_append, h.bytes, List.map_map]
    refine congrArg _ (List.map_congr_left fun j hj => ?_)
    have hj' := List.mem_range.mp hj
    have hdiv : (512 * lba.toNat + offset.toNat + (v.bytesRead.toNat + j)) / 512 =
        lba.toNat + v.fileOffset.toNat / 512 := by omega
    have hmod : (512 * lba.toNat + offset.toNat + (v.bytesRead.toNat + j)) % 512 =
        v.fileOffset.toNat % 512 + j := by omega
    rw [startSector_eq, Function.comp_apply, byteAt, hdiv, hmod, BitVec.toNat_umod,
      show (512 : U32).toNat = 512 from rfl]

/-- **A read that does not wrap around** returns the bytes behind the entry's first sector. -/
theorem read_spec (s : MesaFS) (node : FsNode) (offset size : U32)
    (hsum : offset.toNat + size.toNat < 2 ^ 32) :
    s.read node offset size = some ((List.range
      (min size.toNat ((s.entries node.inode).length.toNat - offset.toNat))).map fun j =>
        byteAt s.baseLba s.disk
          (512 * (s.entries node.inode).lbaStart.toNat + offset.toNat + j)) := by
  rw [MesaFS.read]
  dsimp only
  set e := s.entries node.inode with he
  by_cases hoff : offset ≥ e.length
  · have hoff' := BitVec.le_def.mp hoff
    rw [if_pos hoff, Nat.sub_eq_zero_of_le hoff', Nat.min_zero]
    rfl
  rw [if_neg hoff]
  have hoff' := BitVec.lt_def.mp (BitVec.not_le.mp hoff)
  have hadd : (offset + size).toNat = offset.toNat + size.toNat := by
    rw [BitVec.toNat_add]
    omega
  set n : U32 := if offset + size > e.length then e.length - offset else size with hn
  have hn' : n.toNat = min size.toNat (e.length.toNat - offset.toNat) :=
    toNat_clamp (Nat.le_of_lt hoff') hsum
  obtain ⟨v, hv, hinv, hdone⟩ := whileLoop_spec
    (fun v : ReadLoop => v.bytesRead < n)
    (fun v => some (ReadLoop.body s.disk (s.baseLba + e.lbaStart) n v))
    (fun v => v.Inv s e.lbaStart offset n)
    (fun v => n.toNat - v.bytesRead.toNat)
    (fun v hinv hlt => by
      have hlt' := BitVec.lt_def.mp (of_decide_eq_true hlt)
      obtain ⟨hinv', hmore⟩ := ReadLoop.inv_body (by omega) hinv hlt'
      exact ⟨_, rfl, hinv', by omega⟩)
    (n.toNat + 1) (s := { fileOffset := offset, bytesRead := 0, buffer := [] })
    ⟨Nat.zero_le _, (BitVec.add_zero _).symm, rfl⟩
    (by dsimp only; omega)
  have hsize : v.bytesRead = n := by
    have hge := toNat_le_of_not_lt (of_decide_eq_false hdone)
    exact BitVec.eq_of_toNat_eq (Nat.le_antisymm hinv.le hge)
  rw [hv, Option.map_some, hinv.bytes, hsize, hn']

/-- Every read fills the buffer with as many bytes as the clamp leaves, wrapped around or not. -/
theorem length_read (s : MesaFS) (node : FsNode) (offset size : U32)
    (hoff : offset < (s.entries node.inode).length) :
    ∃ l, s.read node offset size = some l ∧
      l.length = (if offset + size > (s.entries node.inode).length then
        (s.entries node.inode).length - offset else size).toNat := by
  rw [MesaFS.read]
  dsimp only
  rw [if_neg (BitVec.not_le.mpr hoff)]
  set e := s.entries node.inode
  set n : U32 := if offset + size > e.length then e.length - offset else size
  obtain ⟨v, hv, ⟨hle, hlength⟩, hdone⟩ := whileLoop_spec
    (fun v : ReadLoop => v.bytesRead < n)
    (fun v => some (ReadLoop.body s.disk (s.baseLba + e.lbaStart) n v))
    (fun v => v.bytesRead.toNat ≤ n.toNat ∧ v.buffer.length = v.bytesRead.toNat)
    (fun v => n.toNat - v.bytesRead.toNat)
    (fun v ⟨hle, hlength⟩ hlt => by
      have hlt' := BitVec.lt_def.mp (of_decide_eq_true hlt)
      have hcopy := toCopyRead_eq v.fileOffset hlt'
      refine ⟨_, rfl, ⟨?_, ?_⟩, ?_⟩
      all_goals
        rw [ReadLoop.body]
        dsimp only
      · rw [BitVec.toNat_add]
        omega
      · rw [List.length_append, List.length_map, List.length_range, BitVec.toNat_add]
        omega
      · rw [BitVec.toNat_add]
        omega)
    (n.toNat + 1) (s := { fileOffset := offset, bytesRead := 0, buffer := [] })
    ⟨Nat.zero_le _, rfl⟩ (by dsimp only; omega)
  refine ⟨v.buffer, by rw [hv, Option.map_some], ?_⟩
  have hge := toNat_le_of_not_lt (of_decide_eq_false hdone)
  rw [hlength]
  omega

end MesaOS.FS
