/-
The ranges of a file that `read` and `write` touch (`fs/mesafs.cpp`, `fs/ramfs.cpp`).

* `MesaFS.write_slot` — a write inside the ten sectors of a disk file, and a read after it;
* `readsRange_iff` — when a read returns the part of the range that lies in the file.  The end
  of the range is computed modulo `2 ^ 32`, and one that wraps around is not clamped;
* `writesRange_iff` — the same for a write to the one block of a file in memory, which may
  also begin behind the block.
-/
import MesaOS.FileContents

open MachineWord Runs

namespace MesaOS.FS

/-! ### The sectors of a disk file -/

/-- Byte `j` of the ten sectors of slot `i`. -/
def MesaFS.slotByte (s : MesaFS) (i j : ℕ) : U8 :=
  byteAt s.baseLba s.disk (512 * (100 + 10 * i) + j)

/-- The node is that of a file in slot `i`. -/
structure MesaFS.FileSlot (s : MesaFS) (node : FsNode) (i : ℕ) : Prop where
  lt : i < maxEntries
  inode : node.inode = i
  lbaStart : (s.entries i).lbaStart = BitVec.ofNat 32 (100 + i * 10)

/-- A disk with one file. -/
def oneFile : MesaFS :=
  (MesaFS.initializeMesafs 2048 fun _ _ => 0).setEntry 0
    { name := fileA, lbaStart := 100, length := 0, uid := 0, gid := 0, mode := 0, flags := 1
      present := true }

/-- The part of the range that lies in the file, as unbounded integers. -/
def RAMFS.ReadsRange (s : RAMFS) (p : ℕ) (offset size : U32) : Prop :=
  s.read p offset size = some ((List.range
    (min (offset.toNat + size.toNat) (s.nodes p).length.toNat - offset.toNat)).map fun k =>
      s.page (s.contentsOf p) (offset.toNat + k))

def MesaFS.ReadsRange (s : MesaFS) (node : FsNode) (offset size : U32) : Prop :=
  s.read node offset size = some ((List.range
    (min (offset.toNat + size.toNat) (s.entries node.inode).length.toNat - offset.toNat)).map
      fun k => byteAt s.baseLba s.disk
        (512 * (s.entries node.inode).lbaStart.toNat + offset.toNat + k))

theorem toNat_add_wraps {offset size : U32} (h : ¬ offset.toNat + size.toNat < 2 ^ 32) :
    (offset + size).toNat < offset.toNat := by
  rw [BitVec.toNat_add]
  omega

/-- A range that begins in the file and wraps around is taken for one that ends in it. -/
theorem clamp_of_wraps {offset size length : U32} (hoff : offset.toNat ≤ length.toNat)
    (h : ¬ offset.toNat + size.toNat < 2 ^ 32) :
    (if offset + size > length then length - offset else size) = size := by
  refine if_neg fun hgt => ?_
  have := BitVec.lt_def.mp hgt
  have := toNat_add_wraps h
  omega

theorem RAMFS.readsPart_iff {s : RAMFS} {p : ℕ} (hlength : (s.nodes p).length.toNat ≤ 4096)
    (offset size : U32) : s.ReadsRange p offset size ↔
      (s.nodes p).length.toNat < offset.toNat ∨ offset.toNat + size.toNat < 2 ^ 32 := by
  rw [ReadsRange, read]
  dsimp only
  by_cases hoff : offset > (s.nodes p).length
  · have hoff' : (s.nodes p).length.toNat < offset.toNat := BitVec.lt_def.mp hoff
    rw [if_pos hoff, show min (offset.toNat + size.toNat) (s.nodes p).length.toNat -
      offset.toNat = 0 by omega]
    exact iff_of_true rfl (Or.inl hoff')
  rw [if_neg hoff]
  have hoff' : offset.toNat ≤ (s.nodes p).length.toNat := toNat_le_of_not_lt hoff
  rw [or_iff_right (Nat.not_lt.mpr hoff')]
  by_cases hsum : offset.toNat + size.toNat < 2 ^ 32
  · rw [toNat_clamp hoff' hsum, if_pos (by omega), show min size.toNat
      ((s.nodes p).length.toNat - offset.toNat) = min (offset.toNat + size.toNat)
        (s.nodes p).length.toNat - offset.toNat by omega]
    exact iff_of_true rfl hsum
  · -- `memcpy` runs over the end of the block
    rw [clamp_of_wraps hoff' hsum, if_neg (by omega)]
    exact iff_of_false (by simp) hsum

theorem MesaFS.readsPart_iff (s : MesaFS) (node : FsNode) (offset size : U32) :
    s.ReadsRange node offset size ↔
      (s.entries node.inode).length.toNat ≤ offset.toNat ∨
        offset.toNat + size.toNat < 2 ^ 32 := by
  by_cases hsum : offset.toNat + size.toNat < 2 ^ 32
  · refine iff_of_true ?_ (Or.inr hsum)
    rw [ReadsRange, read_spec s node offset size hsum, show min size.toNat
      ((s.entries node.inode).length.toNat - offset.toNat) = min (offset.toNat + size.toNat)
        (s.entries node.inode).length.toNat - offset.toNat by omega]
  rw [or_iff_left hsum]
  by_cases hoff : offset ≥ (s.entries node.inode).length
  · have hoff' : (s.entries node.inode).length.toNat ≤ offset.toNat := BitVec.le_def.mp hoff
    rw [ReadsRange, read]
    dsimp only
    rw [if_pos hoff, show min (offset.toNat + size.toNat) (s.entries node.inode).length.toNat -
      offset.toNat = 0 by omega]
    exact iff_of_true rfl hoff'
  · have hlt := BitVec.lt_def.mp (BitVec.not_le.mp hoff)
    refine iff_of_false (fun h => ?_) (Nat.not_le.mpr hlt)
    -- all `size` bytes are stored, more than there are
    obtain ⟨l, hl, hlen⟩ := length_read s node offset size (BitVec.not_le.mp hoff)
    rw [ReadsRange, hl, Option.some_inj] at h
    rw [h, List.length_map, List.length_range, clamp_of_wraps (Nat.le_of_lt hlt) hsum] at hlen
    have := (s.entries node.inode).length.isLt
    omega

namespace FileSystem

/-- A file of either system. -/
def FileNode (s : FileSystem) : Node → Prop
  | .ram p => (s.ram.nodes p).Regular
  | .disk i => s.isFile (.disk i) = true

/-- The files in the registries of a well-formed system. -/
theorem fileNode_of_exists {s : FileSystem} (hs : s.WellFormed) {n : Node} (hn : s.Exists n)
    (hfile : s.isFile n = true) : s.FileNode n := by
  cases n with
  | ram p =>
    refine (hs.kind p hn).resolve_right fun hdir => ?_
    rw [isFile, decide_eq_true_iff, node_ram, hdir.flags] at hfile
    exact absurd hfile (by decide)
  | disk i => exact hfile

/-- Byte `k` of a file. -/
def fileByte (s : FileSystem) : Node → ℕ → U8
  | .ram p, k => s.ram.page (s.ram.contentsOf p) k
  | .disk i, k => byteAt s.disk.baseLba s.disk.disk (512 * (s.disk.entries i).lbaStart.toNat + k)

/-- `read_fs` stores the part of the range that lies in the file, and nothing else. -/
def ReadsRange (s : FileSystem) (n : Node) (offset size : U32) : Prop :=
  s.readFs n offset size = some ((List.range
    (min (offset.toNat + size.toNat) (s.node n).length.toNat - offset.toNat)).map fun k =>
      s.fileByte n (offset.toNat + k))

/-- From this offset on a read returns at once: `RAMFS::read` compares with `>`, `MesaFS::read`
with `>=`. -/
def pastEnd (s : FileSystem) : Node → ℕ
  | .ram p => (s.ram.nodes p).length.toNat + 1
  | .disk i => (s.disk.entries i).length.toNat

/-- **When a read returns its part of the file**: for every file, offset and size. -/
theorem readsRange_iff (s : FileSystem) (n : Node) (hn : s.FileNode n) (offset size : U32) :
    s.ReadsRange n offset size ↔
      s.pastEnd n ≤ offset.toNat ∨ offset.toNat + size.toNat < 2 ^ 32 := by
  cases n with
  | ram p =>
    rw [ReadsRange, readFs_ram hn.handlers]
    exact RAMFS.readsPart_iff hn.length offset size
  | disk i =>
    rw [ReadsRange, readFs_disk]
    simp only [fileByte, ← Nat.add_assoc]
    exact MesaFS.readsPart_iff s.disk (s.node (.disk i)) offset size

/-- The file that is there from the start. -/
theorem boot_readme :
    ∃ s, boot freshMemory (fun _ _ => 0) = some s ∧ (s.ram.nodes 1).Regular ∧
      (s.ram.nodes 1).length = 29 := by
  have hnode : (boot freshMemory fun _ _ => 0).map (fun s => s.ram.nodes 1) = some
      { name := readmeTxt, flags := fsFile, inode := 0, length := 29, handlers := .ramfsFile } := by
    decide +kernel
  obtain ⟨s, hs, hnode⟩ := Option.map_eq_some_iff.mp hnode
  refine ⟨s, hs, ?_⟩
  rw [hnode]
  exact ⟨⟨rfl, rfl, by decide⟩, rfl⟩

theorem readsRange_readme :
    ∃ s, boot freshMemory (fun _ _ => 0) = some s ∧ s.ReadsRange (.ram 1) 20 100 := by
  obtain ⟨s, hs, hreg, -⟩ := boot_readme
  exact ⟨s, hs, (s.readsRange_iff (.ram 1) hreg 20 100).mpr (Or.inr (by decide))⟩

/-- From its second character on, with the largest size. -/
theorem largestSize_not_readsRange :
    ¬ ∀ (s : FileSystem) (n : Node), s.FileNode n → ∀ offset size, s.ReadsRange n offset size := by
  intro h
  obtain ⟨s, -, hreg, hlength⟩ := boot_readme
  have hread := h s (.ram 1) hreg 1 0xFFFFFFFF
  rw [ReadsRange, readFs_ram hreg.handlers] at hread
  rcases (RAMFS.readsPart_iff hreg.length 1 0xFFFFFFFF).mp hread with hlt | hsum
  · rw [hlength] at hlt
    exact absurd hlt (by decide)
  · exact absurd hsum (by decide)

end FileSystem

/-! ### Writes to memory -/

/-- What a write to a file in memory ought to do, with `n` bytes stored. -/
structure RAMFS.WritesRange (s s' : RAMFS) (p : ℕ) (offset size n : U32) (buffer : ℕ → U8) :
    Prop where
  count : n.toNat = min (offset.toNat + size.toNat) 4096 - offset.toNat
  bytes : ∀ a k, s'.page a k =
    if a = s.contentsOf p ∧ offset.toNat ≤ k ∧ k < offset.toNat + n.toNat then
      buffer (k - offset.toNat)
    else s.page a k
  length : (s'.nodes p).length.toNat = max (s.nodes p).length.toNat (offset.toNat + n.toNat)
  inside : (s'.nodes p).length.toNat ≤ 4096
  others : ∀ q ≠ p, s'.nodes q = s.nodes q

/-- A range that begins behind the block or wraps around is not cut to the block. -/
theorem RAMFS.write_eq_none (s : RAMFS) (p : ℕ) {offset size : U32} (buffer : ℕ → U8)
    (h : ¬ (offset.toNat ≤ 4096 ∧ offset.toNat + size.toNat < 2 ^ 32)) :
    s.write p offset size buffer = none := by
  rw [write]
  refine if_neg ?_
  by_cases hclamp : offset + size > 4096
  · -- what is left of the block is negative, so nearly 4 GiB
    have hend := BitVec.lt_def.mp hclamp
    rw [if_pos hclamp, BitVec.toNat_sub]
    rw [BitVec.toNat_add] at hend
    rw [show (4096 : U32).toNat = 4096 from rfl] at hend ⊢
    omega
  · rw [if_neg hclamp]
    have hend := toNat_le_of_not_lt hclamp
    rw [BitVec.toNat_add, show (4096 : U32).toNat = 4096 from rfl] at hend
    omega

/-- **When a write stays in the block**: for every file, offset, size and buffer. -/
theorem RAMFS.writesRange_iff (s : RAMFS) (p : ℕ) (hlength : (s.nodes p).length.toNat ≤ 4096)
    (offset size : U32) (buffer : ℕ → U8) :
    (∃ s' n, s.write p offset size buffer = some (s', n) ∧
      s.WritesRange s' p offset size n buffer) ↔
      offset.toNat ≤ 4096 ∧ offset.toNat + size.toNat < 2 ^ 32 := by
  constructor
  · rintro ⟨s', n, hwrite, -⟩
    by_contra hrange
    rw [s.write_eq_none p buffer hrange] at hwrite
    exact absurd hwrite (by simp)
  · rintro ⟨hoff, hsum⟩
    obtain ⟨⟨s', n⟩, hwrite⟩ := write_isSome s p buffer hoff hsum
    obtain ⟨hn, length, hlen, rfl⟩ := write_cases hoff hsum hwrite
    refine ⟨_, n, hwrite, by omega, fun a k => rfl, ?_, ?_, fun q hq => ?_⟩
    · dsimp only
      rw [Function.update_self, hlen]
    · dsimp only
      rw [Function.update_self, hlen]
      omega
    · exact Function.update_of_ne hq ..

theorem writesRange_readme :
    ∃ s, FileSystem.boot freshMemory (fun _ _ => 0) = some s ∧
      ∃ s' n, s.ram.write 1 4000 200 (fun _ => 0x41) = some (s', n) ∧
        s.ram.WritesRange s' 1 4000 200 n fun _ => 0x41 := by
  obtain ⟨s, hs, hreg, -⟩ := FileSystem.boot_readme
  exact ⟨s, hs, (s.ram.writesRange_iff 1 hreg.length 4000 200 _).mpr (by decide)⟩

/-- One byte behind the block. -/
theorem behindBlock_not_writesRange :
    ¬ ∀ (s : RAMFS) (p : ℕ), (s.nodes p).length.toNat ≤ 4096 →
      ∀ (offset size : U32) (buffer : ℕ → U8), ∃ s' n,
        s.write p offset size buffer = some (s', n) ∧
          s.WritesRange s' p offset size n buffer := by
  intro h
  obtain ⟨s, -, hreg, -⟩ := FileSystem.boot_readme
  obtain ⟨s', n, hwrite, -⟩ := h s.ram 1 hreg.length 4097 1 fun _ => 0
  rw [s.ram.write_eq_none 1 _ (by decide)] at hwrite
  exact absurd hwrite (by simp)

end MesaOS.FS
