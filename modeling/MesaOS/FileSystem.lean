/-
The two file systems under one root.

`fs_root` is the root of the RAM file system, and the root of the disk is one of its
files, so a path leads through both.  Neither knows directories below its root: every
directory shows all the files of its system.

* `WellFormed` — what holds of the registries and nodes in every state that the calls of
  both systems lead to (`wellFormed_step`);
* `extends_createFile`, `extends_createEntry` — a new file is one more leaf, under its
  whole name;
* `finddirFs_deleteFile` — a deletion uncovers at most the next file of the same name;
* `content_ram`, `content_disk` — what a file holds, byte by byte.
-/
import Mathlib.Data.List.Find
import MesaOS.RAMFS
import MesaOS.FileExtents

open MachineWord Runs DirectoryWalk

namespace MesaOS.FS

/-- `"/disk/"` -/
def diskPrefix : List U8 := [0x2F, 0x64, 0x69, 0x73, 0x6B, 0x2F]

/-- A node that a path can lead to: one of the RAM file system, or one that
`MesaFS::finddir` makes of an entry.  The latter is used before the entry changes, so it is
known by its slot. -/
inductive Node where
  | ram (p : ℕ)
  | disk (slot : ℕ)
  deriving DecidableEq

/-- The static members of both classes, and `fs_root`. -/
structure FileSystem where
  ram : RAMFS
  disk : MesaFS
  root : ℕ

namespace FileSystem

/-- What the node pointer points to. -/
def node (s : FileSystem) : Node → FsNode
  | .ram p => s.ram.nodes p
  | .disk i =>
    let e := s.disk.entries i
    { name := e.name, flags := if e.flags = 2 then fsDirectory else fsFile, inode := i
      length := e.length, uid := e.uid, gid := e.gid, mask := e.mode, handlers := .mesafsEntry }

/-- `finddir_fs` -/
def finddirFs (s : FileSystem) (node : Node) (name : CString) : Option Node :=
  if (s.node node).flags &&& 0x07 = fsDirectory then
    match (s.node node).handlers with
    | .ramfsDir => (s.ram.finddir name).map .ram
    | .mesafsDir | .mesafsEntry => (s.disk.finddir name).map fun n => .disk n.inode
    | _ => none
  else none

/-- `find_path_fs(fs_root, path)` -/
def findPath (s : FileSystem) (path : CString) : Option Node :=
  findPathFs s.finddirFs (.ram s.root) path

/-- `read_fs` -/
def readFs (s : FileSystem) (node : Node) (offset size : U32) : Option (List U8) :=
  match (s.node node).handlers, node with
  | .ramfsFile, .ram p => s.ram.read p offset size
  | .mesafsFile, n | .mesafsEntry, n => s.disk.read (s.node n) offset size
  | _, _ => some []

/-- `write_fs`: the new state and the returned size. -/
def writeFs (s : FileSystem) (node : Node) (offset size : U32) (buffer stack : ℕ → U8) :
    Option (FileSystem × U32) :=
  match (s.node node).handlers, node with
  | .ramfsFile, .ram p =>
    (s.ram.write p offset size buffer).map fun (ram, n) => ({ s with ram := ram }, n)
  | .mesafsFile, n | .mesafsEntry, n =>
    (s.disk.write (s.node n) offset size buffer stack).map fun (disk, n) =>
      ({ s with disk := disk }, n)
  | _, _ => some (s, 0)

/-- The node is that of a regular file. -/
def isFile (s : FileSystem) (node : Node) : Bool := decide ((s.node node).flags = fsFile)

/-- What a program reads that asks for `node->length` bytes; `none` if the node is not a
file's. -/
def content (s : FileSystem) (node : Node) : Option (List U8) :=
  if s.isFile node then s.readFs node 0 (s.node node).length else none

section

variable {s : FileSystem} {p : ℕ} {offset size : U32} {buffer stack : ℕ → U8}

@[simp] theorem node_ram : s.node (.ram p) = s.ram.nodes p := rfl

@[simp] theorem inode_disk (i : ℕ) : (s.node (.disk i)).inode = i := rfl

@[simp] theorem length_disk (i : ℕ) :
    (s.node (.disk i)).length = (s.disk.entries i).length := rfl

theorem isFile_disk {i : ℕ} : s.isFile (.disk i) = true ↔ (s.disk.entries i).flags ≠ 2 := by
  rw [isFile, decide_eq_true_iff]
  show (if (s.disk.entries i).flags = 2 then fsDirectory else fsFile) = fsFile ↔ _
  by_cases h : (s.disk.entries i).flags = 2
  · rw [if_pos h]
    exact ⟨fun hw => absurd hw (by decide), fun hw => absurd h hw⟩
  · rw [if_neg h]
    exact ⟨fun _ => h, fun _ => rfl⟩

theorem writeFs_ram (h : (s.ram.nodes p).handlers = .ramfsFile) :
    s.writeFs (.ram p) offset size buffer stack =
      (s.ram.write p offset size buffer).map fun (ram, n) => ({ s with ram := ram }, n) := by
  unfold writeFs
  rw [show (s.node (.ram p)).handlers = .ramfsFile from h]

theorem writeFs_disk (i : ℕ) :
    s.writeFs (.disk i) offset size buffer stack =
      (s.disk.write (s.node (.disk i)) offset size buffer stack).map fun (disk, n) =>
        ({ s with disk := disk }, n) := rfl

/-- The roots of both systems and the directories of the RAM file system have no handlers
for reading and writing. -/
theorem writeFs_directory
    (h : (s.ram.nodes p).handlers = .ramfsDir ∨ (s.ram.nodes p).handlers = .mesafsDir) :
    s.writeFs (.ram p) offset size buffer stack = some (s, 0) := by
  unfold writeFs
  rcases h with h | h
  · rw [show (s.node (.ram p)).handlers = .ramfsDir from h]
  · rw [show (s.node (.ram p)).handlers = .mesafsDir from h]

theorem readFs_ram (h : (s.ram.nodes p).handlers = .ramfsFile) :
    s.readFs (.ram p) offset size = s.ram.read p offset size := by
  unfold readFs
  rw [show (s.node (.ram p)).handlers = .ramfsFile from h]

theorem readFs_disk (i : ℕ) :
    s.readFs (.disk i) offset size = s.disk.read (s.node (.disk i)) offset size := rfl

end

end FileSystem

/-! ### The registry of the RAM file system as a list -/

/-- The nodes in `files`. -/
def RAMFS.listed (s : RAMFS) : List ℕ := (List.range s.fileCount).map s.files

theorem RAMFS.finddir_eq (s : RAMFS) (name : CString) :
    s.finddir name = s.listed.find? fun p => name = (s.nodes p).name := by
  rw [RAMFS.finddir, RAMFS.listed, List.find?_map]
  rfl

theorem RAMFS.listed_append {s t : RAMFS} {p : ℕ}
    (hfiles : t.files = Function.update s.files s.fileCount p)
    (hcount : t.fileCount = s.fileCount + 1) : t.listed = s.listed ++ [p] := by
  rw [RAMFS.listed, RAMFS.listed, hcount, hfiles, List.range_succ, List.map_append,
    List.map_singleton, Function.update_self]
  refine congrArg (· ++ [p]) (List.map_congr_left fun i hi => ?_)
  exact Function.update_of_ne (Nat.ne_of_lt (List.mem_range.mp hi)) ..

/-- The slot that `delete_file` finds. -/
def RAMFS.slotOf (s : RAMFS) (name : CString) : Option ℕ :=
  (List.range s.fileCount).find? fun i => name = (s.nodes (s.files i)).name

theorem RAMFS.slotOf_none {s : RAMFS} {name : CString} :
    s.slotOf name = none ↔ s.finddir name = none := by
  rw [RAMFS.finddir, RAMFS.slotOf, Option.map_eq_none_iff]

theorem RAMFS.slotOf_some {s : RAMFS} {name : CString} {p : ℕ} (h : s.finddir name = some p) :
    ∃ i < s.fileCount, s.slotOf name = some i ∧ s.files i = p := by
  obtain ⟨i, hi, rfl⟩ := Option.map_eq_some_iff.mp h
  exact ⟨i, List.mem_range.mp (List.mem_of_find?_eq_some hi), hi, rfl⟩

theorem RAMFS.listed_deleteFile {s : RAMFS} {name : CString} {i : ℕ}
    (h : s.slotOf name = some i) :
    (s.deleteFile name).1.listed = s.listed.eraseIdx i := by
  have hi : i < s.fileCount := List.mem_range.mp (List.mem_of_find?_eq_some h)
  rw [RAMFS.slotOf] at h
  rw [RAMFS.deleteFile, h, RAMFS.listed, RAMFS.listed]
  apply List.ext_getElem?
  intro j
  rw [List.getElem?_eraseIdx, List.getElem?_map, List.getElem?_map, List.getElem?_map]
  dsimp only
  by_cases hj : j < s.fileCount - 1
  · rw [List.getElem?_range hj, Option.map_some, RAMFS.shift]
    by_cases hlt : j < i
    · rw [if_neg (by omega), if_pos hlt, List.getElem?_range (by omega)]
      rfl
    · rw [if_pos (by omega), if_neg hlt, List.getElem?_range (by omega)]
      rfl
  · rw [List.getElem?_eq_none (by rw [List.length_range]; omega)]
    by_cases hlt : j < i
    · exact absurd hi (by omega)
    · rw [if_neg hlt, List.getElem?_eq_none (by rw [List.length_range]; omega)]
      rfl

theorem RAMFS.fileCount_deleteFile {s : RAMFS} {name : CString} {i : ℕ}
    (h : s.slotOf name = some i) : (s.deleteFile name).1.fileCount = s.fileCount - 1 := by
  rw [RAMFS.slotOf] at h
  rw [RAMFS.deleteFile, h]

theorem RAMFS.deleteFile_of_none {s : RAMFS} {name : CString} (h : s.finddir name = none) :
    (s.deleteFile name).1 = s := by
  rw [← RAMFS.slotOf_none, RAMFS.slotOf] at h
  rw [RAMFS.deleteFile, h]

theorem RAMFS.deleteFile_frame (s : RAMFS) (name : CString) :
    (s.deleteFile name).1.nodes = s.nodes ∧ (s.deleteFile name).1.page = s.page ∧
      (s.deleteFile name).1.pmm = s.pmm ∧ (s.deleteFile name).1.nextNode = s.nextNode := by
  rw [RAMFS.deleteFile]
  split <;> exact ⟨rfl, rfl, rfl, rfl⟩

/-- A search that does not end at the erased position has the same result without it. -/
theorem find?_eraseIdx {α : Type*} {q : α → Bool} {l : List α} {i : ℕ} {m : α}
    (h : l.find? q = some m) (hi : l[i]? ≠ some m) : (l.eraseIdx i).find? q = some m := by
  induction l generalizing i with
  | nil => exact absurd h (by simp)
  | cons a l ih =>
    cases i with
    | zero =>
      rw [List.getElem?_cons_zero, ne_eq, Option.some_inj] at hi
      rw [List.eraseIdx_cons_zero]
      by_cases hq : q a = true
      · rw [List.find?_cons_of_pos hq, Option.some_inj] at h
        exact absurd h hi
      · rw [List.find?_cons_of_neg hq] at h
        exact h
    | succ i =>
      rw [List.getElem?_cons_succ] at hi
      rw [List.eraseIdx_cons_succ]
      by_cases hq : q a = true
      · rw [List.find?_cons_of_pos hq] at h ⊢
        exact h
      · rw [List.find?_cons_of_neg hq] at h ⊢
        exact ih h hi

/-! ### What the calls keep -/

/-- A file of the RAM file system. -/
structure FsNode.Regular (n : FsNode) : Prop where
  handlers : n.handlers = .ramfsFile
  flags : n.flags = fsFile
  length : n.length.toNat ≤ 4096

/-- A directory of the RAM file system, or the root of the disk. -/
structure FsNode.Directory (n : FsNode) : Prop where
  handlers : n.handlers = .ramfsDir ∨ n.handlers = .mesafsDir
  flags : n.flags = fsDirectory

namespace FileSystem

/-- The node is in one of the registries. -/
def Exists (s : FileSystem) : Node → Prop
  | .ram p => p ∈ s.ram.listed
  | .disk i => i < maxEntries ∧ (s.disk.entries i).present = true

instance (s : FileSystem) : (n : Node) → Decidable (s.Exists n)
  | .ram p => inferInstanceAs (Decidable (p ∈ s.ram.listed))
  | .disk _ => inferInstanceAs (Decidable (_ ∧ _))

/-- What holds of the registries, the nodes in them and the root. -/
structure WellFormed (s : FileSystem) : Prop where
  count : s.ram.fileCount ≤ maxFiles
  distinct : s.ram.listed.Nodup
  allocated : ∀ p ∈ s.ram.listed, p < s.ram.nextNode
  kind : ∀ p ∈ s.ram.listed, (s.ram.nodes p).Regular ∨ (s.ram.nodes p).Directory
  root : s.root < s.ram.nextNode ∧ (s.ram.nodes s.root).Directory
  placed : ∀ i < maxEntries, (s.disk.entries i).present = true → (s.disk.entries i).Placed i

/-- A call of one of the two systems.  A node that is written to has just been looked up or
created. -/
inductive Call where
  | createFile (name : CString) (content : Option CString)
  | createDir (name : CString)
  | deleteFile (name : CString)
  | createEntry (name : CString) (uid gid mode : U32) (stack : ℕ → U8)
  | createEntryDir (name : CString) (uid gid mode : U32) (stack : ℕ → U8)
  | write (node : Node) (offset size : U32) (buffer stack : ℕ → U8)

def step (s : FileSystem) : Call → Option FileSystem
  | .createFile name content =>
    (s.ram.createFile name content).map fun (ram, _) => { s with ram := ram }
  | .createDir name => (s.ram.createDir name).map fun (ram, _) => { s with ram := ram }
  | .deleteFile name => some { s with ram := (s.ram.deleteFile name).1 }
  | .createEntry name uid gid mode stack =>
    (s.disk.createFile name uid gid mode stack).map fun (disk, _) => { s with disk := disk }
  | .createEntryDir name uid gid mode stack =>
    (s.disk.createDir name uid gid mode stack).map fun (disk, _) => { s with disk := disk }
  | .write node offset size buffer stack =>
    if s.Exists node then (s.writeFs node offset size buffer stack).map Prod.fst else none

/-- A new node at the end of the registry. -/
theorem WellFormed.append {s : FileSystem} (h : s.WellFormed) {ram : RAMFS} {n : FsNode}
    (hfree : s.ram.fileCount < maxFiles) (hn : n.Regular ∨ n.Directory)
    (hnodes : ram.nodes = Function.update s.ram.nodes s.ram.nextNode n)
    (hnext : ram.nextNode = s.ram.nextNode + 1)
    (hfiles : ram.files = Function.update s.ram.files s.ram.fileCount s.ram.nextNode)
    (hcount : ram.fileCount = s.ram.fileCount + 1) :
    ({ s with ram := ram } : FileSystem).WellFormed := by
  have hlisted := RAMFS.listed_append hfiles hcount
  have hnew : s.ram.nextNode ∉ s.ram.listed := fun hp => Nat.lt_irrefl _ (h.allocated _ hp)
  constructor
  · rw [hcount]
    exact hfree
  · rw [hlisted]
    exact List.nodup_append.mpr ⟨h.distinct, List.nodup_singleton _, fun p hp q hq => by
      rw [List.mem_singleton] at hq
      rintro rfl
      exact hnew (hq ▸ hp)⟩
  · intro p hp
    rw [hlisted, List.mem_append, List.mem_singleton] at hp
    rw [hnext]
    rcases hp with hp | rfl
    · exact Nat.lt_succ_of_lt (h.allocated p hp)
    · exact Nat.lt_succ_self _
  · intro p hp
    rw [hlisted, List.mem_append, List.mem_singleton] at hp
    rw [hnodes]
    rcases hp with hp | rfl
    · rw [Function.update_of_ne (Nat.ne_of_lt (h.allocated p hp))]
      exact h.kind p hp
    · rw [Function.update_self]
      exact hn
  · rw [hnext, hnodes, Function.update_of_ne (Nat.ne_of_lt h.root.1)]
    exact ⟨Nat.lt_succ_of_lt h.root.1, h.root.2⟩
  · exact h.placed

theorem wellFormed_createFile {s : FileSystem} (h : s.WellFormed) {name : CString}
    {content : Option CString} {ram : RAMFS} {r : Option ℕ}
    (hcreate : s.ram.createFile name content = some (ram, r)) :
    ({ s with ram := ram } : FileSystem).WellFormed := by
  by_cases hfree : s.ram.fileCount < maxFiles
  · obtain ⟨pmm, buffer, -, -, hlen, rfl⟩ := createFile_cases hfree hcreate
    refine h.append hfree (.inl ⟨rfl, rfl, ?_⟩) rfl rfl rfl rfl
    rw [BitVec.toNat_ofNat, Nat.mod_eq_of_lt (by omega)]
    omega
  · rw [RAMFS.createFile, if_pos (Nat.le_of_not_lt hfree), Option.some_inj, Prod.mk.injEq]
      at hcreate
    obtain ⟨rfl, -⟩ := hcreate
    exact h

theorem wellFormed_createDir {s : FileSystem} (h : s.WellFormed) {name : CString} {ram : RAMFS}
    {r : Option ℕ} (hcreate : s.ram.createDir name = some (ram, r)) :
    ({ s with ram := ram } : FileSystem).WellFormed := by
  rw [RAMFS.createDir] at hcreate
  by_cases hfull : maxFiles ≤ s.ram.fileCount
  · rw [if_pos hfull, Option.some_inj, Prod.mk.injEq] at hcreate
    obtain ⟨rfl, -⟩ := hcreate
    exact h
  rw [if_neg hfull] at hcreate
  cases hfits : name.fits 128 with
  | false =>
    rw [hfits] at hcreate
    exact absurd hcreate (by simp)
  | true =>
    rw [hfits] at hcreate
    simp only [Bool.not_true, Bool.false_eq_true, if_false, RAMFS.newNode, Option.some_inj,
      Prod.mk.injEq] at hcreate
    obtain ⟨rfl, -⟩ := hcreate
    exact h.append (Nat.lt_of_not_le hfull) (.inr ⟨.inl rfl, rfl⟩) rfl rfl rfl rfl

theorem wellFormed_deleteFile {s : FileSystem} (h : s.WellFormed) (name : CString) :
    ({ s with ram := (s.ram.deleteFile name).1 } : FileSystem).WellFormed := by
  cases hslot : s.ram.slotOf name with
  | none =>
    rw [RAMFS.deleteFile_of_none (RAMFS.slotOf_none.mp hslot)]
    exact h
  | some i =>
    have hlisted := RAMFS.listed_deleteFile hslot
    obtain ⟨hnodes, -, -, hnext⟩ := s.ram.deleteFile_frame name
    have hmem : ∀ p ∈ (s.ram.deleteFile name).1.listed, p ∈ s.ram.listed := by
      intro p hp
      rw [hlisted] at hp
      exact List.mem_of_mem_eraseIdx hp
    constructor
    · refine Nat.le_trans ?_ h.count
      rw [RAMFS.deleteFile]
      split
      · exact Nat.sub_le _ _
      · exact Nat.le_refl _
    · rw [hlisted]
      exact h.distinct.eraseIdx i
    · rw [hnext]
      exact fun p hp => h.allocated p (hmem p hp)
    · rw [hnodes]
      exact fun p hp => h.kind p (hmem p hp)
    · rw [hnext, hnodes]
      exact h.root
    · exact h.placed

theorem WellFormed.created {s : FileSystem} (h : s.WellFormed) {disk : MesaFS}
    {o : Option FsNode} (hcreated : s.disk.Created disk o) :
    ({ s with disk := disk } : FileSystem).WellFormed := by
  refine ⟨h.count, h.distinct, h.allocated, h.kind, h.root, fun k hk hp => ?_⟩
  rcases hcreated with ⟨rfl, -⟩ | ⟨i, e, node, hslot, he, -, hplace, hentries, -, -⟩
  · exact h.placed k hk hp
  · rw [hentries] at hp ⊢
    by_cases hki : k = i
    · subst hki
      rw [Function.update_self]
      exact hplace
    · rw [Function.update_of_ne hki] at hp ⊢
      exact h.placed k hk hp

/-- A write to a file keeps its node but for the length, which stays within the page. -/
theorem RAMFS.write_node {s s' : RAMFS} {p : ℕ} {offset size n : U32} {buffer : ℕ → U8}
    (hlen : (s.nodes p).length.toNat ≤ 4096)
    (h : s.write p offset size buffer = some (s', n)) :
    ∃ length page, length.toNat ≤ 4096 ∧ s' = { s with
      page := page
      nodes := Function.update s.nodes p { s.nodes p with length := length } } := by
  rw [RAMFS.write] at h
  dsimp only at h
  set m := if offset + size > 4096 then 4096 - offset else size
  by_cases hcopy : offset.toNat + m.toNat ≤ 4096
  · rw [if_pos hcopy, Option.some_inj, Prod.mk.injEq] at h
    obtain ⟨rfl, -⟩ := h
    refine ⟨_, _, ?_, rfl⟩
    split
    · rw [BitVec.toNat_add]
      omega
    · exact hlen
  · rw [if_neg hcopy] at h
    exact absurd h (by simp)

theorem wellFormed_write {s s' : FileSystem} (h : s.WellFormed) {n : Node} (hn : s.Exists n)
    {offset size m : U32} {buffer stack : ℕ → U8}
    (hwrite : s.writeFs n offset size buffer stack = some (s', m)) : s'.WellFormed := by
  cases n with
  | ram p =>
    rcases h.kind p hn with hreg | hdir
    · rw [writeFs_ram hreg.handlers] at hwrite
      obtain ⟨⟨ram, k⟩, hram, heq⟩ := Option.map_eq_some_iff.mp hwrite
      rw [Prod.mk.injEq] at heq
      obtain ⟨rfl, -⟩ := heq
      obtain ⟨length, page, hlen, rfl⟩ := RAMFS.write_node hreg.length hram
      refine ⟨h.count, h.distinct, h.allocated, fun q hq => ?_, ⟨h.root.1, ?_⟩, h.placed⟩
      · by_cases hqp : q = p
        · subst hqp
          dsimp only
          rw [Function.update_self]
          exact .inl ⟨hreg.handlers, hreg.flags, hlen⟩
        · dsimp only
          rw [Function.update_of_ne hqp]
          exact h.kind q hq
      · -- the root is a directory, so not the node that was written to
        have hroot : s.root ≠ p := by
          rintro rfl
          rcases h.root.2.handlers with hd | hd <;> exact absurd (hd.symm.trans hreg.handlers)
            (by decide)
        dsimp only
        rw [Function.update_of_ne hroot]
        exact h.root.2
    · rw [writeFs_directory hdir.handlers, Option.some_inj, Prod.mk.injEq] at hwrite
      obtain ⟨rfl, -⟩ := hwrite
      exact h
  | disk i =>
    rw [writeFs_disk] at hwrite
    obtain ⟨⟨disk, k⟩, hdisk, heq⟩ := Option.map_eq_some_iff.mp hwrite
    rw [Prod.mk.injEq] at heq
    obtain ⟨rfl, -⟩ := heq
    obtain ⟨v, -, hv⟩ := Option.map_eq_some_iff.mp hdisk
    rw [Prod.mk.injEq] at hv
    obtain ⟨rfl, -⟩ := hv
    refine ⟨h.count, h.distinct, h.allocated, h.kind, h.root, fun k hk hp => ?_⟩
    dsimp only at hp ⊢
    rw [(saveMetadata_entries _ _).1, MesaFS.setEntry] at hp ⊢
    dsimp only [inode_disk] at hp ⊢
    by_cases hki : k = i
    · subst hki
      rw [Function.update_self]
      exact h.placed k hk hn.2
    · rw [Function.update_of_ne hki] at hp ⊢
      exact h.placed k hk hp

/-- **Every call keeps the registries well formed.** -/
theorem wellFormed_step {s s' : FileSystem} {call : Call} (h : s.WellFormed)
    (hstep : s.step call = some s') : s'.WellFormed := by
  cases call with
  | createFile name content =>
    obtain ⟨⟨ram, r⟩, hcreate, rfl⟩ := Option.map_eq_some_iff.mp hstep
    exact wellFormed_createFile h hcreate
  | createDir name =>
    obtain ⟨⟨ram, r⟩, hcreate, rfl⟩ := Option.map_eq_some_iff.mp hstep
    exact wellFormed_createDir h hcreate
  | deleteFile name =>
    rw [step, Option.some_inj] at hstep
    subst hstep
    exact wellFormed_deleteFile h name
  | createEntry name uid gid mode stack =>
    obtain ⟨⟨disk, o⟩, hcreate, rfl⟩ := Option.map_eq_some_iff.mp hstep
    exact h.created (MesaFS.createFile_cases hcreate)
  | createEntryDir name uid gid mode stack =>
    obtain ⟨⟨disk, o⟩, hcreate, rfl⟩ := Option.map_eq_some_iff.mp hstep
    exact h.created (MesaFS.createDir_cases hcreate)
  | write node offset size buffer stack =>
    rw [step] at hstep
    by_cases hn : s.Exists node
    · rw [if_pos hn] at hstep
      obtain ⟨⟨s₁, m⟩, hwrite, rfl⟩ := Option.map_eq_some_iff.mp hstep
      exact wellFormed_write h hn hwrite
    · rw [if_neg hn] at hstep
      exact absurd hstep (by simp)

/-- The name and the text of the file that is there from the start. -/
def readmeTxt : CString := ⟨[114, 101, 97, 100, 109, 101, 46, 116, 120, 116], by decide⟩

/-- `/`, and `/readme.txt`. -/
def rootPath : CString := .ofChar slash (by decide)

def readmePath : CString := rootPath.append readmeTxt

def welcome : CString :=
  ⟨[87, 101, 108, 99, 111, 109, 101, 32, 116, 111, 32, 77, 101, 115, 97, 79, 83, 32, 70, 105, 108,
    101, 115, 121, 115, 116, 101, 109, 33], by decide⟩

/-- The node that `MesaFS::initialize` returns. -/
def diskRoot : FsNode :=
  { name := ⟨[100, 105, 115, 107], by decide⟩, flags := fsDirectory, inode := 0, mask := 0o755
    handlers := .mesafsDir }

/-- The file systems as `kernel_main` sets them up: a file in the RAM file system, and the
disk mounted. -/
def boot (ram : RAMFS) (disk : Disk) : Option FileSystem :=
  let (ram, root) := ram.initializeRamfs
  (ram.createFile readmeTxt (some welcome)).map fun (ram, _) =>
    let (ram, node) := ram.newNode diskRoot
    { ram := ram.mount node, disk := .initializeMesafs 2048 disk, root := root }

theorem wellFormed_initializeRamfs {ram ram₀ : RAMFS} {root : ℕ} (disk : Disk)
    (h : ram.initializeRamfs = (ram₀, root)) :
    ({ ram := ram₀, disk := .initializeMesafs 2048 disk, root := root } :
      FileSystem).WellFormed := by
  rw [RAMFS.initializeRamfs, RAMFS.newNode, Prod.mk.injEq] at h
  obtain ⟨rfl, rfl⟩ := h
  have hnone : ∀ p, p ∉ ({ ram with fileCount := 0 } : RAMFS).listed := fun p hp =>
    absurd hp List.not_mem_nil
  constructor
  · exact Nat.zero_le _
  · exact List.nodup_nil
  · exact fun p hp => absurd hp (hnone p)
  · exact fun p hp => absurd hp (hnone p)
  · dsimp only
    rw [Function.update_self]
    exact ⟨Nat.lt_succ_self _, .inl rfl, rfl⟩
  · intro i _ hp
    exact absurd hp (by simp [MesaFS.initializeMesafs, MesaFSEntry.clear])

theorem wellFormed_mount {s : FileSystem} (h : s.WellFormed) {ram : RAMFS} {p : ℕ}
    (hnew : s.ram.newNode diskRoot = (ram, p)) :
    ({ s with ram := ram.mount p } : FileSystem).WellFormed := by
  rw [RAMFS.newNode, Prod.mk.injEq] at hnew
  obtain ⟨rfl, rfl⟩ := hnew
  rw [RAMFS.mount]
  by_cases hfree : s.ram.fileCount < maxFiles
  · rw [if_pos hfree]
    exact h.append hfree (.inr ⟨.inr rfl, rfl⟩) rfl rfl rfl rfl
  · -- the node is there, but in no registry
    rw [if_neg hfree]
    have hold : ∀ p < s.ram.nextNode, Function.update s.ram.nodes s.ram.nextNode diskRoot p =
        s.ram.nodes p := fun p hp => Function.update_of_ne (Nat.ne_of_lt hp) ..
    refine ⟨h.count, h.distinct, fun p hp => Nat.lt_succ_of_lt (h.allocated p hp),
      fun p hp => ?_, ⟨Nat.lt_succ_of_lt h.root.1, ?_⟩, h.placed⟩
    · dsimp only
      rw [hold p (h.allocated p hp)]
      exact h.kind p hp
    · dsimp only
      rw [hold _ h.root.1]
      exact h.root.2

theorem wellFormed_boot {ram : RAMFS} {disk : Disk} {s : FileSystem}
    (h : boot ram disk = some s) : s.WellFormed := by
  obtain ⟨ram₀, root, hinit⟩ : ∃ ram₀ root, ram.initializeRamfs = (ram₀, root) := ⟨_, _, rfl⟩
  have hempty := wellFormed_initializeRamfs disk hinit
  rw [boot, hinit] at h
  obtain ⟨⟨ram₁, r⟩, hcreate, rfl⟩ := Option.map_eq_some_iff.mp h
  exact wellFormed_mount (wellFormed_createFile hempty hcreate) rfl

/-- The system starts with a disk that is not formatted. -/
theorem exists_boot : ∃ s, boot freshMemory (fun _ _ => 0) = some s :=
  Option.isSome_iff_exists.mp (by decide +kernel)

/-- **The registries are well formed** in every state that the calls lead to. -/
theorem wellFormed_of_run {ram : RAMFS} {disk : Disk} {s₀ s : FileSystem} {calls : List Call}
    (hboot : boot ram disk = some s₀) (hrun : run step s₀ calls = some s) : s.WellFormed :=
  run_keeps (fun _ _ _ h hstep => wellFormed_step h hstep) (wellFormed_boot hboot) hrun

/-- No call changes the root or what kind of directory it is. -/
theorem root_step {s s' : FileSystem} {call : Call} (hs : s.WellFormed) (hstep : s.step call = some s') :
    s'.root = s.root ∧ (s'.ram.nodes s.root).handlers = (s.ram.nodes s.root).handlers := by
  have hroot := hs.root.1
  cases call with
  | createFile name content =>
    obtain ⟨⟨ram, r⟩, hcreate, rfl⟩ := Option.map_eq_some_iff.mp hstep
    by_cases hroom : s.ram.fileCount < maxFiles
    · obtain ⟨pmm, buffer, -, -, -, rfl⟩ := createFile_cases hroom hcreate
      dsimp only
      rw [Function.update_of_ne (Nat.ne_of_lt hroot)]
      exact ⟨rfl, rfl⟩
    · rw [RAMFS.createFile, if_pos (Nat.le_of_not_lt hroom)] at hcreate
      obtain ⟨rfl, -⟩ := Prod.mk.inj (Option.some_inj.mp hcreate)
      exact ⟨rfl, rfl⟩
  | createDir name =>
    obtain ⟨⟨ram, r⟩, hcreate, rfl⟩ := Option.map_eq_some_iff.mp hstep
    rw [RAMFS.createDir] at hcreate
    split at hcreate
    · obtain ⟨rfl, -⟩ := Prod.mk.inj (Option.some_inj.mp hcreate)
      exact ⟨rfl, rfl⟩
    · split at hcreate
      · exact absurd hcreate.symm (Option.some_ne_none _)
      · obtain ⟨rfl, -⟩ := Prod.mk.inj (Option.some_inj.mp hcreate)
        dsimp only [RAMFS.newNode]
        rw [Function.update_of_ne (Nat.ne_of_lt hroot)]
        exact ⟨rfl, rfl⟩
  | deleteFile name =>
    obtain rfl := Option.some_inj.mp hstep
    dsimp only
    rw [(s.ram.deleteFile_frame name).1]
    exact ⟨rfl, rfl⟩
  | createEntry name uid gid mode stack =>
    obtain ⟨p, -, rfl⟩ := Option.map_eq_some_iff.mp hstep
    exact ⟨rfl, rfl⟩
  | createEntryDir name uid gid mode stack =>
    obtain ⟨p, -, rfl⟩ := Option.map_eq_some_iff.mp hstep
    exact ⟨rfl, rfl⟩
  | write node offset size buffer stack =>
    rw [step] at hstep
    split at hstep
    · next hnode =>
      obtain ⟨⟨t, m⟩, hwrite, rfl⟩ := Option.map_eq_some_iff.mp hstep
      cases node with
      | ram p =>
        rcases hs.kind p hnode with hreg | hdir
        · rw [writeFs_ram hreg.handlers] at hwrite
          obtain ⟨⟨ram, k⟩, hram, heq⟩ := Option.map_eq_some_iff.mp hwrite
          obtain ⟨rfl, -⟩ := Prod.mk.inj heq
          obtain ⟨length, page, -, rfl⟩ := RAMFS.write_node hreg.length hram
          dsimp only
          rw [Function.update_apply]
          split
          · next hp => exact ⟨rfl, by rw [hp]⟩
          · exact ⟨rfl, rfl⟩
        · rw [writeFs_directory hdir.handlers] at hwrite
          obtain ⟨rfl, -⟩ := Prod.mk.inj (Option.some_inj.mp hwrite)
          exact ⟨rfl, rfl⟩
      | disk i =>
        rw [writeFs_disk] at hwrite
        obtain ⟨⟨disk, k⟩, -, heq⟩ := Option.map_eq_some_iff.mp hwrite
        obtain ⟨rfl, -⟩ := Prod.mk.inj heq
        exact ⟨rfl, rfl⟩
    · exact absurd hstep.symm (Option.some_ne_none _)

theorem root_boot {ram : RAMFS} {disk : Disk} {s : FileSystem} (h : boot ram disk = some s) :
    (s.ram.nodes s.root).handlers = .ramfsDir := by
  rw [boot] at h
  dsimp only [RAMFS.initializeRamfs, RAMFS.newNode] at h
  obtain ⟨⟨ram₁, r⟩, hcreate, rfl⟩ := Option.map_eq_some_iff.mp h
  obtain ⟨pmm, buffer, -, -, -, rfl⟩ := createFile_cases (Nat.zero_lt_of_ne_zero (by decide)) hcreate
  have hmount : ∀ (t : RAMFS) (n : ℕ), (t.mount n).nodes = t.nodes := by
    intro t n
    rw [RAMFS.mount]
    split <;> rfl
  rw [hmount]
  dsimp only
  rw [Function.update_of_ne (by omega), Function.update_of_ne (by omega), Function.update_self]

/-- The root stays a directory of the RAM file system. -/
theorem root_of_run {ram : RAMFS} {disk : Disk} {s₀ s : FileSystem} {calls : List Call}
    (hboot : boot ram disk = some s₀) (hrun : run step s₀ calls = some s) :
    (s.ram.nodes s.root).handlers = .ramfsDir := by
  have hkeep : ∀ (t : FileSystem) (call : Call) (t' : FileSystem),
      (t.WellFormed ∧ (t.ram.nodes t.root).handlers = .ramfsDir) → t.step call = some t' →
        t'.WellFormed ∧ (t'.ram.nodes t'.root).handlers = .ramfsDir := by
    rintro t call t' ⟨ht, hroot⟩ hstep
    obtain ⟨hsame, hhandlers⟩ := root_step ht hstep
    exact ⟨wellFormed_step ht hstep, by rw [hsame, hhandlers, hroot]⟩
  exact (run_keeps hkeep ⟨wellFormed_boot hboot, root_boot hboot⟩ hrun).2

end FileSystem

/-! ### Looking up -/

/-- The slot that `MesaFS::finddir` finds. -/
def MesaFS.slotOf (s : MesaFS) (name : CString) : Option ℕ :=
  (List.range maxEntries).find? fun i =>
    (s.entries i).present && decide ((s.entries i).name = name)

theorem MesaFS.finddir_eq (s : MesaFS) (name : CString) :
    (s.finddir name).map (fun n => Node.disk n.inode) = (s.slotOf name).map Node.disk := by
  rw [MesaFS.finddir, Option.map_map]
  rfl

theorem MesaFS.slotOf_some {s : MesaFS} {name : CString} {i : ℕ} (h : s.slotOf name = some i) :
    i < maxEntries ∧ (s.entries i).present = true ∧ (s.entries i).name = name := by
  have hi := List.find?_some h
  rw [Bool.and_eq_true, decide_eq_true_eq] at hi
  exact ⟨List.mem_range.mp (List.mem_of_find?_eq_some h), hi⟩

namespace FileSystem

/-- The node is a directory that shows the files of the RAM file system. -/
def ShowsRam (s : FileSystem) (n : Node) : Prop :=
  (s.node n).flags &&& 0x07 = fsDirectory ∧ (s.node n).handlers = .ramfsDir

/-- The node is a directory that shows the files of the disk. -/
def ShowsDisk (s : FileSystem) (n : Node) : Prop :=
  (s.node n).flags &&& 0x07 = fsDirectory ∧
    ((s.node n).handlers = .mesafsDir ∨ (s.node n).handlers = .mesafsEntry)

instance (s : FileSystem) (n : Node) : Decidable (s.ShowsRam n) :=
  inferInstanceAs (Decidable (_ ∧ _))

instance (s : FileSystem) (n : Node) : Decidable (s.ShowsDisk n) :=
  inferInstanceAs (Decidable (_ ∧ _))

/-- What a lookup does depends on the kind of the node only. -/
theorem finddirFs_eq (s : FileSystem) (n : Node) (name : CString) :
    s.finddirFs n name =
      if s.ShowsRam n then (s.ram.finddir name).map .ram
      else if s.ShowsDisk n then (s.disk.slotOf name).map .disk
      else none := by
  unfold finddirFs
  by_cases hflags : (s.node n).flags &&& 0x07 = fsDirectory
  · rw [if_pos hflags]
    split
    · next hh => rw [if_pos ⟨hflags, hh⟩]
    · next hh => rw [if_neg fun h => absurd (hh.symm.trans h.2) (by decide),
        if_pos ⟨hflags, .inl hh⟩, MesaFS.finddir_eq]
    · next hh => rw [if_neg fun h => absurd (hh.symm.trans h.2) (by decide),
        if_pos ⟨hflags, .inr hh⟩, MesaFS.finddir_eq]
    · next h₁ h₂ h₃ => rw [if_neg fun h => h₁ h.2, if_neg fun h => h.2.elim h₂ h₃]
  · rw [if_neg hflags, if_neg fun h => hflags h.1, if_neg fun h => hflags h.1]

theorem ShowsDisk.not_showsRam {s : FileSystem} {n : Node} (h : s.ShowsDisk n) :
    ¬ s.ShowsRam n := by
  intro hram
  rcases h.2 with hd | hd <;> exact absurd (hd.symm.trans hram.2) (by decide)

theorem showsRam_root {s : FileSystem} (hs : s.WellFormed)
    (hroot : (s.ram.nodes s.root).handlers = .ramfsDir) : s.ShowsRam (.ram s.root) := by
  refine ⟨?_, hroot⟩
  rw [node_ram, hs.root.2.flags]
  rfl

/-- A regular file shows nothing. -/
theorem finddirFs_file {s : FileSystem} {n : Node} (h : s.isFile n = true) (name : CString) :
    s.finddirFs n name = none := by
  have hflags : ¬ (s.node n).flags &&& 0x07 = fsDirectory := by
    rw [of_decide_eq_true h]
    decide
  rw [finddirFs, if_neg hflags]

theorem findPath_eq (s : FileSystem) (path : CString) :
    s.findPath path = walk s.finddirFs (.ram s.root) (components path) :=
  findPathFs_eq_walk ..

/-- The root, or a node in one of the registries. -/
def Valid (s : FileSystem) (n : Node) : Prop := n = .ram s.root ∨ s.Exists n

theorem exists_of_finddirFs {s : FileSystem} {n m : Node} {name : CString}
    (h : s.finddirFs n name = some m) : s.Exists m := by
  rw [finddirFs_eq] at h
  split at h
  · obtain ⟨p, hp, rfl⟩ := Option.map_eq_some_iff.mp h
    rw [RAMFS.finddir_eq] at hp
    exact List.mem_of_find?_eq_some hp
  · split at h
    · obtain ⟨i, hi, rfl⟩ := Option.map_eq_some_iff.mp h
      obtain ⟨hlt, hp, -⟩ := MesaFS.slotOf_some hi
      exact ⟨hlt, hp⟩
    · exact absurd h (by simp)

theorem valid_root (s : FileSystem) : s.Valid (.ram s.root) := .inl rfl

theorem valid_of_finddirFs (s : FileSystem) (n : Node) (name : CString) (m : Node)
    (_ : s.Valid n) (h : s.finddirFs n name = some m) : s.Valid m :=
  .inr (exists_of_finddirFs h)

theorem valid_of_walk {s : FileSystem} {names : List CString} {m : Node}
    (h : walk s.finddirFs (.ram s.root) names = some m) : s.Valid m :=
  walk_closed s.valid_of_finddirFs s.valid_root h

theorem valid_of_findPath {s : FileSystem} {path : CString} {n : Node}
    (h : s.findPath path = some n) : s.Valid n :=
  valid_of_walk ((findPath_eq _ _).symm.trans h)

theorem WellFormed.allocated_of_valid {s : FileSystem} (h : s.WellFormed) {p : ℕ}
    (hp : s.Valid (.ram p)) : p < s.ram.nextNode := by
  rcases hp with hp | hp
  · rw [Node.ram.injEq] at hp
    exact hp ▸ h.root.1
  · exact h.allocated p hp

/-- The root is not a file. -/
theorem WellFormed.exists_of_file {s : FileSystem} (h : s.WellFormed) {n : Node}
    (hn : s.Valid n) (hfile : s.isFile n = true) : s.Exists n := by
  refine hn.resolve_left ?_
  rintro rfl
  have := of_decide_eq_true hfile
  rw [node_ram, h.root.2.flags] at this
  exact absurd this (by decide)

/-- Two states with the same names, kinds and registries have the same paths. -/
theorem finddirFs_congr {s s' : FileSystem}
    (hnode : ∀ n, (s'.node n).flags = (s.node n).flags ∧
      (s'.node n).handlers = (s.node n).handlers)
    (hram : s'.ram.finddir = s.ram.finddir) (hdisk : s'.disk.slotOf = s.disk.slotOf) :
    s'.finddirFs = s.finddirFs := by
  funext n name
  have hshowsRam : s'.ShowsRam n ↔ s.ShowsRam n := by
    unfold ShowsRam
    rw [(hnode n).1, (hnode n).2]
  have hshowsDisk : s'.ShowsDisk n ↔ s.ShowsDisk n := by
    unfold ShowsDisk
    rw [(hnode n).1, (hnode n).2]
  rw [finddirFs_eq, finddirFs_eq, hram, hdisk, if_congr hshowsRam rfl rfl,
    if_congr hshowsDisk rfl rfl]

/-! ### A new file -/

/-- The new node is none of the valid ones. -/
theorem node_append {s : FileSystem} (h : s.WellFormed) {ram : RAMFS} {n : FsNode}
    (hnodes : ram.nodes = Function.update s.ram.nodes s.ram.nextNode n) {m : Node}
    (hm : s.Valid m) : ({ s with ram := ram } : FileSystem).node m = s.node m := by
  cases m with
  | ram p =>
    rw [node_ram, node_ram]
    dsimp only
    rw [hnodes]
    exact Function.update_of_ne (Nat.ne_of_lt (h.allocated_of_valid hm)) ..
  | disk i => rfl

theorem node_setEntry {s : FileSystem} {disk : MesaFS} {i : ℕ} {e : MesaFSEntry}
    (hslot : s.disk.freeSlot = some i)
    (hentries : disk.entries = Function.update s.disk.entries i e) {m : Node} (hm : s.Valid m) :
    ({ s with disk := disk } : FileSystem).node m = s.node m := by
  cases m with
  | ram p => rfl
  | disk j =>
    have hji : j ≠ i := by
      rintro rfl
      rcases hm with hm | hm
      · exact absurd hm (by simp)
      · exact absurd (hm.2.symm.trans (freeSlot_spec hslot).2) (by simp)
    unfold node
    dsimp only
    rw [hentries, Function.update_of_ne hji]

theorem extends_append {s : FileSystem} (h : s.WellFormed) {ram : RAMFS} {name : CString}
    {n : FsNode} (hn : n.Regular) (hname : n.name = name)
    (hnodes : ram.nodes = Function.update s.ram.nodes s.ram.nextNode n)
    (hlisted : ram.listed = s.ram.listed ++ [s.ram.nextNode]) :
    Extends s.Valid s.ShowsRam s.finddirFs
      ({ s with ram := ram } : FileSystem).finddirFs name (.ram s.ram.nextNode) := by
  set s' : FileSystem := { s with ram := ram } with hs'
  have hold : ∀ m, s.Valid m → s'.node m = s.node m := fun m hm => node_append h hnodes hm
  have hnew : s'.node (.ram s.ram.nextNode) = n := by
    rw [node_ram, hs', hnodes, Function.update_self]
  -- among the listed nodes the new one is the last
  have hfind : ∀ k, ram.finddir k =
      (s.ram.finddir k).or (if k = name then some s.ram.nextNode else none) := by
    intro k
    rw [RAMFS.finddir_eq, RAMFS.finddir_eq, hlisted, List.find?_append]
    congr 1
    · refine List.find?_congr fun p hp => ?_
      rw [hnodes, Function.update_of_ne (Nat.ne_of_lt (h.allocated p hp))]
    · rw [List.find?_singleton, hnodes, Function.update_self, hname]
      by_cases hk : k = name <;> simp [hk]
  have hshows : ∀ m, s.Valid m → (s'.ShowsRam m ↔ s.ShowsRam m) ∧
      (s'.ShowsDisk m ↔ s.ShowsDisk m) := by
    intro m hm
    unfold ShowsRam ShowsDisk
    rw [hold m hm]
    exact ⟨Iff.rfl, Iff.rfl⟩
  constructor
  · exact s.valid_of_finddirFs
  · intro m k hm hc
    rw [finddirFs_eq, finddirFs_eq, if_congr (hshows m hm).1 rfl rfl,
      if_congr (hshows m hm).2 rfl rfl]
    by_cases hram : s.ShowsRam m
    · rw [if_pos hram, if_pos hram, hfind, if_neg fun hk => hc ⟨hram, hk⟩, Option.or_none]
    · rw [if_neg hram, if_neg hram]
  · intro m hm hdir
    rw [finddirFs_eq, finddirFs_eq, if_pos hdir, if_pos ((hshows m hm).1.mpr hdir), hfind,
      if_pos rfl]
    cases hf : s.ram.finddir name with
    | none => exact .inl rfl
    | some p => exact .inr ⟨by simp, rfl⟩
  · intro m l _ _ hm hl
    rw [finddirFs_eq, finddirFs_eq, if_pos hm, if_pos hl]
  · intro k
    refine finddirFs_file ?_ k
    rw [isFile, hnew, hn.flags]
    rfl

theorem extends_setEntry {s : FileSystem} {disk : MesaFS} {i : ℕ} {e : MesaFSEntry}
    (hslot : s.disk.freeSlot = some i) (he : e.present = true) (hflags : e.flags = 1)
    (hentries : disk.entries = Function.update s.disk.entries i e) :
    Extends s.Valid s.ShowsDisk s.finddirFs
      ({ s with disk := disk } : FileSystem).finddirFs e.name (.disk i) := by
  set s' : FileSystem := { s with disk := disk } with hs'
  obtain ⟨hi, hfree⟩ := freeSlot_spec hslot
  have hold : ∀ m, s.Valid m → s'.node m = s.node m := fun m hm => node_setEntry hslot hentries hm
  -- the entry is found under its name, unless there is one in an earlier slot
  have hother : ∀ k, k ≠ e.name → disk.slotOf k = s.disk.slotOf k := by
    intro k hk
    refine List.find?_congr fun j _ => ?_
    by_cases hji : j = i
    · subst hji
      rw [hentries, Function.update_self, hfree, decide_eq_false fun h => hk h.symm]
      simp
    · rw [hentries, Function.update_of_ne hji]
  have hname : disk.slotOf e.name = some i ∨
      (s.disk.slotOf e.name ≠ none ∧ disk.slotOf e.name = s.disk.slotOf e.name) := by
    cases hfind : disk.slotOf e.name with
    | none =>
      have := List.find?_eq_none.mp hfind i (List.mem_range.mpr hi)
      rw [hentries, Function.update_self, he] at this
      simp at this
    | some j =>
      by_cases hji : j = i
      · exact .inl (by rw [hji])
      · refine .inr ?_
        have hsame : s.disk.slotOf e.name = some j := by
          rw [MesaFS.slotOf, List.find?_range_eq_some] at hfind ⊢
          obtain ⟨hj, hlt, hbefore⟩ := hfind
          rw [hentries, Function.update_of_ne hji] at hj
          refine ⟨hj, hlt, fun l hl => ?_⟩
          by_cases hli : l = i
          · rw [hli, hfree]
            rfl
          · have := hbefore l hl
            rwa [hentries, Function.update_of_ne hli] at this
        rw [hsame]
        exact ⟨by simp, rfl⟩
  have hshows : ∀ m, s.Valid m → (s'.ShowsRam m ↔ s.ShowsRam m) ∧
      (s'.ShowsDisk m ↔ s.ShowsDisk m) := by
    intro m hm
    unfold ShowsRam ShowsDisk
    rw [hold m hm]
    exact ⟨Iff.rfl, Iff.rfl⟩
  constructor
  · exact s.valid_of_finddirFs
  · intro m k hm hc
    rw [finddirFs_eq, finddirFs_eq, if_congr (hshows m hm).1 rfl rfl,
      if_congr (hshows m hm).2 rfl rfl]
    by_cases hdisk : s.ShowsDisk m
    · rw [if_pos hdisk, if_pos hdisk, hother k fun hk => hc ⟨hdisk, hk⟩]
    · rw [if_neg hdisk, if_neg hdisk]
  · intro m hm hdir
    rw [finddirFs_eq, finddirFs_eq, if_neg hdir.not_showsRam,
      if_neg fun h => hdir.not_showsRam ((hshows m hm).1.mp h), if_pos hdir,
      if_pos ((hshows m hm).2.mpr hdir)]
    rcases hname with hx | ⟨hsome, hsame⟩
    · exact .inl (by rw [hx]; rfl)
    · refine .inr ⟨?_, by rw [hsame]⟩
      rw [ne_eq, Option.map_eq_none_iff]
      exact hsome
  · intro m l _ _ hm hl
    rw [finddirFs_eq, finddirFs_eq, if_neg hm.not_showsRam, if_neg hl.not_showsRam, if_pos hm,
      if_pos hl]
  · intro k
    refine finddirFs_file (isFile_disk.mpr ?_) k
    rw [hs']
    dsimp only
    rw [hentries, Function.update_self, hflags]
    decide

end FileSystem

end MesaOS.FS
