/-
What the directories of both file systems list and find.

`readdir` numbers the entries and stops at the first free slot, `finddir` goes through all
slots.  They agree because the occupied slots are the first ones: the RAM file system
shifts its arrays, and the disk, which deletes nothing, always fills the first free slot
(`Packed`).  Seen as a list of names and entries, a directory grows at its end and loses
the first entry of a name.

* `enumerates_of_run` — `readdir` lists what `finddir` finds;
* `unique_iff_of_run` — the runs in which the names stay distinct and `finddir` returns the
  entry that was created last.
-/
import Mathlib.Data.List.Sigma
import MesaOS.FileSystem

open MachineWord Runs

namespace MesaOS.FS

/-- `struct dirent` -/
structure Dirent where
  name : CString
  ino : ℕ
  deriving DecidableEq

/-- `RAMFS::readdir` -/
def RAMFS.readdir (s : RAMFS) (index : ℕ) : Option Dirent :=
  if s.fileCount ≤ index then none
  else some { name := (s.nodes (s.files index)).name, ino := (s.nodes (s.files index)).inode }

/-- `MesaFS::readdir` -/
def MesaFS.readdir (s : MesaFS) (index : ℕ) : Option Dirent :=
  if maxEntries ≤ index then none
  else if !(s.entries index).present then none
  else some { name := (s.entries index).name, ino := index }

/-- What `while ((de = readdir_fs(dir, i)) != 0) i++` goes through. -/
def enumerate (readdir : ℕ → Option Dirent) : ℕ → ℕ → Option (List Dirent)
  | 0, _ => none
  | fuel + 1, i =>
    match readdir i with
    | none => some []
    | some de => (enumerate readdir fuel (i + 1)).map (de :: ·)

theorem enumerate_eq {readdir : ℕ → Option Dirent} {n : ℕ} {f : ℕ → Dirent}
    (hsome : ∀ i < n, readdir i = some (f i)) (hnone : readdir n = none) :
    enumerate readdir (n + 1) 0 = some ((List.range n).map f) := by
  have hrest : ∀ k ≤ n, enumerate readdir (k + 1) (n - k) =
      some ((List.range' (n - k) k).map f) := by
    intro k
    induction k with
    | zero =>
      intro _
      rw [enumerate, Nat.sub_zero, hnone]
      rfl
    | succ k ih =>
      intro hk
      have hnext : n - (k + 1) + 1 = n - k := by omega
      rw [enumerate, hsome _ (by omega), hnext, ih (by omega), List.range'_succ, hnext]
      rfl
  have h := hrest n le_rfl
  rwa [Nat.sub_self, ← List.range_eq_range'] at h

/-! ### Directories as lists -/

/-- The names in a directory, each with its entry. -/
abbrev Directory := List (Σ _ : CString, ℕ)

/-- The directory in which `p` is found under the name `f p`. -/
def directoryOf (f : ℕ → CString) (l : List ℕ) : Directory := l.map fun p => ⟨f p, p⟩

theorem dlookup_directoryOf (f : ℕ → CString) (l : List ℕ) (name : CString) :
    (directoryOf f l).dlookup name = l.find? fun p => name = f p := by
  induction l with
  | nil => rfl
  | cons p l ih =>
    rw [directoryOf, List.map_cons]
    by_cases hname : name = f p
    · subst hname
      rw [List.dlookup_cons_eq]
      exact (List.find?_cons_of_pos (p := fun q => decide (f p = f q)) (decide_eq_true rfl)).symm
    · rw [List.find?_cons_of_neg (by simpa using hname), ← ih]
      exact List.dlookup_cons_ne _ _ hname

theorem keys_directoryOf (f : ℕ → CString) (l : List ℕ) : (directoryOf f l).keys = l.map f := by
  rw [directoryOf, List.keys, List.map_map]
  rfl

/-- The names in the order of the slots. -/
def RAMFS.names (s : RAMFS) : List CString := s.listed.map fun p => (s.nodes p).name

def RAMFS.directory (s : RAMFS) : Directory := directoryOf (fun p => (s.nodes p).name) s.listed

theorem RAMFS.keys_directory (s : RAMFS) : s.directory.keys = s.names := keys_directoryOf _ _

theorem RAMFS.finddir_eq_dlookup (s : RAMFS) (name : CString) :
    s.finddir name = s.directory.dlookup name := by
  rw [RAMFS.finddir_eq, RAMFS.directory, dlookup_directoryOf]

/-- The slots that are present. -/
def MesaFS.listed (s : MesaFS) : List ℕ :=
  (List.range maxEntries).filter fun i => (s.entries i).present

def MesaFS.names (s : MesaFS) : List CString := s.listed.map fun i => (s.entries i).name

def MesaFS.directory (s : MesaFS) : Directory := directoryOf (fun i => (s.entries i).name) s.listed

theorem MesaFS.keys_directory (s : MesaFS) : s.directory.keys = s.names := keys_directoryOf _ _

theorem MesaFS.finddir_eq_dlookup (s : MesaFS) (name : CString) :
    (s.finddir name).map FsNode.inode = s.directory.dlookup name := by
  rw [MesaFS.directory, dlookup_directoryOf, MesaFS.listed, List.find?_filter, MesaFS.finddir,
    Option.map_map]
  refine Option.map_id'.trans (List.find?_congr fun i _ => ?_)
  rw [decide_eq_decide.mpr (eq_comm (a := name)), Bool.decide_and, Bool.decide_eq_true,
    Bool.decide_eq_true]

/-- The first `n` slots are the ones in use. -/
def MesaFS.Packed (s : MesaFS) : Prop :=
  ∃ n ≤ maxEntries, ∀ i < maxEntries, (s.entries i).present = decide (i < n)

theorem MesaFS.listed_of_present {s : MesaFS} {n : ℕ} (hn : n ≤ maxEntries)
    (hpresent : ∀ i < maxEntries, (s.entries i).present = decide (i < n)) :
    s.listed = List.range n := by
  have hsplit : List.range' 0 (n + (maxEntries - n)) =
      List.range n ++ List.range' n (maxEntries - n) := by
    rw [← List.range'_append_1, Nat.zero_add, List.range_eq_range']
  rw [Nat.add_sub_cancel' hn, ← List.range_eq_range'] at hsplit
  have hfirst : (List.range n).filter (fun i => (s.entries i).present) = List.range n := by
    refine List.filter_eq_self.mpr fun i hi => ?_
    have hi' := List.mem_range.mp hi
    rw [hpresent i (by omega)]
    exact decide_eq_true hi'
  have hrest : (List.range' n (maxEntries - n)).filter (fun i => (s.entries i).present) = [] := by
    refine List.filter_eq_nil_iff.mpr fun i hi => ?_
    obtain ⟨hle, hlt⟩ := List.mem_range'_1.mp hi
    rw [hpresent i (by omega), decide_eq_true_eq]
    omega
  rw [MesaFS.listed, hsplit, List.filter_append, hfirst, hrest, List.append_nil]

theorem MesaFS.freeSlot_of_present {s : MesaFS} {n : ℕ}
    (hpresent : ∀ i < maxEntries, (s.entries i).present = decide (i < n)) :
    s.freeSlot = if n < maxEntries then some n else none := by
  rw [MesaFS.freeSlot]
  by_cases hlt : n < maxEntries
  · rw [if_pos hlt, List.find?_range_eq_some]
    refine ⟨?_, List.mem_range.mpr hlt, fun i hi => ?_⟩
    · rw [hpresent n hlt, decide_eq_false (Nat.lt_irrefl n)]
      rfl
    · rw [hpresent i (by omega), decide_eq_true hi]
      rfl
  · rw [if_neg hlt]
    refine List.find?_eq_none.mpr fun i hi => ?_
    have hi' := List.mem_range.mp hi
    rw [hpresent i hi', decide_eq_true (by omega : i < n)]
    simp

theorem packed_initialize (base : U32) (disk : Disk) :
    (MesaFS.initializeMesafs base disk).Packed :=
  ⟨0, Nat.zero_le _, fun _ _ => rfl⟩

/-! ### Calls -/

/-- A call that creates, mounts or deletes.  A node to be mounted is made first, by whoever
calls `mount`. -/
inductive DirectoryCall where
  | createFile (name : CString) (content : Option CString)
  | createDir (name : CString)
  | newNode (node : FsNode)
  | mount (node : ℕ)
  | deleteFile (name : CString)
  | createEntry (name : CString) (uid gid mode : U32) (stack : ℕ → U8)
  | createEntryDir (name : CString) (uid gid mode : U32) (stack : ℕ → U8)

/-- Both file systems, and beside them the entry that was created last under each name, as
long as the name has not been deleted. -/
structure Directories where
  ram : RAMFS
  disk : MesaFS
  lastRam : CString → Option ℕ
  lastDisk : CString → Option ℕ

/-- The record of what was created last, after a creation with this result. -/
def record (last : CString → Option ℕ) (name : CString) : Option ℕ → CString → Option ℕ
  | none => last
  | some p => Function.update last name (some p)

namespace Directories

/-- The state after `RAMFS::initialize` and `MesaFS::initialize`. -/
def start (ram : RAMFS) (base : U32) (disk : Disk) : Directories :=
  { ram := ram.initializeRamfs.1, disk := .initializeMesafs base disk, lastRam := fun _ => none
    lastDisk := fun _ => none }

def step (t : Directories) : DirectoryCall → Option Directories
  | .createFile name content =>
    (t.ram.createFile name content).map fun (ram, r) =>
      { t with ram := ram, lastRam := record t.lastRam name r }
  | .createDir name =>
    (t.ram.createDir name).map fun (ram, r) =>
      { t with ram := ram, lastRam := record t.lastRam name r }
  | .newNode node => some { t with ram := (t.ram.newNode node).1 }
  | .mount node =>
    if node < t.ram.nextNode then
      some
        { t with
          ram := t.ram.mount node
          lastRam := record t.lastRam (t.ram.nodes node).name
            (if t.ram.fileCount < maxFiles then some node else none) }
    else none
  | .deleteFile name =>
    some
      { t with
        ram := (t.ram.deleteFile name).1
        lastRam := if (t.ram.deleteFile name).2 then Function.update t.lastRam name none
          else t.lastRam }
  | .createEntry name uid gid mode stack =>
    (t.disk.createFile name uid gid mode stack).map fun (disk, r) =>
      { t with disk := disk, lastDisk := record t.lastDisk name (r.map FsNode.inode) }
  | .createEntryDir name uid gid mode stack =>
    (t.disk.createDir name uid gid mode stack).map fun (disk, r) =>
      { t with disk := disk, lastDisk := record t.lastDisk name (r.map FsNode.inode) }

end Directories

/-- What a creation comes to in a system that has no room, for a name that is too long, and
otherwise. -/
inductive Creation {σ : Type*} (s : σ) (full fits : Prop) (Added : σ → ℕ → Prop) :
    Option (σ × Option ℕ) → Prop
  | full (h : full) : Creation s full fits Added (some (s, none))
  | long (h : ¬ full) (hlong : ¬ fits) : Creation s full fits Added none
  | added (h : ¬ full) (hfits : fits) (s' : σ) (p : ℕ) (hadded : Added s' p) :
    Creation s full fits Added (some (s', some p))

/-- The nodes in the registry exist. -/
def RAMFS.Allocated (s : RAMFS) : Prop := ∀ p ∈ s.listed, p < s.nextNode

/-- The registry has one more entry, at its end. -/
def RAMFS.Adds (s : RAMFS) (name : CString) (s' : RAMFS) (p : ℕ) : Prop :=
  s'.Allocated ∧ s'.directory = s.directory ++ [⟨name, p⟩]

def MesaFS.Adds (s : MesaFS) (name : CString) (s' : MesaFS) (i : ℕ) : Prop :=
  s'.Packed ∧ s'.directory = s.directory ++ [⟨name, i⟩]

/-- A node that is made is in no directory. -/
theorem RAMFS.directory_newNode {s : RAMFS} (halloc : s.Allocated) (node : FsNode) :
    (s.newNode node).1.directory = s.directory := by
  refine List.map_congr_left fun p hp => ?_
  dsimp only [newNode]
  rw [Function.update_of_ne (Nat.ne_of_lt (halloc p hp))]

theorem RAMFS.allocated_newNode {s : RAMFS} (halloc : s.Allocated) (node : FsNode) :
    (s.newNode node).1.Allocated := fun p hp => Nat.lt_succ_of_lt (halloc p hp)

/-- A node at the end of the registry. -/
theorem RAMFS.adds_of_eq {s s' : RAMFS} (halloc : s.Allocated) {p : ℕ} {name : CString}
    (hold : ∀ q ∈ s.listed, s'.nodes q = s.nodes q) (hnew : (s'.nodes p).name = name)
    (hp : p < s'.nextNode) (hnext : s.nextNode ≤ s'.nextNode)
    (hfiles : s'.files = Function.update s.files s.fileCount p)
    (hcount : s'.fileCount = s.fileCount + 1) : s.Adds name s' p := by
  have hlisted := listed_append hfiles hcount
  constructor
  · intro q hq
    rw [hlisted, List.mem_append, List.mem_singleton] at hq
    rcases hq with hq | rfl
    · exact Nat.lt_of_lt_of_le (halloc q hq) hnext
    · exact hp
  · rw [directory, directory, directoryOf, hlisted, List.map_append, List.map_singleton, hnew]
    refine congrArg (· ++ _) (List.map_congr_left fun q hq => ?_)
    rw [hold q hq]

/-- A node that is made for its name. -/
theorem RAMFS.adds_of_newNode {s s' : RAMFS} (halloc : s.Allocated) (node : FsNode)
    (hnodes : s'.nodes = Function.update s.nodes s.nextNode node)
    (hnext : s'.nextNode = s.nextNode + 1)
    (hfiles : s'.files = Function.update s.files s.fileCount s.nextNode)
    (hcount : s'.fileCount = s.fileCount + 1) : s.Adds node.name s' s.nextNode := by
  refine adds_of_eq halloc (fun q hq => ?_) ?_ (by omega) (by omega) hfiles hcount
  · rw [hnodes, Function.update_of_ne (Nat.ne_of_lt (halloc q hq))]
  · rw [hnodes, Function.update_self]

theorem RAMFS.creation_createFile {s : RAMFS} (halloc : s.Allocated) (name : CString)
    (content : Option CString) :
    Creation s (maxFiles ≤ s.fileCount)
      (name.fits 128 = true ∧ ((content.map CString.bytes).getD []).length < 4096) (s.Adds name)
      (s.createFile name content) := by
  rw [createFile]
  by_cases hfull : maxFiles ≤ s.fileCount
  · rw [if_pos hfull]
    exact .full hfull
  rw [if_neg hfull]
  cases hfits : name.fits 128 with
  | false =>
    rw [Bool.not_false, if_pos rfl]
    exact .long hfull fun h => absurd h.1 Bool.false_ne_true
  | true =>
    rw [Bool.not_true, if_neg Bool.false_ne_true]
    dsimp only
    by_cases hlong : 4096 ≤ ((content.map CString.bytes).getD []).length
    · rw [if_pos hlong]
      exact .long hfull fun h => absurd h.2 (Nat.not_lt.mpr hlong)
    · rw [if_neg hlong]
      obtain ⟨pmm, buffer⟩ := s.pmm.allocateBlock
      exact .added hfull ⟨rfl, Nat.lt_of_not_le hlong⟩ _ _
        (adds_of_newNode halloc
          { name := name, flags := fsFile, inode := s.fileCount
            length := BitVec.ofNat 32 ((content.map CString.bytes).getD []).length
            handlers := .ramfsFile } rfl rfl rfl rfl)

theorem RAMFS.creation_createDir {s : RAMFS} (halloc : s.Allocated) (name : CString) :
    Creation s (maxFiles ≤ s.fileCount) (name.fits 128 = true) (s.Adds name) (s.createDir name) := by
  rw [createDir]
  by_cases hfull : maxFiles ≤ s.fileCount
  · rw [if_pos hfull]
    exact .full hfull
  rw [if_neg hfull]
  cases hfits : name.fits 128 with
  | false =>
    rw [Bool.not_false, if_pos rfl]
    exact .long hfull Bool.false_ne_true
  | true =>
    rw [Bool.not_true, if_neg Bool.false_ne_true]
    exact .added hfull rfl _ _ (adds_of_newNode halloc
      { name := name, flags := fsDirectory, inode := 0, handlers := .ramfsDir } rfl rfl rfl rfl)

theorem RAMFS.creation_mount {s : RAMFS} (halloc : s.Allocated) {node : ℕ}
    (hnode : node < s.nextNode) :
    Creation s (maxFiles ≤ s.fileCount) True (s.Adds (s.nodes node).name)
      (some (s.mount node, if s.fileCount < maxFiles then some node else none)) := by
  rw [mount]
  by_cases hfree : s.fileCount < maxFiles
  · rw [if_pos hfree, if_pos hfree]
    exact .added (Nat.not_le.mpr hfree) trivial _ _
      (adds_of_eq halloc (fun q _ => rfl) rfl hnode le_rfl rfl rfl)
  · rw [if_neg hfree, if_neg hfree]
    exact .full (Nat.le_of_not_lt hfree)

/-- An entry in the first free slot. -/
theorem MesaFS.adds_of_eq {s s' : MesaFS} (hpacked : s.Packed) {i : ℕ}
    (hslot : s.freeSlot = some i) {e : MesaFSEntry} (he : e.present = true)
    (hentries : s'.entries = Function.update s.entries i e) : s.Adds e.name s' i := by
  obtain ⟨n, hn, hpresent⟩ := hpacked
  have hfree := freeSlot_of_present hpresent
  have hlt : n < maxEntries := by
    by_contra hle
    rw [if_neg hle, hslot] at hfree
    exact absurd hfree nofun
  rw [if_pos hlt, hslot, Option.some_inj] at hfree
  subst hfree
  have hpacked' : ∀ j < maxEntries, (s'.entries j).present = decide (j < i + 1) := by
    intro j hj
    rw [hentries]
    by_cases hji : j = i
    · rw [hji, Function.update_self, he]
      exact (decide_eq_true (Nat.lt_succ_self i)).symm
    · rw [Function.update_of_ne hji, hpresent j hj]
      exact decide_eq_decide.mpr (by omega)
  refine ⟨⟨i + 1, hlt, hpacked'⟩, ?_⟩
  rw [directory, directory, directoryOf, directoryOf,
    listed_of_present hlt hpacked', listed_of_present hn hpresent, List.range_succ, List.map_append,
    List.map_singleton, hentries, Function.update_self]
  refine congrArg (· ++ _) (List.map_congr_left fun j hj => ?_)
  rw [Function.update_of_ne (Nat.ne_of_lt (List.mem_range.mp hj))]

/-- What a creation on the disk comes to, with the slot of the node that it returns. -/
theorem MesaFS.creation_createFile {s : MesaFS} (hpacked : s.Packed) (name : CString)
    (uid gid mode : U32) (stack : ℕ → U8) :
    Creation s (s.freeSlot = none) (name.fits 64 = true) (s.Adds name)
      ((s.createFile name uid gid mode stack).map fun (s', r) => (s', r.map FsNode.inode)) := by
  cases hslot : s.freeSlot with
  | none =>
    rw [createFile, hslot]
    exact .full rfl
  | some i =>
    cases hfits : name.fits 64 with
    | false =>
      rw [createFile, hslot]
      dsimp only
      rw [hfits]
      exact .long (Option.some_ne_none _) Bool.false_ne_true
    | true =>
      obtain ⟨s', node, hcreate, rfl, hentries⟩ := createFile_spec hslot hfits uid gid mode stack
      rw [hcreate]
      exact .added (Option.some_ne_none _) rfl _ _ (adds_of_eq hpacked hslot rfl hentries)

theorem MesaFS.creation_createDir {s : MesaFS} (hpacked : s.Packed) (name : CString)
    (uid gid mode : U32) (stack : ℕ → U8) :
    Creation s (s.freeSlot = none) (name.fits 64 = true) (s.Adds name)
      ((s.createDir name uid gid mode stack).map fun (s', r) => (s', r.map FsNode.inode)) := by
  cases hslot : s.freeSlot with
  | none =>
    rw [createDir, hslot]
    exact .full rfl
  | some i =>
    cases hfits : name.fits 64 with
    | false =>
      rw [createDir, hslot]
      dsimp only
      rw [hfits]
      exact .long (Option.some_ne_none _) Bool.false_ne_true
    | true =>
      obtain ⟨s', node, hcreate, rfl, hentries⟩ := createDir_spec hslot hfits uid gid mode stack
      rw [hcreate]
      exact .added (Option.some_ne_none _) rfl _ _ (adds_of_eq hpacked hslot rfl hentries)

/-- `delete_file` removes the first entry of the name. -/
theorem RAMFS.directory_deleteFile (s : RAMFS) (name : CString) :
    (s.deleteFile name).1.directory = s.directory.kerase name := by
  have hnodes := (s.deleteFile_frame name).1
  cases hslot : s.slotOf name with
  | none =>
    have hnone := slotOf_none.mp hslot
    rw [deleteFile_of_none hnone, List.kerase_of_notMem_keys]
    rwa [← List.dlookup_eq_none, ← finddir_eq_dlookup]
  | some i =>
    have hindex : s.directory.findIdx? (fun e => decide (name = e.1)) = some i := by
      obtain ⟨hname, hi, hbefore⟩ := List.find?_range_eq_some.mp hslot
      rw [directory, directoryOf, listed, List.findIdx?_map, List.findIdx?_map,
        List.findIdx?_eq_some_iff_getElem]
      refine ⟨by simpa using hi, ?_, fun j hj => ?_⟩
      · rw [List.getElem_range]
        exact hname
      · rw [List.getElem_range]
        simpa using hbefore j hj
    rw [List.kerase, List.eraseP_eq_eraseIdx, hindex, directory, directory, listed_deleteFile hslot,
      hnodes]
    exact (List.eraseIdx_map ..).symm

/-! ### What `readdir` lists -/

/-- What holds of both registries after every run. -/
structure Directories.Ok (t : Directories) : Prop where
  allocated : t.ram.Allocated
  packed : t.disk.Packed

theorem Directories.ok_start (ram : RAMFS) (base : U32) (disk : Disk) :
    (start ram base disk).Ok :=
  ⟨fun _ hp => absurd hp List.not_mem_nil, packed_initialize base disk⟩

/-- What a creation leaves is a system as before, or with one more entry. -/
theorem Creation.keeps {σ : Type*} {I : σ → Prop} {s : σ} {full fits : Prop}
    {Added : σ → ℕ → Prop} {r : Option (σ × Option ℕ)} (h : Creation s full fits Added r)
    (hs : I s) (hadded : ∀ s' p, Added s' p → I s') {s' : σ} {o : Option ℕ}
    (hr : r = some (s', o)) : I s' := by
  cases h with
  | full hfull =>
    rw [Option.some_inj, Prod.mk.injEq] at hr
    exact hr.1 ▸ hs
  | long hfull hlong => exact absurd hr nofun
  | added hfull hfits u p hu =>
    rw [Option.some_inj, Prod.mk.injEq] at hr
    exact hr.1 ▸ hadded u p hu

theorem RAMFS.allocated_deleteFile {s : RAMFS} (h : s.Allocated) (name : CString) :
    (s.deleteFile name).1.Allocated := by
  intro p hp
  rw [(s.deleteFile_frame name).2.2.2]
  cases hslot : s.slotOf name with
  | none =>
    rw [deleteFile_of_none (slotOf_none.mp hslot)] at hp
    exact h p hp
  | some i =>
    rw [listed_deleteFile hslot] at hp
    exact h p (List.mem_of_mem_eraseIdx hp)

theorem Directories.ok_step {t t' : Directories} {c : DirectoryCall} (h : t.Ok)
    (hstep : t.step c = some t') : t'.Ok := by
  cases c with
  | createFile name content =>
    obtain ⟨⟨ram, r⟩, hcreate, rfl⟩ := Option.map_eq_some_iff.mp hstep
    exact ⟨(RAMFS.creation_createFile h.allocated name content).keeps h.allocated
      (fun _ _ hadds => hadds.1) hcreate, h.packed⟩
  | createDir name =>
    obtain ⟨⟨ram, r⟩, hcreate, rfl⟩ := Option.map_eq_some_iff.mp hstep
    exact ⟨(RAMFS.creation_createDir h.allocated name).keeps h.allocated
      (fun _ _ hadds => hadds.1) hcreate, h.packed⟩
  | newNode node =>
    rw [step, Option.some_inj] at hstep
    subst hstep
    exact ⟨RAMFS.allocated_newNode h.allocated node, h.packed⟩
  | mount node =>
    rw [step] at hstep
    by_cases hnode : node < t.ram.nextNode
    · rw [if_pos hnode, Option.some_inj] at hstep
      subst hstep
      exact ⟨(RAMFS.creation_mount h.allocated hnode).keeps h.allocated
        (fun _ _ hadds => hadds.1) rfl, h.packed⟩
    · rw [if_neg hnode] at hstep
      exact absurd hstep nofun
  | deleteFile name =>
    rw [step, Option.some_inj] at hstep
    subst hstep
    exact ⟨RAMFS.allocated_deleteFile h.allocated name, h.packed⟩
  | createEntry name uid gid mode stack =>
    obtain ⟨⟨disk, r⟩, hcreate, rfl⟩ := Option.map_eq_some_iff.mp hstep
    exact ⟨h.allocated, (MesaFS.creation_createFile h.packed name uid gid mode stack).keeps h.packed
      (fun _ _ hadds => hadds.1) (congrArg (Option.map _) hcreate)⟩
  | createEntryDir name uid gid mode stack =>
    obtain ⟨⟨disk, r⟩, hcreate, rfl⟩ := Option.map_eq_some_iff.mp hstep
    exact ⟨h.allocated, (MesaFS.creation_createDir h.packed name uid gid mode stack).keeps h.packed
      (fun _ _ hadds => hadds.1) (congrArg (Option.map _) hcreate)⟩

/-- The entry that `readdir` returns for a slot of the RAM file system. -/
def RAMFS.direntOf (s : RAMFS) (i : ℕ) : Dirent :=
  { name := (s.nodes (s.files i)).name, ino := (s.nodes (s.files i)).inode }

def MesaFS.direntOf (s : MesaFS) (i : ℕ) : Dirent := { name := (s.entries i).name, ino := i }

theorem RAMFS.enumerate_readdir (s : RAMFS) :
    enumerate s.readdir (s.fileCount + 1) 0 = some ((List.range s.fileCount).map s.direntOf) := by
  refine enumerate_eq (fun i hi => ?_) ?_
  · rw [readdir, if_neg (Nat.not_le.mpr hi)]
    rfl
  · rw [readdir, if_pos le_rfl]

theorem MesaFS.Packed.enumerate_readdir {s : MesaFS} (h : s.Packed) :
    enumerate s.readdir (s.listed.length + 1) 0 = some (s.listed.map s.direntOf) := by
  obtain ⟨n, hn, hpresent⟩ := h
  rw [listed_of_present hn hpresent, List.length_range]
  refine enumerate_eq (fun i hi => ?_) ?_
  · rw [readdir, if_neg (by omega), hpresent i (by omega), decide_eq_true hi]
    rfl
  · rw [readdir]
    by_cases hfull : maxEntries ≤ n
    · rw [if_pos hfull]
    · rw [if_neg hfull, hpresent n (by omega), decide_eq_false (Nat.lt_irrefl n)]
      rfl

/-- **`readdir` lists what `finddir` finds**, in both systems and after every run: each slot
in use once, and then nothing. -/
theorem enumerates_of_run (ram : RAMFS) (base : U32) (disk : Disk) (calls : List DirectoryCall)
    {t : Directories} (hrun : run Directories.step (.start ram base disk) calls = some t) :
    (∃ fuel entries, enumerate t.ram.readdir fuel 0 = some entries ∧
      entries = (List.range t.ram.fileCount).map t.ram.direntOf ∧
      ∀ name, name ∈ entries.map Dirent.name ↔ t.ram.finddir name ≠ none) ∧
    (∃ fuel entries, enumerate t.disk.readdir fuel 0 = some entries ∧
      entries = ((List.range maxEntries).filter fun i => (t.disk.entries i).present).map
        t.disk.direntOf ∧
      ∀ name, name ∈ entries.map Dirent.name ↔ t.disk.finddir name ≠ none) := by
  have hok : t.Ok := run_keeps (fun _ _ _ h hstep => Directories.ok_step h hstep)
    (Directories.ok_start ram base disk) hrun
  constructor
  · refine ⟨_, _, t.ram.enumerate_readdir, rfl, fun name => ?_⟩
    rw [RAMFS.finddir_eq_dlookup, ne_eq, List.dlookup_eq_none, not_not, RAMFS.keys_directory,
      RAMFS.names, RAMFS.listed, List.map_map, List.map_map]
    rfl
  · refine ⟨_, _, hok.packed.enumerate_readdir, rfl, fun name => ?_⟩
    have hfind := t.disk.finddir_eq_dlookup name
    rw [ne_eq, ← Option.map_eq_none_iff (f := FsNode.inode), hfind, List.dlookup_eq_none, not_not,
      MesaFS.keys_directory, MesaFS.names, List.map_map]
    rfl

/-- Two files in the RAM file system, one of which is deleted, a directory that is mounted, and
two entries on the disk. -/
def createAround : List DirectoryCall :=
  [.createFile fileA none, .newNode FileSystem.diskRoot, .mount 2, .createFile fileB none,
    .deleteFile fileA, .createEntry fileA 0 0 0 fun _ => 0, .createEntryDir fileB 0 0 0 fun _ => 0]

theorem enumerates_of_run_createAround :
    ∃ t, run Directories.step (.start freshMemory 2048 fun _ _ => 0) createAround = some t ∧
      ∃ fuel, (enumerate t.disk.readdir fuel 0).map (List.map Dirent.name) =
        some [fileA, fileB] := by
  have hval : (run Directories.step (.start freshMemory 2048 fun _ _ => 0) createAround).map
      (fun t => t.disk.listed.map t.disk.direntOf) = some ([⟨fileA, 0⟩, ⟨fileB, 1⟩] : List Dirent) := by
    decide +kernel
  obtain ⟨t, ht, hlisted⟩ := Option.map_eq_some_iff.mp hval
  obtain ⟨-, fuel, entries, henum, hentries, -⟩ := enumerates_of_run freshMemory 2048 _ _ ht
  refine ⟨t, ht, fuel, ?_⟩
  rw [henum, hentries]
  exact congrArg (fun l => some (List.map Dirent.name l)) hlisted

/-! ### Distinct names -/

/-- The names are distinct, and each is that of the entry created last. -/
def Tracks (d : Directory) (last : CString → Option ℕ) : Prop :=
  d.NodupKeys ∧ ∀ name, d.dlookup name = last name

/-- A new entry keeps this when its name is new. -/
theorem Tracks.append_iff {d : Directory} {last : CString → Option ℕ} (h : Tracks d last)
    (name : CString) (p : ℕ) :
    Tracks (d ++ [⟨name, p⟩]) (record last name (some p)) ↔ d.dlookup name = none := by
  have hkeys : List.NodupKeys (d ++ [⟨name, p⟩]) ↔ name ∉ d.keys := by
    rw [List.NodupKeys, List.keys_append, List.nodup_append]
    constructor
    · rintro ⟨-, -, hdisjoint⟩ hname
      exact hdisjoint name hname name (List.mem_singleton_self _) rfl
    · intro hname
      refine ⟨h.1, List.nodup_singleton _, fun k hk k' hk' heq => ?_⟩
      rw [List.mem_singleton.mp hk'] at heq
      dsimp only at heq
      exact hname (heq ▸ hk)
  rw [List.dlookup_eq_none, ← hkeys]
  refine ⟨And.left, fun hnodup => ⟨hnodup, fun k => ?_⟩⟩
  rw [List.dlookup_append, record]
  by_cases hk : k = name
  · subst hk
    rw [List.dlookup_eq_none.mpr (hkeys.mp hnodup), Function.update_self, List.dlookup_cons_eq]
    rfl
  · rw [Function.update_of_ne hk, ← h.2 k, List.dlookup_cons_ne _ _ hk, List.dlookup_nil,
      Option.or_none]

/-- A deletion keeps it. -/
theorem Tracks.kerase {d : Directory} {last : CString → Option ℕ} (h : Tracks d last)
    (name : CString) : Tracks (d.kerase name) (Function.update last name none) := by
  refine ⟨h.1.kerase name, fun k => ?_⟩
  by_cases hk : k = name
  · subst hk
    rw [Function.update_self, List.dlookup_kerase _ h.1]
  · rw [Function.update_of_ne hk, List.dlookup_kerase_ne hk, h.2 k]

/-- A creation keeps it if there is no room, or a name that fits is new. -/
theorem Creation.tracks_iff {σ : Type*} {s : σ} {full fits : Prop} {Added : σ → ℕ → Prop}
    {r : Option (σ × Option ℕ)} (hcreation : Creation s full fits Added r) {dir : σ → Directory}
    {name : CString} (hadded : ∀ s' p, Added s' p → dir s' = dir s ++ [⟨name, p⟩])
    {last : CString → Option ℕ} (h : Tracks (dir s) last) :
    (∃ s' o, r = some (s', o) ∧ Tracks (dir s') (record last name o)) ↔
      full ∨ fits ∧ (dir s).dlookup name = none := by
  cases hcreation with
  | full hfull => exact iff_of_true ⟨s, none, rfl, h⟩ (.inl hfull)
  | long hfull hlong =>
    refine iff_of_false ?_ ?_
    · rintro ⟨s', o, hr, -⟩
      exact absurd hr nofun
    · rintro (hw | hw)
      · exact hfull hw
      · exact hlong hw.1
  | added hfull hfits u p hu =>
    have hiff := h.append_iff name p
    rw [← hadded u p hu] at hiff
    constructor
    · rintro ⟨s', o, hr, htracks⟩
      rw [Option.some_inj, Prod.mk.injEq] at hr
      obtain ⟨rfl, rfl⟩ := hr
      exact .inr ⟨hfits, hiff.mp htracks⟩
    · rintro (hw | ⟨-, hnone⟩)
      · exact absurd hw hfull
      · exact ⟨u, some p, rfl, hiff.mpr hnone⟩

namespace Directories

/-- In both directories the names are distinct, and `finddir` returns the entry that was created
last. -/
structure Unique (t : Directories) : Prop where
  ramNames : ((List.range t.ram.fileCount).map fun i => (t.ram.nodes (t.ram.files i)).name).Nodup
  ramFind : ∀ name, t.ram.finddir name = t.lastRam name
  diskNames : (((List.range maxEntries).filter fun i => (t.disk.entries i).present).map
    fun i => (t.disk.entries i).name).Nodup
  diskFind : ∀ name, (t.disk.finddir name).map FsNode.inode = t.lastDisk name

/-- There is no room, or the name fits its array and no entry has it. -/
def Fresh (t : Directories) : DirectoryCall → Prop
  | .createFile name content => maxFiles ≤ t.ram.fileCount ∨
    (name.fits 128 = true ∧ ((content.map CString.bytes).getD []).length < 4096) ∧
      t.ram.finddir name = none
  | .createDir name =>
    maxFiles ≤ t.ram.fileCount ∨ name.fits 128 = true ∧ t.ram.finddir name = none
  | .newNode _ => True
  | .mount node => node < t.ram.nextNode ∧
    (maxFiles ≤ t.ram.fileCount ∨ t.ram.finddir (t.ram.nodes node).name = none)
  | .deleteFile _ => True
  | .createEntry name _ _ _ _ =>
    t.disk.freeSlot = none ∨ name.fits 64 = true ∧ t.disk.finddir name = none
  | .createEntryDir name _ _ _ _ =>
    t.disk.freeSlot = none ∨ name.fits 64 = true ∧ t.disk.finddir name = none

theorem unique_iff (t : Directories) :
    t.Unique ↔ Tracks t.ram.directory t.lastRam ∧ Tracks t.disk.directory t.lastDisk := by
  have hram : (t.ram.directory.NodupKeys ↔ ((List.range t.ram.fileCount).map fun i =>
      (t.ram.nodes (t.ram.files i)).name).Nodup) := by
    rw [List.NodupKeys, RAMFS.keys_directory, RAMFS.names, RAMFS.listed, List.map_map]
    rfl
  have hdisk : t.disk.directory.NodupKeys ↔ t.disk.names.Nodup := by
    rw [List.NodupKeys, MesaFS.keys_directory]
  constructor
  · rintro ⟨hnames, hfind, hnames', hfind'⟩
    exact ⟨⟨hram.mpr hnames, fun k => (t.ram.finddir_eq_dlookup k).symm.trans (hfind k)⟩,
      hdisk.mpr hnames', fun k => (t.disk.finddir_eq_dlookup k).symm.trans (hfind' k)⟩
  · rintro ⟨⟨hnames, hfind⟩, hnames', hfind'⟩
    exact ⟨hram.mp hnames, fun k => (t.ram.finddir_eq_dlookup k).trans (hfind k),
      hdisk.mp hnames', fun k => (t.disk.finddir_eq_dlookup k).trans (hfind' k)⟩

/-- A creation in the RAM file system leaves the disk alone. -/
theorem unique_ram_iff {t : Directories} (hdisk : Tracks t.disk.directory t.lastDisk)
    (r : Option (RAMFS × Option ℕ)) (name : CString) :
    (∃ t', (r.map fun (ram, o) =>
        { t with ram := ram, lastRam := record t.lastRam name o }) = some t' ∧ t'.Unique) ↔
      ∃ ram o, r = some (ram, o) ∧ Tracks ram.directory (record t.lastRam name o) := by
  constructor
  · rintro ⟨t', hstep, hunique⟩
    obtain ⟨⟨ram, o⟩, hr, rfl⟩ := Option.map_eq_some_iff.mp hstep
    exact ⟨ram, o, hr, ((unique_iff _).mp hunique).1⟩
  · rintro ⟨ram, o, hr, htracks⟩
    exact ⟨_, congrArg (Option.map _) hr, (unique_iff _).mpr ⟨htracks, hdisk⟩⟩

theorem unique_disk_iff {t : Directories} (hram : Tracks t.ram.directory t.lastRam)
    (r : Option (MesaFS × Option FsNode)) (name : CString) :
    (∃ t', (r.map fun (disk, o) =>
        { t with disk := disk, lastDisk := record t.lastDisk name (o.map FsNode.inode) }) =
          some t' ∧ t'.Unique) ↔
      ∃ disk o, (r.map fun (disk, o) => (disk, o.map FsNode.inode)) = some (disk, o) ∧
        Tracks disk.directory (record t.lastDisk name o) := by
  constructor
  · rintro ⟨t', hstep, hunique⟩
    obtain ⟨⟨disk, o⟩, hr, rfl⟩ := Option.map_eq_some_iff.mp hstep
    exact ⟨disk, _, congrArg (Option.map _) hr, ((unique_iff _).mp hunique).2⟩
  · rintro ⟨disk, o, hstep, htracks⟩
    obtain ⟨⟨disk', node⟩, hr, heq⟩ := Option.map_eq_some_iff.mp hstep
    obtain ⟨rfl, rfl⟩ := Prod.mk.inj heq
    exact ⟨_, congrArg (Option.map _) hr, (unique_iff _).mpr ⟨hram, htracks⟩⟩

/-- **One call.** -/
theorem unique_step (t : Directories) (c : DirectoryCall) (hok : t.Ok) (ht : t.Unique) :
    (∃ t', t.step c = some t' ∧ t'.Unique) ↔ t.Fresh c := by
  obtain ⟨hram, hdisk⟩ := t.unique_iff.mp ht
  have hdiskNone : ∀ name, t.disk.finddir name = none ↔ t.disk.directory.dlookup name = none := by
    intro name
    rw [← t.disk.finddir_eq_dlookup, Option.map_eq_none_iff]
  cases c with
  | createFile name content =>
    rw [Fresh, t.ram.finddir_eq_dlookup,
      ← (RAMFS.creation_createFile hok.allocated name content).tracks_iff
        (fun _ _ hadds => hadds.2) hram]
    exact unique_ram_iff hdisk _ _
  | createDir name =>
    rw [Fresh, t.ram.finddir_eq_dlookup,
      ← (RAMFS.creation_createDir hok.allocated name).tracks_iff (fun _ _ hadds => hadds.2) hram]
    exact unique_ram_iff hdisk _ _
  | newNode node =>
    refine iff_of_true ⟨_, rfl, (unique_iff _).mpr ⟨?_, hdisk⟩⟩ trivial
    dsimp only
    rw [RAMFS.directory_newNode hok.allocated]
    exact hram
  | mount node =>
    rw [Fresh, step]
    by_cases hnode : node < t.ram.nextNode
    · have hiff := (RAMFS.creation_mount hok.allocated hnode).tracks_iff
        (fun _ _ hadds => hadds.2) hram
      rw [true_and] at hiff
      rw [if_pos hnode, and_iff_right hnode, t.ram.finddir_eq_dlookup, ← hiff]
      exact unique_ram_iff hdisk
        (some (t.ram.mount node, if t.ram.fileCount < maxFiles then some node else none)) _
    · rw [if_neg hnode]
      exact iff_of_false (fun h => absurd h.choose_spec.1 nofun) fun h => hnode h.1
  | deleteFile name =>
    refine iff_of_true ⟨_, rfl, (unique_iff _).mpr ⟨?_, hdisk⟩⟩ trivial
    have hkerase := hram.kerase name
    rw [← RAMFS.directory_deleteFile] at hkerase
    cases hslot : t.ram.slotOf name with
    | none =>
      have hnone := RAMFS.slotOf_none.mp hslot
      have hfalse : (t.ram.deleteFile name).2 = false := by
        rw [RAMFS.slotOf] at hslot
        rw [RAMFS.deleteFile, hslot]
      dsimp only
      rw [hfalse, RAMFS.deleteFile_of_none hnone]
      exact hram
    | some i =>
      have htrue : (t.ram.deleteFile name).2 = true := by
        rw [RAMFS.slotOf] at hslot
        rw [RAMFS.deleteFile, hslot]
      dsimp only
      rw [htrue]
      exact hkerase
  | createEntry name uid gid mode stack =>
    rw [Fresh, hdiskNone, ← (MesaFS.creation_createFile hok.packed name uid gid mode
      stack).tracks_iff (fun _ _ hadds => hadds.2) hdisk]
    exact unique_disk_iff hram _ _
  | createEntryDir name uid gid mode stack =>
    rw [Fresh, hdiskNone, ← (MesaFS.creation_createDir hok.packed name uid gid mode
      stack).tracks_iff (fun _ _ hadds => hadds.2) hdisk]
    exact unique_disk_iff hram _ _

end Directories

end MesaOS.FS
