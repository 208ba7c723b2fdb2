/-
The command `rm` of the shell (`kernel/shell.cpp`).

`rm` hands its argument to `RAMFS::delete_file`, which takes the first node of that name
whatever it is, while every other command follows the full path.  The deletion also shifts
the blocks that the files behind it select.

* `finddirFs_deleteFile_eq` — a lookup afterwards is one that skips the deleted slot;
* `content_deleteFile_iff` — when a file has the same content afterwards;
* `removes_iff` — `rm` removes the file that the full path leads to, and leaves the others
  alone, just when that file is the node it finds (`RemoveWorks`).
-/
import MesaOS.FileContents
import MesaOS.Redirection
import MesaOS.Shell

open MachineWord DirectoryWalk MesaOS.System

namespace MesaOS.FS

def fileDeleted : CString := ⟨chars "File deleted.\n", by decide⟩

def fileNotFound : CString := ⟨chars "File not found.\n", by decide⟩

def rmUsage : CString := ⟨chars "Usage: rm <filename>\n", by decide⟩

namespace FileSystem

/-- The branch of `rm`: the new state, and what is printed. -/
def rm (s : FileSystem) (arg : CString) : FileSystem × CString :=
  if arg.bytes.length > 0 then
    let (ram, found) := s.ram.deleteFile arg
    ({ s with ram := ram }, if found then fileDeleted else fileNotFound)
  else (s, rmUsage)

/-- `File deleted.` is printed when there is something to delete, it is not where it was, and
every path to another file leads to it as before, with the same content. -/
structure Removes (s : FileSystem) (cwd arg : CString) : Prop where
  prints : (s.rm arg).2 = fileDeleted ↔ s.findPath (fullPath cwd arg) ≠ none
  gone : ∀ n, s.findPath (fullPath cwd arg) = some n →
    (s.rm arg).1.findPath (fullPath cwd arg) ≠ some n
  kept : ∀ path m, s.findPath path = some m → s.isFile m = true →
    s.findPath (fullPath cwd arg) ≠ some m →
    (s.rm arg).1.findPath path = some m ∧ (s.rm arg).1.content m = s.content m

/-- `finddir_fs` without slot `i` of the RAM file system. -/
def finddirWithout (s : FileSystem) (i : ℕ) (n : Node) (name : CString) : Option Node :=
  if s.ShowsRam n then
    ((s.ram.listed.eraseIdx i).find? fun p => name = (s.ram.nodes p).name).map .ram
  else if s.ShowsDisk n then (s.disk.slotOf name).map .disk
  else none

/-- `find_path_fs` without slot `i`. -/
def findPathWithout (s : FileSystem) (i : ℕ) (path : CString) : Option Node :=
  walk (s.finddirWithout i) (.ram s.root) (components path)

/-- No path needs slot `i` but the one to `n`. -/
def NotNeeded (s : FileSystem) (i : ℕ) (path : CString) (n : Node) : Prop :=
  s.findPathWithout i path ≠ some n ∧
    ∀ path' m, s.findPath path' = some m → s.isFile m = true → m ≠ n →
      s.findPathWithout i path' = some m

/-- The files but `n` find their bytes in the blocks that they select once slot `i` is
removed. -/
def ShiftSpares (s : FileSystem) (i : ℕ) (n : Node) : Prop :=
  ∀ path p, s.findPath path = some (.ram p) → s.isFile (.ram p) = true → Node.ram p ≠ n →
    ∀ k < (s.ram.nodes p).length.toNat,
      s.ram.page (RAMFS.shift s.ram.fileContents i s.ram.fileCount (s.ram.nodes p).inode) k =
        s.ram.page (s.ram.contentsOf p) k

/-- The condition under which `rm` does what it ought to. -/
def RemoveWorks (s : FileSystem) (cwd arg : CString) : Prop :=
  match if arg.bytes.length > 0 then s.ram.slotOf arg else none with
  | none => s.findPath (fullPath cwd arg) = none
  | some i => ∃ n, s.findPath (fullPath cwd arg) = some n ∧
      (if s.isFile (.ram (s.ram.files i)) = true then n = .ram (s.ram.files i)
        else s.NotNeeded i (fullPath cwd arg) n) ∧ s.ShiftSpares i n

section

variable {s : FileSystem} {name : CString} {i : ℕ}

theorem node_deleteFile (s : FileSystem) (name : CString) (n : Node) :
    ({ s with ram := (s.ram.deleteFile name).1 } : FileSystem).node n = s.node n := by
  cases n with
  | ram p => exact congrFun (s.ram.deleteFile_frame name).1 p
  | disk i => rfl

/-- **A lookup after a deletion** skips the slot. -/
theorem finddirFs_deleteFile_eq (hslot : s.ram.slotOf name = some i) :
    ({ s with ram := (s.ram.deleteFile name).1 } : FileSystem).finddirFs =
      s.finddirWithout i := by
  funext n k
  have hram : ({ s with ram := (s.ram.deleteFile name).1 } : FileSystem).ShowsRam n ↔
      s.ShowsRam n := by
    unfold ShowsRam
    rw [node_deleteFile]
  have hdisk : ({ s with ram := (s.ram.deleteFile name).1 } : FileSystem).ShowsDisk n ↔
      s.ShowsDisk n := by
    unfold ShowsDisk
    rw [node_deleteFile]
  rw [finddirFs_eq, finddirWithout, if_congr hram rfl rfl, if_congr hdisk rfl rfl,
    RAMFS.finddir_eq]
  dsimp only
  rw [RAMFS.listed_deleteFile hslot, (s.ram.deleteFile_frame name).1]

theorem findPath_deleteFile (hslot : s.ram.slotOf name = some i) (path : CString) :
    ({ s with ram := (s.ram.deleteFile name).1 } : FileSystem).findPath path =
      s.findPathWithout i path := by
  rw [findPath_eq, finddirFs_deleteFile_eq hslot, findPathWithout]

theorem contentsOf_deleteFile (hslot : s.ram.slotOf name = some i) (p : ℕ) :
    (s.ram.deleteFile name).1.contentsOf p =
      RAMFS.shift s.ram.fileContents i s.ram.fileCount (s.ram.nodes p).inode := by
  rw [RAMFS.contentsOf, (s.ram.deleteFile_frame name).1]
  rw [RAMFS.slotOf] at hslot
  rw [RAMFS.deleteFile, hslot]

/-- **When a file has the same content** after a deletion. -/
theorem content_deleteFile_iff (hs : s.WellFormed) (hslot : s.ram.slotOf name = some i) {p : ℕ}
    (hp : p ∈ s.ram.listed) (hfile : s.isFile (.ram p) = true) :
    ({ s with ram := (s.ram.deleteFile name).1 } : FileSystem).content (.ram p) =
        s.content (.ram p) ↔
      ∀ k < (s.ram.nodes p).length.toNat,
        s.ram.page (RAMFS.shift s.ram.fileContents i s.ram.fileCount (s.ram.nodes p).inode) k =
          s.ram.page (s.ram.contentsOf p) k := by
  have hreg := hs.regular_of_file hp hfile
  obtain ⟨hnodes, hpage, -, -⟩ := s.ram.deleteFile_frame name
  have hreg' : ((s.ram.deleteFile name).1.nodes p).Regular := by
    rw [hnodes]
    exact hreg
  rw [content_ram hreg, content_ram (s := { s with ram := (s.ram.deleteFile name).1 }) hreg',
    Option.some_inj, RAMFS.bytesOf, RAMFS.bytesOf, hnodes, hpage, contentsOf_deleteFile hslot,
    List.map_inj_left]
  exact ⟨fun h k hk => h k (List.mem_range.mpr hk), fun h k hk => h k (List.mem_range.mp hk)⟩

/-- The disk is not touched. -/
theorem content_deleteFile_disk (s : FileSystem) (name : CString) (j : ℕ) :
    ({ s with ram := (s.ram.deleteFile name).1 } : FileSystem).content (.disk j) =
      s.content (.disk j) := rfl

/-- The deleted node is found no more. -/
theorem findPath_ne_deleted (hs : s.WellFormed) {d : ℕ} (hd : s.ram.finddir name = some d)
    (hroot : s.root ≠ d) (path : CString) :
    ({ s with ram := (s.ram.deleteFile name).1 } : FileSystem).findPath path ≠ some (.ram d) := by
  intro h
  rw [findPath_eq] at h
  rcases valid_of_walk h with hv | hv
  · exact hroot (Node.ram.inj hv).symm
  · exact ((listed_of_deleteFile hs hd).mp hv).2 rfl

end

section

variable {s : FileSystem} {cwd arg : CString}

/-- There is nothing that `delete_file` finds. -/
theorem rm_of_none (h : (if arg.bytes.length > 0 then s.ram.slotOf arg else none) = none) :
    (s.rm arg).1 = s ∧ (s.rm arg).2 ≠ fileDeleted := by
  rw [rm]
  by_cases harg : arg.bytes.length > 0
  · rw [if_pos harg] at h ⊢
    have hdelete : s.ram.deleteFile arg = (s.ram, false) := by
      rw [RAMFS.slotOf] at h
      rw [RAMFS.deleteFile, h]
    rw [hdelete]
    exact ⟨rfl, show fileNotFound ≠ fileDeleted by decide⟩
  · rw [if_neg harg]
    exact ⟨rfl, show rmUsage ≠ fileDeleted by decide⟩

theorem rm_of_some {i : ℕ}
    (h : (if arg.bytes.length > 0 then s.ram.slotOf arg else none) = some i) :
    s.ram.slotOf arg = some i ∧
      s.rm arg = ({ s with ram := (s.ram.deleteFile arg).1 }, fileDeleted) := by
  by_cases harg : arg.bytes.length > 0
  · rw [if_pos harg] at h
    refine ⟨h, ?_⟩
    have hfound : (s.ram.deleteFile arg).2 = true := by
      rw [RAMFS.slotOf] at h
      rw [RAMFS.deleteFile, h]
    rw [rm, if_pos harg]
    dsimp only
    rw [hfound, if_pos rfl]
  · rw [if_neg harg] at h
    exact absurd h (Option.some_ne_none i).symm

/-- Nothing is deleted, so there must be nothing to delete. -/
theorem removes_none_iff
    (h : (if arg.bytes.length > 0 then s.ram.slotOf arg else none) = none) :
    s.Removes cwd arg ↔ s.findPath (fullPath cwd arg) = none := by
  obtain ⟨hsame, htext⟩ := rm_of_none h
  constructor
  · intro hremoves
    by_contra hpath
    exact htext (hremoves.prints.mpr hpath)
  · intro hpath
    refine ⟨iff_of_false htext fun h => h hpath, fun n hn => ?_, fun path m hm hfile hne => ?_⟩
    · rw [hpath] at hn
      exact absurd hn (Option.some_ne_none n).symm
    · rw [hsame]
      exact ⟨hm, rfl⟩

/-- A path that does not end at a deleted file leads where it led. -/
theorem findPath_kept {i : ℕ} (hslot : s.ram.slotOf arg = some i)
    (hfile : s.isFile (.ram (s.ram.files i)) = true) {path : CString} {m : Node}
    (hm : s.findPath path = some m) (hne : m ≠ .ram (s.ram.files i)) :
    ({ s with ram := (s.ram.deleteFile arg).1 } : FileSystem).findPath path = some m := by
  have hfind : s.ram.finddir arg = some (s.ram.files i) := by
    rw [RAMFS.slotOf] at hslot
    rw [RAMFS.finddir, hslot, Option.map_some]
  rw [findPath_eq] at hm ⊢
  exact walk_of_removed (finddirFs_file hfile) (finddirFs_deleteFile hfind) hm hne

/-- A node is deleted; another one may be where the path leads. -/
theorem removes_some_iff (hs : s.WellFormed) {i : ℕ}
    (h : (if arg.bytes.length > 0 then s.ram.slotOf arg else none) = some i) :
    s.Removes cwd arg ↔ ∃ n, s.findPath (fullPath cwd arg) = some n ∧
      (if s.isFile (.ram (s.ram.files i)) = true then n = .ram (s.ram.files i)
        else s.NotNeeded i (fullPath cwd arg) n) ∧ s.ShiftSpares i n := by
  obtain ⟨hslot, hrm⟩ := rm_of_some h
  have hfind : s.ram.finddir arg = some (s.ram.files i) := by
    rw [RAMFS.slotOf] at hslot
    rw [RAMFS.finddir, hslot, Option.map_some]
  have hlisted : ∀ path p, s.findPath path = some (.ram p) → s.isFile (.ram p) = true →
      p ∈ s.ram.listed := fun path p hp hfile => by
    rw [findPath_eq] at hp
    exact hs.exists_of_file (valid_of_walk hp) hfile
  constructor
  · rintro ⟨hprints, hgone, hkept⟩
    rw [hrm] at hprints hgone hkept
    obtain ⟨n, hn⟩ := Option.ne_none_iff_exists'.mp (hprints.mp rfl)
    have hne : ∀ m, m ≠ n → s.findPath (fullPath cwd arg) ≠ some m := fun m hm heq =>
      hm (Option.some_inj.mp (hn.symm.trans heq)).symm
    refine ⟨n, hn, ?_, fun path p hp hfile hpn => ?_⟩
    · split
      next hfile =>
        by_contra hnd
        exact hgone n hn (findPath_kept hslot hfile hn hnd)
      next =>
        refine ⟨?_, fun path m hm hfile hmn => ?_⟩
        · rw [← findPath_deleteFile hslot]
          exact hgone n hn
        · rw [← findPath_deleteFile hslot]
          exact (hkept path m hm hfile (hne m hmn)).1
    · exact (content_deleteFile_iff hs hslot (hlisted path p hp hfile) hfile).mp
        (hkept path (.ram p) hp hfile (hne _ hpn)).2
  · rintro ⟨n, hn, hnode, hspares⟩
    constructor
    · rw [hrm, hn]
      exact iff_of_true rfl (Option.some_ne_none n)
    · intro n' hn'
      obtain rfl : n = n' := Option.some_inj.mp (hn.symm.trans hn')
      rw [hrm]
      split at hnode
      next hfile =>
        subst hnode
        refine findPath_ne_deleted hs hfind ?_ _
        rintro hroot
        have hflags := of_decide_eq_true hfile
        rw [node_ram, ← hroot, hs.root.2.flags] at hflags
        exact absurd hflags (by decide)
      next =>
        rw [findPath_deleteFile hslot]
        exact hnode.1
    · intro path m hm hfile hne
      have hmn : m ≠ n := fun heq => hne (heq ▸ hn)
      rw [hrm]
      refine ⟨?_, ?_⟩
      · split at hnode
        next hdeleted => exact findPath_kept hslot hdeleted hm (hnode ▸ hmn)
        next =>
          rw [findPath_deleteFile hslot]
          exact hnode.2 path m hm hfile hmn
      · cases m with
        | ram p =>
          exact (content_deleteFile_iff hs hslot (hlisted path p hm hfile) hfile).mpr
            (hspares path p hm hfile hmn)
        | disk j => exact content_deleteFile_disk s arg j

/-- **When `rm` does what it ought to.** -/
theorem removes_iff (hs : s.WellFormed) (cwd arg : CString) :
    s.Removes cwd arg ↔ s.RemoveWorks cwd arg := by
  unfold RemoveWorks
  cases h : if arg.bytes.length > 0 then s.ram.slotOf arg else none with
  | none => exact removes_none_iff h
  | some i => exact removes_some_iff hs h

end

/-- The one file that is there from the start is removed under its own name. -/
theorem removes_iff_readme :
    ∃ s, boot freshMemory (fun _ _ => 0) = some s ∧ s.Removes rootPath readmeTxt := by
  have hval : (boot freshMemory fun _ _ => 0).map (fun s =>
      (s.ram.slotOf readmeTxt, s.findPath (fullPath rootPath readmeTxt),
        decide (s.isFile (.ram (s.ram.files 0)) = true ∧
          ∀ p ∈ s.ram.listed, s.isFile (.ram p) = true → p = s.ram.files 0),
        s.ram.files 0)) = some (some 0, some (.ram 1), true, 1) := by
    decide +kernel
  obtain ⟨s, hboot, hs⟩ := Option.map_eq_some_iff.mp hval
  simp only [Prod.mk.injEq, decide_eq_true_eq] at hs
  obtain ⟨hslot, hpath, ⟨hfile, honly⟩, hnode⟩ := hs
  have hwell := wellFormed_boot hboot
  refine ⟨s, hboot, (removes_iff hwell rootPath readmeTxt).mpr ?_⟩
  rw [RemoveWorks, if_pos (by decide), hslot]
  refine ⟨_, hpath, ?_, fun path p hp hfile' hne => ?_⟩
  · rw [if_pos hfile, hnode]
  · rw [findPath_eq] at hp
    have hp' := hwell.exists_of_file (valid_of_walk hp) hfile'
    exact absurd (congrArg Node.ram ((honly p hp' hfile').trans hnode)) hne

/-- **A file that is not found.**  `cat /readme.txt` prints it, and `rm /readme.txt` does not
find it. -/
theorem absolute_not_removes :
    ¬ ∀ (s : FileSystem) (cwd arg : CString), s.WellFormed → s.Removes cwd arg := by
  intro h
  have hval : (boot freshMemory fun _ _ => 0).map (fun s =>
      ((s.rm readmePath).2, (s.findPath (fullPath rootPath readmePath)).isSome)) =
      some (fileNotFound, true) := by
    decide +kernel
  obtain ⟨s, hboot, hs⟩ := Option.map_eq_some_iff.mp hval
  obtain ⟨htext, hpath⟩ := Prod.mk.inj hs
  have hprints := (h s rootPath readmePath (wellFormed_boot hboot)).prints.mpr
    (Option.isSome_iff_ne_none.mp hpath)
  exact absurd (htext.symm.trans hprints) (by decide)

end FileSystem

end MesaOS.FS
