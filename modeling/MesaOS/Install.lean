/-
Installing a package (`net/package.cpp`).

`install_package` copies a file to `/bin`.  The new file is created on the disk under its whole
path as its name, so the path does not lead to it; the content is measured with `strlen`; and
the registry has changed when the file is not found.

* `readFs_upTo` — a package of less than 4096 bytes is read whole;
* `installPackage_eq` — the copy, once there is something to copy;
* `installs_iff_of_run` — when a package is installed, and nothing is left behind if not.
-/
import MesaOS.Download

open MachineWord Runs DirectoryWalk

namespace MesaOS.Net

open FS MesaOS.System

/-! ### The code -/

/-- The character `'.'`. -/
def dot : U8 := 0x2E

/-- `simple_strrchr`: the position of the last such character. -/
def simpleStrrchr (str : CString) (ch : U8) : Option ℕ :=
  (List.range str.bytes.length).reverse.find? fun i => str.bytes[i]? = some ch

namespace PackageManager

/-- What follows the last `'/'`. -/
def fileName (path : CString) : Option CString :=
  (simpleStrrchr path slash).map fun i => path.drop (i + 1)

/-- `exe_name` -/
def exeName (filename : CString) : CString :=
  match simpleStrrchr filename dot with
  | some i => take filename i
  | none => filename

/-- `"/bin/"` -/
def binDir : CString := ⟨chars "/bin/", by decide⟩

/-- `dest_path` -/
def destPath (filename : CString) : CString := binDir.append (exeName filename)

/-- `PackageManager::install_package`: the new state and what is returned; no result when a name
or the node's number leaves its array. -/
def installPackage (fs : FileSystem) (packagePath : CString) (created written : ℕ → U8) :
    Option (FileSystem × Bool) :=
  match fs.findPath packagePath with
  | none => some (fs, false)
  | some srcNode =>
    (fs.readFs srcNode 0 4095).bind fun content =>
      if content = [] then some (fs, false)
      else
        match fileName packagePath with
        | none => some (fs, false)
        | some filename =>
          if !filename.fits 128 then none
          else
            let destPath := destPath filename
            (fs.disk.createFile destPath 0 0 0o644 created).bind fun (disk, file) =>
              let fs := { fs with disk := disk }
              match file, fs.findPath destPath with
              | none, _ | some _, none => some (fs, false)
              | some _, some node =>
                if maxEntries ≤ (fs.node node).inode then none
                else
                  let size := (content.takeWhile (· ≠ 0)).length
                  (fs.disk.write (fs.node node) 0 (BitVec.ofNat 32 size) (bufferOf content)
                    written).map fun (disk, _) => ({ fs with disk := disk }, true)

/-! ### What it ought to do, and when it does -/

/-- A file of at most 4095 bytes is installed when there is a free entry, and the destination
shows just its content.  When nothing is installed, no entry and no content changes. -/
structure Installs (fs : FileSystem) (path : CString) (created written : ℕ → U8) : Prop where
  installed : ∀ n content, fs.findPath path = some n → fs.content n = some content →
    content ≠ [] → content.length ≤ 4095 → slash ∈ path.bytes → fs.disk.freeSlot ≠ none →
    ∃ filename fs', fileName path = some filename ∧
      installPackage fs path created written = some (fs', true) ∧
      Shows fs' (destPath filename) content
  untouched : ∀ fs', installPackage fs path created written = some (fs', false) →
    fs'.disk.entries = fs.disk.entries ∧ ∀ n, fs'.content n = fs.content n

/-- The names fit, the destination leads to a node before, and when the content has at most 4095
bytes, what is before its first zero makes it up, with what is left of the file there. -/
def InstallWorks (fs : FileSystem) (path : CString) : Prop :=
  ∀ n filename, fs.findPath path = some n → fileName path = some filename →
    fs.disk.freeSlot ≠ none →
    (∀ content, fs.content n = some content → content ≠ [] → content.length ≤ 4095 →
      filename.fits 128 = true ∧ (destPath filename).fits 64 = true ∧
        Lands fs (destPath filename) (content.takeWhile (· ≠ 0)) content) ∧
    (∀ content, fs.readFs n 0 4095 = some content → content ≠ [] → filename.fits 128 = true →
      (destPath filename).fits 64 = true → fs.findPath (destPath filename) ≠ none)

/-! ### The package -/

theorem simpleStrrchr_eq_none {str : CString} {ch : U8} :
    simpleStrrchr str ch = none ↔ ch ∉ str.bytes := by
  rw [simpleStrrchr, List.find?_eq_none]
  constructor
  · intro h hmem
    obtain ⟨i, hi, hget⟩ := List.getElem_of_mem hmem
    refine h i (List.mem_reverse.mpr (List.mem_range.mpr hi)) (decide_eq_true ?_)
    exact hget ▸ List.getElem?_eq_getElem hi
  · intro h i _ hget
    exact h (List.mem_of_getElem? (of_decide_eq_true hget))

/-- There is a name behind the last `'/'` when there is one. -/
theorem fileName_eq_none {path : CString} : fileName path = none ↔ slash ∉ path.bytes := by
  rw [fileName, Option.map_eq_none_iff, simpleStrrchr_eq_none]

section

variable {fs : FileSystem}

/-- A file that is shorter than what is asked for is read whole. -/
theorem readFs_upTo (hs : fs.WellFormed) {n : Node} (hn : fs.Valid n) {content : List U8}
    (hcontent : fs.content n = some content) (hlen : content.length ≤ 4095) :
    fs.readFs n 0 4095 = some content := by
  have hfile := FileSystem.isFile_of_content hcontent
  have hexists := hs.exists_of_file hn hfile
  have hlength := FileSystem.length_content hs hn hcontent
  rw [hlength] at hlen
  cases n with
  | ram p =>
    have hreg := hs.regular_of_file hexists hfile
    rw [FileSystem.content_ram hreg] at hcontent
    rw [FileSystem.readFs_ram hreg.handlers, ← hcontent, ← RAMFS.read_all hreg.length]
    rw [FileSystem.node_ram] at hlen
    have hle : (fs.ram.nodes p).length ≤ (4095 : U32) := BitVec.le_def.mpr hlen
    rw [RAMFS.read, RAMFS.read]
    dsimp only
    have hzero : (0 : U32) + (fs.ram.nodes p).length = (fs.ram.nodes p).length := BitVec.zero_add _
    by_cases hless : (0 : U32) + 4095 > (fs.ram.nodes p).length
    · have hsub : (fs.ram.nodes p).length - 0 = (fs.ram.nodes p).length := BitVec.sub_zero _
      rw [if_pos hless, hzero, if_neg (BitVec.lt_irrefl _), hsub]
    · have heq : (fs.ram.nodes p).length = 4095 := BitVec.le_antisymm hle (BitVec.not_lt.mp hless)
      rw [if_neg hless, heq]
      rfl
  | disk i =>
    rw [FileSystem.content_disk (FileSystem.isFile_disk.mp hfile)] at hcontent
    rw [FileSystem.length_disk] at hlen
    have hmin : min (4095 : U32).toNat ((fs.disk.entries i).length.toNat - (0 : U32).toNat) =
        (fs.disk.entries i).length.toNat := Nat.min_eq_right hlen
    rw [FileSystem.readFs_disk, read_spec _ _ _ _ (by decide), FileSystem.inode_disk, hmin, ← hcontent]
    rfl

variable {path filename : CString} {n : Node} {content : List U8} {created written : ℕ → U8}

/-- **What is copied**, once the package has been read: the part before the first zero, unless
the destination leads nowhere. -/
theorem installPackage_eq (hn : fs.findPath path = some n)
    (hread : fs.readFs n 0 4095 = some content) (hne : content ≠ [])
    (hname : fileName path = some filename) (hfits : filename.fits 128 = true)
    (hslot : fs.disk.freeSlot ≠ none) (hdest : (destPath filename).fits 64 = true) :
    ∃ disk node i, fs.disk.freeSlot = some i ∧
      fs.disk.createFile (destPath filename) 0 0 0o644 created = some (disk, some node) ∧
      (disk.entries i).present = true ∧
      installPackage fs path created written =
        if ({ fs with disk := disk } : FileSystem).findPath (destPath filename) = none then
          some ({ fs with disk := disk }, false)
        else
          (saveBody fs (destPath filename) (content.takeWhile (· ≠ 0)) created written).map
            fun fs' => (fs', true) := by
  obtain ⟨i, hi⟩ := Option.ne_none_iff_exists'.mp hslot
  obtain ⟨disk, node, hcreate, -, hentries⟩ := MesaFS.createFile_spec hi hdest 0 0 0o644 created
  set part := content.takeWhile (· ≠ 0) with hpart
  have hcopied : ∀ k < (BitVec.ofNat 32 part.length).toNat,
      bufferOf content k = bufferOf part k := by
    intro k hk
    obtain ⟨rest, hrest⟩ := List.takeWhile_prefix (l := content) (· ≠ 0)
    have hlt : k < part.length := Nat.lt_of_lt_of_le hk (BitVec.toNat_ofNat .. ▸ Nat.mod_le ..)
    rw [← hrest]
    exact bufferOf_append_left _ _ hlt
  refine ⟨disk, node, i, hi, hcreate, ?_, ?_⟩
  · rw [hentries, Function.update_self]
  · rw [installPackage, hn]
    dsimp only
    rw [hread, Option.bind_some, if_neg hne, hname]
    dsimp only
    rw [hfits, Bool.not_true, if_neg Bool.false_ne_true, hcreate, Option.bind_some, saveBody,
      hcreate, Option.bind_some]
    dsimp only
    cases ({ fs with disk := disk } : FileSystem).findPath (destPath filename) with
    | none => rw [if_pos rfl]
    | some dest =>
      rw [if_neg (Option.some_ne_none dest)]
      dsimp only
      split
      · rfl
      · rw [Option.map_map, MesaFS.write_congr _ _ _ _ hcopied]
        rfl

/-- No result with a name that is too long. -/
theorem fits_of_installPackage (hn : fs.findPath path = some n)
    (hread : fs.readFs n 0 4095 = some content) (hne : content ≠ [])
    (hname : fileName path = some filename) (hslot : fs.disk.freeSlot ≠ none)
    {result : FileSystem × Bool} (h : installPackage fs path created written = some result) :
    filename.fits 128 = true ∧ (destPath filename).fits 64 = true := by
  rw [installPackage, hn] at h
  dsimp only at h
  rw [hread, Option.bind_some, if_neg hne, hname] at h
  dsimp only at h
  cases hfits : filename.fits 128 with
  | false =>
    rw [hfits, Bool.not_false, if_pos rfl] at h
    exact absurd h.symm (Option.some_ne_none result)
  | true =>
    refine ⟨rfl, ?_⟩
    rw [hfits, Bool.not_true, if_neg Bool.false_ne_true] at h
    cases hdest : (destPath filename).fits 64 with
    | true => rfl
    | false =>
      obtain ⟨i, hi⟩ := Option.ne_none_iff_exists'.mp hslot
      rw [MesaFS.createFile, hi] at h
      dsimp only at h
      rw [hdest, Bool.not_false, if_pos rfl, Option.bind_none] at h
      exact absurd h.symm (Option.some_ne_none result)

variable (hs : fs.WellFormed) (hpacked : fs.disk.Packed) (hroot : fs.ShowsRam (.ram fs.root))

include hs hpacked hroot

/-- A package that is read whole shows at its destination just when the copy lands there. -/
theorem installed_iff (hn : fs.findPath path = some n) (hread : fs.readFs n 0 4095 = some content)
    (hne : content ≠ []) (hlen : content.length ≤ 4095) (hname : fileName path = some filename)
    (hfits : filename.fits 128 = true) (hslot : fs.disk.freeSlot ≠ none)
    (hdest : (destPath filename).fits 64 = true) :
    (∃ fs', installPackage fs path created written = some (fs', true) ∧
      Shows fs' (destPath filename) content) ↔
      Lands fs (destPath filename) (content.takeWhile (· ≠ 0)) content := by
  have hpart : (content.takeWhile (· ≠ 0)).length ≤ 4096 := by
    have := (List.takeWhile_prefix (l := content) (· ≠ 0)).length_le
    omega
  rw [← saveBody_iff hs hpacked hroot hslot hdest hpart created written]
  obtain ⟨disk, node, i, -, hcreate, -, hinstall⟩ :=
    installPackage_eq hn hread hne hname hfits hslot hdest
  rw [hinstall]
  by_cases hnone : ({ fs with disk := disk } : FileSystem).findPath (destPath filename) = none
  · rw [if_pos hnone]
    refine iff_of_false ?_ ?_
    · rintro ⟨fs', h, -⟩
      exact absurd (Prod.mk.inj (Option.some_inj.mp h)).2 Bool.false_ne_true
    · rintro ⟨fs', h, m, hm, -⟩
      rw [saveBody, hcreate, Option.bind_some] at h
      dsimp only at h
      rw [hnone] at h
      obtain rfl := Option.some_inj.mp h
      exact absurd (hm.symm.trans hnone) (Option.some_ne_none m)
  · rw [if_neg hnone]
    refine exists_congr fun fs' => and_congr_left fun _ => ?_
    rw [Option.map_eq_some_iff]
    constructor
    · rintro ⟨t, ht, heq⟩
      rw [ht, (Prod.mk.inj heq).1]
    · exact fun h => ⟨fs', h, rfl⟩

/-- The entry is there when the destination leads nowhere. -/
theorem untouched_iff (hn : fs.findPath path = some n) (hread : fs.readFs n 0 4095 = some content)
    (hne : content ≠ []) (hname : fileName path = some filename)
    (hfits : filename.fits 128 = true) (hslot : fs.disk.freeSlot ≠ none)
    (hdest : (destPath filename).fits 64 = true) :
    (∀ fs', installPackage fs path created written = some (fs', false) →
      fs'.disk.entries = fs.disk.entries ∧ ∀ m, fs'.content m = fs.content m) ↔
      fs.findPath (destPath filename) ≠ none := by
  obtain ⟨disk, node, i, hi, hcreate, hpresent, hinstall⟩ :=
    installPackage_eq hn hread hne hname hfits hslot hdest
  obtain ⟨disk', o, hcreate', -, hpath, -⟩ :=
    findPath_createFile hs hpacked hroot hslot hdest created
  obtain ⟨rfl, -⟩ := Prod.mk.inj (Option.some_inj.mp (hcreate.symm.trans hcreate'))
  rw [hinstall, hpath]
  by_cases hnone : fs.findPath (destPath filename) = none
  · rw [if_pos hnone]
    refine iff_of_false (fun h => ?_) (not_not.mpr hnone)
    have hentries := (h _ rfl).1
    dsimp only at hentries
    rw [hentries, (freeSlot_spec hi).2] at hpresent
    exact absurd hpresent Bool.false_ne_true
  · rw [if_neg hnone]
    refine iff_of_true (fun fs' h => ?_) hnone
    obtain ⟨t, -, heq⟩ := Option.map_eq_some_iff.mp h
    exact absurd (Prod.mk.inj heq).2.symm Bool.false_ne_true

omit hs hpacked hroot in
/-- Nothing changes when there is nothing to copy, or no name or entry for it. -/
theorem untouched_of_nothing
    (h : ∀ n content filename, fs.findPath path = some n → fs.readFs n 0 4095 = some content →
      content ≠ [] → fileName path = some filename → fs.disk.freeSlot = none)
    {fs' : FileSystem} (hfalse : installPackage fs path created written = some (fs', false)) :
    fs' = fs := by
  rw [installPackage] at hfalse
  cases hn : fs.findPath path with
  | none =>
    rw [hn] at hfalse
    exact (Prod.mk.inj (Option.some_inj.mp hfalse)).1.symm
  | some n =>
    rw [hn] at hfalse
    obtain ⟨content, hread, hrest⟩ := Option.bind_eq_some_iff.mp hfalse
    by_cases hne : content = []
    · rw [if_pos hne] at hrest
      exact (Prod.mk.inj (Option.some_inj.mp hrest)).1.symm
    rw [if_neg hne] at hrest
    cases hname : fileName path with
    | none =>
      rw [hname] at hrest
      exact (Prod.mk.inj (Option.some_inj.mp hrest)).1.symm
    | some filename =>
      rw [hname] at hrest
      dsimp only at hrest
      split at hrest
      · exact absurd hrest.symm (Option.some_ne_none _)
      · rw [MesaFS.createFile, h n content filename hn hread hne hname, Option.bind_some] at hrest
        exact (Prod.mk.inj (Option.some_inj.mp hrest)).1.symm

theorem installs_iff : Installs fs path created written ↔ InstallWorks fs path := by
  constructor
  · intro h n filename hn hname hslot
    refine ⟨fun content hcontent hne hlen => ?_, fun content hread hne hfits hdest => ?_⟩
    · have hread := readFs_upTo hs (FileSystem.valid_of_findPath hn) hcontent hlen
      have hslash : slash ∈ path.bytes := by
        by_contra hnot
        rw [fileName_eq_none.mpr hnot] at hname
        exact absurd hname.symm (Option.some_ne_none filename)
      obtain ⟨filename', fs', hname', hinstall, hshows⟩ :=
        h.installed n content hn hcontent hne hlen hslash hslot
      obtain rfl := Option.some_inj.mp (hname.symm.trans hname')
      obtain ⟨hfits, hdest⟩ := fits_of_installPackage hn hread hne hname hslot hinstall
      exact ⟨hfits, hdest, (installed_iff hs hpacked hroot hn hread hne hlen hname hfits hslot
        hdest).mp ⟨fs', hinstall, hshows⟩⟩
    · exact (untouched_iff hs hpacked hroot hn hread hne hname hfits hslot hdest).mp h.untouched
  · intro h
    constructor
    · intro n content hn hcontent hne hlen hslash hslot
      obtain ⟨filename, hname⟩ :=
        Option.ne_none_iff_exists'.mp (mt fileName_eq_none.mp (not_not.mpr hslash))
      have hread := readFs_upTo hs (FileSystem.valid_of_findPath hn) hcontent hlen
      obtain ⟨hfits, hdest, hlands⟩ := (h n filename hn hname hslot).1 content hcontent hne hlen
      obtain ⟨fs', hinstall, hshows⟩ := (installed_iff hs hpacked hroot hn hread hne hlen hname
        hfits hslot hdest).mpr hlands
      exact ⟨filename, fs', hname, hinstall, hshows⟩
    · intro fs' hfalse
      by_cases hcopied : ∃ n content filename, fs.findPath path = some n ∧
          fs.readFs n 0 4095 = some content ∧ content ≠ [] ∧ fileName path = some filename ∧
          fs.disk.freeSlot ≠ none
      · obtain ⟨n, content, filename, hn, hread, hne, hname, hslot⟩ := hcopied
        obtain ⟨hfits, hdest⟩ := fits_of_installPackage hn hread hne hname hslot hfalse
        have hfound := (h n filename hn hname hslot).2 content hread hne hfits hdest
        exact (untouched_iff hs hpacked hroot hn hread hne hname hfits hslot hdest).mpr hfound
          fs' hfalse
      · obtain rfl := untouched_of_nothing (fun n content filename hn hread hne hname => by
          by_contra hslot
          exact hcopied ⟨n, content, filename, hn, hread, hne, hname, hslot⟩) hfalse
        exact ⟨rfl, fun _ => rfl⟩

end

/-- `/x.elf` -/
def examplePackage : CString := ⟨chars "/x.elf", by decide⟩

/-- `x.elf` -/
def exampleName : CString := ⟨chars "x.elf", by decide⟩

def exampleText : CString := ⟨chars "hi", by decide⟩

/-- A directory `bin`, a file `x` and the package, which hold the same. -/
def copiedBefore : List FileSystem.Call :=
  [.createDir ⟨chars "bin", by decide⟩, .createFile ⟨chars "x", by decide⟩ (some exampleText),
    .createFile exampleName (some exampleText)]

end PackageManager

end MesaOS.Net
