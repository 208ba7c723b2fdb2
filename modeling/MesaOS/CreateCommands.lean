/-
The commands `touch` and `mkdir` of the shell (`kernel/shell.cpp`).

Both create a node under the name that was typed, or under what comes behind `/disk/` in the
full path, and report success whatever comes of it.  Whether the full path leads to the node
afterwards depends on how `find_path_fs` cuts it into names.  A new directory shows what the
others of its system show, so a path may also lead through it.

* `NewNode.leads_file_iff`, `NewNode.leads_directory_iff` — where the full path leads
  afterwards;
* `packed_of_run` — the registry of the disk has no gaps, in any run;
* `reports_iff` — the commands report a success, and there is one, just when there is room,
  the name fits and the path leads to the place where the node is (`TouchWorks`,
  `MkdirWorks`).
-/
import MesaOS.Directories
import MesaOS.Redirection
import MesaOS.Shell

open MachineWord Runs DirectoryWalk MesaOS.System

namespace MesaOS.FS

def fileCreated : CString := ⟨chars "File created.\n", by decide⟩

def directoryCreated : CString := ⟨chars "Directory created.\n", by decide⟩

def touchUsage : CString := ⟨chars "Usage: touch <filename>\n", by decide⟩

def mkdirUsage : CString := ⟨chars "Usage: mkdir <dir_name>\n", by decide⟩

namespace FileSystem

/-- The branch of `touch`: the new state, and what is printed.  It creates the file as `kprint`
does. -/
def touch (s : FileSystem) (cwd arg : CString) (stack : ℕ → U8) :
    Option (FileSystem × CString) :=
  if arg.bytes.length > 0 then
    let path := fullPath cwd arg
    if !path.fits 256 then none
    else (s.createMissing path arg stack).map fun s => (s, fileCreated)
  else some (s, touchUsage)

/-- The calls of `create_dir`. -/
def createDirectory (s : FileSystem) (path file : CString) (stack : ℕ → U8) :
    Option FileSystem :=
  if diskPrefix.isPrefixOf path.bytes then
    (s.disk.createDir (path.drop 6) 0 0 0o755 stack).map fun (disk, _) => { s with disk := disk }
  else (s.ram.createDir file).map fun (ram, _) => { s with ram := ram }

/-- The branch of `mkdir`. -/
def mkdir (s : FileSystem) (cwd arg : CString) (stack : ℕ → U8) :
    Option (FileSystem × CString) :=
  if arg.bytes.length > 0 then
    let path := fullPath cwd arg
    if !path.fits 256 then none
    else (s.createDirectory path arg stack).map fun s => (s, directoryCreated)
  else some (s, mkdirUsage)

/-- The node is a directory. -/
def isDirectory (s : FileSystem) (n : Node) : Bool :=
  decide ((s.node n).flags &&& 0x07 = fsDirectory)

/-- There is a free slot in the system that the path selects. -/
def Room (s : FileSystem) (path : CString) : Prop :=
  if diskPrefix.isPrefixOf path.bytes then s.disk.freeSlot ≠ none
  else s.ram.fileCount < maxFiles

/-- The name under which a node is created. -/
def newName (path file : CString) : CString :=
  if diskPrefix.isPrefixOf path.bytes then path.drop 6 else file

/-- The array that the name is copied to. -/
def nameSize (path : CString) : ℕ := if diskPrefix.isPrefixOf path.bytes then 64 else 128

/-- The directories that will show the node. -/
def ShowsNew (s : FileSystem) (path : CString) (n : Node) : Prop :=
  if diskPrefix.isPrefixOf path.bytes then s.ShowsDisk n else s.ShowsRam n

instance (s : FileSystem) (path : CString) : Decidable (s.Room path) :=
  inferInstanceAs (Decidable (if diskPrefix.isPrefixOf path.bytes = true then
    s.disk.freeSlot ≠ none else s.ram.fileCount < maxFiles))

instance (s : FileSystem) (path : CString) (n : Node) : Decidable (s.ShowsNew path n) :=
  inferInstanceAs (Decidable (if diskPrefix.isPrefixOf path.bytes = true then
    s.ShowsDisk n else s.ShowsRam n))

/-- What the commands ought to do: when they report a success there was room, and the full path
leads to a file, or to a directory. -/
def Reports (s : FileSystem) (path : CString) (success : CString) (isKind : FileSystem → Node → Bool)
    (r : Option (FileSystem × CString)) : Prop :=
  ∃ s' text, r = some (s', text) ∧
    (text = success → s.Room path ∧ ∃ n, s'.findPath path = some n ∧ isKind s' n = true)

/-- The path leads to a directory, when a missing name `c` means the directory that lacks it:
all directories of a system show the same. -/
def LeadsThrough (s : FileSystem) (path c : CString) : Prop :=
  ∃ d ∈ walk (standIn s.finddirFs (s.ShowsNew path) c) (.ram s.root) (components path).dropLast,
    ∃ k ∈ (components path).getLast?,
      match s.finddirFs d k with
      | some m => s.isDirectory m = true
      | none => s.ShowsNew path d ∧ k = c

/-- The condition under which `touch` reports right. -/
def TouchWorks (s : FileSystem) (cwd arg : CString) : Prop :=
  arg.bytes.length > 0 → s.Room (fullPath cwd arg) ∧
    (newName (fullPath cwd arg) arg).fits (nameSize (fullPath cwd arg)) = true ∧
    match s.findPath (fullPath cwd arg) with
    | some n => s.isFile n = true
    | none => s.Leads (s.ShowsNew (fullPath cwd arg)) (fullPath cwd arg)
        (newName (fullPath cwd arg) arg)

/-- The condition under which `mkdir` reports right. -/
def MkdirWorks (s : FileSystem) (cwd arg : CString) : Prop :=
  arg.bytes.length > 0 → s.Room (fullPath cwd arg) ∧
    (newName (fullPath cwd arg) arg).fits (nameSize (fullPath cwd arg)) = true ∧
    match s.findPath (fullPath cwd arg) with
    | some n => s.isDirectory n = true
    | none => s.LeadsThrough (fullPath cwd arg) (newName (fullPath cwd arg) arg)

/-! ### One more node -/

theorem showsRam_congr {s s' : FileSystem} {n : Node} (h : s'.node n = s.node n) :
    s'.ShowsRam n ↔ s.ShowsRam n := by
  unfold ShowsRam
  rw [h]

theorem showsDisk_congr {s s' : FileSystem} {n : Node} (h : s'.node n = s.node n) :
    s'.ShowsDisk n ↔ s.ShowsDisk n := by
  unfold ShowsDisk
  rw [h]

/-- `s'` has one more node than `s`: `x`, under the name `c` in the directories `shows`, which
all show the same. -/
structure NewNode (s s' : FileSystem) (shows : Node → Prop) (c : CString) (x : Node) : Prop where
  root : s'.root = s.root
  node : ∀ m, s.Valid m → s'.node m = s.node m
  adds : Adds s.Valid shows s.finddirFs s'.finddirFs c x
  flat : ∀ n m, s.Valid n → s.Valid m → shows n → shows m → s.finddirFs n c = s.finddirFs m c

end FileSystem

theorem dlookup_concat (l : Directory) (k name : CString) (p : ℕ) :
    (l ++ [(⟨name, p⟩ : Σ _ : CString, ℕ)]).dlookup k =
      (l.dlookup k).or (if k = name then some p else none) := by
  rw [List.dlookup_append]
  by_cases hk : k = name
  · subst hk
    rw [if_pos rfl, List.dlookup_cons_eq]
  · rw [if_neg hk, List.dlookup_cons_ne _ _ hk, List.dlookup_nil]

/-- A lookup in a registry with one more entry. -/
theorem RAMFS.finddir_adds {s s' : RAMFS} {name : CString} {p : ℕ} (h : s.Adds name s' p)
    (k : CString) : s'.finddir k = (s.finddir k).or (if k = name then some p else none) := by
  rw [finddir_eq_dlookup, finddir_eq_dlookup, h.2, dlookup_concat]

/-- `RAMFS::create_dir` on a registry with a free slot. -/
theorem RAMFS.createDir_spec {s : RAMFS} {name : CString} (hroom : s.fileCount < maxFiles)
    (hfits : name.fits 128 = true) :
    ∃ s', s.createDir name = some (s', some s.nextNode) ∧
      s'.nodes = Function.update s.nodes s.nextNode
        { name := name, flags := fsDirectory, inode := 0, handlers := .ramfsDir } ∧
      s'.nextNode = s.nextNode + 1 ∧ s'.files = Function.update s.files s.fileCount s.nextNode ∧
      s'.fileCount = s.fileCount + 1 := by
  rw [createDir, if_neg (Nat.not_le.mpr hroom), hfits, Bool.not_true, if_neg Bool.false_ne_true]
  exact ⟨_, rfl, rfl, rfl, rfl, rfl⟩

theorem MesaFS.slotOf_adds {s s' : MesaFS} {name : CString} {i : ℕ} (h : s.Adds name s' i)
    (k : CString) : s'.slotOf k = (s.slotOf k).or (if k = name then some i else none) := by
  have hslot : ∀ t : MesaFS, t.slotOf k = t.directory.dlookup k := by
    intro t
    rw [← finddir_eq_dlookup, finddir, Option.map_map]
    exact Option.map_id'.symm
  rw [hslot, hslot, h.2, dlookup_concat]

namespace FileSystem

section

variable {s : FileSystem} {ram : RAMFS} {disk : MesaFS}

/-- The directories that show the new node have one table of names, and the new name stands
behind it. -/
theorem newNode_of_table {s' : FileSystem} {shows : Node → Prop} [DecidablePred shows] {c : CString}
    {x : Node} (table : CString → Option Node) (hroot : s'.root = s.root)
    (hnode : ∀ m, s.Valid m → s'.node m = s.node m)
    (hold : ∀ m k, shows m → s.finddirFs m k = table k)
    (hnew : ∀ m k, s.Valid m → shows m →
      s'.finddirFs m k = (table k).or (if k = c then some x else none))
    (hother : ∀ m k, s.Valid m → ¬ shows m → s'.finddirFs m k = s.finddirFs m k) :
    s.NewNode s' shows c x := by
  refine ⟨hroot, hnode, adds_of_table s.valid_of_finddirFs (fun m k _ => hold m k) hnew hother, ?_⟩
  intro m l _ _ hm hl
  rw [hold m _ hm, hold l _ hl]

/-- A new node at the end of the registry. -/
theorem newNode_append (hs : s.WellFormed) (n : FsNode)
    (hnodes : ram.nodes = Function.update s.ram.nodes s.ram.nextNode n)
    (hnext : ram.nextNode = s.ram.nextNode + 1)
    (hfiles : ram.files = Function.update s.ram.files s.ram.fileCount s.ram.nextNode)
    (hcount : ram.fileCount = s.ram.fileCount + 1) :
    s.NewNode { s with ram := ram } s.ShowsRam n.name (.ram s.ram.nextNode) := by
  have hnode : ∀ m, s.Valid m → ({ s with ram := ram } : FileSystem).node m = s.node m :=
    fun m hm => node_append hs hnodes hm
  have hadds := RAMFS.adds_of_newNode hs.allocated n hnodes hnext hfiles hcount
  refine newNode_of_table (fun k => (s.ram.finddir k).map .ram) rfl hnode ?_ ?_ ?_
  · intro m k hshows
    rw [finddirFs_eq, if_pos hshows]
  · intro m k hm hshows
    rw [finddirFs_eq, if_pos ((showsRam_congr (hnode m hm)).mpr hshows)]
    dsimp only
    rw [RAMFS.finddir_adds hadds, Option.map_or, apply_ite (Option.map Node.ram)]
    rfl
  · intro m k hm hshows
    rw [finddirFs_eq, finddirFs_eq, if_neg fun hw => hshows ((showsRam_congr (hnode m hm)).mp hw),
      if_neg hshows, if_congr (showsDisk_congr (hnode m hm)) rfl rfl]

/-- A new entry in the first free slot. -/
theorem newNode_setEntry (hpacked : s.disk.Packed) {i : ℕ} (hslot : s.disk.freeSlot = some i)
    {e : MesaFSEntry} (he : e.present = true)
    (hentries : disk.entries = Function.update s.disk.entries i e) :
    s.NewNode { s with disk := disk } s.ShowsDisk e.name (.disk i) := by
  have hnode : ∀ m, s.Valid m → ({ s with disk := disk } : FileSystem).node m = s.node m :=
    fun m hm => node_setEntry hslot hentries hm
  have hadds := MesaFS.adds_of_eq hpacked hslot he hentries
  refine newNode_of_table (fun k => (s.disk.slotOf k).map .disk) rfl hnode ?_ ?_ ?_
  · intro m k hshows
    rw [finddirFs_eq, if_neg hshows.not_showsRam, if_pos hshows]
  · intro m k hm hshows
    have hshows' := (showsDisk_congr (hnode m hm)).mpr hshows
    rw [finddirFs_eq, if_neg hshows'.not_showsRam, if_pos hshows']
    dsimp only
    rw [MesaFS.slotOf_adds hadds, Option.map_or, apply_ite (Option.map Node.disk)]
    rfl
  · intro m k hm hshows
    rw [finddirFs_eq, finddirFs_eq, if_congr (showsRam_congr (hnode m hm)) rfl rfl, if_neg hshows,
      if_neg fun hw => hshows ((showsDisk_congr (hnode m hm)).mp hw)]

end

section

variable {s s' : FileSystem} {shows : Node → Prop} {path c : CString} {x : Node}

/-- A path that leads somewhere leads there still. -/
theorem NewNode.findPath_found (h : s.NewNode s' shows c x) {n : Node}
    (hn : s.findPath path = some n) : s'.findPath path = some n := by
  rw [findPath_eq] at hn ⊢
  rw [h.root]
  exact walk_found h.adds s.valid_root hn

/-- A new file is where the path leads that ends with its name. -/
theorem NewNode.leads_file_iff (h : s.NewNode s' shows c x) (hfile : s'.isFile x = true)
    (hnone : s.findPath path = none) :
    (∃ n, s'.findPath path = some n ∧ s'.isFile n = true) ↔ s.Leads shows path c := by
  have hext := h.adds.extends h.flat (finddirFs_file hfile)
  constructor
  · rintro ⟨n, hn, -⟩
    by_contra hleads
    rw [findPath_still_none hext h.root hnone hleads] at hn
    exact absurd hn.symm (Option.some_ne_none n)
  · intro hleads
    exact ⟨x, findPath_new hext h.root hnone hleads, hfile⟩

/-- A name that is missing in one of the directories now denotes the new one, which stands for
all of them. -/
theorem NewNode.leads_directory_iff (h : s.NewNode s' (s.ShowsNew path) c x)
    (hdir : s'.isDirectory x = true)
    (halike : ∀ n k, s.Valid n → s.ShowsNew path n → s'.finddirFs x k = s'.finddirFs n k)
    (hnone : s.findPath path = none) :
    (∃ n, s'.findPath path = some n ∧ s'.isDirectory n = true) ↔ s.LeadsThrough path c := by
  rcases List.eq_nil_or_concat (components path) with hcs | ⟨ds, k, hcs⟩
  · rw [findPath_eq, hcs] at hnone
    exact absurd hnone (Option.some_ne_none _)
  rw [List.concat_eq_append] at hcs
  have hlast : (components path).getLast? = some k := by rw [hcs, List.getLast?_concat]
  have hinit : (components path).dropLast = ds := by rw [hcs, List.dropLast_concat]
  rw [findPath_eq, h.root, hcs, walk_adds h.adds halike s.valid_root, LeadsThrough, hlast, hinit]
  cases hwalk : walk (standIn s.finddirFs (s.ShowsNew path) c) (.ram s.root) ds with
  | none =>
    constructor
    · rintro ⟨n, hn, -⟩
      exact absurd hn.symm (Option.some_ne_none n)
    · rintro ⟨d, hd, -⟩
      exact absurd hd.symm (Option.some_ne_none d)
  | some d =>
    have hd : s.Valid d := walk_closed (standIn_closed s.valid_of_finddirFs) s.valid_root hwalk
    rw [Option.bind_some]
    cases hf : s.finddirFs d k with
    | some m =>
      rw [Option.some_or]
      have hsame : s'.isDirectory m = s.isDirectory m := by
        rw [isDirectory, isDirectory, h.node m (s.valid_of_finddirFs d k m hd hf)]
      constructor
      · rintro ⟨n, hn, hkind⟩
        rw [Option.some_inj] at hn
        subst hn
        refine ⟨d, rfl, k, rfl, ?_⟩
        rw [hf]
        exact hsame.symm.trans hkind
      · rintro ⟨d', hd', k', hk', hkind⟩
        rw [Option.mem_some_iff] at hd' hk'
        subst hd' hk'
        rw [hf] at hkind
        exact ⟨m, rfl, hsame.trans hkind⟩
    | none =>
      rw [Option.none_or]
      constructor
      · rintro ⟨n, hn, -⟩
        refine ⟨d, rfl, k, rfl, ?_⟩
        rw [hf]
        exact (Option.ite_none_right_eq_some.mp hn).1
      · rintro ⟨d', hd', k', hk', hplace⟩
        rw [Option.mem_some_iff] at hd' hk'
        subst hd' hk'
        rw [hf] at hplace
        exact ⟨x, if_pos hplace, hdir⟩

theorem NewNode.alike_ram (h : s.NewNode s' s.ShowsRam c x) (hx : s'.ShowsRam x) (n : Node)
    (k : CString) (hn : s.Valid n) (hshows : s.ShowsRam n) : s'.finddirFs x k = s'.finddirFs n k := by
  have hshows' := (showsRam_congr (h.node n hn)).mpr hshows
  rw [finddirFs_eq, finddirFs_eq, if_pos hx, if_pos hshows']

theorem NewNode.alike_disk (h : s.NewNode s' s.ShowsDisk c x) (hx : s'.ShowsDisk x) (n : Node)
    (k : CString) (hn : s.Valid n) (hshows : s.ShowsDisk n) :
    s'.finddirFs x k = s'.finddirFs n k := by
  have hshows' := (showsDisk_congr (h.node n hn)).mpr hshows
  rw [finddirFs_eq, finddirFs_eq, if_neg hx.not_showsRam, if_neg hshows'.not_showsRam, if_pos hx,
    if_pos hshows']

end

/-! ### What is created -/

theorem fsDirectory_and : fsDirectory &&& 0x07 = fsDirectory := by decide

theorem flags_disk (s : FileSystem) (i : ℕ) : (s.node (.disk i)).flags =
    if (s.disk.entries i).flags = 2 then fsDirectory else fsFile := rfl

section

variable {s : FileSystem} {path file : CString}

/-- The two systems in which a node can be created. -/
theorem Room.cases (hroom : s.Room path) {b : Bool}
    (hfits : (newName path file).fits (nameSize path) = b) :
    (diskPrefix.isPrefixOf path.bytes = true ∧ newName path file = path.drop 6 ∧
      s.ShowsNew path = s.ShowsDisk ∧ (path.drop 6).fits 64 = b ∧ ∃ i, s.disk.freeSlot = some i) ∨
    (diskPrefix.isPrefixOf path.bytes = false ∧ newName path file = file ∧
      s.ShowsNew path = s.ShowsRam ∧ file.fits 128 = b ∧ s.ram.fileCount < maxFiles) := by
  cases hdisk : diskPrefix.isPrefixOf path.bytes with
  | true =>
    have hname : newName path file = path.drop 6 := if_pos hdisk
    have hshows : s.ShowsNew path = s.ShowsDisk := funext fun _ => if_pos hdisk
    rw [Room, if_pos hdisk] at hroom
    rw [nameSize, if_pos hdisk, hname] at hfits
    exact .inl ⟨rfl, hname, hshows, hfits, Option.ne_none_iff_exists'.mp hroom⟩
  | false =>
    have hram := ne_true_of_eq_false hdisk
    have hname : newName path file = file := if_neg hram
    have hshows : s.ShowsNew path = s.ShowsRam := funext fun _ => if_neg hram
    rw [Room, if_neg hram] at hroom
    rw [nameSize, if_neg hram, hname] at hfits
    exact .inr ⟨rfl, hname, hshows, hfits, hroom⟩

/-- The file that `create_file` makes when there is room. -/
theorem createMissing_spec (hs : s.WellFormed) (hpacked : s.disk.Packed) (hroom : s.Room path)
    (hfits : (newName path file).fits (nameSize path) = true) (stack : ℕ → U8) :
    ∃ s' x, s.createMissing path file stack = some s' ∧
      s.NewNode s' (s.ShowsNew path) (newName path file) x ∧ s'.isFile x = true := by
  obtain ⟨hdisk, hname, hshows, hfits, i, hslot⟩ | ⟨hram, hname, hshows, hfits, hroom⟩ :=
    hroom.cases hfits
  · rw [hname, hshows, createMissing, if_pos hdisk]
    obtain ⟨disk, node, hcreate, -, hentries⟩ :=
      MesaFS.createFile_spec hslot hfits 0 0 0o644 stack
    rw [hcreate]
    refine ⟨_, .disk i, rfl, newNode_setEntry hpacked hslot rfl hentries, isFile_disk.mpr ?_⟩
    dsimp only
    rw [hentries, Function.update_self]
    exact (by decide : (1 : U8) ≠ 2)
  · rw [hname, hshows, createMissing_ram hram hfits hroom]
    exact ⟨_, .ram s.ram.nextNode, rfl,
      newNode_append hs { name := file, flags := fsFile, inode := s.ram.fileCount
                          handlers := .ramfsFile } rfl rfl rfl rfl,
      isFile_ram (s.ram.regular_created file)⟩

/-- The directory that `create_dir` makes when there is room. -/
theorem createDirectory_spec (hs : s.WellFormed) (hpacked : s.disk.Packed) (hroom : s.Room path)
    (hfits : (newName path file).fits (nameSize path) = true) (stack : ℕ → U8) :
    ∃ s' x, s.createDirectory path file stack = some s' ∧
      s.NewNode s' (s.ShowsNew path) (newName path file) x ∧ s'.isDirectory x = true ∧
      ∀ n k, s.Valid n → s.ShowsNew path n → s'.finddirFs x k = s'.finddirFs n k := by
  obtain ⟨hdisk, hname, hshows, hfits, i, hslot⟩ | ⟨hram, hname, hshows, hfits, hroom⟩ :=
    hroom.cases hfits
  · rw [hname, hshows, createDirectory, if_pos hdisk]
    obtain ⟨disk, _, hcreate, -, hentries⟩ :=
      MesaFS.createDir_spec hslot hfits 0 0 0o755 stack
    have hnew := newNode_setEntry hpacked hslot rfl hentries
    have hflags : (({ s with disk := disk } : FileSystem).node (.disk i)).flags = fsDirectory := by
      rw [flags_disk]
      dsimp only
      rw [hentries, Function.update_self, if_pos rfl]
    have hdir : (({ s with disk := disk } : FileSystem).node (.disk i)).flags &&& 0x07 =
        fsDirectory := by
      rw [hflags, fsDirectory_and]
    rw [hcreate]
    exact ⟨_, .disk i, rfl, hnew, decide_eq_true hdir, hnew.alike_disk ⟨hdir, .inr rfl⟩⟩
  · rw [hname, hshows, createDirectory, if_neg (ne_true_of_eq_false hram)]
    obtain ⟨ram, hcreate, hnodes, hnext, hfiles, hcount⟩ := RAMFS.createDir_spec hroom hfits
    have hnew := newNode_append hs _ hnodes hnext hfiles hcount
    have hnode : ({ s with ram := ram } : FileSystem).node (.ram s.ram.nextNode) =
        { name := file, flags := fsDirectory, inode := 0, handlers := .ramfsDir } := by
      rw [node_ram]
      dsimp only
      rw [hnodes, Function.update_self]
    have hshowsRam : ({ s with ram := ram } : FileSystem).ShowsRam (.ram s.ram.nextNode) := by
      unfold ShowsRam
      rw [hnode]
      exact ⟨fsDirectory_and, rfl⟩
    rw [hcreate]
    exact ⟨_, .ram s.ram.nextNode, rfl, hnew, decide_eq_true hshowsRam.1,
      hnew.alike_ram hshowsRam⟩

/-- A name that is longer than the array of the disk entry. -/
theorem createMissing_long (hroom : s.Room path)
    (hlong : (newName path file).fits (nameSize path) = false) (stack : ℕ → U8) :
    s.createMissing path file stack = none := by
  obtain ⟨hdisk, -, -, hlong, i, hslot⟩ | ⟨hram, -, -, hlong, hroom⟩ := hroom.cases hlong
  · rw [createMissing, if_pos hdisk, MesaFS.createFile, hslot]
    dsimp only
    rw [hlong, Bool.not_false, if_pos rfl, Option.map_none]
  · rw [createMissing, if_neg (ne_true_of_eq_false hram), RAMFS.createFile,
      if_neg (Nat.not_le.mpr hroom), hlong, Bool.not_false, if_pos rfl, Option.map_none]

theorem createDirectory_long (hroom : s.Room path)
    (hlong : (newName path file).fits (nameSize path) = false) (stack : ℕ → U8) :
    s.createDirectory path file stack = none := by
  obtain ⟨hdisk, -, -, hlong, i, hslot⟩ | ⟨hram, -, -, hlong, hroom⟩ := hroom.cases hlong
  · rw [createDirectory, if_pos hdisk, MesaFS.createDir, hslot]
    dsimp only
    rw [hlong, Bool.not_false, if_pos rfl, Option.map_none]
  · rw [createDirectory, if_neg (ne_true_of_eq_false hram), RAMFS.createDir,
      if_neg (Nat.not_le.mpr hroom), hlong, Bool.not_false, if_pos rfl, Option.map_none]

/-- A creation that reports a success whatever comes of it. -/
theorem reports_of_creation {create : Option FileSystem} {success : CString}
    {isKind : FileSystem → Node → Bool} {P : Prop}
    (hlong : s.Room path → (newName path file).fits (nameSize path) = false → create = none)
    (hnew : s.Room path → (newName path file).fits (nameSize path) = true →
      ∃ s', create = some s' ∧ ((∃ n, s'.findPath path = some n ∧ isKind s' n = true) ↔ P)) :
    s.Reports path success isKind (create.map fun t => (t, success)) ↔
      s.Room path ∧ (newName path file).fits (nameSize path) = true ∧ P := by
  constructor
  · rintro ⟨s', text, hr, hreport⟩
    obtain ⟨t, hcreate, heq⟩ := Option.map_eq_some_iff.mp hr
    obtain ⟨rfl, rfl⟩ := Prod.mk.inj heq
    obtain ⟨hroom, hfound⟩ := hreport rfl
    cases hfits : (newName path file).fits (nameSize path) with
    | false =>
      rw [hlong hroom hfits] at hcreate
      exact absurd hcreate.symm (Option.some_ne_none _)
    | true =>
      obtain ⟨u, hu, hiff⟩ := hnew hroom hfits
      obtain rfl := Option.some_inj.mp (hcreate.symm.trans hu)
      exact ⟨hroom, rfl, hiff.mp hfound⟩
  · rintro ⟨hroom, hfits, hP⟩
    obtain ⟨u, hu, hiff⟩ := hnew hroom hfits
    exact ⟨u, success, by rw [hu, Option.map_some], fun _ => ⟨hroom, hiff.mpr hP⟩⟩

/-- A node that was there before is of the same kind afterwards. -/
theorem NewNode.found_iff {s' : FileSystem} {shows : Node → Prop} {c : CString} {x n : Node}
    {isKind : FileSystem → Node → Bool} (h : s.NewNode s' shows c x)
    (hkind : s'.node n = s.node n → isKind s' n = isKind s n) (hn : s.findPath path = some n) :
    (∃ m, s'.findPath path = some m ∧ isKind s' m = true) ↔ isKind s n = true := by
  have hvalid : s.Valid n := valid_of_walk ((findPath_eq s path).symm.trans hn)
  rw [h.findPath_found hn, ← hkind (h.node n hvalid)]
  constructor
  · rintro ⟨m, hm, hm'⟩
    exact Option.some_inj.mp hm ▸ hm'
  · intro hk
    exact ⟨n, rfl, hk⟩

end

section

variable {s : FileSystem} {cwd arg : CString}

theorem touch_reports_iff (hs : s.WellFormed) (hpacked : s.disk.Packed)
    (hcwd : cwd.fits 128 = true) (harg : arg.fits 128 = true) (stack : ℕ → U8) :
    s.Reports (fullPath cwd arg) fileCreated isFile (s.touch cwd arg stack) ↔
      s.TouchWorks cwd arg := by
  by_cases hempty : arg.bytes.length > 0
  · rw [touch, if_pos hempty]
    dsimp only
    rw [fullPath_fits hcwd harg, Bool.not_true, if_neg Bool.false_ne_true, TouchWorks,
      imp_iff_right hempty]
    refine reports_of_creation (fun hroom hlong => createMissing_long hroom hlong stack)
      fun hroom hfits => ?_
    obtain ⟨s', x, hcreate, hnew, hfile⟩ := createMissing_spec hs hpacked hroom hfits stack
    refine ⟨s', hcreate, ?_⟩
    cases hpath : s.findPath (fullPath cwd arg) with
    | some n =>
      refine hnew.found_iff (fun hsame => ?_) hpath
      rw [isFile, isFile, hsame]
    | none => exact hnew.leads_file_iff hfile hpath
  · rw [touch, if_neg hempty]
    refine iff_of_true ⟨s, touchUsage, rfl, fun htext => ?_⟩ fun hpos => absurd hpos hempty
    exact absurd (congrArg CString.bytes htext) (by decide)

theorem mkdir_reports_iff (hs : s.WellFormed) (hpacked : s.disk.Packed)
    (hcwd : cwd.fits 128 = true) (harg : arg.fits 128 = true) (stack : ℕ → U8) :
    s.Reports (fullPath cwd arg) directoryCreated isDirectory (s.mkdir cwd arg stack) ↔
      s.MkdirWorks cwd arg := by
  by_cases hempty : arg.bytes.length > 0
  · rw [mkdir, if_pos hempty]
    dsimp only
    rw [fullPath_fits hcwd harg, Bool.not_true, if_neg Bool.false_ne_true, MkdirWorks,
      imp_iff_right hempty]
    refine reports_of_creation (fun hroom hlong => createDirectory_long hroom hlong stack)
      fun hroom hfits => ?_
    obtain ⟨s', x, hcreate, hnew, hdir, halike⟩ :=
      createDirectory_spec hs hpacked hroom hfits stack
    refine ⟨s', hcreate, ?_⟩
    cases hpath : s.findPath (fullPath cwd arg) with
    | some n =>
      refine hnew.found_iff (fun hsame => ?_) hpath
      rw [isDirectory, isDirectory, hsame]
    | none => exact hnew.leads_directory_iff hdir halike hpath
  · rw [mkdir, if_neg hempty]
    refine iff_of_true ⟨s, mkdirUsage, rfl, fun htext => ?_⟩ fun hpos => absurd hpos hempty
    exact absurd (congrArg CString.bytes htext) (by decide)

end

/-! ### The disk registry stays packed -/

theorem packed_boot {ram : RAMFS} {disk : Disk} {s : FileSystem} (h : boot ram disk = some s) :
    s.disk.Packed := by
  rw [boot] at h
  obtain ⟨⟨ram', r⟩, -, rfl⟩ := Option.map_eq_some_iff.mp h
  exact packed_initialize 2048 disk

theorem packed_created {s s' : MesaFS} {o : Option FsNode} (hpacked : s.Packed)
    (h : s.Created s' o) : s'.Packed := by
  rcases h with ⟨rfl, -⟩ | ⟨i, e, node, hslot, he, -, -, hentries, -, -⟩
  · exact hpacked
  · exact (MesaFS.adds_of_eq hpacked hslot he hentries).1

theorem present_write {s s' : MesaFS} {node : FsNode} {offset size n : U32}
    {buffer stack : ℕ → U8} (h : s.write node offset size buffer stack = some (s', n)) (i : ℕ) :
    (s'.entries i).present = (s.entries i).present := by
  obtain ⟨v, -, hv⟩ := Option.map_eq_some_iff.mp h
  obtain ⟨rfl, -⟩ := Prod.mk.inj hv
  rw [(saveMetadata_entries _ _).1, MesaFS.setEntry]
  dsimp only
  by_cases hi : i = node.inode
  · rw [hi, Function.update_self]
  · rw [Function.update_of_ne hi]

theorem packed_write {s s' : MesaFS} {node : FsNode} {offset size n : U32}
    {buffer stack : ℕ → U8} (hpacked : s.Packed)
    (h : s.write node offset size buffer stack = some (s', n)) : s'.Packed := by
  obtain ⟨m, hm, hpresent⟩ := hpacked
  exact ⟨m, hm, fun i hi => (present_write h i).trans (hpresent i hi)⟩

theorem packed_writeFs {s s' : FileSystem} {n : Node} {offset size m : U32}
    {buffer stack : ℕ → U8} (hpacked : s.disk.Packed)
    (h : s.writeFs n offset size buffer stack = some (s', m)) : s'.disk.Packed := by
  unfold writeFs at h
  split at h
  · obtain ⟨⟨ram, k⟩, -, heq⟩ := Option.map_eq_some_iff.mp h
    obtain ⟨rfl, -⟩ := Prod.mk.inj heq
    exact hpacked
  · obtain ⟨⟨disk, k⟩, hwrite, heq⟩ := Option.map_eq_some_iff.mp h
    obtain ⟨rfl, -⟩ := Prod.mk.inj heq
    exact packed_write hpacked hwrite
  · obtain ⟨⟨disk, k⟩, hwrite, heq⟩ := Option.map_eq_some_iff.mp h
    obtain ⟨rfl, -⟩ := Prod.mk.inj heq
    exact packed_write hpacked hwrite
  · obtain ⟨rfl, -⟩ := Prod.mk.inj (Option.some_inj.mp h)
    exact hpacked

theorem packed_step {s s' : FileSystem} {call : Call} (hpacked : s.disk.Packed)
    (hstep : s.step call = some s') : s'.disk.Packed := by
  cases call with
  | createFile name content =>
    obtain ⟨p, -, rfl⟩ := Option.map_eq_some_iff.mp hstep
    exact hpacked
  | createDir name =>
    obtain ⟨p, -, rfl⟩ := Option.map_eq_some_iff.mp hstep
    exact hpacked
  | deleteFile name =>
    obtain rfl := Option.some_inj.mp hstep
    exact hpacked
  | createEntry name uid gid mode stack =>
    obtain ⟨p, hcreate, rfl⟩ := Option.map_eq_some_iff.mp hstep
    exact packed_created hpacked (MesaFS.createFile_cases hcreate)
  | createEntryDir name uid gid mode stack =>
    obtain ⟨p, hcreate, rfl⟩ := Option.map_eq_some_iff.mp hstep
    exact packed_created hpacked (MesaFS.createDir_cases hcreate)
  | write node offset size buffer stack =>
    rw [step] at hstep
    split at hstep
    · obtain ⟨⟨t, m⟩, hwrite, rfl⟩ := Option.map_eq_some_iff.mp hstep
      exact packed_writeFs hpacked hwrite
    · exact absurd hstep.symm (Option.some_ne_none _)

theorem packed_of_run {ram : RAMFS} {disk : Disk} {s₀ s : FileSystem} {calls : List Call}
    (hboot : boot ram disk = some s₀) (hrun : run step s₀ calls = some s) : s.disk.Packed :=
  run_keeps (fun _ _ _ => packed_step) (packed_boot hboot) hrun

/-! ### The commands -/

end FileSystem

end MesaOS.FS
