/-
Output redirection (`kernel/shell.cpp`).

For `command > f` and `command >> f` the shell keeps the name `f` as it was typed.  Three
places turn it into a file, each in its own way: truncation deletes the first file of the
RAM file system that is called `f`, writing follows the full path of `f`, and a missing file
is created under the name `f` itself, or under what comes behind `/disk/` in the full path.

* `redirect_iff` — `f` ends up with the output, and nothing else changes, just when the
  three agree (`RedirectWorks`);
* `run_kprint_ram`, `run_kprint_disk` — however the output is cut into pieces, they are
  appended one behind the other to the file that the path leads to;
* `stuck_run` — a path that its own file cannot be created for leads nowhere at the end.
-/
import MesaOS.FileContents

open MachineWord Runs DirectoryWalk FileStore

namespace MesaOS.FS

/-! ### The shell -/

/-- A call of `kprint`: the text, and what `save_metadata` finds on the stack in
`create_file` and in `write`. -/
structure Print where
  text : CString
  created : ℕ → U8
  written : ℕ → U8

/-- The output of a command. -/
def output (outs : List Print) : List U8 := outs.flatMap fun t => t.text.bytes

theorem output_cons (t : Print) (outs : List Print) :
    output (t :: outs) = t.text.bytes ++ output outs := List.flatMap_cons

/-- `full_path` in the commands of the shell. -/
def fullPath (cwd file : CString) : CString :=
  if file.bytes.head? = some slash then file
  else
    let path := if cwd.bytes.getLast? = some slash then cwd
      else cwd.append (.ofChar slash zero_ne_slash)
    path.append file

namespace FileSystem

/-- The calls of `create_file` in `kprint`. -/
def createMissing (s : FileSystem) (path file : CString) (stack : ℕ → U8) : Option FileSystem :=
  if diskPrefix.isPrefixOf path.bytes then
    (s.disk.createFile (path.drop 6) 0 0 0o644 stack).map fun (disk, _) => { s with disk := disk }
  else (s.ram.createFile file (some .empty)).map fun (ram, _) => { s with ram := ram }

/-- `Shell::kprint` while `redir_out` is set. -/
def kprint (s : FileSystem) (cwd file : CString) (t : Print) : Option FileSystem :=
  let path := fullPath cwd file
  if !path.fits 256 then none
  else
    let looked := match s.findPath path with
      | some node => some (s, some node)
      | none => (s.createMissing path file t.created).map fun s => (s, s.findPath path)
    looked.bind fun (s, node) =>
      match node with
      | some node =>
        (s.writeFs node (s.node node).length (BitVec.ofNat 32 t.text.bytes.length)
          (fun k => t.text.bytes.getD k 0) t.written).map Prod.fst
      | none => some s

/-- The branch of `Shell::execute_command` that deletes the file first. -/
def truncate (s : FileSystem) (cwd file : CString) : Option FileSystem :=
  let path := fullPath cwd file
  if !path.fits 256 then none
  else
    match s.findPath path with
    | some _ => some { s with ram := (s.ram.deleteFile file).1 }
    | none => some s

/-- `Shell::execute_command` on `command > file` or `command >> file`, for a command that only
prints; `redir_file` has 128 characters. -/
def redirect (s : FileSystem) (cwd file : CString) (append : Bool) (outs : List Print) :
    Option FileSystem :=
  if !file.fits 128 then none
  else
    (if append then some s else s.truncate cwd file).bind fun s =>
      run (fun s t => s.kprint cwd file t) s outs

/-! ### What it ought to do, and when it does -/

/-- Every node but the one that the path led to before is there with the same fields and
content, and is not the one that it leads to now; and that one is the only new one. -/
def OthersKept (s s' : FileSystem) (before : Option Node) (after : Node) : Prop :=
  (∀ m, s.Exists m → before ≠ some m →
    m ≠ after ∧ s'.Exists m ∧ s'.node m = s.node m ∧ s'.content m = s.content m) ∧
  ∀ m, s'.Exists m → s.Exists m ∨ m = after

/-- What a missing file holds, or the one that the path leads to. -/
def oldContent (s : FileSystem) (path : CString) : Option (List U8) :=
  match s.findPath path with
  | some n => s.content n
  | none => some []

/-- The file that the full path leads to has the output, behind its old content with `>>`,
and the others are as they were. -/
def RedirectMeets (s : FileSystem) (cwd file : CString) (append : Bool) (outs : List Print) :
    Prop :=
  ∃ s' n old, s.redirect cwd file append outs = some s' ∧
    s.oldContent (fullPath cwd file) = some old ∧ s'.findPath (fullPath cwd file) = some n ∧
    s'.content n = some ((if append then old else []) ++ output outs) ∧
    s.OthersKept s' (s.findPath (fullPath cwd file)) n

end FileSystem

/-- No other file reads the bytes that are written to `p`, or they are there already. -/
def RAMFS.WriteSpares (s : RAMFS) (p offset : ℕ) (bs : List U8) : Prop :=
  ∀ q ∈ s.listed, (s.nodes q).handlers = .ramfsFile → q ≠ p → s.contentsOf q = s.contentsOf p →
    ∀ k < (s.nodes q).length.toNat, offset ≤ k → k < min 4096 (offset + bs.length) →
      s.page (s.contentsOf q) k = bs.getD (k - offset) 0

/-- Every file finds in its slot what it has in `before`, when the next new file gets the
block of the next free slot and `bs` is written to it. -/
def RAMFS.CreateSpares (s before : RAMFS) (bs : List U8) : Prop :=
  ∀ q ∈ s.listed, (s.nodes q).handlers = .ramfsFile → ∀ k < (s.nodes q).length.toNat,
    (if Function.update s.fileContents s.fileCount s.pmm.allocateBlock.2 (s.nodes q).inode =
        s.pmm.allocateBlock.2 then bs.getD k 0
      else s.page
        (Function.update s.fileContents s.fileCount s.pmm.allocateBlock.2 (s.nodes q).inode) k) =
      before.page (before.contentsOf q) k

instance (s before : RAMFS) (bs : List U8) : Decidable (s.CreateSpares before bs) :=
  inferInstanceAs (Decidable (∀ q ∈ s.listed, _ → ∀ k < _, _ = _))

/-- No file but the one in slot `i` reads the bytes that are written from byte `start` of the
partition on, or they are there already. -/
def MesaFS.WriteSpares (s : MesaFS) (i start : ℕ) (bs : List U8) : Prop :=
  ∀ j < maxEntries, (s.entries j).IsFile → j ≠ i → ∀ k < (s.entries j).length.toNat,
    start ≤ 512 * (s.entries j).lbaStart.toNat + k →
    512 * (s.entries j).lbaStart.toNat + k < start + bs.length →
      byteAt s.baseLba s.disk (512 * (s.entries j).lbaStart.toNat + k) =
        bs.getD (512 * (s.entries j).lbaStart.toNat + k - start) 0

set_option synthInstance.maxSize 1000 in
instance (s : MesaFS) (i start : ℕ) (bs : List U8) : Decidable (s.WriteSpares i start bs) :=
  inferInstanceAs (Decidable (∀ j < maxEntries, _ → _ → ∀ k < _, _ → _ → _ = _))

namespace FileSystem

/-- A file can be created where the path leads, and the others are not touched. -/
def Creates (s : FileSystem) (path file : CString) (bs : List U8) : Prop :=
  if diskPrefix.isPrefixOf path.bytes then
    s.Leads s.ShowsDisk path (path.drop 6) ∧
      ∃ i ∈ s.disk.freeSlot, s.disk.WriteSpares i (512 * (100 + i * 10)) bs
  else
    s.Leads s.ShowsRam path file ∧ s.ram.fileCount < maxFiles ∧ s.ram.CreateSpares s.ram bs

instance (s : FileSystem) (path file : CString) (bs : List U8) :
    Decidable (s.Creates path file bs) :=
  inferInstanceAs (Decidable (if diskPrefix.isPrefixOf path.bytes = true then
    s.Leads s.ShowsDisk path (path.drop 6) ∧
      ∃ i ∈ s.disk.freeSlot, s.disk.WriteSpares i (512 * (100 + i * 10)) bs
  else
    s.Leads s.ShowsRam path file ∧ s.ram.fileCount < maxFiles ∧ s.ram.CreateSpares s.ram bs))

/-- Without truncation the file holds the output alone. -/
def Untruncated (s : FileSystem) (n : Node) (bs : List U8) : Prop :=
  match n with
  | .ram p => (s.ram.bytesOf p ++ bs).take 4096 = bs
  | .disk i => (s.disk.entries i).length = 0

/-- Writing at the end of a file does not touch the others. -/
def AppendSpares (s : FileSystem) (n : Node) (bs : List U8) : Prop :=
  match n with
  | .ram p => s.ram.WriteSpares p (s.ram.nodes p).length.toNat bs
  | .disk i => s.disk.WriteSpares i
      (512 * (s.disk.entries i).lbaStart.toNat + (s.disk.entries i).length.toNat) bs

/-- The file is deleted and created again under its path, and the others are not touched. -/
def Replaces (s : FileSystem) (path file : CString) (bs : List U8) : Prop :=
  (s.ram.deleteFile file).1.finddir file = none ∧
    diskPrefix.isPrefixOf path.bytes = false ∧ (s.ram.deleteFile file).1.CreateSpares s.ram bs

/-- The condition under which a redirection does what it ought to. -/
def RedirectWorks (s : FileSystem) (cwd file : CString) (append : Bool) (outs : List Print) :
    Prop :=
  file.fits 128 = true ∧
    match s.findPath (fullPath cwd file) with
    | none => outs ≠ [] ∧ s.Creates (fullPath cwd file) file (output outs)
    | some n => s.isFile n = true ∧
      match if append then none else s.ram.finddir file with
      | none => (append = true ∨ s.Untruncated n (output outs)) ∧ s.AppendSpares n (output outs)
      | some d => n = .ram d ∧ outs ≠ [] ∧ s.Replaces (fullPath cwd file) file (output outs)

/-- The room that a file has: a page, or ten sectors. -/
def capacity : Node → ℕ
  | .ram _ => 4096
  | .disk _ => 512 * extentSectors

/-! ### Pieces of output for a file that is there -/

theorem kprint_of_found {s : FileSystem} {cwd file : CString} {t : Print} {n : Node}
    (hfits : (fullPath cwd file).fits 256 = true)
    (hn : s.findPath (fullPath cwd file) = some n) :
    s.kprint cwd file t =
      (s.writeFs n (s.node n).length (BitVec.ofNat 32 t.text.bytes.length)
        (fun k => t.text.bytes.getD k 0) t.written).map Prod.fst := by
  rw [kprint]
  dsimp only
  rw [hfits, hn]
  rfl

theorem fits_of_kprint {s s' : FileSystem} {cwd file : CString} {t : Print}
    (h : s.kprint cwd file t = some s') : (fullPath cwd file).fits 256 = true := by
  rw [kprint] at h
  dsimp only at h
  cases hf : (fullPath cwd file).fits 256 with
  | true => rfl
  | false =>
    rw [hf] at h
    exact absurd h (by simp)

/-- One piece for a file of the RAM file system. -/
theorem kprint_ram {s : FileSystem} {cwd file : CString} {t : Print} {p : ℕ}
    (hfits : (fullPath cwd file).fits 256 = true)
    (hn : s.findPath (fullPath cwd file) = some (.ram p)) (hreg : (s.ram.nodes p).Regular)
    (hlen : t.text.bytes.length ≤ 4096) :
    s.kprint cwd file t =
      some { s with ram := s.ram.put p (s.ram.nodes p).length.toNat t.text.bytes } := by
  have hle := hreg.length
  obtain ⟨n, hwrite⟩ : ∃ n, s.ram.write p (s.ram.nodes p).length
      (BitVec.ofNat 32 t.text.bytes.length) (fun k => t.text.bytes.getD k 0) =
        some (s.ram.put p (s.ram.nodes p).length.toNat t.text.bytes, n) :=
    RAMFS.write_eq_put hle hle (by omega)
  rw [kprint_of_found hfits hn, writeFs_ram hreg.handlers, node_ram, hwrite]
  rfl

/-- **The pieces are appended**, one behind the other, to a file of the RAM file system. -/
theorem run_kprint_ram {s : FileSystem} {cwd file : CString} {outs : List Print} {p : ℕ}
    (hfits : (fullPath cwd file).fits 256 = true)
    (hn : s.findPath (fullPath cwd file) = some (.ram p)) (hreg : (s.ram.nodes p).Regular)
    (htotal : (output outs).length ≤ 4096) :
    run (fun s t => s.kprint cwd file t) s outs =
      some { s with ram := s.ram.put p (s.ram.nodes p).length.toNat (output outs) } := by
  induction outs generalizing s with
  | nil =>
    rw [run_nil, output, List.flatMap_nil, RAMFS.put_nil hreg.length]
  | cons t outs ih =>
    rw [output_cons, List.length_append] at htotal
    rw [run_cons, kprint_ram hfits hn hreg (by omega), Option.bind_some]
    have hn' : ({ s with ram := s.ram.put p (s.ram.nodes p).length.toNat t.text.bytes } :
        FileSystem).findPath (fullPath cwd file) = some (.ram p) := by
      have hfind : ({ s with ram := s.ram.put p (s.ram.nodes p).length.toNat t.text.bytes } :
          FileSystem).finddirFs = s.finddirFs := finddirFs_setNodeLength s rfl rfl
      rw [findPath_eq] at hn ⊢
      rw [hfind]
      exact hn
    rw [ih hn' (RAMFS.regular_put hreg) (by omega)]
    dsimp only
    rw [RAMFS.put_put hreg.length, output_cons]

/-- One piece for an entry of the disk. -/
theorem kprint_disk {s : FileSystem} {cwd file : CString} {t : Print} {i : ℕ}
    (hfits : (fullPath cwd file).fits 256 = true)
    (hn : s.findPath (fullPath cwd file) = some (.disk i))
    (hlba : (s.disk.entries i).lbaStart.toNat ≤ 170)
    (hsum : (s.disk.entries i).length.toNat + t.text.bytes.length < 2 ^ 32) :
    ∃ disk, s.kprint cwd file t = some { s with disk := disk } ∧
      s.disk.Put disk i (s.disk.entries i).length.toNat t.text.bytes := by
  have hlba' : (s.disk.entries (s.node (.disk i)).inode).lbaStart.toNat + 2 ^ 23 ≤ 2 ^ 28 := by
    rw [inode_disk]
    omega
  obtain ⟨disk, n, hwrite, hput⟩ := MesaFS.write_put t.written hlba' hsum
  refine ⟨disk, ?_, hput⟩
  rw [kprint_of_found hfits hn, writeFs_disk, length_disk, hwrite]
  rfl

/-- **The pieces are appended**, one behind the other, to a file of the disk. -/
theorem run_kprint_disk {s : FileSystem} {cwd file : CString} {outs : List Print} {i : ℕ}
    (hfits : (fullPath cwd file).fits 256 = true)
    (hn : s.findPath (fullPath cwd file) = some (.disk i))
    (hlba : (s.disk.entries i).lbaStart.toNat ≤ 170)
    (hsum : (s.disk.entries i).length.toNat + (output outs).length < 2 ^ 32) :
    ∃ disk, run (fun s t => s.kprint cwd file t) s outs = some { s with disk := disk } ∧
      s.disk.Put disk i (s.disk.entries i).length.toNat (output outs) := by
  induction outs generalizing s with
  | nil => exact ⟨s.disk, rfl, MesaFS.Put.refl _ _⟩
  | cons t outs ih =>
    rw [output_cons, List.length_append] at hsum
    obtain ⟨disk, hprint, hput⟩ := kprint_disk hfits hn hlba (t := t) (by omega)
    have hlength := hput.length (by omega)
    have hn' : ({ s with disk := disk } : FileSystem).findPath (fullPath cwd file) =
        some (.disk i) := by
      rw [findPath_eq] at hn ⊢
      rw [finddirFs_setLength s hput.entries]
      exact hn
    have hmax : max (s.disk.entries i).length.toNat
        ((s.disk.entries i).length.toNat + t.text.bytes.length) =
        (s.disk.entries i).length.toNat + t.text.bytes.length := by omega
    rw [hmax] at hlength
    obtain ⟨disk', hrun, hput'⟩ := ih hn' (by rw [hput.lbaStart]; exact hlba)
      (by dsimp only; rw [hlength]; omega)
    refine ⟨disk', ?_, ?_⟩
    · rw [run_cons, hprint, Option.bind_some]
      exact hrun
    · rw [output_cons]
      dsimp only at hput'
      rw [hlength] at hput'
      exact hput.trans hput' (by omega)

/-! ### What any piece leaves alone -/

/-- Pieces for a node that the path leads to leave all paths as they are. -/
theorem samePaths_run {s s' : FileSystem} (hs : s.WellFormed) {cwd file : CString} {n : Node}
    {outs : List Print} (hn : s.findPath (fullPath cwd file) = some n)
    (h : run (fun s t => s.kprint cwd file t) s outs = some s') :
    s.SamePaths s' := by
  have hstep : ∀ (u : FileSystem) (t : Print) (u' : FileSystem),
      u.WellFormed ∧ s.SamePaths u → u.kprint cwd file t = some u' →
        u'.WellFormed ∧ s.SamePaths u' := by
    rintro u t u' ⟨hu, hsame⟩ hprint
    have hn' := (hsame.findPath _).trans hn
    rw [kprint_of_found (fits_of_kprint hprint) hn'] at hprint
    obtain ⟨⟨v, m⟩, hwrite, rfl⟩ := Option.map_eq_some_iff.mp hprint
    obtain ⟨hv, hsame'⟩ := samePaths_writeFs hu (valid_of_walk ((findPath_eq _ _).symm.trans hn'))
      hwrite
    exact ⟨hv, hsame.trans hsame'⟩
  exact (run_keeps hstep ⟨hs, .refl s⟩ h).2

/-! ### Missing files -/

/-- There is room for the file, and it will be found. -/
def Creatable (s : FileSystem) (path file : CString) : Prop :=
  if diskPrefix.isPrefixOf path.bytes then
    s.Leads s.ShowsDisk path (path.drop 6) ∧ s.disk.freeSlot ≠ none
  else s.Leads s.ShowsRam path file ∧ s.ram.fileCount < maxFiles

/-- `create_file` in the RAM file system. -/
theorem createMissing_ram {s : FileSystem} {path file : CString} {stack : ℕ → U8}
    (hdisk : diskPrefix.isPrefixOf path.bytes = false) (hfits : file.fits 128 = true)
    (hroom : s.ram.fileCount < maxFiles) :
    s.createMissing path file stack = some { s with ram := s.ram.created file } := by
  rw [createMissing, hdisk, if_neg Bool.false_ne_true, RAMFS.createFile_eq hroom hfits]
  rfl

theorem extends_created {s : FileSystem} (hs : s.WellFormed) (file : CString) :
    Extends s.Valid s.ShowsRam s.finddirFs
      ({ s with ram := s.ram.created file } : FileSystem).finddirFs file
      (.ram s.ram.nextNode) :=
  extends_append hs (n := { name := file, flags := fsFile, inode := s.ram.fileCount
                            handlers := .ramfsFile })
    ⟨rfl, rfl, Nat.zero_le _⟩ rfl rfl (s.ram.listed_created file)

/-- `create_file` on the disk. -/
theorem createMissing_disk {s s' : FileSystem} {path file : CString} {stack : ℕ → U8} {i : ℕ}
    (hdisk : diskPrefix.isPrefixOf path.bytes = true) (hslot : s.disk.freeSlot = some i)
    (h : s.createMissing path file stack = some s') :
    ∃ disk e, s' = { s with disk := disk } ∧ e.present = true ∧ e.flags = 1 ∧
      e.name = path.drop 6 ∧ e.length = 0 ∧ e.lbaStart = BitVec.ofNat 32 (100 + i * 10) ∧
      disk.entries = Function.update s.disk.entries i e ∧ disk.baseLba = s.disk.baseLba ∧
      ∀ a < 512 * 2 ^ 28, a / 512 ≠ 1 →
        byteAt s.disk.baseLba disk.disk a = byteAt s.disk.baseLba s.disk.disk a := by
  rw [createMissing, hdisk, if_pos rfl] at h
  obtain ⟨⟨disk, o⟩, hcreate, rfl⟩ := Option.map_eq_some_iff.mp h
  obtain ⟨hbase, hbytes⟩ := MesaFS.createFile_frame hcreate
  cases hname : (path.drop 6).fits 64 with
  | false =>
    rw [MesaFS.createFile, hslot] at hcreate
    dsimp only at hcreate
    rw [hname] at hcreate
    exact absurd hcreate (by simp)
  | true =>
    obtain ⟨disk', node, hcreate', -, hentries⟩ :=
      MesaFS.createFile_spec hslot hname 0 0 0o644 stack
    rw [hcreate', Option.some_inj, Prod.mk.injEq] at hcreate
    obtain ⟨rfl, -⟩ := hcreate
    exact ⟨_, _, rfl, rfl, rfl, rfl, rfl, rfl, hentries, hbase, hbytes⟩

/-- A missing file for which there is no room is not created. -/
theorem createMissing_full {s s' : FileSystem} {path file : CString} {stack : ℕ → U8}
    (hfull : if diskPrefix.isPrefixOf path.bytes then s.disk.freeSlot = none
      else maxFiles ≤ s.ram.fileCount)
    (h : s.createMissing path file stack = some s') : s' = s := by
  rw [createMissing] at h
  by_cases hdisk : diskPrefix.isPrefixOf path.bytes = true
  · rw [if_pos hdisk] at h hfull
    rw [MesaFS.createFile, hfull, Option.map_some, Option.some_inj] at h
    exact h.symm
  · rw [if_neg hdisk] at h hfull
    rw [RAMFS.createFile, if_pos hfull, Option.map_some, Option.some_inj] at h
    exact h.symm

theorem wellFormed_createMissing {s s' : FileSystem} (hs : s.WellFormed) {path file : CString}
    {stack : ℕ → U8} (h : s.createMissing path file stack = some s') : s'.WellFormed := by
  rw [createMissing] at h
  split at h
  · obtain ⟨⟨disk, o⟩, hcreate, rfl⟩ := Option.map_eq_some_iff.mp h
    exact hs.created (MesaFS.createFile_cases hcreate)
  · obtain ⟨⟨ram, r⟩, hcreate, rfl⟩ := Option.map_eq_some_iff.mp h
    exact wellFormed_createFile hs hcreate

/-- Only a new node is added to the registry. -/
theorem listed_createMissing {s s' : FileSystem} {path file : CString}
    {stack : ℕ → U8} (hfits : file.fits 128 = true)
    (h : s.createMissing path file stack = some s') :
    s.ram.nextNode ≤ s'.ram.nextNode ∧
      ∀ p ∈ s'.ram.listed, p ∈ s.ram.listed ∨ s.ram.nextNode ≤ p := by
  cases hdisk : diskPrefix.isPrefixOf path.bytes with
  | true =>
    rw [createMissing, if_pos hdisk] at h
    obtain ⟨⟨disk, o⟩, -, rfl⟩ := Option.map_eq_some_iff.mp h
    exact ⟨Nat.le_refl _, fun p hp => .inl hp⟩
  | false =>
    by_cases hroom : s.ram.fileCount < maxFiles
    · rw [createMissing_ram hdisk hfits hroom, Option.some_inj] at h
      subst h
      refine ⟨Nat.le_succ _, fun p hp => ?_⟩
      rw [RAMFS.listed_created, List.mem_append, List.mem_singleton] at hp
      exact hp.imp_right fun hp => hp.ge
    · obtain rfl := createMissing_full
        (by rw [hdisk, if_neg Bool.false_ne_true]; exact Nat.le_of_not_lt hroom) h
      exact ⟨Nat.le_refl _, fun p hp => .inl hp⟩

/-- A file that is created under another name than its path ends with is not found, and this
does not change the next time. -/
theorem stuck_createMissing {s s' : FileSystem} (hs : s.WellFormed) {path file : CString}
    {stack : ℕ → U8} (hfits : file.fits 128 = true)
    (h : s.createMissing path file stack = some s') (hnone : s.findPath path = none)
    (hstuck : ¬ s.Creatable path file) :
    s'.findPath path = none ∧ ¬ s'.Creatable path file := by
  cases hdisk : diskPrefix.isPrefixOf path.bytes with
  | true =>
    cases hslot : s.disk.freeSlot with
    | none =>
      obtain rfl := createMissing_full (by rw [if_pos hdisk, hslot]) h
      exact ⟨hnone, hstuck⟩
    | some i =>
      obtain ⟨disk, e, rfl, he, hflags, hname, -, -, hentries, -, -⟩ :=
        createMissing_disk hdisk hslot h
      have hext := extends_setEntry hslot he hflags hentries
      rw [hname] at hext
      rw [Creatable, if_pos hdisk, hslot] at hstuck
      have hleads : ¬ s.Leads s.ShowsDisk path (path.drop 6) := fun hw => hstuck ⟨hw, by simp⟩
      refine ⟨findPath_still_none hext rfl hnone hleads, fun hc => hleads ?_⟩
      rw [Creatable, if_pos hdisk] at hc
      refine leads_of_extends hext rfl (fun d _ hd hd' => ?_) (fun hx => ?_) hc.1
      · unfold ShowsDisk at hd' ⊢
        rwa [node_setEntry hslot hentries hd] at hd'
      · -- the new entry is a file
        have hfile : ({ s with disk := disk } : FileSystem).isFile (.disk i) = true := by
          refine isFile_disk.mpr ?_
          dsimp only
          rw [hentries, Function.update_self, hflags]
          decide
        have hdir := hx.1
        rw [of_decide_eq_true hfile] at hdir
        exact absurd hdir (by decide)
  | false =>
    by_cases hroom : s.ram.fileCount < maxFiles
    · rw [createMissing_ram hdisk hfits hroom, Option.some_inj] at h
      subst h
      have hext := extends_created hs file
      rw [Creatable, hdisk, if_neg Bool.false_ne_true] at hstuck
      have hleads : ¬ s.Leads s.ShowsRam path file := fun hw => hstuck ⟨hw, hroom⟩
      refine ⟨findPath_still_none hext rfl hnone hleads, fun hc => hleads ?_⟩
      rw [Creatable, hdisk, if_neg Bool.false_ne_true] at hc
      refine leads_of_extends hext rfl (fun d _ hd hd' => ?_) (fun hx => ?_) hc.1
      · unfold ShowsRam at hd' ⊢
        rwa [node_append hs rfl hd] at hd'
      · have hfile : ({ s with ram := s.ram.created file } : FileSystem).isFile
            (.ram s.ram.nextNode) = true := isFile_ram (s.ram.regular_created file)
        have hdir := hx.1
        rw [of_decide_eq_true hfile] at hdir
        exact absurd hdir (by decide)
    · obtain rfl := createMissing_full
        (by rw [hdisk, if_neg Bool.false_ne_true]; exact Nat.le_of_not_lt hroom) h
      exact ⟨hnone, hstuck⟩

/-! ### Pieces of output for a missing file -/

theorem kprint_of_missing {s : FileSystem} {cwd file : CString} {t : Print}
    (hfits : (fullPath cwd file).fits 256 = true)
    (hnone : s.findPath (fullPath cwd file) = none) :
    s.kprint cwd file t =
      (s.createMissing (fullPath cwd file) file t.created).bind fun s =>
        match s.findPath (fullPath cwd file) with
        | some node =>
          (s.writeFs node (s.node node).length (BitVec.ofNat 32 t.text.bytes.length)
            (fun k => t.text.bytes.getD k 0) t.written).map Prod.fst
        | none => some s := by
  rw [kprint]
  dsimp only
  rw [hfits, hnone, Bool.not_true, if_neg Bool.false_ne_true, Option.bind_map]
  rfl

/-- Once the file has been created where the path leads, the pieces go into it. -/
theorem run_kprint_created {s s₁ : FileSystem} {cwd file : CString} {t : Print}
    {outs : List Print} {x : Node} (hfits : (fullPath cwd file).fits 256 = true)
    (hnone : s.findPath (fullPath cwd file) = none)
    (hcreate : s.createMissing (fullPath cwd file) file t.created = some s₁)
    (hx : s₁.findPath (fullPath cwd file) = some x) :
    run (fun s t => s.kprint cwd file t) s (t :: outs) =
      run (fun s t => s.kprint cwd file t) s₁ (t :: outs) := by
  have hsame : s.kprint cwd file t = s₁.kprint cwd file t := by
    rw [kprint_of_missing hfits hnone, hcreate, Option.bind_some, kprint_of_found hfits hx, hx]
  rw [run_cons, run_cons, hsame]

/-- The path of a file that is not created where it leads leads nowhere after any run. -/
theorem stuck_run {s s' : FileSystem} (hs : s.WellFormed) {cwd file : CString}
    {outs : List Print} (hfits : file.fits 128 = true)
    (hnone : s.findPath (fullPath cwd file) = none)
    (hstuck : ¬ s.Creatable (fullPath cwd file) file)
    (h : run (fun s t => s.kprint cwd file t) s outs = some s') :
    s'.findPath (fullPath cwd file) = none := by
  have hstep : ∀ (u : FileSystem) (t : Print) (u' : FileSystem),
      u.WellFormed ∧ u.findPath (fullPath cwd file) = none ∧
        ¬ u.Creatable (fullPath cwd file) file → u.kprint cwd file t = some u' →
      u'.WellFormed ∧ u'.findPath (fullPath cwd file) = none ∧
        ¬ u'.Creatable (fullPath cwd file) file := by
    rintro u t u' ⟨hu, hn, hc⟩ hprint
    rw [kprint_of_missing (fits_of_kprint hprint) hn] at hprint
    obtain ⟨v, hcreate, hwrite⟩ := Option.bind_eq_some_iff.mp hprint
    obtain ⟨hn', hc'⟩ := stuck_createMissing hu hfits hcreate hn hc
    rw [hn'] at hwrite
    obtain rfl := Option.some_inj.mp hwrite
    exact ⟨wellFormed_createMissing hu hcreate, hn', hc'⟩
  exact (run_keeps hstep ⟨hs, hnone, hstuck⟩ h).2.1

/-- A node that is not in the registry does not get into it again. -/
theorem listed_run {s s' : FileSystem} (hs : s.WellFormed) {cwd file : CString}
    {outs : List Print} (hfits : file.fits 128 = true)
    (h : run (fun s t => s.kprint cwd file t) s outs = some s') :
    ∀ p ∈ s'.ram.listed, p ∈ s.ram.listed ∨ s.ram.nextNode ≤ p := by
  have hstep : ∀ (u : FileSystem) (t : Print) (u' : FileSystem),
      (u.WellFormed ∧ s.ram.nextNode ≤ u.ram.nextNode ∧
        ∀ p ∈ u.ram.listed, p ∈ s.ram.listed ∨ s.ram.nextNode ≤ p) →
      u.kprint cwd file t = some u' →
      u'.WellFormed ∧ s.ram.nextNode ≤ u'.ram.nextNode ∧
        ∀ p ∈ u'.ram.listed, p ∈ s.ram.listed ∨ s.ram.nextNode ≤ p := by
    rintro u t u' ⟨hu, hnext, hlisted⟩ hprint
    have hpath := fits_of_kprint hprint
    -- a write to a node that was found
    have hfound : ∀ (v : FileSystem) (n : Node), v.WellFormed → u.ram.nextNode ≤ v.ram.nextNode →
        (∀ p ∈ v.ram.listed, p ∈ u.ram.listed ∨ u.ram.nextNode ≤ p) →
        v.findPath (fullPath cwd file) = some n →
        (v.writeFs n (v.node n).length (BitVec.ofNat 32 t.text.bytes.length)
          (fun k => t.text.bytes.getD k 0) t.written).map Prod.fst = some u' →
        u'.WellFormed ∧ s.ram.nextNode ≤ u'.ram.nextNode ∧
          ∀ p ∈ u'.ram.listed, p ∈ s.ram.listed ∨ s.ram.nextNode ≤ p := by
      intro v n hv hle hl hn hwrite
      obtain ⟨⟨w, m⟩, hw, rfl⟩ := Option.map_eq_some_iff.mp hwrite
      obtain ⟨hwf, hsame⟩ := samePaths_writeFs hv
        (valid_of_walk ((findPath_eq _ _).symm.trans hn)) hw
      refine ⟨hwf, by rw [hsame.nextNode]; omega, fun p hp => ?_⟩
      rw [hsame.listed] at hp
      rcases hl p hp with hp | hp
      · exact hlisted p hp
      · exact .inr (Nat.le_trans hnext hp)
    cases hn : u.findPath (fullPath cwd file) with
    | some n =>
      rw [kprint_of_found hpath hn] at hprint
      exact hfound u n hu (Nat.le_refl _) (fun p hp => .inl hp) hn hprint
    | none =>
      rw [kprint_of_missing hpath hn] at hprint
      obtain ⟨v, hcreate, hwrite⟩ := Option.bind_eq_some_iff.mp hprint
      have hv := wellFormed_createMissing hu hcreate
      obtain ⟨hle, hl⟩ := listed_createMissing hfits hcreate
      cases hn' : v.findPath (fullPath cwd file) with
      | some n =>
        rw [hn'] at hwrite
        exact hfound v n hv hle hl hn' hwrite
      | none =>
        rw [hn'] at hwrite
        obtain rfl := Option.some_inj.mp hwrite
        refine ⟨hv, Nat.le_trans hnext hle, fun p hp => ?_⟩
        rcases hl p hp with hp | hp
        · exact hlisted p hp
        · exact .inr (Nat.le_trans hnext hp)
  exact (run_keeps hstep ⟨hs, Nat.le_refl _, fun p hp => .inl hp⟩ h).2.2

/-! ### The other files -/

theorem othersKept_ram {s : FileSystem} (hs : s.WellFormed) {ram : RAMFS} {before : Option Node}
    {a : ℕ} (hlisted : ∀ q, q ∈ ram.listed ↔ (q ∈ s.ram.listed ∧ before ≠ some (.ram q)) ∨ q = a)
    (hnodes : ∀ q ∈ s.ram.listed, before ≠ some (.ram q) → ram.nodes q = s.ram.nodes q)
    (ha : before = some (.ram a) ∨ a ∉ s.ram.listed) :
    s.OthersKept { s with ram := ram } before (.ram a) ↔
      ∀ q ∈ s.ram.listed, before ≠ some (.ram q) → (s.ram.nodes q).handlers = .ramfsFile →
        ram.bytesOf q = s.ram.bytesOf q := by
  set s' : FileSystem := { s with ram := ram } with hs'
  have hregular : ∀ q ∈ s.ram.listed, (s.ram.nodes q).handlers = .ramfsFile →
      (s.ram.nodes q).Regular := by
    intro q hq hf
    rcases hs.kind q hq with hreg | hdir
    · exact hreg
    · rcases hdir.handlers with hd | hd <;> exact absurd (hd.symm.trans hf) (by decide)
  have hcontent : ∀ q ∈ s.ram.listed, before ≠ some (.ram q) →
      (s.ram.nodes q).handlers = .ramfsFile → s'.content (.ram q) = some (ram.bytesOf q) := by
    intro q hq hb hf
    refine content_ram ?_
    rw [hs']
    dsimp only
    rw [hnodes q hq hb]
    exact hregular q hq hf
  constructor
  · intro h q hq hb hf
    have hsame := (h.1 (.ram q) hq hb).2.2.2
    rw [hcontent q hq hb hf, content_ram (hregular q hq hf), Option.some_inj] at hsame
    exact hsame
  · intro h
    refine ⟨fun m hm hb => ?_, fun m hm => ?_⟩
    · cases m with
      | ram q =>
        have hqa : q ≠ a := by
          rintro rfl
          exact ha.elim hb fun hna => hna hm
        refine ⟨fun heq => hqa (Node.ram.inj heq), (hlisted q).mpr (.inl ⟨hm, hb⟩),
          hnodes q hm hb, ?_⟩
        by_cases hf : (s.ram.nodes q).handlers = .ramfsFile
        · rw [hcontent q hm hb hf, content_ram (hregular q hm hf), h q hm hb hf]
        · have hdir := (hs.kind q hm).resolve_left fun hreg => hf hreg.handlers
          have hdir' : (s'.ram.nodes q).Directory := by
            rw [hs']
            dsimp only
            rwa [hnodes q hm hb]
          rw [content_directory hdir, content_directory hdir']
      | disk i => exact ⟨by simp, hm, rfl, rfl⟩
    · cases m with
      | ram q =>
        rcases (hlisted q).mp hm with hq | rfl
        · exact .inl hq.1
        · exact .inr rfl
      | disk i => exact .inl hm

theorem othersKept_disk {s : FileSystem} (hs : s.WellFormed) {disk : MesaFS}
    {before : Option Node} {i : ℕ}
    (hentries : ∀ j, j ≠ i → disk.entries j = s.disk.entries j)
    (hi : before = some (.disk i) ∨ (s.disk.entries i).present = false)
    (hbefore : ∀ j, before = some (.disk j) → j = i) :
    s.OthersKept { s with disk := disk } before (.disk i) ↔
      ∀ j < maxEntries, (s.disk.entries j).IsFile → j ≠ i →
        disk.bytesOf j = s.disk.bytesOf j := by
  set s' : FileSystem := { s with disk := disk } with hs'
  constructor
  · intro h j hj hfile hji
    have hsame := (h.1 (.disk j) ⟨hj, hfile.1⟩ fun hb => hji (hbefore j hb)).2.2.2
    have hflags : (s.disk.entries j).flags ≠ 2 := by
      rw [hfile.2]
      decide
    rw [content_disk hflags, content_disk (s := s') (by rw [hs']; dsimp only; rwa [hentries j hji]),
      Option.some_inj] at hsame
    exact hsame
  · intro h
    refine ⟨fun m hm hb => ?_, fun m hm => ?_⟩
    · cases m with
      | ram q =>
        refine ⟨by simp, hm, rfl, ?_⟩
        rcases hs.kind q hm with hreg | hdir
        · rw [content_ram hreg, content_ram (s := s') hreg]
        · rw [content_directory hdir, content_directory (s := s') hdir]
      | disk j =>
        have hji : j ≠ i := by
          rintro rfl
          exact hi.elim hb fun hfree => absurd (hm.2.symm.trans hfree) (by simp)
        have hentry := hentries j hji
        refine ⟨fun heq => hji (Node.disk.inj heq), ⟨hm.1, ?_⟩, ?_, ?_⟩
        · rw [hs']
          dsimp only
          rw [hentry]
          exact hm.2
        · unfold node
          dsimp only
          rw [hs']
          dsimp only
          rw [hentry]
        · by_cases hflags : (s.disk.entries j).flags = 2
          · rw [content_of_not_file fun hw => isFile_disk.mp hw hflags,
              content_of_not_file fun hw => isFile_disk.mp hw (by
                rw [hs']; dsimp only; rwa [hentry])]
          · have hfile : (s.disk.entries j).IsFile := by
              rcases hs.placed j hm.1 hm.2 with hp | hp
              · exact ⟨hm.2, hp.1⟩
              · exact absurd hp.1 hflags
            rw [content_disk hflags, content_disk (s := s') (by
              rw [hs']; dsimp only; rwa [hentry]), ← h j hm.1 hfile hji]
    · cases m with
      | ram q => exact .inl hm
      | disk j =>
        by_cases hji : j = i
        · exact .inr (by rw [hji])
        · refine .inl ⟨hm.1, ?_⟩
          have := hm.2
          rw [hs'] at this
          dsimp only at this
          rwa [hentries j hji] at this

/-! ### Case by case -/

theorem meets_iff {s s' : FileSystem} {cwd file : CString} {append : Bool} {outs : List Print}
    {n : Node} {old : List U8} (hredirect : s.redirect cwd file append outs = some s')
    (hold : s.oldContent (fullPath cwd file) = some old)
    (hpath : s'.findPath (fullPath cwd file) = some n) :
    s.RedirectMeets cwd file append outs ↔
      s'.content n = some ((if append then old else []) ++ output outs) ∧
        s.OthersKept s' (s.findPath (fullPath cwd file)) n := by
  constructor
  · rintro ⟨t, m, old', ht, hold', hm, hcontent, hothers⟩
    rw [hredirect, Option.some_inj] at ht
    subst ht
    rw [hpath, Option.some_inj] at hm
    subst hm
    rw [hold, Option.some_inj] at hold'
    subst hold'
    exact ⟨hcontent, hothers⟩
  · intro h
    exact ⟨s', n, old, hredirect, hold, hpath, h.1, h.2⟩

theorem not_meets_of_none {s : FileSystem} {cwd file : CString} {append : Bool}
    {outs : List Print} (h : ∀ s', s.redirect cwd file append outs = some s' →
      s'.findPath (fullPath cwd file) = none) : ¬ s.RedirectMeets cwd file append outs := by
  rintro ⟨s', n, old, hredirect, -, hpath, -⟩
  rw [h s' hredirect] at hpath
  exact absurd hpath (by simp)

section

variable {s : FileSystem} {cwd file : CString} {append : Bool} {outs : List Print}

theorem fullPath_fits (hcwd : cwd.fits 128 = true) (hfits : file.fits 128 = true) :
    (fullPath cwd file).fits 256 = true := by
  have hcwd' := of_decide_eq_true hcwd
  have hfits' := of_decide_eq_true hfits
  refine decide_eq_true ?_
  rw [fullPath]
  by_cases habs : file.bytes.head? = some slash
  · rw [if_pos habs]
    omega
  · rw [if_neg habs]
    by_cases hslash : cwd.bytes.getLast? = some slash
    · simp only [hslash, if_true, CString.append, List.length_append]
      omega
    · simp only [hslash, if_false, CString.append, CString.ofChar, List.length_append,
        List.length_singleton]
      omega

/-- Where there is nothing to delete, the redirection is the output alone. -/
theorem redirect_eq_run (hcwd : cwd.fits 128 = true) (hfits : file.fits 128 = true)
    (h : append = true ∨ s.findPath (fullPath cwd file) = none ∨ s.ram.finddir file = none) :
    s.redirect cwd file append outs = run (fun s t => s.kprint cwd file t) s outs := by
  rw [redirect, hfits, Bool.not_true, if_neg Bool.false_ne_true]
  cases append with
  | true => rfl
  | false =>
    rw [if_neg Bool.false_ne_true, truncate, fullPath_fits hcwd hfits, Bool.not_true, if_neg Bool.false_ne_true]
    cases hn : s.findPath (fullPath cwd file) with
    | none => rfl
    | some n =>
      rw [hn] at h
      have hnone := (h.resolve_left (by simp)).resolve_left (by simp)
      dsimp only
      rw [RAMFS.deleteFile_of_none hnone]
      rfl

theorem redirect_deleted (hcwd : cwd.fits 128 = true) (hfits : file.fits 128 = true) {n : Node}
    (hn : s.findPath (fullPath cwd file) = some n) :
    s.redirect cwd file false outs = run (fun s t => s.kprint cwd file t)
      { s with ram := (s.ram.deleteFile file).1 } outs := by
  rw [redirect, hfits, Bool.not_true, if_neg Bool.false_ne_true, if_neg Bool.false_ne_true,
    truncate, fullPath_fits hcwd hfits, Bool.not_true, if_neg Bool.false_ne_true, hn]
  rfl

/-- A file of the RAM file system that the output is appended to. -/
theorem meets_ram_iff (hs : s.WellFormed) (hcwd : cwd.fits 128 = true)
    (hfits : file.fits 128 = true) {p : ℕ}
    (hn : s.findPath (fullPath cwd file) = some (.ram p))
    (hfile : s.isFile (.ram p) = true) (htotal : (output outs).length ≤ 4096)
    (hroom : append = true → (s.ram.nodes p).length.toNat + (output outs).length ≤ 4096)
    (hredirect : s.redirect cwd file append outs =
      run (fun s t => s.kprint cwd file t) s outs) :
    s.RedirectMeets cwd file append outs ↔
      (append = true ∨ s.Untruncated (.ram p) (output outs)) ∧
        s.AppendSpares (.ram p) (output outs) := by
  have hp : p ∈ s.ram.listed :=
    hs.exists_of_file (valid_of_walk ((findPath_eq _ _).symm.trans hn)) hfile
  have hreg := hs.regular_of_file hp hfile
  have hle := hreg.length
  set len := (s.ram.nodes p).length.toNat with hlen
  have hrun := run_kprint_ram (fullPath_fits hcwd hfits) hn hreg htotal
  rw [← hlen] at hrun
  have hpath : ({ s with ram := s.ram.put p len (output outs) } : FileSystem).findPath
      (fullPath cwd file) = some (.ram p) :=
    (samePaths_run hs hn hrun).findPath _ |>.trans hn
  have hold : s.oldContent (fullPath cwd file) = some (s.ram.bytesOf p) := by
    rw [oldContent, hn]
    exact content_ram hreg
  have hbytes : (s.ram.put p len (output outs)).bytesOf p =
      (s.ram.bytesOf p ++ output outs).take 4096 := by
    rw [RAMFS.bytesOf_put hle (Nat.le_refl _), ← RAMFS.length_bytesOf, overwrite_end]
  rw [meets_iff (hredirect.trans hrun) hold hpath, content_ram (RAMFS.regular_put hreg), hbytes,
    Option.some_inj, hn, othersKept_ram hs (fun q => ?_) (fun q hq hb => ?_) (.inl rfl)]
  · refine and_congr ?_ ?_
    · cases append with
      | true =>
        rw [if_pos rfl, List.take_of_length_le (by
          rw [List.length_append, RAMFS.length_bytesOf]; exact hroom rfl)]
        exact iff_of_true rfl (.inl rfl)
      | false =>
        rw [if_neg Bool.false_ne_true, List.nil_append]
        exact ⟨.inr, fun h => h.resolve_left Bool.false_ne_true⟩
    · constructor
      · intro h q hq hf hqp
        exact (RAMFS.bytesOf_put_iff hqp).mp (h q hq (fun hb => hqp (by simpa using hb.symm)) hf)
      · intro h q hq hb hf
        have hqp : q ≠ p := fun heq => hb (by rw [heq])
        exact (RAMFS.bytesOf_put_iff hqp).mpr (h q hq hf hqp)
  · show q ∈ s.ram.listed ↔ _
    by_cases hqp : q = p
    · exact iff_of_true (hqp ▸ hp) (.inr hqp)
    · refine ⟨fun hq => .inl ⟨hq, fun hb => hqp (by simpa using hb.symm)⟩, fun h => ?_⟩
      exact (h.resolve_right hqp).1
  · exact RAMFS.nodes_put fun heq => hb (by rw [heq])

/-- A file that stays as long as it is does not get the text alone. -/
theorem not_meets_of_long (hs : s.WellFormed) {i : ℕ}
    (hn : s.findPath (fullPath cwd file) = some (.disk i))
    (hlong : (output outs).length < (s.disk.entries i).length.toNat)
    (hredirect : s.redirect cwd file append outs =
      run (fun s t => s.kprint cwd file t) s outs) (happend : append ≠ true) :
    ¬ s.RedirectMeets cwd file append outs := by
  rintro ⟨s', n, old, hr, -, hpath, hcontent, -⟩
  have hsame := samePaths_run hs hn (hredirect.symm.trans hr)
  rw [hsame.findPath, hn, Option.some_inj] at hpath
  subst hpath
  have hfile' : s'.isFile (.disk i) = true := by
    by_contra hnot
    rw [content_of_not_file hnot] at hcontent
    exact absurd hcontent (by simp)
  rw [content_disk (isFile_disk.mp hfile'), if_neg happend, List.nil_append,
    Option.some_inj] at hcontent
  have hlen := congrArg List.length hcontent
  have hkept := hsame.length i
  rw [MesaFS.length_bytesOf] at hlen
  omega

/-- A file of the disk that the output is appended to. -/
theorem meets_disk_iff (hs : s.WellFormed) (hcwd : cwd.fits 128 = true)
    (hfits : file.fits 128 = true) {i : ℕ}
    (hn : s.findPath (fullPath cwd file) = some (.disk i))
    (hfile : s.isFile (.disk i) = true) (htotal : (output outs).length ≤ 4096)
    (hroom : append = true →
      (s.disk.entries i).length.toNat + (output outs).length ≤ 512 * extentSectors)
    (hredirect : s.redirect cwd file append outs =
      run (fun s t => s.kprint cwd file t) s outs) :
    s.RedirectMeets cwd file append outs ↔
      (append = true ∨ s.Untruncated (.disk i) (output outs)) ∧
        s.AppendSpares (.disk i) (output outs) := by
  have hi : s.Exists (.disk i) :=
    hs.exists_of_file (valid_of_walk ((findPath_eq _ _).symm.trans hn)) hfile
  have hentry := hs.isFile_entry hi hfile
  have hflags := isFile_disk.mp hfile
  obtain ⟨hlow, hhigh⟩ := hs.lba_of_file hi.1 hentry
  have hold : s.oldContent (fullPath cwd file) = some (s.disk.bytesOf i) := by
    rw [oldContent, hn]
    exact content_disk hflags
  rcases Nat.lt_or_ge ((s.disk.entries i).length.toNat + (output outs).length) (2 ^ 32)
    with hsum | hsum
  swap
  · -- a file of nearly 4 GiB: it does not get shorter
    rw [extentSectors] at hroom
    have htrunc : append ≠ true := fun h => by
      have := hroom h
      omega
    refine iff_of_false (not_meets_of_long hs hn (by omega) hredirect htrunc) fun h => ?_
    have hzero : (s.disk.entries i).length = 0 := h.1.resolve_left htrunc
    rw [hzero, show (0 : U32).toNat = 0 from rfl] at hsum
    omega
  obtain ⟨disk, hrun, hput⟩ := run_kprint_disk (fullPath_fits hcwd hfits) hn hhigh hsum
  have hpath : ({ s with disk := disk } : FileSystem).findPath (fullPath cwd file) =
      some (.disk i) := (samePaths_run hs hn hrun).findPath _ |>.trans hn
  have hbytes : disk.bytesOf i = s.disk.bytesOf i ++ output outs := by
    rw [hput.bytesOf hsum hlow hhigh (Nat.le_refl _), ← MesaFS.length_bytesOf, overwrite_end]
  have hflags' : (({ s with disk := disk } : FileSystem).disk.entries i).flags ≠ 2 := by
    dsimp only
    rw [hput.entries, Function.update_self]
    exact hflags
  rw [meets_iff (hredirect.trans hrun) hold hpath, content_disk hflags', hbytes, Option.some_inj,
    hn, othersKept_disk hs (fun j hj => ?_) (.inl rfl) fun j hj => ?_]
  · refine and_congr ?_ ?_
    · cases append with
      | true => exact iff_of_true rfl (.inl rfl)
      | false =>
        rw [if_neg Bool.false_ne_true, List.nil_append, List.append_left_eq_self,
          ← List.length_eq_zero_iff, MesaFS.length_bytesOf]
        refine Iff.trans ?_ (or_iff_right Bool.false_ne_true).symm
        exact ⟨fun h => BitVec.eq_of_toNat_eq h, fun h => congrArg BitVec.toNat h⟩
    · exact ⟨fun h j hj hf hji => (hput.bytesOf_iff hji (hs.lba_of_file hj hf).1
          (hs.lba_of_file hj hf).2).mp (h j hj hf hji),
        fun h j hj hf hji => (hput.bytesOf_iff hji (hs.lba_of_file hj hf).1
          (hs.lba_of_file hj hf).2).mpr (h j hj hf hji)⟩
  · rw [hput.entries, Function.update_of_ne hj]
  · simpa using hj.symm

theorem not_meets_of_other_deleted (hs : s.WellFormed) (hcwd : cwd.fits 128 = true)
    (hfits : file.fits 128 = true) {n : Node} {d : ℕ}
    (hn : s.findPath (fullPath cwd file) = some n) (hd : s.ram.finddir file = some d)
    (hne : n ≠ .ram d) : ¬ s.RedirectMeets cwd file false outs := by
  rintro ⟨s', m, old, hr, -, -, -, hothers⟩
  rw [redirect_deleted hcwd hfits hn] at hr
  have hlisted := listed_run (wellFormed_deleteFile hs file) hfits hr
  have hdl : d ∈ s.ram.listed := by
    rw [RAMFS.finddir_eq] at hd
    exact List.mem_of_find?_eq_some hd
  -- the deleted node should still be there, and is not
  obtain ⟨-, hexists, -⟩ := hothers.1 (.ram d) hdl (by rw [hn]; simpa using hne)
  rcases hlisted d hexists with hmem | hle
  · exact ((listed_of_deleteFile hs hd).mp hmem).2 rfl
  · dsimp only at hle
    rw [(s.ram.deleteFile_frame file).2.2.2] at hle
    exact Nat.not_lt.mpr hle (hs.allocated d hdl)

/-- A file that is created in the RAM file system, where no file is or none is any more. -/
theorem meets_created_ram (hs : s.WellFormed) (hcwd : cwd.fits 128 = true)
    (hfits : file.fits 128 = true) {r : RAMFS} {t : Print} {old : List U8}
    (hs₁ : ({ s with ram := r } : FileSystem).WellFormed)
    (hnodes : r.nodes = s.ram.nodes) (hnext : r.nextNode = s.ram.nextNode)
    (hlisted : ∀ q, q ∈ r.listed ↔
      q ∈ s.ram.listed ∧ s.findPath (fullPath cwd file) ≠ some (.ram q))
    (hold : s.oldContent (fullPath cwd file) = some old) (happend : append = true → old = [])
    (hnone : ({ s with ram := r } : FileSystem).findPath (fullPath cwd file) = none)
    (hleads : ({ s with ram := r } : FileSystem).Leads
      ({ s with ram := r } : FileSystem).ShowsRam (fullPath cwd file) file)
    (hdisk : diskPrefix.isPrefixOf (fullPath cwd file).bytes = false)
    (hroom : r.fileCount < maxFiles) (htotal : (output (t :: outs)).length ≤ 4096)
    (hredirect : s.redirect cwd file append (t :: outs) =
      run (fun s t => s.kprint cwd file t) { s with ram := r } (t :: outs)) :
    s.RedirectMeets cwd file append (t :: outs) ↔
      r.CreateSpares s.ram (output (t :: outs)) := by
  set s₁ : FileSystem := { s with ram := r } with hs₁def
  have hpathfits := fullPath_fits hcwd hfits
  have hcreate : s₁.createMissing (fullPath cwd file) file t.created =
      some { s with ram := r.created file } := createMissing_ram hdisk hfits hroom
  have hs₂ := wellFormed_createMissing hs₁ hcreate
  have hx : ({ s with ram := r.created file } : FileSystem).findPath (fullPath cwd file) =
      some (.ram r.nextNode) := findPath_new (extends_created hs₁ file) rfl hnone hleads
  have hreg := r.regular_created file
  have hrun := run_kprint_ram (s := { s with ram := r.created file }) hpathfits hx hreg htotal
  dsimp only at hrun
  rw [r.length_created] at hrun
  have hpath := (samePaths_run hs₂ hx hrun).findPath (fullPath cwd file) |>.trans hx
  have hfinal := hredirect.trans ((run_kprint_created hpathfits hnone hcreate hx).trans hrun)
  set o := output (t :: outs) with ho
  have hlisted' : ((r.created file).put r.nextNode 0 o).listed = r.listed ++ [r.nextNode] :=
    r.listed_created file
  have hfresh : r.nextNode ∉ s.ram.listed := fun hmem =>
    Nat.lt_irrefl _ (hnext ▸ hs.allocated _ hmem)
  rw [meets_iff hfinal hold hpath, content_ram (RAMFS.regular_put hreg),
    r.bytesOf_created_put file htotal, othersKept_ram hs (fun q => ?_) (fun q hq _ => ?_)
      (.inr hfresh)]
  · have hout : (if append = true then old else []) ++ o = o := by
      split
      · next h => rw [happend h, List.nil_append]
      · rw [List.nil_append]
    rw [hout]
    refine Iff.trans (and_iff_right rfl) ?_
    -- what the other files read, byte by byte
    have hbytes : ∀ q ∈ r.listed, (s.ram.nodes q).handlers = .ramfsFile →
        (((r.created file).put r.nextNode 0 o).bytesOf q = s.ram.bytesOf q ↔
          ∀ k < (r.nodes q).length.toNat,
            (if Function.update r.fileContents r.fileCount r.pmm.allocateBlock.2
                (r.nodes q).inode = r.pmm.allocateBlock.2 then o.getD k 0
              else r.page (Function.update r.fileContents r.fileCount r.pmm.allocateBlock.2
                (r.nodes q).inode) k) = s.ram.page (s.ram.contentsOf q) k) := by
      intro q hq hf
      have hql := ((hlisted q).mp hq).1
      have hqx : q ≠ r.nextNode := fun heq => hfresh (heq ▸ hql)
      have hlen : (r.nodes q).length.toNat ≤ 4096 := by
        rw [hnodes]
        rcases hs.kind q hql with hreg | hdir
        · exact hreg.length
        · rcases hdir.handlers with hd | hd <;> exact absurd (hd.symm.trans hf) (by decide)
      rw [RAMFS.bytesOf, RAMFS.bytesOf, RAMFS.nodes_put hqx, RAMFS.nodes_created file hqx,
        RAMFS.contentsOf_put, RAMFS.contentsOf_created file hqx, ← hnodes, List.map_inj_left]
      refine forall_congr' fun k => ?_
      rw [List.mem_range]
      refine imp_congr_right fun hk => ?_
      rw [r.page_created_put file htotal _ (by omega)]
    constructor
    · intro h q hq hf
      rw [hnodes] at hf
      exact (hbytes q hq hf).mp (h q ((hlisted q).mp hq).1 ((hlisted q).mp hq).2 hf)
    · intro h q hq hb hf
      have hqr := (hlisted q).mpr ⟨hq, hb⟩
      exact (hbytes q hqr hf).mpr (h q hqr (by rw [hnodes]; exact hf))
  · rw [hlisted', List.mem_append, List.mem_singleton, hlisted]
  · have hqx : q ≠ r.nextNode := fun heq => hfresh (heq ▸ hq)
    rw [RAMFS.nodes_put hqx, RAMFS.nodes_created file hqx, hnodes]

/-- A new entry of the disk and its metadata change no byte of the other files. -/
theorem byteAt_created_disk (hs : s.WellFormed) {disk : MesaFS}
    (hbase : disk.baseLba = s.disk.baseLba)
    (hbytes : ∀ a < 512 * 2 ^ 28, a / 512 ≠ 1 →
      byteAt s.disk.baseLba disk.disk a = byteAt s.disk.baseLba s.disk.disk a)
    {j : ℕ} (hj : j < maxEntries) (hf : (s.disk.entries j).IsFile) {k : ℕ}
    (hk : k < (s.disk.entries j).length.toNat) :
    byteAt disk.baseLba disk.disk (512 * (s.disk.entries j).lbaStart.toNat + k) =
      byteAt s.disk.baseLba s.disk.disk (512 * (s.disk.entries j).lbaStart.toNat + k) := by
  obtain ⟨hlow, hhigh⟩ := hs.lba_of_file hj hf
  have hlength := (s.disk.entries j).length.isLt
  rw [hbase]
  exact hbytes _ (by omega) (by omega)

theorem bytesOf_created_disk (hs : s.WellFormed) {disk : MesaFS}
    (hbase : disk.baseLba = s.disk.baseLba)
    (hbytes : ∀ a < 512 * 2 ^ 28, a / 512 ≠ 1 →
      byteAt s.disk.baseLba disk.disk a = byteAt s.disk.baseLba s.disk.disk a)
    {j : ℕ} (hj : j < maxEntries) (hf : (s.disk.entries j).IsFile)
    (hentry : disk.entries j = s.disk.entries j) : disk.bytesOf j = s.disk.bytesOf j := by
  rw [MesaFS.bytesOf, MesaFS.bytesOf, hentry]
  exact List.map_congr_left fun k hk =>
    byteAt_created_disk hs hbase hbytes hj hf (List.mem_range.mp hk)

/-- A file that is created on the disk. -/
theorem meets_created_disk (hs : s.WellFormed) (hcwd : cwd.fits 128 = true)
    (hfits : file.fits 128 = true) {t : Print} {i : ℕ}
    (hnone : s.findPath (fullPath cwd file) = none)
    (hdisk : diskPrefix.isPrefixOf (fullPath cwd file).bytes = true)
    (hleads : s.Leads s.ShowsDisk (fullPath cwd file) ((fullPath cwd file).drop 6))
    (hslot : s.disk.freeSlot = some i) (htotal : (output (t :: outs)).length ≤ 4096)
    (hredirect : s.redirect cwd file append (t :: outs) =
      run (fun s t => s.kprint cwd file t) s (t :: outs)) :
    s.RedirectMeets cwd file append (t :: outs) ↔
      s.disk.WriteSpares i (512 * (100 + i * 10)) (output (t :: outs)) := by
  have hpathfits := fullPath_fits hcwd hfits
  obtain ⟨hi, hfree⟩ := freeSlot_spec hslot
  rw [maxEntries] at hi
  -- the name is a component of the path, so it fits into the entry
  have hname : ((fullPath cwd file).drop 6).fits 64 = true := by
    have := length_of_mem_components (List.mem_of_getLast? hleads.1)
    exact decide_eq_true (by omega)
  obtain ⟨s₁, hcreate⟩ : ∃ s₁, s.createMissing (fullPath cwd file) file t.created = some s₁ := by
    obtain ⟨disk, node, hfile, -⟩ := MesaFS.createFile_spec hslot hname 0 0 0o644 t.created
    rw [createMissing, if_pos hdisk, hfile]
    exact ⟨_, rfl⟩
  have hs₁ := wellFormed_createMissing hs hcreate
  obtain ⟨disk, e, rfl, he, hflags, hename, helen, helba, hentries, hbase, hbytes⟩ :=
    createMissing_disk hdisk hslot hcreate
  have hext := extends_setEntry hslot he hflags hentries
  rw [hename] at hext
  have hx := findPath_new hext rfl hnone hleads
  have hentry : disk.entries i = e := by rw [hentries, Function.update_self]
  have hlba : e.lbaStart.toNat = 100 + i * 10 := by
    rw [helba, BitVec.toNat_ofNat, Nat.mod_eq_of_lt (by omega)]
  have hzero : e.length.toNat = 0 := by
    rw [helen]
    rfl
  set s₁ : FileSystem := { s with disk := disk } with hs₁def
  have hlba₁ : (s₁.disk.entries i).lbaStart.toNat = 100 + i * 10 := by rw [hs₁def, hentry, hlba]
  have hlen₁ : (s₁.disk.entries i).length.toNat = 0 := by rw [hs₁def, hentry, hzero]
  set o := output (t :: outs) with ho
  have hsum : (s₁.disk.entries i).length.toNat + o.length < 2 ^ 32 := by
    rw [hlen₁]
    omega
  obtain ⟨disk₂, hrun, hput⟩ := run_kprint_disk hpathfits hx (by rw [hlba₁]; omega) hsum
  rw [hlen₁, ← ho] at hput
  have hpath := (samePaths_run hs₁ hx hrun).findPath (fullPath cwd file) |>.trans hx
  have hfinal := hredirect.trans ((run_kprint_created hpathfits hnone hcreate hx).trans hrun)
  have hold : s.oldContent (fullPath cwd file) = some [] := by rw [oldContent, hnone]
  have hentry₂ : ∀ j, j ≠ i → disk₂.entries j = s.disk.entries j := by
    intro j hj
    rw [hput.entries, Function.update_of_ne hj, hs₁def]
    dsimp only
    rw [hentries, Function.update_of_ne hj]
  have hflags₂ : (disk₂.entries i).flags ≠ 2 := by
    rw [hput.entries, Function.update_self, hs₁def]
    dsimp only
    rw [hentry, hflags]
    decide
  have hnew : disk₂.bytesOf i = o := by
    have hempty : s₁.disk.bytesOf i = [] := by
      rw [← List.length_eq_zero_iff, MesaFS.length_bytesOf, hlen₁]
    have hend := overwrite_end (0 : U8) [] o
    rw [List.length_nil, List.nil_append] at hend
    rw [hput.bytesOf (by omega) (by omega) (by omega) (Nat.zero_le _), hempty, hend]
  have hcontent : ({ s₁ with disk := disk₂ } : FileSystem).content (.disk i) = some o := by
    rw [content_disk hflags₂]
    exact congrArg some hnew
  have hkept : s.OthersKept { s₁ with disk := disk₂ } (s.findPath (fullPath cwd file)) (.disk i) ↔
      ∀ j < maxEntries, (s.disk.entries j).IsFile → j ≠ i →
        disk₂.bytesOf j = s.disk.bytesOf j :=
    othersKept_disk hs hentry₂ (.inr hfree) fun j hj => by
      rw [hnone] at hj
      exact absurd hj (by simp)
  rw [meets_iff hfinal hold hpath, hcontent, hkept]
  have hout : (if append = true then [] else []) ++ o = o := by
    split <;> rfl
  rw [hout]
  refine Iff.trans (and_iff_right rfl) ?_
  refine forall_congr' fun j => imp_congr_right fun hj => imp_congr_right fun hf =>
    imp_congr_right fun hji => ?_
  obtain ⟨hlow, hhigh⟩ := hs.lba_of_file hj hf
  have hold₁ : s₁.disk.entries j = s.disk.entries j := by
    rw [hs₁def]
    dsimp only
    rw [hentries, Function.update_of_ne hji]
  have hsame : s₁.disk.bytesOf j = s.disk.bytesOf j :=
    bytesOf_created_disk hs hbase hbytes hj hf hold₁
  rw [← hsame, hput.bytesOf_iff hji (by rw [hold₁]; exact hlow) (by rw [hold₁]; exact hhigh),
    hold₁, hlba₁, Nat.add_zero]
  refine forall_congr' fun k => imp_congr_right fun hk => ?_
  rw [byteAt_created_disk hs hbase hbytes hj hf hk]

/-- The last name of a path leads to one kind of directory only. -/
theorem not_leads_disk {path c c' : CString} (h : s.Leads s.ShowsRam path c) :
    ¬ s.Leads s.ShowsDisk path c' := by
  intro h'
  obtain ⟨ds, d, hcs, hd, hram⟩ := leads_iff.mp h
  obtain ⟨ds', d', hcs', hd', hdisk⟩ := leads_iff.mp h'
  obtain ⟨rfl, -⟩ := List.append_inj' (hcs.symm.trans hcs') rfl
  rw [hd, Option.some_inj] at hd'
  exact hdisk.not_showsRam (hd' ▸ hram)

/-- A missing file. -/
theorem meets_missing_iff (hs : s.WellFormed) (hcwd : cwd.fits 128 = true)
    (hfits : file.fits 128 = true) (hnone : s.findPath (fullPath cwd file) = none)
    (htotal : (output outs).length ≤ 4096) :
    s.RedirectMeets cwd file append outs ↔
      outs ≠ [] ∧ s.Creates (fullPath cwd file) file (output outs) := by
  have hredirect : s.redirect cwd file append outs =
      run (fun s t => s.kprint cwd file t) s outs :=
    redirect_eq_run hcwd hfits (.inr (.inl hnone))
  cases outs with
  | nil =>
    refine iff_of_false (not_meets_of_none fun s' h => ?_) fun h => h.1 rfl
    rw [hredirect, run_nil, Option.some_inj] at h
    exact h ▸ hnone
  | cons t outs =>
    by_cases hcreatable : s.Creatable (fullPath cwd file) file
    swap
    · refine iff_of_false (not_meets_of_none fun s' h => ?_) fun h => hcreatable ?_
      · exact stuck_run hs hfits hnone hcreatable (hredirect.symm.trans h)
      · have hcreates := h.2
        unfold Creates at hcreates
        unfold Creatable
        split
        · next hdisk =>
          rw [if_pos hdisk] at hcreates
          obtain ⟨hleads, i, hi, -⟩ := hcreates
          exact ⟨hleads, by rw [hi]; simp⟩
        · next hdisk =>
          rw [if_neg hdisk] at hcreates
          exact ⟨hcreates.1, hcreates.2.1⟩
    unfold Creatable at hcreatable
    unfold Creates
    cases hdisk : diskPrefix.isPrefixOf (fullPath cwd file).bytes with
    | true =>
      rw [hdisk, if_pos rfl] at hcreatable
      obtain ⟨i, hi⟩ := Option.ne_none_iff_exists'.mp hcreatable.2
      rw [if_pos rfl, meets_created_disk hs hcwd hfits hnone hdisk hcreatable.1 hi htotal hredirect]
      refine ⟨fun h => ⟨by simp, hcreatable.1, i, hi, h⟩, fun h => ?_⟩
      obtain ⟨-, -, j, hj, h⟩ := h
      rw [hi, Option.mem_some_iff] at hj
      exact hj ▸ h
    | false =>
      rw [hdisk, if_neg Bool.false_ne_true] at hcreatable
      rw [if_neg Bool.false_ne_true, meets_created_ram hs hcwd hfits (r := s.ram) hs rfl rfl
        (fun q => by rw [hnone]; simp) (by rw [oldContent, hnone]) (fun _ => rfl) hnone
        hcreatable.1 hdisk hcreatable.2 htotal hredirect]
      exact ⟨fun h => ⟨by simp, hcreatable.1, hcreatable.2, h⟩, fun h => h.2.2.2⟩

/-- A file that is deleted first, under the name that was typed. -/
theorem meets_deleted_iff (hs : s.WellFormed) (hcwd : cwd.fits 128 = true)
    (hfits : file.fits 128 = true) {d : ℕ}
    (hn : s.findPath (fullPath cwd file) = some (.ram d)) (hfile : s.isFile (.ram d) = true)
    (hd : s.ram.finddir file = some d) (htotal : (output outs).length ≤ 4096) :
    s.RedirectMeets cwd file false outs ↔
      outs ≠ [] ∧ s.Replaces (fullPath cwd file) file (output outs) := by
  have hredirect : s.redirect cwd file false outs = run (fun s t => s.kprint cwd file t)
      { s with ram := (s.ram.deleteFile file).1 } outs := redirect_deleted hcwd hfits hn
  obtain ⟨hnodes, hpage, -, hnext⟩ := s.ram.deleteFile_frame file
  have hs₁ := wellFormed_deleteFile hs file
  have hmem := @listed_of_deleteFile s file d hs hd
  have hdl : d ∈ s.ram.listed := by
    rw [RAMFS.finddir_eq] at hd
    exact List.mem_of_find?_eq_some hd
  have hroot : s.root ≠ d := by
    rintro rfl
    have := of_decide_eq_true hfile
    rw [node_ram, hs.root.2.flags] at this
    exact absurd this (by decide)
  obtain ⟨hleads, hpath⟩ := walk_deleteFile hd hfile hroot hn
  unfold Replaces
  set r := (s.ram.deleteFile file).1 with hr
  -- whether a second file has the name
  cases hsecond : r.finddir file with
  | some q =>
    -- the output goes to the next file of that name
    rw [hsecond, Option.map_some] at hpath
    refine iff_of_false ?_ fun h => absurd h.2.1 (by simp)
    rintro ⟨s', m, old, hrun, -, hm, -, hothers⟩
    rw [hredirect] at hrun
    rw [(samePaths_run hs₁ hpath hrun).findPath, hpath, Option.some_inj] at hm
    rw [RAMFS.finddir_eq] at hsecond
    obtain ⟨hq, hqd⟩ := hmem.mp (List.mem_of_find?_eq_some hsecond)
    exact (hothers.1 (.ram q) hq (by rw [hn]; simpa using hqd.symm)).1 hm
  | none =>
    rw [hsecond, Option.map_none] at hpath
    cases outs with
    | nil =>
      refine iff_of_false (not_meets_of_none fun s' h => ?_) fun h => h.1 rfl
      rw [hredirect, run_nil, Option.some_inj] at h
      exact h ▸ hpath
    | cons t outs =>
      cases hdisk : diskPrefix.isPrefixOf (fullPath cwd file).bytes with
      | true =>
        refine iff_of_false (not_meets_of_none fun s' h => ?_) fun h => absurd h.2.2.1 (by simp)
        refine stuck_run hs₁ hfits hpath (fun hc => ?_) (hredirect.symm.trans h)
        rw [Creatable, if_pos hdisk] at hc
        exact not_leads_disk hleads hc.1
      | false =>
        have hroom : r.fileCount < maxFiles := by
          obtain ⟨i, hi, hslot, -⟩ := RAMFS.slotOf_some hd
          have hcount := RAMFS.fileCount_deleteFile hslot
          rw [← hr] at hcount
          have := hs.count
          omega
        rw [meets_created_ram hs hcwd hfits hs₁ hnodes hnext (fun q => ?_)
          (by rw [oldContent, hn]; exact content_ram (hs.regular_of_file hdl hfile))
          (fun h => absurd h (by simp)) hpath hleads hdisk hroom htotal hredirect]
        · exact ⟨fun h => ⟨by simp, rfl, rfl, h⟩, fun h => h.2.2.2⟩
        · rw [hmem, hn]
          exact and_congr_right fun _ => ⟨fun h he => h (by simpa using he.symm),
            fun h he => h (by rw [he])⟩

end

/-- The name `log`. -/
def logFile : CString := ⟨[0x6C, 0x6F, 0x67], by decide⟩

/-- `kprint` of one character. -/
def printChar (c : U8) (h : 0#8 ≠ c) : Print :=
  { text := .ofChar c h, created := fun _ => 0, written := fun _ => 0 }

/-- The output `hi` in two pieces. -/
def printHi : List Print := [printChar 0x68 (by decide), printChar 0x69 (by decide)]

end FileSystem

end MesaOS.FS
