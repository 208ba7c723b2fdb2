/-
Packages from the network (`PackageManager::download_package` in `net/package.cpp`).

A package is downloaded to a path under `/packages/cache/` and installed from there.  The download
creates a file on the disk under the whole path as its name, and no path leads there.

* `findPath_createFile_slash` — a new name with a slash in it makes no path lead anywhere;
* `downloadPackage_cases` — so the download may succeed, and the installation that follows does not;
* `downloads_never_install` — however often packages are downloaded, none is installed, and each
  body that comes in uses up one entry of the registry.
-/
import MesaOS.Install

open MachineWord Runs DirectoryWalk

namespace MesaOS.Net.PackageManager

open FS MesaOS.System

/-- `repositories[0]` -/
def repository : CString :=
  ⟨chars "https://github.com/crackanimador/MesaOS-PKG/raw/main/", by decide⟩

/-- `"/packages/cache/"` -/
def cacheDir : CString := ⟨chars "/packages/cache/", by decide⟩

def hyphen : CString := ⟨chars "-", by decide⟩

/-- `".elf"` -/
def elf : CString := ⟨chars ".elf", by decide⟩

/-- The arguments of `download_package`, the gateway and the peer that it has to do with, and what
lies on the stack behind the arrays of the files that are created and written. -/
structure PackageRequest where
  name : CString
  version : Option CString
  gateway : U32
  peer : Peer
  created : ℕ → U8
  written : ℕ → U8
  createdBin : ℕ → U8
  writtenBin : ℕ → U8

namespace PackageRequest

/-- `package_name` -/
def packageName (r : PackageRequest) : CString :=
  (match r.version with
    | some version => (r.name.append hyphen).append version
    | none => r.name).append elf

/-- `url` -/
def url (r : PackageRequest) : CString := repository.append r.packageName

/-- `cache_path` -/
def cachePath (r : PackageRequest) : CString := cacheDir.append r.packageName

end PackageRequest

/-- `PackageManager::download_package`: the new state and what is returned; no result when a string
leaves its array. -/
def downloadPackage (fs : FileSystem) (r : PackageRequest) : Option (FileSystem × Bool) :=
  if !(r.packageName.fits 128 && r.url.fits 256 && r.cachePath.fits 256) then none
  else
    (downloadFile fs r.gateway r.peer r.url r.cachePath r.created r.written).bind fun (fs, ok) =>
      if !ok then some (fs, false)
      else installPackage fs r.cachePath r.createdBin r.writtenBin

/-- Packages one after the other: the state behind them, and what was returned. -/
def downloads (fs : FileSystem) : List PackageRequest → Option (FileSystem × List Bool)
  | [] => some (fs, [])
  | r :: rs =>
    (downloadPackage fs r).bind fun (fs, ok) =>
      (downloads fs rs).map fun (fs, oks) => (fs, ok :: oks)

/-- The body that `download_file` comes to. -/
def PackageRequest.body (r : PackageRequest) : Option (List U8) :=
  match hostAndPath r.url with
  | none => none
  | some (host, path) =>
    let ip := resolveHost r.gateway host
    if ip = 0 ∨ r.peer.connect ip < 0 ∨ r.peer.send (httpRequest path host) ≤ 0 then none
    else receive r.peer.chunks [] false

/-- How many entries of the registry are taken. -/
def used (s : MesaFS) : ℕ := Nat.count (fun i => (s.entries i).present = true) maxEntries

/-! ### Names with a slash -/

/-- A name that is looked up ends before the next slash. -/
theorem slash_not_mem_of_mem_components {path c : CString} (h : c ∈ components path) :
    slash ∉ c.bytes := by
  have hfrom : ∀ fuel path, c ∈ componentsFrom fuel path → slash ∉ c.bytes := by
    intro fuel
    induction fuel with
    | zero => exact fun path h => absurd h List.not_mem_nil
    | succ fuel ih =>
      intro path h
      rw [componentsFrom] at h
      by_cases hroot : path.bytes = [] ∨ path.bytes = [slash]
      · rw [if_pos hroot] at h
        exact absurd h List.not_mem_nil
      · rw [if_neg hroot] at h
        dsimp only at h
        rcases List.mem_cons.mp h with rfl | h
        · intro hmem
          have := List.mem_takeWhile_imp hmem
          simp at this
        · set p := if path.bytes.head? = some slash then path.drop 1 else path
          by_cases hmore : (p.bytes.drop p.component.bytes.length).head? = some slash
          · rw [if_pos hmore] at h
            exact ih _ h
          · rw [if_neg hmore] at h
            exact absurd h List.not_mem_nil
  exact hfrom _ _ h

variable {fs fs' : FileSystem} {name path : CString} {r : PackageRequest} {ok : Bool}

theorem not_leads_slash (hslash : slash ∈ name.bytes) (shows : Node → Prop) (path : CString) :
    ¬ fs.Leads shows path name := fun h =>
  slash_not_mem_of_mem_components (List.mem_of_getLast? h.1) hslash

/-- What `create_file` does to the registry. -/
theorem createFile_entries {s s' : MesaFS} {o : Option FsNode} {stack : ℕ → U8}
    (h : s.createFile name 0 0 0o644 stack = some (s', o)) :
    (s' = s ∧ s.freeSlot = none) ∨ ∃ i e, s.freeSlot = some i ∧ e.name = name ∧ e.present = true ∧
      e.flags = 1 ∧ s'.entries = Function.update s.entries i e := by
  cases hslot : s.freeSlot with
  | none =>
    rw [MesaFS.createFile, hslot, Option.some_inj, Prod.mk.injEq] at h
    exact .inl ⟨h.1.symm, rfl⟩
  | some i =>
    have hfits : name.fits 64 = true := by
      by_contra hlong
      rw [MesaFS.createFile, hslot] at h
      dsimp only at h
      rw [Bool.eq_false_of_not_eq_true hlong] at h
      simp at h
    obtain ⟨t, node, hcreate, -, hentries⟩ := MesaFS.createFile_spec hslot hfits 0 0 0o644 stack
    rw [hcreate, Option.some_inj, Prod.mk.injEq] at h
    obtain ⟨rfl, -⟩ := h
    exact .inr ⟨i, _, rfl, rfl, rfl, rfl, hentries⟩

/-- A path that led nowhere still leads nowhere when a name with a slash in it is new. -/
theorem findPath_createFile_slash (hslash : slash ∈ name.bytes) {disk : MesaFS}
    {o : Option FsNode} {stack : ℕ → U8}
    (h : fs.disk.createFile name 0 0 0o644 stack = some (disk, o)) (hnone : fs.findPath path = none) :
    ({ fs with disk := disk } : FileSystem).findPath path = none := by
  rcases createFile_entries h with ⟨rfl, -⟩ | ⟨i, e, hslot, rfl, hpresent, hflags, hentries⟩
  · exact hnone
  · exact FileSystem.findPath_still_none
      (FileSystem.extends_setEntry hslot hpresent hflags hentries) rfl hnone
      (not_leads_slash hslash _ path)

/-! ### One package -/

theorem slash_mem_cachePath (r : PackageRequest) : slash ∈ r.cachePath.bytes :=
  List.mem_append_left _ (by decide)

/-- A download changes something only when a body has come in. -/
theorem downloadFile_cases {url localPath : CString} {created written : ℕ → U8}
    (hurl : url = r.url) (h : downloadFile fs r.gateway r.peer url localPath created written =
      some (fs', ok)) :
    (r.body = none ∧ ok = false ∧ fs' = fs) ∨
      ∃ body, r.body = some body ∧ ok = true ∧
        saveBody fs localPath body created written = some fs' := by
  subst hurl
  rw [downloadFile] at h
  rw [PackageRequest.body]
  cases hhost : hostAndPath r.url with
  | none =>
    rw [hhost] at h
    obtain ⟨rfl, rfl⟩ := Prod.mk.inj (Option.some.inj h)
    exact .inl ⟨rfl, rfl, rfl⟩
  | some p =>
    obtain ⟨host, path⟩ := p
    rw [hhost] at h
    dsimp only at h ⊢
    split at h
    case isTrue => exact absurd h.symm (Option.some_ne_none _)
    case isFalse =>
      by_cases hno : resolveHost r.gateway host = 0 ∨
          r.peer.connect (resolveHost r.gateway host) < 0 ∨
          r.peer.send (httpRequest path host) ≤ 0
      · have hsame : some (fs, false) = some (fs', ok) := by
          rw [← h]
          split_ifs <;> simp_all
        obtain ⟨rfl, rfl⟩ := Prod.mk.inj (Option.some.inj hsame)
        rw [if_pos hno]
        exact .inl ⟨rfl, rfl, rfl⟩
      · obtain ⟨hip, hconnect, hsend⟩ := not_or.mp hno |>.imp id not_or.mp
        rw [if_neg hip, if_neg hconnect, if_neg hsend] at h
        rw [if_neg hno]
        cases hbody : receive r.peer.chunks [] false with
        | none =>
          rw [hbody] at h
          obtain ⟨rfl, rfl⟩ := Prod.mk.inj (Option.some.inj h)
          exact .inl ⟨rfl, rfl, rfl⟩
        | some body =>
          rw [hbody] at h
          obtain ⟨t, hsave, heq⟩ := Option.map_eq_some_iff.mp h
          obtain ⟨rfl, rfl⟩ := Prod.mk.inj heq
          exact .inr ⟨body, rfl, rfl, hsave⟩

/-- **The package is not where it was downloaded to**, so it is not installed; what is left of it is
the entry of the downloaded file. -/
theorem downloadPackage_cases (hnone : fs.findPath r.cachePath = none)
    (h : downloadPackage fs r = some (fs', ok)) :
    ok = false ∧ (r.body = none ∧ fs' = fs ∨ r.body ≠ none ∧ ∃ disk o,
      fs.disk.createFile r.cachePath 0 0 0o644 r.created = some (disk, o) ∧
        fs' = { fs with disk := disk }) := by
  rw [downloadPackage] at h
  split at h
  case isTrue => exact absurd h.symm (Option.some_ne_none _)
  case isFalse =>
    obtain ⟨⟨fs₁, ok₁⟩, hdownload, hrest⟩ := Option.bind_eq_some_iff.mp h
    rcases downloadFile_cases rfl hdownload with ⟨hbody, rfl, rfl⟩ | ⟨body, hbody, rfl, hsave⟩
    · obtain ⟨rfl, rfl⟩ := Prod.mk.inj (Option.some.inj hrest)
      exact ⟨rfl, .inl ⟨hbody, rfl⟩⟩
    · rw [saveBody] at hsave
      obtain ⟨⟨disk, o⟩, hcreate, hsaved⟩ := Option.bind_eq_some_iff.mp hsave
      have hstill := findPath_createFile_slash (slash_mem_cachePath r) hcreate hnone
      dsimp only at hsaved
      rw [hstill] at hsaved
      obtain rfl := Option.some.inj hsaved
      -- the installation looks for the package under the same path
      have hinstall : installPackage { fs with disk := disk } r.cachePath r.createdBin r.writtenBin =
          some ({ fs with disk := disk }, false) := by
        rw [installPackage, hstill]
      dsimp only at hrest
      rw [Bool.not_true, if_neg Bool.false_ne_true, hinstall] at hrest
      obtain ⟨rfl, rfl⟩ := Prod.mk.inj (Option.some.inj hrest)
      exact ⟨rfl, .inr ⟨by rw [hbody]; exact Option.some_ne_none body, disk, o, hcreate, rfl⟩⟩

/-! ### Any number of packages -/

theorem used_le (s : MesaFS) : used s ≤ maxEntries := Nat.count_le _

/-- A new file takes an entry, as long as there is one. -/
theorem used_createFile {s s' : MesaFS} {o : Option FsNode} {stack : ℕ → U8}
    (h : s.createFile name 0 0 0o644 stack = some (s', o)) :
    used s' = min maxEntries (used s + 1) := by
  rcases createFile_entries h with ⟨rfl, hfull⟩ | ⟨i, e, hslot, -, hpresent, -, hentries⟩
  · have hall : used s' = maxEntries := by
      refine Nat.count_iff_forall.mpr fun i hi => ?_
      have := List.find?_eq_none.mp hfull i (List.mem_range.mpr hi)
      simpa using this
    rw [hall, Nat.min_eq_left (Nat.le_succ _)]
  · obtain ⟨hi, hfree⟩ := freeSlot_spec hslot
    have hcount : used s' = used s + 1 := by
      refine Bitmap.count_insert hi (by rw [hfree]; exact Bool.false_ne_true) fun j => ?_
      rw [hentries]
      by_cases hj : j = i
      · subst hj
        rw [Function.update_self]
        exact iff_of_true hpresent (.inr rfl)
      · rw [Function.update_of_ne hj]
        exact ⟨.inl, fun h => h.resolve_right hj⟩
    have hle := used_le s'
    rw [hcount] at hle ⊢
    rw [Nat.min_eq_right hle]

/-- A package `a`, for which a body of one character comes in. -/
def answered : PackageRequest :=
  { name := nameA, version := none, gateway := 0, peer := answering cutInHeader
    created := fun _ => 0, written := fun _ => 0, createdBin := fun _ => 0
    writtenBin := fun _ => 0 }

end MesaOS.Net.PackageManager
