/-
Downloading a file over HTTP (`net/package.cpp`).

`download_file` looks for the end of the header whenever a chunk has come.  Once it is there,
what the same chunk brought of the body is saved, and of later chunks nothing is.  The
directories are those of the RAM file system, and the file is created on the disk, under the
whole path as its name.

* `receive_eq` — what is taken for the body, however the response is cut;
* `findPath_createFile` — the new file is not where its path leads;
* `delivers_iff_of_run` — when the body arrives in the file.
-/
import Mathlib.Data.List.Infix
import MesaOS.CreateCommands
import MesaOS.SubstringSearch

open MachineWord Runs DirectoryWalk

namespace MesaOS.Net

open FS MesaOS.System

/-! ### The code -/

/-- `simple_strstr`, which finds what `k_strstr` does. -/
def simpleStrstr (haystack needle : List U8) : Option ℕ := kStrstr haystack needle

/-- `"\r\n\r\n"` -/
def crlfCrlf : List U8 := [0x0D, 0x0A, 0x0D, 0x0A]

namespace PackageManager

/-- What stands between `"://"` and the next `'/'`, and what follows; `host[64]` has to hold
the former. -/
def hostAndPath (url : CString) : Option (CString × CString) :=
  (simpleStrstr url.bytes (chars "://")).bind fun i =>
    let hostStart := url.drop (i + 3)
    (strchr hostStart slash).bind fun hostLen =>
      if 64 ≤ hostLen then none else some (take hostStart hostLen, hostStart.drop hostLen)

/-- The address of the host, `0` if there is none. -/
def resolveHost (gateway : U32) (host : CString) : U32 :=
  if host.bytes = chars "github.com" ∨ host.bytes = chars "raw.githubusercontent.com" then
    0x8C527603
  else if host.bytes = chars "example.com" then 0x5DB8D822
  else gateway

/-- `simple_sprintf` -/
def httpRequest (path host : CString) : List U8 :=
  chars "GET " ++ path.bytes ++ chars " HTTP/1.0\r\nHost: " ++ host.bytes ++
    chars "\r\nUser-Agent: MesaOS/1.0\r\nConnection: close\r\n\r\n"

/-- The results of `TCP::connect` at port 80 and of `TCP::send`, and what `TCP::recv` has to
give out, call by call. -/
structure Peer where
  connect : U32 → ℤ
  send : List U8 → ℤ
  chunks : List (List U8)

/-- The loop of `download_file`, with `received` in the buffer: what it takes for the body.
The length that the header states is read and not used. -/
def receive : List (List U8) → List U8 → Bool → Option (List U8)
  | [], _, _ => none
  | chunk :: chunks, received, headersDone =>
    let chunk := chunk.take (4095 - received.length)
    if chunk = [] then none
    else
      let received := received ++ chunk
      if headersDone then receive chunks received true
      else
        match simpleStrstr (received.takeWhile (· ≠ 0)) crlfCrlf with
        | none => receive chunks received false
        | some headerEnd =>
          let body := received.drop (headerEnd + 4)
          if body = [] then receive chunks received true else some body

/-- `MesaFS::create_file`, `find_path_fs` and `MesaFS::write`, whatever the first one returns.
No result when a name or the node's number leaves its array; the node may be one of the RAM
file system. -/
def saveBody (fs : FileSystem) (localPath : CString) (body : List U8) (created written : ℕ → U8) :
    Option FileSystem :=
  (fs.disk.createFile localPath 0 0 0o644 created).bind fun (disk, _) =>
    let fs := { fs with disk := disk }
    match fs.findPath localPath with
    | none => some fs
    | some node =>
      if maxEntries ≤ (fs.node node).inode then none
      else
        (fs.disk.write (fs.node node) 0 (BitVec.ofNat 32 body.length) (bufferOf body) written).map
          fun (disk, _) => { fs with disk := disk }

/-- `PackageManager::download_file`: the new state and what is returned; no result when the
path leaves its array. -/
def downloadFile (fs : FileSystem) (gateway : U32) (peer : Peer) (url localPath : CString)
    (created written : ℕ → U8) : Option (FileSystem × Bool) :=
  match hostAndPath url with
  | none => some (fs, false)
  | some (host, path) =>
    if !path.fits 256 then none
    else
      let ip := resolveHost gateway host
      if ip = 0 then some (fs, false)
      else if peer.connect ip < 0 then some (fs, false)
      else if peer.send (httpRequest path host) ≤ 0 then some (fs, false)
      else
        match receive peer.chunks [] false with
        | none => some (fs, false)
        | some body => (saveBody fs localPath body created written).map fun fs => (fs, true)

/-! ### What it ought to do, and when it does -/

/-- Headers, an empty line and a body.  The headers end with the first empty line. -/
structure Response where
  headers : List U8
  body : List U8
  noNul : 0 ∉ headers
  first : ∀ i < headers.length, ¬ crlfCrlf <+: (headers ++ crlfCrlf).drop i

def Response.bytes (r : Response) : List U8 := r.headers ++ crlfCrlf ++ r.body

/-- The response comes in these chunks. -/
structure Response.Splits (r : Response) (chunks : List (List U8)) : Prop where
  flatten : chunks.flatten = r.bytes
  positive : [] ∉ chunks
  total : r.bytes.length ≤ 4095

/-- The path leads to a file that holds just the body. -/
def Shows (fs : FileSystem) (localPath : CString) (body : List U8) : Prop :=
  ∃ n, fs.findPath localPath = some n ∧ fs.content n = some body

/-- The result tells whether there is a body.  With one the path leads to a file that holds
just the body, and without one nothing has changed. -/
def Delivers (fs : FileSystem) (localPath : CString) (body : List U8)
    (result : Option (FileSystem × Bool)) : Prop :=
  ∃ fs' ok, result = some (fs', ok) ∧ (ok = true ↔ body ≠ []) ∧
    (ok = true → Shows fs' localPath body) ∧ (ok = false → fs' = fs)

/-- What is in the buffer as soon as there are `n` bytes, and `received` before that. -/
def heldAt (n : ℕ) : List (List U8) → List U8 → List U8
  | [], received => received
  | chunk :: chunks, received =>
    if (received ++ chunk).length < n then heldAt n chunks (received ++ chunk)
    else received ++ chunk

/-- The bytes of the body in the chunk that completes the header. -/
def Response.firstPart (r : Response) (chunks : List (List U8)) : List U8 :=
  (heldAt (r.headers.length + 4) chunks []).drop (r.headers.length + 4)

/-- The path leads to a file of the disk of which nothing else is left behind `part` than the
rest of the body; or to one of the RAM file system that has the body already, and whose number
is that of an entry. -/
def Lands (fs : FileSystem) (localPath : CString) (part body : List U8) : Prop :=
  ∃ n, fs.findPath localPath = some n ∧
    match n with
    | .disk i => ∃ old, fs.content (.disk i) = some old ∧ part ++ old.drop part.length = body
    | .ram p => (fs.ram.nodes p).inode < maxEntries ∧ fs.content (.ram p) = some body

/-! ### The end of the header -/

theorem simpleStrstr_eq_some {haystack needle : List U8} {i : ℕ} :
    simpleStrstr haystack needle = some i ↔
      needle <+: haystack.drop i ∧ ∀ j < i, ¬ needle <+: haystack.drop j := kStrstr_eq_some

theorem simpleStrstr_eq_none {haystack needle : List U8}
    (h : ∀ i, ¬ needle <+: haystack.drop i) : simpleStrstr haystack needle = none :=
  kStrstr_eq_none.mpr h

section

variable {r : Response} {received : List U8}

/-- While the header is not complete, its end is not found. -/
theorem Response.strstr_early (hreceived : received <+: r.bytes)
    (hlen : received.length < r.headers.length + 4) :
    simpleStrstr (received.takeWhile (· ≠ 0)) crlfCrlf = none := by
  have hheader : received.takeWhile (· ≠ 0) <+: r.headers ++ crlfCrlf := by
    refine (List.takeWhile_prefix _).trans ?_
    refine List.prefix_of_prefix_length_le hreceived (List.prefix_append _ _) ?_
    rw [List.length_append]
    exact Nat.le_of_lt hlen
  refine simpleStrstr_eq_none fun i hi => ?_
  by_cases hlt : i < r.headers.length
  · exact r.first i hlt (hi.trans (hheader.drop i))
  · -- behind the headers there is no room for four characters
    have hfour : (4 : ℕ) ≤ (received.takeWhile (· ≠ 0)).length - i :=
      List.length_drop ▸ hi.length_le
    have := (List.takeWhile_prefix (l := received) (· ≠ 0)).length_le
    omega

/-- As soon as it is complete, its end is found where it is. -/
theorem Response.strstr_complete (hreceived : received <+: r.bytes)
    (hlen : r.headers.length + 4 ≤ received.length) :
    simpleStrstr (received.takeWhile (· ≠ 0)) crlfCrlf = some r.headers.length := by
  obtain ⟨rest, rfl⟩ : r.headers ++ crlfCrlf <+: received := by
    refine List.prefix_of_prefix_length_le (List.prefix_append _ _) hreceived ?_
    rw [List.length_append]
    exact hlen
  have htext : (r.headers ++ crlfCrlf ++ rest).takeWhile (· ≠ 0) =
      r.headers ++ crlfCrlf ++ rest.takeWhile (· ≠ 0) := by
    refine List.takeWhile_append_of_pos fun c hc => decide_eq_true ?_
    rintro rfl
    rcases List.mem_append.mp hc with hc | hc
    · exact r.noNul hc
    · exact absurd hc (by decide)
  rw [htext]
  refine simpleStrstr_eq_some.mpr ⟨?_, fun j hj hprefix => r.first j hj ?_⟩
  · rw [List.append_assoc, List.drop_left]
    exact List.prefix_append _ _
  · refine List.prefix_of_prefix_length_le hprefix ((List.prefix_append _ _).drop j) ?_
    rw [List.length_drop, List.length_append]
    show 4 ≤ r.headers.length + 4 - j
    omega

end

/-! ### The loop -/

/-- Once the header is done, no chunk is looked at. -/
theorem receive_done (chunks : List (List U8)) (received : List U8) :
    receive chunks received true = none := by
  induction chunks generalizing received with
  | nil => rfl
  | cons chunk chunks ih =>
    rw [receive]
    dsimp only
    split
    · rfl
    · exact ih _

/-- **What is taken for the body** is what the chunk that completes the header brings of it. -/
theorem receive_eq {r : Response} {chunks : List (List U8)} {received : List U8}
    (hflatten : received ++ chunks.flatten = r.bytes) (hpositive : [] ∉ chunks)
    (htotal : r.bytes.length ≤ 4095) (hlen : received.length < r.headers.length + 4) :
    receive chunks received false =
      if (heldAt (r.headers.length + 4) chunks received).drop (r.headers.length + 4) = [] then none
      else some ((heldAt (r.headers.length + 4) chunks received).drop (r.headers.length + 4)) := by
  induction chunks generalizing received with
  | nil =>
    -- the whole response has come, and with it the header
    rw [List.flatten_nil, List.append_nil] at hflatten
    rw [hflatten, Response.bytes, List.length_append, List.length_append] at hlen
    exact absurd hlen (by rw [show crlfCrlf.length = 4 from rfl]; omega)
  | cons chunk chunks ih =>
    rw [List.flatten_cons, ← List.append_assoc] at hflatten
    have hne : chunk ≠ [] := fun h => hpositive (h ▸ List.mem_cons_self)
    have hprefix : received ++ chunk <+: r.bytes := hflatten ▸ List.prefix_append _ _
    -- a response of this size never fills the buffer
    have htake : chunk.take (4095 - received.length) = chunk := by
      have := hprefix.length_le
      rw [List.length_append] at this
      exact List.take_of_length_le (by omega)
    rw [receive, heldAt]
    dsimp only
    rw [htake, if_neg hne, if_neg Bool.false_ne_true]
    by_cases hmore : (received ++ chunk).length < r.headers.length + 4
    · rw [Response.strstr_early hprefix hmore, if_pos hmore]
      exact ih hflatten (fun h => hpositive (List.mem_cons_of_mem _ h)) hmore
    · rw [Response.strstr_complete hprefix (Nat.le_of_not_lt hmore), if_neg hmore]
      -- the header is done, and whatever the other chunks bring is not looked at
      dsimp only
      rw [receive_done]

theorem Response.Splits.receive {r : Response} {chunks : List (List U8)} (h : r.Splits chunks) :
    receive chunks [] false =
      if r.firstPart chunks = [] then none else some (r.firstPart chunks) :=
  receive_eq h.flatten h.positive h.total (Nat.succ_pos _)

/-- The bytes taken for the body are some of the response. -/
theorem length_heldAt (n : ℕ) (chunks : List (List U8)) (received : List U8) :
    (heldAt n chunks received).length ≤ (received ++ chunks.flatten).length := by
  induction chunks generalizing received with
  | nil => exact List.length_append ▸ Nat.le_add_right _ _
  | cons chunk chunks ih =>
    rw [heldAt, List.flatten_cons, ← List.append_assoc]
    split
    · exact ih _
    · exact (List.prefix_append _ _).length_le

/-! ### The file -/

section

variable {fs : FileSystem} {localPath : CString} {part body : List U8}

theorem shows_iff {n : Node} (hn : fs.findPath localPath = some n) :
    Shows fs localPath body ↔ fs.content n = some body := by
  constructor
  · rintro ⟨m, hm, hcontent⟩
    obtain rfl : n = m := Option.some_inj.mp (hn.symm.trans hm)
    exact hcontent
  · intro hcontent
    exact ⟨n, hn, hcontent⟩

/-- A name that is the whole path stands in the root, which does not show the disk. -/
theorem not_leads_whole (hroot : fs.ShowsRam (.ram fs.root)) :
    ¬ fs.Leads fs.ShowsDisk localPath localPath := by
  rintro ⟨hlast, d, hd, hshows⟩
  rw [components_of_getLast? hlast] at hd
  obtain rfl : Node.ram fs.root = d := Option.some_inj.mp hd
  exact hshows.not_showsRam hroot

variable (hs : fs.WellFormed) (hpacked : fs.disk.Packed)
  (hroot : fs.ShowsRam (.ram fs.root)) (hslot : fs.disk.freeSlot ≠ none)
  (hfits : localPath.fits 64 = true)

include hs hpacked hroot hslot hfits

/-- **The new file is not where its path leads**: the path leads where it did before, and
there the file is the same. -/
theorem findPath_createFile (created : ℕ → U8) :
    ∃ disk o, fs.disk.createFile localPath 0 0 0o644 created = some (disk, o) ∧
      ({ fs with disk := disk } : FileSystem).WellFormed ∧
      ({ fs with disk := disk } : FileSystem).findPath localPath = fs.findPath localPath ∧
      ∀ n, fs.findPath localPath = some n →
        ({ fs with disk := disk } : FileSystem).node n = fs.node n ∧
        ({ fs with disk := disk } : FileSystem).content n = fs.content n := by
  obtain ⟨i, hi⟩ := Option.ne_none_iff_exists'.mp hslot
  obtain ⟨disk, node, hcreate, -, hentries⟩ :=
    MesaFS.createFile_spec hi hfits 0 0 0o644 created
  -- the entry has the whole path for its name
  have hnew := FileSystem.newNode_setEntry hpacked hi rfl hentries
  refine ⟨disk, some node, hcreate, hs.created (MesaFS.createFile_cases hcreate), ?_, fun n hn => ?_⟩
  · cases hn : fs.findPath localPath with
    | some n => exact hnew.findPath_found hn
    | none =>
      exact FileSystem.findPath_still_none (FileSystem.extends_setEntry hi rfl rfl hentries) rfl hn
        (not_leads_whole hroot)
  · have hvalid := FileSystem.valid_of_findPath hn
    exact ⟨hnew.node n hvalid, FileSystem.content_createFile hs hcreate hvalid⟩

/-- Over a file of the disk. -/
theorem saveBody_disk {i : ℕ} (hn : fs.findPath localPath = some (.disk i))
    (hpart : part.length ≤ 4096) (created written : ℕ → U8) :
    (∃ fs', saveBody fs localPath part created written = some fs' ∧ Shows fs' localPath body) ↔
      ∃ old, fs.content (.disk i) = some old ∧ part ++ old.drop part.length = body := by
  obtain ⟨disk, o, hcreate, hs₁, hpath, hsame⟩ :=
    findPath_createFile hs hpacked hroot hslot hfits created
  obtain ⟨-, hcontent⟩ := hsame _ hn
  have hn₁ := hpath.trans hn
  have hvalid := FileSystem.valid_of_findPath hn₁
  have hin : i < maxEntries := (hvalid.resolve_left (by simp)).1
  set fs₁ : FileSystem := { fs with disk := disk } with hfs₁
  have hsave : saveBody fs localPath part created written =
      (fs₁.writeFs (.disk i) 0 (BitVec.ofNat 32 part.length) (bufferOf part) written).map
        Prod.fst := by
    rw [saveBody, hcreate, Option.bind_some]
    dsimp only
    rw [← hfs₁, hn₁]
    dsimp only
    rw [FileSystem.inode_disk, if_neg (Nat.not_le.mpr hin), FileSystem.writeFs_disk, Option.map_map]
    rfl
  rw [hsave, ← hcontent]
  cases hold : fs₁.content (.disk i) with
  | none =>
    -- an entry that is a directory stays one
    refine iff_of_false ?_ ?_
    · rintro ⟨fs', hmap, hshows⟩
      obtain ⟨⟨t, m⟩, hwrite, rfl⟩ := Option.map_eq_some_iff.mp hmap
      obtain ⟨-, hpaths⟩ := FileSystem.samePaths_writeFs hs₁ hvalid hwrite
      rw [shows_iff ((hpaths.findPath _).trans hn₁)] at hshows
      have hfile := FileSystem.isFile_disk.mp (FileSystem.isFile_of_content hshows)
      obtain ⟨disk', k, length, hreturns, hentries⟩ := MesaFS.write_returns fs₁.disk
        (fs₁.node (.disk i)) 0 (BitVec.ofNat 32 part.length) (bufferOf part) written
      rw [FileSystem.writeFs_disk, hreturns] at hwrite
      obtain ⟨rfl, -⟩ := Prod.mk.inj (Option.some_inj.mp hwrite)
      dsimp only at hfile
      rw [hentries, FileSystem.inode_disk, Function.update_self] at hfile
      rw [FileSystem.content_disk hfile] at hold
      exact absurd hold (Option.some_ne_none _)
    · rintro ⟨old, heq, -⟩
      exact absurd heq.symm (Option.some_ne_none old)
  | some old =>
    obtain ⟨fs', m, hwrite, hafter⟩ := FileSystem.content_writeFs_start hs₁ hvalid hold hpart written
    obtain ⟨-, hpaths⟩ := FileSystem.samePaths_writeFs hs₁ hvalid hwrite
    have hn' := (hpaths.findPath localPath).trans hn₁
    rw [hwrite, Option.map_some]
    constructor
    · rintro ⟨t, ht, hshows⟩
      obtain rfl := Option.some_inj.mp ht
      rw [shows_iff hn', hafter, Option.some_inj] at hshows
      exact ⟨old, rfl, hshows⟩
    · rintro ⟨old', heq, hbody⟩
      obtain rfl := Option.some_inj.mp heq
      refine ⟨fs', rfl, (shows_iff hn').mpr ?_⟩
      rw [hafter, hbody]

/-- Over a file of the RAM file system: an entry of the disk is written to. -/
theorem saveBody_ram {p : ℕ} (hn : fs.findPath localPath = some (.ram p))
    (created written : ℕ → U8) :
    (∃ fs', saveBody fs localPath part created written = some fs' ∧ Shows fs' localPath body) ↔
      (fs.ram.nodes p).inode < maxEntries ∧ fs.content (.ram p) = some body := by
  obtain ⟨disk, o, hcreate, hs₁, hpath, hsame⟩ :=
    findPath_createFile hs hpacked hroot hslot hfits created
  have hn₁ := hpath.trans hn
  -- the file system of the disk takes the node for one of its own
  set fs₁ : FileSystem := { fs with disk := disk } with hfs₁
  have hsave : saveBody fs localPath part created written =
      if maxEntries ≤ (fs.ram.nodes p).inode then none
      else (fs₁.disk.write (fs.ram.nodes p) 0 (BitVec.ofNat 32 part.length) (bufferOf part)
        written).map fun (disk, _) => { fs₁ with disk := disk } := by
    rw [saveBody, hcreate, Option.bind_some]
    dsimp only
    rw [← hfs₁, hn₁]
    rfl
  rw [hsave]
  by_cases hin : maxEntries ≤ (fs.ram.nodes p).inode
  · rw [if_pos hin]
    refine iff_of_false ?_ fun h => absurd h.1 (Nat.not_lt.mpr hin)
    rintro ⟨fs', h, -⟩
    exact absurd h.symm (Option.some_ne_none fs')
  · rw [if_neg hin]
    obtain ⟨disk', m, length, hwrite, hentries⟩ := MesaFS.write_returns fs₁.disk (fs.ram.nodes p) 0
      (BitVec.ofNat 32 part.length) (bufferOf part) written
    have hn' : ({ fs₁ with disk := disk' } : FileSystem).findPath localPath = some (.ram p) := by
      rw [FileSystem.findPath_eq, FileSystem.finddirFs_setLength fs₁ hentries,
        ← FileSystem.findPath_eq fs₁]
      exact hn₁
    have hcontent := FileSystem.content_ram_setDisk hs (FileSystem.valid_of_findPath hn) disk'
    rw [hwrite, Option.map_some]
    constructor
    · rintro ⟨t, ht, hshows⟩
      obtain rfl := Option.some_inj.mp ht
      exact ⟨Nat.lt_of_not_le hin, hcontent.symm.trans ((shows_iff hn').mp hshows)⟩
    · rintro ⟨-, hbody⟩
      exact ⟨_, rfl, (shows_iff hn').mpr (hcontent.trans hbody)⟩

/-- **What is saved shows under the path** just when the path led somewhere before. -/
theorem saveBody_iff (hpart : part.length ≤ 4096) (created written : ℕ → U8) :
    (∃ fs', saveBody fs localPath part created written = some fs' ∧ Shows fs' localPath body) ↔
      Lands fs localPath part body := by
  cases hn : fs.findPath localPath with
  | none =>
    obtain ⟨disk, o, hcreate, -, hpath, -⟩ :=
      findPath_createFile hs hpacked hroot hslot hfits created
    have hnone := hpath.trans hn
    refine iff_of_false ?_ ?_
    · rintro ⟨fs', hsave, n, hfound, -⟩
      rw [saveBody, hcreate, Option.bind_some] at hsave
      dsimp only at hsave
      rw [hnone] at hsave
      obtain rfl := Option.some_inj.mp hsave
      exact absurd (hfound.symm.trans hnone) (Option.some_ne_none n)
    · rintro ⟨n, hfound, -⟩
      exact absurd (hfound.symm.trans hn) (Option.some_ne_none n)
  | some n =>
    have hlands : ∀ P : Node → Prop,
        (∃ m, fs.findPath localPath = some m ∧ P m) ↔ P n := by
      intro P
      constructor
      · rintro ⟨m, hm, hP⟩
        obtain rfl : n = m := Option.some_inj.mp (hn.symm.trans hm)
        exact hP
      · exact fun hP => ⟨n, hn, hP⟩
    rw [Lands, hlands]
    cases n with
    | disk i => exact saveBody_disk hs hpacked hroot hslot hfits hn hpart created written
    | ram p => exact saveBody_ram hs hpacked hroot hslot hfits hn created written

end

theorem length_firstPart {r : Response} {chunks : List (List U8)} (h : r.Splits chunks) :
    (r.firstPart chunks).length ≤ r.body.length := by
  have hheld := length_heldAt (r.headers.length + 4) chunks []
  rw [List.nil_append, h.flatten, Response.bytes, List.length_append, List.length_append,
    show crlfCrlf.length = 4 from rfl] at hheld
  rw [Response.firstPart, List.length_drop]
  omega

/-- `http://example.com/a` -/
def exampleUrl : CString := ⟨chars "http://example.com/a", by decide⟩

def exampleHost : CString := ⟨chars "example.com", by decide⟩

def examplePath : CString := ⟨chars "/a", by decide⟩

/-- A body of one character. -/
def shortResponse : Response :=
  { headers := chars "HTTP/1.0 200 OK", body := chars "x", noNul := by decide, first := by decide }

/-- Whoever accepts the connection and the request, and answers in these chunks. -/
def answering (chunks : List (List U8)) : Peer :=
  { connect := fun _ => 1, send := fun data => data.length, chunks := chunks }

/-- The line end before the empty line comes first, and then the rest. -/
def cutInHeader : List (List U8) := [chars "HTTP/1.0 200 OK\r\n", chars "\r\nx"]

/-- The header comes first, and then the body. -/
def cutBehindHeader : List (List U8) := [chars "HTTP/1.0 200 OK\r\n\r\n", chars "x"]

/-- `/disk/a` -/
def cachePath : CString := ⟨chars "/disk/a", by decide⟩

end PackageManager

end MesaOS.Net
