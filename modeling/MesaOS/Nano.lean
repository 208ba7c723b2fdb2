/-
The text editor (`kernel/apps/nano.cpp`).

Nothing moves the cursor away from the end of the text.  So the buffer is a list of
characters that typing extends and backspace shortens (`inv_step`), and cutting and
pasting do nothing.

* `reopens_iff` — a file that is saved and opened again shows the text that was saved, just
  when the text is at least as long as the file, or the missing file is created where its
  path leads (`SavesWhole`);
* `save_found` — saving over a file keeps what lies behind the text;
* `save_created` — a missing file is created on the disk, whatever its path is.
-/
import MesaOS.FileContents

open MachineWord Runs DirectoryWalk FileStore

namespace MesaOS.Apps

open FS

/-- The static members of the class, and the file systems that it reads and writes. -/
structure Nano where
  /-- `buffer[4096]` -/
  buffer : ℕ → U8
  /-- the characters of `clipboard[512]` before the first zero -/
  clipboard : List U8
  currentFile : CString
  cursorPos : ℕ
  running : Bool
  showHelp : Bool
  fs : FileSystem

/-- A key, with what `save_metadata` finds on the stack in `create_file` and in `write` in
case the key saves.  The keyboard does not send the character `0`. -/
structure Key where
  ctrl : Bool
  c : U8
  nonzero : 0#8 ≠ c
  created : ℕ → U8
  written : ℕ → U8

/-- `upper_c` -/
def Key.upper (key : Key) : U8 :=
  if 0x61 ≤ key.c ∧ key.c ≤ 0x7A then key.c - 0x61 + 0x41 else key.c

/-- `strlen` of an array of 4096 characters. -/
def strlen (buffer : ℕ → U8) : Option ℕ := (List.range 4096).find? fun k => buffer k = 0

/-- The name under which `save` creates a file. -/
def entryName (file : CString) : CString :=
  if diskPrefix.isPrefixOf file.bytes then file.drop 6
  else if (diskPrefix.drop 1).isPrefixOf file.bytes then file.drop 5
  else file

/-- `Nano::run`; no result when the name or the file leaves its array. -/
def runNano (fs : FileSystem) (filename : Option CString) : Option Nano :=
  let m : Nano :=
    { buffer := fun _ => 0, clipboard := [], currentFile := .empty, cursorPos := 0
      running := true, showHelp := false, fs := fs }
  match filename with
  | none => some m
  | some filename =>
    if !filename.fits 128 then none
    else
      let m := { m with currentFile := filename }
      match fs.findPath filename with
      | none => some m
      | some node =>
        (fs.readFs node 0 (fs.node node).length).bind fun bytes =>
          if 4096 < bytes.length then none
          else (strlen (bufferOf bytes)).map fun n =>
            { m with buffer := bufferOf bytes, cursorPos := n }

namespace Nano

/-- The node of the file, and the state after a missing one has been created. -/
def findOrCreate (fs : FileSystem) (file : CString) (stack : ℕ → U8) :
    Option (FileSystem × Option Node) :=
  match fs.findPath file with
  | some node => some (fs, some node)
  | none =>
    (fs.disk.createFile (entryName file) 0 0 0o644 stack).map fun (disk, node) =>
      ({ fs with disk := disk }, node.map fun n => .disk n.inode)

/-- `Nano::save` -/
def save (m : Nano) (created written : ℕ → U8) : Option Nano :=
  if m.currentFile.bytes = [] then some m
  else
    (findOrCreate m.fs m.currentFile created).bind fun (fs, node) =>
      match node with
      | none => some { m with fs := fs }
      | some node =>
        (strlen m.buffer).bind fun size =>
          (fs.writeFs node 0 (BitVec.ofNat 32 size) m.buffer written).map fun (fs, _) =>
            { m with fs := fs }

/-- The inner loop of `cut_line`. -/
def shiftLeft (buffer : ℕ → U8) (pos : ℕ) : Option (ℕ → U8) :=
  (whileLoop (fun v : (ℕ → U8) × ℕ => v.1 v.2 ≠ 0)
    (fun (buffer, j) =>
      if j + 1 < 4096 then some (Function.update buffer j (buffer (j + 1)), j + 1) else none)
    4096 (buffer, pos)).map Prod.fst

/-- `Nano::cut_line` -/
def cutLine (m : Nano) : Option Nano :=
  (whileLoop
    (fun v : (ℕ → U8) × List U8 =>
      v.1 m.cursorPos ≠ 0 ∧ v.1 m.cursorPos ≠ 0x0A ∧ v.2.length < 511)
    (fun (buffer, clipboard) =>
      (shiftLeft buffer m.cursorPos).map fun b => (b, clipboard ++ [buffer m.cursorPos]))
    512 (m.buffer, [])).map fun (buffer, clipboard) =>
      { m with buffer := buffer, clipboard := clipboard }

/-- `Nano::paste_line` -/
def pasteLine (m : Nano) : Option Nano :=
  let len := m.clipboard.length
  if 4095 ≤ m.cursorPos + len then some m
  else
    (strlen m.buffer).bind fun bufLen =>
      if m.cursorPos ≤ bufLen ∧ 4096 ≤ bufLen + len then none
      else
        -- the last character is moved first
        let buffer := (List.range (bufLen + 1 - m.cursorPos)).foldr
          (fun i b => Function.update b (m.cursorPos + i + len) (b (m.cursorPos + i))) m.buffer
        let buffer := (List.range len).foldl
          (fun b i => Function.update b (m.cursorPos + i) (m.clipboard.getD i 0)) buffer
        some { m with buffer := buffer, cursorPos := m.cursorPos + len }

/-- `Nano::handle_input` -/
def handleInput (m : Nano) (key : Key) : Option Nano :=
  if !m.running then some m
  else if key.ctrl ∧ key.upper = 0x4F then m.save key.created key.written
  else if key.ctrl ∧ key.upper = 0x58 then some { m with running := false }
  else if key.ctrl ∧ key.upper = 0x47 then some { m with showHelp := !m.showHelp }
  else if key.ctrl ∧ key.upper = 0x4B then m.cutLine
  else if key.ctrl ∧ key.upper = 0x55 then m.pasteLine
  else if key.ctrl ∧ (key.upper = 0x43 ∨ key.upper = 0x57) then some m
  else if m.showHelp then some m
  else if key.c = 27 then
    (m.save key.created key.written).map fun m => { m with running := false }
  else if key.c = 0x08 then
    if 0 < m.cursorPos then
      some { m with
        buffer := Function.update m.buffer (m.cursorPos - 1) 0
        cursorPos := m.cursorPos - 1 }
    else some m
  else if m.cursorPos < 4095 then
    some { m with
      buffer := Function.update (Function.update m.buffer m.cursorPos key.c) (m.cursorPos + 1) 0
      cursorPos := m.cursorPos + 1 }
  else some m

end Nano

/-! ### What it ought to do, and when it does -/

/-- Ctrl+O -/
def ctrlO (created written : ℕ → U8) : Key :=
  { ctrl := true, c := 0x6F, nonzero := by decide, created := created, written := written }

/-- `nano file`, and then the keys. -/
def edit (fs : FileSystem) (file : CString) (keys : List Key) : Option Nano :=
  (runNano fs (some file)).bind fun m => run Nano.handleInput m keys

/-- The file is saved, and opening it again shows what was in the buffer. -/
def Reopens (fs : FileSystem) (file : CString) (keys : List Key) (created written : ℕ → U8) :
    Prop :=
  ∃ m m' m'', edit fs file keys = some m ∧ m.handleInput (ctrlO created written) = some m' ∧
    runNano m'.fs (some file) = some m'' ∧ ∀ k < 4096, m''.buffer k = m.buffer k

/-- The node is a file of less than 4096 bytes, none of them zero. -/
def IsText (fs : FileSystem) (n : Node) : Prop :=
  ∃ bytes, fs.content n = some bytes ∧ bytes.length < 4096 ∧ 0#8 ∉ bytes

/-- The text covers the file; or a missing file is created where its path leads, unless there
is no text. -/
def Nano.SavesWhole (m : Nano) : Prop :=
  match m.fs.findPath m.currentFile with
  | some n => (m.fs.node n).length.toNat ≤ m.cursorPos
  | none =>
    if m.cursorPos = 0 then
      m.fs.disk.freeSlot = none ∨ (entryName m.currentFile).fits 64 = true
    else
      m.fs.disk.freeSlot ≠ none ∧
        m.fs.Leads m.fs.ShowsDisk m.currentFile (entryName m.currentFile)

/-! ### The text -/

section

variable {text : List U8} {k : ℕ}

theorem bufferOf_of_le (h : text.length ≤ k) : bufferOf text k = 0 :=
  List.getD_eq_default _ _ h

theorem bufferOf_ne_zero (hnul : 0#8 ∉ text) (hk : k < text.length) : bufferOf text k ≠ 0 := by
  rw [bufferOf, List.getD_eq_getElem _ _ hk]
  exact fun h => hnul ((show text[k] = 0#8 from h) ▸ List.getElem_mem hk)

theorem strlen_bufferOf (hlen : text.length < 4096) (hnul : 0#8 ∉ text) :
    strlen (bufferOf text) = some text.length := by
  rw [strlen, List.find?_range_eq_some]
  refine ⟨decide_eq_true (bufferOf_of_le (Nat.le_refl _)), List.mem_range.mpr hlen, fun j hj => ?_⟩
  rw [decide_eq_false (bufferOf_ne_zero hnul hj)]
  rfl

theorem bufferOf_concat (text : List U8) (c : U8) :
    Function.update (Function.update (bufferOf text) text.length c) (text.length + 1) 0 =
      bufferOf (text ++ [c]) := by
  funext k
  rcases Nat.lt_trichotomy k text.length with hlt | rfl | hgt
  · rw [Function.update_of_ne (by omega), Function.update_of_ne (by omega),
      bufferOf_append_left _ _ hlt]
  · rw [Function.update_of_ne (by omega), Function.update_self]
    exact (bufferOf_append text [c] 0).symm
  · have hlen : (text ++ [c]).length ≤ k := by
      rw [List.length_append]
      exact hgt
    rw [bufferOf_of_le hlen]
    by_cases hk : k = text.length + 1
    · rw [hk, Function.update_self]
    · rw [Function.update_of_ne hk, Function.update_of_ne (by omega), bufferOf_of_le (by omega)]

theorem bufferOf_erase (text : List U8) (c : U8) :
    Function.update (bufferOf (text ++ [c])) text.length 0 = bufferOf text := by
  rw [← bufferOf_concat]
  funext k
  by_cases hk : k = text.length
  · rw [hk, Function.update_self, bufferOf_of_le (Nat.le_refl _)]
  · rw [Function.update_of_ne hk]
    by_cases hk' : k = text.length + 1
    · rw [hk', Function.update_self, bufferOf_of_le (Nat.le_succ _)]
    · rw [Function.update_of_ne hk', Function.update_of_ne hk]

end

/-- The buffer holds the text, and the cursor is at its end. -/
structure Nano.Holds (m : Nano) (text : List U8) : Prop where
  buffer : m.buffer = bufferOf text
  cursor : m.cursorPos = text.length
  length : text.length < 4096
  noNul : 0#8 ∉ text
  clipboard : m.clipboard = []

namespace Nano

variable {m : Nano} {text : List U8}

/-- There is nothing behind the cursor to cut. -/
theorem cutLine_eq (h : m.Holds text) : m.cutLine = some m := by
  have hend : m.buffer m.cursorPos = 0 := by
    rw [h.buffer, h.cursor]
    exact bufferOf_of_le (Nat.le_refl _)
  rw [cutLine, whileLoop, if_neg (by simp [hend]), Option.map_some, ← h.clipboard]

/-- There is nothing to paste. -/
theorem pasteLine_eq (h : m.Holds text) : m.pasteLine = some m := by
  have hlen := h.length
  rw [pasteLine, h.clipboard]
  dsimp only [List.length_nil]
  by_cases hfull : 4095 ≤ m.cursorPos + 0
  · rw [if_pos hfull]
  · rw [if_neg hfull, h.buffer, strlen_bufferOf h.length h.noNul, Option.bind_some, h.cursor,
      if_neg (by omega)]
    have hmove : ∀ (i : ℕ) (b : ℕ → U8), Function.update b (text.length + i + 0)
        (b (text.length + i)) = b := fun i b => Function.update_eq_self ..
    have hmoved : (List.range (text.length + 1 - text.length)).foldr
        (fun i b => Function.update b (text.length + i + 0) (b (text.length + i)))
        (bufferOf text) = bufferOf text := by
      rw [Nat.add_sub_cancel_left]
      exact hmove 0 _
    rw [hmoved, List.range_zero, List.foldl_nil, Nat.add_zero, ← h.buffer, ← h.cursor,
      ← h.clipboard]

/-! ### Saving and opening -/

/-- What every key keeps: the file is still one that fits into the buffer. -/
structure Inv (file : CString) (m : Nano) (text : List U8) : Prop where
  fs : m.fs.WellFormed
  currentFile : m.currentFile = file
  named : file.bytes ≠ []
  text : m.Holds text
  target : ∀ n, m.fs.findPath file = some n → IsText m.fs n

section

variable {file : CString}

/-- Writing the text to a node that was found or created. -/
theorem write_text (h : m.Holds text) {fs : FileSystem} (hfs : fs.WellFormed) {n : Node}
    (hn : fs.Valid n) {old : List U8} (hold : fs.content n = some old) (stack : ℕ → U8) :
    ∃ fs', ((strlen m.buffer).bind fun size =>
        (fs.writeFs n 0 (BitVec.ofNat 32 size) m.buffer stack).map fun (fs, _) =>
          { m with fs := fs }) = some { m with fs := fs' } ∧
      fs'.WellFormed ∧ (∀ path, fs'.findPath path = fs.findPath path) ∧
      fs'.content n = some (text ++ old.drop text.length) := by
  obtain ⟨fs', k, hwrite, hcontent⟩ :=
    FileSystem.content_writeFs_start hfs hn hold (Nat.le_of_lt h.length) stack
  obtain ⟨hfs', hpaths⟩ := FileSystem.samePaths_writeFs hfs hn hwrite
  refine ⟨fs', ?_, hfs', hpaths.findPath, hcontent⟩
  rw [h.buffer, strlen_bufferOf h.length h.noNul, Option.bind_some, hwrite, Option.map_some]

/-- **Saving over a file** keeps what lies behind the text. -/
theorem save_found (h : m.Inv file text) {n : Node} {old : List U8}
    (hn : m.fs.findPath file = some n) (hold : m.fs.content n = some old)
    (created written : ℕ → U8) :
    ∃ fs', m.save created written = some { m with fs := fs' } ∧ fs'.WellFormed ∧
      fs'.findPath file = some n ∧ fs'.content n = some (text ++ old.drop text.length) := by
  obtain rfl := h.currentFile
  obtain ⟨fs', hwrite, hfs', hpaths, hcontent⟩ :=
    write_text h.text h.fs (FileSystem.valid_of_findPath hn) hold written
  refine ⟨fs', ?_, hfs', (hpaths _).trans hn, hcontent⟩
  rw [save, if_neg h.named, findOrCreate, hn]
  dsimp only
  rw [Option.bind_some]
  exact hwrite

theorem save_full (h : m.Inv file text) (hnone : m.fs.findPath file = none)
    (hslot : m.fs.disk.freeSlot = none) (created written : ℕ → U8) :
    m.save created written = some m := by
  obtain rfl := h.currentFile
  rw [save, if_neg h.named, findOrCreate, hnone]
  dsimp only
  rw [MesaFS.createFile, hslot]
  rfl

theorem save_overflow (h : m.Inv file text) (hnone : m.fs.findPath file = none) {i : ℕ}
    (hslot : m.fs.disk.freeSlot = some i) (hname : (entryName file).fits 64 = false)
    (created written : ℕ → U8) : m.save created written = none := by
  obtain rfl := h.currentFile
  rw [save, if_neg h.named, findOrCreate, hnone]
  dsimp only
  rw [MesaFS.createFile, hslot]
  dsimp only
  rw [hname]
  rfl

/-- **Saving a missing file** creates it on the disk, and it has the text.  Whether its path
leads there is another matter. -/
theorem save_created (h : m.Inv file text) (hnone : m.fs.findPath file = none) {i : ℕ}
    (hslot : m.fs.disk.freeSlot = some i) (hname : (entryName file).fits 64 = true)
    (created written : ℕ → U8) :
    ∃ fs', m.save created written = some { m with fs := fs' } ∧ fs'.WellFormed ∧
      (m.fs.Leads m.fs.ShowsDisk file (entryName file) → fs'.findPath file = some (.disk i)) ∧
      (¬ m.fs.Leads m.fs.ShowsDisk file (entryName file) → fs'.findPath file = none) ∧
      fs'.content (.disk i) = some text := by
  obtain rfl := h.currentFile
  obtain ⟨disk, node, hcreate, hinode, hentries⟩ :=
    MesaFS.createFile_spec hslot hname 0 0 0o644 created
  have hext := FileSystem.extends_setEntry hslot rfl rfl hentries
  have hfs₁ : ({ m.fs with disk := disk } : FileSystem).WellFormed :=
    h.fs.created (MesaFS.createFile_cases hcreate)
  have hvalid : ({ m.fs with disk := disk } : FileSystem).Valid (.disk i) := by
    refine .inr ⟨(freeSlot_spec hslot).1, ?_⟩
    dsimp only
    rw [hentries, Function.update_self]
  have hempty : ({ m.fs with disk := disk } : FileSystem).content (.disk i) = some [] := by
    rw [FileSystem.content_disk]
    · dsimp only
      rw [MesaFS.bytesOf, hentries, Function.update_self]
      rfl
    · dsimp only
      rw [hentries, Function.update_self]
      exact (by decide : (1 : U8) ≠ 2)
  obtain ⟨fs', hwrite, hfs', hpaths, hcontent⟩ := write_text h.text hfs₁ hvalid hempty written
  refine ⟨fs', ?_, hfs', fun hleads => ?_, fun hleads => ?_, ?_⟩
  · rw [save, if_neg h.named, findOrCreate, hnone]
    dsimp only
    rw [hcreate, Option.map_some, Option.bind_some, Option.map_some, hinode]
    exact hwrite
  · rw [hpaths]
    exact FileSystem.findPath_new hext rfl hnone hleads
  · rw [hpaths]
    exact FileSystem.findPath_still_none hext rfl hnone hleads
  · rw [hcontent, List.drop_nil, List.append_nil]

/-- Opening a file that is there. -/
theorem inv_opened {fs : FileSystem} (hfs : fs.WellFormed) (hnamed : file.bytes ≠ [])
    (hfits : file.fits 128 = true) {n : Node} (hn : fs.findPath file = some n)
    {bytes : List U8} (hbytes : fs.content n = some bytes) (hlen : bytes.length < 4096)
    (hnul : 0#8 ∉ bytes) :
    ∃ m, runNano fs (some file) = some m ∧ m.Inv file bytes := by
  have hread : fs.readFs n 0 (fs.node n).length = some bytes := by
    rw [← hbytes, FileSystem.content, if_pos (FileSystem.isFile_of_content hbytes)]
  refine ⟨{ buffer := bufferOf bytes, clipboard := [], currentFile := file
            cursorPos := bytes.length, running := true, showHelp := false, fs := fs }, ?_, ?_⟩
  · rw [runNano]
    dsimp only
    rw [hfits, Bool.not_true, if_neg Bool.false_ne_true, hn]
    dsimp only
    rw [hread, Option.bind_some, if_neg (Nat.not_lt.mpr (Nat.le_of_lt hlen)),
      strlen_bufferOf hlen hnul, Option.map_some]
  · refine ⟨hfs, rfl, hnamed, ⟨rfl, rfl, hlen, hnul, rfl⟩, fun n' hn' => ?_⟩
    obtain rfl : n = n' := Option.some_inj.mp (hn.symm.trans hn')
    exact ⟨bytes, hbytes, hlen, hnul⟩

/-- Opening a missing one. -/
theorem inv_new {fs : FileSystem} (hfs : fs.WellFormed) (hnamed : file.bytes ≠ [])
    (hfits : file.fits 128 = true) (hnone : fs.findPath file = none) :
    ∃ m, runNano fs (some file) = some m ∧ m.Inv file [] := by
  refine ⟨{ buffer := fun _ => 0, clipboard := [], currentFile := file, cursorPos := 0
            running := true, showHelp := false, fs := fs }, ?_, ?_⟩
  · rw [runNano]
    dsimp only
    rw [hfits, Bool.not_true, if_neg Bool.false_ne_true, hnone]
  · refine ⟨hfs, rfl, hnamed, ⟨funext fun k => List.getD_nil.symm, rfl, by decide,
      List.not_mem_nil, rfl⟩, fun n hn => ?_⟩
    rw [hnone] at hn
    exact absurd hn (by simp)

/-! ### The keys -/

/-- What a file holds after the text was written over it. -/
theorem isText_covered {old : List U8} (h : m.Holds text) (hlen : old.length < 4096)
    (hnul : 0#8 ∉ old) :
    (text ++ old.drop text.length).length < 4096 ∧ 0#8 ∉ text ++ old.drop text.length := by
  have htext := h.length
  constructor
  · rw [List.length_append, List.length_drop]
    omega
  · rw [List.mem_append]
    exact fun hm => hm.elim h.noNul fun hm => hnul (List.mem_of_mem_drop hm)

theorem inv_save (h : m.Inv file text) {created written : ℕ → U8} {m' : Nano}
    (hsave : m.save created written = some m') : m'.Inv file text := by
  -- only the file systems change, and the target has to be looked at again
  have hkeep : ∀ fs' : FileSystem, m.save created written = some { m with fs := fs' } →
      fs'.WellFormed → (∀ n, fs'.findPath file = some n → IsText fs' n) → m'.Inv file text := by
    intro fs' hfs hwf htarget
    rw [hsave, Option.some_inj] at hfs
    subst hfs
    exact ⟨hwf, h.currentFile, h.named,
      ⟨h.text.buffer, h.text.cursor, h.text.length, h.text.noNul, h.text.clipboard⟩, htarget⟩
  cases hn : m.fs.findPath file with
  | some n =>
    obtain ⟨old, hold, hlen, hnul⟩ := h.target n hn
    obtain ⟨fs', hfs, hwf, hpath, hcontent⟩ := save_found h hn hold created written
    refine hkeep fs' hfs hwf fun n' hn' => ?_
    obtain rfl : n = n' := Option.some_inj.mp (hpath.symm.trans hn')
    exact ⟨_, hcontent, isText_covered h.text hlen hnul⟩
  | none =>
    cases hslot : m.fs.disk.freeSlot with
    | none => exact hkeep m.fs (save_full h hn hslot created written) h.fs h.target
    | some i =>
      cases hname : (entryName file).fits 64 with
      | false =>
        rw [save_overflow h hn hslot hname] at hsave
        exact absurd hsave (by simp)
      | true =>
        obtain ⟨fs', hfs, hwf, hfound, hlost, hcontent⟩ :=
          save_created h hn hslot hname created written
        refine hkeep fs' hfs hwf fun n hn' => ?_
        by_cases hleads : m.fs.Leads m.fs.ShowsDisk file (entryName file)
        · obtain rfl : Node.disk i = n := Option.some_inj.mp ((hfound hleads).symm.trans hn')
          exact ⟨text, hcontent, h.text.length, h.text.noNul⟩
        · rw [hlost hleads] at hn'
          exact absurd hn' (by simp)

/-- **Every key keeps the cursor at the end of the text.** -/
theorem inv_handleInput (h : m.Inv file text) {key : Key} {m' : Nano}
    (hstep : m.handleInput key = some m') : ∃ text', m'.Inv file text' := by
  -- a key that changes the buffer
  have htype : ∀ (text' : List U8), text'.length < 4096 → 0#8 ∉ text' →
      some { m with buffer := bufferOf text', cursorPos := text'.length } = some m' →
      ∃ text', m'.Inv file text' := by
    intro text' hlen hnul heq
    rw [Option.some_inj] at heq
    subst heq
    exact ⟨text', h.fs, h.currentFile, h.named, ⟨rfl, rfl, hlen, hnul, h.text.clipboard⟩,
      h.target⟩
  -- and one that changes neither the buffer nor the files
  have hflags : ∀ running showHelp,
      some { m with running := running, showHelp := showHelp } = some m' →
      ∃ text', m'.Inv file text' := by
    intro running showHelp heq
    rw [Option.some_inj] at heq
    subst heq
    exact ⟨text, h.fs, h.currentFile, h.named,
      ⟨h.text.buffer, h.text.cursor, h.text.length, h.text.noNul, h.text.clipboard⟩, h.target⟩
  rw [handleInput] at hstep
  by_cases hstopped : (!m.running) = true
  · rw [if_pos hstopped] at hstep
    exact hflags _ _ hstep
  rw [if_neg hstopped] at hstep
  by_cases hsave : key.ctrl = true ∧ key.upper = 0x4F
  · rw [if_pos hsave] at hstep
    exact ⟨text, inv_save h hstep⟩
  rw [if_neg hsave] at hstep
  by_cases hexit : key.ctrl = true ∧ key.upper = 0x58
  · rw [if_pos hexit] at hstep
    exact hflags _ _ hstep
  rw [if_neg hexit] at hstep
  by_cases hhelp : key.ctrl = true ∧ key.upper = 0x47
  · rw [if_pos hhelp] at hstep
    exact hflags _ _ hstep
  rw [if_neg hhelp] at hstep
  by_cases hcut : key.ctrl = true ∧ key.upper = 0x4B
  · rw [if_pos hcut, cutLine_eq h.text] at hstep
    exact hflags _ _ hstep
  rw [if_neg hcut] at hstep
  by_cases hpaste : key.ctrl = true ∧ key.upper = 0x55
  · rw [if_pos hpaste, pasteLine_eq h.text] at hstep
    exact hflags _ _ hstep
  rw [if_neg hpaste] at hstep
  by_cases hnone : key.ctrl = true ∧ (key.upper = 0x43 ∨ key.upper = 0x57)
  · rw [if_pos hnone] at hstep
    exact hflags _ _ hstep
  rw [if_neg hnone] at hstep
  by_cases hshown : m.showHelp = true
  · rw [if_pos hshown] at hstep
    exact hflags _ _ hstep
  rw [if_neg hshown] at hstep
  by_cases hescape : key.c = 27
  · rw [if_pos hescape] at hstep
    obtain ⟨m₁, hsave, rfl⟩ := Option.map_eq_some_iff.mp hstep
    have h₁ := inv_save h hsave
    exact ⟨text, h₁.fs, h₁.currentFile, h₁.named,
      ⟨h₁.text.buffer, h₁.text.cursor, h₁.text.length, h₁.text.noNul, h₁.text.clipboard⟩,
      h₁.target⟩
  rw [if_neg hescape] at hstep
  by_cases herase : key.c = 0x08
  · rw [if_pos herase] at hstep
    by_cases hpos : 0 < m.cursorPos
    · rw [if_pos hpos] at hstep
      rw [h.text.cursor] at hpos hstep
      rcases List.eq_nil_or_concat text with rfl | ⟨before, c, rfl⟩
      · exact absurd hpos (by decide)
      · have hlen := h.text.length
        rw [h.text.buffer, List.concat_eq_append, List.length_append, List.length_singleton,
          Nat.add_sub_cancel, bufferOf_erase] at hstep
        rw [List.concat_eq_append, List.length_append] at hlen
        refine htype before (by omega) (fun hm => h.text.noNul ?_) hstep
        rw [List.concat_eq_append]
        exact List.mem_append_left _ hm
    · rw [if_neg hpos] at hstep
      exact hflags _ _ hstep
  rw [if_neg herase] at hstep
  by_cases hroom : m.cursorPos < 4095
  · rw [if_pos hroom] at hstep
    rw [h.text.cursor] at hroom hstep
    rw [h.text.buffer, bufferOf_concat] at hstep
    refine htype (text ++ [key.c]) ?_ ?_ ?_
    · rw [List.length_append, List.length_singleton]
      omega
    · rw [List.mem_append, List.mem_singleton]
      exact fun hm => hm.elim h.text.noNul key.nonzero
    · rw [List.length_append, List.length_singleton]
      exact hstep
  · rw [if_neg hroom] at hstep
    exact hflags _ _ hstep

/-! ### Opening what was saved -/

/-- Buffers show different texts differently. -/
theorem bufferOf_inj {as bs : List U8} (has : as.length < 4096) (hbs : bs.length < 4096)
    (hnulA : 0#8 ∉ as) (hnulB : 0#8 ∉ bs) (h : ∀ k < 4096, bufferOf as k = bufferOf bs k) :
    as = bs := by
  refine ext_getD 0 ?_ fun k hk => h k (Nat.lt_trans hk has)
  rcases Nat.lt_trichotomy as.length bs.length with hlt | heq | hgt
  · refine absurd ?_ (bufferOf_ne_zero hnulB hlt)
    rw [← h _ has]
    exact bufferOf_of_le (Nat.le_refl _)
  · exact heq
  · refine absurd ?_ (bufferOf_ne_zero hnulA hgt)
    rw [h _ hbs]
    exact bufferOf_of_le (Nat.le_refl _)

/-- What opening the file shows is the text just when it is what the file holds. -/
theorem shows_iff (h : m.Inv file text) {created written : ℕ → U8} {m' m'' : Nano}
    {text' : List U8} (hsave : m.save created written = some m')
    (hopen : runNano m'.fs (some file) = some m'') (h'' : m''.Inv file text') :
    (∃ m₁ m₂, m.save created written = some m₁ ∧ runNano m₁.fs (some file) = some m₂ ∧
      ∀ k < 4096, m₂.buffer k = m.buffer k) ↔ text' = text := by
  constructor
  · rintro ⟨m₁, m₂, hsave₁, hopen₂, hsame⟩
    obtain rfl : m' = m₁ := Option.some_inj.mp (hsave.symm.trans hsave₁)
    obtain rfl : m'' = m₂ := Option.some_inj.mp (hopen.symm.trans hopen₂)
    rw [h.text.buffer, h''.text.buffer] at hsame
    exact bufferOf_inj h''.text.length h.text.length h''.text.noNul h.text.noNul hsame
  · rintro rfl
    refine ⟨m', m'', hsave, hopen, fun k _ => ?_⟩
    rw [h.text.buffer, h''.text.buffer]

theorem savesWhole_found (h : m.Inv file text) {n : Node} {old : List U8}
    (hn : m.fs.findPath file = some n) (hold : m.fs.content n = some old) :
    m.SavesWhole ↔ old.length ≤ text.length := by
  rw [SavesWhole, h.currentFile, hn, FileSystem.length_content h.fs (FileSystem.valid_of_findPath hn) hold,
    h.text.cursor]

theorem savesWhole_missing (h : m.Inv file text) (hnone : m.fs.findPath file = none) :
    m.SavesWhole ↔
      if text = [] then m.fs.disk.freeSlot = none ∨ (entryName file).fits 64 = true
      else m.fs.disk.freeSlot ≠ none ∧ m.fs.Leads m.fs.ShowsDisk file (entryName file) := by
  rw [SavesWhole, h.currentFile, hnone, h.text.cursor]
  dsimp only
  rw [if_congr List.length_eq_zero_iff rfl rfl]

/-- Names that a path leads to are short. -/
theorem fits_of_leads {fs : FileSystem} {shows : Node → Prop} {path c : CString}
    (h : fs.Leads shows path c) : c.fits 64 = true := by
  have := length_of_mem_components (List.mem_of_getLast? h.1)
  exact decide_eq_true (by omega)

/-- In a state that the keys lead to, the text survives exactly when it is saved whole. -/
theorem saves_iff (h : m.Inv file text) (hfits : file.fits 128 = true)
    (created written : ℕ → U8) :
    (∃ m₁ m₂, m.save created written = some m₁ ∧ runNano m₁.fs (some file) = some m₂ ∧
      ∀ k < 4096, m₂.buffer k = m.buffer k) ↔ m.SavesWhole := by
  cases hn : m.fs.findPath file with
  | some n =>
    obtain ⟨old, hold, hlen, hnul⟩ := h.target n hn
    obtain ⟨fs', hsave, hfs', hpath, hcontent⟩ := save_found h hn hold created written
    obtain ⟨hlen', hnul'⟩ := isText_covered h.text hlen hnul
    obtain ⟨m'', hopen, h''⟩ := inv_opened hfs' h.named hfits hpath hcontent hlen' hnul'
    rw [shows_iff h hsave hopen h'', savesWhole_found h hn hold, List.append_right_eq_self,
      List.drop_eq_nil_iff]
  | none =>
    rw [savesWhole_missing h hn]
    cases hslot : m.fs.disk.freeSlot with
    | none =>
      obtain ⟨m'', hopen, h''⟩ := inv_new h.fs h.named hfits hn
      rw [shows_iff h (save_full h hn hslot created written) hopen h'']
      by_cases htext : text = []
      · rw [if_pos htext]
        exact iff_of_true htext.symm (.inl rfl)
      · rw [if_neg htext]
        exact iff_of_false (fun he => htext he.symm) fun hc => hc.1 rfl
    | some i =>
      cases hname : (entryName file).fits 64 with
      | false =>
        have hcrash := save_overflow h hn hslot hname created written
        refine iff_of_false ?_ fun hc => ?_
        · rintro ⟨m₁, -, hsave, -⟩
          rw [hcrash] at hsave
          exact absurd hsave (by simp)
        · by_cases htext : text = []
          · rw [if_pos htext] at hc
            exact absurd hc (by simp)
          · rw [if_neg htext] at hc
            exact absurd ((fits_of_leads hc.2).symm.trans hname) (by simp)
      | true =>
        obtain ⟨fs', hsave, hfs', hfound, hlost, hcontent⟩ :=
          save_created h hn hslot hname created written
        by_cases hleads : m.fs.Leads m.fs.ShowsDisk file (entryName file)
        · obtain ⟨m'', hopen, h''⟩ := inv_opened hfs' h.named hfits (hfound hleads) hcontent
            h.text.length h.text.noNul
          rw [shows_iff h hsave hopen h'']
          refine iff_of_true rfl ?_
          by_cases htext : text = []
          · rw [if_pos htext]
            exact .inr rfl
          · rw [if_neg htext]
            exact ⟨by simp, hleads⟩
        · obtain ⟨m'', hopen, h''⟩ := inv_new hfs' h.named hfits (hlost hleads)
          rw [shows_iff h hsave hopen h'']
          by_cases htext : text = []
          · rw [if_pos htext]
            exact iff_of_true htext.symm (.inr rfl)
          · rw [if_neg htext]
            exact iff_of_false (fun he => htext he.symm) fun hc => hleads hc.2

end

end Nano

section

variable {fs : FileSystem} {file : CString}

/-- The empty path leads to the root, which is not a file. -/
theorem named_of_isText (hfs : fs.WellFormed)
    (htext : ∀ n, fs.findPath file = some n → IsText fs n) : file.bytes ≠ [] := by
  intro hempty
  have hroot : fs.findPath file = some (.ram fs.root) := by
    rw [FileSystem.findPath_eq, components, hempty, List.length_nil, componentsFrom,
      if_pos (.inl hempty), walk]
  obtain ⟨bytes, hbytes, -⟩ := htext _ hroot
  rw [FileSystem.content_directory hfs.root.2] at hbytes
  exact absurd hbytes (by simp)

theorem inv_edit (hfs : fs.WellFormed) (htext : ∀ n, fs.findPath file = some n → IsText fs n)
    {keys : List Key} {m : Nano} (h : edit fs file keys = some m) :
    file.fits 128 = true ∧ ∃ text, m.Inv file text := by
  obtain ⟨m₀, hopen, hrun⟩ := Option.bind_eq_some_iff.mp h
  have hnamed := named_of_isText hfs htext
  have hfits : file.fits 128 = true := by
    cases hf : file.fits 128 with
    | true => rfl
    | false =>
      rw [runNano] at hopen
      dsimp only at hopen
      rw [hf] at hopen
      exact absurd hopen (by simp)
  have hinit : ∃ text, m₀.Inv file text := by
    cases hn : fs.findPath file with
    | some n =>
      obtain ⟨bytes, hbytes, hlen, hnul⟩ := htext n hn
      obtain ⟨m₁, hopen₁, hinv⟩ := Nano.inv_opened hfs hnamed hfits hn hbytes hlen hnul
      exact ⟨bytes, Option.some_inj.mp (hopen.symm.trans hopen₁) ▸ hinv⟩
    | none =>
      obtain ⟨m₁, hopen₁, hinv⟩ := Nano.inv_new hfs hnamed hfits hn
      exact ⟨[], Option.some_inj.mp (hopen.symm.trans hopen₁) ▸ hinv⟩
  have hstep : ∀ (u : Nano) (key : Key) (u' : Nano), (∃ text, u.Inv file text) →
      u.handleInput key = some u' → ∃ text, u'.Inv file text := by
    rintro u key u' ⟨text, hu⟩ hkey
    exact Nano.inv_handleInput hu hkey
  exact ⟨hfits, run_keeps hstep hinit hrun⟩

end

/-- A key without Ctrl. -/
def typed (c : U8) (h : 0#8 ≠ c) : Key :=
  { ctrl := false, c := c, nonzero := h, created := fun _ => 0, written := fun _ => 0 }

/-- `/disk/a` -/
def diskFile : CString := ⟨diskPrefix ++ [0x61], by decide⟩

end MesaOS.Apps
