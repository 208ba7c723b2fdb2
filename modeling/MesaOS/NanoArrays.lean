/-
The arrays of the text editor.

The functions of `nano.cpp` with every access to `buffer[4096]` and `clipboard[512]` checked.
What `save` does to the file systems is that of `Nano`; here it only reads the text.

* `NanoArrays.Inv.handleInput` — every key stays within the arrays and keeps the cursor at the
  end of the text;
* `editsSafely_iff` — which files can be opened and edited;
* `handleInput_toArrays` — what `Nano` does, this editor does.
-/
import MesaOS.CheckedArray
import MesaOS.Nano

open MachineWord Runs CheckedArray

namespace MesaOS.Apps

open FS

/-- The static members of the class. -/
structure NanoArrays where
  buffer : Fin 4096 → U8
  clipboard : Fin 512 → U8
  currentFile : CString
  cursorPos : ℕ
  running : Bool
  showHelp : Bool

namespace NanoArrays

/-- `Nano::refresh_screen`: without the help the text is written up to its end. -/
def refreshScreen (m : NanoArrays) : Option NanoArrays :=
  if m.showHelp then some m else (CheckedArray.strlen 0 m.buffer).map fun _ => m

/-- `Nano::run`; no result when the name or the file leaves its array. -/
def runNano (fs : FileSystem) (filename : Option CString) : Option NanoArrays :=
  let m : NanoArrays :=
    { buffer := fun _ => 0, clipboard := fun _ => 0, currentFile := .empty, cursorPos := 0
      running := true, showHelp := false }
  match filename with
  | none => m.refreshScreen
  | some filename =>
    if !filename.fits 128 then none
    else
      let m := { m with currentFile := filename }
      match fs.findPath filename with
      | none => m.refreshScreen
      | some node =>
        (fs.readFs node 0 (fs.node node).length).bind fun bytes =>
        (storeFrom m.buffer 0 bytes).bind fun buffer =>
        (CheckedArray.strlen 0 buffer).bind fun n =>
          { m with buffer := buffer, cursorPos := n }.refreshScreen

/-- `Nano::save`, as far as it reads the text. -/
def save (m : NanoArrays) : Option NanoArrays :=
  if m.currentFile.bytes = [] then some m else (CheckedArray.strlen 0 m.buffer).map fun _ => m

/-- The inner loop of `cut_line`. -/
def shiftLeft : ℕ → (Fin 4096 → U8) → ℕ → Option (Fin 4096 → U8)
  | 0, _, _ => none
  | fuel + 1, buffer, j =>
    (load buffer j).bind fun c =>
      if c = 0 then some buffer
      else
        (load buffer (j + 1)).bind fun next =>
          (store buffer j next).bind fun buffer => shiftLeft fuel buffer (j + 1)

/-- The outer loop of `cut_line`: the arrays and `i`. -/
def cutLoop (cursorPos : ℕ) :
    ℕ → (Fin 4096 → U8) → (Fin 512 → U8) → ℕ → Option ((Fin 4096 → U8) × (Fin 512 → U8) × ℕ)
  | 0, _, _, _ => none
  | fuel + 1, buffer, clipboard, i =>
    (load buffer cursorPos).bind fun c =>
      if c ≠ 0 ∧ c ≠ 0x0A ∧ i < 511 then
        (store clipboard i c).bind fun clipboard =>
          (shiftLeft 4097 buffer cursorPos).bind fun buffer =>
            cutLoop cursorPos fuel buffer clipboard (i + 1)
      else some (buffer, clipboard, i)

/-- `Nano::cut_line` -/
def cutLine (m : NanoArrays) : Option NanoArrays :=
  (cutLoop m.cursorPos 512 m.buffer m.clipboard 0).bind fun (buffer, clipboard, i) =>
    (store clipboard i 0).map fun clipboard =>
      { m with buffer := buffer, clipboard := clipboard }

/-- `Nano::paste_line` -/
def pasteLine (m : NanoArrays) : Option NanoArrays :=
  (CheckedArray.strlen 0 m.clipboard).bind fun len =>
    if m.cursorPos + len ≥ 4095 then some m
    else
      (CheckedArray.strlen 0 m.buffer).bind fun bufLen =>
      -- the last character is moved first
      (forRange (bufLen + 1 - m.cursorPos) (fun k buffer =>
        let j := bufLen - k
        (load buffer j).bind (store buffer (j + len))) m.buffer).bind fun buffer =>
      (forRange len (fun i buffer =>
        (load m.clipboard i).bind (store buffer (m.cursorPos + i))) buffer).map fun buffer =>
          { m with buffer := buffer, cursorPos := m.cursorPos + len }

/-- The keys that change the text. -/
def typeKey (m : NanoArrays) (c : U8) : Option NanoArrays :=
  if c = 0x08 then
    if m.cursorPos > 0 then
      (store m.buffer (m.cursorPos - 1) 0).map fun buffer =>
        { m with buffer := buffer, cursorPos := m.cursorPos - 1 }
    else some m
  else if m.cursorPos < 4095 then
    (store m.buffer m.cursorPos c).bind fun buffer =>
      (store buffer (m.cursorPos + 1) 0).map fun buffer =>
        { m with buffer := buffer, cursorPos := m.cursorPos + 1 }
  else some m

/-- `Nano::handle_input` -/
def handleInput (m : NanoArrays) (key : Key) : Option NanoArrays :=
  if !m.running then some m
  else if key.ctrl ∧ key.upper = 0x4F then m.save.bind refreshScreen
  else if key.ctrl ∧ key.upper = 0x58 then some { m with running := false }
  else if key.ctrl ∧ key.upper = 0x47 then { m with showHelp := !m.showHelp }.refreshScreen
  else if key.ctrl ∧ key.upper = 0x4B then m.cutLine.bind refreshScreen
  else if key.ctrl ∧ key.upper = 0x55 then m.pasteLine.bind refreshScreen
  else if key.ctrl ∧ (key.upper = 0x43 ∨ key.upper = 0x57) then some m
  else if m.showHelp then some m
  else if key.c = 27 then m.save.map fun m => { m with running := false }
  else (m.typeKey key.c).bind refreshScreen

/-- The cursor is at the end of the text, and the clipboard is empty. -/
structure Inv (m : NanoArrays) : Prop where
  text : CheckedArray.strlen 0 m.buffer = some m.cursorPos
  clipboard : m.clipboard 0 = 0

section

variable {m : NanoArrays}

theorem refreshScreen_eq {n : ℕ} (h : CheckedArray.strlen 0 m.buffer = some n) :
    m.refreshScreen = some m := by
  rw [refreshScreen]
  split
  · rfl
  · rw [h]
    rfl

theorem Inv.refreshScreen (h : m.Inv) : m.refreshScreen = some m := refreshScreen_eq h.text

theorem Inv.save (h : m.Inv) : m.save = some m := by
  rw [NanoArrays.save, h.text]
  exact ite_self _

theorem Inv.load_cursor (h : m.Inv) : load m.buffer m.cursorPos = some 0 := by
  obtain ⟨⟨hlt, hzero⟩, -⟩ := strlen_eq_some_iff.mp h.text
  rw [load_of_lt _ hlt, hzero]

/-- There is nothing behind the cursor to cut. -/
theorem Inv.cutLine (h : m.Inv) : m.cutLine = some m := by
  have hloop : cutLoop m.cursorPos 512 m.buffer m.clipboard 0 = some (m.buffer, m.clipboard, 0) := by
    rw [cutLoop, h.load_cursor, Option.bind_some]
    exact if_neg fun hc => hc.1 rfl
  have hstore : store m.clipboard 0 0 = some m.clipboard := by
    rw [store_of_lt _ (by decide)]
    refine congrArg some ?_
    rw [Function.update_eq_self_iff]
    exact h.clipboard.symm
  rw [NanoArrays.cutLine, hloop, Option.bind_some]
  dsimp only
  rw [hstore]
  rfl

/-- There is nothing to paste. -/
theorem Inv.pasteLine (h : m.Inv) : m.pasteLine = some m := by
  have hempty : CheckedArray.strlen 0 m.clipboard = some 0 :=
    strlen_eq_some_iff.mpr ⟨⟨by decide, h.clipboard⟩, fun j hj => absurd hj (Nat.not_lt_zero _)⟩
  obtain ⟨⟨hlt, hzero⟩, -⟩ := strlen_eq_some_iff.mp h.text
  have hstore : store m.buffer m.cursorPos 0 = some m.buffer := by
    rw [store_of_lt _ hlt]
    refine congrArg some ?_
    rw [Function.update_eq_self_iff]
    exact hzero.symm
  rw [NanoArrays.pasteLine, hempty, Option.bind_some]
  dsimp only [Nat.add_zero]
  split
  · rfl
  · rw [h.text, Option.bind_some, Nat.add_sub_cancel_left, forRange, forRange, Option.bind_some]
    rw [Nat.sub_zero, h.load_cursor, Option.bind_some, hstore, Option.bind_some, forRange]
    rfl

/-- Typing and erasing move the end of the text and the cursor together. -/
theorem Inv.typeKey (h : m.Inv) {c : U8} (hc : c ≠ 0) :
    ∃ m', m.typeKey c = some m' ∧ m'.Inv := by
  have hlt := strlen_lt h.text
  rw [NanoArrays.typeKey]
  by_cases hback : c = 0x08
  · rw [if_pos hback]
    by_cases hpos : m.cursorPos > 0
    · obtain ⟨n, hn⟩ := Nat.exists_eq_succ_of_ne_zero (Nat.ne_of_gt hpos)
      have hpred : m.cursorPos - 1 < 4096 := by omega
      rw [if_pos hpos, store_of_lt _ hpred, Option.map_some]
      refine ⟨_, rfl, ?_, h.clipboard⟩
      refine strlen_erase ?_ hpred
      rw [h.text, Nat.sub_add_cancel hpos]
    · rw [if_neg hpos]
      exact ⟨m, rfl, h⟩
  · rw [if_neg hback]
    by_cases hroom : m.cursorPos < 4095
    · have hnext : m.cursorPos + 1 < 4096 := by omega
      rw [if_pos hroom, store_of_lt _ hlt, Option.bind_some, store_of_lt _ hnext, Option.map_some]
      exact ⟨_, rfl, strlen_type h.text hc hnext, h.clipboard⟩
    · rw [if_neg hroom]
      exact ⟨m, rfl, h⟩

/-- Every key stays within the arrays and keeps the cursor at the end of the text. -/
theorem Inv.handleInput (h : m.Inv) (key : Key) :
    ∃ m', m.handleInput key = some m' ∧ m'.Inv := by
  rw [NanoArrays.handleInput]
  split
  · exact ⟨m, rfl, h⟩
  split
  · -- Ctrl-O saves
    rw [h.save]
    exact ⟨m, h.refreshScreen, h⟩
  split
  · exact ⟨_, rfl, h.text, h.clipboard⟩
  split
  · exact ⟨_, refreshScreen_eq h.text, h.text, h.clipboard⟩
  split
  · -- Ctrl-K cuts
    rw [h.cutLine]
    exact ⟨m, h.refreshScreen, h⟩
  split
  · -- Ctrl-U pastes
    rw [h.pasteLine]
    exact ⟨m, h.refreshScreen, h⟩
  split
  · exact ⟨m, rfl, h⟩
  split
  · exact ⟨m, rfl, h⟩
  split
  · -- Escape saves and leaves
    rw [h.save]
    exact ⟨_, rfl, h.text, h.clipboard⟩
  · -- any other key changes the text
    obtain ⟨m', htype, hinv⟩ := h.typeKey key.nonzero.symm
    rw [htype]
    exact ⟨m', hinv.refreshScreen, hinv⟩

theorem Inv.run (h : m.Inv) (keys : List Key) :
    ∃ m', Runs.run NanoArrays.handleInput m keys = some m' ∧ m'.Inv :=
  run_total (P := Inv) (fun _ key h _ => h.handleInput key) h
    (guarded_true NanoArrays.handleInput m keys)

end

/-! ### Opening -/

/-- What a file leaves in the cleared buffer. -/
theorem storeFrom_bytes {bytes : List U8} (h : bytes.length ≤ 4096) :
    storeFrom (fun _ : Fin 4096 => (0 : U8)) 0 bytes =
      some fun i : Fin 4096 => bufferOf bytes i := by
  rw [storeFrom_eq (by omega)]
  refine congrArg some (funext fun i => ?_)
  rw [if_pos (Nat.zero_le _), Nat.sub_zero, bufferOf, List.getD_eq_getElem?_getD]

/-- There is a zero in the buffer when the file leaves room for one or has one. -/
theorem strlen_bytes_iff {bytes : List U8} (h : bytes.length ≤ 4096) :
    (∃ n, CheckedArray.strlen 0 (fun i : Fin 4096 => bufferOf bytes i) = some n) ↔
      bytes.length < 4096 ∨ 0#8 ∈ bytes := by
  constructor
  · rintro ⟨n, hn⟩
    obtain ⟨⟨hlt, hzero⟩, -⟩ := strlen_eq_some_iff.mp hn
    by_cases hfull : bytes.length < 4096
    · exact Or.inl hfull
    · right
      have hmem : n < bytes.length := by omega
      have hget : bytes[n] = 0#8 := by
        rw [bufferOf, List.getD_eq_getElem _ _ hmem] at hzero
        exact hzero
      exact hget ▸ List.getElem_mem hmem
  · rintro (hroom | hmem)
    · exact strlen_isSome ⟨bytes.length, hroom⟩ (bufferOf_of_le (Nat.le_refl _))
    · obtain ⟨k, hk, hget⟩ := List.getElem_of_mem hmem
      refine strlen_isSome ⟨k, by omega⟩ ?_
      dsimp only
      rw [bufferOf, List.getD_eq_getElem _ _ hk, hget]
      rfl

/-- The file fits: its name fits into `current_file`, and its bytes into `buffer` with a zero
among them or behind them. -/
def Fits (fs : FileSystem) (filename : Option CString) : Prop :=
  ∀ name, filename = some name → name.fits 128 = true ∧
    ∀ node bytes, fs.findPath name = some node →
      fs.readFs node 0 (fs.node node).length = some bytes →
      bytes.length < 4096 ∨ bytes.length = 4096 ∧ 0#8 ∈ bytes

/-- Every node that a path leads to can be read. -/
theorem readFs_found {fs : FileSystem} (hfs : fs.WellFormed) {name : CString} {node : Node}
    (h : fs.findPath name = some node) :
    ∃ bytes, fs.readFs node 0 (fs.node node).length = some bytes := by
  cases node with
  | ram p =>
    have hkind : (fs.ram.nodes p).Regular ∨ (fs.ram.nodes p).Directory := by
      rcases FileSystem.valid_of_findPath h with hroot | hexists
      · obtain rfl := Node.ram.inj hroot
        exact Or.inr hfs.root.2
      · exact hfs.kind p hexists
    rcases hkind with hreg | hdir
    · rw [FileSystem.readFs_ram hreg.handlers]
      exact ⟨_, RAMFS.read_all hreg.length⟩
    · -- the handlers of a directory do not read
      refine ⟨[], ?_⟩
      unfold FileSystem.readFs
      rcases hdir.handlers with hhandlers | hhandlers
      · rw [show (fs.node (.ram p)).handlers = .ramfsDir from hhandlers]
      · rw [show (fs.node (.ram p)).handlers = .mesafsDir from hhandlers]
  | disk i =>
    have hlength := (fs.node (.disk i)).length.isLt
    rw [FileSystem.readFs_disk, read_spec _ _ _ _ (by simpa using hlength)]
    exact ⟨_, rfl⟩

theorem fits_of_runNano {fs : FileSystem} {filename : Option CString}
    {m : NanoArrays} (h : runNano fs filename = some m) : Fits fs filename := by
  rintro name rfl
  rw [runNano] at h
  dsimp only at h
  cases hname : name.fits 128 with
  | false =>
    rw [hname, Bool.not_false, if_pos rfl] at h
    exact absurd h (by simp)
  | true =>
    refine ⟨rfl, fun node bytes hnode hread => ?_⟩
    rw [hname, Bool.not_true, if_neg Bool.false_ne_true, hnode] at h
    dsimp only at h
    rw [hread, Option.bind_some] at h
    obtain ⟨buffer, hbuffer, h⟩ := Option.bind_eq_some_iff.mp h
    obtain ⟨n, hn, -⟩ := Option.bind_eq_some_iff.mp h
    -- a longer file leaves the buffer while it is read
    have hle : bytes.length ≤ 4096 := by
      by_contra hlong
      rw [storeFrom_eq_none (Nat.zero_le _) (by omega)] at hbuffer
      exact absurd hbuffer (by simp)
    rw [storeFrom_bytes hle, Option.some_inj] at hbuffer
    subst hbuffer
    rcases (strlen_bytes_iff hle).mp ⟨n, hn⟩ with hroom | hmem
    · exact Or.inl hroom
    · by_cases hroom : bytes.length < 4096
      · exact Or.inl hroom
      · exact Or.inr ⟨by omega, hmem⟩

theorem runNano_of_fits {fs : FileSystem} (hfs : fs.WellFormed) {filename : Option CString}
    (h : Fits fs filename) : ∃ m, runNano fs filename = some m ∧ m.Inv := by
  have hempty : CheckedArray.strlen 0 (fun _ : Fin 4096 => (0 : U8)) = some 0 :=
    strlen_eq_some_iff.mpr ⟨⟨by decide, rfl⟩, fun j hj => absurd hj (Nat.not_lt_zero _)⟩
  cases filename with
  | none => exact ⟨_, refreshScreen_eq hempty, hempty, rfl⟩
  | some name =>
    obtain ⟨hname, hbytes⟩ := h name rfl
    rw [runNano]
    dsimp only
    rw [hname, Bool.not_true, if_neg Bool.false_ne_true]
    cases hnode : fs.findPath name with
    | none => exact ⟨_, refreshScreen_eq hempty, hempty, rfl⟩
    | some node =>
      obtain ⟨bytes, hread⟩ := readFs_found hfs hnode
      have hfits := hbytes node bytes hnode hread
      have hle : bytes.length ≤ 4096 := by
        rcases hfits with hroom | ⟨hfull, -⟩
        · exact Nat.le_of_lt hroom
        · exact Nat.le_of_eq hfull
      obtain ⟨n, hn⟩ := (strlen_bytes_iff hle).mpr (hfits.imp_right And.right)
      dsimp only
      rw [hread, Option.bind_some, storeFrom_bytes hle, Option.bind_some, hn, Option.bind_some]
      exact ⟨_, refreshScreen_eq hn, hn, rfl⟩

end NanoArrays

/-- The file is opened and the keys are typed: no access leaves its array, and at every time the
text ends within the buffer and the cursor is at its end. -/
def EditsSafely (fs : FileSystem) (filename : Option CString) (keys : List Key) : Prop :=
  ∀ typed, typed <+: keys → ∃ m, ((NanoArrays.runNano fs filename).bind fun m =>
    run NanoArrays.handleInput m typed) = some m ∧
      CheckedArray.strlen 0 m.buffer = some m.cursorPos

/-- The editor stays within its arrays, whatever is typed, exactly when the file that is opened
leaves room for a zero in the buffer or has one. -/
theorem editsSafely_iff {fs : FileSystem} (hfs : fs.WellFormed) (filename : Option CString)
    (keys : List Key) : EditsSafely fs filename keys ↔ NanoArrays.Fits fs filename := by
  constructor
  · intro h
    obtain ⟨m, hm, -⟩ := h [] (List.nil_prefix ..)
    obtain ⟨m₀, hopen, -⟩ := Option.bind_eq_some_iff.mp hm
    exact NanoArrays.fits_of_runNano hopen
  · intro h typed _
    obtain ⟨m₀, hopen, hinv⟩ := NanoArrays.runNano_of_fits hfs h
    obtain ⟨m, hrun, hinv'⟩ := hinv.run typed
    exact ⟨m, by rw [hopen, Option.bind_some, hrun], hinv'.text⟩

/-! ### A full file -/

/-- Letters that fill a file of the RAM file system. -/
def letters : List U8 := List.replicate 4096 0x61

theorem not_fits_of_letters {fs : FileSystem} {name : CString} {n : Node}
    (hn : fs.findPath name = some n) (hcontent : fs.content n = some letters) :
    ¬NanoArrays.Fits fs (some name) := by
  intro h
  have hread : fs.readFs n 0 (fs.node n).length = some letters := by
    rw [← hcontent, FileSystem.content, if_pos (FileSystem.isFile_of_content hcontent)]
  have hlength : letters.length = 4096 := List.length_replicate
  rcases (h name rfl).2 n letters hn hread with hroom | ⟨-, hzero⟩
  · omega
  · exact absurd (List.eq_of_mem_replicate hzero) (by decide)

/-- `/readme.txt` is filled with letters, and then it is opened: no zero is left in the
buffer. -/
theorem letters_not_editsSafely :
    ∃ fs n fs' m, FileSystem.boot freshMemory (fun _ _ => 0) = some fs ∧
      fs.findPath FileSystem.readmePath = some n ∧
      fs.writeFs n 0 (BitVec.ofNat 32 letters.length) (bufferOf letters) (fun _ => 0) =
        some (fs', m) ∧ ¬EditsSafely fs' (some FileSystem.readmePath) [] := by
  have hval : (FileSystem.boot freshMemory fun _ _ => 0).map (fun fs =>
      decide (fs.findPath FileSystem.readmePath = some (.ram 1) ∧
        fs.content (.ram 1) = some FileSystem.welcome.bytes)) = some true := by
    decide +kernel
  obtain ⟨fs, hboot, hfs⟩ := Option.map_eq_some_iff.mp hval
  obtain ⟨hn, hold⟩ := of_decide_eq_true hfs
  have hwf := FileSystem.wellFormed_boot hboot
  have hvalid := FileSystem.valid_of_findPath hn
  have hlength : letters.length = 4096 := List.length_replicate
  obtain ⟨fs', m, hwrite, hcontent⟩ :=
    FileSystem.content_writeFs_start hwf hvalid hold (Nat.le_of_eq hlength) fun _ => 0
  have hshort : FileSystem.welcome.bytes.drop letters.length = [] := by
    rw [hlength]
    decide
  rw [hshort, List.append_nil] at hcontent
  obtain ⟨hwf', hpaths⟩ := FileSystem.samePaths_writeFs hwf hvalid hwrite
  refine ⟨fs, .ram 1, fs', m, hboot, hn, hwrite, fun h => ?_⟩
  obtain ⟨u, hu, -⟩ := h [] (List.nil_prefix ..)
  obtain ⟨u₀, hopen, -⟩ := Option.bind_eq_some_iff.mp hu
  exact not_fits_of_letters ((hpaths.findPath _).trans hn) hcontent (NanoArrays.fits_of_runNano hopen)

/-- Without a file there is room. -/
theorem editsSafely_new :
    ∃ fs, FileSystem.boot freshMemory (fun _ _ => 0) = some fs ∧
      EditsSafely fs none [typed 0x68 (by decide)] := by
  obtain ⟨fs, hboot⟩ := FileSystem.exists_boot
  exact ⟨fs, hboot, (editsSafely_iff (FileSystem.wellFormed_boot hboot) none _).mpr
    fun name hname => absurd hname (by simp)⟩

/-! ### The editor of the earlier model -/

namespace Nano

/-- The arrays of an editor. -/
def toArrays (m : Nano) : NanoArrays where
  buffer := fun i => m.buffer i
  clipboard := fun i => m.clipboard.getD i 0
  currentFile := m.currentFile
  cursorPos := m.cursorPos
  running := m.running
  showHelp := m.showHelp

variable {m m' : Nano} {text : List U8}

theorem Holds.inv (h : m.Holds text) : m.toArrays.Inv := by
  have hcursor : m.cursorPos < 4096 := h.cursor ▸ h.length
  refine ⟨strlen_eq_some_iff.mpr ⟨⟨hcursor, ?_⟩, fun j hj => ?_⟩, ?_⟩
  · change m.buffer m.cursorPos = 0
    rw [h.buffer, h.cursor]
    exact bufferOf_of_le (Nat.le_refl _)
  · change m.buffer j ≠ 0
    rw [h.buffer]
    exact bufferOf_ne_zero h.noNul (h.cursor ▸ hj)
  · change m.clipboard.getD 0 0 = 0
    rw [h.clipboard]
    rfl

theorem toArrays_save {created written : ℕ → U8} (h : m.save created written = some m') :
    m'.toArrays = m.toArrays := by
  rw [save] at h
  split at h
  · exact Option.some_inj.mp h ▸ rfl
  · obtain ⟨⟨fs, node⟩, -, h⟩ := Option.bind_eq_some_iff.mp h
    cases node with
    | none => exact Option.some_inj.mp h ▸ rfl
    | some node =>
      obtain ⟨size, -, h⟩ := Option.bind_eq_some_iff.mp h
      obtain ⟨r, -, h⟩ := Option.map_eq_some_iff.mp h
      exact h ▸ rfl

theorem store_buffer {i : ℕ} (hi : i < 4096) (buffer : ℕ → U8) (c : U8) :
    store (fun k : Fin 4096 => buffer k) i c =
      some fun k : Fin 4096 => Function.update buffer i c k := by
  rw [store_of_lt _ hi]
  refine congrArg some (funext fun k => ?_)
  by_cases hk : k = ⟨i, hi⟩
  · rw [hk, Function.update_self, Function.update_self]
  · have hne : (k : ℕ) ≠ i := fun heq => hk (Fin.ext heq)
    rw [Function.update_of_ne hk, Function.update_of_ne hne]

theorem typeKey_toArrays (h : m.Holds text) {key : Key}
    (hstep : (if key.c = 0x08 then
        if 0 < m.cursorPos then
          some { m with
            buffer := Function.update m.buffer (m.cursorPos - 1) 0
            cursorPos := m.cursorPos - 1 }
        else some m
      else if m.cursorPos < 4095 then
        some { m with
          buffer := Function.update (Function.update m.buffer m.cursorPos key.c)
            (m.cursorPos + 1) 0
          cursorPos := m.cursorPos + 1 }
      else some m) = some m') : m.toArrays.typeKey key.c = some m'.toArrays := by
  have hlt := strlen_lt h.inv.text
  have hcursor : m.toArrays.cursorPos = m.cursorPos := rfl
  rw [hcursor] at hlt
  rw [NanoArrays.typeKey, hcursor]
  by_cases hback : key.c = 0x08
  · rw [if_pos hback] at hstep ⊢
    by_cases hpos : 0 < m.cursorPos
    · rw [if_pos hpos, Option.some_inj] at hstep
      subst hstep
      rw [if_pos hpos, toArrays, store_buffer (by omega)]
      rfl
    · rw [if_neg hpos, Option.some_inj] at hstep
      rw [if_neg hpos, hstep]
  · rw [if_neg hback] at hstep ⊢
    by_cases hroom : m.cursorPos < 4095
    · rw [if_pos hroom, Option.some_inj] at hstep
      subst hstep
      rw [if_pos hroom, toArrays, store_buffer hlt, Option.bind_some, store_buffer (by omega)]
      rfl
    · rw [if_neg hroom, Option.some_inj] at hstep
      rw [if_neg hroom, hstep]

/-- What a key does to the editor, it does to its arrays. -/
theorem handleInput_toArrays (h : m.Holds text) {key : Key}
    (hstep : m.handleInput key = some m') :
    m.toArrays.handleInput key = some m'.toArrays := by
  have hinv := h.inv
  have hrunning : m.toArrays.running = m.running := rfl
  have hhelp : m.toArrays.showHelp = m.showHelp := rfl
  rw [handleInput] at hstep
  rw [NanoArrays.handleInput, hrunning, hhelp]
  by_cases hoff : (!m.running) = true
  · rw [if_pos hoff] at hstep ⊢
    rw [Option.some_inj.mp hstep]
  rw [if_neg hoff] at hstep ⊢
  by_cases hsave : key.ctrl ∧ key.upper = 0x4F
  · rw [if_pos hsave] at hstep ⊢
    rw [hinv.save, toArrays_save hstep]
    exact hinv.refreshScreen
  rw [if_neg hsave] at hstep ⊢
  by_cases hexit : key.ctrl ∧ key.upper = 0x58
  · rw [if_pos hexit] at hstep ⊢
    rw [← Option.some_inj.mp hstep]
    rfl
  rw [if_neg hexit] at hstep ⊢
  by_cases hswitch : key.ctrl ∧ key.upper = 0x47
  · rw [if_pos hswitch] at hstep ⊢
    rw [← Option.some_inj.mp hstep]
    exact NanoArrays.refreshScreen_eq hinv.text
  rw [if_neg hswitch] at hstep ⊢
  by_cases hcut : key.ctrl ∧ key.upper = 0x4B
  · rw [if_pos hcut] at hstep ⊢
    rw [cutLine_eq h, Option.some_inj] at hstep
    rw [hinv.cutLine, ← hstep]
    exact hinv.refreshScreen
  rw [if_neg hcut] at hstep ⊢
  by_cases hpaste : key.ctrl ∧ key.upper = 0x55
  · rw [if_pos hpaste] at hstep ⊢
    rw [pasteLine_eq h, Option.some_inj] at hstep
    rw [hinv.pasteLine, ← hstep]
    exact hinv.refreshScreen
  rw [if_neg hpaste] at hstep ⊢
  by_cases hshow : key.ctrl ∧ (key.upper = 0x43 ∨ key.upper = 0x57)
  · rw [if_pos hshow] at hstep ⊢
    rw [Option.some_inj.mp hstep]
  rw [if_neg hshow] at hstep ⊢
  by_cases hopen : m.showHelp = true
  · rw [if_pos hopen] at hstep ⊢
    rw [Option.some_inj.mp hstep]
  rw [if_neg hopen] at hstep ⊢
  by_cases hescape : key.c = 27
  · rw [if_pos hescape] at hstep ⊢
    obtain ⟨u, hu, rfl⟩ := Option.map_eq_some_iff.mp hstep
    rw [hinv.save, Option.map_some, ← toArrays_save hu]
    rfl
  · rw [if_neg hescape] at hstep ⊢
    have htype := typeKey_toArrays h hstep
    obtain ⟨u, hu, hinv'⟩ := hinv.typeKey key.nonzero.symm
    obtain rfl := Option.some_inj.mp (hu.symm.trans htype)
    rw [htype]
    exact hinv'.refreshScreen

end Nano

end MesaOS.Apps
