/-
The command line of the shell (`handle_input` and `execute_command` in `kernel/shell.cpp`).

Keys edit a line, Enter executes it, Tab completes its last word with a name from the current
directory, and the arrow goes back in the history.  The arrays of the class carry the length of
what they hold, and every copy into a smaller one says which array it would overflow.

What a command prints on the screen or into a pipe changes nothing here; what it prints into a
file does.  The texts are given with the command, as are the stacks that `save_metadata` finds:
nothing below depends on them.

* `pipeSides_lt` — the commands of a pipe are shorter than the pipe;
* `exists_listing` — every directory can be listed.
-/
import Mathlib.Data.List.DropRight
import MesaOS.BoundedCopy
import MesaOS.CreateCommands
import MesaOS.Nano
import MesaOS.Removal

open MachineWord Runs BoundedCopy MesaOS.FS MesaOS.Apps

namespace MesaOS.FS

/-- `readdir_fs` -/
def FileSystem.readdirFs (s : FileSystem) (node : Node) (index : ℕ) : Option Dirent :=
  if s.ShowsRam node then s.ram.readdir index
  else if s.ShowsDisk node then s.disk.readdir index
  else none

/-- The entries that `readdir_fs` goes through. -/
def FileSystem.listing (s : FileSystem) (node : Node) : Option (List Dirent) :=
  enumerate (s.readdirFs node) (s.ram.fileCount + maxEntries + 1) 0

/-- A loop over entries of which those from `n` on are missing comes to its end. -/
theorem exists_enumerate {readdir : ℕ → Option Dirent} {n : ℕ}
    (hnone : ∀ i, n ≤ i → readdir i = none) (fuel : ℕ) {i : ℕ} (hi : i ≤ n)
    (hfuel : n < i + fuel) : ∃ entries, enumerate readdir fuel i = some entries := by
  induction fuel generalizing i with
  | zero => omega
  | succ fuel ih =>
    rw [enumerate]
    cases hentry : readdir i with
    | none => exact ⟨[], rfl⟩
    | some de =>
      have hlt : i < n := by
        by_contra hge
        rw [hnone i (by omega)] at hentry
        cases hentry
      obtain ⟨entries, hrest⟩ := ih hlt (by omega)
      exact ⟨de :: entries, by rw [hrest]; rfl⟩

/-- Every directory can be listed. -/
theorem FileSystem.exists_listing (s : FileSystem) (node : Node) :
    ∃ entries, s.listing node = some entries := by
  refine exists_enumerate (n := s.ram.fileCount + maxEntries) (fun i hi => ?_) _
    (Nat.zero_le _) (by omega)
  have hram : s.ram.readdir i = none := if_pos (by omega)
  have hdisk : s.disk.readdir i = none := if_pos (by omega)
  rw [readdirFs, hram, hdisk, ite_self, ite_self]

end MesaOS.FS

namespace MesaOS.System

/-! ### The arrays -/

/-- The arrays that strings of another length are copied to. -/
inductive Destination
  | redirFile | fullPath | cmd | arg | currentPath | currentUser | fullArg | partialWord
  | matchName | full
  deriving DecidableEq

def textLength (text : CString) : ℕ := text.bytes.length

/-- What an array of `n` characters holds. -/
abbrev Text (n : ℕ) := {text : CString // textLength text < n}

/-- What a call of the shell comes to. -/
abbrev Call (α : Type) := Except (Stop Destination) α

/-- `strcpy` -/
def copy (array : Destination) (n : ℕ) (text : CString) : Call (Text n) :=
  copyTo textLength array n text

/-! ### The words of a line -/

def cdName : CString := ⟨chars "cd", by decide⟩

def suName : CString := ⟨chars "su", by decide⟩

def mkdirName : CString := ⟨chars "mkdir", by decide⟩

def runName : CString := ⟨chars "run", by decide⟩

def lsName : CString := ⟨chars "ls", by decide⟩

def touchName : CString := ⟨chars "touch", by decide⟩

def catName : CString := ⟨chars "cat", by decide⟩

def rmName : CString := ⟨chars "rm", by decide⟩

def nanoName : CString := ⟨chars "nano", by decide⟩

def rebootName : CString := ⟨chars "reboot", by decide⟩

def rootName : CString := ⟨chars "root", by decide⟩

def rootPath : CString := ⟨chars "/", by decide⟩

def dotDot : CString := ⟨chars "..", by decide⟩

/-- What is copied to `cmd` and to `arg`. -/
def cmdAndArg (command : CString) : CString × CString :=
  match strchr command blank with
  | some n => (take command n, command.drop (n + 1))
  | none => (command, .empty)

/-- The word that is being typed. -/
def lastWord (line : CString) : CString :=
  ⟨line.bytes.rtakeWhile (· ≠ blank), fun h => line.noNul (List.rtakeWhile_suffix _ _ |>.subset h)⟩

theorem textLength_take_le (s : CString) (n : ℕ) : textLength (take s n) ≤ textLength s :=
  List.length_take_le' ..

theorem textLength_skipBlanks_drop_le (s : CString) (n : ℕ) :
    textLength (skipBlanks (s.drop n)) ≤ textLength s :=
  (List.dropWhile_sublist _).length_le.trans (List.drop_sublist n s.bytes).length_le

/-- What is executed on the two sides of the first `|`. -/
def pipeSides (commandIn : Text 256) : Option (Text 256 × Text 256) :=
  (strchr commandIn.1 bar).map fun n =>
    (⟨take commandIn.1 n, (textLength_take_le ..).trans_lt commandIn.2⟩,
      ⟨skipBlanks (commandIn.1.drop (n + 1)),
        (textLength_skipBlanks_drop_le ..).trans_lt commandIn.2⟩)

/-- The commands of a pipe are shorter than the pipe. -/
theorem pipeSides_lt {commandIn leftCmd rightCmd : Text 256}
    (h : pipeSides commandIn = some (leftCmd, rightCmd)) :
    textLength leftCmd.1 < textLength commandIn.1 ∧
      textLength rightCmd.1 < textLength commandIn.1 := by
  obtain ⟨n, hn, hsides⟩ := Option.map_eq_some_iff.mp h
  cases hsides
  have hlt : n < commandIn.1.bytes.length := (List.findIdx?_eq_some_iff_findIdx_eq.mp hn).1
  have hright : textLength (skipBlanks (commandIn.1.drop (n + 1))) ≤
      (commandIn.1.bytes.drop (n + 1)).length := (List.dropWhile_sublist _).length_le
  rw [List.length_drop] at hright
  constructor
  · change (commandIn.1.bytes.take n).length < commandIn.1.bytes.length
    rw [List.length_take]
    omega
  · change textLength (skipBlanks (commandIn.1.drop (n + 1))) < commandIn.1.bytes.length
    omega

/-! ### The shell -/

/-- The static members of the class and the history; those of the editor hold the file systems.
`commandBuffer` is the line before `buffer_index`. -/
structure Console where
  currentUser : Text 32
  isAdmin : Bool
  currentPath : Text 128
  redirOut : Bool
  redirFile : Text 128
  pipeActive : Bool
  appRunning : Bool
  nano : Nano
  commandBuffer : Text 256
  history : ℕ → Text 256
  historyCount : ℕ
  historyCursor : ℕ

/-- What a command prints, and what `save_metadata` finds on the stack when it creates. -/
structure Given where
  prints : List Print
  created : ℕ → U8

/-- Nothing is printed. -/
def nothingGiven : Given := ⟨[], fun _ => 0⟩

def emptyText : Text 256 := ⟨.empty, by decide⟩

namespace Console

/-- The static members as they are initialised. -/
def start (fs : FileSystem) : Console where
  currentUser := ⟨⟨chars "mesa", by decide⟩, by decide⟩
  isAdmin := false
  currentPath := ⟨rootPath, by decide⟩
  redirOut := false
  redirFile := ⟨.empty, by decide⟩
  pipeActive := false
  appRunning := false
  nano :=
    { buffer := fun _ => 0, clipboard := [], currentFile := .empty, cursorPos := 0
      running := false, showHelp := false, fs := fs }
  commandBuffer := emptyText
  history := fun _ => emptyText
  historyCount := 0
  historyCursor := 0

def fs (s : Console) : FileSystem := s.nano.fs

def setFs (s : Console) (fs : FileSystem) : Console := { s with nano := { s.nano with fs := fs } }

/-- `full_path` from the current path and a name. -/
def copyPath (s : Console) (array : Destination) (file : CString) : Call (Text 256) :=
  copy array 256 (FS.fullPath s.currentPath.1 file)

/-- `Shell::kprint`, as far as it changes files. -/
def kprint (s : Console) (t : Print) : Call Console :=
  if s.pipeActive then .ok s
  else if s.redirOut then
    (s.copyPath .fullPath s.redirFile.1).bind fun _ =>
      (result (s.fs.kprint s.currentPath.1 s.redirFile.1 t)).map s.setFs
  else .ok s

/-- The redirection of `execute_command`. -/
def redirect (s : Console) : Option (Bool × CString) → Call Console
  | none => .ok s
  | some (appendMode, file) =>
    if file.bytes = [] then .ok s
    else
      (copy .redirFile 128 file).bind fun file =>
        let s := { s with redirOut := true, redirFile := file }
        if appendMode then .ok s
        else
          (s.copyPath .fullPath file.1).bind fun _ =>
            (result (s.fs.truncate s.currentPath.1 file.1)).map s.setFs

/-! ### The commands -/

/-- The branch of `cd`. -/
def cd (s : Console) (arg : CString) : Call Console :=
  if arg ∈ [.empty, rootPath, dotDot] then
    .ok { s with currentPath := ⟨rootPath, by decide⟩ }
  else
    (s.copyPath .fullPath arg).bind fun path =>
      match s.fs.findPath path.1 with
      | some node =>
        if s.fs.isDirectory node then
          (copy .currentPath 128 path.1).map fun path => { s with currentPath := path }
        else .ok s
      | none => .ok s

/-- The branch of `su`. -/
def su (s : Console) (arg : CString) : Call Console :=
  if textLength arg > 0 then
    (copy .currentUser 32 arg).map fun user =>
      { s with currentUser := user, isAdmin := decide (arg = rootName) }
  else .ok s

/-- The branches of `mkdir` and `touch`. -/
def create (s : Console) (arg : CString)
    (branch : FileSystem → CString → CString → (ℕ → U8) → Option (FileSystem × CString))
    (created : ℕ → U8) : Call Console :=
  if textLength arg > 0 then
    (s.copyPath .fullPath arg).bind fun _ =>
      (result (branch s.fs s.currentPath.1 arg created)).map fun (fs, _) => s.setFs fs
  else .ok s

/-- The branch of `run`. -/
def runApp (s : Console) (arg : CString) : Call Console :=
  if arg = nanoName then
    (result (runNano s.fs none)).map fun nano => { s with appRunning := true, nano := nano }
  else .ok s

/-- The branch of `ls`; it reads only. -/
def ls (s : Console) (arg : CString) : Call Console :=
  (if textLength arg = 0 then copy .fullPath 256 s.currentPath.1
    else s.copyPath .fullPath arg).map fun _ => s

/-- The branch of `cat`; it reads only. -/
def cat (s : Console) (arg : CString) : Call Console :=
  if textLength arg > 0 then (s.copyPath .fullPath arg).map fun _ => s else .ok s

/-- The branch of `nano`. -/
def openNano (s : Console) (arg : CString) : Call Console :=
  (s.copyPath .fullArg arg).bind fun path =>
    (result (runNano s.fs (if textLength arg > 0 then some path.1 else none))).map fun nano =>
      { s with appRunning := true, nano := nano }

/-- What the commands do but print.  `top` executes `ps`; `reboot` resets the machine. -/
def branch (s : Console) (command cmd arg : CString) (created : ℕ → U8) : Call Console :=
  if cmd = cdName then s.cd arg
  else if cmd = suName then s.su arg
  else if cmd = mkdirName then s.create arg FileSystem.mkdir created
  else if cmd = runName then s.runApp arg
  else if cmd = lsName then s.ls arg
  else if cmd = touchName then s.create arg FileSystem.touch created
  else if cmd = catName then s.cat arg
  else if cmd = rmName then .ok (s.setFs (s.fs.rm arg).1)
  else if cmd = nanoName then s.openNano arg
  else if command = rebootName then .error .stuck
  else .ok s

/-- The part of `execute_command` behind the pipe. -/
def executeSimple (s : Console) (commandIn : CString) (given : Given) : Call Console :=
  let (command, file) := Shell.redirection commandIn
  (s.redirect file).bind fun s =>
    let (cmd, arg) := cmdAndArg command
    (copy .cmd 128 cmd).bind fun cmd =>
      (copy .arg 128 arg).bind fun arg =>
        (s.branch command cmd.1 arg.1 given.created).bind fun s =>
          (runCalls kprint s given.prints).map fun s => { s with redirOut := false }

/-- `Shell::execute_command`; the commands of a pipe are given their texts one after the
other. -/
def execute (s : Console) (commandIn : Text 256) (given : ℕ → Given) : Call Console :=
  match h : pipeSides commandIn with
  | some (leftCmd, rightCmd) =>
    (execute { s with pipeActive := true } leftCmd given).bind fun s =>
      execute { s with pipeActive := false } rightCmd fun i => given (i + 1)
  | none => s.executeSimple commandIn.1 (given 0)
  termination_by textLength commandIn.1
  decreasing_by
    · exact (pipeSides_lt h).1
    · exact (pipeSides_lt h).2

theorem execute_none {s : Console} {commandIn : Text 256} (h : pipeSides commandIn = none)
    (given : ℕ → Given) : s.execute commandIn given = s.executeSimple commandIn.1 (given 0) := by
  rw [execute]
  split
  · next hsides =>
    rw [h] at hsides
    cases hsides
  · rfl

theorem execute_some {s : Console} {commandIn leftCmd rightCmd : Text 256}
    (h : pipeSides commandIn = some (leftCmd, rightCmd)) (given : ℕ → Given) :
    s.execute commandIn given =
      (execute { s with pipeActive := true } leftCmd given).bind fun s =>
        execute { s with pipeActive := false } rightCmd fun i => given (i + 1) := by
  rw [execute]
  split
  · next hsides =>
    rw [h] at hsides
    cases hsides
    rfl
  · next hsides =>
    rw [h] at hsides
    cases hsides

/-! ### The keys -/

/-- Characters are added to the line as long as there is room. -/
def extend (line : Text 256) (rest : CString) : Text 256 :=
  ⟨line.1.append (take rest (255 - textLength line.1)), by
    have hline := line.2
    have hrest : (rest.bytes.take (255 - textLength line.1)).length ≤ 255 - textLength line.1 :=
      List.length_take_le ..
    have hlength : textLength (line.1.append (take rest (255 - textLength line.1))) =
        textLength line.1 + (rest.bytes.take (255 - textLength line.1)).length :=
      List.length_append
    omega⟩

/-- The arrow: what is shown, and one entry further back. -/
def upArrow (s : Console) : Console :=
  if 0 < s.historyCount then
    let shown :=
      if 0 < s.historyCursor then s.historyCursor - 1
      else if s.historyCount < 10 then s.historyCount - 1 else 9
    { s with commandBuffer := s.history shown, historyCursor := shown - 1 }
  else s

/-- The loop over the directory: how many names match, and the last one. -/
def matchLoop (word : CString) : List Dirent → ℕ × Text 64 → Call (ℕ × Text 64)
  | [], found => .ok found
  | de :: entries, (count, name) =>
    if word.bytes.isPrefixOf de.name.bytes then
      (copy .matchName 64 de.name).bind fun name => matchLoop word entries (count + 1, name)
    else matchLoop word entries (count, name)

/-- The path of an entry of the current directory. -/
def childPath (cwd name : CString) : CString :=
  if textLength cwd ≤ 1 then rootPath.append name else (cwd.append rootPath).append name

/-- The word is completed, with a slash behind a directory. -/
def complete (s : Console) (word : CString) (name : Text 64) : Call Console :=
  let s := { s with commandBuffer := extend s.commandBuffer (name.1.drop (textLength word)) }
  (copy .full 256 (childPath s.currentPath.1 name.1)).map fun full =>
    match s.fs.findPath full.1 with
    | some child =>
      if s.fs.isDirectory child then { s with commandBuffer := extend s.commandBuffer rootPath }
      else s
    | none => s

/-- Tab. -/
def autocomplete (s : Console) : Call Console :=
  let word := lastWord s.commandBuffer.1
  if textLength word = 0 ∨ 64 ≤ textLength word then .ok s
  else
    (copy .partialWord 64 word).bind fun word =>
      match s.fs.findPath s.currentPath.1 with
      | none => .ok s
      | some dir =>
        (result (s.fs.listing dir)).bind fun entries =>
          (matchLoop word.1 entries (0, ⟨.empty, by decide⟩)).bind fun (count, name) =>
            if count = 1 then s.complete word.1 name else .ok s

/-- The line is added to the history, which keeps ten. -/
def remember (s : Console) : Console :=
  if s.commandBuffer.1.bytes = [] then s
  else
    let s :=
      if s.historyCount < 10 then
        { s with
          history := Function.update s.history s.historyCount s.commandBuffer
          historyCount := s.historyCount + 1 }
      else
        { s with
          history := fun i =>
            if i < 9 then s.history (i + 1) else if i = 9 then s.commandBuffer else s.history i }
    { s with historyCursor := s.historyCount - 1 }

/-- Enter. -/
def enter (s : Console) (given : ℕ → Given) : Call Console :=
  (s.remember.execute s.commandBuffer given).map fun s => { s with commandBuffer := emptyText }

/-- Keys that are typed into the line. -/
def edit (s : Console) (key : Key) : Console :=
  if key.c = 0x08 then
    { s with commandBuffer := ⟨take s.commandBuffer.1 (textLength s.commandBuffer.1 - 1),
      (textLength_take_le ..).trans_lt s.commandBuffer.2⟩ }
  else { s with commandBuffer := extend s.commandBuffer (.ofChar key.c key.nonzero) }

/-- `history_cursor` is reset by any key but the arrows. -/
def resetCursor (s : Console) (key : Key) : Console :=
  if key.c = 0x12 then s else { s with historyCursor := s.historyCount - 1 }

/-- `Shell::handle_input` -/
def handleInput (s : Console) (key : Key) (given : ℕ → Given) : Call Console :=
  if s.appRunning then
    (result (s.nano.handleInput key)).map fun nano =>
      { s with nano := nano, appRunning := nano.running }
  else if key.ctrl ∧ (key.c = 0x6C ∨ key.c = 0x4C) then .ok s
  else if key.c = 0x11 then .ok s.upArrow
  else
    let s := s.resetCursor key
    if key.c = 0x09 then s.autocomplete
    else if key.c = newline then s.enter given
    else .ok (s.edit key)

theorem resetCursor_of_ne {s : Console} {key : Key} (hkey : key.c ≠ 0x12) :
    s.resetCursor key = { s with historyCursor := s.historyCount - 1 } := if_neg hkey

theorem handleInput_tab {s : Console} (happ : ¬s.appRunning = true) {key : Key}
    (hkey : key.c = 0x09) (given : ℕ → Given) :
    s.handleInput key given = (s.resetCursor key).autocomplete := by
  have hctrl : ¬(key.ctrl ∧ (key.c = 0x6C ∨ key.c = 0x4C)) := by
    rw [hkey]
    exact fun h => absurd h.2 (by decide)
  rw [handleInput, if_neg happ, if_neg hctrl, if_neg (by rw [hkey]; decide)]
  exact if_pos hkey

theorem handleInput_newline {s : Console} (happ : ¬s.appRunning = true) {key : Key}
    (hkey : key.c = newline) (given : ℕ → Given) :
    s.handleInput key given = (s.resetCursor key).enter given := by
  have hctrl : ¬(key.ctrl ∧ (key.c = 0x6C ∨ key.c = 0x4C)) := by
    rw [hkey]
    exact fun h => absurd h.2 (by decide)
  rw [handleInput, if_neg happ, if_neg hctrl, if_neg (by rw [hkey]; decide)]
  dsimp only
  rw [if_neg (by rw [hkey]; decide), if_pos hkey]

end Console

/-- What reaches the shell: a key, or a command line from elsewhere. -/
inductive Event
  | input (key : Key) (given : ℕ → Given)
  | execute (command : Text 256) (given : ℕ → Given)

def Console.step (s : Console) : Event → Call Console
  | .input key given => s.handleInput key given
  | .execute command given => s.execute command given

end MesaOS.System
