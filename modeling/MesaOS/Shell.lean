/-
The shell (`System::Shell` in `shell.cpp`).

What a command writes with `kprint` goes into the buffer of a pipe, into a file or to the
screen, and three flags say where.  A command is a `Script`: what it writes next depends on
the state that its last text has left, as a file may be what it reads.

Among the commands `grep` is the one that looks at the pipe; the others, and what `>` does to
the files, are `Commands`.  There is no result when a copy leaves its array.
-/
import Mathlib.Data.List.TakeWhile
import MesaOS.Runs
import MesaOS.VFS

open MachineWord Runs MesaOS.FS

namespace MesaOS.System

/-! ### Strings -/

/-- A text of the source. -/
def chars (s : String) : List U8 := s.toList.map fun c => BitVec.ofNat 8 c.toNat

def blank : U8 := 0x20

def newline : U8 := 0x0A

/-- The character `'|'`. -/
def bar : U8 := 0x7C

/-- The character `'>'`. -/
def greater : U8 := 0x3E

/-- The string up to character `n`, when a zero is stored there. -/
def take (s : CString) (n : ℕ) : CString :=
  ⟨s.bytes.take n, fun h => s.noNul (List.mem_of_mem_take h)⟩

/-- The loop that skips blanks. -/
def skipBlanks (s : CString) : CString :=
  ⟨s.bytes.dropWhile (· = blank), fun h => s.noNul (List.dropWhile_sublist _ |>.subset h)⟩

/-- `strchr`: the position of the character. -/
def strchr (s : CString) (c : U8) : Option ℕ := s.bytes.findIdx? (· = c)

/-- `k_strstr`: the position of the first match. -/
def kStrstr (haystack needle : List U8) : Option ℕ :=
  if needle = [] then some 0
  else
    match haystack with
    | [] => none
    | c :: rest => if needle.isPrefixOf (c :: rest) then some 0 else (kStrstr rest needle).map (· + 1)

/-! ### Commands -/

/-- A command that runs: it writes with `kprint` or with the VGA driver, or a copy leaves its
array. -/
inductive Script (σ : Type)
  | done (s : σ)
  | fault
  | kprint (text : CString) (s : σ) (next : σ → Script σ)
  | vga (text : CString) (s : σ) (next : σ → Script σ)

/-- Texts that are written one after the other. -/
def Script.kprintAll {σ : Type} : List CString → σ → Script σ
  | [], s => .done s
  | text :: texts, s => .kprint text s (kprintAll texts)

/-- The branches of `execute_command` but that of `grep`, and what `execute_command` and `kprint`
do to the file behind `>`. -/
structure Commands (σ : Type) where
  run (command cmd arg : CString) : σ → Script σ
  truncate (file : CString) : σ → Option σ
  kprintFile (file text : CString) : σ → Option σ

/-- The static members that output depends on; `screen` is what the VGA driver has written. -/
structure Shell (σ : Type) where
  redirOut : Bool
  redirFile : CString
  pipeActive : Bool
  pipeBuffer : ℕ → U8
  pipeCursor : ℕ
  pipeInputAvailable : Bool
  screen : List U8
  world : σ

/-- `strcpy` to index `start` of an array. -/
def strcpy (buffer : ℕ → U8) (start : ℕ) (text : CString) : ℕ → U8 := fun i =>
  if start ≤ i ∧ i ≤ start + text.bytes.length then bufferOf text.bytes (i - start) else buffer i

/-- The string at an index of `pipe_buffer[4096]`. -/
def stringAt (buffer : ℕ → U8) (start : ℕ) : CString :=
  ⟨((List.range (4096 - start)).map fun i => buffer (start + i)).takeWhile (· ≠ 0), fun h => by
    simpa using List.mem_takeWhile_imp h⟩

variable {σ : Type}

namespace Shell

/-- `Shell::kprint` -/
def kprint (commands : Commands σ) (sh : Shell σ) (text : CString) : Option (Shell σ) :=
  if sh.pipeActive then
    let len := text.bytes.length
    if sh.pipeCursor + len < 4095 then
      some { sh with
        pipeBuffer := Function.update (strcpy sh.pipeBuffer sh.pipeCursor text)
          (sh.pipeCursor + len) 0
        pipeCursor := sh.pipeCursor + len }
    else some sh
  else if sh.redirOut then
    (commands.kprintFile sh.redirFile text sh.world).map fun world => { sh with world := world }
  else some { sh with screen := sh.screen ++ text.bytes }

/-- A command writes. -/
def runScript (commands : Commands σ) : Script σ → Shell σ → Option (Shell σ)
  | .done s, sh => some { sh with world := s }
  | .fault, _ => none
  | .kprint text s next, sh =>
    (kprint commands { sh with world := s } text).bind fun sh =>
      runScript commands (next sh.world) sh
  | .vga text s next, sh =>
    runScript commands (next s) { sh with world := s, screen := sh.screen ++ text.bytes }

/-- `kprint(line); kprint("\n")` -/
def kprintLine (commands : Commands σ) (sh : Shell σ) (line : CString) : Option (Shell σ) :=
  (sh.kprint commands line).bind fun sh => sh.kprint commands (.ofChar newline (by decide))

/-- The local variables of the loop in `grep`. -/
structure GrepLoop (σ : Type) where
  shell : Shell σ
  p : ℕ
  lineStart : ℕ

/-- `if (k_strstr(line_start, arg))`, and what follows. -/
def grepLine (commands : Commands σ) (arg : CString) (sh : Shell σ) (lineStart : ℕ) :
    Option (Shell σ) :=
  let line := stringAt sh.pipeBuffer lineStart
  if (kStrstr line.bytes arg.bytes).isSome then sh.kprintLine commands line else some sh

def GrepLoop.body (commands : Commands σ) (arg : CString) (v : GrepLoop σ) :
    Option (GrepLoop σ) :=
  let sh := v.shell
  if sh.pipeBuffer v.p = newline then
    (grepLine commands arg { sh with pipeBuffer := Function.update sh.pipeBuffer v.p 0 }
      v.lineStart).map fun sh =>
        { shell := { sh with pipeBuffer := Function.update sh.pipeBuffer v.p newline }
          p := v.p + 1, lineStart := v.p + 1 }
  else some { v with p := v.p + 1 }

def grepName : CString := ⟨chars "grep", by decide⟩

def grepUsage : CString := ⟨chars "Usage: grep <pattern>\n", by decide⟩

def grepPipeUsage : CString :=
  ⟨chars "grep: Usage: <command> | grep <pattern> (File grep not impl)\n", by decide⟩

/-- The branch of `grep`. -/
def grep (commands : Commands σ) (sh : Shell σ) (arg : CString) : Option (Shell σ) :=
  if arg.bytes.length > 0 then
    if sh.pipeInputAvailable then
      (whileLoop (fun v => v.shell.pipeBuffer v.p != 0) (GrepLoop.body commands arg) 4097
        { shell := sh, p := 0, lineStart := 0 }).bind fun v =>
          grepLine commands arg v.shell v.lineStart
    else sh.kprint commands grepPipeUsage
  else sh.kprint commands grepUsage

/-! ### `execute_command` -/

/-- The part of the command before `>>` or `>`, and the flag and the file behind it. -/
def redirection (command : CString) : CString × Option (Bool × CString) :=
  match kStrstr command.bytes [greater, greater] with
  | some n => (take command n, some (true, skipBlanks (command.drop (n + 2))))
  | none =>
    match strchr command greater with
    | some n => (take command n, some (false, skipBlanks (command.drop (n + 1))))
    | none => (command, none)

/-- `redir_out` and `redir_file` are set, and with `>` the file is deleted if it exists. -/
def redirect (commands : Commands σ) (sh : Shell σ) : Option (Bool × CString) → Option (Shell σ)
  | none => some sh
  | some (appendMode, file) =>
    if file.bytes = [] then some sh
    else if !file.fits 128 then none
    else
      let sh := { sh with redirOut := true, redirFile := file }
      if appendMode then some sh
      else (commands.truncate file sh.world).map fun world => { sh with world := world }

/-- `cmd` and `arg` -/
def words (command : CString) : Option (CString × CString) :=
  let (cmd, arg) := match strchr command blank with
    | some n => (take command n, command.drop (n + 1))
    | none => (command, .empty)
  if cmd.fits 128 && arg.fits 128 then some (cmd, arg) else none

/-- The part of `execute_command` behind the pipe. -/
def executeSimple (commands : Commands σ) (sh : Shell σ) (command : CString) :
    Option (Shell σ) :=
  let (command, file) := redirection command
  (sh.redirect commands file).bind fun sh =>
    (words command).bind fun (cmd, arg) =>
      (if cmd = grepName then sh.grep commands arg
        else runScript commands (commands.run command cmd arg sh.world) sh).map fun sh =>
          { sh with redirOut := false }

/-- The calls of `execute_command`; `fuel` bounds how deep they are. -/
def execute (commands : Commands σ) : ℕ → Shell σ → CString → Option (Shell σ)
  | 0, _, _ => none
  | fuel + 1, sh, commandIn =>
    if !commandIn.fits 256 then none
    else
      match strchr commandIn bar with
      | some n =>
        let leftCmd := take commandIn n
        let rightCmd := skipBlanks (commandIn.drop (n + 1))
        (execute commands fuel
          { sh with pipeActive := true, pipeCursor := 0, pipeBuffer := fun _ => 0 } leftCmd).bind
            fun sh => (execute commands fuel
              { sh with pipeActive := false, pipeInputAvailable := true } rightCmd).map
                fun sh => { sh with pipeInputAvailable := false }
      | none => sh.executeSimple commands commandIn

/-- `Shell::execute_command` -/
def executeCommand (commands : Commands σ) (sh : Shell σ) (command : CString) :
    Option (Shell σ) :=
  execute commands (command.bytes.length + 1) sh command

end Shell

end MesaOS.System
