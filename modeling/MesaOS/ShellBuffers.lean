/-
The arrays of the shell.

The path arrays are large enough for all that is put into them, as is the line.  The words of a
command, the name of a user, the path of `cd` and the names that Tab copies need not fit.

* `noOverflow_executeSimple`, `noOverflow_autocomplete` — when a command and Tab stay within
  the arrays;
* `noOverflow_iff` — the sequences of keys and command lines that stay within them.
-/
import MesaOS.Console
import MesaOS.Pipeline

open MachineWord Runs BoundedCopy MesaOS.FS MesaOS.Apps

namespace MesaOS.System

namespace Console

/-! ### What has to fit -/

/-- The path of a directory that `cd` changes to fits into `current_path`. -/
def CdFits (s : Console) (arg : CString) : Prop :=
  arg ∉ [.empty, rootPath, dotDot] →
    ∀ node, s.fs.findPath (FS.fullPath s.currentPath.1 arg) = some node →
      s.fs.isDirectory node = true → textLength (FS.fullPath s.currentPath.1 arg) < 128

/-- The file behind `>`, the two words, the user of `su` and the path of `cd` fit; `cd` looks
for the directory once `>` has deleted its file. -/
def CommandFits (s : Console) (commandIn : CString) : Prop :=
  let (command, file) := Shell.redirection commandIn
  let (cmd, arg) := cmdAndArg command
  (∀ f ∈ file, textLength f.2 < 128) ∧ textLength cmd < 128 ∧ textLength arg < 128 ∧
    (cmd = suName → textLength arg < 32) ∧
    (cmd = cdName → ∀ t, s.redirect file = .ok t → t.CdFits arg)

/-- Every command of the line fits in the state in which it is executed. -/
def LineFits (s : Console) (commandIn : Text 256) (given : ℕ → Given) : Prop :=
  match h : pipeSides commandIn with
  | some (leftCmd, rightCmd) =>
    LineFits { s with pipeActive := true } leftCmd given ∧
      ∀ t, ({ s with pipeActive := true } : Console).execute leftCmd given = .ok t →
        LineFits { t with pipeActive := false } rightCmd fun i => given (i + 1)
  | none => s.CommandFits commandIn.1
  termination_by textLength commandIn.1
  decreasing_by
    · exact (pipeSides_lt h).1
    · exact (pipeSides_lt h).2

/-- The names in the current directory that begin with the last word fit into `match`. -/
def TabFits (s : Console) : Prop :=
  let word := lastWord s.commandBuffer.1
  0 < textLength word → textLength word < 64 →
    ∀ dir, s.fs.findPath s.currentPath.1 = some dir →
      ∀ entries, s.fs.listing dir = some entries →
        ∀ de ∈ entries, word.bytes.isPrefixOf de.name.bytes = true → textLength de.name < 64

/-- What the key does fits. -/
def EventFits (s : Console) : Event → Prop
  | .input key given => s.appRunning = false →
      let s := s.resetCursor key
      (key.c = 0x09 → s.TabFits) ∧
        (key.c = newline → s.remember.LineFits s.commandBuffer given)
  | .execute command given => s.LineFits command given

/-! ### Paths -/

theorem textLength_append (s t : CString) :
    textLength (s.append t) = textLength s + textLength t := List.length_append

/-- A path is at most as long as its two parts and a slash. -/
theorem textLength_fullPath_le (cwd file : CString) :
    textLength (FS.fullPath cwd file) ≤ textLength cwd + 1 + textLength file := by
  rw [FS.fullPath]
  split_ifs
  · omega
  · rw [textLength_append]
    omega
  · rw [textLength_append, textLength_append]
    exact Nat.le_refl _

theorem textLength_fullPath_lt (s : Console) {file : CString} (hfile : textLength file < 128) :
    textLength (FS.fullPath s.currentPath.1 file) < 256 := by
  have hle := textLength_fullPath_le s.currentPath.1 file
  have hcwd := s.currentPath.2
  omega

/-- The path of a word fits into `full_path`. -/
theorem copyPath_eq (s : Console) (array : Destination) {file : CString}
    (hfile : textLength file < 128) :
    s.copyPath array file =
      .ok ⟨FS.fullPath s.currentPath.1 file, s.textLength_fullPath_lt hfile⟩ :=
  copyTo_of_lt _

/-! ### Commands -/

theorem noOverflow_kprint (s : Console) (t : Print) : NoOverflow (s.kprint t) := by
  rw [kprint]
  split_ifs
  · exact noOverflow_ok s
  · rw [s.copyPath_eq .fullPath s.redirFile.2]
    exact (noOverflow_map _ _).mpr (noOverflow_result _)
  · exact noOverflow_ok s

theorem noOverflow_prints (s : Console) (prints : List Print) :
    NoOverflow (runCalls kprint s prints) := by
  have hstep : ∀ (u : Console) (t : Print), NoOverflow (u.kprint t) ↔ True :=
    fun u t => iff_of_true (u.noOverflow_kprint t) trivial
  exact (noOverflow_runCalls_iff hstep s prints).mpr (guarded_true ..)

theorem exists_truncate (s : Console) {file : CString} (hfile : textLength file < 128) :
    ∃ fs, s.fs.truncate s.currentPath.1 file = some fs := by
  have hfits : (FS.fullPath s.currentPath.1 file).fits 256 = true :=
    decide_eq_true (s.textLength_fullPath_lt hfile)
  rw [FileSystem.truncate, hfits, if_neg (by simp)]
  cases s.fs.findPath (FS.fullPath s.currentPath.1 file) with
  | none => exact ⟨_, rfl⟩
  | some node => exact ⟨_, rfl⟩

theorem noOverflow_redirect (s : Console) (file : Option (Bool × CString)) :
    NoOverflow (s.redirect file) ↔ ∀ f ∈ file, textLength f.2 < 128 := by
  rcases file with _ | ⟨appendMode, file⟩
  · exact iff_of_true (noOverflow_ok s) (fun f hf => by cases hf)
  · have hmem : (∀ f ∈ some (appendMode, file), textLength f.2 < 128) ↔ textLength file < 128 := by
      simp
    rw [hmem, redirect]
    by_cases hempty : file.bytes = []
    · rw [if_pos hempty]
      refine iff_of_true (noOverflow_ok s) ?_
      rw [textLength, hempty]
      exact Nat.zero_lt_succ _
    · rw [if_neg hempty, copy, noOverflow_copyTo_bind]
      refine ⟨fun ⟨hfile, _⟩ => hfile, fun hfile => ⟨hfile, ?_⟩⟩
      dsimp only
      split_ifs
      · exact noOverflow_ok _
      · rw [copyPath_eq _ .fullPath hfile]
        exact (noOverflow_map _ _).mpr (noOverflow_result _)

/-- The redirection comes to its end when the file name fits. -/
theorem exists_redirect (s : Console) {file : Option (Bool × CString)}
    (hfile : ∀ f ∈ file, textLength f.2 < 128) : ∃ t, s.redirect file = .ok t := by
  rcases file with _ | ⟨appendMode, file⟩
  · exact ⟨s, rfl⟩
  · have hlt : textLength file < 128 := hfile (appendMode, file) rfl
    rw [redirect]
    by_cases hempty : file.bytes = []
    · exact ⟨s, by rw [if_pos hempty]⟩
    · rw [if_neg hempty, copy, copyTo_of_lt hlt, Except.bind]
      dsimp only
      cases appendMode with
      | true => exact ⟨_, rfl⟩
      | false =>
        rw [if_neg Bool.false_ne_true, copyPath_eq _ .fullPath hlt, Except.bind]
        obtain ⟨fs, hfs⟩ := s.exists_truncate hlt
        exact ⟨setFs { s with redirOut := true, redirFile := ⟨file, hlt⟩ } fs, by
          change (result (s.fs.truncate s.currentPath.1 file)).map _ = _
          rw [hfs]
          rfl⟩

theorem noOverflow_cd (s : Console) {arg : CString} (harg : textLength arg < 128) :
    NoOverflow (s.cd arg) ↔ s.CdFits arg := by
  rw [cd, CdFits]
  by_cases hroot : arg ∈ [.empty, rootPath, dotDot]
  · rw [if_pos hroot]
    exact iff_of_true (noOverflow_ok _) (fun h => absurd hroot h)
  · rw [if_neg hroot, s.copyPath_eq .fullPath harg, Except.bind]
    dsimp only
    cases hnode : s.fs.findPath (FS.fullPath s.currentPath.1 arg) with
    | none => exact iff_of_true (noOverflow_ok s) (fun _ node hn => by cases hn)
    | some node =>
      dsimp only
      by_cases hdir : s.fs.isDirectory node = true
      · rw [if_pos hdir, noOverflow_map, copy, noOverflow_copyTo]
        refine ⟨fun h _ n hn _ => h, fun h => h hroot node rfl hdir⟩
      · rw [if_neg hdir]
        refine iff_of_true (noOverflow_ok s) (fun _ n hn hd => ?_)
        cases hn
        exact absurd hd hdir

theorem noOverflow_su (s : Console) (arg : CString) :
    NoOverflow (s.su arg) ↔ textLength arg < 32 := by
  rw [su]
  by_cases harg : textLength arg > 0
  · rw [if_pos harg, noOverflow_map, copy, noOverflow_copyTo]
  · rw [if_neg harg]
    exact iff_of_true (noOverflow_ok s) (by omega)

theorem noOverflow_create (s : Console) {arg : CString} (harg : textLength arg < 128)
    (branch : FileSystem → CString → CString → (ℕ → U8) → Option (FileSystem × CString))
    (created : ℕ → U8) : NoOverflow (s.create arg branch created) := by
  rw [create]
  split_ifs
  · rw [s.copyPath_eq .fullPath harg]
    exact (noOverflow_map _ _).mpr (noOverflow_result _)
  · exact noOverflow_ok s

theorem noOverflow_runApp (s : Console) (arg : CString) : NoOverflow (s.runApp arg) := by
  rw [runApp]
  split_ifs
  · exact (noOverflow_map _ _).mpr (noOverflow_result _)
  · exact noOverflow_ok s

theorem noOverflow_ls (s : Console) {arg : CString} (harg : textLength arg < 128) :
    NoOverflow (s.ls arg) := by
  have hcwd := s.currentPath.2
  rw [ls, noOverflow_map]
  split_ifs
  · exact noOverflow_copyTo.mpr (by omega)
  · rw [s.copyPath_eq .fullPath harg]
    exact noOverflow_ok _

theorem noOverflow_cat (s : Console) {arg : CString} (harg : textLength arg < 128) :
    NoOverflow (s.cat arg) := by
  rw [cat]
  split_ifs
  · rw [s.copyPath_eq .fullPath harg]
    exact noOverflow_ok _
  · exact noOverflow_ok s

theorem noOverflow_openNano (s : Console) {arg : CString} (harg : textLength arg < 128) :
    NoOverflow (s.openNano arg) := by
  rw [openNano, s.copyPath_eq .fullArg harg]
  exact (noOverflow_map _ _).mpr (noOverflow_result _)

/-- Of the branches only those of `cd` and `su` copy into an array that is too small. -/
theorem noOverflow_branch (s : Console) (command : CString) {cmd arg : CString}
    (harg : textLength arg < 128) (created : ℕ → U8) :
    NoOverflow (s.branch command cmd arg created) ↔
      (cmd = suName → textLength arg < 32) ∧ (cmd = cdName → s.CdFits arg) := by
  rw [branch]
  by_cases hcd : cmd = cdName
  · have hsu : cmd ≠ suName := fun h => absurd (hcd.symm.trans h) (by decide)
    rw [if_pos hcd, s.noOverflow_cd harg]
    exact ⟨fun h => ⟨fun h' => absurd h' hsu, fun _ => h⟩, fun h => h.2 hcd⟩
  · rw [if_neg hcd]
    by_cases hsu : cmd = suName
    · rw [if_pos hsu, s.noOverflow_su]
      exact ⟨fun h => ⟨fun _ => h, fun h' => absurd h' hcd⟩, fun h => h.1 hsu⟩
    · rw [if_neg hsu]
      refine iff_of_true ?_ ⟨fun h => absurd h hsu, fun h => absurd h hcd⟩
      split_ifs
      · exact s.noOverflow_create harg _ created
      · exact s.noOverflow_runApp arg
      · exact s.noOverflow_ls harg
      · exact s.noOverflow_create harg _ created
      · exact s.noOverflow_cat harg
      · exact noOverflow_ok _
      · exact s.noOverflow_openNano harg
      · exact noOverflow_stuck
      · exact noOverflow_ok s

/-- **A command stays within the arrays** just when its words fit. -/
theorem noOverflow_executeSimple (s : Console) (commandIn : CString) (given : Given) :
    NoOverflow (s.executeSimple commandIn given) ↔ s.CommandFits commandIn := by
  rw [executeSimple, CommandFits]
  obtain ⟨command, file⟩ := Shell.redirection commandIn
  obtain ⟨cmd, arg⟩ := cmdAndArg command
  dsimp only
  rw [noOverflow_bind, noOverflow_redirect]
  refine and_congr_right fun hfile => ?_
  -- the rest of the command is about the state behind `>`
  obtain ⟨t, ht⟩ := s.exists_redirect hfile
  have hreturned : ∀ {P : Console → Prop}, (∀ u, s.redirect file = .ok u → P u) ↔ P t := by
    intro P
    refine ⟨fun h => h t ht, fun h u hu => ?_⟩
    rw [ht] at hu
    exact Except.ok.inj hu ▸ h
  rw [hreturned, hreturned, copy, noOverflow_copyTo_bind, copy]
  constructor
  · rintro ⟨hcmd, h⟩
    obtain ⟨harg, h⟩ := noOverflow_copyTo_bind.mp h
    exact ⟨hcmd, harg, (t.noOverflow_branch command harg _).mp ((noOverflow_bind _ _).mp h).1⟩
  · rintro ⟨hcmd, harg, hbranch⟩
    refine ⟨hcmd, noOverflow_copyTo_bind.mpr ⟨harg, (noOverflow_bind _ _).mpr
      ⟨(t.noOverflow_branch command harg _).mpr hbranch, fun u _ => ?_⟩⟩⟩
    exact (noOverflow_map _ _).mpr (u.noOverflow_prints given.prints)

/-! ### Pipes -/

theorem lineFits_none {s : Console} {commandIn : Text 256} (h : pipeSides commandIn = none)
    (given : ℕ → Given) : s.LineFits commandIn given ↔ s.CommandFits commandIn.1 := by
  rw [LineFits]
  split
  · next hsides =>
    rw [h] at hsides
    cases hsides
  · exact Iff.rfl

theorem lineFits_some {s : Console} {commandIn leftCmd rightCmd : Text 256}
    (h : pipeSides commandIn = some (leftCmd, rightCmd)) (given : ℕ → Given) :
    s.LineFits commandIn given ↔
      LineFits { s with pipeActive := true } leftCmd given ∧
        ∀ t, ({ s with pipeActive := true } : Console).execute leftCmd given = .ok t →
          LineFits { t with pipeActive := false } rightCmd fun i => given (i + 1) := by
  rw [LineFits]
  split
  · next hsides =>
    rw [h] at hsides
    cases hsides
    exact Iff.rfl
  · next hsides =>
    rw [h] at hsides
    cases hsides

/-- By induction on the length of the line. -/
theorem noOverflow_execute (s : Console) (commandIn : Text 256) (given : ℕ → Given) :
    NoOverflow (s.execute commandIn given) ↔ s.LineFits commandIn given := by
  induction hn : textLength commandIn.1 using Nat.strong_induction_on
    generalizing s commandIn given with
  | _ n ih =>
    subst hn
    cases hsides : pipeSides commandIn with
    | none => rw [execute_none hsides, lineFits_none hsides, noOverflow_executeSimple]
    | some sides =>
      obtain ⟨leftCmd, rightCmd⟩ := sides
      obtain ⟨hleft, hright⟩ := pipeSides_lt hsides
      rw [execute_some hsides, lineFits_some hsides, noOverflow_bind, ih _ hleft _ _ _ rfl]
      refine and_congr_right fun _ => forall_congr' fun t => imp_congr_right fun _ => ?_
      exact ih _ hright _ _ _ rfl

/-! ### Keys -/

theorem noOverflow_matchLoop (word : CString) (entries : List Dirent) (found : ℕ × Text 64) :
    NoOverflow (matchLoop word entries found) ↔
      ∀ de ∈ entries, word.bytes.isPrefixOf de.name.bytes = true → textLength de.name < 64 := by
  induction entries generalizing found with
  | nil => exact iff_of_true (noOverflow_ok found) (fun de hde => by cases hde)
  | cons de entries ih =>
    obtain ⟨count, name⟩ := found
    rw [matchLoop, List.forall_mem_cons]
    by_cases hmatch : word.bytes.isPrefixOf de.name.bytes = true
    · rw [if_pos hmatch, copy, noOverflow_copyTo_bind]
      constructor
      · rintro ⟨hname, h⟩
        exact ⟨fun _ => hname, (ih _).mp h⟩
      · rintro ⟨hname, h⟩
        exact ⟨hname hmatch, (ih _).mpr h⟩
    · rw [if_neg hmatch, ih]
      exact ⟨fun h => ⟨fun h' => absurd h' hmatch, h⟩, fun h => h.2⟩

theorem textLength_childPath_le (cwd name : CString) :
    textLength (childPath cwd name) ≤ textLength cwd + 1 + textLength name := by
  have hslash : textLength rootPath = 1 := rfl
  rw [childPath]
  split_ifs
  · rw [textLength_append]
    omega
  · rw [textLength_append, textLength_append]
    omega

/-- The path of a name that fits into `match` fits into `full`. -/
theorem noOverflow_complete (s : Console) (word : CString) (name : Text 64) :
    NoOverflow (s.complete word name) := by
  have hle := textLength_childPath_le s.currentPath.1 name.1
  have hcwd := s.currentPath.2
  have hname := name.2
  have hfull : textLength (childPath s.currentPath.1 name.1) < 256 := by omega
  rw [complete]
  exact (noOverflow_map _ _).mpr (noOverflow_copyTo.mpr hfull)

/-- **Tab stays within the arrays** just when the names that begin with the last word fit. -/
theorem noOverflow_autocomplete (s : Console) : NoOverflow s.autocomplete ↔ s.TabFits := by
  rw [autocomplete, TabFits]
  dsimp only
  by_cases hword : textLength (lastWord s.commandBuffer.1) = 0 ∨
      64 ≤ textLength (lastWord s.commandBuffer.1)
  · rw [if_pos hword]
    exact iff_of_true (noOverflow_ok s) (by omega)
  · have hpos : 0 < textLength (lastWord s.commandBuffer.1) := by omega
    have hlt : textLength (lastWord s.commandBuffer.1) < 64 := by omega
    rw [if_neg hword, copy, copyTo_of_lt hlt, Except.bind]
    dsimp only
    rw [imp_iff_right hpos, imp_iff_right hlt]
    cases hdir : s.fs.findPath s.currentPath.1 with
    | none => exact iff_of_true (noOverflow_ok s) (fun dir h => by cases h)
    | some dir =>
      obtain ⟨entries, hlisting⟩ := s.fs.exists_listing dir
      dsimp only
      rw [hlisting, result, Except.bind, noOverflow_bind, noOverflow_matchLoop]
      constructor
      · rintro ⟨h, -⟩ dir' hdir' entries' hentries'
        cases hdir'
        rw [hlisting] at hentries'
        cases hentries'
        exact h
      · intro h
        refine ⟨h dir rfl entries hlisting, fun found _ => ?_⟩
        split_ifs
        · exact s.noOverflow_complete _ _
        · exact noOverflow_ok s

theorem noOverflow_step (s : Console) (event : Event) :
    NoOverflow (s.step event) ↔ s.EventFits event := by
  cases event with
  | execute command given => exact s.noOverflow_execute command given
  | input key given =>
    rw [step, EventFits]
    by_cases happ : s.appRunning = true
    · rw [handleInput, if_pos happ, noOverflow_map]
      exact iff_of_true (noOverflow_result _) (fun h => absurd (h.symm.trans happ) (by decide))
    · rw [imp_iff_right (Bool.not_eq_true _ ▸ happ)]
      by_cases htab : key.c = 0x09
      · have hne : key.c ≠ newline := by
          rw [htab]
          decide
        rw [handleInput_tab happ htab, noOverflow_autocomplete]
        exact ⟨fun h => ⟨fun _ => h, fun h' => absurd h' hne⟩, fun h => h.1 htab⟩
      · by_cases hnewline : key.c = newline
        · rw [handleInput_newline happ hnewline, enter, noOverflow_map, noOverflow_execute]
          exact ⟨fun h => ⟨fun h' => absurd h' htab, fun _ => h⟩, fun h => h.2 hnewline⟩
        · -- the key copies nothing into a smaller array
          refine iff_of_true ?_ ⟨fun h => absurd h htab, fun h => absurd h hnewline⟩
          rw [handleInput, if_neg happ, if_neg htab, if_neg hnewline]
          split_ifs
          · exact noOverflow_ok s
          · exact noOverflow_ok _
          · exact noOverflow_ok _

end Console

/-- **A sequence of keys and command lines stays within the arrays of the shell** just when the
words, user names, paths and completed names fit in the states in which they are copied. -/
theorem noOverflow_iff (s : Console) (events : List Event) :
    NoOverflow (runCalls Console.step s events) ↔
      Guarded (fun s event => (s.step event).toOption) Console.EventFits s events :=
  noOverflow_runCalls_iff Console.noOverflow_step s events

/-! ### A long word -/

/-- `128` letters. -/
def longWord : CString := ⟨List.replicate 128 0x61, by decide⟩

/-- `echo` and the long word. -/
def echoLongWord : Text 256 :=
  ⟨(Shell.echoName.append (.ofChar blank (by decide))).append longWord, by decide +kernel⟩

/-- After the start of the system the argument of `echo` leaves `arg`. -/
theorem echoLongWord_overflows :
    ∃ fs, FileSystem.boot freshMemory (fun _ _ => 0) = some fs ∧
      ¬NoOverflow
        (runCalls Console.step (Console.start fs) [.execute echoLongWord fun _ => nothingGiven]) := by
  obtain ⟨fs, hboot⟩ := FileSystem.exists_boot
  have hsides : pipeSides echoLongWord = none := by decide +kernel
  have hredirection : Shell.redirection echoLongWord.1 = (echoLongWord.1, none) := by
    decide +kernel
  have hwords : cmdAndArg echoLongWord.1 = (Shell.echoName, longWord) := by decide +kernel
  refine ⟨fs, hboot, fun h => h .arg ?_⟩
  rw [runCalls_cons, Console.step, Console.execute_none hsides, Console.executeSimple,
    hredirection]
  dsimp only [Console.redirect, Except.bind]
  rw [hwords]
  dsimp only
  rw [copy, copyTo_of_lt (by decide), copy]
  dsimp only [Except.bind]
  rw [copyTo_of_not_lt (by decide +kernel)]

end MesaOS.System
