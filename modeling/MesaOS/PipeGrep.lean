/-
`grep` on what a pipe has left in its buffer.

The buffer is an array of bytes with a string in it: there is a zero, and what lies behind it is
whatever was there before.

* `holdsText_stringAt` — the string in the buffer, and its zero;
* `grep_prints` — what `grep` prints, and that it leaves the whole array as it was;
* `matching_newline` — a newline at the end of the text changes nothing;
* `terminated_of_run` — no command line loses the zero.
-/
import MesaOS.PipeCapture

open MachineWord Runs MesaOS.FS

namespace MesaOS.System.Shell

variable {σ : Type} {commands : Commands σ} {sh u : Shell σ}

/-- There is a string in the buffer. -/
def Terminated (sh : Shell σ) : Prop := ∃ i < 4096, sh.pipeBuffer i = 0

theorem holdsText_stringAt (h : sh.Terminated) : sh.HoldsText (stringAt sh.pipeBuffer 0).bytes := by
  have hfirst := Nat.find_spec h
  have hbefore : ∀ i < Nat.find h, sh.pipeBuffer i ≠ 0 := fun i hi hzero =>
    Nat.find_min h hi ⟨Nat.lt_trans hi hfirst.1, hzero⟩
  generalize Nat.find h = n at hfirst hbefore
  obtain ⟨hn, hzero⟩ := hfirst
  -- the characters before the first zero
  have hget : ∀ i < n, bufferOf ((List.range n).map sh.pipeBuffer) i = sh.pipeBuffer i := by
    intro i hi
    rw [bufferOf, List.getD_eq_getElem _ _ (by simpa using hi), List.getElem_map,
      List.getElem_range]
  have hlength : ((List.range n).map sh.pipeBuffer).length = n := by
    rw [List.length_map, List.length_range]
  have htext : (stringAt sh.pipeBuffer 0).bytes = (List.range n).map sh.pipeBuffer := by
    refine stringAt_eq (fun i hi => ?_) (fun hmem => ?_) ?_ ?_
    · rw [Nat.zero_add, hget i (hlength ▸ hi)]
    · obtain ⟨i, hi, hzero⟩ := List.mem_map.mp hmem
      exact hbefore i (List.mem_range.mp hi) hzero
    · rw [Nat.zero_add, hlength, hzero]
    · rw [Nat.zero_add, hlength]
      exact hn
  rw [htext]
  refine ⟨by rw [hlength]; exact hn, fun i hi => ?_⟩
  rw [hlength] at hi
  rcases Nat.lt_or_eq_of_le hi with hlt | rfl
  · exact (hget i hlt).symm
  · rw [hzero, bufferOf, List.getD_eq_default _ _ (Nat.le_of_eq hlength)]

theorem matching_singleton (p : CString) (text : List U8) :
    matching [p] text =
      ((text.splitOn newline).filter fun line => decide (p.bytes <:+: line)).flatMap
        (· ++ [newline]) := by
  simp only [matching, List.all_cons, List.all_nil, Bool.and_true]

/-- The empty line behind a newline does not contain the pattern. -/
theorem matching_newline {p : CString} (hp : p.bytes ≠ []) (text : List U8) :
    matching [p] (text ++ [newline]) = matching [p] text := by
  rw [matching_cons, matching_line List.not_mem_nil,
    if_neg fun h => hp (List.infix_nil.mp h), List.append_nil]

/-- **`grep` prints the lines with the pattern** and leaves the buffer as it was. -/
theorem grep_prints (commands : Commands σ) (hscreen : sh.ToScreen)
    (hinput : sh.pipeInputAvailable = true) (hterm : sh.Terminated) {arg : CString}
    (harg : arg.bytes ≠ []) :
    ∃ u, sh.grep commands arg = some u ∧
      u.screen = sh.screen ++
        (((stringAt sh.pipeBuffer 0).bytes.splitOn newline).filter fun line =>
          decide (arg.bytes <:+: line)).flatMap (· ++ [newline]) ∧
      u.pipeBuffer = sh.pipeBuffer := by
  obtain ⟨hsize, hbuffer⟩ := holdsText_stringAt hterm
  refine ⟨_, grep_text commands hscreen hinput hbuffer (stringAt sh.pipeBuffer 0).noNul hsize harg,
    ?_, rfl⟩
  dsimp only
  rw [matching_singleton]

/-- Two lines in the buffer, and behind their zero the rest of an earlier text. -/
def twoLines : Shell Unit :=
  { start () with
    pipeInputAvailable := true
    pipeBuffer := bufferOf (chars "ab" ++ newline :: chars "c" ++ newline :: 0 :: chars "b") }

theorem grep_prints_letter :
    ∃ u, twoLines.grep echoOnly letterB = some u ∧
      u.screen = twoLines.screen ++
        (((stringAt twoLines.pipeBuffer 0).bytes.splitOn newline).filter fun line =>
          decide (letterB.bytes <:+: line)).flatMap (· ++ [newline]) ∧
      u.pipeBuffer = twoLines.pipeBuffer :=
  grep_prints echoOnly ⟨rfl, rfl⟩ rfl ⟨5, by decide, by decide⟩ (by decide)

/-! ### The zero stays -/

theorem pipeBuffer_kprint (hactive : sh.pipeActive = false) {text : CString}
    (h : sh.kprint commands text = some u) : u.pipeBuffer = sh.pipeBuffer := by
  rw [kprint, hactive, if_neg Bool.false_ne_true] at h
  split at h
  · obtain ⟨world, -, rfl⟩ := Option.map_eq_some_iff.mp h
    rfl
  · exact Option.some_inj.mp h ▸ rfl

theorem pipeBuffer_grepLine (hactive : sh.pipeActive = false) {arg : CString} {lineStart : ℕ}
    (h : grepLine commands arg sh lineStart = some u) : u.pipeBuffer = sh.pipeBuffer := by
  rw [grepLine] at h
  split at h
  · obtain ⟨v, hv, hrest⟩ := Option.bind_eq_some_iff.mp h
    have hflag : v.pipeActive = false := (sameFlags_kprint hv).pipeActive.trans hactive
    rw [pipeBuffer_kprint hflag hrest, pipeBuffer_kprint hactive hv]
  · exact Option.some_inj.mp h ▸ rfl

/-- What the loop cuts it puts back. -/
theorem pipeBuffer_grepLoop (hactive : sh.pipeActive = false) {arg : CString} {fuel : ℕ}
    {v : GrepLoop σ}
    (h : whileLoop (fun v => v.shell.pipeBuffer v.p != 0) (GrepLoop.body commands arg) fuel
      { shell := sh, p := 0, lineStart := 0 } = some v) :
    v.shell.pipeBuffer = sh.pipeBuffer ∧ v.shell.pipeActive = false := by
  refine whileLoop_keeps _ _
    (fun v => v.shell.pipeBuffer = sh.pipeBuffer ∧ v.shell.pipeActive = false) ?_ _
    ⟨rfl, hactive⟩ h
  rintro v v' ⟨hbuffer, hflag⟩ hbody
  rw [GrepLoop.body] at hbody
  split at hbody
  next hnewline =>
    obtain ⟨w, hw, rfl⟩ := Option.map_eq_some_iff.mp hbody
    have hline := pipeBuffer_grepLine (by exact hflag) hw
    refine ⟨?_, (sameFlags_grepLine hw).pipeActive.trans hflag⟩
    dsimp only at hline hnewline ⊢
    rw [hline, Function.update_idem, ← hnewline, Function.update_eq_self, hbuffer]
  next => exact Option.some_inj.mp hbody ▸ ⟨hbuffer, hflag⟩

theorem terminated_kprint (h : sh.Terminated) {text : CString}
    (hrun : sh.kprint commands text = some u) : u.Terminated := by
  cases hactive : sh.pipeActive with
  | false =>
    rw [Terminated, pipeBuffer_kprint hactive hrun]
    exact h
  | true =>
    rw [kprint, hactive, if_pos rfl] at hrun
    dsimp only at hrun
    split at hrun
    next hfits =>
      obtain rfl := Option.some_inj.mp hrun
      exact ⟨_, Nat.lt_trans hfits (by decide), Function.update_self ..⟩
    next => exact Option.some_inj.mp hrun ▸ h

theorem terminated_runScript {script : Script σ} (h : sh.Terminated)
    (hrun : runScript commands script sh = some u) : u.Terminated := by
  induction script generalizing sh with
  | done s => exact Option.some_inj.mp hrun ▸ h
  | fault => exact absurd hrun (Option.some_ne_none u).symm
  | kprint text s next ih =>
    obtain ⟨v, hv, hrest⟩ := Option.bind_eq_some_iff.mp hrun
    have hbefore : ({ sh with world := s } : Shell σ).Terminated := h
    exact ih _ (terminated_kprint hbefore hv) hrest
  | vga text s next ih =>
    have hafter : ({ sh with world := s, screen := sh.screen ++ text.bytes } :
        Shell σ).Terminated := h
    exact ih s hafter hrun

/-- The buffer holds a string, and it is still clear when a command reads and writes a pipe. -/
structure PipeReady (sh : Shell σ) : Prop where
  terminated : sh.Terminated
  clear : sh.pipeActive = true → sh.pipeInputAvailable = true → sh.pipeBuffer = fun _ => 0

theorem terminated_grep (h : sh.PipeReady) {arg : CString}
    (hrun : sh.grep commands arg = some u) : u.Terminated := by
  by_cases hread : arg.bytes.length > 0 ∧ sh.pipeInputAvailable = true
  · obtain ⟨hlength, hinput⟩ := hread
    cases hactive : sh.pipeActive with
    | true =>
      rw [grep_empty commands hinput (h.clear hactive hinput) (List.ne_nil_of_length_pos hlength)]
        at hrun
      exact Option.some_inj.mp hrun ▸ h.terminated
    | false =>
      rw [grep, if_pos hlength, if_pos hinput] at hrun
      obtain ⟨v, hv, hlast⟩ := Option.bind_eq_some_iff.mp hrun
      obtain ⟨hbuffer, hflag⟩ := pipeBuffer_grepLoop hactive hv
      rw [Terminated, pipeBuffer_grepLine hflag hlast, hbuffer]
      exact h.terminated
  · rw [grep] at hrun
    split at hrun
    next hlength =>
      rw [if_neg fun hinput => hread ⟨hlength, hinput⟩] at hrun
      exact terminated_kprint h.terminated hrun
    next => exact terminated_kprint h.terminated hrun

theorem pipeReady_redirect (h : sh.PipeReady) {file : Option (Bool × CString)}
    (hrun : sh.redirect commands file = some u) : u.PipeReady := by
  have hflags := sameFlags_redirect hrun
  have hbuffer : u.pipeBuffer = sh.pipeBuffer := by
    cases file with
    | none => exact Option.some_inj.mp hrun ▸ rfl
    | some target =>
      obtain ⟨appendMode, file⟩ := target
      rw [redirect] at hrun
      dsimp only at hrun
      split at hrun
      · exact Option.some_inj.mp hrun ▸ rfl
      split at hrun
      · exact absurd hrun (Option.some_ne_none u).symm
      split at hrun
      · exact Option.some_inj.mp hrun ▸ rfl
      · obtain ⟨world, -, rfl⟩ := Option.map_eq_some_iff.mp hrun
        rfl
  refine ⟨?_, fun hactive hinput => ?_⟩
  · rw [Terminated, hbuffer]
    exact h.terminated
  · rw [hbuffer]
    exact h.clear (hflags.pipeActive ▸ hactive) (hflags.pipeInputAvailable ▸ hinput)

theorem terminated_execute {fuel : ℕ} {c : CString} (h : sh.PipeReady)
    (hrun : execute commands fuel sh c = some u) : u.Terminated := by
  induction fuel generalizing sh c u with
  | zero => exact absurd hrun (Option.some_ne_none u).symm
  | succ fuel ih =>
    rw [execute] at hrun
    split at hrun
    · exact absurd hrun (Option.some_ne_none u).symm
    split at hrun
    · -- a pipe: the left side starts with a clear buffer, the right side only reads it
      obtain ⟨v, hleft, hright⟩ := Option.bind_eq_some_iff.mp hrun
      obtain ⟨w, hw, rfl⟩ := Option.map_eq_some_iff.mp hright
      have hv : v.Terminated := ih ⟨⟨0, by decide, rfl⟩, fun _ _ => rfl⟩ hleft
      have hright : ({ v with pipeActive := false, pipeInputAvailable := true } :
          Shell σ).PipeReady := ⟨hv, fun hactive _ => absurd hactive Bool.false_ne_true⟩
      have hwterm : w.Terminated := ih hright hw
      exact hwterm
    · rw [executeSimple] at hrun
      obtain ⟨v, hv, hrun⟩ := Option.bind_eq_some_iff.mp hrun
      obtain ⟨⟨cmd, arg⟩, -, hrun⟩ := Option.bind_eq_some_iff.mp hrun
      obtain ⟨w, hw, rfl⟩ := Option.map_eq_some_iff.mp hrun
      have hready := pipeReady_redirect h hv
      change w.Terminated
      split at hw
      · exact terminated_grep hready hw
      · exact terminated_runScript hready.terminated hw

/-- **The buffer always holds a string** at the prompt. -/
theorem terminated_of_run {cs : List CString} (hidle : sh.Idle) (h : sh.Terminated)
    (hrun : run (executeCommand commands) sh cs = some u) : u.Terminated := by
  have hboth : u.Idle ∧ u.Terminated := by
    refine run_keeps (P := fun sh => sh.Idle ∧ sh.Terminated) (fun sh c u hsh hstep => ?_)
      ⟨hidle, h⟩ hrun
    have hone : run (executeCommand commands) sh [c] = some u := by rw [run_singleton, hstep]
    refine ⟨idle_of_run hsh.1 hone, ?_⟩
    refine terminated_execute ⟨hsh.2, fun hactive _ => ?_⟩ hstep
    exact absurd (hsh.1.toScreen.1.symm.trans hactive) Bool.false_ne_true
  exact hboth.2

end MesaOS.System.Shell
