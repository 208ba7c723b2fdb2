/-
Pipelines with `grep`.

The command left of a `|` keeps the blank in front of it, which is part of its argument.  A
second `|` clears the one buffer before the first `grep` has read it, so a pipeline with two of
them prints nothing.

* `runScript_screen`, `runScript_pipe` — where a command's output goes;
* `grep_spec` — the loop over the buffer prints the lines with the pattern;
* `execute_stages` — from the first `grep` of two or more on nothing is printed;
* `prints_iff` — when `c | grep p1 | … | grep pk` prints the lines of the output of `c` that
  contain all the patterns;
* `prints_of_noArgument` — it does for one pattern and a command without an argument.
-/
import Mathlib.Data.List.Infix
import Mathlib.Data.List.TakeWhile
import MesaOS.Shell

open MachineWord Runs MesaOS.FS

namespace MesaOS.System

variable {σ : Type}

/-! ### What a command writes -/

namespace Script

/-- All that it writes, when nothing it writes goes into a file. -/
def output : Script σ → List U8
  | .done _ | .fault => []
  | .kprint text s next | .vga text s next => text.bytes ++ (next s).output

/-- What it writes with `kprint`. -/
def kprinted : Script σ → List U8
  | .done _ | .fault => []
  | .kprint text s next => text.bytes ++ (next s).kprinted
  | .vga _ s next => (next s).kprinted

/-- What it writes with the VGA driver. -/
def drawn : Script σ → List U8
  | .done _ | .fault => []
  | .kprint _ s next => (next s).drawn
  | .vga text s next => text.bytes ++ (next s).drawn

/-- The state it leaves, if no copy leaves its array. -/
def final : Script σ → Option σ
  | .done s => some s
  | .fault => none
  | .kprint _ s next | .vga _ s next => (next s).final

theorem noNul_kprinted (script : Script σ) : 0#8 ∉ script.kprinted := by
  induction script with
  | done s => exact List.not_mem_nil
  | fault => exact List.not_mem_nil
  | kprint text s next ih => exact fun h => (List.mem_append.mp h).elim text.noNul (ih s)
  | vga text s next ih => exact ih s

theorem output_of_drawn {script : Script σ} (h : script.drawn = []) :
    script.output = script.kprinted := by
  induction script with
  | done s => rfl
  | fault => rfl
  | kprint text s next ih => exact congrArg (text.bytes ++ ·) (ih s h)
  | vga text s next ih =>
    obtain ⟨htext, hnext⟩ := List.append_eq_nil_iff.mp h
    rw [output, kprinted, htext, List.nil_append]
    exact ih s hnext

end Script

/-- What a command line without `|` and `>` does when nothing comes in through a pipe. -/
def commandScript (commands : Commands σ) (command : CString) (s : σ) : Script σ :=
  match Shell.words command with
  | none => .fault
  | some (cmd, arg) =>
    if cmd = Shell.grepName then
      .kprintAll [if arg.bytes.length > 0 then Shell.grepPipeUsage else Shell.grepUsage] s
    else commands.run command cmd arg s

namespace Shell

/-- A shell whose `kprint` writes to the screen. -/
def ToScreen (sh : Shell σ) : Prop := sh.pipeActive = false ∧ sh.redirOut = false

theorem ToScreen.kprint {sh : Shell σ} (h : sh.ToScreen) (commands : Commands σ)
    (text : CString) :
    sh.kprint commands text = some { sh with screen := sh.screen ++ text.bytes } := by
  rw [Shell.kprint, h.1, if_neg Bool.false_ne_true, h.2, if_neg Bool.false_ne_true]

theorem runScript_screen (commands : Commands σ) (script : Script σ) {sh : Shell σ}
    (h : sh.ToScreen) :
    runScript commands script sh =
      script.final.map fun s => { sh with screen := sh.screen ++ script.output, world := s } := by
  induction script generalizing sh with
  | done s => rw [runScript, Script.output, List.append_nil]; rfl
  | fault => rfl
  | kprint text s next ih =>
    have hbefore : ({ sh with world := s } : Shell σ).ToScreen := h
    have hafter : ({ sh with world := s, screen := sh.screen ++ text.bytes } : Shell σ).ToScreen := h
    rw [runScript, hbefore.kprint commands text, Option.bind_some, ih s hafter, Script.final,
      Script.output, List.append_assoc]
  | vga text s next ih =>
    have hafter : ({ sh with world := s, screen := sh.screen ++ text.bytes } : Shell σ).ToScreen := h
    rw [runScript, ih s hafter, Script.final, Script.output, List.append_assoc]

/-- A shell that writes into the pipe, with a text in its buffer. -/
def piping (sh : Shell σ) (text : List U8) : Shell σ :=
  { sh with pipeActive := true, pipeBuffer := bufferOf text, pipeCursor := text.length }

theorem kprint_piping (commands : Commands σ) (sh : Shell σ) {text : List U8} {t : CString}
    (h : text.length + t.bytes.length < 4095) :
    (sh.piping text).kprint commands t = some (sh.piping (text ++ t.bytes)) := by
  have hbuffer : Function.update (strcpy (bufferOf text) text.length t)
      (text.length + t.bytes.length) 0 = bufferOf (text ++ t.bytes) := by
    funext i
    rcases Nat.lt_or_ge i text.length with hi | hi
    · rw [Function.update_of_ne (by omega), strcpy, if_neg (by omega),
        bufferOf_append_left _ _ hi]
    · obtain ⟨j, rfl⟩ := Nat.exists_eq_add_of_le hi
      rw [bufferOf_append]
      by_cases hj : j = t.bytes.length
      · rw [hj, Function.update_self, bufferOf, List.getD_eq_default _ _ (Nat.le_refl _)]
      · rw [Function.update_of_ne (by omega), strcpy]
        by_cases hle : text.length + j ≤ text.length + t.bytes.length
        · rw [if_pos ⟨Nat.le_add_right .., hle⟩, Nat.add_sub_cancel_left]
        · rw [if_neg fun h => hle h.2, bufferOf, bufferOf, List.getD_eq_default _ _ (by omega),
            List.getD_eq_default _ _ (by omega)]
  rw [Shell.kprint, piping, if_pos rfl]
  dsimp only
  rw [if_pos h, hbuffer, piping, List.length_append]

theorem runScript_pipe (commands : Commands σ) (script : Script σ) (sh : Shell σ)
    {text : List U8} (h : text.length + script.kprinted.length < 4095) :
    runScript commands script (sh.piping text) =
      script.final.map fun s =>
        { sh with screen := sh.screen ++ script.drawn, world := s }.piping
          (text ++ script.kprinted) := by
  induction script generalizing sh text with
  | done s => rw [runScript, Script.kprinted, Script.drawn, List.append_nil, List.append_nil]; rfl
  | fault => rfl
  | kprint t s next ih =>
    rw [Script.kprinted, List.length_append] at h
    have hroom : text.length + t.bytes.length < 4095 := by omega
    have hrest : (text ++ t.bytes).length + (next s).kprinted.length < 4095 := by
      rw [List.length_append]
      omega
    have hnext := ih s { sh with world := s } hrest
    have hkprint := kprint_piping commands { sh with world := s } hroom
    rw [runScript, Script.kprinted, Script.final, Script.drawn, ← List.append_assoc]
    change (kprint commands ({ sh with world := s }.piping text) t).bind _ = _
    rw [hkprint, Option.bind_some]
    exact hnext
  | vga t s next ih =>
    have hnext := ih s { sh with world := s, screen := sh.screen ++ t.bytes } h
    rw [runScript, Script.kprinted, Script.final, Script.drawn, ← List.append_assoc]
    exact hnext

/-! ### `grep` -/

end Shell

theorem kStrstr_isSome (haystack needle : List U8) :
    (kStrstr haystack needle).isSome = true ↔ needle <:+: haystack := by
  induction haystack with
  | nil =>
    rw [kStrstr, List.infix_nil]
    split
    next h => exact iff_of_true rfl h
    next h => exact iff_of_false Bool.false_ne_true h
  | cons c rest ih =>
    rw [kStrstr]
    by_cases hempty : needle = []
    · rw [if_pos hempty, hempty]
      exact iff_of_true rfl (List.nil_infix)
    · rw [if_neg hempty, List.infix_cons_iff]
      by_cases hprefix : needle.isPrefixOf (c :: rest) = true
      · rw [if_pos hprefix]
        exact iff_of_true rfl (.inl (List.isPrefixOf_iff_prefix.mp hprefix))
      · rw [if_neg hprefix, Option.isSome_map, ih]
        exact (or_iff_right fun h => hprefix (List.isPrefixOf_iff_prefix.mpr h)).symm

/-- The string that ends at the first zero. -/
theorem stringAt_eq {buffer : ℕ → U8} {start : ℕ} {line : List U8}
    (hline : ∀ i < line.length, buffer (start + i) = bufferOf line i) (hnul : 0#8 ∉ line)
    (hend : buffer (start + line.length) = 0) (hsize : start + line.length < 4096) :
    (stringAt buffer start).bytes = line := by
  obtain ⟨m, hm⟩ := Nat.exists_eq_add_of_lt hsize
  have hsplit : 4096 - start = line.length + (1 + m) := by omega
  have hhead : (List.range line.length).map (fun i => buffer (start + i)) = line := by
    have hmap := map_bufferOf_append line []
    rw [List.append_nil] at hmap
    exact (List.map_congr_left fun i hi => hline i (List.mem_range.mp hi)).trans hmap
  rw [stringAt]
  dsimp only
  rw [hsplit, List.range_add, List.map_append, hhead, List.takeWhile_append_of_pos]
  · rw [Nat.add_comm 1 m, List.range_succ_eq_map, List.map_cons, List.map_cons, Nat.add_zero, hend,
      List.takeWhile_cons_of_neg, List.append_nil]
    exact fun h => of_decide_eq_true h rfl
  · intro c hc
    refine decide_eq_true ?_
    rintro rfl
    exact hnul hc

/-- The lines of a text that contain all the patterns, each with its end. -/
def matching (ps : List CString) (text : List U8) : List U8 :=
  ((text.splitOn newline).filter fun line => ps.all fun p => decide (p.bytes <:+: line)).flatMap
    (· ++ [newline])

theorem matching_line {p : CString} {line : List U8} (h : newline ∉ line) :
    matching [p] line = if p.bytes <:+: line then line ++ [newline] else [] := by
  rw [matching, List.splitOn_eq_singleton h]
  by_cases hp : p.bytes <:+: line <;> simp [hp]

theorem matching_cons (p : CString) (line rest : List U8) :
    matching [p] (line ++ newline :: rest) = matching [p] line ++ matching [p] rest := by
  rw [matching, List.splitOn_append_cons_self, List.filter_append, List.flatMap_append]
  rfl

namespace Shell

theorem grepLine_screen (commands : Commands σ) (arg : CString) {sh : Shell σ} (h : sh.ToScreen)
    {start : ℕ} {line : List U8} (hline : (stringAt sh.pipeBuffer start).bytes = line)
    (hnewline : newline ∉ line) :
    grepLine commands arg sh start =
      some { sh with screen := sh.screen ++ matching [arg] line } := by
  rw [grepLine, matching_line hnewline]
  by_cases harg : arg.bytes <:+: line
  · rw [if_pos (by rw [hline]; exact (kStrstr_isSome ..).mpr harg), if_pos harg, kprintLine,
      h.kprint, Option.bind_some, ToScreen.kprint (by exact h), hline, ← List.append_assoc]
    rfl
  · rw [if_neg (by rw [hline]; exact fun hsome => harg ((kStrstr_isSome ..).mp hsome)), if_neg harg,
      List.append_nil]

/-- The turn at the end of the line `cur`: the line is cut off and shown, and the newline put
back. -/
theorem GrepLoop.body_newline (commands : Commands σ) (arg : CString) {sh : Shell σ}
    (h : sh.ToScreen) {before cur rest : List U8}
    (hbuffer : ∀ i ≤ (before ++ cur ++ newline :: rest).length,
      sh.pipeBuffer i = bufferOf (before ++ cur ++ newline :: rest) i) (hnul : 0#8 ∉ cur)
    (hnewline : newline ∉ cur) (hsize : (before ++ cur ++ newline :: rest).length < 4096) :
    GrepLoop.body commands arg
        { shell := sh, p := (before ++ cur).length, lineStart := before.length } =
      some
        { shell := { sh with screen := sh.screen ++ matching [arg] cur }
          p := (before ++ cur).length + 1
          lineStart := (before ++ cur).length + 1 } := by
  have hlen : (before ++ cur).length = before.length + cur.length := List.length_append
  have hin : (before ++ cur).length < (before ++ cur ++ newline :: rest).length := by
    rw [@List.length_append _ (before ++ cur), List.length_cons]
    omega
  have hhere : sh.pipeBuffer (before ++ cur).length = newline := by
    rw [hbuffer _ (Nat.le_of_lt hin)]
    exact bufferOf_append (before ++ cur) (newline :: rest) 0
  have hcut : (stringAt (Function.update sh.pipeBuffer (before ++ cur).length 0)
      before.length).bytes = cur := by
    refine stringAt_eq (fun i hi => ?_) hnul ?_ ?_
    · rw [Function.update_of_ne (by omega), hbuffer _ (by omega), List.append_assoc,
        bufferOf_append, bufferOf_append_left _ _ hi]
    · rw [← hlen, Function.update_self]
    · omega
  have hscreen : ({ sh with
      pipeBuffer := Function.update sh.pipeBuffer (before ++ cur).length 0 } :
      Shell σ).ToScreen := h
  have hrestored : Function.update (Function.update sh.pipeBuffer (before ++ cur).length 0)
      (before ++ cur).length newline = sh.pipeBuffer := by
    rw [Function.update_idem, ← hhere, Function.update_eq_self]
  rw [GrepLoop.body]
  dsimp only
  rw [if_pos hhere, grepLine_screen commands arg hscreen hcut hnewline, Option.map_some]
  dsimp only
  rw [hrestored]

/-- The loop from a place in the text on: it has come to the character behind `cur`, in the line
that starts behind `before`. -/
theorem grepLoop_spec (commands : Commands σ) (arg : CString) {sh : Shell σ} (h : sh.ToScreen)
    {before cur rest : List U8} {fuel : ℕ}
    (hbuffer : ∀ i ≤ (before ++ cur ++ rest).length,
      sh.pipeBuffer i = bufferOf (before ++ cur ++ rest) i) (hnul : 0#8 ∉ cur ++ rest)
    (hnewline : newline ∉ cur) (hsize : (before ++ cur ++ rest).length < 4096)
    (hfuel : rest.length < fuel) :
    (whileLoop (fun v => v.shell.pipeBuffer v.p != 0) (GrepLoop.body commands arg) fuel
      { shell := sh, p := (before ++ cur).length, lineStart := before.length }).bind
        (fun v => grepLine commands arg v.shell v.lineStart) =
      some { sh with screen := sh.screen ++ matching [arg] (cur ++ rest) } := by
  induction rest generalizing sh before cur fuel with
  | nil =>
    obtain ⟨fuel, rfl⟩ := Nat.exists_eq_add_of_lt hfuel
    rw [List.append_nil] at hbuffer
    have hlen : (before ++ cur).length = before.length + cur.length := List.length_append
    have hend : sh.pipeBuffer (before ++ cur).length = 0 := by
      rw [hbuffer _ (Nat.le_refl _), bufferOf, List.getD_eq_default _ _ (Nat.le_refl _)]
    have hline : (stringAt sh.pipeBuffer before.length).bytes = cur := by
      refine stringAt_eq (fun i hi => ?_) (fun h => hnul (List.mem_append_left _ h)) ?_ ?_
      · rw [hbuffer _ (by omega), bufferOf_append]
      · rw [← List.length_append, hend]
      · rw [← List.length_append, ← List.append_nil (before ++ cur)]
        exact hsize
    rw [whileLoop]
    dsimp only
    rw [hend, if_neg (by decide), Option.bind_some, List.append_nil]
    exact grepLine_screen commands arg h hline hnewline
  | cons c rest ih =>
    obtain ⟨fuel, rfl⟩ := Nat.exists_eq_add_of_lt hfuel
    have hhere : sh.pipeBuffer (before ++ cur).length = c := by
      have hin : (before ++ cur).length ≤ (before ++ cur ++ c :: rest).length :=
        (List.prefix_append _ (c :: rest)).length_le
      rw [hbuffer _ hin]
      exact bufferOf_append (before ++ cur) (c :: rest) 0
    have hc : (c != 0) = true := by
      rw [bne_iff_ne]
      rintro rfl
      exact hnul (List.mem_append_right _ (List.mem_cons_self ..))
    have hnext : before ++ cur ++ c :: rest = before ++ (cur ++ [c]) ++ rest := by
      rw [List.append_assoc, List.append_assoc, List.append_assoc]
      rfl
    have hlength : (before ++ cur).length + 1 = (before ++ (cur ++ [c])).length := by
      rw [← List.append_assoc]
      exact (@List.length_append _ (before ++ cur) [c]).symm
    rw [whileLoop]
    dsimp only
    rw [hhere, if_pos hc]
    by_cases heol : c = newline
    · -- the end of a line: the next one begins with nothing read of it
      subst heol
      rw [GrepLoop.body_newline commands arg h hbuffer (fun h => hnul (List.mem_append_left _ h))
        hnewline hsize, Option.bind_some, hlength, matching_cons, ← List.append_assoc sh.screen]
      rw [hnext] at hbuffer hsize
      have hih := @ih { sh with screen := sh.screen ++ matching [arg] cur } h
        (before ++ (cur ++ [newline])) [] ((newline :: rest).length + fuel)
        (by rw [List.append_nil]; exact hbuffer)
        (fun h => hnul (List.mem_append_right _ (List.mem_cons_of_mem _ h))) List.not_mem_nil
        (by rw [List.append_nil]; exact hsize) (by rw [List.length_cons]; omega)
      rw [List.append_nil, List.nil_append] at hih
      exact hih
    · have hgo : ∀ lineStart, GrepLoop.body commands arg
          { shell := sh, p := (before ++ cur).length, lineStart := lineStart } =
          some { shell := sh, p := (before ++ cur).length + 1, lineStart := lineStart } := by
        intro lineStart
        rw [GrepLoop.body]
        dsimp only
        rw [hhere, if_neg heol]
      rw [hgo, Option.bind_some, hlength]
      rw [hnext] at hbuffer hsize
      have hsplit : cur ++ c :: rest = cur ++ [c] ++ rest := (List.append_cons ..)
      rw [hsplit] at hnul ⊢
      refine ih h hbuffer hnul (fun hmem => ?_) hsize (by rw [List.length_cons]; omega)
      rcases List.mem_append.mp hmem with hmem | hmem
      · exact hnewline hmem
      · exact heol (List.mem_singleton.mp hmem).symm

/-- **`grep` behind a pipe** prints the lines with the pattern, whatever lies in the buffer behind
the text. -/
theorem grep_text (commands : Commands σ) {sh : Shell σ} (h : sh.ToScreen) {text : List U8}
    (hinput : sh.pipeInputAvailable = true)
    (hbuffer : ∀ i ≤ text.length, sh.pipeBuffer i = bufferOf text i)
    (hnul : 0#8 ∉ text) (hsize : text.length < 4096) {arg : CString} (harg : arg.bytes ≠ []) :
    sh.grep commands arg = some { sh with screen := sh.screen ++ matching [arg] text } := by
  rw [grep, if_pos (List.length_pos_of_ne_nil harg), if_pos hinput]
  have hstart : ∀ i ≤ ([] ++ [] ++ text).length,
      sh.pipeBuffer i = bufferOf ([] ++ [] ++ text) i := hbuffer
  exact grepLoop_spec commands arg h hstart hnul List.not_mem_nil hsize (by omega)

theorem grep_spec (commands : Commands σ) {sh : Shell σ} (h : sh.ToScreen) {text : List U8}
    (hinput : sh.pipeInputAvailable = true) (hbuffer : sh.pipeBuffer = bufferOf text)
    (hnul : 0#8 ∉ text) (hsize : text.length < 4096) {arg : CString} (harg : arg.bytes ≠ []) :
    sh.grep commands arg = some { sh with screen := sh.screen ++ matching [arg] text } :=
  grep_text commands h hinput (fun i _ => congrFun hbuffer i) hnul hsize harg

/-- Nothing is in the buffer, so there is no line. -/
theorem grep_empty (commands : Commands σ) {sh : Shell σ} (hinput : sh.pipeInputAvailable = true)
    (hbuffer : sh.pipeBuffer = fun _ => 0) {arg : CString} (harg : arg.bytes ≠ []) :
    sh.grep commands arg = some sh := by
  have hline : (stringAt sh.pipeBuffer 0).bytes = [] := by
    refine stringAt_eq (fun i hi => absurd hi (Nat.not_lt_zero i)) List.not_mem_nil ?_ (by decide)
    rw [hbuffer]
  have hnone : ¬ (kStrstr [] arg.bytes).isSome = true := fun h =>
    harg (List.infix_nil.mp ((kStrstr_isSome ..).mp h))
  rw [grep, if_pos (List.length_pos_of_ne_nil harg), if_pos hinput, whileLoop]
  dsimp only
  rw [hbuffer, if_neg (by decide), Option.bind_some, grepLine]
  dsimp only
  rw [hline, if_neg hnone]

end Shell

/-! ### Command lines -/

theorem ext_bytes {s t : CString} (h : s.bytes = t.bytes) : s = t := by
  cases s
  cases t
  subst h
  rfl

theorem zero_ne_blank : 0#8 ≠ blank := by decide

/-- A command and the blank in front of `|`. -/
def spaced (c : CString) : CString := c.append (.ofChar blank zero_ne_blank)

def grepWord : CString := ⟨chars "grep ", by decide⟩

def grepCommand (p : CString) : CString := grepWord.append p

def pipeWord : CString := ⟨chars " | ", by decide⟩

/-- `c | grep p1 | … | grep pk` -/
def pipeline (c : CString) : List CString → CString
  | [] => c
  | p :: ps => (c.append pipeWord).append (pipeline (grepCommand p) ps)

/-- A pattern that `grep` gets as a whole. -/
structure Plain (p : CString) : Prop where
  nonempty : p.bytes ≠ []
  noBar : bar ∉ p.bytes
  noGreater : greater ∉ p.bytes

/-- The arguments of the calls of `grep` fit; in front of another `|` there is a blank. -/
def argsFit : CString → List CString → Bool
  | p, [] => p.fits 128
  | p, q :: qs => (spaced p).fits 128 && argsFit q qs

theorem spaced_grepCommand (p : CString) : spaced (grepCommand p) = grepCommand (spaced p) :=
  ext_bytes (List.append_assoc ..)

theorem strchr_append {s : CString} {c : U8} {left right : List U8} (h : s.bytes = left ++ c :: right)
    (hleft : c ∉ left) : strchr s c = some left.length := by
  rw [strchr, h, List.findIdx?_append, List.findIdx?_eq_none_iff.mpr, Option.none_or]
  · rw [List.findIdx?_cons, decide_eq_true rfl, if_pos rfl, Option.map_some, Nat.zero_add]
  · intro b hb
    exact decide_eq_false fun hbc => hleft (hbc ▸ hb)

theorem strchr_none {s : CString} {c : U8} (h : c ∉ s.bytes) : strchr s c = none := by
  rw [strchr, List.findIdx?_eq_none_iff]
  intro b hb
  exact decide_eq_false fun hbc => h (hbc ▸ hb)

theorem kStrstr_none {haystack : List U8} {c : U8} (h : c ∉ haystack) (rest : List U8) :
    kStrstr haystack (c :: rest) = none := by
  rw [← Option.not_isSome_iff_eq_none, kStrstr_isSome]
  exact fun hfound => h (hfound.subset (List.mem_cons_self ..))

theorem fits_of_le {s t : CString} {n : ℕ} (h : s.fits n = true)
    (hle : t.bytes.length ≤ s.bytes.length) : t.fits n = true :=
  decide_eq_true (Nat.lt_of_le_of_lt hle (of_decide_eq_true h))

theorem pipeline_head (p : CString) (ps : List CString) :
    ∃ rest, (pipeline (grepCommand p) ps).bytes = chars "grep " ++ rest := by
  cases ps with
  | nil => exact ⟨p.bytes, rfl⟩
  | cons q qs => exact ⟨_, by rw [pipeline]; exact List.append_assoc .. |>.trans (List.append_assoc ..)⟩

namespace Shell

theorem words_grepCommand (p : CString) :
    words (grepCommand p) = if p.fits 128 then some (grepName, p) else none := by
  have hbytes : (grepCommand p).bytes = chars "grep" ++ blank :: p.bytes := rfl
  have htake : take (grepCommand p) (chars "grep").length = grepName := ext_bytes rfl
  have hdrop : (grepCommand p).drop ((chars "grep").length + 1) = p := ext_bytes rfl
  rw [words, strchr_append hbytes (by decide)]
  dsimp only
  rw [htake, hdrop, show grepName.fits 128 = true from rfl, Bool.true_and]

theorem redirection_none {c : CString} (h : greater ∉ c.bytes) : redirection c = (c, none) := by
  rw [redirection, kStrstr_none h, strchr_none h]

theorem execute_simple (commands : Commands σ) (fuel : ℕ) (sh : Shell σ) {c : CString}
    (hfits : c.fits 256 = true) (hbar : bar ∉ c.bytes) (hgreater : greater ∉ c.bytes) :
    execute commands (fuel + 1) sh c = (words c).bind fun w =>
      (if w.1 = grepName then sh.grep commands w.2
        else runScript commands (commands.run c w.1 w.2 sh.world) sh).map fun sh =>
          { sh with redirOut := false } := by
  rw [execute, hfits, Bool.not_true, if_neg Bool.false_ne_true, strchr_none hbar]
  dsimp only
  rw [executeSimple, redirection_none hgreater]
  rfl

theorem execute_pipe (commands : Commands σ) (fuel : ℕ) (sh : Shell σ) {c p : CString}
    {ps : List CString} (hfits : (pipeline c (p :: ps)).fits 256 = true) (hbar : bar ∉ c.bytes) :
    execute commands (fuel + 1) sh (pipeline c (p :: ps)) =
      (execute commands fuel
        { sh with pipeActive := true, pipeCursor := 0, pipeBuffer := fun _ => 0 } (spaced c)).bind
          fun sh => (execute commands fuel
            { sh with pipeActive := false, pipeInputAvailable := true }
            (pipeline (grepCommand p) ps)).map fun sh => { sh with pipeInputAvailable := false } := by
  obtain ⟨rest, hrest⟩ := pipeline_head p ps
  have hbytes : (pipeline c (p :: ps)).bytes =
      (spaced c).bytes ++ bar :: blank :: (pipeline (grepCommand p) ps).bytes := by
    rw [pipeline]
    exact (congrArg (· ++ _) (List.append_assoc c.bytes [blank] [bar, blank]).symm).trans
      (List.append_assoc ..)
  have hspaced : bar ∉ (spaced c).bytes := by
    intro hmem
    rcases List.mem_append.mp hmem with hmem | hmem
    · exact hbar hmem
    · exact absurd (List.mem_singleton.mp hmem) (by decide)
  have htake : take (pipeline c (p :: ps)) (spaced c).bytes.length = spaced c := by
    refine ext_bytes ?_
    change (pipeline c (p :: ps)).bytes.take _ = _
    rw [hbytes, List.take_left]
  have hdrop : skipBlanks ((pipeline c (p :: ps)).drop ((spaced c).bytes.length + 1)) =
      pipeline (grepCommand p) ps := by
    refine ext_bytes ?_
    change ((pipeline c (p :: ps)).bytes.drop _).dropWhile _ = _
    rw [hbytes, List.drop_length_add_append, hrest]
    rfl
  rw [execute, hfits, Bool.not_true, if_neg Bool.false_ne_true, strchr_append hbytes hspaced]
  dsimp only
  rw [htake, hdrop]

end Shell

theorem not_mem_spaced {c : CString} {b : U8} (h : b ∉ c.bytes) (hb : b ≠ blank) :
    b ∉ (spaced c).bytes := by
  intro hmem
  rcases List.mem_append.mp hmem with hmem | hmem
  · exact h hmem
  · exact hb (List.mem_singleton.mp hmem)

theorem not_mem_grepCommand {p : CString} {b : U8} (h : b ∉ p.bytes) (hb : b ∉ chars "grep ") :
    b ∉ (grepCommand p).bytes := fun hmem => (List.mem_append.mp hmem).elim hb h

theorem Plain.spaced {p : CString} (h : Plain p) : Plain (spaced p) where
  nonempty := List.append_ne_nil_of_left_ne_nil h.nonempty _
  noBar := not_mem_spaced h.noBar (by decide)
  noGreater := not_mem_spaced h.noGreater (by decide)

theorem length_pipeline (c p : CString) (ps : List CString) :
    (pipeline c (p :: ps)).bytes.length =
      c.bytes.length + 3 + (pipeline (grepCommand p) ps).bytes.length := by
  rw [pipeline]
  exact (List.length_append ..).trans (congrArg (· + _) (List.length_append ..))

theorem length_le_pipeline (c : CString) (ps : List CString) :
    ps.length ≤ (pipeline c ps).bytes.length := by
  induction ps generalizing c with
  | nil => exact Nat.zero_le _
  | cons p ps ih =>
    have hrest := ih (grepCommand p)
    rw [length_pipeline, List.length_cons]
    omega

/-- The parts of a pipeline fit when it does. -/
theorem fits_pipeline {c p : CString} {ps : List CString}
    (h : (pipeline c (p :: ps)).fits 256 = true) :
    (spaced c).fits 256 = true ∧ (pipeline (grepCommand p) ps).fits 256 = true := by
  have hlength := length_pipeline c p ps
  have hspaced : (spaced c).bytes.length = c.bytes.length + 1 := List.length_append
  exact ⟨fits_of_le h (by omega), fits_of_le h (by omega)⟩

theorem fits_command {c p : CString} {ps : List CString}
    (h : (pipeline c (p :: ps)).fits 256 = true) : c.fits 256 = true := by
  refine fits_of_le h ?_
  rw [length_pipeline]
  omega

namespace Shell

theorem execute_grep (commands : Commands σ) (fuel : ℕ) (sh : Shell σ) {p : CString}
    (hfits : (grepCommand p).fits 256 = true) (hplain : Plain p) :
    execute commands (fuel + 1) sh (grepCommand p) =
      if p.fits 128 then (sh.grep commands p).map fun sh => { sh with redirOut := false }
      else none := by
  rw [execute_simple commands fuel sh hfits (not_mem_grepCommand hplain.noBar (by decide))
    (not_mem_grepCommand hplain.noGreater (by decide)), words_grepCommand]
  split
  · rw [Option.bind_some, if_pos rfl]
  · rfl

/-- **From the first `grep` on nothing is printed** when there is another one, which clears the
buffer, or nothing is in the buffer. -/
theorem execute_stages (commands : Commands σ) {p : CString} {ps : List CString} {fuel : ℕ}
    (hplain : ∀ q ∈ p :: ps, Plain q) (hfuel : ps.length < fuel)
    (hfits : (pipeline (grepCommand p) ps).fits 256 = true) {sh : Shell σ}
    (hinput : sh.pipeInputAvailable = true) (hbuffer : ps = [] → sh.pipeBuffer = fun _ => 0) :
    (execute commands fuel sh (pipeline (grepCommand p) ps)).map screen =
      if argsFit p ps then some sh.screen else none := by
  induction ps generalizing p sh fuel with
  | nil =>
    obtain ⟨fuel, rfl⟩ := Nat.exists_eq_add_of_lt hfuel
    have hp := hplain p (List.mem_cons_self ..)
    rw [pipeline] at hfits ⊢
    rw [execute_grep commands _ sh hfits hp, grep_empty commands hinput (hbuffer rfl) hp.nonempty,
      argsFit]
    split <;> rfl
  | cons q qs ih =>
    obtain ⟨fuel, rfl⟩ := Nat.exists_eq_add_of_lt hfuel
    have hp := hplain p (List.mem_cons_self ..)
    obtain ⟨hleft, hright⟩ := fits_pipeline hfits
    rw [execute_pipe commands _ sh hfits (not_mem_grepCommand hp.noBar (by decide))]
    rw [spaced_grepCommand] at hleft ⊢
    rw [List.length_cons, show qs.length + 1 + fuel = (qs.length + fuel) + 1 by omega,
      execute_grep commands _ _ hleft hp.spaced]
    by_cases harg : (spaced p).fits 128 = true
    · rw [if_pos harg, grep_empty commands (by exact hinput) (by rfl) hp.spaced.nonempty,
        Option.map_some, Option.bind_some, Option.map_map]
      have hcleared : ({ sh with
          pipeActive := false, pipeCursor := 0, pipeBuffer := fun _ => 0, redirOut := false
          pipeInputAvailable := true } : Shell σ).pipeInputAvailable = true := rfl
      have hfuel' : qs.length < qs.length + fuel + 1 := by omega
      have hih := ih (fun r hr => hplain r (List.mem_cons_of_mem _ hr)) hfuel' hright hcleared
        fun _ => rfl
      rw [argsFit, harg, Bool.true_and]
      exact hih
    · rw [if_neg harg, argsFit, Bool.eq_false_of_not_eq_true harg]
      rfl

theorem execute_command (commands : Commands σ) (fuel : ℕ) {sh : Shell σ}
    (hinput : sh.pipeInputAvailable = false) {c : CString} (hfits : c.fits 256 = true)
    (hbar : bar ∉ c.bytes) (hgreater : greater ∉ c.bytes) :
    execute commands (fuel + 1) sh c =
      (runScript commands (commandScript commands c sh.world) sh).map fun sh =>
        { sh with redirOut := false } := by
  rw [execute_simple commands fuel sh hfits hbar hgreater, commandScript]
  cases words c with
  | none => rfl
  | some w =>
    obtain ⟨cmd, arg⟩ := w
    rw [Option.bind_some]
    dsimp only
    by_cases hgrep : cmd = grepName
    · -- `grep` only says how it is used
      have husage : ∀ text, runScript commands (.kprintAll [text] sh.world) sh =
          sh.kprint commands text := fun text => Option.bind_fun_some ..
      rw [if_pos hgrep, if_pos hgrep, husage, grep, hinput, if_neg Bool.false_ne_true]
      split <;> rfl
    · rw [if_neg hgrep, if_neg hgrep]

/-- A shell that shows its prompt. -/
structure Idle (sh : Shell σ) : Prop where
  toScreen : sh.ToScreen
  noInput : sh.pipeInputAvailable = false

/-- `c | grep p1 | … | grep pk` prints the lines of what `c` prints that contain all the
patterns. -/
def Prints (commands : Commands σ) (sh : Shell σ) (c : CString) (ps : List CString) : Prop :=
  ∃ t u out, sh.executeCommand commands c = some t ∧
    sh.executeCommand commands (pipeline c ps) = some u ∧
    t.screen = sh.screen ++ out ∧ u.screen = sh.screen ++ matching ps out

/-- What the command and the command with a blank behind it write: what is drawn, and with one
pattern the lines that come out of the pipe, are the lines that were asked for. -/
structure PipelineRight (commands : Commands σ) (s : σ) (c p : CString) (ps : List CString) :
    Prop where
  command : (commandScript commands c s).final ≠ none
  left : (commandScript commands (spaced c) s).final ≠ none
  args : argsFit p ps = true
  lines : (commandScript commands (spaced c) s).drawn ++
      (if ps = [] then matching [p] (commandScript commands (spaced c) s).kprinted else []) =
    matching (p :: ps) (commandScript commands c s).output

section

variable {commands : Commands σ} {sh : Shell σ} {c p : CString} {ps : List CString}

theorem executeCommand_screen (h : sh.Idle) (hfits : c.fits 256 = true) (hbar : bar ∉ c.bytes)
    (hgreater : greater ∉ c.bytes) :
    (sh.executeCommand commands c).map screen =
      (commandScript commands c sh.world).final.map fun _ =>
        sh.screen ++ (commandScript commands c sh.world).output := by
  rw [executeCommand, execute_command commands _ h.noInput hfits hbar hgreater,
    runScript_screen commands _ h.toScreen, Option.map_map, Option.map_map]
  rfl

theorem executeCommand_pipeline (hbar : bar ∉ c.bytes)
    (hgreater : greater ∉ c.bytes) (hplain : ∀ q ∈ p :: ps, Plain q) (h : sh.Idle)
    (hfits : (pipeline c (p :: ps)).fits 256 = true)
    (hsize : (commandScript commands (spaced c) sh.world).kprinted.length < 4095) :
    (sh.executeCommand commands (pipeline c (p :: ps))).map screen =
      (commandScript commands (spaced c) sh.world).final.bind fun _ =>
        if argsFit p ps then
          some (sh.screen ++ ((commandScript commands (spaced c) sh.world).drawn ++
            if ps = [] then matching [p] (commandScript commands (spaced c) sh.world).kprinted
            else []))
        else none := by
  obtain ⟨hleft, hright⟩ := fits_pipeline hfits
  have hpositive : 0 < (pipeline c (p :: ps)).bytes.length := by
    rw [length_pipeline]
    omega
  obtain ⟨fuel, hfuel⟩ := Nat.exists_eq_add_one_of_ne_zero hpositive.ne'
  set script := commandScript commands (spaced c) sh.world with hscript
  -- the command writes into the pipe
  have hrun : execute commands (fuel + 1)
      { sh with pipeActive := true, pipeCursor := 0, pipeBuffer := fun _ => 0 } (spaced c) =
      script.final.map fun s =>
        { { sh with screen := sh.screen ++ script.drawn, world := s }.piping script.kprinted with
          redirOut := false } := by
    have hempty : ([] : List U8).length + script.kprinted.length < 4095 := by
      rw [List.length_nil, Nat.zero_add]
      exact hsize
    have hpiping := runScript_pipe commands script sh hempty
    rw [execute_command commands fuel (by exact h.noInput) hleft
      (not_mem_spaced hbar (by decide)) (not_mem_spaced hgreater (by decide))]
    exact (congrArg _ hpiping).trans (Option.map_map ..)
  rw [executeCommand, hfuel, execute_pipe commands _ sh hfits hbar, hrun]
  cases script.final with
  | none => rfl
  | some s =>
    rw [Option.map_some, Option.bind_some, Option.bind_some, Option.map_map]
    by_cases hps : ps = []
    · subst hps
      have hp := hplain p (List.mem_cons_self ..)
      rw [pipeline] at hright ⊢
      rw [execute_grep commands _ _ hright hp, if_pos rfl, argsFit]
      split
      · have hscreen : ({ sh with
            redirOut := false, pipeActive := false, pipeBuffer := bufferOf script.kprinted
            pipeCursor := script.kprinted.length, pipeInputAvailable := true
            screen := sh.screen ++ script.drawn, world := s } : Shell σ).ToScreen := ⟨rfl, rfl⟩
        have hgrep := grep_spec commands hscreen rfl rfl script.noNul_kprinted
          (Nat.lt_succ_of_lt hsize) hp.nonempty
        rw [← List.append_assoc]
        exact congrArg (Option.map _) (congrArg (Option.map _) hgrep)
      · rfl
    · have hinput : ({ sh with
          redirOut := false, pipeActive := false, pipeBuffer := bufferOf script.kprinted
          pipeCursor := script.kprinted.length, pipeInputAvailable := true
          screen := sh.screen ++ script.drawn, world := s } : Shell σ).pipeInputAvailable = true :=
        rfl
      have hstages := execute_stages commands hplain
        (hfuel ▸ length_le_pipeline c (p :: ps)) hright hinput (fun h => absurd h hps)
      rw [if_neg hps, List.append_nil]
      exact hstages

theorem right_of_prints (hbar : bar ∉ c.bytes) (hgreater : greater ∉ c.bytes)
    (hplain : ∀ q ∈ p :: ps, Plain q) (h : sh.Idle)
    (hfits : (pipeline c (p :: ps)).fits 256 = true)
    (hsize : (commandScript commands (spaced c) sh.world).kprinted.length < 4095)
    (hprints : Prints commands sh c (p :: ps)) : PipelineRight commands sh.world c p ps := by
  have hdirect := @executeCommand_screen _ commands _ _ h (fits_command hfits) hbar hgreater
  have hpipe := executeCommand_pipeline hbar hgreater hplain h hfits hsize
  obtain ⟨t, u, out, ht, hu, hout, hmatching⟩ := hprints
  rw [ht, Option.map_some, eq_comm, Option.map_eq_some_iff] at hdirect
  obtain ⟨s, hs, hscreen⟩ := hdirect
  rw [hu, Option.map_some, eq_comm, Option.bind_eq_some_iff] at hpipe
  obtain ⟨s', hs', hfinal⟩ := hpipe
  obtain rfl : (commandScript commands c sh.world).output = out :=
    List.append_cancel_left (hscreen.trans hout)
  by_cases hargs : argsFit p ps = true
  · rw [if_pos hargs, Option.some_inj, hmatching] at hfinal
    exact ⟨hs ▸ Option.some_ne_none s, hs' ▸ Option.some_ne_none s', hargs,
      List.append_cancel_left hfinal⟩
  · rw [if_neg hargs] at hfinal
    exact absurd hfinal.symm (Option.some_ne_none _)

theorem prints_of_right (hbar : bar ∉ c.bytes) (hgreater : greater ∉ c.bytes)
    (hplain : ∀ q ∈ p :: ps, Plain q) (h : sh.Idle)
    (hfits : (pipeline c (p :: ps)).fits 256 = true)
    (hsize : (commandScript commands (spaced c) sh.world).kprinted.length < 4095)
    (hright : PipelineRight commands sh.world c p ps) : Prints commands sh c (p :: ps) := by
  have hdirect := @executeCommand_screen _ commands _ _ h (fits_command hfits) hbar hgreater
  have hpipe := executeCommand_pipeline hbar hgreater hplain h hfits hsize
  obtain ⟨s, hs⟩ := Option.ne_none_iff_exists'.mp hright.command
  obtain ⟨s', hs'⟩ := Option.ne_none_iff_exists'.mp hright.left
  rw [hs, Option.map_some, Option.map_eq_some_iff] at hdirect
  obtain ⟨t, ht, htscreen⟩ := hdirect
  rw [hs', Option.bind_some, if_pos hright.args, hright.lines, Option.map_eq_some_iff] at hpipe
  obtain ⟨u, hu, huscreen⟩ := hpipe
  exact ⟨t, u, _, ht, hu, htscreen, huscreen⟩

/-- **When a pipeline of `grep`s is right**: with one pattern, when the blank in front of `|`
leaves the lines with the pattern as they are; with more, when there is no line to print. -/
theorem prints_iff (hbar : bar ∉ c.bytes) (hgreater : greater ∉ c.bytes)
    (hplain : ∀ q ∈ p :: ps, Plain q) (h : sh.Idle)
    (hfits : (pipeline c (p :: ps)).fits 256 = true)
    (hsize : (commandScript commands (spaced c) sh.world).kprinted.length < 4095) :
    Prints commands sh c (p :: ps) ↔ PipelineRight commands sh.world c p ps :=
  ⟨right_of_prints hbar hgreater hplain h hfits hsize,
    prints_of_right hbar hgreater hplain h hfits hsize⟩

theorem words_spaced (h : blank ∉ c.bytes) : words (spaced c) = words c := by
  have hspaced : (spaced c).bytes = c.bytes ++ blank :: [] := rfl
  have htake : take (spaced c) c.bytes.length = c := by
    refine ext_bytes ?_
    change (c.bytes ++ [blank]).take c.bytes.length = c.bytes
    exact List.take_left
  have hdrop : (spaced c).drop (c.bytes.length + 1) = .empty := by
    refine ext_bytes ?_
    change (c.bytes ++ [blank]).drop (c.bytes.length + 1) = []
    exact List.drop_length_add_append ..
  rw [words, words, strchr_append hspaced h, strchr_none h]
  dsimp only
  rw [htake, hdrop]

/-- **One pattern, no argument.**  For a command without an argument that does not look at the
line, the blank makes no difference, and what it writes with `kprint` comes through the pipe. -/
theorem prints_of_noArgument (hblank : blank ∉ c.bytes) (hbar : bar ∉ c.bytes)
    (hgreater : greater ∉ c.bytes) (hplain : Plain p) (h : sh.Idle)
    (hfits : (pipeline c [p]).fits 256 = true) (harg : p.fits 128 = true)
    (hline : commands.run (spaced c) = commands.run c)
    (hfinal : (commandScript commands c sh.world).final ≠ none)
    (hdrawn : (commandScript commands c sh.world).drawn = [])
    (hsize : (commandScript commands c sh.world).kprinted.length < 4095) :
    Prints commands sh c [p] := by
  have hsame : commandScript commands (spaced c) sh.world = commandScript commands c sh.world := by
    rw [commandScript, commandScript, words_spaced hblank, hline]
  have hplain' : ∀ q ∈ [p], Plain q := fun q hq => List.mem_singleton.mp hq ▸ hplain
  rw [← hsame] at hsize
  refine prints_of_right hbar hgreater hplain' h hfits hsize
    ⟨hfinal, hsame ▸ hfinal, harg, ?_⟩
  rw [hsame, hdrawn, if_pos rfl, List.nil_append, Script.output_of_drawn hdrawn]

/-- **Two patterns.**  With more than one `grep` only what the command draws is printed. -/
theorem prints_nothing (hbar : bar ∉ c.bytes) (hgreater : greater ∉ c.bytes)
    (hplain : ∀ q ∈ p :: ps, Plain q) (h : sh.Idle)
    (hfits : (pipeline c (p :: ps)).fits 256 = true)
    (hsize : (commandScript commands (spaced c) sh.world).kprinted.length < 4095) (hps : ps ≠ [])
    {u : Shell σ} (hu : sh.executeCommand commands (pipeline c (p :: ps)) = some u) :
    u.screen = sh.screen ++ (commandScript commands (spaced c) sh.world).drawn := by
  have hpipe := executeCommand_pipeline hbar hgreater hplain h hfits hsize
  rw [hu, Option.map_some, if_neg hps, List.append_nil, eq_comm, Option.bind_eq_some_iff] at hpipe
  obtain ⟨s, -, hs⟩ := hpipe
  split at hs
  · exact (Option.some_inj.mp hs).symm
  · exact absurd hs.symm (Option.some_ne_none _)

end

/-! ### The flags at the prompt -/

/-- The flags of the pipe and of `>` are the same. -/
structure SameFlags (sh u : Shell σ) : Prop where
  pipeActive : u.pipeActive = sh.pipeActive
  pipeInputAvailable : u.pipeInputAvailable = sh.pipeInputAvailable

theorem SameFlags.trans {sh u v : Shell σ} (h : SameFlags sh u) (h' : SameFlags u v) :
    SameFlags sh v :=
  ⟨h'.pipeActive.trans h.pipeActive, h'.pipeInputAvailable.trans h.pipeInputAvailable⟩

variable {commands : Commands σ} {sh u : Shell σ}

theorem sameFlags_kprint {text : CString} (h : sh.kprint commands text = some u) :
    SameFlags sh u := by
  rw [Shell.kprint] at h
  dsimp only at h
  split at h
  · split at h
    · exact Option.some_inj.mp h ▸ ⟨rfl, rfl⟩
    · exact Option.some_inj.mp h ▸ ⟨rfl, rfl⟩
  · split at h
    · obtain ⟨world, -, rfl⟩ := Option.map_eq_some_iff.mp h
      exact ⟨rfl, rfl⟩
    · exact Option.some_inj.mp h ▸ ⟨rfl, rfl⟩

theorem sameFlags_runScript {script : Script σ} (h : runScript commands script sh = some u) :
    SameFlags sh u := by
  induction script generalizing sh with
  | done s => exact Option.some_inj.mp h ▸ ⟨rfl, rfl⟩
  | fault => exact absurd h (Option.some_ne_none u).symm
  | kprint text s next ih =>
    obtain ⟨v, hv, hrest⟩ := Option.bind_eq_some_iff.mp h
    have hkprint := sameFlags_kprint hv
    exact SameFlags.trans ⟨hkprint.1, hkprint.2⟩ (ih _ hrest)
  | vga text s next ih =>
    have hrest := ih _ h
    exact ⟨hrest.1, hrest.2⟩

theorem sameFlags_grepLine {arg : CString} {lineStart : ℕ}
    (h : grepLine commands arg sh lineStart = some u) : SameFlags sh u := by
  rw [grepLine] at h
  split at h
  · obtain ⟨v, hv, hrest⟩ := Option.bind_eq_some_iff.mp h
    exact (sameFlags_kprint hv).trans (sameFlags_kprint hrest)
  · exact Option.some_inj.mp h ▸ ⟨rfl, rfl⟩

theorem sameFlags_grep {arg : CString} (h : sh.grep commands arg = some u) : SameFlags sh u := by
  rw [grep] at h
  split at h
  · split at h
    · obtain ⟨v, hv, hlast⟩ := Option.bind_eq_some_iff.mp h
      have hloop : SameFlags sh v.shell := by
        refine whileLoop_keeps _ _ (fun v => SameFlags sh v.shell) ?_ _ ⟨rfl, rfl⟩ hv
        intro v v' hinv hbody
        rw [GrepLoop.body] at hbody
        split at hbody
        · obtain ⟨w, hw, rfl⟩ := Option.map_eq_some_iff.mp hbody
          have hline := sameFlags_grepLine hw
          exact hinv.trans ⟨hline.1, hline.2⟩
        · exact Option.some_inj.mp hbody ▸ hinv
      exact hloop.trans (sameFlags_grepLine hlast)
    · exact sameFlags_kprint h
  · exact sameFlags_kprint h

theorem sameFlags_redirect {file : Option (Bool × CString)}
    (h : sh.redirect commands file = some u) : SameFlags sh u := by
  cases file with
  | none => exact Option.some_inj.mp h ▸ ⟨rfl, rfl⟩
  | some target =>
    obtain ⟨appendMode, file⟩ := target
    rw [redirect] at h
    dsimp only at h
    split at h
    · exact Option.some_inj.mp h ▸ ⟨rfl, rfl⟩
    split at h
    · exact absurd h (Option.some_ne_none u).symm
    split at h
    · exact Option.some_inj.mp h ▸ ⟨rfl, rfl⟩
    · obtain ⟨world, -, rfl⟩ := Option.map_eq_some_iff.mp h
      exact ⟨rfl, rfl⟩

theorem sameFlags_executeSimple {c : CString} (h : sh.executeSimple commands c = some u) :
    SameFlags sh u ∧ u.redirOut = false := by
  rw [executeSimple] at h
  obtain ⟨v, hv, h⟩ := Option.bind_eq_some_iff.mp h
  obtain ⟨⟨cmd, arg⟩, -, h⟩ := Option.bind_eq_some_iff.mp h
  obtain ⟨w, hw, rfl⟩ := Option.map_eq_some_iff.mp h
  have hrun : SameFlags v w := by
    split at hw
    · exact sameFlags_grep hw
    · exact sameFlags_runScript hw
  have hall := (sameFlags_redirect hv).trans hrun
  exact ⟨⟨hall.1, hall.2⟩, rfl⟩

theorem execute_flags {fuel : ℕ} {c : CString} (h : execute commands fuel sh c = some u) :
    u.redirOut = false ∧ (sh.pipeActive = false → u.pipeActive = false) ∧
      (sh.pipeInputAvailable = false → u.pipeInputAvailable = false) := by
  induction fuel generalizing sh c u with
  | zero => exact absurd h (Option.some_ne_none u).symm
  | succ fuel ih =>
    rw [execute] at h
    split at h
    · exact absurd h (Option.some_ne_none u).symm
    split at h
    · obtain ⟨v, -, hright⟩ := Option.bind_eq_some_iff.mp h
      obtain ⟨w, hw, rfl⟩ := Option.map_eq_some_iff.mp hright
      have hright := ih hw
      exact ⟨hright.1, fun _ => hright.2.1 rfl, fun _ => rfl⟩
    · obtain ⟨hsame, hredir⟩ := sameFlags_executeSimple h
      exact ⟨hredir, hsame.pipeActive.trans, hsame.pipeInputAvailable.trans⟩

/-- **At every prompt the flags are down.** -/
theorem idle_of_run {cs : List CString} (h : sh.Idle)
    (hrun : run (executeCommand commands) sh cs = some u) : u.Idle := by
  refine run_keeps (fun _ _ _ hidle hstep => ?_) h hrun
  obtain ⟨hredir, hactive, hinput⟩ := execute_flags hstep
  exact ⟨⟨hactive hidle.toScreen.1, hredir⟩, hinput hidle.noInput⟩

/-! ### `echo` -/

def echoName : CString := ⟨chars "echo", by decide⟩

def newlineText : CString := ⟨[newline], by decide⟩

def unknownCommand : CString := ⟨chars "Unknown command: ", by decide⟩

/-- The branch of `echo` and the last one, without the others. -/
def echoOnly : Commands Unit where
  run command cmd arg s :=
    if cmd = echoName then .kprintAll [arg, newlineText] s
    else if command.bytes.length = 0 then .done s
    else .kprintAll [unknownCommand, command, newlineText] s
  truncate _ s := some s
  kprintFile _ _ s := some s

/-- The shell as it starts. -/
def start (s : σ) : Shell σ :=
  { redirOut := false, redirFile := .empty, pipeActive := false, pipeBuffer := fun _ => 0
    pipeCursor := 0, pipeInputAvailable := false, screen := [], world := s }

theorem idle_start (s : σ) : (start s).Idle := ⟨⟨rfl, rfl⟩, rfl⟩

def echoA : CString := ⟨chars "echo a", by decide⟩

def letterA : CString := ⟨chars "a", by decide⟩

def letterB : CString := ⟨chars "b", by decide⟩

theorem plain_letterA : Plain letterA := ⟨by decide, by decide, by decide⟩

theorem plain_letterB : Plain letterB := ⟨by decide, by decide, by decide⟩

/-- **The blank in front of `|`.**  `echo a | grep a` prints the line with a blank at its end. -/
theorem echo_not_prints :
    ¬ ∀ (commands : Commands Unit) (sh : Shell Unit) (c : CString) (ps : List CString), sh.Idle →
      bar ∉ c.bytes → greater ∉ c.bytes → ps ≠ [] →
      (∀ p ∈ ps, Plain p ∧ blank ∉ p.bytes) → (pipeline c ps).fits 256 = true →
      (commandScript commands (spaced c) sh.world).kprinted.length < 4095 →
      Prints commands sh c ps := by
  intro h
  obtain ⟨t, u, out, ht, hu, hout, hmatching⟩ := h echoOnly (start ()) echoA [letterA]
    (idle_start ()) (by decide) (by decide) (List.cons_ne_nil _ _)
    (fun p hp => List.mem_singleton.mp hp ▸ ⟨plain_letterA, by decide⟩) (by decide) (by decide)
  have hdirect : ((start ()).executeCommand echoOnly echoA).map screen =
      some (chars "a\n") := by
    decide +kernel
  have hpipe : ((start ()).executeCommand echoOnly (pipeline echoA [letterA])).map screen =
      some (chars "a \n") := by
    decide +kernel
  rw [ht, Option.map_some, Option.some_inj] at hdirect
  rw [hu, Option.map_some, Option.some_inj, hmatching] at hpipe
  obtain rfl : out = chars "a\n" := hout.symm.trans hdirect
  exact absurd hpipe (by decide)

/-- `echo a | grep b` -/
theorem prints_iff_echo : Prints echoOnly (start ()) echoA [letterB] :=
  (prints_iff (by decide) (by decide) (fun p hp => List.mem_singleton.mp hp ▸ plain_letterB)
    (idle_start ()) (by decide) (by decide)).mpr ⟨by decide, by decide, rfl, by decide⟩

end Shell

end MesaOS.System
