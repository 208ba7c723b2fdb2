/-
Colours from escape sequences (`drivers/vga.cpp`).

`put_char` collects `ESC [ p1 ; ... ; pk m` in a buffer, and `set_color_from_ansi` takes every
parameter in turn.  It sets both components of the colour each time, so that only the
last parameter counts.

* `run_sgr` — one sequence through the collector, the parser and the table of colours;
* `sgr_iff` — when the parameters have the effect that each of them is for.
-/
import Mathlib.Data.List.Basic
import MesaOS.VGA

open MachineWord Runs CheckedArray MesaOS.System

namespace MesaOS.Drivers.VGADriver

variable {v v' : VGADriver}

/-! ### Sequences -/

/-- A parameter in decimal digits. -/
structure Parameter where
  digits : List (Fin 10)
  nonempty : digits ≠ []

def Parameter.value (p : Parameter) : ℕ := p.digits.foldl (fun n (d : Fin 10) => n * 10 + d) 0

def digitChar (d : Fin 10) : U8 := 0x30 + BitVec.ofNat 8 d

def Parameter.chars (p : Parameter) : List U8 := p.digits.map digitChar

/-- What stands between the bracket and the `m`. -/
def parameterChars (ps : List Parameter) : List U8 :=
  List.intercalate [0x3B] (ps.map Parameter.chars)

/-- `ESC [ p1 ; ... ; pk m` -/
def sgr (ps : List Parameter) : List U8 := escape :: 0x5B :: (parameterChars ps ++ [0x6D])

theorem parameterChars_singleton (p : Parameter) : parameterChars [p] = p.chars := by
  rw [parameterChars, List.map_singleton, List.intercalate_singleton]

theorem parameterChars_cons_cons (p q : Parameter) (ps : List Parameter) :
    parameterChars (p :: q :: ps) = p.chars ++ 0x3B :: parameterChars (q :: ps) := by
  rw [parameterChars, List.map_cons, List.map_cons, List.intercalate_cons_cons]
  simp [parameterChars]

/-- Between the bracket and the `m` stand digits and semicolons. -/
theorem mem_parameterChars {ps : List Parameter} {c : U8} (h : c ∈ parameterChars ps) :
    c = 0x3B ∨ ∃ d, c = digitChar d := by
  have hdigits : ∀ p : Parameter, c ∈ p.chars → c = 0x3B ∨ ∃ d, c = digitChar d := by
    intro p hp
    obtain ⟨d, -, hd⟩ := List.mem_map.mp hp
    exact .inr ⟨d, hd.symm⟩
  induction ps with
  | nil => exact absurd h List.not_mem_nil
  | cons p ps ih =>
    cases ps with
    | nil =>
      rw [parameterChars_singleton] at h
      exact hdigits p h
    | cons q ps =>
      rw [parameterChars_cons_cons, List.mem_append, List.mem_cons] at h
      rcases h with hp | hc | hrest
      · exact hdigits p hp
      · exact .inl hc
      · exact ih hrest

/-- The sequence is over before `put_char` gives it up. -/
def Fits (ps : List Parameter) : Prop := (sgr ps).length < 15

instance (ps : List Parameter) : Decidable (Fits ps) := inferInstanceAs (Decidable (_ < _))

/-! ### The parser -/

/-- The body of the loop in `process_ansi_sequence`, for the character it reads. -/
def AnsiLoop.read (l : AnsiLoop) (c : U8) : AnsiLoop :=
  if 0x30#8 ≤ c ∧ c ≤ 0x39#8 then
    { l with code := l.code * 10 + (c - 0x30).setWidth 32, parsing := true }
  else if c = 0x3B then
    { driver := l.driver.setColorFromAnsi l.code, code := 0, parsing := false }
  else l

/-- The end of `process_ansi_sequence`. -/
def AnsiLoop.finish (l : AnsiLoop) : VGADriver :=
  if l.parsing then l.driver.setColorFromAnsi l.code else l.driver

theorem AnsiLoop.body_eq (sequence : Fin 16 → U8) (k : ℕ) (l : AnsiLoop) :
    AnsiLoop.body sequence k l = (load sequence (k + 2)).map l.read := rfl

theorem AnsiLoop.read_digit (l : AnsiLoop) (d : Fin 10) :
    l.read (digitChar d) = { l with code := l.code * 10 + BitVec.ofNat 32 d, parsing := true } := by
  have hdigit : ∀ d : Fin 10, (0x30#8 ≤ digitChar d ∧ digitChar d ≤ 0x39#8) ∧
      (digitChar d - 0x30).setWidth 32 = BitVec.ofNat 32 d := by decide
  rw [AnsiLoop.read, if_pos (hdigit d).1, (hdigit d).2]

theorem AnsiLoop.read_semicolon (l : AnsiLoop) :
    l.read 0x3B = { driver := l.driver.setColorFromAnsi l.code, code := 0, parsing := false } := rfl

theorem AnsiLoop.foldl_digits (l : AnsiLoop) (n : ℕ) (hcode : l.code = BitVec.ofNat 32 n)
    {ds : List (Fin 10)} (hds : ds ≠ []) :
    (ds.map digitChar).foldl AnsiLoop.read l =
      { l with code := BitVec.ofNat 32 (ds.foldl (fun n (d : Fin 10) => n * 10 + d) n), parsing := true } := by
  induction ds generalizing l n with
  | nil => exact absurd rfl hds
  | cons d ds ih =>
    have hnext : l.code * 10 + BitVec.ofNat 32 d = BitVec.ofNat 32 (n * 10 + d) := by
      rw [hcode, BitVec.ofNat_add, BitVec.ofNat_mul]
      rfl
    rw [List.map_cons, List.foldl_cons, List.foldl_cons, AnsiLoop.read_digit, hnext]
    cases ds with
    | nil => rfl
    | cons e ds => exact ih _ _ rfl (by simp)

/-- One parameter. -/
theorem AnsiLoop.foldl_parameter (v : VGADriver) (p : Parameter) :
    p.chars.foldl AnsiLoop.read { driver := v, code := 0, parsing := false } =
      { driver := v, code := BitVec.ofNat 32 p.value, parsing := true } :=
  AnsiLoop.foldl_digits _ 0 rfl p.nonempty

/-- **The parser sets the colour of every parameter in turn.** -/
theorem AnsiLoop.foldl_parameterChars (v : VGADriver) (ps : List Parameter) :
    ((parameterChars ps).foldl AnsiLoop.read { driver := v, code := 0, parsing := false }).finish =
      ps.foldl (fun v p => v.setColorFromAnsi (BitVec.ofNat 32 p.value)) v := by
  induction ps generalizing v with
  | nil => rfl
  | cons p ps ih =>
    rw [List.foldl_cons]
    cases ps with
    | nil =>
      rw [parameterChars_singleton, AnsiLoop.foldl_parameter]
      rfl
    | cons q ps =>
      rw [parameterChars_cons_cons, List.foldl_append, AnsiLoop.foldl_parameter, List.foldl_cons,
        AnsiLoop.read_semicolon]
      exact ih _

/-- The colour that `set_color_from_ansi` sets for a code. -/
def ansiColor (code : ℕ) : U8 := vgaEntryColor (ansiColors code).1 (ansiColors code).2

theorem setColorFromAnsi_eq (v : VGADriver) (code : U32) :
    v.setColorFromAnsi code = { v with terminalColor := ansiColor code.toNat } := rfl

/-- The colour of the last parameter. -/
def lastColor (color : U8) (params : List ℕ) : U8 :=
  params.foldl (fun _ code => ansiColor (code % 2 ^ 32)) color

theorem foldl_setColorFromAnsi (v : VGADriver) (ps : List Parameter) :
    ps.foldl (fun v p => v.setColorFromAnsi (BitVec.ofNat 32 p.value)) v =
      { v with terminalColor := lastColor v.terminalColor (ps.map Parameter.value) } := by
  induction ps generalizing v with
  | nil => rfl
  | cons p ps ih =>
    rw [List.foldl_cons, ih, setColorFromAnsi_eq, BitVec.toNat_ofNat]
    rfl

/-- `process_ansi_sequence` on a buffer that begins with the sequence. -/
theorem processAnsiSequence_sgr (v : VGADriver) {buffer : Fin 16 → U8} {ps : List Parameter}
    (hbuffer : ∀ i < (sgr ps).length, load buffer i = (sgr ps)[i]?) :
    v.processAnsiSequence buffer (sgr ps).length =
      some { v with terminalColor := lastColor v.terminalColor (ps.map Parameter.value) } := by
  have hlength : (sgr ps).length = (parameterChars ps).length + 3 := by simp [sgr]
  have hlast : load buffer ((sgr ps).length - 1) = some 0x6D := by
    rw [hbuffer _ (by omega), hlength, sgr]
    simp
  have hloop : forRange ((sgr ps).length - 3) (AnsiLoop.body buffer)
      { driver := v, code := 0, parsing := false } =
        some ((parameterChars ps).foldl AnsiLoop.read
          { driver := v, code := 0, parsing := false }) := by
    rw [hlength, Nat.add_sub_cancel]
    refine forRange_eq_foldl (fun k hk l => ?_) _
    rw [AnsiLoop.body_eq, hbuffer _ (by omega), sgr]
    simp [List.getElem?_append_left hk, hk]
  rw [processAnsiSequence, if_neg (by omega), hbuffer 0 (by omega), hbuffer 1 (by omega), hlast,
    hloop]
  change some (AnsiLoop.finish _) = _
  rw [AnsiLoop.foldl_parameterChars, foldl_setColorFromAnsi]

/-! ### The collector -/

/-- A sequence is being collected. -/
def collecting (v : VGADriver) (buffer : Fin 16 → U8) (n : ℕ) : VGADriver :=
  { v with inEscape := true, escapeBuffer := buffer, escapeIndex := n }

theorem putChar_escape (hmode : v.scrollMode = false) :
    v.putChar escape =
      some (v.collecting (Function.update v.escapeBuffer 0 escape) 1) := by
  rw [putChar, if_neg (by simp [hmode]), if_pos rfl, store_of_lt _ (by decide)]
  rfl

/-- A character inside a sequence: the sequence goes on or is processed. -/
theorem putChar_sequence (hmode : v.scrollMode = false) {buffer : Fin 16 → U8} {n : ℕ} {c : U8}
    (hesc : c ≠ escape) (hroom : n + 1 < 15) :
    (v.collecting buffer n).putChar c =
      if endsSequence c then
        ((v.collecting (Function.update buffer ⟨n, by omega⟩ c) (n + 1)).processAnsiSequence
          (Function.update buffer ⟨n, by omega⟩ c) (n + 1)).map fun v =>
            { v with inEscape := false }
      else some (v.collecting (Function.update buffer ⟨n, by omega⟩ c) (n + 1)) := by
  have hindex : ¬n + 1 ≥ 15 := by omega
  have hstored : store buffer n c = some (Function.update buffer ⟨n, by omega⟩ c) :=
    store_of_lt buffer (by omega) c
  rw [putChar]
  simp only [collecting, hmode, hstored, Option.bind_some, Bool.false_eq_true, if_false, if_true]
  rw [if_neg hesc, if_neg hindex]

/-- Characters inside a sequence go into the buffer. -/
theorem run_collecting (hmode : v.scrollMode = false) {cs : List U8}
    (hcs : ∀ c ∈ cs, c ≠ escape ∧ endsSequence c = false) (buffer : Fin 16 → U8) {n : ℕ}
    (hroom : n + cs.length < 15) :
    ∃ buffer', storeFrom buffer n cs = some buffer' ∧
      run putChar (v.collecting buffer n) cs = some (v.collecting buffer' (n + cs.length)) := by
  induction cs generalizing buffer n with
  | nil => exact ⟨buffer, rfl, rfl⟩
  | cons c cs ih =>
    obtain ⟨hesc, hends⟩ := hcs c List.mem_cons_self
    have hnext : n + (c :: cs).length = n + 1 + cs.length := by
      rw [List.length_cons]
      omega
    rw [hnext] at hroom ⊢
    rw [storeFrom, store_of_lt _ (by omega), Option.bind_some, run_cons,
      putChar_sequence hmode hesc (by omega), hends, if_neg Bool.false_ne_true,
      Option.bind_some]
    exact ih (fun d hd => hcs d (List.mem_cons_of_mem c hd)) _ hroom

theorem ends_m : endsSequence 0x6D = true := by decide

theorem not_ends_of_mem {ps : List Parameter} {c : U8} (h : c ∈ 0x5B :: parameterChars ps) :
    c ≠ escape ∧ endsSequence c = false := by
  have hdigit : ∀ d : Fin 10, digitChar d ≠ escape ∧ endsSequence (digitChar d) = false := by
    decide
  rcases List.mem_cons.mp h with rfl | hmem
  · decide
  · rcases mem_parameterChars hmem with rfl | ⟨d, rfl⟩
    · decide
    · exact hdigit d

/-- **One sequence sets the colour of its parameters in turn.** -/
theorem run_sgr (hmode : v.scrollMode = false) {ps : List Parameter} (hfits : Fits ps) :
    ∃ v', run putChar v (sgr ps) = some v' ∧ v'.scrollMode = false ∧
      v'.terminalColor = lastColor v.terminalColor (ps.map Parameter.value) := by
  have hlength : (sgr ps).length = 1 + (0x5B :: parameterChars ps).length + 1 := by
    simp [sgr]
    omega
  have hsplit : sgr ps = [escape] ++ (0x5B :: parameterChars ps) ++ [0x6D] := rfl
  rw [Fits, hlength] at hfits
  obtain ⟨buffer, hstore, hrun⟩ := run_collecting hmode (fun c hc => not_ends_of_mem hc)
    (Function.update v.escapeBuffer 0 escape) (Nat.lt_of_succ_lt hfits)
  have hroom : 1 + (0x5B :: parameterChars ps).length < 16 := by omega
  -- the buffer begins with the whole sequence
  have hwhole : storeFrom v.escapeBuffer 0 (sgr ps) =
      some (Function.update buffer ⟨1 + (0x5B :: parameterChars ps).length, hroom⟩ 0x6D) := by
    have hfirst : storeFrom v.escapeBuffer 0 [escape] =
        some (Function.update v.escapeBuffer 0 escape) := by
      rw [storeFrom, store_of_lt _ (by decide)]
      rfl
    have hlen : 0 + ([escape] ++ 0x5B :: parameterChars ps).length =
        1 + (0x5B :: parameterChars ps).length := by
      simp
      omega
    rw [hsplit, storeFrom_append, storeFrom_append, hfirst, Option.bind_some, hlen]
    change (storeFrom (Function.update v.escapeBuffer 0 escape) 1 _).bind _ = _
    rw [hstore, Option.bind_some, storeFrom, store_of_lt _ hroom]
    rfl
  have hprocess := processAnsiSequence_sgr
    (v.collecting (Function.update buffer ⟨1 + (0x5B :: parameterChars ps).length, hroom⟩ 0x6D)
      (1 + (0x5B :: parameterChars ps).length + 1))
    (fun i hi => load_storeFrom (by omega) hwhole hi)
  have hlast : ¬(0x6D : U8) = escape := by decide
  rw [hlength] at hprocess
  rw [hsplit, run_append, run_append, run_singleton, putChar_escape hmode, Option.bind_some, hrun,
    Option.bind_some, run_singleton, putChar_sequence hmode hlast hfits, if_pos ends_m, hprocess,
    Option.map_some]
  exact ⟨_, rfl, hmode, rfl⟩

theorem run_sequences (hmode : v.scrollMode = false) {sequences : List (List Parameter)}
    (hfits : ∀ ps ∈ sequences, Fits ps) :
    ∃ v', run putChar v (sequences.flatMap sgr) = some v' ∧
      v'.terminalColor = lastColor v.terminalColor (sequences.flatten.map Parameter.value) := by
  induction sequences generalizing v with
  | nil => exact ⟨v, rfl, rfl⟩
  | cons ps sequences ih =>
    obtain ⟨u, hu, humode, hucolor⟩ := run_sgr hmode (hfits ps List.mem_cons_self)
    obtain ⟨v', hv', hcolor⟩ := ih humode fun qs hqs => hfits qs (List.mem_cons_of_mem ps hqs)
    refine ⟨v', ?_, ?_⟩
    · rw [List.flatMap_cons, run_append, hu, Option.bind_some, hv']
    · rw [hcolor, hucolor, List.flatten_cons, List.map_append, lastColor, lastColor, lastColor,
        List.foldl_append]

/-- In scroll mode nothing but newlines has an effect. -/
theorem run_scrolled (hmode : v.scrollMode = true) {cs : List U8} (hcs : newline ∉ cs) :
    run putChar v cs = some v := by
  induction cs with
  | nil => rfl
  | cons c cs ih =>
    rw [List.mem_cons, not_or] at hcs
    rw [run_cons, putChar, if_pos hmode, if_neg (Ne.symm hcs.1), Option.bind_some]
    exact ih hcs.2

theorem newline_notMem_sgr (ps : List Parameter) : newline ∉ sgr ps := by
  have hdigit : ∀ d, newline ≠ digitChar d := by decide
  intro hmem
  rcases List.mem_cons.mp hmem with hesc | hmem
  · exact absurd hesc (by decide)
  · rcases List.mem_cons.mp hmem with hbracket | hmem
    · exact absurd hbracket (by decide)
    · rcases List.mem_append.mp hmem with hparam | hm
      · rcases mem_parameterChars hparam with hsemi | ⟨d, hd⟩
        · exact absurd hsemi (by decide)
        · exact hdigit d hd
      · exact absurd (List.mem_singleton.mp hm) (by decide)

/-! ### What the parameters are for -/

def isForeground (code : ℕ) : Prop := (30 ≤ code ∧ code ≤ 37) ∨ (90 ≤ code ∧ code ≤ 97)

def isBackground (code : ℕ) : Prop := (40 ≤ code ∧ code ≤ 47) ∨ (100 ≤ code ∧ code ≤ 107)

instance (code : ℕ) : Decidable (isForeground code) := inferInstanceAs (Decidable (_ ∨ _))

instance (code : ℕ) : Decidable (isBackground code) := inferInstanceAs (Decidable (_ ∨ _))

/-- The colour that a parameter asks for: the foreground, the background or both are replaced. -/
def recolor (color : U8) (code : ℕ) : U8 :=
  if isForeground code then (color &&& 0xF0) ||| (ansiColors code).1.code
  else if isBackground code then (color &&& 0x0F) ||| (ansiColors code).2.code <<< 4
  else if code = 0 then lightGreyOnBlack
  else color

/-- The component that a parameter should not change is at its default; a parameter that is for
nothing finds the colour that it sets. -/
def AtDefault (color : U8) (code : ℕ) : Prop :=
  if isForeground code then color >>> 4 = VGAColor.black.code
  else if isBackground code then color &&& 0x0F = VGAColor.lightGrey.code
  else code = 0 ∨ color = ansiColor (code % 2 ^ 32)

theorem foreground_replaced : ∀ (color : U8) (fg : Fin 16),
    (BitVec.ofNat 8 fg ||| VGAColor.black.code <<< 4 = (color &&& 0xF0) ||| BitVec.ofNat 8 fg) ↔
      color >>> 4 = VGAColor.black.code := by decide +kernel

theorem background_replaced : ∀ (color : U8) (bg : Fin 16),
    (VGAColor.lightGrey.code ||| BitVec.ofNat 8 bg <<< 4 =
      (color &&& 0x0F) ||| BitVec.ofNat 8 bg <<< 4) ↔
      color &&& 0x0F = VGAColor.lightGrey.code := by decide +kernel

theorem exists_code (color : VGAColor) : ∃ n : Fin 16, color.code = BitVec.ofNat 8 n := by
  cases color <;> exact ⟨⟨_, by decide⟩, rfl⟩

theorem ansiColors_foreground : ∀ code < 108, isForeground code →
    (ansiColors code).2.code = VGAColor.black.code := by decide

theorem ansiColors_background : ∀ code < 108, isBackground code →
    (ansiColors code).1.code = VGAColor.lightGrey.code := by decide

/-- `set_color_from_ansi` sets the colour that is asked for when there is nothing to lose. -/
theorem ansiColor_eq_recolor_iff (color : U8) (code : ℕ) :
    ansiColor (code % 2 ^ 32) = recolor color code ↔ AtDefault color code := by
  rw [recolor, AtDefault]
  by_cases hfg : isForeground code
  · have hlt : code < 108 := by
      rw [isForeground] at hfg
      omega
    rw [if_pos hfg, if_pos hfg, Nat.mod_eq_of_lt (by omega), ansiColor, vgaEntryColor,
      ansiColors_foreground code hlt hfg]
    obtain ⟨n, hn⟩ := exists_code (ansiColors code).1
    rw [hn]
    exact foreground_replaced color n
  · rw [if_neg hfg, if_neg hfg]
    by_cases hbg : isBackground code
    · have hlt : code < 108 := by
        rw [isBackground] at hbg
        omega
      rw [if_pos hbg, if_pos hbg, Nat.mod_eq_of_lt (by omega), ansiColor, vgaEntryColor,
        ansiColors_background code hlt hbg]
      obtain ⟨n, hn⟩ := exists_code (ansiColors code).2
      rw [hn]
      exact background_replaced color n
    · rw [if_neg hbg, if_neg hbg]
      by_cases hzero : code = 0
      · rw [if_pos hzero, hzero]
        simp only [true_or, iff_true]
        rfl
      · rw [if_neg hzero, or_iff_right hzero]
        exact eq_comm

/-- Nothing is lost: outside of scroll mode, the component that the last parameter should not
change is at its default after the ones before; in scroll mode, where the screen takes no
characters, the parameters ask for the colour that there is. -/
def NothingLost (v : VGADriver) (params : List ℕ) : Prop :=
  if v.scrollMode then params.foldl recolor v.terminalColor = v.terminalColor
  else ∀ before last, params = before ++ [last] →
    AtDefault (before.foldl recolor v.terminalColor) last

theorem lastColor_eq_foldl_iff (color : U8) (params : List ℕ) :
    lastColor color params = params.foldl recolor color ↔
      ∀ before last, params = before ++ [last] → AtDefault (before.foldl recolor color) last := by
  rcases List.eq_nil_or_concat params with rfl | ⟨init, code, rfl⟩
  · refine iff_of_true rfl fun before last h => absurd h (by simp)
  · rw [lastColor, List.concat_eq_append, List.foldl_append, List.foldl_append]
    refine (ansiColor_eq_recolor_iff _ _).trans ⟨?_, fun h => h init code rfl⟩
    intro hdefault before last h
    obtain ⟨rfl, hlast⟩ := List.append_inj' h rfl
    rw [← List.singleton_inj.mp hlast]
    exact hdefault

/-- **The colour after any escape sequences** is what the parameters ask for, one after the other,
exactly when nothing is lost. -/
theorem sgr_iff (v : VGADriver) (sequences : List (List Parameter))
    (hfits : ∀ ps ∈ sequences, Fits ps) :
    ∃ v', run putChar v (sequences.flatMap sgr) = some v' ∧
      (v'.terminalColor =
          (sequences.flatten.map Parameter.value).foldl recolor v.terminalColor ↔
        v.NothingLost (sequences.flatten.map Parameter.value)) := by
  cases hmode : v.scrollMode with
  | false =>
    obtain ⟨v', hrun, hcolor⟩ := run_sequences hmode hfits
    refine ⟨v', hrun, ?_⟩
    rw [hcolor, NothingLost, if_neg (by simp [hmode])]
    exact lastColor_eq_foldl_iff _ _
  | true =>
    have hnewline : newline ∉ sequences.flatMap sgr := by
      intro hmem
      obtain ⟨ps, -, hps⟩ := List.mem_flatMap.mp hmem
      exact newline_notMem_sgr ps hps
    refine ⟨v, run_scrolled hmode hnewline, ?_⟩
    rw [NothingLost, if_pos hmode]
    exact eq_comm

def red : Parameter := ⟨[3, 1], by decide⟩

def onBlue : Parameter := ⟨[4, 4], by decide⟩

/-- `sgr_iff` for one sequence with two parameters. -/
theorem sgr_red_onBlue : (∀ ps ∈ [[red, onBlue]], Fits ps) ∧ ∃ v',
    run putChar (boot fun _ => 0) ([[red, onBlue]].flatMap sgr) = some v' ∧
      (v'.terminalColor = ([[red, onBlue]].flatten.map Parameter.value).foldl recolor
          (boot fun _ => 0).terminalColor ↔
        (boot fun _ => 0).NothingLost ([[red, onBlue]].flatten.map Parameter.value)) :=
  ⟨by decide, sgr_iff (boot fun _ => 0) [[red, onBlue]] (by decide)⟩

/-- Red on blue, in one sequence for each, is not red. -/
theorem red_onBlue_lost :
    ¬ ∀ (v : VGADriver) (sequences : List (List Parameter)), (∀ ps ∈ sequences, Fits ps) →
      ∃ v', run putChar v (sequences.flatMap sgr) = some v' ∧ v'.terminalColor =
        (sequences.flatten.map Parameter.value).foldl recolor v.terminalColor := by
  intro hall
  obtain ⟨v', hrun, hcolor⟩ := hall (boot fun _ => 0) [[red], [onBlue]] (by decide)
  have hcode : (run putChar (boot fun _ => 0) ([[red], [onBlue]].flatMap sgr)).map terminalColor =
      some 0x17 := by decide +kernel
  rw [hrun, Option.map_some, hcolor] at hcode
  exact absurd hcode (by decide)

end MesaOS.Drivers.VGADriver
