/-
The lines behind the screen (`drivers/vga.cpp`).

The last 200 lines that `add_line_to_buffer` has captured are kept in a ring, and
`render_view` shows 25 of them in scroll mode.

* `addLine_eq` — the row of the ring that a line goes to;
* `Session.Kept.step` — every call keeps the ring in step with the lines captured;
* `renderView_shows` — the line that each row of the screen shows.
-/
import Mathlib.Data.List.TakeWhile
import MesaOS.VGA

open MachineWord Runs CheckedArray MesaOS.System

namespace MesaOS.Drivers.VGADriver

variable {v v' : VGADriver}

/-! ### One line -/

/-- `add_line_to_buffer` for a string in an array of any size. -/
def addLine {n : ℕ} (v : VGADriver) (line : Fin n → U8) : Option VGADriver :=
  (strlen 0 line).bind fun lineLen =>
  (index v.scrollWriteLine).bind fun writeLine =>
  (forRange 80 (fun i buffer =>
    (if i < lineLen then load line i else some blank).bind fun c => store₂ buffer writeLine i c)
      v.scrollBuffer).map fun buffer =>
    { v with
      scrollBuffer := buffer
      scrollWriteLine := (toSize (v.scrollWriteLine + 1) % 200 : ℕ) }

/-- The array of `put_char` has room for one row and its end. -/
theorem addLineToBuffer_eq (v : VGADriver) (line : Fin 81 → U8) :
    v.addLineToBuffer line = v.addLine line := rfl

/-- The characters of a string. -/
def lineText {n : ℕ} (line : Fin n → U8) : List U8 :=
  (List.ofFn line).takeWhile fun c => c ≠ 0

/-- A line with blanks behind it. -/
def padded (text : List U8) (col : ℕ) : U8 := text.getD col blank

theorem zero_notMem_lineText {n : ℕ} (line : Fin n → U8) : (0 : U8) ∉ lineText line := by
  intro hmem
  have hne := List.mem_takeWhile_imp hmem
  simp at hne

theorem padded_ne_zero {text : List U8} (h : (0 : U8) ∉ text) (col : ℕ) : padded text col ≠ 0 := by
  rw [padded, List.getD_eq_getElem?_getD]
  cases hget : text[col]? with
  | none => exact (by decide : blank ≠ 0)
  | some c =>
    intro hzero
    exact h (hzero ▸ List.mem_of_getElem? hget)

theorem lineText_eq_take {n len : ℕ} {line : Fin n → U8} (h : strlen 0 line = some len) :
    lineText line = (List.ofFn line).take len := by
  obtain ⟨⟨hlt, hzero⟩, hbefore⟩ := strlen_eq_some_iff.mp h
  rw [lineText, List.takeWhile_eq_take_findIdx_not]
  refine congrArg (fun k => (List.ofFn line).take k) ?_
  rw [List.findIdx_eq (by simpa using hlt)]
  refine ⟨by simpa using hzero, fun j hj => ?_⟩
  simpa using hbefore ⟨j, by omega⟩ hj

theorem padded_lineText {n len : ℕ} {line : Fin n → U8} (h : strlen 0 line = some len) (col : ℕ) :
    (if col < len then load line col else some blank) = some (padded (lineText line) col) := by
  have hlen := strlen_lt h
  rw [lineText_eq_take h, padded]
  by_cases hcol : col < len
  · rw [if_pos hcol, load_of_lt line (by omega), List.getD_eq_getElem?_getD,
      List.getElem?_take_of_lt hcol]
    simp [show col < n by omega]
  · rw [if_neg hcol, List.getD_eq_default _ _ (by simp; omega)]

/-- **The line goes to the current row of the ring**, cut or filled up to 80 columns. -/
theorem addLine_eq {n len : ℕ} {line : Fin n → U8} (hline : strlen 0 line = some len)
    {row : Fin 200} (hrow : v.scrollWriteLine = (row : ℕ)) :
    v.addLine line = some { v with
      scrollBuffer := Function.update v.scrollBuffer row fun col => padded (lineText line) col
      scrollWriteLine := ((row + 1) % 200 : ℕ) } := by
  set text : Fin 80 → U8 := fun col => padded (lineText line) col
  -- the loop has written the first columns of the row
  set written : ℕ → Fin 200 → Fin 80 → U8 := fun m =>
    Function.update v.scrollBuffer row (filled (v.scrollBuffer row) text m)
  have hloop : forRange 80 (fun i buffer =>
      (if i < len then load line i else some blank).bind fun c => store₂ buffer row i c)
      (written 0) = some (written 80) := by
    refine forRange_eq written fun k hk => ?_
    rw [padded_lineText hline, Option.bind_some, store₂_of_lt _ row.isLt hk]
    refine congrArg some ?_
    have hself : written k row = filled (v.scrollBuffer row) text k := Function.update_self ..
    rw [hself, Function.update_idem]
    exact congrArg (Function.update v.scrollBuffer row) (update_filled _ text ⟨k, hk⟩)
  have hstart : written 0 = v.scrollBuffer := by
    change Function.update v.scrollBuffer row (filled _ _ 0) = _
    rw [filled_zero, Function.update_eq_self]
  have hend : written 80 = Function.update v.scrollBuffer row text :=
    congrArg (Function.update v.scrollBuffer row) (filled_all _ text)
  have hnext : ((toSize (v.scrollWriteLine + 1) % 200 : ℕ) : ℤ) = ((row + 1) % 200 : ℕ) := by
    have hlt := row.isLt
    rw [hrow, toSize]
    omega
  rw [hstart, hend] at hloop
  rw [addLine, hline, Option.bind_some, hnext, hrow, index_of_nonneg (Int.natCast_nonneg _),
    Option.bind_some, Int.toNat_natCast, hloop]
  rfl

/-! ### What the other calls do to the lines -/

/-- The captured lines are the same. -/
structure SameLines (v v' : VGADriver) : Prop where
  buffer : v'.scrollBuffer = v.scrollBuffer
  writeLine : v'.scrollWriteLine = v.scrollWriteLine

theorem SameLines.refl (v : VGADriver) : SameLines v v := ⟨rfl, rfl⟩

theorem SameLines.trans {u : VGADriver} (h : SameLines v v') (h' : SameLines v' u) :
    SameLines v u :=
  ⟨h'.buffer.trans h.buffer, h'.writeLine.trans h.writeLine⟩

/-- A call whose result is known. -/
theorem SameLines.of_eq {r : Option VGADriver} {u : VGADriver} (h : r = some v') (hr : r = some u)
    (hsame : SameLines v u) : SameLines v v' := by
  rw [hr, Option.some_inj] at h
  exact h ▸ hsame

/-- What follows every character outside of escape sequences. -/
theorem sameLines_scroll (h : v.scroll.map updateCursor = some v') : SameLines v v' := by
  obtain ⟨buffer, hbuffer⟩ := v.scroll_spec
  obtain ⟨cursor, hcursor⟩ := updateCursor_eq
    { v with
      terminalBuffer := buffer
      terminalRow := if v.terminalRow < 25 then v.terminalRow else 24 }
  rw [hbuffer] at h
  exact .of_eq h (congrArg some hcursor) ⟨rfl, rfl⟩

theorem sameLines_putPlain (hbounds : v.Bounds) {c : U8} (hc : c ≠ newline)
    (h : v.putPlain c = some v') : SameLines v v' := by
  rw [putPlain, if_neg hc] at h
  split at h
  · rw [← Option.some_inj.mp h]
    split
    · exact ⟨rfl, rfl⟩
    · exact .refl v
  · split at h
    · rw [putEntryAt_spec c _ hbounds.column hbounds.row hbounds.tty, Option.map_some,
        Option.some_inj] at h
      rw [← h]
      dsimp only
      split
      · exact ⟨rfl, rfl⟩
      · exact ⟨rfl, rfl⟩
    · rw [← Option.some_inj.mp h]
      exact .refl v

/-- A line is captured with this character. -/
def Captures (v : VGADriver) (c : U8) : Prop :=
  c = newline ∧ (v.scrollMode = true ∨ v.inEscape = false)

instance (v : VGADriver) (c : U8) : Decidable (v.Captures c) := inferInstanceAs (Decidable (_ ∧ _))

theorem sameLines_collecting (hbounds : v.Bounds) (hin : v.inEscape = true) {c : U8}
    (hmode : ¬v.scrollMode = true) (hesc : c ≠ escape) (h : v.putChar c = some v') :
    SameLines v v' := by
  have hindex := hbounds.collecting hin
  rw [putChar, if_neg hmode, if_neg hesc, if_pos hin, store_of_lt _ (by omega),
    Option.bind_some] at h
  dsimp only at h
  split at h
  · rw [← Option.some_inj.mp h]
    exact ⟨rfl, rfl⟩
  · split at h
    · obtain ⟨color, hcolor⟩ := processAnsiSequence_spec
        { v with
          escapeBuffer := Function.update v.escapeBuffer ⟨v.escapeIndex, by omega⟩ c
          escapeIndex := v.escapeIndex + 1 }
        (Function.update v.escapeBuffer ⟨v.escapeIndex, by omega⟩ c)
        (show v.escapeIndex + 1 ≤ 16 by omega)
      rw [hcolor, Option.map_some, Option.some_inj] at h
      rw [← h]
      exact ⟨rfl, rfl⟩
    · rw [← Option.some_inj.mp h]
      exact ⟨rfl, rfl⟩

theorem sameLines_putChar (hbounds : v.Bounds) {c : U8} (hc : ¬v.Captures c)
    (h : v.putChar c = some v') : SameLines v v' := by
  by_cases hmode : v.scrollMode = true
  · have hne : c ≠ newline := fun heq => hc ⟨heq, .inl hmode⟩
    rw [putChar, if_pos hmode, if_neg hne] at h
    rw [← Option.some_inj.mp h]
    exact .refl v
  · by_cases hesc : c = escape
    · rw [putChar, if_neg hmode, if_pos hesc, store_of_lt _ (by decide), Option.map_some,
        Option.some_inj] at h
      rw [← h]
      exact ⟨rfl, rfl⟩
    · by_cases hin : v.inEscape = true
      · exact sameLines_collecting hbounds hin hmode hesc h
      · have hne : c ≠ newline := fun heq => hc ⟨heq, .inr (Bool.eq_false_iff.mpr hin)⟩
        rw [putChar, if_neg hmode, if_neg hesc, if_neg hin] at h
        obtain ⟨u, hu, hscroll⟩ := Option.bind_eq_some_iff.mp h
        exact (sameLines_putPlain hbounds hne hu).trans (sameLines_scroll hscroll)

/-- The current row is captured with a newline, in scroll mode or not. -/
theorem putChar_captures (hbounds : v.Bounds) {c : U8} (hc : v.Captures c)
    (h : v.putChar c = some v') :
    ∃ line : Fin 81 → U8, v.captureLine = some line ∧ line 80 = 0 ∧
      ∃ u, v.addLine line = some u ∧ SameLines u v' := by
  obtain ⟨rfl, hwhen⟩ := hc
  obtain ⟨line, hline, hend⟩ := captureLine_spec hbounds.row
  refine ⟨line, hline, hend, ?_⟩
  by_cases hmode : v.scrollMode = true
  · rw [putChar, if_pos hmode, if_pos rfl, hline, Option.bind_some, addLineToBuffer_eq] at h
    exact ⟨v', h, .refl v'⟩
  · have hin : ¬v.inEscape = true := by simpa [hmode] using hwhen
    rw [putChar, if_neg hmode, if_neg (by decide), if_neg hin, putPlain, if_pos rfl, hline,
      Option.bind_some, addLineToBuffer_eq] at h
    obtain ⟨u, hu, hscroll⟩ := Option.bind_eq_some_iff.mp h
    obtain ⟨w, hw, hrow⟩ := Option.map_eq_some_iff.mp hu
    refine ⟨w, hw, SameLines.trans ?_ (sameLines_scroll hscroll)⟩
    rw [← hrow]
    dsimp only
    split
    · exact ⟨rfl, rfl⟩
    · exact ⟨rfl, rfl⟩

/-- Switching and scrolling leave the lines alone. -/
theorem sameLines_step (hbounds : v.Bounds) {e : Event} (hinit : e ≠ .initializeVga)
    (hput : ∀ c, e ≠ .putChar c) (h : v.step e = some v') : SameLines v v' := by
  have hle := hbounds.viewOffset
  obtain ⟨offset, hoffset⟩ := Int.eq_ofNat_of_zero_le hle.1
  have htty : v.currentTty = (⟨v.currentTty, hbounds.tty⟩ : Fin 4) := rfl
  cases e with
  | initializeVga => exact absurd rfl hinit
  | putChar c => exact absurd rfl (hput c)
  | setColor color => exact .of_eq h rfl ⟨rfl, rfl⟩
  | switchTty ttyId =>
    rcases switchTty_cases hbounds.tty ttyId with hsame | ⟨current, tty, -, -, -, hswitch⟩
    · exact .of_eq h hsame (.refl v)
    · exact .of_eq h hswitch ⟨rfl, rfl⟩
  | scrollUp =>
    by_cases htop : offset = 174
    · exact .of_eq h (scrollUp_top (by rw [hoffset, htop]; rfl)) (.refl v)
    · obtain ⟨screen, hscreen⟩ := scrollUp_eq htty hbounds.writeLine hoffset (by omega)
      exact .of_eq h hscreen ⟨rfl, rfl⟩
  | scrollDown =>
    rcases offset with _ | _ | offset
    · exact .of_eq h (scrollDown_live hoffset) (.refl v)
    · exact .of_eq h (scrollDown_last htty hoffset) ⟨rfl, rfl⟩
    · have hmode : v.scrollMode = true := hbounds.mode.mpr (by omega)
      exact .of_eq h (scrollDown_eq htty hbounds.writeLine hmode hoffset (by omega)) ⟨rfl, rfl⟩

theorem scrollUp_offset {offset : ℕ} {tty : Fin 4} (htty : v.currentTty = tty)
    (hwrite : 0 ≤ v.scrollWriteLine ∧ v.scrollWriteLine < 200)
    (hoffset : v.scrollViewOffset = offset) (hlt : offset < 174) (h : v.scrollUp = some v') :
    v'.scrollViewOffset = (offset + 1 : ℕ) := by
  obtain ⟨screen, hscreen⟩ := scrollUp_eq htty hwrite hoffset hlt
  rw [hscreen, Option.some_inj] at h
  rw [← h]
  rfl

/-! ### The lines captured so far -/

/-- The driver, and the lines captured since `initialize`. -/
structure Session where
  driver : VGADriver
  lines : List (List U8)

/-- The calls from outside; `addLine` is `add_line_to_buffer` of a string. -/
inductive Call
  | event (e : Event)
  | addLine (text : List U8)
  | renderView

/-- The string with these bytes and a zero behind them. -/
def stringOf (text : List U8) : Fin (text.length + 1) → U8 := fun i => text.getD i 0

/-- The lines that an event hands to `add_line_to_buffer`. -/
def capturedBy (v : VGADriver) : Event → List (List U8)
  | .putChar c => if v.Captures c then (v.captureLine.map lineText).toList else []
  | _ => []

namespace Session

def step (s : Session) : Call → Option Session
  | .event .initializeVga =>
    s.driver.initializeVga.map fun v => { driver := v, lines := [] }
  | .event e =>
    (s.driver.step e).map fun v => { driver := v, lines := s.lines ++ s.driver.capturedBy e }
  | .addLine text =>
    (s.driver.addLine (stringOf text)).map fun v =>
      { driver := v, lines := s.lines ++ [lineText (stringOf text)] }
  | .renderView => s.driver.renderView.map fun v => { s with driver := v }

/-- The captured line with this number, counted from 0; before the first one there are none. -/
def line (s : Session) (j : ℤ) : List U8 := if j < 0 then [] else s.lines.getD j.toNat []

/-- The row of the ring for the line with this number. -/
def slot (j : ℤ) : Fin 200 := ⟨(j % 200).toNat, by omega⟩

/-- The ring holds the last 200 lines. -/
structure Kept (s : Session) : Prop where
  bounds : s.driver.Bounds
  writeLine : s.driver.scrollWriteLine = (slot s.lines.length : ℕ)
  text : ∀ l ∈ s.lines, (0 : U8) ∉ l
  ring : ∀ j : ℤ, (s.lines.length : ℤ) - 200 ≤ j → j < s.lines.length →
    s.driver.scrollBuffer (slot j) = fun col : Fin 80 => padded (s.line j) col

variable {s : Session}

/-- The numbers of the old lines stay. -/
theorem line_append (s : Session) (v : VGADriver) (l : List U8) {j : ℤ} (h : j < s.lines.length) :
    line { driver := v, lines := s.lines ++ [l] } j = s.line j := by
  rw [line, line]
  by_cases hneg : j < 0
  · rw [if_pos hneg, if_pos hneg]
  · rw [if_neg hneg, if_neg hneg, List.getD_append _ _ _ _ (by omega)]

theorem line_last (s : Session) (v : VGADriver) (l : List U8) :
    line { driver := v, lines := s.lines ++ [l] } s.lines.length = l := by
  rw [line, if_neg (by omega), Int.toNat_natCast]
  simp

/-- **A line takes the place of the one 200 lines before it.** -/
theorem Kept.append (h : s.Kept) {n : ℕ} {line : Fin n → U8} {len : ℕ}
    (hline : strlen 0 line = some len) {u v : VGADriver} (hu : s.driver.addLine line = some u)
    (hsame : SameLines u v) (hbounds : v.Bounds) :
    Kept { driver := v, lines := s.lines ++ [lineText line] } := by
  rw [addLine_eq hline h.writeLine, Option.some_inj] at hu
  have hbuffer := hsame.buffer
  have hwrite := hsame.writeLine
  rw [← hu] at hbuffer hwrite
  dsimp only at hbuffer hwrite
  refine ⟨hbounds, ?_, ?_, ?_⟩
  · dsimp only
    rw [hwrite, List.length_append, List.length_singleton, slot, slot]
    dsimp only
    omega
  · intro l hl
    rcases List.mem_append.mp hl with hold | hnew
    · exact h.text l hold
    · rw [List.mem_singleton.mp hnew]
      exact zero_notMem_lineText line
  · intro j hlow hhigh
    rw [List.length_append, List.length_singleton] at hlow hhigh
    dsimp only
    rw [hbuffer]
    by_cases hlast : j = s.lines.length
    · rw [hlast, Function.update_self, line_last]
    · -- the other 199 lines are in other rows
      have hne : slot j ≠ slot s.lines.length := by
        intro heq
        have hval := congrArg Fin.val heq
        rw [slot, slot] at hval
        dsimp only at hval
        omega
      rw [Function.update_of_ne hne, h.ring j (by omega) (by omega), line_append _ _ _ (by omega)]

theorem Kept.sameLines (h : s.Kept) {v : VGADriver} (hsame : SameLines s.driver v)
    (hbounds : v.Bounds) : Kept { driver := v, lines := s.lines } :=
  ⟨hbounds, hsame.writeLine.trans h.writeLine, h.text, fun j hlow hhigh => by
    dsimp only
    rw [hsame.buffer]
    exact h.ring j hlow hhigh⟩

/-- After `initialize` the ring is blank. -/
theorem kept_cleared (v : VGADriver) (hbounds : v.Bounds) :
    Kept { driver := v.cleared, lines := [] } := by
  refine ⟨hbounds.cleared, rfl, fun l hl => absurd hl List.not_mem_nil, ?_⟩
  intro j _ hhigh
  have hneg : j < 0 := hhigh
  funext col
  rw [line, if_pos hneg]
  rfl

theorem Kept.putChar (h : s.Kept) (c : U8) :
    ∃ s', s.step (.event (.putChar c)) = some s' ∧ s'.Kept := by
  obtain ⟨v, hv, hbounds⟩ := h.bounds.step (.putChar c)
  refine ⟨{ driver := v, lines := s.lines ++ s.driver.capturedBy (.putChar c) }, ?_, ?_⟩
  · rw [step, hv]
    · rfl
    · simp
  · rw [capturedBy]
    by_cases hc : s.driver.Captures c
    · obtain ⟨line, hline, hend, u, hu, hsame⟩ := putChar_captures h.bounds hc hv
      obtain ⟨len, hlen⟩ := strlen_isSome 80 hend
      rw [if_pos hc, hline]
      exact h.append hlen hu hsame hbounds
    · rw [if_neg hc, List.append_nil]
      exact h.sameLines (sameLines_putChar h.bounds hc hv) hbounds

theorem Kept.addLine (h : s.Kept) (text : List U8) :
    ∃ s', s.step (.addLine text) = some s' ∧ s'.Kept := by
  have hend : stringOf text (Fin.last _) = 0 := by
    rw [stringOf]
    simp
  obtain ⟨len, hlen⟩ := strlen_isSome _ hend
  have hadd := addLine_eq hlen h.writeLine
  rw [step, hadd]
  refine ⟨_, rfl, h.append hlen hadd (.refl _) { h.bounds with writeLine := ?_ }⟩
  dsimp only
  omega

theorem Kept.renderView (h : s.Kept) : ∃ s', s.step .renderView = some s' ∧ s'.Kept := by
  rw [step]
  cases hmode : s.driver.scrollMode with
  | false =>
    rw [VGADriver.renderView, if_pos (.inl hmode)]
    exact ⟨s, rfl, h⟩
  | true =>
    obtain ⟨offset, hoffset⟩ := Int.eq_ofNat_of_zero_le h.bounds.viewOffset.1
    have hle := h.bounds.viewOffset.2
    have htty : s.driver.currentTty = (⟨s.driver.currentTty, h.bounds.tty⟩ : Fin 4) := rfl
    rw [renderView_eq htty h.bounds.writeLine hoffset (by omega) hmode]
    exact ⟨_, rfl, h.sameLines ⟨rfl, rfl⟩ { h.bounds with }⟩

/-- **Every call keeps the last 200 lines in the ring.** -/
theorem Kept.step (h : s.Kept) (c : Call) : ∃ s', s.step c = some s' ∧ s'.Kept := by
  cases c with
  | addLine text => exact h.addLine text
  | renderView => exact h.renderView
  | event e =>
    obtain ⟨v, hv, hbounds⟩ := h.bounds.step e
    cases e with
    | initializeVga =>
      rw [Session.step, initializeVga_eq]
      exact ⟨_, rfl, kept_cleared s.driver h.bounds⟩
    | putChar c => exact h.putChar c
    | setColor | switchTty | scrollUp | scrollDown =>
      have hsame := sameLines_step h.bounds (by simp) (by simp) hv
      rw [Session.step, hv]
      · exact ⟨_, rfl, by simpa [capturedBy] using h.sameLines hsame hbounds⟩
      · simp

theorem Kept.zero_notMem_line (h : s.Kept) (j : ℤ) : (0 : U8) ∉ s.line j := by
  rw [line]
  split
  · exact List.not_mem_nil
  · by_cases hj : j.toNat < s.lines.length
    · rw [List.getD_eq_getElem _ _ hj]
      exact h.text _ (List.getElem_mem hj)
    · rw [List.getD_eq_default _ _ (by omega)]
      exact List.not_mem_nil

/-- What a row of the backlog shows, `offset` lines above the last screen. -/
theorem Kept.backlog (h : s.Kept) {offset : ℕ} (hpos : 1 ≤ offset) (hle : offset ≤ 174)
    (row : Fin 25) (col : Fin 80) :
    s.driver.backlog offset ⟨row * 80 + col, by omega⟩ =
      vgaEntry (padded (s.line (s.lines.length - offset - 25 + row)) col)
        s.driver.terminalColor := by
  have hrow := row.isLt
  have hcol := col.isLt
  have hdiv : ((row : ℕ) * 80 + col) / 80 = row := by omega
  have hmod : ((row : ℕ) * 80 + col) % 80 = col := by omega
  -- the row of the ring, counted from the next row to be written
  have hslot : (⟨(s.driver.scrollWriteLine.toNat + 175 - offset + row) % 200,
      Nat.mod_lt _ (by decide)⟩ : Fin 200) = slot (s.lines.length - offset - 25 + row) := by
    refine Fin.ext ?_
    rw [h.writeLine, slot, slot]
    dsimp only
    omega
  have hring := h.ring (s.lines.length - offset - 25 + row) (by omega) (by omega)
  have htext := padded_ne_zero (h.zero_notMem_line (s.lines.length - offset - 25 + row)) col
  rw [VGADriver.backlog]
  simp only [hdiv, hmod]
  rw [hslot, shownEntry, hring]
  dsimp only
  rw [if_neg htext]

/-- **`render_view` in scroll mode**: after any calls since `initialize`, row `row` shows the line
that stands `offset + 25 - row` lines above the next one, or nothing before the first. -/
theorem renderView_shows (screen : Screen) (calls : List Call) :
    ∃ v₀ s, (boot screen).initializeVga = some v₀ ∧
      run Session.step { driver := v₀, lines := [] } calls = some s ∧
      ∀ offset : ℕ, s.driver.scrollViewOffset = offset → 1 ≤ offset →
        ∃ v, s.driver.renderView = some v ∧ ∀ (row : Fin 25) (col : Fin 80),
          v.terminalBuffer ⟨row * 80 + col, by omega⟩ =
            vgaEntry (padded (s.line (s.lines.length - offset - 25 + row)) col)
              s.driver.terminalColor := by
  obtain ⟨s, hrun, hkept⟩ := run_total (P := Kept) (fun _ c hs _ => hs.step c)
    (kept_cleared _ (bounds_boot screen)) (guarded_true Session.step _ calls)
  refine ⟨_, s, initializeVga_eq _, hrun, fun offset hoffset hpos => ?_⟩
  have hle := hkept.bounds.viewOffset.2
  have hmode : s.driver.scrollMode = true := hkept.bounds.mode.mpr (by omega)
  have htty : s.driver.currentTty = (⟨s.driver.currentTty, hkept.bounds.tty⟩ : Fin 4) := rfl
  exact ⟨_, renderView_eq htty hkept.bounds.writeLine hoffset (by omega) hmode,
    hkept.backlog hpos (by omega)⟩

/-- Two lines, and one step up: the last row shows the first line. -/
theorem renderView_two_lines :
    ∃ v₀ s v, (boot fun _ => 0).initializeVga = some v₀ ∧
      run step { driver := v₀, lines := [] }
        [.addLine [0x61], .addLine [0x62], .event .scrollUp] = some s ∧
      s.driver.scrollViewOffset = (1 : ℕ) ∧ 1 ≤ 1 ∧ s.lines = [[0x61], [0x62]] ∧
      s.driver.renderView = some v ∧ ∀ (row : Fin 25) (col : Fin 80),
        v.terminalBuffer ⟨row * 80 + col, by omega⟩ =
          vgaEntry (padded (s.line (s.lines.length - (1 : ℕ) - 25 + row)) col)
            s.driver.terminalColor := by
  obtain ⟨v₀, s, hinit, hrun, hshows⟩ := renderView_shows (fun _ => 0)
    [.addLine [0x61], .addLine [0x62], .event .scrollUp]
  have hlen : ∀ c : U8, c ≠ 0 → strlen 0 (stringOf [c]) = some 1 := by decide
  have hlive : s.driver.scrollViewOffset = (1 : ℕ) ∧ s.lines = [[0x61], [0x62]] := by
    have hv₀ := hinit
    rw [initializeVga_eq, Option.some_inj] at hv₀
    subst hv₀
    rw [run_cons, step,
      addLine_eq (hlen 0x61 (by decide)) (show _ = (((0 : Fin 200) : ℕ) : ℤ) from rfl),
      Option.map_some, Option.bind_some, run_cons, step,
      addLine_eq (hlen 0x62 (by decide)) (show _ = (((1 : Fin 200) : ℕ) : ℤ) from rfl),
      Option.map_some, Option.bind_some, run_singleton, step, VGADriver.step] at hrun
    · obtain ⟨v, hv, hs⟩ := Option.map_eq_some_iff.mp hrun
      rw [← hs]
      have htwo : (0 : ℤ) ≤ 2 ∧ (2 : ℤ) < 200 := by decide
      exact ⟨scrollUp_offset (show _ = ((0 : Fin 4) : ℕ) from rfl) htwo
        (show _ = ((0 : ℕ) : ℤ) from rfl) (by decide) hv, rfl⟩
    · simp
  obtain ⟨v, hv, hcells⟩ := hshows 1 hlive.1 (Nat.le_refl 1)
  exact ⟨v₀, s, v, hinit, hrun, hlive.1, Nat.le_refl 1, hlive.2, hv, hcells⟩

end Session

end MesaOS.Drivers.VGADriver
