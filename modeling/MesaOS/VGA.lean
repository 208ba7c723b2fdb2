/-
The text console (`drivers/vga.cpp`).

Every access to an array has its bounds checked, and there is no result when an index is out of
range.

* `Bounds.step` — every operation keeps the bounds and stays within the arrays;
* `bounds_of_run` — so does every run from `initialize`.
-/
import MesaOS.CheckedArray
import MesaOS.Shell

open MachineWord Runs CheckedArray MesaOS.System

namespace MesaOS.Drivers

inductive VGAColor
  | black
  | blue
  | green
  | cyan
  | red
  | magenta
  | brown
  | lightGrey
  | darkGrey
  | lightBlue
  | lightGreen
  | lightCyan
  | lightRed
  | lightMagenta
  | lightBrown
  | white

/-- The number of a colour. -/
def VGAColor.code (color : VGAColor) : U8 := BitVec.ofNat 8 color.ctorIdx

def vgaEntryColor (fg bg : VGAColor) : U8 := fg.code ||| bg.code <<< 4

def vgaEntry (uc color : U8) : U16 := uc.setWidth 16 ||| color.setWidth 16 <<< 8

/-- `static_cast<size_t>` of an `int` -/
def toSize (x : ℤ) : ℕ := (x % 2 ^ 32).toNat

/-- An `int` as an index; a negative one is out of range. -/
def index (x : ℤ) : Option ℕ := if 0 ≤ x then some x.toNat else none

/-- The video memory, which has 25 rows of 80 columns. -/
abbrev Screen := Fin 2000 → U16

/-- The static members; `cursor` is the position last sent to the ports of the cursor. -/
structure VGADriver where
  terminalRow : ℕ
  terminalColumn : ℕ
  terminalColor : U8
  terminalBuffer : Screen
  currentTty : ℕ
  ttyBuffers : Fin 4 → Screen
  ttyRows : Fin 4 → ℕ
  ttyColumns : Fin 4 → ℕ
  ttyColors : Fin 4 → U8
  scrollBuffer : Fin 200 → Fin 80 → U8
  scrollWriteLine : ℤ
  scrollViewOffset : ℤ
  scrollMode : Bool
  inEscape : Bool
  escapeBuffer : Fin 16 → U8
  escapeIndex : ℕ
  cursor : U16

def escape : U8 := 0x1B

def backspace : U8 := 0x08

namespace VGADriver

/-! ### The screen -/

def lightGreyOnBlack : U8 := vgaEntryColor .lightGrey .black

/-- What an empty cell holds. -/
def blankEntry : U16 := vgaEntry blank lightGreyOnBlack

/-- The body of the loops of `initialize`. -/
def clearCell (t y x : ℕ) (v : VGADriver) : Option VGADriver :=
  let index := y * 80 + x
  if index ≥ 2000 then some v
  else
    (store₂ v.ttyBuffers t index blankEntry).bind fun buffers =>
      if t = 0 then
        (store v.terminalBuffer index blankEntry).map fun buffer =>
          { v with ttyBuffers := buffers, terminalBuffer := buffer }
      else some { v with ttyBuffers := buffers }

/-- `VGADriver::initialize` -/
def initializeVga (v : VGADriver) : Option VGADriver :=
  let v := { v with
    terminalRow := 0, terminalColumn := 0, terminalColor := lightGreyOnBlack }
  (forRange 4 (fun t => forRange 25 fun y => forRange 80 fun x => clearCell t y x) v).map fun v =>
    { v with
      currentTty := 0
      scrollBuffer := fun _ _ => blank
      scrollWriteLine := 0
      scrollViewOffset := 0
      scrollMode := false }

/-- The position of row and column. -/
def position (v : VGADriver) : U16 := BitVec.ofNat 16 (v.terminalRow * 80 + v.terminalColumn)

/-- `VGADriver::switch_tty` -/
def switchTty (v : VGADriver) (ttyId : ℤ) : Option VGADriver :=
  if ttyId < 0 ∨ ttyId ≥ 4 ∨ ttyId = v.currentTty then some v
  else
    (store v.ttyRows v.currentTty v.terminalRow).bind fun rows =>
    (store v.ttyColumns v.currentTty v.terminalColumn).bind fun columns =>
    (store v.ttyColors v.currentTty v.terminalColor).bind fun colors =>
    (store v.ttyBuffers v.currentTty v.terminalBuffer).bind fun buffers =>
    let tty := ttyId.toNat
    (load rows tty).bind fun row =>
    (load columns tty).bind fun column =>
    (load colors tty).bind fun color =>
    (load buffers tty).map fun buffer =>
      let v := { v with
        currentTty := tty, ttyRows := rows, ttyColumns := columns, ttyColors := colors
        ttyBuffers := buffers, terminalRow := row, terminalColumn := column
        terminalColor := color, terminalBuffer := buffer }
      { v with cursor := v.position }

/-- `VGADriver::set_color` -/
def setColor (v : VGADriver) (color : U8) : VGADriver := { v with terminalColor := color }

/-- `VGADriver::put_entry_at` -/
def putEntryAt (v : VGADriver) (c color : U8) (x y : ℕ) : Option VGADriver :=
  if x ≥ 80 ∨ y ≥ 25 ∨ v.currentTty ≥ 4 then some v
  else
    let index := y * 80 + x
    if index ≥ 2000 then some v
    else
      (store v.terminalBuffer index (vgaEntry c color)).bind fun buffer =>
        (store₂ v.ttyBuffers v.currentTty index (vgaEntry c color)).map fun buffers =>
          { v with terminalBuffer := buffer, ttyBuffers := buffers }

/-- `VGADriver::update_cursor` -/
def updateCursor (v : VGADriver) : VGADriver :=
  if v.terminalRow ≥ 25 ∨ v.terminalColumn ≥ 80 then v else { v with cursor := v.position }

/-- `VGADriver::scroll` -/
def scroll (v : VGADriver) : Option VGADriver :=
  if v.terminalRow < 25 then some v
  else
    (memmove v.terminalBuffer 0 80 (24 * 80)).bind fun buffer =>
      (forRange 80 (fun i buffer => store buffer (24 * 80 + i) blankEntry) buffer).map
        fun buffer => { v with terminalBuffer := buffer, terminalRow := 24 }

/-! ### The lines behind the screen -/

/-- `VGADriver::add_line_to_buffer` -/
def addLineToBuffer (v : VGADriver) (line : Fin 81 → U8) : Option VGADriver :=
  (strlen 0 line).bind fun lineLen =>
  (index v.scrollWriteLine).bind fun writeLine =>
  (forRange 80 (fun i buffer =>
    (if i < lineLen then load line i else some blank).bind fun c => store₂ buffer writeLine i c)
      v.scrollBuffer).map fun buffer =>
    { v with
      scrollBuffer := buffer
      scrollWriteLine := (toSize (v.scrollWriteLine + 1) % 200 : ℕ) }

/-- The loop of `put_char` that copies the current row. -/
def captureLine (v : VGADriver) : Option (Fin 81 → U8) :=
  forRange 80 (fun i line =>
    let index := v.terminalRow * 80 + i
    if index < 2000 then
      (load v.terminalBuffer index).bind fun entry => store line i (entry.setWidth 8)
    else some line) fun _ => 0

/-- The first line that `render_view` shows. -/
def startLine (v : VGADriver) : ℤ :=
  ((toSize (v.scrollWriteLine - v.scrollViewOffset - 25) + 200) % 2 ^ 32 % 200 : ℕ)

/-- The body of the loops of `render_view`. -/
def renderCell (startLine : ℤ) (row col : ℕ) (v : VGADriver) : Option VGADriver :=
  let bufferLine := (toSize startLine + row) % 2 ^ 32 % 200
  (load v.scrollBuffer bufferLine).bind fun line =>
  (load line col).bind fun c =>
  let c := if c = 0 then blank else c
  let entry := vgaEntry c v.terminalColor
  let index := row * 80 + col
  if index < 2000 then
    (store v.terminalBuffer index entry).bind fun buffer =>
      (store₂ v.ttyBuffers v.currentTty index entry).map fun buffers =>
        { v with terminalBuffer := buffer, ttyBuffers := buffers }
  else some v

/-- `VGADriver::render_view` -/
def renderView (v : VGADriver) : Option VGADriver :=
  if v.scrollMode = false ∨ v.currentTty ≥ 4 then some v
  else forRange 25 (fun row => forRange 80 fun col => renderCell v.startLine row col) v

/-- The digit of a number. -/
def digit (x : ℤ) : U8 := BitVec.ofInt 8 (0x30 + x)

/-- `msg` up to its end. -/
def scrollMessage (offset : ℤ) : List U8 :=
  chars "[SCROLL-" ++
    (if offset < 100 then [digit (offset.tdiv 10), digit (offset.tmod 10)] else chars "  ") ++
    chars "]"

def blackOnLightGrey : U8 := vgaEntryColor .black .lightGrey

/-- The loop of `scroll_up` over `msg`. -/
def printMessage (msg : List U8) (buffer : Screen) : Option Screen :=
  forRange msg.length (fun i buffer =>
    if 68 + i < 2000 then store buffer (68 + i) (vgaEntry (msg.getD i 0) blackOnLightGrey)
    else some buffer) buffer

/-- `VGADriver::scroll_up` -/
def scrollUp (v : VGADriver) : Option VGADriver :=
  if toSize v.scrollViewOffset ≥ 174 then some v
  else
    let v := { v with scrollViewOffset := v.scrollViewOffset + 1, scrollMode := true }
    v.renderView.bind fun v =>
      (printMessage (scrollMessage v.scrollViewOffset) v.terminalBuffer).map fun buffer =>
        { v with terminalBuffer := buffer }

/-- `VGADriver::scroll_down` -/
def scrollDown (v : VGADriver) : Option VGADriver :=
  if v.scrollViewOffset = 0 then some v
  else
    let v := { v with scrollViewOffset := v.scrollViewOffset - 1 }
    if v.scrollViewOffset = 0 then
      let v := { v with scrollMode := false }
      if v.currentTty < 4 then
        (load v.ttyBuffers v.currentTty).map fun buffer => { v with terminalBuffer := buffer }
      else some v
    else v.renderView

/-! ### Characters -/

/-- The colours that `set_color_from_ansi` gives to a code. -/
def ansiColors : ℕ → VGAColor × VGAColor
  | 30 => (.black, .black)
  | 31 => (.red, .black)
  | 32 => (.green, .black)
  | 33 => (.brown, .black)
  | 34 => (.blue, .black)
  | 35 => (.magenta, .black)
  | 36 => (.cyan, .black)
  | 41 => (.lightGrey, .red)
  | 42 => (.lightGrey, .green)
  | 43 => (.lightGrey, .brown)
  | 44 => (.lightGrey, .blue)
  | 45 => (.lightGrey, .magenta)
  | 46 => (.lightGrey, .cyan)
  | 47 => (.lightGrey, .lightGrey)
  | 90 => (.darkGrey, .black)
  | 91 => (.lightRed, .black)
  | 92 => (.lightGreen, .black)
  | 93 => (.lightBrown, .black)
  | 94 => (.lightBlue, .black)
  | 95 => (.lightMagenta, .black)
  | 96 => (.lightCyan, .black)
  | 97 => (.white, .black)
  | 100 => (.lightGrey, .darkGrey)
  | 101 => (.lightGrey, .lightRed)
  | 102 => (.lightGrey, .lightGreen)
  | 103 => (.lightGrey, .lightBrown)
  | 104 => (.lightGrey, .lightBlue)
  | 105 => (.lightGrey, .lightMagenta)
  | 106 => (.lightGrey, .lightCyan)
  | 107 => (.lightGrey, .white)
  | _ => (.lightGrey, .black)

/-- `VGADriver::set_color_from_ansi` -/
def setColorFromAnsi (v : VGADriver) (code : U32) : VGADriver :=
  let (fg, bg) := ansiColors code.toNat
  v.setColor (vgaEntryColor fg bg)

/-- The local variables of the loop in `process_ansi_sequence`; the sum of a long row of digits
wraps around. -/
structure AnsiLoop where
  driver : VGADriver
  code : U32
  parsing : Bool

def AnsiLoop.body (sequence : Fin 16 → U8) (k : ℕ) (l : AnsiLoop) : Option AnsiLoop :=
  (load sequence (k + 2)).map fun c =>
    if 0x30#8 ≤ c ∧ c ≤ 0x39#8 then
      { l with code := l.code * 10 + (c - 0x30).setWidth 32, parsing := true }
    else if c = 0x3B then
      { driver := l.driver.setColorFromAnsi l.code, code := 0, parsing := false }
    else l

/-- `VGADriver::process_ansi_sequence` -/
def processAnsiSequence (v : VGADriver) (sequence : Fin 16 → U8) (length : ℕ) :
    Option VGADriver :=
  if length < 3 then some v
  else
    (load sequence 0).bind fun first =>
    (load sequence 1).bind fun second =>
    if first ≠ escape ∨ second ≠ 0x5B then some v
    else
      (load sequence (length - 1)).bind fun last =>
        if last = 0x6D then
          (forRange (length - 3) (AnsiLoop.body sequence)
            { driver := v, code := 0, parsing := false }).map fun l =>
              if l.parsing then l.driver.setColorFromAnsi l.code else l.driver
        else some v

/-- The character that ends an escape sequence. -/
def endsSequence (c : U8) : Bool :=
  (0x41#8 ≤ c && c ≤ 0x5A#8) || (0x61#8 ≤ c && c ≤ 0x7A#8) || c == 0x40 || c == 0x60

/-- The characters outside of escape sequences. -/
def putPlain (v : VGADriver) (c : U8) : Option VGADriver :=
  if c = newline then
    v.captureLine.bind fun line => (v.addLineToBuffer line).map fun v =>
      let v := { v with terminalColumn := 0, terminalRow := v.terminalRow + 1 }
      if v.scrollMode then { v with scrollMode := false, scrollViewOffset := 0 } else v
  else if c = backspace then
    some (if v.terminalColumn > 0 then { v with terminalColumn := v.terminalColumn - 1 } else v)
  else if c ≥ 32#8 then
    (v.putEntryAt c v.terminalColor v.terminalColumn v.terminalRow).map fun v =>
      let v := { v with terminalColumn := v.terminalColumn + 1 }
      if v.terminalColumn ≥ 80 then
        { v with terminalColumn := 0, terminalRow := v.terminalRow + 1 }
      else v
  else some v

/-- `VGADriver::put_char` -/
def putChar (v : VGADriver) (c : U8) : Option VGADriver :=
  if v.scrollMode then
    if c = newline then v.captureLine.bind v.addLineToBuffer else some v
  else if c = escape then
    (store v.escapeBuffer 0 c).map fun buffer =>
      { v with inEscape := true, escapeBuffer := buffer, escapeIndex := 1 }
  else if v.inEscape then
    (store v.escapeBuffer v.escapeIndex c).bind fun buffer =>
      let v := { v with escapeBuffer := buffer, escapeIndex := v.escapeIndex + 1 }
      if v.escapeIndex ≥ 15 then some { v with inEscape := false }
      else if endsSequence c then
        (v.processAnsiSequence v.escapeBuffer v.escapeIndex).map fun v =>
          { v with inEscape := false }
      else some v
  else (v.putPlain c).bind fun v => v.scroll.map updateCursor

/-! ### Runs -/

inductive Event
  | initializeVga
  | putChar (c : U8)
  | setColor (color : U8)
  | switchTty (ttyId : ℤ)
  | scrollUp
  | scrollDown

def step (v : VGADriver) : Event → Option VGADriver
  | .initializeVga => v.initializeVga
  | .putChar c => v.putChar c
  | .setColor color => some (v.setColor color)
  | .switchTty ttyId => v.switchTty ttyId
  | .scrollUp => v.scrollUp
  | .scrollDown => v.scrollDown

/-- The static members before the first call; `screen` is what the firmware has left. -/
def boot (screen : Screen) : VGADriver where
  terminalRow := 0
  terminalColumn := 0
  terminalColor := 0x07
  terminalBuffer := screen
  currentTty := 0
  ttyBuffers := fun _ _ => 0
  ttyRows := fun _ => 0
  ttyColumns := fun _ => 0
  ttyColors := fun _ => 0x07
  scrollBuffer := fun _ _ => 0
  scrollWriteLine := 0
  scrollViewOffset := 0
  scrollMode := false
  inEscape := false
  escapeBuffer := fun _ => 0
  escapeIndex := 0
  cursor := 0

/-! ### Bounds -/

/-- The bounds of the counters. -/
structure Bounds (v : VGADriver) : Prop where
  row : v.terminalRow < 25
  column : v.terminalColumn < 80
  tty : v.currentTty < 4
  rows : ∀ t, v.ttyRows t < 25
  columns : ∀ t, v.ttyColumns t < 80
  writeLine : 0 ≤ v.scrollWriteLine ∧ v.scrollWriteLine < 200
  viewOffset : 0 ≤ v.scrollViewOffset ∧ v.scrollViewOffset ≤ 174
  mode : v.scrollMode = true ↔ 0 < v.scrollViewOffset
  escapeIndex : v.escapeIndex ≤ 15
  collecting : v.inEscape = true → v.escapeIndex < 15

/-- Nothing but the screen of the current terminal changes. -/
structure OutputOnly (v v' : VGADriver) : Prop where
  tty : v'.currentTty = v.currentTty
  rows : v'.ttyRows = v.ttyRows
  columns : v'.ttyColumns = v.ttyColumns
  colors : v'.ttyColors = v.ttyColors
  buffers : ∀ t : Fin 4, (t : ℕ) ≠ v.currentTty → v'.ttyBuffers t = v.ttyBuffers t
  viewOffset : v'.scrollViewOffset = v.scrollViewOffset
  mode : v'.scrollMode = v.scrollMode

theorem OutputOnly.refl (v : VGADriver) : OutputOnly v v :=
  ⟨rfl, rfl, rfl, rfl, fun _ _ => rfl, rfl, rfl⟩

theorem OutputOnly.trans {v v' v'' : VGADriver} (h : OutputOnly v v') (h' : OutputOnly v' v'') :
    OutputOnly v v'' where
  tty := h'.tty.trans h.tty
  rows := h'.rows.trans h.rows
  columns := h'.columns.trans h.columns
  colors := h'.colors.trans h.colors
  buffers t ht := (h'.buffers t (h.tty.symm ▸ ht)).trans (h.buffers t ht)
  viewOffset := h'.viewOffset.trans h.viewOffset
  mode := h'.mode.trans h.mode

variable {v v' : VGADriver}

theorem index_of_nonneg {x : ℤ} (h : 0 ≤ x) : index x = some x.toNat := if_pos h

/-- The line that is copied ends where it ends at the latest. -/
theorem captureLine_spec (h : v.terminalRow < 25) :
    ∃ line : Fin 81 → U8, v.captureLine = some line ∧ line 80 = 0 := by
  refine forRange_spec (fun _ (line : Fin 81 → U8) => line 80 = 0) (fun k hk line hline => ?_) rfl
  rw [if_pos (by omega), load_of_lt _ (by omega), Option.bind_some, store_of_lt _ (by omega)]
  refine ⟨_, rfl, ?_⟩
  rw [Function.update_of_ne]
  · exact hline
  · intro heq
    have hval := congrArg Fin.val heq
    exact absurd hval (by
      change (80 : ℕ) ≠ k
      omega)

/-- A line goes into the scroll buffer. -/
theorem addLineToBuffer_spec (h : v.Bounds) {line : Fin 81 → U8} (hline : line 80 = 0) :
    ∃ buffer, v.addLineToBuffer line = some { v with
      scrollBuffer := buffer
      scrollWriteLine := (toSize (v.scrollWriteLine + 1) % 200 : ℕ) } := by
  obtain ⟨n, hn⟩ := strlen_isSome 80 hline
  have hlt := strlen_lt hn
  obtain ⟨hlow, hhigh⟩ := h.writeLine
  obtain ⟨buffer, hbuffer⟩ : ∃ buffer, forRange 80 (fun i buffer =>
      (if i < n then load line i else some blank).bind fun c =>
        store₂ buffer v.scrollWriteLine.toNat i c) v.scrollBuffer = some buffer := by
    refine forRange_isSome (fun k hk buffer => ?_) _
    obtain ⟨c, hc⟩ : ∃ c, (if k < n then load line k else some blank) = some c := by
      by_cases hkn : k < n
      · exact ⟨_, (if_pos hkn).trans (load_of_lt line (by omega))⟩
      · exact ⟨_, if_neg hkn⟩
    rw [hc, Option.bind_some, store₂_of_lt _ (by omega) hk]
    exact ⟨_, rfl⟩
  refine ⟨buffer, ?_⟩
  rw [addLineToBuffer, hn, Option.bind_some, index_of_nonneg hlow, Option.bind_some, hbuffer]
  rfl

theorem writeLine_next (w : ℤ) :
    (0 : ℤ) ≤ (toSize (w + 1) % 200 : ℕ) ∧ ((toSize (w + 1) % 200 : ℕ) : ℤ) < 200 := by
  omega

/-- The cell is written on the screen and in the buffer of the current terminal. -/
theorem putEntryAt_spec (c color : U8) {x y : ℕ} (hx : x < 80) (hy : y < 25)
    (htty : v.currentTty < 4) :
    v.putEntryAt c color x y = some { v with
      terminalBuffer :=
        Function.update v.terminalBuffer ⟨y * 80 + x, by omega⟩ (vgaEntry c color)
      ttyBuffers := Function.update v.ttyBuffers ⟨v.currentTty, htty⟩
        (Function.update (v.ttyBuffers ⟨v.currentTty, htty⟩) ⟨y * 80 + x, by omega⟩
          (vgaEntry c color)) } := by
  rw [putEntryAt, if_neg (by omega)]
  dsimp only
  rw [if_neg (by omega), store_of_lt _ (by omega), Option.bind_some,
    store₂_of_lt _ htty (by omega)]
  rfl

/-- The screen moves up when the cursor is below it. -/
theorem scroll_spec (v : VGADriver) :
    ∃ buffer, v.scroll = some { v with
      terminalBuffer := buffer
      terminalRow := if v.terminalRow < 25 then v.terminalRow else 24 } := by
  rw [scroll]
  by_cases hrow : v.terminalRow < 25
  · rw [if_pos hrow, if_pos hrow]
    exact ⟨v.terminalBuffer, rfl⟩
  · obtain ⟨moved, hmoved⟩ := memmove_isSome v.terminalBuffer
      (show 0 + 24 * 80 ≤ 2000 by decide) (show 80 + 24 * 80 ≤ 2000 by decide)
    obtain ⟨buffer, hbuffer⟩ : ∃ buffer, forRange 80 (fun i buffer =>
        store buffer (24 * 80 + i) blankEntry) moved = some buffer :=
      forRange_isSome (fun k hk buffer => ⟨_, store_of_lt buffer (by omega) _⟩) _
    refine ⟨buffer, ?_⟩
    rw [if_neg hrow, if_neg hrow, hmoved, Option.bind_some, hbuffer]
    rfl

/-- The loop over the parameters changes the colour and nothing else. -/
theorem ansiLoop_spec (v : VGADriver) (sequence : Fin 16 → U8) {length : ℕ} (h : length ≤ 16) :
    ∃ l, forRange (length - 3) (AnsiLoop.body sequence)
      { driver := v, code := 0, parsing := false } = some l ∧
        ∃ color, l.driver = { v with terminalColor := color } := by
  refine forRange_spec (fun _ (l : AnsiLoop) => ∃ color, l.driver = { v with terminalColor := color })
    (fun k hk l ⟨color, hcolor⟩ => ?_) ⟨v.terminalColor, rfl⟩
  rw [AnsiLoop.body, load_of_lt _ (by omega), Option.map_some]
  refine ⟨_, rfl, ?_⟩
  split
  · exact ⟨color, hcolor⟩
  · split
    · -- a parameter ends, and its colour is set
      exact ⟨_, by rw [hcolor]; rfl⟩
    · exact ⟨color, hcolor⟩

/-- An escape sequence changes the colour and nothing else. -/
theorem processAnsiSequence_spec (v : VGADriver) (sequence : Fin 16 → U8) {length : ℕ}
    (h : length ≤ 16) :
    ∃ color, v.processAnsiSequence sequence length = some { v with terminalColor := color } := by
  have hsame : some v = some { v with terminalColor := v.terminalColor } := rfl
  rw [processAnsiSequence]
  by_cases hshort : length < 3
  · exact ⟨v.terminalColor, if_pos hshort⟩
  · rw [if_neg hshort, load_of_lt _ (by decide), Option.bind_some, load_of_lt _ (by decide),
      Option.bind_some]
    split
    · exact ⟨v.terminalColor, hsame⟩
    · rw [load_of_lt _ (by omega), Option.bind_some]
      split
      · obtain ⟨l, hl, color, hcolor⟩ := ansiLoop_spec v sequence h
        rw [hl, Option.map_some, hcolor]
        split
        · -- the last parameter is still being read
          exact ⟨_, rfl⟩
        · exact ⟨color, rfl⟩
      · exact ⟨v.terminalColor, hsame⟩

/-- What a character outside of escape sequences does: the cursor may go one row below the
screen. -/
structure PlainOutput (v v' : VGADriver) : Prop extends OutputOnly v v' where
  row : v'.terminalRow ≤ 25
  column : v'.terminalColumn < 80
  writeLine : 0 ≤ v'.scrollWriteLine ∧ v'.scrollWriteLine < 200
  escapeIndex : v'.escapeIndex = v.escapeIndex
  inEscape : v'.inEscape = v.inEscape

theorem Bounds.plainOutput_refl (h : v.Bounds) : PlainOutput v v :=
  ⟨OutputOnly.refl v, Nat.le_of_lt h.row, h.column, h.writeLine, rfl, rfl⟩

/-- The line is captured, and the cursor goes to the next one. -/
theorem putPlain_newline (h : v.Bounds) (hmode : v.scrollMode = false) :
    ∃ v', v.putPlain newline = some v' ∧ PlainOutput v v' := by
  obtain ⟨line, hline, hend⟩ := captureLine_spec h.row
  obtain ⟨buffer, hbuffer⟩ := addLineToBuffer_spec h hend
  rw [putPlain, if_pos rfl, hline, Option.bind_some, hbuffer, Option.map_some]
  dsimp only
  rw [hmode, if_neg Bool.false_ne_true]
  exact ⟨_, rfl, ⟨rfl, rfl, rfl, rfl, fun _ _ => rfl, rfl, hmode.symm⟩, h.row, Nat.succ_pos _,
    writeLine_next _, rfl, rfl⟩

theorem putPlain_backspace (h : v.Bounds) :
    ∃ v', v.putPlain backspace = some v' ∧ PlainOutput v v' := by
  rw [putPlain, if_neg (by decide), if_pos rfl]
  refine ⟨_, rfl, ?_⟩
  by_cases hcolumn : v.terminalColumn > 0
  · rw [if_pos hcolumn]
    exact ⟨⟨rfl, rfl, rfl, rfl, fun _ _ => rfl, rfl, rfl⟩, Nat.le_of_lt h.row,
      Nat.lt_of_le_of_lt (Nat.sub_le ..) h.column, h.writeLine, rfl, rfl⟩
  · rw [if_neg hcolumn]
    exact h.plainOutput_refl

/-- The character is put on the screen, and the cursor moves on. -/
theorem putPlain_printable (h : v.Bounds) {c : U8} (hnewline : c ≠ newline)
    (hback : c ≠ backspace) (hprint : c ≥ 32#8) :
    ∃ v', v.putPlain c = some v' ∧ PlainOutput v v' := by
  have hother : ∀ t : Fin 4, (t : ℕ) ≠ v.currentTty → ∀ buffer,
      Function.update v.ttyBuffers ⟨v.currentTty, h.tty⟩ buffer t = v.ttyBuffers t := by
    intro t ht buffer
    exact Function.update_of_ne (fun heq => ht (congrArg Fin.val heq)) ..
  rw [putPlain, if_neg hnewline, if_neg hback, if_pos hprint,
    putEntryAt_spec c _ h.column h.row h.tty, Option.map_some]
  refine ⟨_, rfl, ?_⟩
  dsimp only
  by_cases hwrap : v.terminalColumn + 1 ≥ 80
  · rw [if_pos hwrap]
    exact ⟨⟨rfl, rfl, rfl, rfl, fun t ht => hother t ht _, rfl, rfl⟩, h.row, Nat.succ_pos 79,
      h.writeLine, rfl, rfl⟩
  · rw [if_neg hwrap]
    exact ⟨⟨rfl, rfl, rfl, rfl, fun t ht => hother t ht _, rfl, rfl⟩, Nat.le_of_lt h.row,
      Nat.lt_of_not_le hwrap, h.writeLine, rfl, rfl⟩

theorem putPlain_spec (h : v.Bounds) (hmode : v.scrollMode = false) (c : U8) :
    ∃ v', v.putPlain c = some v' ∧ PlainOutput v v' := by
  by_cases hnewline : c = newline
  · rw [hnewline]
    exact putPlain_newline h hmode
  · by_cases hback : c = backspace
    · rw [hback]
      exact putPlain_backspace h
    · by_cases hprint : c ≥ 32#8
      · exact putPlain_printable h hnewline hback hprint
      · -- the other control characters are ignored
        rw [putPlain, if_neg hnewline, if_neg hback, if_neg hprint]
        exact ⟨v, rfl, h.plainOutput_refl⟩

theorem updateCursor_eq (v : VGADriver) : ∃ cursor, v.updateCursor = { v with cursor := cursor } := by
  rw [updateCursor]
  split
  · exact ⟨v.cursor, rfl⟩
  · exact ⟨_, rfl⟩

/-- Characters outside of escape sequences, with what follows them. -/
theorem putPlain_scroll_spec (h : v.Bounds) (hmode : v.scrollMode = false) (c : U8) :
    ∃ v', ((v.putPlain c).bind fun v => v.scroll.map updateCursor) = some v' ∧ v'.Bounds ∧
      OutputOnly v v' := by
  obtain ⟨u, hu, hout⟩ := putPlain_spec h hmode c
  obtain ⟨buffer, hbuffer⟩ := u.scroll_spec
  rw [hu, Option.bind_some, hbuffer, Option.map_some]
  obtain ⟨cursor, hcursor⟩ := updateCursor_eq
    { u with
      terminalBuffer := buffer
      terminalRow := if u.terminalRow < 25 then u.terminalRow else 24 }
  rw [hcursor]
  refine ⟨_, rfl, ?_, hout.toOutputOnly.trans ⟨rfl, rfl, rfl, rfl, fun _ _ => rfl, rfl, rfl⟩⟩
  constructor
  · have hrow := hout.row
    dsimp only
    split <;> omega
  · exact hout.column
  · exact hout.tty ▸ h.tty
  · exact hout.rows ▸ h.rows
  · exact hout.columns ▸ h.columns
  · exact hout.writeLine
  · exact hout.viewOffset ▸ h.viewOffset
  · exact hout.mode ▸ hout.viewOffset ▸ h.mode
  · exact hout.escapeIndex ▸ h.escapeIndex
  · exact fun hin => hout.escapeIndex ▸ h.collecting (hout.inEscape ▸ hin)

/-- While the screen shows the backlog, only lines are captured. -/
theorem putChar_scrolled (h : v.Bounds) (hmode : v.scrollMode = true) (c : U8) :
    ∃ v', v.putChar c = some v' ∧ v'.Bounds ∧ OutputOnly v v' := by
  rw [putChar, if_pos hmode]
  by_cases hnewline : c = newline
  · obtain ⟨line, hline, hend⟩ := captureLine_spec h.row
    obtain ⟨buffer, hbuffer⟩ := addLineToBuffer_spec h hend
    rw [if_pos hnewline, hline, Option.bind_some, hbuffer]
    exact ⟨_, rfl, { h with writeLine := writeLine_next _ },
      ⟨rfl, rfl, rfl, rfl, fun _ _ => rfl, rfl, rfl⟩⟩
  · rw [if_neg hnewline]
    exact ⟨v, rfl, h, OutputOnly.refl v⟩

/-- A character within an escape sequence; the sequence is given up when the buffer is full. -/
theorem putChar_collecting (h : v.Bounds) (hmode : ¬v.scrollMode = true) {c : U8}
    (hesc : c ≠ escape) (hin : v.inEscape = true) :
    ∃ v', v.putChar c = some v' ∧ v'.Bounds ∧ OutputOnly v v' := by
  have hindex := h.collecting hin
  rw [putChar, if_neg hmode, if_neg hesc, if_pos hin, store_of_lt _ (by omega), Option.bind_some]
  dsimp only
  by_cases hfull : v.escapeIndex + 1 ≥ 15
  · rw [if_pos hfull]
    exact ⟨_, rfl, { h with
        escapeIndex := hindex
        collecting := fun hfalse => absurd hfalse Bool.false_ne_true },
      ⟨rfl, rfl, rfl, rfl, fun _ _ => rfl, rfl, rfl⟩⟩
  · rw [if_neg hfull]
    by_cases hends : endsSequence c = true
    · rw [if_pos hends]
      obtain ⟨color, hcolor⟩ := processAnsiSequence_spec
        { v with
          escapeBuffer := Function.update v.escapeBuffer ⟨v.escapeIndex, by omega⟩ c
          escapeIndex := v.escapeIndex + 1 }
        (Function.update v.escapeBuffer ⟨v.escapeIndex, by omega⟩ c)
        (show v.escapeIndex + 1 ≤ 16 by omega)
      rw [hcolor, Option.map_some]
      exact ⟨_, rfl, { h with
          escapeIndex := hindex
          collecting := fun hfalse => absurd hfalse Bool.false_ne_true },
        ⟨rfl, rfl, rfl, rfl, fun _ _ => rfl, rfl, rfl⟩⟩
    · rw [if_neg hends]
      exact ⟨_, rfl, { h with
          escapeIndex := hindex
          collecting := fun _ => Nat.lt_of_not_le hfull },
        ⟨rfl, rfl, rfl, rfl, fun _ _ => rfl, rfl, rfl⟩⟩

/-- `put_char` stays within the arrays, keeps the bounds and changes nothing but the screen of
the current terminal. -/
theorem putChar_spec (h : v.Bounds) (c : U8) :
    ∃ v', v.putChar c = some v' ∧ v'.Bounds ∧ OutputOnly v v' := by
  by_cases hmode : v.scrollMode = true
  · exact putChar_scrolled h hmode c
  · by_cases hesc : c = escape
    · -- a sequence begins, whether or not another one was being read
      rw [putChar, if_neg hmode, if_pos hesc, store_of_lt _ (by decide), Option.map_some]
      exact ⟨_, rfl, { h with
          escapeIndex := (by decide : 1 ≤ 15)
          collecting := fun _ => (by decide : 1 < 15) },
        ⟨rfl, rfl, rfl, rfl, fun _ _ => rfl, rfl, rfl⟩⟩
    · by_cases hin : v.inEscape = true
      · exact putChar_collecting h hmode hesc hin
      · rw [putChar, if_neg hmode, if_neg hesc, if_neg hin]
        exact putPlain_scroll_spec h (Bool.eq_false_iff.mpr hmode) c

/-! ### Terminals -/

theorem switchTty_same {ttyId : ℤ} (h : ttyId < 0 ∨ ttyId ≥ 4 ∨ ttyId = v.currentTty) :
    v.switchTty ttyId = some v := if_pos h

/-- The state behind a switch to another terminal. -/
def switchedTo (v : VGADriver) (current tty : Fin 4) : VGADriver :=
  let v := { v with
    currentTty := tty
    ttyRows := Function.update v.ttyRows current v.terminalRow
    ttyColumns := Function.update v.ttyColumns current v.terminalColumn
    ttyColors := Function.update v.ttyColors current v.terminalColor
    ttyBuffers := Function.update v.ttyBuffers current v.terminalBuffer
    terminalRow := v.ttyRows tty
    terminalColumn := v.ttyColumns tty
    terminalColor := v.ttyColors tty
    terminalBuffer := v.ttyBuffers tty }
  { v with cursor := v.position }

theorem switchTty_other {current tty : Fin 4} (hcurrent : v.currentTty = current)
    (hne : tty ≠ current) : v.switchTty (tty : ℕ) = some (v.switchedTo current tty) := by
  have htty : ¬(((tty : ℕ) : ℤ) < 0 ∨ ((tty : ℕ) : ℤ) ≥ 4 ∨
      ((tty : ℕ) : ℤ) = (v.currentTty : ℕ)) := by
    have hlt := tty.isLt
    have hval : (tty : ℕ) ≠ current := fun heq => hne (Fin.ext heq)
    omega
  have hload : ∀ {β : Type} (a : Fin 4 → β) (x : β),
      load (Function.update a current x) ((tty : ℕ) : ℤ).toNat = some (a tty) := by
    intro β a x
    rw [Int.toNat_natCast, load_of_lt _ tty.isLt]
    exact congrArg some (Function.update_of_ne hne ..)
  have hstore : ∀ {β : Type} (a : Fin 4 → β) (x : β),
      store a v.currentTty x = some (Function.update a current x) := by
    intro β a x
    rw [hcurrent, store_of_lt _ current.isLt]
  rw [switchTty, if_neg htty, hstore, Option.bind_some, hstore, Option.bind_some, hstore,
    Option.bind_some, hstore, Option.bind_some]
  dsimp only
  rw [hload, Option.bind_some, hload, Option.bind_some, hload, Option.bind_some, hload,
    Option.map_some, Int.toNat_natCast]
  rfl

/-- A switch does nothing or goes to another terminal. -/
theorem switchTty_cases (h : v.currentTty < 4) (ttyId : ℤ) :
    v.switchTty ttyId = some v ∨ ∃ current tty : Fin 4, v.currentTty = current ∧ tty ≠ current ∧
      ttyId = (tty : ℕ) ∧ v.switchTty ttyId = some (v.switchedTo current tty) := by
  by_cases hsame : ttyId < 0 ∨ ttyId ≥ 4 ∨ ttyId = v.currentTty
  · exact Or.inl (switchTty_same hsame)
  · obtain ⟨n, rfl⟩ : ∃ n : ℕ, ttyId = n := ⟨ttyId.toNat, (Int.toNat_of_nonneg (by omega)).symm⟩
    have hlt : n < 4 := by omega
    have hne : (⟨n, hlt⟩ : Fin 4) ≠ ⟨v.currentTty, h⟩ := by
      intro heq
      have hval : n = v.currentTty := congrArg Fin.val heq
      omega
    exact Or.inr ⟨⟨v.currentTty, h⟩, ⟨n, hlt⟩, rfl, hne, rfl, switchTty_other rfl hne⟩

theorem Bounds.switchedTo (h : v.Bounds) (current tty : Fin 4) :
    (v.switchedTo current tty).Bounds := by
  have hupdate : ∀ (a : Fin 4 → ℕ) (x b : ℕ), (∀ t, a t < b) → x < b →
      ∀ t, Function.update a current x t < b := by
    intro a x b ha hx t
    rw [Function.update_apply]
    split
    · exact hx
    · exact ha t
  exact { h with
    row := h.rows tty
    column := h.columns tty
    tty := tty.isLt
    rows := hupdate _ _ _ h.rows h.row
    columns := hupdate _ _ _ h.columns h.column }

theorem switchTty_spec (h : v.Bounds) (ttyId : ℤ) :
    ∃ v', v.switchTty ttyId = some v' ∧ v'.Bounds := by
  rcases switchTty_cases h.tty ttyId with hsame | ⟨current, tty, -, -, -, hswitch⟩
  · exact ⟨v, hsame, h⟩
  · exact ⟨_, hswitch, h.switchedTo current tty⟩

/-! ### Clearing and rendering -/

def withScreens (v : VGADriver) (buffers : Fin 4 → Screen) (screen : Screen) : VGADriver :=
  { v with ttyBuffers := buffers, terminalBuffer := screen }

/-- The state of the loops of `initialize` in terminal `t`, with `m` cells cleared. -/
def clearing (v : VGADriver) (t m : ℕ) : VGADriver :=
  v.withScreens
    (fun t' => filled (v.ttyBuffers t') (fun _ => blankEntry)
      (if (t' : ℕ) < t then 2000 else if (t' : ℕ) = t then m else 0))
    (filled v.terminalBuffer (fun _ => blankEntry) (if t = 0 then m else 2000))

theorem clearCell_clearing (v : VGADriver) {t y x : ℕ} (ht : t < 4) (hy : y < 25) (hx : x < 80) :
    clearCell t y x (v.clearing t (y * 80 + x)) = some (v.clearing t (y * 80 + (x + 1))) := by
  have hindex : y * 80 + x < 2000 := by omega
  have hbuffers : store₂ (v.clearing t (y * 80 + x)).ttyBuffers t (y * 80 + x) blankEntry =
      some (v.clearing t (y * 80 + (x + 1))).ttyBuffers := by
    rw [store₂_of_lt _ ht hindex]
    refine congrArg some (funext fun t' => ?_)
    by_cases heq : t' = ⟨t, ht⟩
    · subst heq
      rw [Function.update_self, clearing, clearing, withScreens, withScreens]
      dsimp only
      rw [if_neg (Nat.lt_irrefl t), if_pos rfl, if_neg (Nat.lt_irrefl t), if_pos rfl]
      exact update_filled (v.ttyBuffers ⟨t, ht⟩) (fun _ => blankEntry) ⟨y * 80 + x, hindex⟩
    · have hne : (t' : ℕ) ≠ t := fun hval => heq (Fin.ext hval)
      rw [Function.update_of_ne heq, clearing, clearing, withScreens, withScreens]
      dsimp only
      rw [if_neg hne, if_neg hne]
  rw [clearCell, if_neg (by omega), hbuffers, Option.bind_some]
  by_cases hzero : t = 0
  · have hscreen : store (v.clearing t (y * 80 + x)).terminalBuffer (y * 80 + x) blankEntry =
        some (v.clearing t (y * 80 + (x + 1))).terminalBuffer := by
      rw [clearing, clearing, withScreens, withScreens]
      dsimp only
      rw [if_pos hzero, if_pos hzero]
      exact store_filled v.terminalBuffer (fun _ => blankEntry) hindex
    rw [if_pos hzero, hscreen]
    rfl
  · have hscreen : (v.clearing t (y * 80 + x)).terminalBuffer =
        (v.clearing t (y * 80 + (x + 1))).terminalBuffer := by
      rw [clearing, clearing, withScreens, withScreens]
      dsimp only
      rw [if_neg hzero, if_neg hzero]
    rw [if_neg hzero]
    exact congrArg (fun screen => some (v.withScreens _ screen)) hscreen

/-- Two nested loops over the cells of the screen. -/
theorem forRange_cells {σ : Type*} {body : ℕ → ℕ → σ → Option σ} (f : ℕ → σ)
    (hbody : ∀ y < 25, ∀ x < 80, body y x (f (y * 80 + x)) = some (f (y * 80 + (x + 1)))) :
    forRange 25 (fun y => forRange 80 fun x => body y x) (f 0) = some (f 2000) := by
  refine forRange_eq (fun y => f (y * 80)) fun y hy => ?_
  rw [Nat.succ_mul]
  exact forRange_eq (fun x => f (y * 80 + x)) (hbody y hy)

theorem clearing_zero (v : VGADriver) : v.clearing 0 0 = v := by
  refine congrArg₂ v.withScreens (funext fun t' => ?_) (filled_zero v.terminalBuffer _)
  rw [if_neg (Nat.not_lt_zero _), ite_self, filled_zero]

theorem clearing_next (v : VGADriver) (t : ℕ) : v.clearing t 2000 = v.clearing (t + 1) 0 := by
  refine congrArg₂ v.withScreens (funext fun t' => congrArg (filled _ _) ?_)
    (congrArg (filled _ _) ?_)
  · split_ifs <;> omega
  · rw [ite_self, if_neg (Nat.succ_ne_zero t)]

theorem clearing_all (v : VGADriver) :
    v.clearing 4 0 = v.withScreens (fun _ _ => blankEntry) fun _ => blankEntry := by
  refine congrArg₂ v.withScreens (funext fun t' => ?_) (filled_all v.terminalBuffer _)
  rw [if_pos t'.isLt]
  exact filled_all (v.ttyBuffers t') _

/-- Every cell of the screen and of all terminals is empty. -/
def cleared (v : VGADriver) : VGADriver :=
  { v with
    terminalRow := 0
    terminalColumn := 0
    terminalColor := lightGreyOnBlack
    terminalBuffer := fun _ => blankEntry
    currentTty := 0
    ttyBuffers := fun _ _ => blankEntry
    scrollBuffer := fun _ _ => blank
    scrollWriteLine := 0
    scrollViewOffset := 0
    scrollMode := false }

theorem forRange_clearCell (v : VGADriver) :
    forRange 4 (fun t => forRange 25 fun y => forRange 80 fun x => clearCell t y x) v =
      some (v.withScreens (fun _ _ => blankEntry) fun _ => blankEntry) := by
  have hloop : forRange 4 (fun t => forRange 25 fun y => forRange 80 fun x => clearCell t y x)
      (v.clearing 0 0) = some (v.clearing 4 0) := by
    refine forRange_eq (fun t => v.clearing t 0) fun t ht => ?_
    rw [← clearing_next]
    exact forRange_cells (v.clearing t) fun y hy x hx => clearCell_clearing v ht hy hx
  rwa [clearing_zero, clearing_all] at hloop

theorem initializeVga_eq (v : VGADriver) : v.initializeVga = some v.cleared := by
  rw [initializeVga, forRange_clearCell]
  rfl

theorem Bounds.cleared (h : v.Bounds) : v.cleared.Bounds :=
  { h with
    row := (by decide : 0 < 25)
    column := (by decide : 0 < 80)
    tty := (by decide : 0 < 4)
    writeLine := (by decide : (0 : ℤ) ≤ 0 ∧ (0 : ℤ) < 200)
    viewOffset := (by decide : (0 : ℤ) ≤ 0 ∧ (0 : ℤ) ≤ 174)
    mode := (by decide : false = true ↔ (0 : ℤ) < 0) }

/-- What `render_view` puts into a column of a line of the scroll buffer. -/
def shownEntry (v : VGADriver) (line : Fin 200) (col : Fin 80) : U16 :=
  let c := v.scrollBuffer line col
  vgaEntry (if c = 0 then blank else c) v.terminalColor

/-- The lines of the scroll buffer that stand `offset` lines above the last screen, in the
current colour. -/
def backlog (v : VGADriver) (offset : ℕ) : Screen := fun i =>
  v.shownEntry
    ⟨(v.scrollWriteLine.toNat + 175 - offset + i / 80) % 200, Nat.mod_lt _ (by decide)⟩
    ⟨i % 80, Nat.mod_lt _ (by decide)⟩

/-- The state of the loops of `render_view` with `m` cells drawn. -/
def rendering (v : VGADriver) (tty : Fin 4) (view : Screen) (m : ℕ) : VGADriver :=
  v.withScreens (Function.update v.ttyBuffers tty (filled (v.ttyBuffers tty) view m))
    (filled v.terminalBuffer view m)

theorem startLine_eq {offset : ℕ} (hwrite : 0 ≤ v.scrollWriteLine ∧ v.scrollWriteLine < 200)
    (hoffset : v.scrollViewOffset = offset) (hle : offset ≤ 174) :
    v.startLine = ((v.scrollWriteLine.toNat + 175 - offset) % 200 : ℕ) := by
  obtain ⟨hlow, hhigh⟩ := hwrite
  rw [startLine, toSize, hoffset]
  omega

theorem renderCell_eq {tty : Fin 4} (htty : v.currentTty = tty) (start : ℤ) {row col : ℕ}
    (hrow : row < 25) (hcol : col < 80) :
    renderCell start row col v =
      some (v.withScreens
        (Function.update v.ttyBuffers tty (Function.update (v.ttyBuffers tty)
          ⟨row * 80 + col, by omega⟩ (v.shownEntry ⟨(toSize start + row) % 2 ^ 32 % 200,
            Nat.mod_lt _ (by decide)⟩ ⟨col, hcol⟩)))
        (Function.update v.terminalBuffer ⟨row * 80 + col, by omega⟩
          (v.shownEntry ⟨(toSize start + row) % 2 ^ 32 % 200, Nat.mod_lt _ (by decide)⟩
            ⟨col, hcol⟩))) := by
  have hlt : v.currentTty < 4 := htty ▸ tty.isLt
  have hcurrent : (⟨v.currentTty, hlt⟩ : Fin 4) = tty := Fin.ext htty
  rw [renderCell]
  dsimp only
  rw [load_of_lt _ (Nat.mod_lt _ (by decide)), Option.bind_some, load_of_lt _ hcol,
    Option.bind_some, if_pos (by omega), store_of_lt _ (by omega), Option.bind_some,
    store₂_of_lt _ hlt (by omega), hcurrent]
  rfl

theorem renderCell_rendering {offset : ℕ} {tty : Fin 4} (htty : v.currentTty = tty)
    (hwrite : 0 ≤ v.scrollWriteLine ∧ v.scrollWriteLine < 200)
    (hoffset : v.scrollViewOffset = offset) (hle : offset ≤ 174) {row col : ℕ} (hrow : row < 25)
    (hcol : col < 80) :
    renderCell v.startLine row col (v.rendering tty (v.backlog offset) (row * 80 + col)) =
      some (v.rendering tty (v.backlog offset) (row * 80 + (col + 1))) := by
  have hindex : row * 80 + col < 2000 := by omega
  have hline : (toSize v.startLine + row) % 2 ^ 32 % 200 =
      (v.scrollWriteLine.toNat + 175 - offset + (row * 80 + col) / 80) % 200 := by
    rw [startLine_eq hwrite hoffset hle, toSize]
    omega
  have hcell : (row * 80 + col) % 80 = col := by omega
  have hentry : v.shownEntry ⟨(toSize v.startLine + row) % 2 ^ 32 % 200,
      Nat.mod_lt _ (by decide)⟩ ⟨col, hcol⟩ = v.backlog offset ⟨row * 80 + col, hindex⟩ := by
    rw [backlog]
    simp only [hline, hcell]
  have hcurrent : (v.rendering tty (v.backlog offset) (row * 80 + col)).currentTty = tty := htty
  have hsame : (v.rendering tty (v.backlog offset) (row * 80 + col)).shownEntry = v.shownEntry :=
    rfl
  rw [renderCell_eq hcurrent v.startLine hrow hcol, hsame, hentry]
  have hfilled : ∀ a : Screen, Function.update (filled a (v.backlog offset) (row * 80 + col))
      ⟨row * 80 + col, hindex⟩ (v.backlog offset ⟨row * 80 + col, hindex⟩) =
        filled a (v.backlog offset) (row * 80 + col + 1) :=
    fun a => update_filled a (v.backlog offset) ⟨row * 80 + col, hindex⟩
  refine congrArg some (congrArg₂ v.withScreens ?_ (hfilled v.terminalBuffer))
  rw [rendering, withScreens]
  dsimp only
  rw [Function.update_self, hfilled, Function.update_idem]
  rfl

/-- `render_view` shows the backlog and keeps it in the buffer of the current terminal. -/
theorem renderView_eq {offset : ℕ} {tty : Fin 4} (htty : v.currentTty = tty)
    (hwrite : 0 ≤ v.scrollWriteLine ∧ v.scrollWriteLine < 200)
    (hoffset : v.scrollViewOffset = offset) (hle : offset ≤ 174) (hmode : v.scrollMode = true) :
    v.renderView = some (v.withScreens
      (Function.update v.ttyBuffers tty (v.backlog offset)) (v.backlog offset)) := by
  have hguard : ¬(v.scrollMode = false ∨ v.currentTty ≥ 4) := by
    rw [hmode, htty]
    have hlt := tty.isLt
    simp only [Bool.true_eq_false, false_or]
    omega
  have hstart : v.rendering tty (v.backlog offset) 0 = v := by
    rw [rendering, filled_zero, filled_zero, Function.update_eq_self]
    rfl
  have hloop : forRange 25 (fun y => forRange 80 fun x => renderCell v.startLine y x)
      (v.rendering tty (v.backlog offset) 0) = some (v.rendering tty (v.backlog offset) 2000) :=
    forRange_cells (v.rendering tty (v.backlog offset)) fun y hy x hx =>
      renderCell_rendering htty hwrite hoffset hle hy hx
  rw [hstart, rendering, filled_all, filled_all] at hloop
  rw [renderView, if_neg hguard]
  exact hloop

/-! ### Scrolling -/

theorem printMessage_isSome {msg : List U8} (h : msg.length ≤ 16) (buffer : Screen) :
    ∃ buffer', printMessage msg buffer = some buffer' := by
  refine forRange_isSome (fun i hi buffer => ?_) buffer
  rw [if_pos (by omega), store_of_lt _ (by omega)]
  exact ⟨_, rfl⟩

theorem length_scrollMessage (offset : ℤ) : (scrollMessage offset).length ≤ 16 := by
  have hopen : (chars "[SCROLL-").length = 8 := by decide
  have hclose : (chars "]").length = 1 := by decide
  rw [scrollMessage, List.length_append, List.length_append, hopen, hclose]
  split
  · exact (by decide : 8 + 2 + 1 ≤ 16)
  · exact (by decide : 8 + (chars "  ").length + 1 ≤ 16)

/-- The state behind `scroll_up` or `scroll_down` that shows the backlog. -/
def scrolledTo (v : VGADriver) (tty : Fin 4) (offset : ℕ) (screen : Screen) : VGADriver :=
  { v with
    scrollViewOffset := offset
    scrollMode := true
    ttyBuffers := Function.update v.ttyBuffers tty (v.backlog offset)
    terminalBuffer := screen }

theorem scrollUp_top (h : v.scrollViewOffset = 174) : v.scrollUp = some v := by
  rw [scrollUp, h]
  exact if_pos (by decide)

theorem scrollUp_eq {offset : ℕ} {tty : Fin 4} (htty : v.currentTty = tty)
    (hwrite : 0 ≤ v.scrollWriteLine ∧ v.scrollWriteLine < 200)
    (hoffset : v.scrollViewOffset = offset) (hlt : offset < 174) :
    ∃ screen, v.scrollUp = some (v.scrolledTo tty (offset + 1) screen) := by
  have hsize : ¬toSize v.scrollViewOffset ≥ 174 := by
    rw [hoffset, toSize]
    omega
  have hview : ({ v with
      scrollViewOffset := v.scrollViewOffset + 1, scrollMode := true } : VGADriver).renderView =
        some (v.scrolledTo tty (offset + 1) (v.backlog (offset + 1))) := by
    rw [hoffset]
    exact renderView_eq htty hwrite rfl hlt rfl
  obtain ⟨screen, hscreen⟩ := printMessage_isSome
    (length_scrollMessage (v.scrolledTo tty (offset + 1) (v.backlog (offset + 1))).scrollViewOffset)
    (v.backlog (offset + 1))
  refine ⟨screen, ?_⟩
  rw [scrollUp, if_neg hsize]
  dsimp only
  rw [hview, Option.bind_some]
  exact congrArg (Option.map _) hscreen

theorem scrollDown_live (h : v.scrollViewOffset = 0) : v.scrollDown = some v := if_pos h

/-- The last step down shows what the buffer of the current terminal holds. -/
theorem scrollDown_last {tty : Fin 4} (htty : v.currentTty = tty) (hoffset : v.scrollViewOffset = 1) :
    v.scrollDown = some { v with
      scrollViewOffset := 0, scrollMode := false, terminalBuffer := v.ttyBuffers tty } := by
  have hlt : v.currentTty < 4 := htty ▸ tty.isLt
  have hload : load v.ttyBuffers v.currentTty = some (v.ttyBuffers tty) := by
    rw [htty, load_of_lt _ tty.isLt]
  rw [scrollDown, hoffset, if_neg one_ne_zero]
  dsimp only
  rw [sub_self, if_pos rfl, if_pos hlt, hload]
  rfl

theorem scrollDown_eq {offset : ℕ} {tty : Fin 4} (htty : v.currentTty = tty)
    (hwrite : 0 ≤ v.scrollWriteLine ∧ v.scrollWriteLine < 200) (hmode : v.scrollMode = true)
    (hoffset : v.scrollViewOffset = (offset + 2 : ℕ)) (hle : offset + 2 ≤ 174) :
    v.scrollDown = some (v.scrolledTo tty (offset + 1) (v.backlog (offset + 1))) := by
  have hdown : v.scrollViewOffset - 1 = (offset + 1 : ℕ) := by omega
  have hview : ({ v with scrollViewOffset := v.scrollViewOffset - 1 } : VGADriver).renderView =
      some (v.scrolledTo tty (offset + 1) (v.backlog (offset + 1))) := by
    rw [hdown, scrolledTo, ← hmode]
    exact renderView_eq htty hwrite rfl (by omega) hmode
  rw [scrollDown, if_neg (by omega)]
  dsimp only
  rw [if_neg (by omega)]
  exact hview

theorem Bounds.scrolledTo (h : v.Bounds) (tty : Fin 4) {offset : ℕ} (hoffset : offset + 1 ≤ 174)
    (screen : Screen) : (v.scrolledTo tty (offset + 1) screen).Bounds := by
  have hbounds : (0 : ℤ) ≤ (offset + 1 : ℕ) ∧ ((offset + 1 : ℕ) : ℤ) ≤ 174 := by omega
  have hpos : (0 : ℤ) < (offset + 1 : ℕ) := by omega
  exact { h with viewOffset := hbounds, mode := iff_of_true rfl hpos }

theorem scrollUp_spec (h : v.Bounds) : ∃ v', v.scrollUp = some v' ∧ v'.Bounds := by
  obtain ⟨offset, hoffset⟩ := Int.eq_ofNat_of_zero_le h.viewOffset.1
  have hle := h.viewOffset.2
  by_cases htop : offset = 174
  · exact ⟨v, scrollUp_top (by rw [hoffset, htop]; rfl), h⟩
  · have htty : v.currentTty = (⟨v.currentTty, h.tty⟩ : Fin 4) := rfl
    obtain ⟨screen, hscreen⟩ := scrollUp_eq htty h.writeLine hoffset (by omega)
    exact ⟨_, hscreen, h.scrolledTo _ (by omega) screen⟩

theorem scrollDown_spec (h : v.Bounds) : ∃ v', v.scrollDown = some v' ∧ v'.Bounds := by
  obtain ⟨offset, hoffset⟩ := Int.eq_ofNat_of_zero_le h.viewOffset.1
  have hle := h.viewOffset.2
  have htty : v.currentTty = (⟨v.currentTty, h.tty⟩ : Fin 4) := rfl
  rcases offset with _ | _ | offset
  · exact ⟨v, scrollDown_live hoffset, h⟩
  · refine ⟨_, scrollDown_last htty hoffset, { h with viewOffset := ?_, mode := ?_ }⟩
    · exact (by decide : (0 : ℤ) ≤ 0 ∧ (0 : ℤ) ≤ 174)
    · exact (by decide : false = true ↔ (0 : ℤ) < 0)
  · have hmode : v.scrollMode = true := h.mode.mpr (by omega)
    exact ⟨_, scrollDown_eq htty h.writeLine hmode hoffset (by omega), h.scrolledTo _ (by omega) _⟩

/-! ### Every run -/

/-- No operation leaves an array, and all keep the bounds. -/
theorem Bounds.step (h : v.Bounds) (e : Event) : ∃ v', v.step e = some v' ∧ v'.Bounds := by
  cases e with
  | initializeVga => exact ⟨_, v.initializeVga_eq, h.cleared⟩
  | putChar c =>
    obtain ⟨v', hput, hbounds, -⟩ := putChar_spec h c
    exact ⟨v', hput, hbounds⟩
  | setColor color => exact ⟨_, rfl, { h with }⟩
  | switchTty ttyId => exact switchTty_spec h ttyId
  | scrollUp => exact scrollUp_spec h
  | scrollDown => exact scrollDown_spec h

theorem bounds_boot (screen : Screen) : (boot screen).Bounds where
  row := (by decide : 0 < 25)
  column := (by decide : 0 < 80)
  tty := (by decide : 0 < 4)
  rows _ := (by decide : 0 < 25)
  columns _ := (by decide : 0 < 80)
  writeLine := (by decide : (0 : ℤ) ≤ 0 ∧ (0 : ℤ) < 200)
  viewOffset := (by decide : (0 : ℤ) ≤ 0 ∧ (0 : ℤ) ≤ 174)
  mode := (by decide : false = true ↔ (0 : ℤ) < 0)
  escapeIndex := (by decide : 0 ≤ 15)
  collecting _ := (by decide : 0 < 15)

/-- In every run from `initialize` all indices are in range and the bounds hold. -/
theorem bounds_of_run (screen : Screen) (events : List Event) :
    ∃ v₀ v, (boot screen).initializeVga = some v₀ ∧ run step v₀ events = some v ∧ v.Bounds := by
  obtain ⟨v, hrun, hbounds⟩ := run_total (P := Bounds) (fun v e hv _ => hv.step e)
    (bounds_boot screen).cleared (guarded_true step (boot screen).cleared events)
  exact ⟨_, v, initializeVga_eq _, hrun, hbounds⟩

end VGADriver

end MesaOS.Drivers
