/-
From the keys of the keyboard to a command (`drivers/keyboard.cpp` and `kernel/shell.cpp`).

Every byte of the keyboard is an interrupt, and a key is one or two of them.  The driver turns the
bytes into calls, and since nothing sets `current_input_handler`, the characters go to the shell,
which edits its line with them and executes it at Enter.  The keys that are held say what a key asks
for; the driver has its flags alone.  Backspace takes a character back, the down arrow types one, and
Ctrl+C leaves the line as it is.

* `callbacks_bytes` — a code leads to the call that its key asks for, and to no other;
* `calls_eq_asked` — so do the codes of a run, one after the other;
* `line_of_run` — the line is what the characters make of it, and nothing else of the shell changes;
* `entered_line` — Enter executes this line.
-/
import MesaOS.Console
import MesaOS.Keyboard

open MachineWord Runs BoundedCopy MesaOS.FS

namespace MesaOS.Drivers

/-! ### The driver -/

/-- `Keyboard::callback`; the bytes at the two ends say that something is wrong. -/
def Keyboard.callback (r : Surroundings) (s : Keyboard) (scancode : U8) :
    Keyboard × Option Effect :=
  if scancode ≠ 0x00 ∧ scancode ≠ 0xFF then s.handleScancode r scancode else (s, none)

/-- The interrupts of a code, and the calls that they make. -/
def Keyboard.callbacks (r : Surroundings) (s : Keyboard) : List U8 → Keyboard × List Effect
  | [] => (s, [])
  | scancode :: rest =>
    let (s, effect) := s.callback r scancode
    let (s, effects) := callbacks r s rest
    (s, effect.toList ++ effects)

/-- The calls of a run. -/
def Keyboard.calls (s : Keyboard) : List (ScanCode × Surroundings) → List Effect
  | [] => []
  | event :: events =>
    let (s, effects) := s.callbacks event.2 event.1.bytes
    effects ++ calls s events

/-! ### What the keys ask for -/

/-- The character on a key. -/
def characterOf (shift : Bool) (code : BitVec 7) : U8 :=
  (if shift then kbdUsShift else kbdUs).getD code.toNat 0

/-- The call for the arrows. -/
def arrowCall (r : Surroundings) (ctrl up : Bool) : Option Effect :=
  if ctrl then if r.nanoRunning then none else some (if up then .scrollUp else .scrollDown)
  else some (.shellInput (if up then 0x11 else 0x12))

/-- What a key asks for that is pressed while others are held. -/
def PhysicalKey.asks (held : PhysicalKey → Bool) (r : Surroundings) (key : PhysicalKey) :
    Option Effect :=
  let shift := held leftShift || held rightShift
  let ctrl := held leftCtrl || held rightCtrl
  let alt := held leftAlt || held rightAlt
  if key.extended then
    if key.code = 0x48 then arrowCall r ctrl true
    else if key.code = 0x50 then arrowCall r ctrl false
    else none
  else if key ∈ [leftShift, rightShift, leftCtrl, leftAlt] then none
  else if alt ∧ 0x3B ≤ key.code ∧ key.code ≤ 0x3E then
    some (.switchTty (key.code.setWidth 8 - 0x3B))
  else if ctrl ∧ key.code = 0x2E then some (.handleSignal 2)
  else if characterOf shift key.code = 0 then none
  else if r.handlerSet then some (.handlerInput (characterOf shift key.code))
  else some (.shellInput (characterOf shift key.code))

/-- Keys that are released ask for nothing, nor does what the keyboard sends by itself. -/
def ScanCode.asks (held : PhysicalKey → Bool) (r : Surroundings) : ScanCode → Option Effect
  | .make key => key.asks held r
  | .release _ | .fakeShift _ _ | .pause => none

/-- The keys that are held behind a code. -/
def ScanCode.heldAfter (held : PhysicalKey → Bool) : ScanCode → PhysicalKey → Bool
  | .make key => Function.update held key true
  | .release key => Function.update held key false
  | .fakeShift _ _ | .pause => held

/-- The calls that the codes of a run ask for. -/
def asked (held : PhysicalKey → Bool) : List (ScanCode × Surroundings) → List Effect
  | [] => []
  | event :: events =>
    (event.1.asks held event.2).toList ++ asked (event.1.heldAfter held) events

/-- Behind `0xE0` no key sends the bytes that `callback` passes over. -/
def ScanCode.Sent : ScanCode → Prop
  | .make key | .release key => key.extended = true → key.code ≠ 0x00 ∧ key.code ≠ 0x7F
  | .fakeShift _ _ | .pause => True

instance (s : Typing) (key : PhysicalKey) : Decidable (s.ReleasesLast key) :=
  inferInstanceAs <| Decidable <|
    (key = leftShift → s.held rightShift = false) ∧ (key = rightShift → s.held leftShift = false) ∧
      (key = leftCtrl → s.held rightCtrl = false) ∧ (key = rightCtrl → s.held leftCtrl = false) ∧
      (key = leftAlt → s.held rightAlt = false) ∧
      (key = rightAlt → s.held rightAlt = true → s.held leftAlt = true)

instance (s : Typing) : ∀ event, Decidable (s.Respects event)
  | (.make key, _) =>
    inferInstanceAs (Decidable (key = rightAlt → s.held leftAlt = true ∨ s.held rightAlt = true))
  | (.release key, _) => inferInstanceAs (Decidable (s.ReleasesLast key))
  | (.fakeShift _ _, _) => inferInstanceAs (Decidable False)
  | (.pause, _) =>
    inferInstanceAs (Decidable (s.held leftCtrl = false ∧ s.held rightCtrl = false))

instance : ∀ code : ScanCode, Decidable code.Sent
  | .make key | .release key =>
    inferInstanceAs (Decidable (key.extended = true → key.code ≠ 0x00 ∧ key.code ≠ 0x7F))
  | .fakeShift _ _ | .pause => inferInstanceAs (Decidable True)

/-! ### Single bytes -/

/-- The byte of a key that is pressed has no top bit. -/
theorem keyByte_make : ∀ code : BitVec 7,
    keyByte code false &&& 0x80 = 0 ∧ keyByte code false = code.setWidth 8 ∧
      (keyByte code false).toNat = code.toNat ∧ keyByte code false ≠ 0xFF ∧
      ((0x3B ≤ keyByte code false ∧ keyByte code false ≤ 0x3E) ↔ 0x3B ≤ code ∧ code ≤ 0x3E) ∧
      (keyByte code false = 0x2E ↔ code = 0x2E) ∧ (keyByte code false = 0x00 ↔ code = 0x00) ∧
      (keyByte code false = 0x48 ↔ code = 0x48) ∧ (keyByte code false = 0x50 ↔ code = 0x50) := by
  decide +kernel

theorem keyByte_release : ∀ code : BitVec 7, keyByte code true &&& 0x80 ≠ 0 := by
  decide +kernel

theorem top_ne : ∀ scancode : U8, scancode &&& 0x80 ≠ 0 →
    scancode ≠ 0x48 ∧ scancode ≠ 0x50 ∧ ¬ (0x3B ≤ scancode ∧ scancode ≤ 0x3E) ∧
      scancode ≠ 0x2E := by
  decide +kernel

theorem keyByte_ne_ends : ∀ code : BitVec 7, code ≠ 0x00 ∧ code ≠ 0x7F → ∀ released,
    keyByte code released ≠ 0x00 ∧ keyByte code released ≠ 0xFF := by
  decide +kernel

section

variable {s : Keyboard} {r : Surroundings}

theorem Keyboard.callback_eq {scancode : U8} (h : scancode ≠ 0x00 ∧ scancode ≠ 0xFF) :
    s.callback r scancode = s.handleScancode r scancode := if_pos h

theorem Keyboard.callbacks_cons (s : Keyboard) (r : Surroundings) (scancode : U8)
    (rest : List U8) :
    s.callbacks r (scancode :: rest) =
      (((s.callback r scancode).1.callbacks r rest).1,
        (s.callback r scancode).2.toList ++ ((s.callback r scancode).1.callbacks r rest).2) := rfl

theorem Keyboard.callbacks_singleton (s : Keyboard) (r : Surroundings) (scancode : U8) :
    s.callbacks r [scancode] =
      ((s.callback r scancode).1, (s.callback r scancode).2.toList) :=
  Prod.ext rfl (List.append_nil _)

theorem Keyboard.callbacks_append (s : Keyboard) (r : Surroundings) (bytes rest : List U8) :
    s.callbacks r (bytes ++ rest) =
      (((s.callbacks r bytes).1.callbacks r rest).1,
        (s.callbacks r bytes).2 ++ ((s.callbacks r bytes).1.callbacks r rest).2) := by
  induction bytes generalizing s with
  | nil => rfl
  | cons scancode bytes ih =>
    rw [List.cons_append, callbacks_cons, ih, callbacks_cons, List.append_assoc]

/-- The prefix, and the byte behind it. -/
theorem Keyboard.callbacks_escaped {scancode : U8} (h : scancode ≠ 0x00 ∧ scancode ≠ 0xFF) :
    s.callbacks r [0xE0, scancode] =
      ((({ s with e0Escape := true } : Keyboard).handleScancode r scancode).1,
        (({ s with e0Escape := true } : Keyboard).handleScancode r scancode).2.toList) := by
  have hprefix : s.callback r 0xE0 = ({ s with e0Escape := true }, none) := rfl
  rw [callbacks_cons, hprefix, ← callback_eq h]
  exact callbacks_singleton _ r scancode

/-! ### Single keys -/

/-- The bytes that `callback` passes over change nothing. -/
theorem Keyboard.callback_fst (he0 : s.e0Escape = false) (scancode : U8) :
    (s.callback r scancode).1 = (s.handleScancode r scancode).1 := by
  by_cases h : scancode ≠ 0x00 ∧ scancode ≠ 0xFF
  · rw [callback_eq h]
  · have hplain : scancode ∉ firstBytes ∧ scancode ≠ 0x38 ∧ scancode ≠ 0xB8 := by
      rcases not_and_or.mp h with h | h
      · rw [not_not.mp h]
        decide
      · rw [not_not.mp h]
        decide
    rw [callback, if_neg h, handleScancode_plain r he0 hplain.1 hplain.2]

theorem Keyboard.callbacks_key_fst (he0 : s.e0Escape = false) (key : PhysicalKey)
    (released : Bool) (hsent : key.extended = true → key.code ≠ 0x00 ∧ key.code ≠ 0x7F) :
    (s.callbacks r (key.bytes released)).1 = s.afterKey key released := by
  rw [← foldl_bytes he0 r key released, PhysicalKey.bytes]
  cases hext : key.extended with
  | false =>
    rw [if_neg Bool.false_ne_true, callbacks_singleton]
    exact callback_fst he0 _
  | true =>
    rw [if_pos rfl, callbacks_escaped (keyByte_ne_ends key.code (hsent hext) released)]
    rfl

variable {held : PhysicalKey → Bool}

/-- Behind `0xE0` the driver knows the two arrows. -/
theorem Keyboard.callbacks_make_extended (h : Typing.Faithful ⟨s, held⟩) {key : PhysicalKey}
    (hext : key.extended = true) (hsent : key.code ≠ 0x00 ∧ key.code ≠ 0x7F) :
    (s.callbacks r (key.bytes false)).2 = (key.asks held r).toList := by
  rw [PhysicalKey.bytes, if_pos hext, callbacks_escaped (keyByte_ne_ends key.code hsent false),
    PhysicalKey.asks, if_pos hext]
  dsimp only
  by_cases hctrl : key.code = 0x1D
  · rw [hctrl]
    rfl
  · obtain ⟨-, -, -, -, -, -, -, hup, hdown⟩ := keyByte_make key.code
    have hcode : key.code ∉ [0x2A, 0x36, 0x1D, 0x60] := by
      simp only [List.mem_cons, List.not_mem_nil, or_false, not_or]
      exact ⟨(key.notFake hext).1, (key.notFake hext).2, hctrl, key.notPrefix.1⟩
    rw [handleScancode_of_notMem r (keyByte_notMem key.code hcode false), if_pos rfl]
    dsimp only
    rw [extendedKey, ← h.ctrl]
    simp only [hup, hdown, arrowCall]
    split_ifs <;> simp_all

/-- The character of a key that is pressed. -/
theorem Keyboard.characterKey_make (s : Keyboard) (code : BitVec 7) :
    s.characterKey r (keyByte code false) =
      if characterOf s.shiftPressed code = 0 then none
      else if r.handlerSet then some (.handlerInput (characterOf s.shiftPressed code))
      else some (.shellInput (characterOf s.shiftPressed code)) := by
  obtain ⟨htop, -, hnat, -⟩ := keyByte_make code
  rw [characterKey, if_neg (not_not.mpr htop), hnat]
  by_cases hlt : code.toNat < kbdUs.length
  · rw [if_pos hlt]
    dsimp only [characterOf]
    split_ifs <;> first | rfl | contradiction
  · -- there is no character behind the end of the tables
    have hnone : characterOf s.shiftPressed code = 0 := by
      have hlength : kbdUsShift.length = kbdUs.length := rfl
      rw [characterOf]
      split_ifs
      · exact List.getD_eq_default _ _ (by rw [hlength]; exact Nat.le_of_not_lt hlt)
      · exact List.getD_eq_default _ _ (Nat.le_of_not_lt hlt)
    rw [if_neg hlt, if_pos hnone]

/-- The codes that the driver knows belong to the modifiers. -/
theorem modifier_of_code {key : PhysicalKey} (hext : key.extended = false)
    (hcode : key.code ∈ [0x2A, 0x36, 0x1D, 0x38]) :
    key ∈ [leftShift, rightShift, leftCtrl, leftAlt] := by
  obtain ⟨extended, code, hprefix, hfake⟩ := key
  obtain rfl : extended = false := hext
  simp only [List.mem_cons, List.not_mem_nil, or_false] at hcode
  rcases hcode with rfl | rfl | rfl | rfl
  · exact List.mem_cons_self
  · exact List.mem_cons_of_mem _ List.mem_cons_self
  · exact List.mem_cons_of_mem _ (List.mem_cons_of_mem _ List.mem_cons_self)
  · exact List.mem_of_getLast? rfl

/-- The keys without `0xE0`. -/
theorem Keyboard.callbacks_make_plain (h : Typing.Faithful ⟨s, held⟩) {key : PhysicalKey}
    (hext : key.extended = false) :
    (s.callbacks r (key.bytes false)).2 = (key.asks held r).toList := by
  have hplain : ¬ key.extended = true := by
    rw [hext]
    exact Bool.false_ne_true
  by_cases hmodifier : key ∈ [leftShift, rightShift, leftCtrl, leftAlt]
  · rw [PhysicalKey.asks, if_neg hplain, if_pos hmodifier]
    simp only [List.mem_cons, List.not_mem_nil, or_false] at hmodifier
    obtain ⟨shift, ctrl, alt, e0⟩ := s
    obtain rfl : e0 = false := h.e0
    rcases hmodifier with rfl | rfl | rfl | rfl <;> rfl
  · obtain ⟨-, hbyte, -, hff, hfunction, hc, hzero, -, -⟩ := keyByte_make key.code
    have hcode : key.code ∉ [0x2A, 0x36, 0x1D, 0x38] := mt (modifier_of_code hext) hmodifier
    simp only [List.mem_cons, List.not_mem_nil, or_false, not_or] at hcode
    have hfirst : keyByte key.code false ∉ firstBytes := by
      refine keyByte_notMem key.code ?_ false
      simp only [List.mem_cons, List.not_mem_nil, or_false, not_or]
      exact ⟨hcode.1, hcode.2.1, hcode.2.2.1, key.notPrefix.1⟩
    have halt := keyByte_ne_alt key.code hcode.2.2.2 false
    have hhandle : (s.handleScancode r (keyByte key.code false)).2 = key.asks held r := by
      rw [handleScancode_of_notMem r hfirst, if_neg (by rw [h.e0]; exact Bool.false_ne_true),
        if_neg halt.1, if_neg halt.2, characterKey_make, PhysicalKey.asks, if_neg hplain,
        if_neg hmodifier, ← h.shift, ← h.ctrl, ← h.alt]
      simp only [hfunction, hc]
      rw [hbyte]
      split_ifs <;> rfl
    rw [PhysicalKey.bytes, if_neg hplain, callbacks_singleton, ← hhandle]
    dsimp only
    by_cases hz : key.code = 0x00
    · -- `callback` passes over a byte for which there is no character
      obtain ⟨shift, ctrl, alt, e0⟩ := s
      obtain rfl : e0 = false := h.e0
      rw [hzero.mpr hz]
      cases shift <;> cases ctrl <;> cases alt <;> rfl
    · rw [callback_eq ⟨mt hzero.mp hz, hff⟩]

/-- A byte with the top bit leads to no call. -/
theorem Keyboard.handleScancode_snd_of_top {scancode : U8} (h : scancode &&& 0x80 ≠ 0) :
    (s.handleScancode r scancode).2 = none := by
  obtain ⟨hup, hdown, hfunction, hc⟩ := top_ne scancode h
  have harrow : s.extendedKey r scancode = none := by
    rw [extendedKey, if_neg hup, if_neg hdown]
  have hcharacter : ∀ t : Keyboard, t.characterKey r scancode = none := fun t => if_pos h
  rw [handleScancode]
  simp only [hfunction, hc, and_false, if_false]
  split_ifs <;> first | rfl | exact harrow | exact hcharacter _

theorem Keyboard.callback_snd_of_top {scancode : U8} (h : scancode &&& 0x80 ≠ 0) :
    (s.callback r scancode).2 = none := by
  rw [callback]
  split_ifs
  · exact handleScancode_snd_of_top h
  · rfl

theorem Keyboard.callbacks_release_snd (s : Keyboard) (key : PhysicalKey) :
    (s.callbacks r (key.bytes true)).2 = [] := by
  have hlast : ∀ t : Keyboard, (t.callbacks r [keyByte key.code true]).2 = [] := by
    intro t
    rw [callbacks_singleton, callback_snd_of_top (keyByte_release key.code)]
    rfl
  rw [PhysicalKey.bytes]
  split_ifs
  · rw [callbacks_cons, callback_snd_of_top (by decide)]
    exact hlast _
  · exact hlast s

theorem Keyboard.callbacks_pause (he0 : s.e0Escape = false) :
    (s.callbacks r ScanCode.pause.bytes).1 = { s with ctrlPressed := false } ∧
      (s.callbacks r ScanCode.pause.bytes).2 = [] := by
  obtain ⟨shift, ctrl, alt, e0⟩ := s
  obtain rfl : e0 = false := he0
  cases shift <;> cases ctrl <;> cases alt <;> exact ⟨rfl, rfl⟩

/-- **A code leads to the call that its key asks for**, as long as it keeps the flags faithful. -/
theorem Keyboard.callbacks_bytes (h : Typing.Faithful ⟨s, held⟩) {code : ScanCode}
    (hsent : code.Sent) (hok : Typing.Respects ⟨s, held⟩ (code, r)) :
    s.callbacks r code.bytes =
        ((s.callbacks r code.bytes).1, (code.asks held r).toList) ∧
      Typing.step ⟨s, held⟩ (code, r) =
        some ⟨(s.callbacks r code.bytes).1, code.heldAfter held⟩ := by
  have hstep : ∀ t, (code.bytes.foldl (fun k scancode => (k.handleScancode r scancode).1) s) = t →
      Typing.step ⟨s, held⟩ (code, r) = some ⟨t, code.heldAfter held⟩ := by
    rintro t rfl
    cases code <;> rfl
  cases code with
  | make key =>
    refine ⟨Prod.ext rfl ?_, hstep _ ?_⟩
    · cases hext : key.extended with
      | false => exact callbacks_make_plain h hext
      | true => exact callbacks_make_extended h hext (hsent hext)
    · rw [ScanCode.bytes, callbacks_key_fst h.e0 key false hsent, foldl_bytes h.e0]
  | release key =>
    refine ⟨Prod.ext rfl (callbacks_release_snd s key), hstep _ ?_⟩
    rw [ScanCode.bytes, callbacks_key_fst h.e0 key true hsent, foldl_bytes h.e0]
  | fakeShift right released => exact hok.elim
  | pause =>
    obtain ⟨hflags, hcalls⟩ := callbacks_pause (r := r) h.e0
    refine ⟨Prod.ext rfl hcalls, hstep _ ?_⟩
    rw [hflags, foldl_pause h.e0]

end

/-- **The calls of a run are those that the keys ask for**, one after the other. -/
theorem calls_eq_asked {s : Typing} (h : s.Faithful) {events : List (ScanCode × Surroundings)}
    (hsent : ∀ e ∈ events, e.1.Sent) (hok : Guarded Typing.step Typing.Respects s events) :
    s.keyboard.calls events = asked s.held events := by
  induction events generalizing s with
  | nil => rfl
  | cons event events ih =>
    obtain ⟨hcalls, hstep⟩ := Keyboard.callbacks_bytes h (hsent event List.mem_cons_self) hok.1
    have hfaithful := (Typing.faithful_step h hstep).mpr hok.1
    have hrest := ih hfaithful (fun e he => hsent e (List.mem_cons_of_mem _ he)) (hok.2 _ hstep)
    rw [Keyboard.calls, asked, ← hrest, hcalls]

/-- A capital letter, whose key is released behind the shift key. -/
theorem calls_eq_asked_capital :
    let r : Surroundings := ⟨false, false⟩
    let key : PhysicalKey := ⟨false, 0x1E, by decide, by decide⟩
    let events : List (ScanCode × Surroundings) :=
      [(.make leftShift, r), (.make key, r), (.release leftShift, r), (.release key, r)]
    Typing.start.keyboard.calls events = asked Typing.start.held events := by
  intro r key events
  exact calls_eq_asked Typing.faithful_start (by decide) (by decide)

end MesaOS.Drivers

namespace MesaOS.System

open MesaOS.Drivers MesaOS.Apps

/-! ### The shell -/

/-- What a key finds on the stack if it saves, and what the command prints that it executes. -/
structure KeyGiven where
  created : ℕ → U8
  written : ℕ → U8
  given : ℕ → Given

/-- The text that `handle_signal` prints. -/
def interruptText : CString := ⟨chars "^C\n", by decide⟩

/-- `Shell::handle_signal`, without `abort_requested`: the commands run in the keyboard's interrupt,
and the prompt clears it behind them. -/
def Console.handleSignal (s : Console) (g : KeyGiven) (sig : ℕ) : Call Console :=
  if sig = 2 then s.kprint ⟨interruptText, g.created, g.written⟩ else .ok s

/-- The calls of the driver; those for the screen change nothing here. -/
def Console.called (s : Console) (ctrl : Bool) (g : KeyGiven) : Effect → Call Console
  | .shellInput c =>
    if h : 0#8 ≠ c then s.handleInput ⟨ctrl, c, h, g.created, g.written⟩ g.given else .ok s
  | .handleSignal sig => s.handleSignal g sig
  | .handlerInput _ | .scrollUp | .scrollDown | .switchTty _ => .ok s

/-- The flags of the keyboard driver, and the shell. -/
structure Terminal where
  keyboard : Keyboard
  console : Console

namespace Terminal

/-- What the driver asks for; no handler is set in the kernel. -/
def surroundings (t : Terminal) : Surroundings := ⟨t.console.nano.running, false⟩

/-- What the shell does behind a change of the flags. -/
def answer (g : KeyGiven) (keyboard : Keyboard) (s : Console) : Option Effect → Call Terminal
  | some effect => (s.called keyboard.ctrlPressed g effect).map (Terminal.mk keyboard)
  | none => .ok ⟨keyboard, s⟩

/-- The interrupt for a byte. -/
def interrupt (g : KeyGiven) (t : Terminal) (scancode : U8) : Call Terminal :=
  let (keyboard, effect) := t.keyboard.callback t.surroundings scancode
  answer g keyboard t.console effect

/-- The interrupts for a code. -/
def step (t : Terminal) (event : ScanCode × KeyGiven) : Call Terminal :=
  runCalls (interrupt event.2) t event.1.bytes

end Terminal

/-! ### The line that is typed -/

/-- The character that reaches the line; Ctrl+L clears the screen. -/
def typedChar (held : PhysicalKey → Bool) (r : Surroundings) (code : ScanCode) : Option U8 :=
  match code.asks held r with
  | some (.shellInput c) =>
    if (code.heldAfter held leftCtrl || code.heldAfter held rightCtrl) ∧ (c = 0x6C ∨ c = 0x4C) then
      none
    else some c
  | _ => none

/-- Backspace takes the last character back, and others are added as long as there is room. -/
def editLine (line : List U8) (c : U8) : List U8 :=
  if c = 0x08 then line.dropLast else if line.length < 255 then line ++ [c] else line

/-- The line behind the codes. -/
def typedLine (held : PhysicalKey → Bool) (r : Surroundings) (line : List U8) :
    List ScanCode → List U8
  | [] => line
  | code :: codes =>
    typedLine (code.heldAfter held) r ((typedChar held r code).elim line (editLine line)) codes

/-- The keys that are held behind the codes. -/
def heldBehind (held : PhysicalKey → Bool) (codes : List ScanCode) : PhysicalKey → Bool :=
  codes.foldl ScanCode.heldAfter held

/-- The code keeps the flags faithful, and it is not Tab, Enter or the arrow to the history. -/
structure Edits (s : Typing) (event : ScanCode × Surroundings) : Prop where
  respects : s.Respects event
  sent : event.1.Sent
  plain : ∀ c ∈ typedChar s.held event.2 event.1, c ∉ [0x09, newline, 0x11]

instance (s : Typing) (event : ScanCode × Surroundings) : Decidable (Edits s event) :=
  decidable_of_iff
    (s.Respects event ∧ event.1.Sent ∧
      ∀ c ∈ typedChar s.held event.2 event.1, c ∉ [0x09, newline, 0x11])
    ⟨fun h => ⟨h.1, h.2.1, h.2.2⟩, fun h => ⟨h.respects, h.sent, h.plain⟩⟩

/-- No application runs, and nothing goes into a file or a pipe. -/
structure Console.AtPrompt (s : Console) : Prop where
  app : s.appRunning = false
  pipe : s.pipeActive = false
  redir : s.redirOut = false

/-- Only the line and the place in the history differ. -/
def Console.OnlyLine (s t : Console) : Prop :=
  ∃ line cursor, t = { s with commandBuffer := line, historyCursor := cursor }

/-- The key for `'\\n'`. -/
def returnKey : PhysicalKey := ⟨false, 0x1C, by decide, by decide⟩

/-! ### One code -/

namespace Terminal

variable {t : Terminal} {held : PhysicalKey → Bool} {code : ScanCode} {g : KeyGiven}

/-- Bytes that lead to no call. -/
theorem runCalls_interrupt_of_nil (g : KeyGiven) (s : Console) {keyboard : Keyboard}
    {bytes : List U8} (h : (keyboard.callbacks ⟨s.nano.running, false⟩ bytes).2 = []) :
    runCalls (interrupt g) ⟨keyboard, s⟩ bytes =
      .ok ⟨(keyboard.callbacks ⟨s.nano.running, false⟩ bytes).1, s⟩ := by
  induction bytes generalizing keyboard with
  | nil => rfl
  | cons scancode rest ih =>
    rw [Keyboard.callbacks_cons] at h
    obtain ⟨hfirst, hrest⟩ := List.append_eq_nil_iff.mp h
    have hinterrupt : interrupt g ⟨keyboard, s⟩ scancode =
        .ok ⟨(keyboard.callback ⟨s.nano.running, false⟩ scancode).1, s⟩ := by
      rw [interrupt, surroundings]
      dsimp only
      rw [Option.toList_eq_nil_iff.mp hfirst, answer]
    rw [runCalls_cons, hinterrupt, Keyboard.callbacks_cons]
    exact ih hrest

/-- **What a code does**: the flags change as for the driver alone, and the shell is called for what
the key asks for. -/
theorem step_eq (h : Typing.Faithful ⟨t.keyboard, held⟩) (hsent : code.Sent)
    (hok : Typing.Respects ⟨t.keyboard, held⟩ (code, t.surroundings)) (g : KeyGiven) :
    ∃ keyboard, Typing.step ⟨t.keyboard, held⟩ (code, t.surroundings) =
        some ⟨keyboard, code.heldAfter held⟩ ∧
      t.step (code, g) = answer g keyboard t.console (code.asks held t.surroundings) := by
  obtain ⟨hcalls, hstep⟩ := Keyboard.callbacks_bytes h hsent hok
  refine ⟨_, hstep, ?_⟩
  have hnone : code.asks held t.surroundings = none → t.step (code, g) =
      answer g (t.keyboard.callbacks t.surroundings code.bytes).1 t.console none := by
    intro hasks
    rw [hasks] at hcalls
    exact runCalls_interrupt_of_nil g t.console (congrArg Prod.snd hcalls)
  cases code with
  | release key => exact hnone rfl
  | fakeShift right released => exact hnone rfl
  | pause => exact hnone rfl
  | make key =>
    -- only the last byte leads to the call
    obtain ⟨init, last, hbytes, hinit⟩ : ∃ init last, (ScanCode.make key).bytes = init ++ [last] ∧
        (t.keyboard.callbacks t.surroundings init).2 = [] := by
      rw [ScanCode.bytes, PhysicalKey.bytes]
      split_ifs
      · exact ⟨[0xE0], _, rfl, rfl⟩
      · exact ⟨[], _, rfl, rfl⟩
    rw [hbytes, Keyboard.callbacks_append, hinit, Keyboard.callbacks_singleton] at hcalls
    have heffect := congrArg (fun x => x.2.head?) hcalls
    simp only [List.nil_append, Option.head?_toList] at heffect
    rw [step, hbytes, runCalls_append, runCalls_interrupt_of_nil g t.console hinit, ← heffect,
      Keyboard.callbacks_append, Keyboard.callbacks_singleton]
    exact runCalls_singleton _ _

end Terminal

namespace Console

variable {s t u : Console}

theorem OnlyLine.refl (s : Console) : s.OnlyLine s := ⟨_, _, rfl⟩

theorem OnlyLine.trans (h : s.OnlyLine t) (h' : t.OnlyLine u) : s.OnlyLine u := by
  obtain ⟨line, cursor, rfl⟩ := h
  obtain ⟨line', cursor', rfl⟩ := h'
  exact ⟨line', cursor', rfl⟩

theorem OnlyLine.atPrompt (h : s.OnlyLine t) (hprompt : s.AtPrompt) : t.AtPrompt := by
  obtain ⟨line, cursor, rfl⟩ := h
  exact ⟨hprompt.app, hprompt.pipe, hprompt.redir⟩

theorem OnlyLine.nano_eq (h : s.OnlyLine t) : t.nano = s.nano := by
  obtain ⟨line, cursor, rfl⟩ := h
  rfl

theorem handleSignal_eq (hprompt : s.AtPrompt) (g : KeyGiven) (sig : ℕ) :
    s.handleSignal g sig = .ok s := by
  rw [handleSignal, kprint, hprompt.pipe, hprompt.redir]
  split_ifs <;> rfl

theorem called_shellInput (s : Console) (ctrl : Bool) (g : KeyGiven) {c : U8} (h : 0#8 ≠ c) :
    s.called ctrl g (.shellInput c) = s.handleInput ⟨ctrl, c, h, g.created, g.written⟩ g.given :=
  dif_pos h

theorem called_enter (hprompt : s.AtPrompt) (ctrl : Bool) (g : KeyGiven) :
    s.called ctrl g (.shellInput newline) =
      Console.enter { s with historyCursor := s.historyCount - 1 } g.given := by
  have happ : ¬ s.appRunning = true := by
    rw [hprompt.app]
    exact Bool.false_ne_true
  have hdown : newline ≠ 0x12 := by decide
  rw [called_shellInput s ctrl g (show 0#8 ≠ newline by decide), handleInput_newline happ rfl,
    resetCursor_of_ne hdown]

/-- What a character makes of the line. -/
theorem bytes_edit (s : Console) (key : Key) :
    (s.edit key).commandBuffer.1.bytes = editLine s.commandBuffer.1.bytes key.c := by
  rw [edit, editLine]
  by_cases hback : key.c = 0x08
  · rw [if_pos hback, if_pos hback, List.dropLast_eq_take]
    rfl
  · rw [if_neg hback, if_neg hback]
    change s.commandBuffer.1.bytes ++ [key.c].take (255 - s.commandBuffer.1.bytes.length) = _
    by_cases hroom : s.commandBuffer.1.bytes.length < 255
    · rw [if_pos hroom, List.take_of_length_le]
      rw [List.length_singleton]
      omega
    · rw [if_neg hroom, Nat.sub_eq_zero_of_le (by omega), List.take_zero, List.append_nil]

/-- A key at the prompt that is none of those with a meaning of their own. -/
theorem handleInput_edit (hprompt : s.AtPrompt) {key : Key}
    (hctrl : ¬ (key.ctrl = true ∧ (key.c = 0x6C ∨ key.c = 0x4C)))
    (hkey : key.c ∉ [0x09, newline, 0x11]) (given : ℕ → Given) :
    s.handleInput key given = .ok ((s.resetCursor key).edit key) := by
  simp only [List.mem_cons, List.not_mem_nil, or_false, not_or] at hkey
  rw [handleInput, if_neg (by rw [hprompt.app]; exact Bool.false_ne_true), if_neg hctrl,
    if_neg hkey.2.2]
  dsimp only
  rw [if_neg hkey.1, if_neg hkey.2.1]

theorem onlyLine_edit (s : Console) (key : Key) : s.OnlyLine ((s.resetCursor key).edit key) := by
  rw [resetCursor, edit]
  split_ifs <;> exact ⟨_, _, rfl⟩

end Console

theorem arrowCall_ne (r : Surroundings) (ctrl up : Bool) :
    arrowCall r ctrl up ≠ some (.shellInput 0) := by
  obtain ⟨nano, handler⟩ := r
  cases nano <;> cases ctrl <;> cases up <;> exact fun h => by cases h

/-- The keyboard sends no zero to the shell. -/
theorem asks_ne_zero {held : PhysicalKey → Bool} {r : Surroundings} {code : ScanCode} {c : U8}
    (h : code.asks held r = some (.shellInput c)) : 0#8 ≠ c := by
  rintro rfl
  cases code with
  | release key => cases h
  | fakeShift right released => cases h
  | pause => cases h
  | make key =>
    rw [ScanCode.asks, PhysicalKey.asks] at h
    split_ifs at h with _ _ _ _ _ _ hzero
    · exact arrowCall_ne _ _ _ h
    · exact arrowCall_ne _ _ _ h
    · cases h
    · cases h
    · cases h
    · exact hzero (Effect.shellInput.inj (Option.some_inj.mp h))

/-! ### What is typed -/

section

variable {t : Terminal} {held : PhysicalKey → Bool} {code : ScanCode}

/-- **A code that edits the line.** -/
theorem Terminal.step_edits (h : Typing.Faithful ⟨t.keyboard, held⟩)
    (hprompt : t.console.AtPrompt) (hok : Edits ⟨t.keyboard, held⟩ (code, t.surroundings))
    (g : KeyGiven) :
    ∃ t', t.step (code, g) = .ok t' ∧
      Typing.step ⟨t.keyboard, held⟩ (code, t.surroundings) =
        some ⟨t'.keyboard, code.heldAfter held⟩ ∧
      t.console.OnlyLine t'.console ∧
      t'.console.commandBuffer.1.bytes =
        (typedChar held t.surroundings code).elim t.console.commandBuffer.1.bytes
          (editLine t.console.commandBuffer.1.bytes) := by
  obtain ⟨keyboard, hflags, hstep⟩ := step_eq h hok.sent hok.respects g
  have hplain := hok.plain
  have hctrl := ((Typing.faithful_step h hflags).mpr hok.respects).ctrl
  dsimp only at hplain hctrl
  rw [typedChar] at hplain ⊢
  cases hasks : code.asks held t.surroundings with
  | none =>
    rw [hasks] at hstep
    exact ⟨⟨keyboard, t.console⟩, hstep, hflags, .refl _, rfl⟩
  | some effect =>
    rw [hasks] at hstep hplain
    have hsame : t.console.called keyboard.ctrlPressed g effect = .ok t.console →
        t.step (code, g) = .ok ⟨keyboard, t.console⟩ := by
      intro hcalled
      rw [hstep, Terminal.answer, hcalled]
      rfl
    cases effect with
    | scrollUp => exact ⟨_, hsame rfl, hflags, .refl _, rfl⟩
    | scrollDown => exact ⟨_, hsame rfl, hflags, .refl _, rfl⟩
    | switchTty index => exact ⟨_, hsame rfl, hflags, .refl _, rfl⟩
    | handlerInput c => exact ⟨_, hsame rfl, hflags, .refl _, rfl⟩
    | handleSignal sig =>
      exact ⟨_, hsame (Console.handleSignal_eq hprompt g sig), hflags, .refl _, rfl⟩
    | shellInput c =>
      dsimp only at hplain ⊢
      rw [← hctrl] at hplain ⊢
      have hnonzero := asks_ne_zero hasks
      let key : Key := ⟨keyboard.ctrlPressed, c, hnonzero, g.created, g.written⟩
      have hcalled : t.console.called keyboard.ctrlPressed g (.shellInput c) =
          t.console.handleInput key g.given := Console.called_shellInput _ _ _ hnonzero
      by_cases hclear : keyboard.ctrlPressed = true ∧ (c = 0x6C ∨ c = 0x4C)
      · rw [if_pos hclear]
        refine ⟨_, hsame ?_, hflags, .refl _, rfl⟩
        rw [hcalled, Console.handleInput, if_neg (by rw [hprompt.app]; exact Bool.false_ne_true),
          if_pos hclear]
      · rw [if_neg hclear] at hplain ⊢
        rw [Console.handleInput_edit hprompt hclear (hplain c rfl)] at hcalled
        refine ⟨⟨keyboard, (t.console.resetCursor key).edit key⟩, ?_, hflags,
          Console.onlyLine_edit _ _, ?_⟩
        · rw [hstep, Terminal.answer, hcalled]
          rfl
        · rw [Console.bytes_edit, Console.resetCursor]
          split_ifs <;> rfl

/-- The codes of a run that all edit the line. -/
def EditsAll (t : Terminal) (held : PhysicalKey → Bool) (codes : List ScanCode) : Prop :=
  Guarded Typing.step Edits ⟨t.keyboard, held⟩ (codes.map fun code => (code, t.surroundings))

/-- **The line is what the characters make of it**, whatever the order in which keys are pressed
and released, and nothing else of the shell changes. -/
theorem line_of_run (h : Typing.Faithful ⟨t.keyboard, held⟩) (hprompt : t.console.AtPrompt)
    (events : List (ScanCode × KeyGiven)) (hok : EditsAll t held (events.map Prod.fst)) :
    ∃ t', runCalls Terminal.step t events = .ok t' ∧
      Typing.Faithful ⟨t'.keyboard, heldBehind held (events.map Prod.fst)⟩ ∧
      t.console.OnlyLine t'.console ∧
      t'.console.commandBuffer.1.bytes =
        typedLine held t.surroundings t.console.commandBuffer.1.bytes (events.map Prod.fst) := by
  induction events generalizing t held with
  | nil => exact ⟨t, rfl, h, .refl _, rfl⟩
  | cons event events ih =>
    obtain ⟨code, g⟩ := event
    obtain ⟨t₁, hstep, hflags, honly, hline⟩ := t.step_edits h hprompt hok.1 g
    have hsurroundings : t₁.surroundings = t.surroundings := by
      rw [Terminal.surroundings, Terminal.surroundings, honly.nano_eq]
    have hfaithful := (Typing.faithful_step h hflags).mpr hok.1.respects
    have hrest : EditsAll t₁ (code.heldAfter held) (events.map Prod.fst) := by
      rw [EditsAll, hsurroundings]
      exact hok.2 _ hflags
    obtain ⟨t', hrun, hlast, honly', hline'⟩ := ih hfaithful (honly.atPrompt hprompt) hrest
    refine ⟨t', ?_, hlast, honly.trans honly', ?_⟩
    · rw [runCalls_cons, hstep]
      exact hrun
    · rw [hline', hline, hsurroundings]
      rfl

theorem asks_return (held : PhysicalKey → Bool) (r : Surroundings) (h : r.handlerSet = false) :
    (ScanCode.make returnKey).asks held r = some (.shellInput newline) := by
  have hcharacter : ∀ shift, characterOf shift returnKey.code = newline := by decide
  have hplain : ¬ returnKey.extended = true := Bool.false_ne_true
  rw [ScanCode.asks, PhysicalKey.asks, if_neg hplain, if_neg (by decide),
    if_neg (fun halt => absurd halt.2 (by decide)), if_neg (fun hctrl => absurd hctrl.2 (by decide)),
    hcharacter, if_neg (by decide), h, if_neg Bool.false_ne_true]

/-- **Enter executes the line that was typed.** -/
theorem entered_line (h : Typing.Faithful ⟨t.keyboard, held⟩) (hprompt : t.console.AtPrompt)
    (events : List (ScanCode × KeyGiven)) (hok : EditsAll t held (events.map Prod.fst))
    (g : KeyGiven) :
    ∃ (keyboard : Keyboard) (line : Text 256),
      line.1.bytes =
        typedLine held t.surroundings t.console.commandBuffer.1.bytes (events.map Prod.fst) ∧
      runCalls Terminal.step t (events ++ [(.make returnKey, g)]) =
        (Console.enter { t.console with
          commandBuffer := line, historyCursor := t.console.historyCount - 1 } g.given).map
          (Terminal.mk keyboard) ∧
      Typing.Faithful ⟨keyboard, Function.update (heldBehind held (events.map Prod.fst)) returnKey
        true⟩ := by
  obtain ⟨t', hrun, hfaithful, ⟨line, cursor, honly⟩, hline⟩ := line_of_run h hprompt events hok
  have hrespects : Typing.Respects ⟨t'.keyboard, heldBehind held (events.map Prod.fst)⟩
      (.make returnKey, t'.surroundings) := fun halt => absurd halt (by decide)
  have hsent : (ScanCode.make returnKey).Sent := fun hext => absurd hext Bool.false_ne_true
  obtain ⟨keyboard, hflags, hstep⟩ := t'.step_eq hfaithful hsent hrespects g
  have hprompt' : t'.console.AtPrompt := Console.OnlyLine.atPrompt ⟨line, cursor, honly⟩ hprompt
  rw [asks_return _ _ rfl, Terminal.answer, Console.called_enter hprompt', honly] at hstep
  refine ⟨keyboard, line, ?_, ?_, (Typing.faithful_step hfaithful hflags).mpr hrespects⟩
  · rw [← hline, honly]
  · rw [runCalls_append, hrun, Except.bind, runCalls_singleton]
    exact hstep

end

/-- A command with a wrong letter, which Backspace takes back; the keys overlap. -/
theorem entered_line_ls :
    let g : KeyGiven := ⟨fun _ => 0, fun _ => 0, fun _ => nothingGiven⟩
    let l : PhysicalKey := ⟨false, 0x26, by decide, by decide⟩
    let a : PhysicalKey := ⟨false, 0x1E, by decide, by decide⟩
    let s : PhysicalKey := ⟨false, 0x1F, by decide, by decide⟩
    let back : PhysicalKey := ⟨false, 0x0E, by decide, by decide⟩
    let codes : List ScanCode :=
      [.make l, .make a, .release l, .release a, .make back, .release back, .make s]
    ∃ fs, FileSystem.boot freshMemory (fun _ _ => 0) = some fs ∧
      ∃ (keyboard : Keyboard) (line : Text 256), line.1.bytes = chars "ls" ∧
        runCalls Terminal.step ⟨Typing.start.keyboard, Console.start fs⟩
            (codes.map (fun code => (code, g)) ++ [(.make returnKey, g)]) =
          (Console.enter { Console.start fs with commandBuffer := line } g.given).map
            (Terminal.mk keyboard) := by
  intro g l a s back codes
  obtain ⟨fs, hboot⟩ := FileSystem.exists_boot
  refine ⟨fs, hboot, ?_⟩
  have hfst : (codes.map fun code => (code, g)).map Prod.fst = codes := rfl
  have hedits : EditsAll ⟨Typing.start.keyboard, Console.start fs⟩ Typing.start.held
      ((codes.map fun code => (code, g)).map Prod.fst) := by
    rw [hfst]
    change Guarded Typing.step Edits Typing.start (codes.map fun code => (code, ⟨false, false⟩))
    decide +kernel
  obtain ⟨keyboard, line, hline, hrun, -⟩ :=
    entered_line (t := ⟨Typing.start.keyboard, Console.start fs⟩) Typing.faithful_start
      ⟨rfl, rfl, rfl⟩ (codes.map fun code => (code, g)) hedits g
  refine ⟨keyboard, line, ?_, hrun⟩
  rw [hline, hfst]
  change typedLine Typing.start.held ⟨false, false⟩ [] codes = _
  decide +kernel

end MesaOS.System
