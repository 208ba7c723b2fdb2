/-
The keyboard driver (`drivers/keyboard.cpp`).

A key sends a byte when it is pressed and the same byte with the top bit set when it is
released; the keys that were added later send `0xE0` in front of it.  The driver keeps one
flag for the two keys of a modifier, so releasing one of them clears it while the other is
still held.  It passes over the right Alt key, and it leaves `e0_escape` set after the shift
codes that the keyboard itself puts around other keys.

* `handleScancode_plain`, `handleScancode_escaped` — the bytes that change no flag;
* `faithful_step` — which codes keep the flags faithful to the keys that are held;
* `faithful_iff_guarded` — so these are the runs in which they are faithful throughout.
-/
import MesaOS.MachineWord
import MesaOS.Runs

open MachineWord Runs

namespace MesaOS.Drivers

/-- The static flags of the class. -/
structure Keyboard where
  shiftPressed : Bool
  ctrlPressed : Bool
  altPressed : Bool
  e0Escape : Bool
  deriving DecidableEq

/-- What the driver asks of the rest of the kernel: whether the editor runs, and whether
`current_input_handler` is set. -/
structure Surroundings where
  nanoRunning : Bool
  handlerSet : Bool

/-- The call that a scancode leads to. -/
inductive Effect where
  /-- `VGADriver::scroll_up` -/
  | scrollUp
  /-- `VGADriver::scroll_down` -/
  | scrollDown
  /-- `VGADriver::switch_tty` -/
  | switchTty (index : U8)
  /-- `Shell::handle_signal` -/
  | handleSignal (sig : ℕ)
  /-- `Shell::handle_input` -/
  | shellInput (c : U8)
  /-- the current input handler -/
  | handlerInput (c : U8)
  deriving DecidableEq

/-- `kbd_us` -/
def kbdUs : List U8 :=
  [0, 27, 0x31, 0x32, 0x33, 0x34, 0x35, 0x36, 0x37, 0x38, 0x39, 0x30, 0x2D, 0x3D, 0x08,
    0x09, 0x71, 0x77, 0x65, 0x72, 0x74, 0x79, 0x75, 0x69, 0x6F, 0x70, 0x5B, 0x5D, 0x0A,
    0, 0x61, 0x73, 0x64, 0x66, 0x67, 0x68, 0x6A, 0x6B, 0x6C, 0x3B, 0x27, 0x60, 0, 0x5C,
    0x7A, 0x78, 0x63, 0x76, 0x62, 0x6E, 0x6D, 0x2C, 0x2E, 0x2F, 0, 0x2A, 0, 0x20, 0]

/-- `kbd_us_shift` -/
def kbdUsShift : List U8 :=
  [0, 27, 0x21, 0x40, 0x23, 0x24, 0x25, 0x5E, 0x26, 0x2A, 0x28, 0x29, 0x5F, 0x2B, 0x08,
    0x09, 0x51, 0x57, 0x45, 0x52, 0x54, 0x59, 0x55, 0x49, 0x4F, 0x50, 0x7B, 0x7D, 0x0A,
    0, 0x41, 0x53, 0x44, 0x46, 0x47, 0x48, 0x4A, 0x4B, 0x4C, 0x3A, 0x22, 0x7E, 0, 0x7C,
    0x5A, 0x58, 0x43, 0x56, 0x42, 0x4E, 0x4D, 0x3C, 0x3E, 0x3F, 0, 0x2A, 0, 0x20, 0]

namespace Keyboard

/-- The arrows, behind `0xE0`. -/
def extendedKey (r : Surroundings) (s : Keyboard) (scancode : U8) : Option Effect :=
  if scancode = 0x48 then
    if s.ctrlPressed then if !r.nanoRunning then some .scrollUp else none
    else some (.shellInput 0x11)
  else if scancode = 0x50 then
    if s.ctrlPressed then if !r.nanoRunning then some .scrollDown else none
    else some (.shellInput 0x12)
  else none

/-- A key that types a character; both tables have the same size. -/
def characterKey (r : Surroundings) (s : Keyboard) (scancode : U8) : Option Effect :=
  if scancode &&& 0x80 ≠ 0 then none
  else if scancode.toNat < kbdUs.length then
    let c := (if s.shiftPressed then kbdUsShift else kbdUs).getD scancode.toNat 0
    if c ≠ 0 then some (if r.handlerSet then .handlerInput c else .shellInput c) else none
  else none

/-- `Keyboard::handle_scancode` -/
def handleScancode (r : Surroundings) (s : Keyboard) (scancode : U8) : Keyboard × Option Effect :=
  if scancode = 0x2A ∨ scancode = 0x36 then ({ s with shiftPressed := true }, none)
  else if scancode = 0xAA ∨ scancode = 0xB6 then ({ s with shiftPressed := false }, none)
  else if scancode = 0xE0 then ({ s with e0Escape := true }, none)
  else if scancode = 0x1D then ({ s with ctrlPressed := true, e0Escape := false }, none)
  else if scancode = 0x9D then ({ s with ctrlPressed := false, e0Escape := false }, none)
  else if s.e0Escape then ({ s with e0Escape := false }, s.extendedKey r scancode)
  else if scancode = 0x38 then ({ s with altPressed := true }, none)
  else if scancode = 0xB8 then ({ s with altPressed := false }, none)
  else if s.altPressed ∧ 0x3B ≤ scancode ∧ scancode ≤ 0x3E then
    (s, some (.switchTty (scancode - 0x3B)))
  else
    let s := { s with e0Escape := false }
    if s.ctrlPressed ∧ scancode = 0x2E then (s, some (.handleSignal 2))
    else (s, s.characterKey r scancode)

end Keyboard

/-! ### Keys -/

/-- A key: its code, and whether `0xE0` stands in front of it.  A released key of code `0x60`
or `0x61` would send a prefix byte, and the shift codes behind `0xE0` belong to no key. -/
structure PhysicalKey where
  extended : Bool
  code : BitVec 7
  notPrefix : code ≠ 0x60 ∧ code ≠ 0x61
  notFake : extended = true → code ≠ 0x2A ∧ code ≠ 0x36
  deriving DecidableEq

def leftShift : PhysicalKey := ⟨false, 0x2A, by decide, by decide⟩
def rightShift : PhysicalKey := ⟨false, 0x36, by decide, by decide⟩
def leftCtrl : PhysicalKey := ⟨false, 0x1D, by decide, by decide⟩
def rightCtrl : PhysicalKey := ⟨true, 0x1D, by decide, by decide⟩
def leftAlt : PhysicalKey := ⟨false, 0x38, by decide, by decide⟩
def rightAlt : PhysicalKey := ⟨true, 0x38, by decide, by decide⟩

/-- A complete code of the keyboard. -/
inductive ScanCode where
  /-- a key is pressed, or repeated while it is held -/
  | make (key : PhysicalKey)
  | release (key : PhysicalKey)
  /-- a shift code that the keyboard puts around another key -/
  | fakeShift (right released : Bool)
  /-- the Pause key, which sends nothing when it is released -/
  | pause

/-- The byte of a key, with the top bit for its release. -/
def keyByte (code : BitVec 7) (released : Bool) : U8 := BitVec.ofBool released ++ code

/-- The bytes of a key. -/
def PhysicalKey.bytes (key : PhysicalKey) (released : Bool) : List U8 :=
  if key.extended then [0xE0, keyByte key.code released] else [keyByte key.code released]

def ScanCode.bytes : ScanCode → List U8
  | .make key => key.bytes false
  | .release key => key.bytes true
  | .fakeShift right released => [0xE0, keyByte (if right then 0x36 else 0x2A) released]
  | .pause => [0xE1, 0x1D, 0x45, 0xE1, 0x9D, 0xC5]

/-- The driver, and the keys that are held down. -/
structure Typing where
  keyboard : Keyboard
  held : PhysicalKey → Bool

namespace Typing

/-- After the start of the system no key is held. -/
def start : Typing :=
  { keyboard := { shiftPressed := false, ctrlPressed := false, altPressed := false
                  e0Escape := false }
    held := fun _ => false }

/-- The keys that are held after a code. -/
def heldAfter (s : Typing) : ScanCode → PhysicalKey → Bool
  | .make key => Function.update s.held key true
  | .release key => Function.update s.held key false
  | .fakeShift _ _ | .pause => s.held

/-- The bytes of a complete code, one after the other. -/
def step (s : Typing) (event : ScanCode × Surroundings) : Option Typing :=
  some
    { keyboard := event.1.bytes.foldl
        (fun k scancode => (k.handleScancode event.2 scancode).1) s.keyboard
      held := s.heldAfter event.1 }

/-- The flags say which modifiers are held, and no `0xE0` is pending. -/
structure Faithful (s : Typing) : Prop where
  shift : s.keyboard.shiftPressed = (s.held leftShift || s.held rightShift)
  ctrl : s.keyboard.ctrlPressed = (s.held leftCtrl || s.held rightCtrl)
  alt : s.keyboard.altPressed = (s.held leftAlt || s.held rightAlt)
  e0 : s.keyboard.e0Escape = false

/-- The key is not released while the other key of its modifier is held. -/
def ReleasesLast (s : Typing) (key : PhysicalKey) : Prop :=
  (key = leftShift → s.held rightShift = false) ∧ (key = rightShift → s.held leftShift = false) ∧
    (key = leftCtrl → s.held rightCtrl = false) ∧ (key = rightCtrl → s.held leftCtrl = false) ∧
    (key = leftAlt → s.held rightAlt = false) ∧
    -- the driver does not see this one
    (key = rightAlt → s.held rightAlt = true → s.held leftAlt = true)

/-- The codes that keep the flags faithful. -/
def Respects (s : Typing) (event : ScanCode × Surroundings) : Prop :=
  match event.1 with
  | .make key => key = rightAlt → s.held leftAlt = true ∨ s.held rightAlt = true
  | .release key => s.ReleasesLast key
  | .fakeShift _ _ => False
  | .pause => s.held leftCtrl = false ∧ s.held rightCtrl = false

end Typing

/-! ### What the bytes do -/

/-- The bytes that the driver looks for before it asks for `e0_escape`. -/
def firstBytes : List U8 := [0x2A, 0x36, 0xAA, 0xB6, 0xE0, 0x1D, 0x9D]

section

variable {s : Keyboard} {scancode : U8} (r : Surroundings)

/-- The chain of tests, as far as the byte behind `0xE0` meets it. -/
theorem handleScancode_of_notMem (h : scancode ∉ firstBytes) :
    s.handleScancode r scancode =
      if s.e0Escape then ({ s with e0Escape := false }, s.extendedKey r scancode)
      else if scancode = 0x38 then ({ s with altPressed := true }, none)
      else if scancode = 0xB8 then ({ s with altPressed := false }, none)
      else if s.altPressed ∧ 0x3B ≤ scancode ∧ scancode ≤ 0x3E then
        (s, some (.switchTty (scancode - 0x3B)))
      else if s.ctrlPressed ∧ scancode = 0x2E then
        ({ s with e0Escape := false }, some (.handleSignal 2))
      else
        ({ s with e0Escape := false },
          Keyboard.characterKey r { s with e0Escape := false } scancode) := by
  have hne : ∀ b ∈ firstBytes, scancode ≠ b := by
    rintro b hb rfl
    exact h hb
  rw [Keyboard.handleScancode, if_neg (not_or.mpr ⟨hne _ (by decide), hne _ (by decide)⟩),
    if_neg (not_or.mpr ⟨hne _ (by decide), hne _ (by decide)⟩), if_neg (hne _ (by decide)),
    if_neg (hne _ (by decide)), if_neg (hne _ (by decide))]

/-- Behind `0xE0` every other byte ends the escape and changes no other flag. -/
theorem handleScancode_escaped (he0 : s.e0Escape = true) (h : scancode ∉ firstBytes) :
    (s.handleScancode r scancode).1 = { s with e0Escape := false } := by
  rw [handleScancode_of_notMem r h, if_pos he0]

/-- Without the escape a byte that belongs to no modifier changes nothing. -/
theorem handleScancode_plain (he0 : s.e0Escape = false) (h : scancode ∉ firstBytes)
    (halt : scancode ≠ 0x38 ∧ scancode ≠ 0xB8) : (s.handleScancode r scancode).1 = s := by
  have hsame : { s with e0Escape := false } = s := by rw [← he0]
  rw [handleScancode_of_notMem r h, if_neg (by rw [he0]; exact Bool.false_ne_true),
    if_neg halt.1, if_neg halt.2, hsame]
  split_ifs <;> rfl

end

/-- The first bytes belong to the two shift keys, to Ctrl and to the prefix. -/
theorem keyByte_notMem : ∀ code : BitVec 7, code ∉ [0x2A, 0x36, 0x1D, 0x60] → ∀ released,
    keyByte code released ∉ firstBytes := by
  decide +kernel

theorem keyByte_ne_alt : ∀ code : BitVec 7, code ≠ 0x38 → ∀ released,
    keyByte code released ≠ 0x38 ∧ keyByte code released ≠ 0xB8 := by
  decide +kernel

/-- The flags behind a key. -/
def Keyboard.afterKey (s : Keyboard) (key : PhysicalKey) (released : Bool) : Keyboard :=
  if key = leftShift ∨ key = rightShift then { s with shiftPressed := !released }
  else if key = leftCtrl ∨ key = rightCtrl then { s with ctrlPressed := !released }
  else if key = leftAlt then { s with altPressed := !released }
  else s

/-- **What a key does to the flags.** -/
theorem foldl_bytes {s : Keyboard} (he0 : s.e0Escape = false) (r : Surroundings)
    (key : PhysicalKey) (released : Bool) :
    (key.bytes released).foldl (fun k scancode => (k.handleScancode r scancode).1) s =
      s.afterKey key released := by
  obtain ⟨shift, ctrl, alt, e0⟩ := s
  obtain rfl : e0 = false := he0
  by_cases hls : key = leftShift
  · subst hls
    cases released <;> rfl
  by_cases hrs : key = rightShift
  · subst hrs
    cases released <;> rfl
  by_cases hlc : key = leftCtrl
  · subst hlc
    cases released <;> rfl
  by_cases hrc : key = rightCtrl
  · subst hrc
    cases released <;> rfl
  by_cases hla : key = leftAlt
  · subst hla
    cases released <;> rfl
  -- the driver compares with the code of no other key
  rw [Keyboard.afterKey, if_neg (not_or.mpr ⟨hls, hrs⟩), if_neg (not_or.mpr ⟨hlc, hrc⟩),
    if_neg hla]
  obtain ⟨extended, code, hprefix, hfake⟩ := key
  cases extended with
  | false =>
    -- a single byte, which is none of the modifiers' codes
    have hcode : code ∉ [0x2A, 0x36, 0x1D, 0x60] := by
      simp only [List.mem_cons, List.not_mem_nil, or_false, not_or]
      refine ⟨?_, ?_, ?_, hprefix.1⟩
      · rintro rfl
        exact hls rfl
      · rintro rfl
        exact hrs rfl
      · rintro rfl
        exact hlc rfl
    have halt : code ≠ 0x38 := by
      rintro rfl
      exact hla rfl
    exact handleScancode_plain r rfl (keyByte_notMem code hcode released)
      (keyByte_ne_alt code halt released)
  | true =>
    -- the prefix sets `e0_escape`, and the code behind it clears it again
    have hcode : code ∉ [0x2A, 0x36, 0x1D, 0x60] := by
      simp only [List.mem_cons, List.not_mem_nil, or_false, not_or]
      refine ⟨(hfake rfl).1, (hfake rfl).2, ?_, hprefix.1⟩
      rintro rfl
      exact hrc rfl
    exact handleScancode_escaped (s := ⟨shift, ctrl, alt, true⟩) r rfl
      (keyByte_notMem code hcode released)

/-- What the Pause key does: a Ctrl key that is held is forgotten. -/
theorem foldl_pause {s : Keyboard} (he0 : s.e0Escape = false) (r : Surroundings) :
    ScanCode.pause.bytes.foldl (fun k scancode => (k.handleScancode r scancode).1) s =
      { s with ctrlPressed := false } := by
  have hplain : ∀ b ∈ [0xE1, 0x45, 0xC5], ∀ t : Keyboard, t.e0Escape = false →
      (t.handleScancode r b).1 = t := by
    intro b hb t ht
    have hbyte : ∀ b ∈ [0xE1, 0x45, 0xC5], b ∉ firstBytes ∧ b ≠ 0x38 ∧ b ≠ 0xB8 := by decide
    exact handleScancode_plain r ht (hbyte b hb).1 (hbyte b hb).2
  have hctrl : ∀ t : Keyboard, (t.handleScancode r 0x1D).1 =
      { t with ctrlPressed := true, e0Escape := false } := fun _ => rfl
  have hrelease : ∀ t : Keyboard, (t.handleScancode r 0x9D).1 =
      { t with ctrlPressed := false, e0Escape := false } := fun _ => rfl
  rw [ScanCode.bytes, List.foldl_cons, hplain _ (by decide) s he0, List.foldl_cons, hctrl,
    List.foldl_cons, hplain _ (by decide) _ rfl, List.foldl_cons, hplain _ (by decide) _ rfl,
    List.foldl_cons, hrelease, List.foldl_cons, hplain _ (by decide) _ rfl, List.foldl_nil, ← he0]

/-- The prefix of a fake shift stays pending. -/
theorem foldl_fakeShift (s : Keyboard) (r : Surroundings) (right released : Bool) :
    ((ScanCode.fakeShift right released).bytes.foldl
      (fun k scancode => (k.handleScancode r scancode).1) s).e0Escape = true := by
  cases right <;> cases released <;> rfl

/-! ### The keys that are held -/

section

variable {κ : Type*} [DecidableEq κ] (held : κ → Bool) {a b : κ} (key : κ) (pressed : Bool)

/-- A flag for two keys that is set and cleared by both of them. -/
theorem flag_update_iff (hab : a ≠ b) :
    ((if key = a ∨ key = b then pressed else held a || held b) =
        (Function.update held key pressed a || Function.update held key pressed b)) ↔
      (pressed = false → (key = a → held b = false) ∧ (key = b → held a = false)) := by
  by_cases hka : key = a
  · subst hka
    rw [if_pos (Or.inl rfl), Function.update_self, Function.update_of_ne hab.symm]
    cases pressed <;> simp [hab]
  · by_cases hkb : key = b
    · subst hkb
      rw [if_pos (Or.inr rfl), Function.update_self, Function.update_of_ne hab]
      cases pressed <;> simp [hka]
    · rw [if_neg (not_or.mpr ⟨hka, hkb⟩), Function.update_of_ne (Ne.symm hka),
        Function.update_of_ne (Ne.symm hkb)]
      simp [hka, hkb]

/-- A flag for two keys that only the first one sets and clears. -/
theorem flag_update_left_iff (hab : a ≠ b) :
    ((if key = a then pressed else held a || held b) =
        (Function.update held key pressed a || Function.update held key pressed b)) ↔
      (pressed = false → key = a → held b = false) ∧
        (key = b → if pressed then held a = true ∨ held b = true
          else held b = true → held a = true) := by
  by_cases hka : key = a
  · subst hka
    rw [if_pos rfl, Function.update_self, Function.update_of_ne hab.symm]
    cases pressed <;> simp [hab]
  · by_cases hkb : key = b
    · subst hkb
      rw [if_neg hka, Function.update_self, Function.update_of_ne hab]
      cases pressed <;> cases held a <;> cases held key <;> simp [hka]
    · rw [if_neg hka, Function.update_of_ne (Ne.symm hka), Function.update_of_ne (Ne.symm hkb)]
      simp [hka, hkb]

end

theorem Keyboard.afterKey_shiftPressed (s : Keyboard) (key : PhysicalKey) (released : Bool) :
    (s.afterKey key released).shiftPressed =
      if key = leftShift ∨ key = rightShift then !released else s.shiftPressed := by
  rw [afterKey]
  split_ifs <;> rfl

theorem Keyboard.afterKey_ctrlPressed (s : Keyboard) (key : PhysicalKey) (released : Bool) :
    (s.afterKey key released).ctrlPressed =
      if key = leftCtrl ∨ key = rightCtrl then !released else s.ctrlPressed := by
  rw [afterKey]
  by_cases hshift : key = leftShift ∨ key = rightShift
  · rw [if_pos hshift, if_neg]
    rcases hshift with rfl | rfl <;> decide
  · rw [if_neg hshift]
    split_ifs <;> rfl

theorem Keyboard.afterKey_altPressed (s : Keyboard) (key : PhysicalKey) (released : Bool) :
    (s.afterKey key released).altPressed =
      if key = leftAlt then !released else s.altPressed := by
  rw [afterKey]
  by_cases halt : key = leftAlt
  · subst halt
    rfl
  · rw [if_neg halt, if_neg halt]
    split_ifs <;> rfl

theorem Keyboard.afterKey_e0Escape (s : Keyboard) (key : PhysicalKey) (released : Bool) :
    (s.afterKey key released).e0Escape = s.e0Escape := by
  rw [afterKey]
  split_ifs <;> rfl

namespace Typing

variable {s s' : Typing}

/-- The flags after a key is pressed or released. -/
theorem faithful_afterKey_iff (h : s.Faithful) (key : PhysicalKey) (released : Bool) :
    Faithful { keyboard := s.keyboard.afterKey key released
               held := Function.update s.held key !released } ↔
      if released then s.ReleasesLast key
      else key = rightAlt → s.held leftAlt = true ∨ s.held rightAlt = true := by
  have hshift : (s.keyboard.afterKey key released).shiftPressed =
      if key = leftShift ∨ key = rightShift then !released
      else s.held leftShift || s.held rightShift := by
    rw [Keyboard.afterKey_shiftPressed, h.shift]
  have hctrl : (s.keyboard.afterKey key released).ctrlPressed =
      if key = leftCtrl ∨ key = rightCtrl then !released
      else s.held leftCtrl || s.held rightCtrl := by
    rw [Keyboard.afterKey_ctrlPressed, h.ctrl]
  have halt : (s.keyboard.afterKey key released).altPressed =
      if key = leftAlt then !released else s.held leftAlt || s.held rightAlt := by
    rw [Keyboard.afterKey_altPressed, h.alt]
  have he0 : (s.keyboard.afterKey key released).e0Escape = false := by
    rw [Keyboard.afterKey_e0Escape, h.e0]
  have hparts := and_congr
    (flag_update_iff s.held key (!released) (show leftShift ≠ rightShift by decide))
    (and_congr (flag_update_iff s.held key (!released) (show leftCtrl ≠ rightCtrl by decide))
      (flag_update_left_iff s.held key (!released) (show leftAlt ≠ rightAlt by decide)))
  rw [← hshift, ← hctrl, ← halt] at hparts
  refine Iff.trans ⟨fun h => ⟨h.shift, h.ctrl, h.alt⟩, fun ⟨h₁, h₂, h₃⟩ => ⟨h₁, h₂, h₃, he0⟩⟩
    (hparts.trans ?_)
  cases released with
  | true => simp [ReleasesLast, and_assoc]
  | false => simp

/-- **Which codes keep the flags faithful.** -/
theorem faithful_step {event : ScanCode × Surroundings} (h : s.Faithful)
    (hstep : s.step event = some s') : s'.Faithful ↔ s.Respects event := by
  obtain ⟨code, r⟩ := event
  rw [step, Option.some_inj] at hstep
  subst hstep
  dsimp only
  cases code with
  | make key =>
    have hbytes := foldl_bytes h.e0 r key false
    have hiff := faithful_afterKey_iff h key false
    rw [← hbytes] at hiff
    exact hiff
  | release key =>
    have hbytes := foldl_bytes h.e0 r key true
    have hiff := faithful_afterKey_iff h key true
    rw [← hbytes] at hiff
    exact hiff
  | fakeShift right released =>
    refine iff_of_false (fun h' => ?_) id
    have he0 := h'.e0
    rw [foldl_fakeShift] at he0
    exact absurd he0 (by decide)
  | pause =>
    rw [foldl_pause h.e0]
    constructor
    · intro h'
      exact Bool.or_eq_false_iff.mp h'.ctrl.symm
    · rintro ⟨hleft, hright⟩
      refine ⟨h.shift, ?_, h.alt, h.e0⟩
      dsimp only [heldAfter]
      rw [hleft, hright]
      rfl

theorem faithful_start : start.Faithful := ⟨rfl, rfl, rfl, rfl⟩

end Typing

/-- **When the flags are faithful**: after every code of a sequence, exactly if every code of
it respects the driver. -/
theorem faithful_iff_guarded (events : List (ScanCode × Surroundings)) :
    (∀ before, before <+: events → ∀ s, run Typing.step Typing.start before = some s →
      s.Faithful) ↔ Guarded Typing.step Typing.Respects Typing.start events :=
  forall_prefix_iff_guarded (I := fun _ => True) (fun _ _ _ => ⟨_, rfl, trivial⟩)
    (fun _ _ _ _ h hstep => Typing.faithful_step h hstep) trivial Typing.faithful_start

/-- The right Alt key is pressed after the start: the flag stays clear. -/
theorem rightAlt_not_faithful :
    ∃ s, run Typing.step Typing.start [(.make rightAlt, ⟨false, true⟩)] = some s ∧
      s.held rightAlt = true ∧ s.keyboard.altPressed = false ∧ ¬s.Faithful :=
  ⟨_, rfl, rfl, rfl, fun h => absurd h.alt (by decide)⟩

end MesaOS.Drivers
