/-
The terminals and the way back from the scroll buffer.

The screen of the current terminal is kept twice, in the video memory and in its buffer.
`render_view` draws into both, so the live screen is lost with the first line that is scrolled
back.

* `switch_back` — what is printed on other terminals leaves a terminal alone;
* `scroll_back_iff` — when scrolling up and down again brings the screen back.
-/
import MesaOS.VGA

open MachineWord Runs CheckedArray MesaOS.System

namespace MesaOS.Drivers.VGADriver

variable {v w : VGADriver}

/-- The states that runs from `initialize` lead to. -/
def Reachable (v : VGADriver) : Prop :=
  ∃ screen events, run step (boot screen) (.initializeVga :: events) = some v

theorem Reachable.bounds (h : v.Reachable) : v.Bounds := by
  obtain ⟨screen, events, hrun⟩ := h
  have hstep : ∀ u e u', Bounds u → u.step e = some u' → Bounds u' := by
    intro u e u' hu hu'
    obtain ⟨t, ht, hbounds⟩ := hu.step e
    exact Option.some_inj.mp (ht.symm.trans hu') ▸ hbounds
  exact run_keeps hstep (bounds_boot screen) hrun

/-- From any state within the bounds, no call leaves an array. -/
theorem run_isSome (h : v.Bounds) (events : List Event) :
    ∃ w, run step v events = some w ∧ w.Bounds :=
  run_total (P := Bounds) (fun _ e hu _ => hu.step e) h (guarded_true step v events)

/-! ### Switching away and back -/

/-- The calls that print and switch. -/
def Event.Prints : Event → Prop
  | .putChar _ | .setColor _ | .switchTty _ => True
  | .initializeVga | .scrollUp | .scrollDown => False

/-- Terminal `a` is in the background with what `v` shows. -/
structure Parked (v : VGADriver) (a : Fin 4) (u : VGADriver) : Prop where
  away : u.currentTty ≠ a
  buffer : u.ttyBuffers a = v.terminalBuffer
  row : u.ttyRows a = v.terminalRow
  column : u.ttyColumns a = v.terminalColumn
  color : u.ttyColors a = v.terminalColor

theorem parked_switchedTo {a b : Fin 4} (hb : b ≠ a) : Parked v a (v.switchedTo a b) where
  away := fun heq => hb (Fin.ext heq)
  buffer := Function.update_self ..
  row := Function.update_self ..
  column := Function.update_self ..
  color := Function.update_self ..

theorem Parked.switchedTo {a current tty : Fin 4} {u : VGADriver} (h : Parked v a u)
    (hcurrent : u.currentTty = current) (htty : tty ≠ a) :
    Parked v a (u.switchedTo current tty) := by
  have hne : a ≠ current := fun heq => h.away (heq ▸ hcurrent)
  exact {
    away := fun heq => htty (Fin.ext heq)
    buffer := (Function.update_of_ne hne ..).trans h.buffer
    row := (Function.update_of_ne hne ..).trans h.row
    column := (Function.update_of_ne hne ..).trans h.column
    color := (Function.update_of_ne hne ..).trans h.color }

theorem Parked.outputOnly {a : Fin 4} {u u' : VGADriver} (h : Parked v a u)
    (hout : OutputOnly u u') : Parked v a u' where
  away := hout.tty ▸ h.away
  buffer := (hout.buffers a h.away.symm).trans h.buffer
  row := (congrFun hout.rows a).trans h.row
  column := (congrFun hout.columns a).trans h.column
  color := (congrFun hout.colors a).trans h.color

/-- What is printed elsewhere leaves a terminal in the background alone. -/
theorem Parked.step {a : Fin 4} {u u' : VGADriver} (h : Parked v a u) (hbounds : u.Bounds)
    {e : Event} (he : e.Prints) (hne : e ≠ .switchTty (a : ℕ)) (hstep : u.step e = some u') :
    Parked v a u' := by
  cases e with
  | putChar c =>
    obtain ⟨t, ht, -, hout⟩ := putChar_spec hbounds c
    exact Option.some_inj.mp (ht.symm.trans hstep) ▸ h.outputOnly hout
  | setColor color =>
    exact Option.some_inj.mp hstep ▸ { h with }
  | switchTty ttyId =>
    rcases switchTty_cases hbounds.tty ttyId with hsame | ⟨current, tty, hcurrent, -, rfl, hswitch⟩
    · exact Option.some_inj.mp (hsame.symm.trans hstep) ▸ h
    · have htty : tty ≠ a := fun heq => hne (heq ▸ rfl)
      exact Option.some_inj.mp (hswitch.symm.trans hstep) ▸ h.switchedTo hcurrent htty
  | initializeVga => exact he.elim
  | scrollUp => exact he.elim
  | scrollDown => exact he.elim

/-- A terminal that is left and come back to shows what it showed. -/
theorem switch_back {a b : Fin 4} (hv : v.Reachable) (ha : v.currentTty = a) (hb : b ≠ a)
    {between : List Event} (hbetween : ∀ e ∈ between, e.Prints ∧ e ≠ .switchTty (a : ℕ)) :
    ∃ w, run step v (.switchTty (b : ℕ) :: between ++ [.switchTty (a : ℕ)]) = some w ∧
      w.currentTty = a ∧ w.terminalBuffer = v.terminalBuffer ∧ w.terminalRow = v.terminalRow ∧
      w.terminalColumn = v.terminalColumn ∧ w.terminalColor = v.terminalColor := by
  have haway := switchTty_other ha hb
  obtain ⟨u, hu, hbounds, hparked⟩ := run_total
    (P := fun u : VGADriver => u.Bounds ∧ Parked v a u)
    (fun u e ⟨hbounds, hparked⟩ he => by
      obtain ⟨u', hstep, hbounds'⟩ := hbounds.step e
      exact ⟨u', hstep, hbounds', hparked.step hbounds he.1 he.2 hstep⟩)
    ⟨hv.bounds.switchedTo a b, parked_switchedTo hb⟩
    (guarded_of_forall_mem hbetween (v.switchedTo a b))
  let current : Fin 4 := ⟨u.currentTty, hbounds.tty⟩
  have hne : a ≠ current := fun heq => hparked.away (congrArg Fin.val heq).symm
  have hback : u.step (.switchTty (a : ℕ)) = some (u.switchedTo current a) :=
    switchTty_other rfl hne
  refine ⟨u.switchedTo current a, ?_, rfl, hparked.buffer, hparked.row, hparked.column,
    hparked.color⟩
  have hfirst : v.step (.switchTty (b : ℕ)) = some (v.switchedTo a b) := haway
  rw [List.cons_append, run_cons, hfirst, Option.bind_some, run_append, hu, Option.bind_some,
    run_cons, hback]
  rfl

/-! ### Scrolling up and down again -/

/-- The calls that scroll. -/
def Event.Scrolls : Event → Prop
  | .scrollUp | .scrollDown => True
  | _ => False

theorem Event.Scrolls.cases {e : Event} (h : e.Scrolls) : e = .scrollUp ∨ e = .scrollDown := by
  cases e with
  | scrollUp => exact Or.inl rfl
  | scrollDown => exact Or.inr rfl
  | initializeVga => exact h.elim
  | putChar c => exact h.elim
  | setColor color => exact h.elim
  | switchTty ttyId => exact h.elim

/-- What scrolling makes of a state. -/
def scrolled (v : VGADriver) (tty : Fin 4) (offset : ℕ) (screen buffer : Screen) : VGADriver :=
  { v with
    scrollViewOffset := offset
    scrollMode := decide (0 < offset)
    terminalBuffer := screen
    ttyBuffers := Function.update v.ttyBuffers tty buffer }

/-- States behind the first `scroll_up`: the buffer of the terminal holds the backlog, and so
does the screen when it is live again. -/
def Scrolled (v : VGADriver) (tty : Fin 4) (u : VGADriver) : Prop :=
  ∃ offset screen buffer, offset ≤ 174 ∧ u = v.scrolled tty offset screen buffer ∧
    (0 < offset → buffer = v.backlog offset) ∧
    (offset = 0 → buffer = v.backlog 1 ∧ screen = v.backlog 1)

theorem scrolledTo_scrolled (v : VGADriver) (tty : Fin 4) (offset n : ℕ)
    (screen buffer screen' : Screen) :
    (v.scrolled tty offset screen buffer).scrolledTo tty (n + 1) screen' =
      v.scrolled tty (n + 1) screen' (v.backlog (n + 1)) := by
  have hbuffers : Function.update (Function.update v.ttyBuffers tty buffer) tty
      (v.backlog (n + 1)) = Function.update v.ttyBuffers tty (v.backlog (n + 1)) :=
    Function.update_idem ..
  have hmode : decide (0 < n + 1) = true := decide_eq_true (Nat.succ_pos n)
  rw [scrolled, scrolled, scrolledTo, hmode]
  dsimp only
  rw [← hbuffers]
  rfl

section

variable {tty : Fin 4} {u u' : VGADriver}

theorem Scrolled.up (htty : v.currentTty = tty)
    (hwrite : 0 ≤ v.scrollWriteLine ∧ v.scrollWriteLine < 200) (h : Scrolled v tty u)
    (hstep : u.step .scrollUp = some u') : Scrolled v tty u' := by
  obtain ⟨offset, screen, buffer, hle, rfl, hbuffer, hlive⟩ := h
  by_cases htop : offset = 174
  · have hstay : (v.scrolled tty offset screen buffer).scrollUp =
        some (v.scrolled tty offset screen buffer) := scrollUp_top (congrArg Nat.cast htop)
    obtain rfl := Option.some_inj.mp (hstay.symm.trans hstep)
    exact ⟨offset, screen, buffer, hle, rfl, hbuffer, hlive⟩
  · obtain ⟨screen', hup⟩ := scrollUp_eq (v := v.scrolled tty offset screen buffer) htty hwrite
      rfl (show offset < 174 by omega)
    rw [scrolledTo_scrolled] at hup
    obtain rfl := Option.some_inj.mp (hup.symm.trans hstep)
    exact ⟨offset + 1, screen', _, by omega, rfl, fun _ => rfl,
      fun hzero => absurd hzero (Nat.succ_ne_zero _)⟩

theorem Scrolled.down (htty : v.currentTty = tty)
    (hwrite : 0 ≤ v.scrollWriteLine ∧ v.scrollWriteLine < 200) (h : Scrolled v tty u)
    (hstep : u.step .scrollDown = some u') : Scrolled v tty u' := by
  obtain ⟨offset, screen, buffer, hle, rfl, hbuffer, hlive⟩ := h
  rcases offset with _ | _ | offset
  · have hstay : (v.scrolled tty 0 screen buffer).scrollDown =
        some (v.scrolled tty 0 screen buffer) := scrollDown_live rfl
    obtain rfl := Option.some_inj.mp (hstay.symm.trans hstep)
    exact ⟨0, screen, buffer, hle, rfl, hbuffer, hlive⟩
  · have hlast := scrollDown_last (v := v.scrolled tty 1 screen buffer) htty rfl
    obtain rfl := Option.some_inj.mp (hlast.symm.trans hstep)
    have hbacklog : buffer = v.backlog 1 := hbuffer Nat.one_pos
    refine ⟨0, buffer, buffer, Nat.zero_le _, ?_, fun hpos => absurd hpos (Nat.lt_irrefl 0),
      fun _ => ⟨hbacklog, hbacklog⟩⟩
    rw [scrolled, scrolled]
    dsimp only
    rw [Function.update_self]
    rfl
  · have hmode : (v.scrolled tty (offset + 2) screen buffer).scrollMode = true :=
      decide_eq_true (Nat.succ_pos (offset + 1))
    have hdown := scrollDown_eq (v := v.scrolled tty (offset + 2) screen buffer) htty hwrite hmode
      rfl hle
    rw [scrolledTo_scrolled] at hdown
    obtain rfl := Option.some_inj.mp (hdown.symm.trans hstep)
    exact ⟨offset + 1, v.backlog (offset + 1), _, by omega, rfl, fun _ => rfl,
      fun hzero => absurd hzero (Nat.succ_ne_zero _)⟩

theorem Scrolled.step (htty : v.currentTty = tty)
    (hwrite : 0 ≤ v.scrollWriteLine ∧ v.scrollWriteLine < 200) (h : Scrolled v tty u) {e : Event}
    (he : e.Scrolls) (hstep : u.step e = some u') : Scrolled v tty u' := by
  rcases he.cases with rfl | rfl
  · exact h.up htty hwrite hstep
  · exact h.down htty hwrite hstep

theorem scrolled_scrollUp (htty : v.currentTty = tty)
    (hwrite : 0 ≤ v.scrollWriteLine ∧ v.scrollWriteLine < 200) (hlive : v.scrollViewOffset = 0)
    (hstep : v.step .scrollUp = some u) : Scrolled v tty u := by
  obtain ⟨screen, hup⟩ := scrollUp_eq htty hwrite hlive (by decide)
  obtain rfl := Option.some_inj.mp (hup.symm.trans hstep)
  exact ⟨1, screen, v.backlog 1, by decide, rfl, fun _ => rfl, fun hzero => absurd hzero one_ne_zero⟩

/-- Steps down alone do nothing, and with a step up everything is drawn from the backlog. -/
theorem run_scrolls (htty : v.currentTty = tty)
    (hwrite : 0 ≤ v.scrollWriteLine ∧ v.scrollWriteLine < 200) (hlive : v.scrollViewOffset = 0)
    {events : List Event} (hevents : ∀ e ∈ events, e.Scrolls)
    (hrun : run VGADriver.step v events = some u) :
    Event.scrollUp ∉ events ∧ u = v ∨ Event.scrollUp ∈ events ∧ Scrolled v tty u := by
  have hdown : ∀ a, v.step .scrollDown = some a → a = v := fun a ha =>
    Option.some_inj.mp (ha.symm.trans (scrollDown_live hlive))
  by_cases hup : Event.scrollUp ∈ events
  · refine Or.inr ⟨hup, ?_⟩
    obtain ⟨before, after, rfl⟩ := List.append_of_mem hup
    rw [run_append] at hrun
    obtain ⟨a, ha, hrun⟩ := Option.bind_eq_some_iff.mp hrun
    rw [run_cons] at hrun
    obtain ⟨b, hb, hrun⟩ := Option.bind_eq_some_iff.mp hrun
    have hbefore : a = v ∨ Scrolled v tty a := by
      refine run_invariant (P := fun a => a = v ∨ Scrolled v tty a) ?_ (Or.inl rfl)
        (guarded_of_forall_mem (fun e he => hevents e (List.mem_append_left _ he)) v) ha
      rintro a e a' (rfl | h) he hstep
      · rcases he.cases with rfl | rfl
        · exact Or.inr (scrolled_scrollUp htty hwrite hlive hstep)
        · exact Or.inl (hdown a' hstep)
      · exact Or.inr (h.step htty hwrite he hstep)
    have hscrolled : Scrolled v tty b := by
      rcases hbefore with rfl | h
      · exact scrolled_scrollUp htty hwrite hlive hb
      · exact h.up htty hwrite hb
    have hafter : ∀ e ∈ after, e.Scrolls := fun e he =>
      hevents e (List.mem_append_right _ (List.mem_cons_of_mem _ he))
    exact run_invariant (fun _ _ _ h he hstep => h.step htty hwrite he hstep) hscrolled
      (guarded_of_forall_mem hafter b) hrun
  · refine Or.inl ⟨hup, ?_⟩
    have hdowns : ∀ e ∈ events, e = .scrollDown := fun e he =>
      (hevents e he).cases.resolve_left fun heq => hup (heq ▸ he)
    refine run_invariant (P := fun a => a = v) ?_ rfl (guarded_of_forall_mem hdowns v) hrun
    rintro a e a' rfl rfl hstep
    exact hdown a' hstep

/-- Scrolling up and down again restores the screen and its buffer exactly when nothing was
scrolled up, or when both show the backlog already. -/
theorem scroll_back_iff (hv : v.Reachable) (hmode : v.scrollMode = false)
    (htty : v.currentTty = tty) {events : List Event} (hevents : ∀ e ∈ events, e.Scrolls)
    (hrun : run VGADriver.step v events = some u) (hback : u.scrollViewOffset = 0) :
    u.terminalBuffer = v.terminalBuffer ∧ u.ttyBuffers tty = v.ttyBuffers tty ↔
      Event.scrollUp ∉ events ∨
        v.terminalBuffer = v.backlog 1 ∧ v.ttyBuffers tty = v.backlog 1 := by
  have hbounds := hv.bounds
  have hlive : v.scrollViewOffset = 0 := by
    have hnonneg := hbounds.viewOffset.1
    have hnot : ¬0 < v.scrollViewOffset := fun hpos =>
      Bool.false_ne_true (hmode.symm.trans (hbounds.mode.mpr hpos))
    omega
  rcases run_scrolls htty hbounds.writeLine hlive hevents hrun with ⟨hup, rfl⟩ | ⟨hup, hscrolled⟩
  · exact iff_of_true ⟨rfl, rfl⟩ (Or.inl hup)
  · obtain ⟨offset, screen, buffer, -, rfl, -, hend⟩ := hscrolled
    have hzero : offset = 0 := Int.ofNat_inj.mp hback
    obtain ⟨rfl, rfl⟩ := hend hzero
    rw [or_iff_right fun hnot => hnot hup]
    have hbuffer : (v.scrolled tty offset (v.backlog 1) (v.backlog 1)).ttyBuffers tty =
        v.backlog 1 := Function.update_self ..
    rw [hbuffer]
    exact and_congr eq_comm eq_comm

end

/-! ### A letter -/

/-- A character that is printed stands at the cursor, and the cursor moves on. -/
theorem putChar_printable (h : v.Bounds) (hmode : v.scrollMode = false)
    (hplain : v.inEscape = false) {c : U8} (hc : c ≥ 32#8) (hcolumn : v.terminalColumn + 1 < 80) :
    ∃ cursor, v.putChar c = some { v with
      terminalColumn := v.terminalColumn + 1
      terminalBuffer := Function.update v.terminalBuffer
        ⟨v.terminalRow * 80 + v.terminalColumn, by have := h.row; omega⟩
        (vgaEntry c v.terminalColor)
      ttyBuffers := Function.update v.ttyBuffers ⟨v.currentTty, h.tty⟩
        (Function.update (v.ttyBuffers ⟨v.currentTty, h.tty⟩)
          ⟨v.terminalRow * 80 + v.terminalColumn, by have := h.row; omega⟩
          (vgaEntry c v.terminalColor))
      cursor := cursor } := by
  have hne : ∀ d : U8, ¬d ≥ 32#8 → c ≠ d := fun d hd heq => hd (heq ▸ hc)
  have hscroll : ¬v.scrollMode = true := by rw [hmode]; exact Bool.false_ne_true
  have hescape : ¬v.inEscape = true := by rw [hplain]; exact Bool.false_ne_true
  rw [putChar, if_neg hscroll, if_neg (hne escape (by decide)), if_neg hescape, putPlain,
    if_neg (hne newline (by decide)), if_neg (hne backspace (by decide)), if_pos hc,
    putEntryAt_spec c _ h.column h.row h.tty, Option.map_some, Option.bind_some]
  dsimp only
  rw [if_neg (Nat.not_le.mpr hcolumn), scroll]
  dsimp only
  rw [if_pos h.row, Option.map_some]
  obtain ⟨cursor, hcursor⟩ := updateCursor_eq _
  exact ⟨cursor, congrArg some hcursor⟩

/-- A machine that has just started. -/
def started : VGADriver := (boot fun _ => 0).cleared

theorem bounds_started : started.Bounds := (bounds_boot fun _ => 0).cleared

theorem step_boot : step (boot fun _ => 0) .initializeVga = some started :=
  initializeVga_eq (boot fun _ => 0)

theorem reachable_of_run {events : List Event} (h : run step started events = some v) :
    v.Reachable := by
  refine ⟨fun _ => 0, events, ?_⟩
  rw [run_cons, step_boot]
  exact h

/-- One step up and one down on a live screen draw it from the backlog. -/
theorem run_up_down {tty : Fin 4} (htty : v.currentTty = tty)
    (hwrite : 0 ≤ v.scrollWriteLine ∧ v.scrollWriteLine < 200) (hlive : v.scrollViewOffset = 0) :
    ∃ u, run step v [.scrollUp, .scrollDown] = some u ∧ u.scrollViewOffset = 0 ∧
      u.terminalBuffer = v.backlog 1 := by
  obtain ⟨screen, hup⟩ := scrollUp_eq htty hwrite hlive (by decide)
  have hfirst : v.step .scrollUp = some (v.scrolledTo tty 1 screen) := hup
  have hsecond := scrollDown_last (v := v.scrolledTo tty 1 screen) htty rfl
  have hrun : run step v [.scrollUp, .scrollDown] =
      (v.scrolledTo tty 1 screen).step .scrollDown := by
    rw [run_cons, hfirst, Option.bind_some, run_singleton]
  refine ⟨_, hrun.trans hsecond, rfl, ?_⟩
  exact Function.update_self tty (v.backlog 1) v.ttyBuffers

/-- The first letter after the start. -/
theorem run_letter : ∃ v, run step started [.putChar 0x41] = some v ∧ v.scrollMode = false ∧
    v.scrollViewOffset = 0 ∧ v.currentTty = 0 ∧
    v.terminalBuffer ⟨0 * 80 + 0, by decide⟩ = vgaEntry 0x41 lightGreyOnBlack ∧
    v.backlog 1 = started.backlog 1 := by
  obtain ⟨cursor, hput⟩ := putChar_printable (c := 0x41) bounds_started rfl rfl (by decide)
    (Nat.lt_of_lt_of_le (by decide : 0 + 1 < 80) (Nat.le_refl 80))
  refine ⟨_, (run_singleton ..).trans hput, rfl, rfl, rfl, ?_, rfl⟩
  exact Function.update_self (⟨0 * 80 + 0, by decide⟩ : Fin 2000) _ started.terminalBuffer

/-- A letter is printed; one step up and one down, and it is gone. -/
theorem scroll_back_loses_letter : ∃ v u, v.Reachable ∧ v.scrollMode = false ∧
    run step v [.scrollUp, .scrollDown] = some u ∧ u.scrollViewOffset = 0 ∧
    u.terminalBuffer ≠ v.terminalBuffer := by
  obtain ⟨v, hrun, hmode, hlive, htty, hletter, hbacklog⟩ := run_letter
  have hreachable := reachable_of_run hrun
  have hfirst : v.currentTty = ((0 : Fin 4) : ℕ) := htty
  obtain ⟨u, hu, hback, hscreen⟩ := run_up_down hfirst hreachable.bounds.writeLine hlive
  refine ⟨v, u, hreachable, hmode, hu, hback, fun heq => ?_⟩
  rw [← heq, hscreen, hbacklog] at hletter
  exact absurd hletter (by decide)

/-- Steps down on the live screen. -/
theorem scroll_back_started :
    started.terminalBuffer = started.terminalBuffer ∧
        started.ttyBuffers 0 = started.ttyBuffers 0 ↔
      Event.scrollUp ∉ [Event.scrollDown] ∨
        started.terminalBuffer = started.backlog 1 ∧ started.ttyBuffers 0 = started.backlog 1 :=
  scroll_back_iff (reachable_of_run (run_nil step started)) rfl rfl
    (fun e he => by rw [List.mem_singleton.mp he]; trivial) rfl rfl

/-- A letter on another terminal. -/
theorem switch_back_started :
    ∃ w, run step started (.switchTty (1 : Fin 4) :: [.putChar 0x42] ++ [.switchTty (0 : Fin 4)]) =
        some w ∧ w.currentTty = (0 : Fin 4) ∧ w.terminalBuffer = started.terminalBuffer ∧
      w.terminalRow = started.terminalRow ∧ w.terminalColumn = started.terminalColumn ∧
      w.terminalColor = started.terminalColor :=
  switch_back (reachable_of_run (run_nil step started)) rfl (by decide) fun e he => by
    rw [List.mem_singleton.mp he]
    exact ⟨trivial, by simp⟩

end MesaOS.Drivers.VGADriver
