/-
The history of the shell.

The arrow moves the cursor twice: once before it shows a line and once behind it.  So at a fresh
prompt it starts with the last line but one and skips every second line, down to the oldest one
or the one before it; then it goes on from the last line.

* `iterate_pressed`, `iterate_pressed_round` — where the cursor is;
* `Records.run` — the history holds the last ten lines that were entered, in any run;
* `showsRecent_iff_of_run` — the arrow shows the lines from the last one to the oldest just when they
  are all the same.
-/
import MesaOS.Console

open MachineWord Runs BoundedCopy MesaOS.FS MesaOS.Apps

namespace MesaOS.System

/-! ### The cursor -/

section

variable {n c m : ℕ}

/-- The line that is shown when the cursor is at `c`. -/
def shown (n c : ℕ) : ℕ := if 0 < c then c - 1 else n - 1

/-- The cursor behind it. -/
def pressed (n c : ℕ) : ℕ := shown n c - 1

theorem shown_of_pos (hc : 0 < c) : shown n c = c - 1 := if_pos hc

theorem shown_zero (n : ℕ) : shown n 0 = n - 1 := if_neg (Nat.lt_irrefl 0)

theorem shown_lt (hn : 0 < n) (hc : c ≤ n) : shown n c < n := by
  rw [shown]
  split_ifs <;> omega

theorem pressed_zero (hn : 0 < n) : pressed n 0 = pressed n n := by
  rw [pressed, pressed, shown_zero, shown_of_pos hn]

theorem iterate_pressed_le (hn : 0 < n) (hc : c ≤ n) (m : ℕ) : (pressed n)^[m] c ≤ n := by
  induction m with
  | zero => exact hc
  | succ m ih =>
    rw [Function.iterate_succ_apply', pressed]
    have := shown_lt hn ih
    omega

/-- Every key goes down by two. -/
theorem iterate_pressed (hm : 2 * m ≤ c + 1) : (pressed n)^[m] c = c - 2 * m := by
  induction m with
  | zero => rfl
  | succ m ih =>
    rw [Function.iterate_succ_apply', ih (by omega), pressed, shown_of_pos (by omega)]
    omega

/-- From the oldest line the arrow goes on as if the cursor were behind the last one. -/
theorem iterate_pressed_zero (hn : 0 < n) (hm : 0 < m) (hle : 2 * m ≤ n + 1) :
    (pressed n)^[m] 0 = n - 2 * m := by
  obtain ⟨m, rfl⟩ := Nat.exists_eq_succ_of_ne_zero hm.ne'
  rw [Function.iterate_succ_apply, pressed_zero hn, ← Function.iterate_succ_apply,
    iterate_pressed hle]

/-- After `n` keys the cursor is at the oldest line: it goes down twice. -/
theorem iterate_pressed_round (hn : 0 < n) : (pressed n)^[n] (n - 1) = 0 := by
  have hsum : (n + 1) / 2 + n / 2 = n := by omega
  have hfirst : (pressed n)^[n / 2] (n - 1) = 0 := by
    rw [iterate_pressed (by omega)]
    omega
  calc (pressed n)^[n] (n - 1)
      = (pressed n)^[(n + 1) / 2 + n / 2] (n - 1) := by rw [hsum]
    _ = (pressed n)^[(n + 1) / 2] 0 := by rw [Function.iterate_add_apply, hfirst]
    _ = 0 := by
        rw [iterate_pressed_zero hn (by omega) (by omega)]
        omega

/-- If the `k`-th key shows the `k`-th last line, and the oldest one from then on, all lines are
the same: those at an even distance from the end are the ones at half the distance, and those at
an odd distance are shown again in the second round, in place of the oldest one. -/
theorem all_eq_of_shown {α : Type*} {line : ℕ → α} (hn : 0 < n)
    (h : ∀ k, line (shown n ((pressed n)^[k] (n - 1))) = line (n - min (k + 1) n)) {i : ℕ}
    (hi : i < n) : line i = line 0 := by
  have heven : ∀ j, 0 < j → 2 * j ≤ n → line (n - 2 * j) = line (n - j) := by
    intro j hj hle
    have hkey := h (j - 1)
    rw [iterate_pressed (by omega), shown_of_pos (by omega), Nat.sub_add_cancel hj,
      Nat.min_eq_left (by omega)] at hkey
    rw [← hkey]
    congr 1
    omega
  have hodd : ∀ j, 2 * j + 1 ≤ n → line (n - (2 * j + 1)) = line 0 := by
    intro j hle
    have hkey := h (j + n)
    rw [Function.iterate_add_apply, iterate_pressed_round hn, Nat.min_eq_right (by omega),
      Nat.sub_self] at hkey
    rw [← hkey]
    congr 1
    rcases Nat.eq_zero_or_pos j with rfl | hj
    · exact (shown_zero n).symm
    · rw [iterate_pressed_zero hn hj (by omega), shown_of_pos (by omega)]
      omega
  -- by strong induction on the distance from the end
  have hall : ∀ d, 0 < d → d ≤ n → line (n - d) = line 0 := by
    intro d
    induction d using Nat.strong_induction_on with
    | _ d ih =>
      intro hd hle
      rcases Nat.even_or_odd' d with ⟨j, rfl | rfl⟩
      · rw [heven j (by omega) hle, ih j (by omega) (by omega) (by omega)]
      · exact hodd j hle
  have := hall (n - i) (by omega) (Nat.sub_le ..)
  rwa [Nat.sub_sub_self hi.le] at this

end

namespace Console

/-! ### What a command leaves alone -/

/-- The line, the history and its cursor. -/
def editing (s : Console) : Text 256 × (ℕ → Text 256) × ℕ × ℕ :=
  (s.commandBuffer, s.history, s.historyCount, s.historyCursor)

/-- The call touches neither the line nor the history. -/
abbrev KeepsEditing (s : Console) (r : Call Console) : Prop :=
  Returns (fun t => t.editing = s.editing) r

theorem returns_kprint (s : Console) (t : Print) : s.KeepsEditing (s.kprint t) := by
  rw [kprint]
  split_ifs
  · exact returns_ok rfl
  · exact returns_bind_any fun _ => returns_map_any fun fs => rfl
  · exact returns_ok rfl

theorem returns_redirect (s : Console) (file : Option (Bool × CString)) :
    s.KeepsEditing (s.redirect file) := by
  rcases file with _ | ⟨appendMode, file⟩
  · exact returns_ok rfl
  · rw [redirect]
    by_cases hempty : file.bytes = []
    · rw [if_pos hempty]
      exact returns_ok rfl
    · rw [if_neg hempty]
      refine returns_bind_any fun file => ?_
      cases appendMode with
      | true => exact returns_ok rfl
      | false => exact returns_bind_any fun _ => returns_map_any fun fs => rfl

theorem returns_cd (s : Console) (arg : CString) : s.KeepsEditing (s.cd arg) := by
  rw [cd]
  split_ifs
  · exact returns_ok rfl
  · refine returns_bind_any fun path => ?_
    split
    · split_ifs
      · exact returns_map_any fun path => rfl
      · exact returns_ok rfl
    · exact returns_ok rfl

theorem returns_branch (s : Console) (command cmd arg : CString) (created : ℕ → U8) :
    s.KeepsEditing (s.branch command cmd arg created) := by
  have hcreate : ∀ create, s.KeepsEditing (s.create arg create created) := by
    intro create
    rw [Console.create]
    split_ifs
    · exact returns_bind_any fun _ => returns_map_any fun r => rfl
    · exact returns_ok rfl
  rw [branch]
  split_ifs
  · exact s.returns_cd arg
  · rw [su]
    split_ifs
    · exact returns_map_any fun user => rfl
    · exact returns_ok rfl
  · exact hcreate _
  · rw [runApp]
    split_ifs
    · exact returns_map_any fun nano => rfl
    · exact returns_ok rfl
  · exact returns_map_any fun path => rfl
  · exact hcreate _
  · rw [cat]
    split_ifs
    · exact returns_map_any fun path => rfl
    · exact returns_ok rfl
  · exact returns_ok rfl
  · exact returns_bind_any fun path => returns_map_any fun nano => rfl
  · exact returns_error _
  · exact returns_ok rfl

theorem returns_executeSimple (s : Console) (commandIn : CString) (given : Given) :
    s.KeepsEditing (s.executeSimple commandIn given) := by
  rw [executeSimple]
  refine returns_bind (s.returns_redirect _) fun t ht => ?_
  refine returns_bind_any fun cmd => returns_bind_any fun arg => ?_
  refine returns_bind (t.returns_branch _ _ _ _) fun u hu => returns_map ?_
  exact returns_runCalls (P := fun v : Console => v.editing = s.editing)
    (fun v print hv w hw => (v.returns_kprint print w hw).trans hv) (hu.trans ht) given.prints

/-- By induction on the calls of `execute_command`. -/
theorem returns_execute (s : Console) (commandIn : Text 256) (given : ℕ → Given) :
    s.KeepsEditing (s.execute commandIn given) := by
  induction s, commandIn, given using execute.induct with
  | case1 s commandIn given leftCmd rightCmd h ihLeft ihRight =>
    rw [execute_some h]
    exact returns_bind ihLeft fun t ht u hu => (ihRight t u hu).trans ht
  | case2 s commandIn given h =>
    rw [execute_none h]
    exact s.returns_executeSimple _ _

theorem editing_eq {s t : Console} (h : t.editing = s.editing) :
    t.commandBuffer = s.commandBuffer ∧ t.history = s.history ∧
      t.historyCount = s.historyCount ∧ t.historyCursor = s.historyCursor := by
  rw [editing, editing, Prod.mk.injEq, Prod.mk.injEq, Prod.mk.injEq] at h
  exact h

/-- Tab changes the line alone. -/
theorem returns_autocomplete (s : Console) :
    Returns (fun t => ∃ line, t = { s with commandBuffer := line }) s.autocomplete := by
  rw [autocomplete]
  dsimp only
  split_ifs
  · exact returns_ok ⟨s.commandBuffer, rfl⟩
  · refine returns_bind_any fun word => ?_
    cases s.fs.findPath s.currentPath.1 with
    | none => exact returns_ok ⟨s.commandBuffer, rfl⟩
    | some dir =>
      refine returns_bind_any fun entries => returns_bind_any fun found => ?_
      split_ifs
      · refine returns_map_any fun full => ?_
        split
        · split_ifs
          · exact ⟨_, rfl⟩
          · exact ⟨_, rfl⟩
        · exact ⟨_, rfl⟩
      · exact returns_ok ⟨s.commandBuffer, rfl⟩

/-! ### The lines that were entered -/

/-- The line that a key enters. -/
def entered (s : Console) : Event → List (Text 256)
  | .input key _ =>
    if s.appRunning = false ∧ key.c = newline ∧ s.commandBuffer.1.bytes ≠ [] then
      [s.commandBuffer]
    else []
  | .execute _ _ => []

/-- The lines that are entered one after the other. -/
def enteredLines (s : Console) : List Event → List (Text 256)
  | [] => []
  | event :: events =>
    s.entered event ++
      match s.step event with
      | .ok t => t.enteredLines events
      | .error _ => []

/-- The last ten lines, the last one first. -/
def kept (log : List (Text 256)) : List (Text 256) := log.reverse.take 10

theorem kept_concat (log : List (Text 256)) (line : Text 256) :
    kept (log ++ [line]) = line :: (kept log).take 9 := by
  rw [kept, kept, List.reverse_append, List.take_take]
  rfl

/-- The history holds these lines. -/
structure Holds (s : Console) (log : List (Text 256)) : Prop where
  count : s.historyCount = (kept log).length
  lines : ∀ d < s.historyCount, (kept log)[d]? = some (s.history (s.historyCount - 1 - d))
  nonempty : ∀ line ∈ kept log, line.1.bytes ≠ []

/-- The history holds these lines, and the cursor is at the last one when nothing is typed. -/
structure Records (s : Console) (log : List (Text 256)) : Prop extends s.Holds log where
  cursor_le : s.historyCursor ≤ s.historyCount - 1
  cursor : s.commandBuffer.1.bytes = [] → s.historyCursor = s.historyCount - 1

section

variable {s t : Console} {log : List (Text 256)}

theorem Holds.count_le (h : s.Holds log) : s.historyCount ≤ 10 := by
  rw [h.count, kept, List.length_take]
  exact Nat.min_le_left ..

theorem Holds.mem_iff (h : s.Holds log) (line : Text 256) :
    line ∈ kept log ↔ ∃ i < s.historyCount, s.history i = line := by
  rw [List.mem_iff_getElem?]
  constructor
  · rintro ⟨d, hd⟩
    have hlt : d < s.historyCount := h.count ▸ (List.getElem?_eq_some_iff.mp hd).1
    rw [h.lines d hlt] at hd
    exact ⟨s.historyCount - 1 - d, by omega, Option.some_inj.mp hd⟩
  · rintro ⟨i, hi, rfl⟩
    refine ⟨s.historyCount - 1 - i, ?_⟩
    rw [h.lines _ (by omega), Nat.sub_sub_self (by omega)]

theorem Holds.congr (h : s.Holds log) (hhistory : t.history = s.history)
    (hcount : t.historyCount = s.historyCount) : t.Holds log := by
  refine ⟨hcount.trans h.count, ?_, h.nonempty⟩
  rw [hcount, hhistory]
  exact h.lines

theorem Holds.records (h : s.Holds log) (hcursor : s.historyCursor = s.historyCount - 1) :
    s.Records log :=
  ⟨h, hcursor.le, fun _ => hcursor⟩

theorem remember_of_empty (hline : s.commandBuffer.1.bytes = []) : s.remember = s := if_pos hline

theorem historyCount_remember (hline : s.commandBuffer.1.bytes ≠ []) :
    s.remember.historyCount =
      if s.historyCount < 10 then s.historyCount + 1 else s.historyCount := by
  rw [Console.remember, if_neg hline]
  split_ifs <;> rfl

theorem history_remember (hline : s.commandBuffer.1.bytes ≠ []) (i : ℕ) :
    s.remember.history i =
      if s.historyCount < 10 then Function.update s.history s.historyCount s.commandBuffer i
      else if i < 9 then s.history (i + 1)
      else if i = 9 then s.commandBuffer
      else s.history i := by
  rw [Console.remember, if_neg hline]
  by_cases hroom : s.historyCount < 10
  · rw [if_pos hroom, if_pos hroom]
  · rw [if_neg hroom, if_neg hroom]

theorem historyCursor_remember (hline : s.commandBuffer.1.bytes ≠ []) :
    s.remember.historyCursor = s.remember.historyCount - 1 := by
  rw [Console.remember, if_neg hline]

/-- A line is added, and the oldest one is lost when there are ten. -/
theorem Holds.remember (h : s.Holds log) (hline : s.commandBuffer.1.bytes ≠ []) :
    s.remember.Holds (log ++ [s.commandBuffer]) := by
  have hle := h.count_le
  have hcount := h.count
  refine ⟨?_, fun d hd => ?_, fun line hmem => ?_⟩
  · rw [historyCount_remember hline, kept_concat, List.length_cons, List.length_take]
    split_ifs <;> omega
  · rw [historyCount_remember hline] at hd ⊢
    rw [history_remember hline, kept_concat]
    by_cases hroom : s.historyCount < 10
    · -- the line goes behind the others
      rw [if_pos hroom] at hd ⊢
      rw [if_pos hroom, List.take_of_length_le (by omega)]
      cases d with
      | zero => rw [List.getElem?_cons_zero, Nat.add_sub_cancel, Nat.sub_zero, Function.update_self]
      | succ d =>
        rw [List.getElem?_cons_succ, h.lines d (by omega), Function.update_of_ne (by omega)]
        congr 2
        omega
    · -- the others move down, and the line takes the last place
      have hfull : s.historyCount = 10 := by omega
      rw [if_neg hroom] at hd ⊢
      rw [if_neg hroom, hfull]
      cases d with
      | zero => rfl
      | succ d =>
        rw [List.getElem?_cons_succ, List.getElem?_take_of_lt (by omega), h.lines d (by omega),
          if_pos (by omega), hfull]
        congr 2
        omega
  · rw [kept_concat, List.mem_cons] at hmem
    rcases hmem with rfl | hmem
    · exact hline
    · exact h.nonempty line (List.mem_of_mem_take hmem)

/-! ### What a key does to the history -/

theorem upArrow_of_empty (hcount : s.historyCount = 0) : s.upArrow = s :=
  if_neg (by omega)

/-- The arrow moves the cursor twice. -/
theorem upArrow_eq (hcount : 0 < s.historyCount) (hle : s.historyCount ≤ 10) :
    s.upArrow = { s with
      commandBuffer := s.history (shown s.historyCount s.historyCursor)
      historyCursor := pressed s.historyCount s.historyCursor } := by
  have hlast : (if s.historyCount < 10 then s.historyCount - 1 else 9) = s.historyCount - 1 := by
    split_ifs
    · rfl
    · omega
  rw [upArrow, if_pos hcount, hlast]
  rfl

theorem Records.upArrow (h : s.Records log) : s.upArrow.Records log := by
  rcases Nat.eq_zero_or_pos s.historyCount with hzero | hpos
  · rw [upArrow_of_empty hzero]
    exact h
  · have hlt : shown s.historyCount s.historyCursor < s.historyCount :=
      shown_lt hpos (h.cursor_le.trans (Nat.sub_le ..))
    have hmem := (h.mem_iff _).mpr ⟨_, hlt, rfl⟩
    rw [upArrow_eq hpos h.count_le]
    refine ⟨⟨h.count, h.lines, h.nonempty⟩, ?_, fun hline => absurd hline (h.nonempty _ hmem)⟩
    exact Nat.sub_le_sub_right hlt.le 1

theorem extend_ne_nil (line : Text 256) {c : U8} (hc : 0#8 ≠ c) :
    (extend line (.ofChar c hc)).1.bytes ≠ [] := by
  intro h
  have hlength : (line.1.bytes ++ [c].take (255 - textLength line.1)).length = 0 :=
    congrArg List.length h
  have hline : textLength line.1 = line.1.bytes.length := rfl
  rw [List.length_append, List.length_take, List.length_singleton] at hlength
  omega

/-- Down is typed into the line. -/
theorem Records.edit (h : s.Records log) {key : Key} (hkey : key.c = 0x12) :
    (s.edit key).Records log := by
  rw [Console.edit, if_neg (by rw [hkey]; decide)]
  exact ⟨⟨h.count, h.lines, h.nonempty⟩, h.cursor_le,
    fun hline => absurd hline (extend_ne_nil _ key.nonzero)⟩

/-- Enter: the line goes into the history unless it is empty, and is executed. -/
theorem Holds.enter (h : s.Holds log) (hcursor : s.historyCursor = s.historyCount - 1)
    (given : ℕ → Given) :
    Returns (fun t => t.Records
      (log ++ if s.commandBuffer.1.bytes ≠ [] then [s.commandBuffer] else [])) (s.enter given) := by
  have hremember : s.remember.Holds
        (log ++ if s.commandBuffer.1.bytes ≠ [] then [s.commandBuffer] else []) ∧
      s.remember.historyCursor = s.remember.historyCount - 1 := by
    by_cases hline : s.commandBuffer.1.bytes = []
    · rw [if_neg (not_not.mpr hline), List.append_nil, remember_of_empty hline]
      exact ⟨h, hcursor⟩
    · rw [if_pos hline]
      exact ⟨h.remember hline, historyCursor_remember hline⟩
  refine returns_map fun t ht => ?_
  obtain ⟨-, hhistory, hcount, hcur⟩ := editing_eq (s.remember.returns_execute _ _ t ht)
  refine Holds.records (hremember.1.congr hhistory hcount) ?_
  change t.historyCursor = t.historyCount - 1
  rw [hcur, hcount, hremember.2]

/-- The keys that enter nothing. -/
theorem Records.handleInput (h : s.Records log) {key : Key} (hkey : key.c ≠ newline)
    (given : ℕ → Given) : Returns (fun t => t.Records log) (s.handleInput key given) := by
  rw [Console.handleInput]
  split_ifs with happ hctrl hup htab
  · exact returns_map_any fun nano => ⟨⟨h.count, h.lines, h.nonempty⟩, h.cursor_le, h.cursor⟩
  · exact returns_ok h
  · exact returns_ok h.upArrow
  · -- Tab
    rw [resetCursor_of_ne (by rw [htab]; decide)]
    rintro t ht
    obtain ⟨line, rfl⟩ := returns_autocomplete _ t ht
    exact Holds.records ⟨h.count, h.lines, h.nonempty⟩ rfl
  · by_cases hdown : key.c = 0x12
    · have hreset : s.resetCursor key = s := if_pos hdown
      rw [hreset]
      exact returns_ok (h.edit hdown)
    · rw [resetCursor_of_ne hdown]
      refine returns_ok ?_
      rw [Console.edit]
      split_ifs
      · exact Holds.records ⟨h.count, h.lines, h.nonempty⟩ rfl
      · exact Holds.records ⟨h.count, h.lines, h.nonempty⟩ rfl

/-- **Every event keeps the last ten lines.** -/
theorem Records.step (h : s.Records log) (event : Event) :
    Returns (fun t => t.Records (log ++ s.entered event)) (s.step event) := by
  cases event with
  | execute command given =>
    rw [entered, List.append_nil]
    intro t ht
    obtain ⟨hline, hhistory, hcount, hcur⟩ := editing_eq (s.returns_execute _ _ t ht)
    refine ⟨h.toHolds.congr hhistory hcount, ?_, ?_⟩
    · rw [hcur, hcount]
      exact h.cursor_le
    · rw [hline, hcur, hcount]
      exact h.cursor
  | input key given =>
    rw [Console.step, entered]
    by_cases hkey : key.c = newline
    · by_cases happ : s.appRunning = true
      · rw [if_neg fun h => absurd (h.1.symm.trans happ) (by decide), List.append_nil,
          Console.handleInput, if_pos happ]
        exact returns_map_any fun nano => ⟨⟨h.count, h.lines, h.nonempty⟩, h.cursor_le, h.cursor⟩
      · have hentered : (s.appRunning = false ∧ key.c = newline ∧ s.commandBuffer.1.bytes ≠ []) ↔
            s.commandBuffer.1.bytes ≠ [] := by
          rw [Bool.not_eq_true] at happ
          rw [and_iff_right happ, and_iff_right hkey]
        rw [if_congr hentered rfl rfl, handleInput_newline happ hkey,
          resetCursor_of_ne (by rw [hkey]; decide)]
        exact Holds.enter (s := { s with historyCursor := s.historyCount - 1 })
          ⟨h.count, h.lines, h.nonempty⟩ rfl given
    · rw [if_neg fun h => hkey h.2.1, List.append_nil]
      exact h.handleInput hkey given

/-- In any run the history holds the last ten lines that were entered. -/
theorem Records.run (h : s.Records log) {events : List Event}
    (hrun : runCalls Console.step s events = .ok t) :
    t.Records (log ++ s.enteredLines events) := by
  induction events generalizing s log with
  | nil =>
    rw [enteredLines, List.append_nil]
    exact Except.ok.inj hrun ▸ h
  | cons event events ih =>
    rw [runCalls_cons] at hrun
    cases hstep : s.step event with
    | error stop =>
      rw [hstep] at hrun
      cases hrun
    | ok u =>
      rw [hstep] at hrun
      rw [enteredLines, hstep, ← List.append_assoc]
      exact ih (h.step event u hstep) hrun

theorem enteredLines_append {events : List Event} (hrun : runCalls Console.step s events = .ok t)
    (events' : List Event) :
    s.enteredLines (events ++ events') = s.enteredLines events ++ t.enteredLines events' := by
  induction events generalizing s with
  | nil =>
    cases hrun
    rfl
  | cons event events ih =>
    rw [runCalls_cons] at hrun
    cases hstep : s.step event with
    | error stop =>
      rw [hstep] at hrun
      cases hrun
    | ok u =>
      rw [hstep] at hrun
      rw [List.cons_append, enteredLines, enteredLines, hstep]
      dsimp only
      rw [ih hrun, List.append_assoc]

theorem records_start (fs : FileSystem) : (start fs).Records [] :=
  Holds.records ⟨rfl, fun d hd => absurd hd (Nat.not_lt_zero d), fun line hline => by cases hline⟩ rfl

/-! ### What the arrow shows -/

/-- The arrow; nothing is executed. -/
def up : Event :=
  .input { ctrl := false, c := 0x11, nonzero := by decide, created := fun _ => 0
           written := fun _ => 0 } fun _ => nothingGiven

/-- What the `k`-th arrow should show: the `k`-th last line, or the oldest one that is kept. -/
def recent (log : List (Text 256)) (k : ℕ) : Option (Text 256) :=
  (kept log)[min k (kept log).length - 1]?

/-- However often the arrow is pressed, it shows the line that it should. -/
def ShowsRecent (s : Console) (log : List (Text 256)) : Prop :=
  ∀ k, 0 < k → ∀ line, recent log k = some line →
    ∃ t, runCalls Console.step s (List.replicate k up) = .ok t ∧ t.commandBuffer = line

theorem step_up (happ : s.appRunning = false) : s.step up = .ok s.upArrow := by
  rw [up, Console.step, Console.handleInput, happ, if_neg Bool.false_ne_true,
    if_neg fun h => absurd h.1 Bool.false_ne_true, if_pos rfl]

/-- By induction on the number of keys. -/
theorem runCalls_up (happ : s.appRunning = false) (hcount : 0 < s.historyCount)
    (hle : s.historyCount ≤ 10) (k : ℕ) :
    runCalls Console.step s (List.replicate (k + 1) up) = .ok { s with
      commandBuffer := s.history (shown s.historyCount ((pressed s.historyCount)^[k] s.historyCursor))
      historyCursor := (pressed s.historyCount)^[k + 1] s.historyCursor } := by
  induction k generalizing s with
  | zero =>
    rw [List.replicate_one, runCalls_cons, step_up happ, upArrow_eq hcount hle]
    rfl
  | succ k ih =>
    rw [List.replicate_succ, runCalls_cons, step_up happ, upArrow_eq hcount hle, Except.bind]
    exact ih happ hcount hle

/-- The line of the `k`-th key. -/
theorem Holds.recent_eq (h : s.Holds log) (hcount : 0 < s.historyCount) (k : ℕ) :
    recent log (k + 1) = some (s.history (s.historyCount - min (k + 1) s.historyCount)) := by
  rw [recent, ← h.count, h.lines _ (by omega)]
  congr 2
  omega

/-- The lines are shown in their order just when they are the same. -/
theorem Records.showsRecent_iff (h : s.Records log) (happ : s.appRunning = false)
    (hline : s.commandBuffer.1.bytes = []) :
    s.ShowsRecent log ↔ ∀ a ∈ kept log, ∀ b ∈ kept log, a = b := by
  rcases Nat.eq_zero_or_pos s.historyCount with hzero | hpos
  · have hnil : kept log = [] := List.eq_nil_of_length_eq_zero (h.count ▸ hzero)
    refine iff_of_true (fun k _ line hrecent => ?_) (fun a ha => ?_)
    · rw [recent, hnil] at hrecent
      cases hrecent
    · rw [hnil] at ha
      cases ha
  · have hcursor := h.cursor hline
    constructor
    · -- what the keys show is known from where the cursor is
      intro hshows
      have hall : ∀ i < s.historyCount, s.history i = s.history 0 := by
        intro i hi
        refine all_eq_of_shown hpos (fun k => ?_) hi
        obtain ⟨t, ht, hshown⟩ := hshows (k + 1) (Nat.succ_pos k) _ (h.recent_eq hpos k)
        rw [runCalls_up happ hpos h.count_le k, hcursor] at ht
        rw [← hshown, ← Except.ok.inj ht]
      intro a ha b hb
      obtain ⟨i, hi, rfl⟩ := (h.mem_iff a).mp ha
      obtain ⟨j, hj, rfl⟩ := (h.mem_iff b).mp hb
      rw [hall i hi, hall j hj]
    · intro hsame k hk line hrecent
      obtain ⟨k, rfl⟩ := Nat.exists_eq_succ_of_ne_zero hk.ne'
      have hle := iterate_pressed_le hpos (h.cursor_le.trans (Nat.sub_le ..)) k
      rw [h.recent_eq hpos k, Option.some_inj] at hrecent
      refine ⟨_, runCalls_up happ hpos h.count_le k, ?_⟩
      rw [← hrecent]
      exact hsame _ ((h.mem_iff _).mpr ⟨_, shown_lt hpos hle, rfl⟩) _
        ((h.mem_iff _).mpr ⟨_, by omega, rfl⟩)

end

end Console

/-- **The arrow goes back through the lines**, one at a time, at a prompt with an empty line, just
when the lines that are kept are all the same. -/
theorem showsRecent_iff_of_run (fs : FileSystem) {events : List Event} {s : Console}
    (hrun : runCalls Console.step (Console.start fs) events = .ok s)
    (happ : s.appRunning = false) (hline : s.commandBuffer.1.bytes = []) :
    s.ShowsRecent ((Console.start fs).enteredLines events) ↔
      ∀ a ∈ Console.kept ((Console.start fs).enteredLines events),
        ∀ b ∈ Console.kept ((Console.start fs).enteredLines events), a = b :=
  ((Console.records_start fs).run hrun).showsRecent_iff happ hline

/-! ### Two letters -/

namespace Console

theorem zero_ne_newline : 0#8 ≠ newline := by decide

def letterLine (c : U8) (h : 0#8 ≠ c) : Text 256 := extend emptyText (.ofChar c h)

/-- No command has a name of one letter. -/
theorem branch_letter (s : Console) {cmd : CString} (hcmd : textLength cmd = 1)
    (created : ℕ → U8) : s.branch cmd cmd .empty created = .ok s := by
  have hne : ∀ name, textLength name ≠ 1 → cmd ≠ name := by
    rintro name hname rfl
    exact hname hcmd
  rw [branch, if_neg (hne _ (by decide)), if_neg (hne _ (by decide)), if_neg (hne _ (by decide)),
    if_neg (hne _ (by decide)), if_neg (hne _ (by decide)), if_neg (hne _ (by decide)),
    if_neg (hne _ (by decide)), if_neg (hne _ (by decide)), if_neg (hne _ (by decide)),
    if_neg (hne _ (by decide))]

theorem execute_letter (s : Console) {line : Text 256} (hlength : textLength line.1 = 1)
    (hsides : pipeSides line = none) (hredirection : Shell.redirection line.1 = (line.1, none))
    (hwords : cmdAndArg line.1 = (line.1, .empty)) :
    s.execute line (fun _ => nothingGiven) = .ok { s with redirOut := false } := by
  rw [execute_none hsides, executeSimple, hredirection]
  dsimp only [redirect, Except.bind]
  rw [hwords]
  dsimp only
  rw [copy, copyTo_of_lt (by omega), copy]
  dsimp only [Except.bind]
  rw [copyTo_of_lt (by decide)]
  dsimp only
  rw [s.branch_letter hlength]
  rfl

/-- A letter that is neither a key of the shell nor a sign in a command line. -/
structure Letter (c : U8) : Prop where
  nonzero : 0#8 ≠ c
  length : textLength (letterLine c nonzero).1 = 1
  nonempty : (letterLine c nonzero).1.bytes ≠ []
  notKey : c ∉ [0x08, 0x09, newline, 0x11, 0x12]
  sides : pipeSides (letterLine c nonzero) = none
  redirection : Shell.redirection (letterLine c nonzero).1 = ((letterLine c nonzero).1, none)
  words : cmdAndArg (letterLine c nonzero).1 = ((letterLine c nonzero).1, .empty)

theorem letter_a : Letter 0x61 :=
  ⟨by decide, rfl, by decide, by decide, by decide +kernel, by decide +kernel, by decide +kernel⟩

theorem letter_b : Letter 0x62 :=
  ⟨by decide, rfl, by decide, by decide, by decide +kernel, by decide +kernel, by decide +kernel⟩

/-- A letter, and Enter. -/
def enterLetter {c : U8} (hc : Letter c) : List Event :=
  [.input (typed c hc.nonzero) fun _ => nothingGiven,
    .input (typed newline zero_ne_newline) fun _ => nothingGiven]

theorem step_letter {s : Console} (happ : s.appRunning = false)
    (hline : s.commandBuffer = emptyText) {c : U8} (hc : Letter c) :
    s.step (.input (typed c hc.nonzero) fun _ => nothingGiven) = .ok { s with
      historyCursor := s.historyCount - 1, commandBuffer := letterLine c hc.nonzero } := by
  have hne : ∀ d ∈ [0x08, 0x09, newline, 0x11, 0x12], c ≠ d := by
    rintro d hd rfl
    exact hc.notKey hd
  have hkey : (typed c hc.nonzero).c = c := rfl
  have hshell : ¬s.appRunning = true := happ ▸ Bool.false_ne_true
  rw [step, handleInput, if_neg hshell,
    if_neg fun h => absurd h.1 Bool.false_ne_true, hkey, if_neg (hne _ (by decide)),
    resetCursor_of_ne (hne _ (by decide))]
  dsimp only
  have hback : (typed c hc.nonzero).c ≠ 0x08 := hne _ (by decide)
  rw [if_neg (hne _ (by decide)), if_neg (hne _ (by decide)), edit, if_neg hback]
  dsimp only
  rw [hline]
  rfl

/-- The letter is entered, and an empty line is left. -/
theorem runCalls_enterLetter {s : Console} (happ : s.appRunning = false)
    (hline : s.commandBuffer = emptyText) {c : U8} (hc : Letter c) :
    ∃ t, runCalls step s (enterLetter hc) = .ok t ∧ t.appRunning = false ∧
      t.commandBuffer = emptyText ∧
      s.enteredLines (enterLetter hc) = [letterLine c hc.nonzero] := by
  have hletter := step_letter happ hline hc
  set u : Console := { s with
    historyCursor := s.historyCount - 1, commandBuffer := letterLine c hc.nonzero } with hu
  set enterKey : Key := typed newline zero_ne_newline with henterKey
  have henter : u.step (.input enterKey fun _ => nothingGiven) = .ok { u.remember with
      redirOut := false, commandBuffer := emptyText } := by
    rw [step, handleInput_newline (by rw [hu, happ]; exact Bool.false_ne_true) rfl,
      resetCursor_of_ne (by decide)]
    change u.enter _ = _
    rw [enter, execute_letter _ hc.length hc.sides hc.redirection hc.words]
    rfl
  have hremember : u.remember.appRunning = false := by
    rw [remember]
    split_ifs <;> exact happ
  refine ⟨{ u.remember with redirOut := false, commandBuffer := emptyText }, ?_, hremember, rfl, ?_⟩
  · rw [enterLetter, runCalls_cons, hletter, Except.bind, runCalls_cons, henter]
    rfl
  · have hnone : s.entered (.input (typed c hc.nonzero) fun _ => nothingGiven) = [] :=
      if_neg fun h => hc.notKey (by rw [show c = newline from h.2.1]; decide)
    have hentered : u.entered (.input enterKey fun _ => nothingGiven) =
        [letterLine c hc.nonzero] := if_pos ⟨happ, rfl, hc.nonempty⟩
    rw [enterLetter, enteredLines, hnone, hletter]
    dsimp only
    rw [enteredLines, hentered, henter]
    rfl

end Console

/-- After the start of the system one letter is entered, and the arrow goes back to it. -/
theorem showsRecent_letter :
    ∃ fs s, FileSystem.boot freshMemory (fun _ _ => 0) = some fs ∧
      runCalls Console.step (Console.start fs) (Console.enterLetter Console.letter_a) = .ok s ∧
      s.ShowsRecent [Console.letterLine 0x61 Console.letter_a.nonzero] := by
  obtain ⟨fs, hboot⟩ := FileSystem.exists_boot
  obtain ⟨s, hrun, happ, hline, hentered⟩ :=
    Console.runCalls_enterLetter (s := Console.start fs) rfl rfl Console.letter_a
  refine ⟨fs, s, hboot, hrun, ?_⟩
  have hiff := showsRecent_iff_of_run fs hrun happ (by rw [hline]; rfl)
  rw [hentered] at hiff
  refine hiff.mpr fun a ha b hb => ?_
  have hkept : Console.kept [Console.letterLine 0x61 Console.letter_a.nonzero] =
      [Console.letterLine 0x61 Console.letter_a.nonzero] := rfl
  rw [hkept, List.mem_singleton] at ha hb
  rw [ha, hb]

def twoLetters : List Event :=
  Console.enterLetter Console.letter_a ++ Console.enterLetter Console.letter_b

/-- Two letters are entered: the arrow does not begin with the second one. -/
theorem twoLetters_not_showsRecent :
    ∃ fs s, FileSystem.boot freshMemory (fun _ _ => 0) = some fs ∧
      runCalls Console.step (Console.start fs) twoLetters = .ok s ∧
      s.appRunning = false ∧ s.commandBuffer.1.bytes = [] ∧
      ¬s.ShowsRecent ((Console.start fs).enteredLines twoLetters) := by
  obtain ⟨fs, hboot⟩ := FileSystem.exists_boot
  obtain ⟨s, hrun, happ, hline, hentered⟩ :=
    Console.runCalls_enterLetter (s := Console.start fs) rfl rfl Console.letter_a
  obtain ⟨t, hrun', happ', hline', hentered'⟩ :=
    Console.runCalls_enterLetter happ hline Console.letter_b
  have hempty : t.commandBuffer.1.bytes = [] := by
    rw [hline']
    rfl
  have hboth : runCalls Console.step (Console.start fs) twoLetters = .ok t := by
    rw [twoLetters, runCalls_append, hrun]
    exact hrun'
  refine ⟨fs, t, hboot, hboth, happ', hempty, fun hshows => ?_⟩
  have hsame := (((Console.records_start fs).run hboth).showsRecent_iff happ' hempty).mp hshows
  rw [twoLetters, Console.enteredLines_append hrun, hentered, hentered'] at hsame
  have hlines := hsame _ (List.mem_cons_of_mem _ (List.mem_singleton_self _)) _
    (List.mem_cons_self ..)
  exact absurd (congrArg (fun line : Text 256 => line.1.bytes) hlines) (by decide)

end MesaOS.System
