/-
Runs of partial step functions, and `while` loops.

A system is a step function `step : σ → α → Option σ`, where `none` means that
the system stops there (a fault, a panic).  `run step s acts` takes the actions
one after another; `Guarded step ok s acts` says that every action meets the
condition `ok` in the state in which it is taken.  Five rules turn what one
step preserves into what whole runs preserve:

* `run_invariant` — a property kept by every guarded step holds at the end of
  every guarded run that does not stop;
* `run_total` — if guarded steps are moreover always defined, guarded runs
  never stop;
* `run_iff_guarded` — a property that is lost by exactly the steps that miss a
  condition holds at the end of exactly the runs whose steps all meet it;
* `forall_prefix_iff_guarded` — one that such steps lose and others may bring back
  holds in every state along exactly these runs (`forall_prefix_some_iff_guarded` where
  such steps may also be undefined);
* `whileLoop_spec` — a loop whose variant goes down in every turn ends, in a
  state that satisfies its invariant and fails its test.
-/
import Mathlib.Tactic.Common

namespace Runs

variable {σ α : Type*}

/-- Take the actions in order, stopping at the first undefined step. -/
def run (step : σ → α → Option σ) (s : σ) (acts : List α) : Option σ := acts.foldlM step s

@[simp] theorem run_nil (step : σ → α → Option σ) (s : σ) : run step s [] = some s := rfl

@[simp] theorem run_cons (step : σ → α → Option σ) (s : σ) (a : α) (acts : List α) :
    run step s (a :: acts) = (step s a).bind fun s' => run step s' acts := rfl

theorem run_singleton (step : σ → α → Option σ) (s : σ) (a : α) : run step s [a] = step s a :=
  Option.bind_fun_some _

theorem run_append (step : σ → α → Option σ) (s : σ) (acts acts' : List α) :
    run step s (acts ++ acts') = (run step s acts).bind fun s' => run step s' acts' := by
  induction acts generalizing s with
  | nil => rfl
  | cons a acts ih =>
    rw [List.cons_append, run_cons, run_cons]
    cases step s a with
    | none => rfl
    | some s' => exact ih s'

/-- Every action of the run meets `ok` in the state in which it is taken. -/
def Guarded (step : σ → α → Option σ) (ok : σ → α → Prop) : σ → List α → Prop
  | _, [] => True
  | s, a :: acts => ok s a ∧ ∀ s', step s a = some s' → Guarded step ok s' acts

theorem guarded_cons_none {step : σ → α → Option σ} {ok : σ → α → Prop} {s : σ} {a : α}
    (h : step s a = none) (acts : List α) : Guarded step ok s (a :: acts) ↔ ok s a := by
  simp [Guarded, h]

theorem guarded_cons_some {step : σ → α → Option σ} {ok : σ → α → Prop} {s t : σ} {a : α}
    (h : step s a = some t) (acts : List α) :
    Guarded step ok s (a :: acts) ↔ ok s a ∧ Guarded step ok t acts := by
  simp [Guarded, h]

/-- Guarded runs are decided by running them. -/
instance decidableGuarded {step : σ → α → Option σ} {ok : σ → α → Prop}
    [hok : ∀ s a, Decidable (ok s a)] : ∀ s acts, Decidable (Guarded step ok s acts)
  | _, [] => isTrue trivial
  | s, a :: acts =>
    match h : step s a with
    | none => decidable_of_iff (ok s a) (guarded_cons_none h acts).symm
    | some t =>
      have : Decidable (Guarded step ok t acts) := decidableGuarded t acts
      decidable_of_iff (ok s a ∧ Guarded step ok t acts) (guarded_cons_some h acts).symm

theorem Guarded.imp {step : σ → α → Option σ} {ok ok' : σ → α → Prop}
    (h : ∀ s a, ok s a → ok' s a) {s : σ} {acts : List α} (hg : Guarded step ok s acts) :
    Guarded step ok' s acts := by
  induction acts generalizing s with
  | nil => trivial
  | cons a acts ih => exact ⟨h s a hg.1, fun t ht => ih (hg.2 t ht)⟩

/-- Two conditions that agree in all states that the guarded steps lead to. -/
theorem guarded_congr {step : σ → α → Option σ} {ok ok' : σ → α → Prop} {I : σ → Prop}
    (hinv : ∀ s a s', I s → ok' s a → step s a = some s' → I s')
    (hok : ∀ s a, I s → (ok s a ↔ ok' s a)) {s : σ} {acts : List α} (hs : I s) :
    Guarded step ok s acts ↔ Guarded step ok' s acts := by
  induction acts generalizing s with
  | nil => exact Iff.rfl
  | cons a acts ih =>
    rw [Guarded, Guarded, hok s a hs]
    refine and_congr_right fun ha => ?_
    exact forall_congr' fun t => forall_congr' fun ht => ih (hinv s a t hs ha ht)

/-- The rest of a guarded run is guarded. -/
theorem guarded_append {step : σ → α → Option σ} {ok : σ → α → Prop} {s t : σ}
    {acts acts' : List α} (hg : Guarded step ok s (acts ++ acts'))
    (hrun : run step s acts = some t) : Guarded step ok t acts' := by
  induction acts generalizing s with
  | nil =>
    rw [run_nil, Option.some_inj] at hrun
    exact hrun ▸ hg
  | cons a acts ih =>
    rw [run_cons] at hrun
    obtain ⟨u, hu, hrest⟩ := Option.bind_eq_some_iff.mp hrun
    exact ih (hg.2 u hu) hrest

theorem guarded_true (step : σ → α → Option σ) (s : σ) (acts : List α) :
    Guarded step (fun _ _ => True) s acts := by
  induction acts generalizing s with
  | nil => trivial
  | cons a acts ih => exact ⟨trivial, fun t _ => ih t⟩

theorem guarded_of_forall_mem {step : σ → α → Option σ} {ok : α → Prop} {acts : List α}
    (h : ∀ a ∈ acts, ok a) (s : σ) : Guarded step (fun _ a => ok a) s acts := by
  induction acts generalizing s with
  | nil => trivial
  | cons a acts ih =>
    exact ⟨h a (List.mem_cons_self ..), fun t _ => ih (fun b hb => h b (List.mem_cons_of_mem a hb)) t⟩

/-- A condition on the actions alone. -/
theorem guarded_iff_forall_mem {step : σ → α → Option σ} {ok : α → Prop} {s t : σ}
    {acts : List α} (hrun : run step s acts = some t) :
    Guarded step (fun _ a => ok a) s acts ↔ ∀ a ∈ acts, ok a := by
  induction acts generalizing s with
  | nil => exact iff_of_true trivial fun a ha => absurd ha (by simp)
  | cons a acts ih =>
    rw [run_cons] at hrun
    obtain ⟨u, hu, hrest⟩ := Option.bind_eq_some_iff.mp hrun
    rw [guarded_cons_some hu, ih hrest, List.forall_mem_cons]

/-- Some action of the run meets `ok` in the state in which it is taken. -/
def Sometime (step : σ → α → Option σ) (ok : σ → α → Prop) : σ → List α → Prop
  | _, [] => False
  | s, a :: acts => ok s a ∨ ∃ t, step s a = some t ∧ Sometime step ok t acts

theorem sometime_cons_none {step : σ → α → Option σ} {ok : σ → α → Prop} {s : σ} {a : α}
    (h : step s a = none) (acts : List α) : Sometime step ok s (a :: acts) ↔ ok s a := by
  simp [Sometime, h]

theorem sometime_cons_some {step : σ → α → Option σ} {ok : σ → α → Prop} {s t : σ} {a : α}
    (h : step s a = some t) (acts : List α) :
    Sometime step ok s (a :: acts) ↔ ok s a ∨ Sometime step ok t acts := by
  simp [Sometime, h]

instance decidableSometime {step : σ → α → Option σ} {ok : σ → α → Prop}
    [hok : ∀ s a, Decidable (ok s a)] : ∀ s acts, Decidable (Sometime step ok s acts)
  | _, [] => isFalse id
  | s, a :: acts =>
    match h : step s a with
    | none => decidable_of_iff (ok s a) (sometime_cons_none h acts).symm
    | some t =>
      have : Decidable (Sometime step ok t acts) := decidableSometime t acts
      decidable_of_iff (ok s a ∨ Sometime step ok t acts) (sometime_cons_some h acts).symm

theorem run_invariant {step : σ → α → Option σ} {ok : σ → α → Prop} {P : σ → Prop}
    (hstep : ∀ s a s', P s → ok s a → step s a = some s' → P s')
    {s s' : σ} {acts : List α} (hs : P s) (hok : Guarded step ok s acts)
    (hrun : run step s acts = some s') : P s' := by
  induction acts generalizing s with
  | nil =>
    rw [run_nil, Option.some_inj] at hrun
    exact hrun ▸ hs
  | cons a acts ih =>
    rw [run_cons] at hrun
    obtain ⟨t, ht, hrest⟩ := Option.bind_eq_some_iff.mp hrun
    exact ih (hstep s a t hs hok.1 ht) (hok.2 t ht) hrest

/-- What every action keeps holds after every run. -/
theorem run_keeps {step : σ → α → Option σ} {P : σ → Prop}
    (hstep : ∀ s a s', P s → step s a = some s' → P s')
    {s s' : σ} {acts : List α} (hs : P s) (hrun : run step s acts = some s') : P s' := by
  induction acts generalizing s with
  | nil =>
    rw [run_nil, Option.some_inj] at hrun
    exact hrun ▸ hs
  | cons a acts ih =>
    rw [run_cons] at hrun
    obtain ⟨t, ht, hrest⟩ := Option.bind_eq_some_iff.mp hrun
    exact ih (hstep s a t hs ht) hrest

/-- A property that no step brings back, and that is lost by the steps that miss `ok`. -/
theorem run_iff_guarded {step : σ → α → Option σ} {W ok : σ → α → Prop} {I P : σ → Prop}
    (hinv : ∀ s a s', I s → W s a → step s a = some s' → I s')
    (hstep : ∀ s a s', I s → W s a → step s a = some s' → (P s' ↔ P s ∧ ok s a))
    {s s' : σ} {acts : List α} (hs : I s) (hwf : Guarded step W s acts)
    (hrun : run step s acts = some s') : P s' ↔ P s ∧ Guarded step ok s acts := by
  induction acts generalizing s with
  | nil =>
    rw [run_nil, Option.some_inj] at hrun
    subst hrun
    exact (and_iff_left trivial).symm
  | cons a acts ih =>
    rw [run_cons] at hrun
    obtain ⟨t, ht, hrest⟩ := Option.bind_eq_some_iff.mp hrun
    rw [ih (hinv s a t hs hwf.1 ht) (hwf.2 t ht) hrest, hstep s a t hs hwf.1 ht,
      guarded_cons_some ht, and_assoc]

/-- A property that every step may lose and that only the steps that meet `ok` keep holds all
along exactly the runs whose steps all meet it. -/
theorem forall_prefix_iff_guarded {step : σ → α → Option σ} {ok : σ → α → Prop} {I P : σ → Prop}
    (hinv : ∀ s a, I s → ∃ s', step s a = some s' ∧ I s')
    (hstep : ∀ s a s', I s → P s → step s a = some s' → (P s' ↔ ok s a))
    {s : σ} {acts : List α} (hs : I s) (hP : P s) :
    (∀ before, before <+: acts → ∀ t, run step s before = some t → P t) ↔
      Guarded step ok s acts := by
  induction acts generalizing s with
  | nil =>
    refine iff_of_true (fun before hbefore t ht => ?_) trivial
    rw [List.prefix_nil.mp hbefore, run_nil, Option.some_inj] at ht
    exact ht ▸ hP
  | cons a acts ih =>
    obtain ⟨u, hu, hIu⟩ := hinv s a hs
    have hPu := hstep s a u hs hP hu
    rw [guarded_cons_some hu]
    constructor
    · intro h
      have hok : P u := h [a] ⟨acts, rfl⟩ u (by rw [run_cons, hu]; rfl)
      refine ⟨hPu.mp hok, (ih hIu hok).mp fun before hbefore t ht => ?_⟩
      exact h (a :: before) (List.cons_prefix_cons.mpr ⟨rfl, hbefore⟩) t
        (by rw [run_cons, hu]; exact ht)
    · rintro ⟨hok, hrest⟩ before hbefore t ht
      rcases List.prefix_cons_iff.mp hbefore with rfl | ⟨rest, rfl, hrest'⟩
      · rw [run_nil, Option.some_inj] at ht
        exact ht ▸ hP
      · rw [run_cons, hu] at ht
        exact (ih hIu (hPu.mpr hok)).mpr hrest rest hrest' t ht

/-- The same for steps that may be undefined, of the states that are reached. -/
theorem forall_reached_iff_guarded {step : σ → α → Option σ} {ok : σ → α → Prop} {P : σ → Prop}
    (hnone : ∀ s a, step s a = none → ok s a)
    (hstep : ∀ s a s', P s → step s a = some s' → (P s' ↔ ok s a))
    {s : σ} {acts : List α} (hP : P s) :
    (∀ before, before <+: acts → ∀ t, run step s before = some t → P t) ↔
      Guarded step ok s acts := by
  induction acts generalizing s with
  | nil =>
    refine iff_of_true (fun before hbefore t ht => ?_) trivial
    rw [List.prefix_nil.mp hbefore, run_nil, Option.some_inj] at ht
    exact ht ▸ hP
  | cons a acts ih =>
    have hcons : (∀ before, before <+: a :: acts → ∀ t, run step s before = some t → P t) ↔
        ∀ u, step s a = some u →
          ∀ before, before <+: acts → ∀ t, run step u before = some t → P t := by
      constructor
      · intro h u hu before hbefore t ht
        exact h (a :: before) (List.cons_prefix_cons.mpr ⟨rfl, hbefore⟩) t
          (by rw [run_cons, hu]; exact ht)
      · intro h before hbefore t ht
        rcases List.prefix_cons_iff.mp hbefore with rfl | ⟨rest, rfl, hrest⟩
        · exact Option.some_inj.mp ht ▸ hP
        · rw [run_cons] at ht
          obtain ⟨u, hu, hut⟩ := Option.bind_eq_some_iff.mp ht
          exact h u hu rest hrest t hut
    rw [hcons]
    cases hu : step s a with
    | none => exact iff_of_true (fun u h => absurd h (by simp)) ((guarded_cons_none hu acts).mpr
        (hnone s a hu))
    | some u =>
      rw [guarded_cons_some hu]
      constructor
      · intro h
        have hPu : P u := h u rfl [] List.nil_prefix u rfl
        exact ⟨(hstep s a u hP hu).mp hPu, (ih hPu).mp (h u rfl)⟩
      · rintro ⟨hok, hrest⟩ v hv
        obtain rfl := Option.some_inj.mp hv
        exact (ih ((hstep s a u hP hu).mpr hok)).mpr hrest

/-- The same for steps that may be undefined: a run meets the condition throughout when it
does not stop and keeps the property. -/
theorem forall_prefix_some_iff_guarded {step : σ → α → Option σ} {ok : σ → α → Prop}
    {I P : σ → Prop} (hinv : ∀ s a s', I s → step s a = some s' → I s')
    (hstep : ∀ s a, I s → P s → ((∃ s', step s a = some s' ∧ P s') ↔ ok s a))
    {s : σ} {acts : List α} (hs : I s) (hP : P s) :
    (∀ before, before <+: acts → ∃ t, run step s before = some t ∧ P t) ↔
      Guarded step ok s acts := by
  induction acts generalizing s with
  | nil =>
    refine iff_of_true (fun before hbefore => ⟨s, ?_, hP⟩) trivial
    rw [List.prefix_nil.mp hbefore, run_nil]
  | cons a acts ih =>
    constructor
    · intro h
      obtain ⟨u, hu, hPu⟩ : ∃ u, step s a = some u ∧ P u := by
        obtain ⟨t, ht, hPt⟩ := h [a] ⟨acts, rfl⟩
        rw [run_cons] at ht
        obtain ⟨u, hu, hut⟩ := Option.bind_eq_some_iff.mp ht
        exact ⟨u, hu, Option.some_inj.mp hut ▸ hPt⟩
      rw [guarded_cons_some hu]
      refine ⟨(hstep s a hs hP).mp ⟨u, hu, hPu⟩, (ih (hinv s a u hs hu) hPu).mp fun before hbefore => ?_⟩
      obtain ⟨t, ht, hPt⟩ := h (a :: before) (List.cons_prefix_cons.mpr ⟨rfl, hbefore⟩)
      rw [run_cons, hu] at ht
      exact ⟨t, ht, hPt⟩
    · rintro ⟨hok, hrest⟩ before hbefore
      obtain ⟨u, hu, hPu⟩ := (hstep s a hs hP).mpr hok
      rcases List.prefix_cons_iff.mp hbefore with rfl | ⟨rest, rfl, hrest'⟩
      · exact ⟨s, rfl, hP⟩
      · obtain ⟨t, ht, hPt⟩ := (ih (hinv s a u hs hu) hPu).mpr (hrest u hu) rest hrest'
        refine ⟨t, ?_, hPt⟩
        rw [run_cons, hu]
        exact ht

theorem run_total {step : σ → α → Option σ} {ok : σ → α → Prop} {P : σ → Prop}
    (hstep : ∀ s a, P s → ok s a → ∃ s', step s a = some s' ∧ P s')
    {s : σ} {acts : List α} (hs : P s) (hok : Guarded step ok s acts) :
    ∃ s', run step s acts = some s' ∧ P s' := by
  induction acts generalizing s with
  | nil => exact ⟨s, rfl, hs⟩
  | cons a acts ih =>
    obtain ⟨t, ht, hPt⟩ := hstep s a hs hok.1
    obtain ⟨s', hs', hPs'⟩ := ih hPt (hok.2 t ht)
    refine ⟨s', ?_, hPs'⟩
    rw [run_cons, ht]
    exact hs'

/-- A machine that can follow every step follows a whole run. -/
theorem run_simulates {τ : Type*} {step : σ → α → Option σ} {step' : τ → α → Option τ}
    {ok : σ → α → Prop} (R : σ → τ → Prop)
    (hstep : ∀ s t a s', R s t → ok s a → step s a = some s' →
      ∃ t', step' t a = some t' ∧ R s' t') {acts : List α} {s s' : σ} {t : τ} (hst : R s t)
    (hrun : run step s acts = some s') (hok : Guarded step ok s acts) :
    ∃ t', run step' t acts = some t' ∧ R s' t' := by
  induction acts generalizing s t with
  | nil => exact ⟨t, rfl, Option.some_inj.mp hrun ▸ hst⟩
  | cons a acts ih =>
    rw [run_cons] at hrun
    obtain ⟨u, hu, hrest⟩ := Option.bind_eq_some_iff.mp hrun
    obtain ⟨v, hv, huv⟩ := hstep s t a u hst hok.1 hu
    rw [run_cons, hv, Option.bind_some]
    exact ih huv hrest (hok.2 u hu)

/-! ### Loops -/

/-- `while cond do body`, cut off after `fuel` tests. -/
def whileLoop (cond : σ → Bool) (body : σ → Option σ) : ℕ → σ → Option σ
  | 0, _ => none
  | fuel + 1, s => if cond s then (body s).bind (whileLoop cond body fuel) else some s

theorem whileLoop_spec (cond : σ → Bool) (body : σ → Option σ) (inv : σ → Prop)
    (variant : σ → ℕ)
    (hbody : ∀ s, inv s → cond s = true →
      ∃ s', body s = some s' ∧ inv s' ∧ variant s' < variant s)
    (fuel : ℕ) {s : σ} (hs : inv s) (hfuel : variant s < fuel) :
    ∃ s', whileLoop cond body fuel s = some s' ∧ inv s' ∧ cond s' = false := by
  induction fuel generalizing s with
  | zero => exact absurd hfuel (Nat.not_lt_zero _)
  | succ fuel ih =>
    rw [whileLoop]
    cases hc : cond s with
    | false => exact ⟨s, by simp, hs, hc⟩
    | true =>
      obtain ⟨t, ht, hit, hlt⟩ := hbody s hs hc
      obtain ⟨s', hs', hi', hc'⟩ := ih hit (by omega)
      refine ⟨s', ?_, hi', hc'⟩
      rw [if_pos rfl, ht]
      exact hs'

/-- A loop that has ended takes no notice of more fuel. -/
theorem whileLoop_more {cond : σ → Bool} {body : σ → Option σ} {fuel fuel' : ℕ} {s t : σ}
    (h : whileLoop cond body fuel s = some t) (hle : fuel ≤ fuel') :
    whileLoop cond body fuel' s = some t := by
  induction fuel generalizing s fuel' with
  | zero => exact absurd h (Option.some_ne_none t).symm
  | succ fuel ih =>
    obtain ⟨more, rfl⟩ := Nat.exists_eq_add_of_le' hle
    rw [whileLoop] at h
    rw [← Nat.add_assoc, whileLoop]
    by_cases hc : cond s = true
    · rw [if_pos hc] at h ⊢
      obtain ⟨u, hu, hrest⟩ := Option.bind_eq_some_iff.mp h
      rw [hu]
      exact ih hrest (Nat.le_add_left fuel more)
    · rw [if_neg hc] at h ⊢
      exact h

/-- What the body keeps holds behind the loop. -/
theorem whileLoop_keeps (cond : σ → Bool) (body : σ → Option σ) (inv : σ → Prop)
    (hbody : ∀ s s', inv s → body s = some s' → inv s') (fuel : ℕ) {s s' : σ} (hs : inv s)
    (h : whileLoop cond body fuel s = some s') : inv s' := by
  induction fuel generalizing s with
  | zero => exact absurd h (Option.some_ne_none s').symm
  | succ fuel ih =>
    rw [whileLoop] at h
    split at h
    · obtain ⟨t, ht, hrest⟩ := Option.bind_eq_some_iff.mp h
      exact ih (hbody s t hs ht) hrest
    · exact Option.some_inj.mp h ▸ hs

/-- What one turn of a loop does, another loop can follow; then it follows the whole loop. -/
theorem whileLoop_simulates {τ : Type*} {cond : σ → Bool} {body : σ → Option σ}
    (cond' : τ → Bool) (body' : τ → Option τ) (R : σ → τ → Prop)
    (hcond : ∀ s t, R s t → cond' t = cond s)
    (hbody : ∀ s t s', R s t → cond s = true → body s = some s' →
      ∃ t', body' t = some t' ∧ R s' t') (fuel : ℕ) {s s' : σ} (t : τ) (hst : R s t)
    (h : whileLoop cond body fuel s = some s') :
    ∃ t', whileLoop cond' body' fuel t = some t' ∧ R s' t' := by
  induction fuel generalizing s t with
  | zero => exact absurd h (Option.some_ne_none s').symm
  | succ fuel ih =>
    rw [whileLoop] at h ⊢
    rw [hcond s t hst]
    by_cases hc : cond s = true
    · rw [if_pos hc] at h ⊢
      obtain ⟨u, hu, hrest⟩ := Option.bind_eq_some_iff.mp h
      obtain ⟨v, hv, huv⟩ := hbody s t u hst hc hu
      rw [hv, Option.bind_some]
      exact ih v huv hrest
    · rw [if_neg hc] at h ⊢
      exact ⟨t, rfl, Option.some_inj.mp h ▸ hst⟩

/-- Two loops whose bodies agree as long as the invariant holds. -/
theorem whileLoop_congr (cond : σ → Bool) {body body' : σ → Option σ} (inv : σ → Prop)
    (hbody : ∀ s, inv s → cond s = true → body s = body' s ∧ ∀ t, body s = some t → inv t)
    (fuel : ℕ) {s : σ} (hs : inv s) :
    whileLoop cond body fuel s = whileLoop cond body' fuel s := by
  induction fuel generalizing s with
  | zero => rfl
  | succ fuel ih =>
    rw [whileLoop, whileLoop]
    by_cases hc : cond s = true
    · obtain ⟨heq, hinv⟩ := hbody s hs hc
      rw [if_pos hc, if_pos hc, ← heq]
      cases ht : body s with
      | none => rfl
      | some t => exact ih (hinv t ht)
    · rw [if_neg hc, if_neg hc]

end Runs
