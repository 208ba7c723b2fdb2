/-
Calls that copy strings into arrays of fixed size.

A call returns, overflows one of its arrays, or does not come back for another reason.  What
an array of `n` characters holds has the type `{t // length t < n}`, so that only the copies
from a larger array into a smaller one have to be checked.

* `noOverflow_bind`, `noOverflow_copyTo` — a call overflows nothing when its parts do not,
  and a copy when the string and its terminator fit;
* `returns_bind`, `returns_runCalls` — what calls return, and what they keep;
* `noOverflow_runCalls_iff` — a sequence of calls overflows nothing just when every call
  meets its own condition in the state in which it is made.
-/
import MesaOS.Runs

namespace BoundedCopy

open Runs

variable {β τ σ α γ : Type*}

/-- Why a call does not return. -/
inductive Stop (β : Type*)
  /-- a string does not fit into the array -/
  | overflow (array : β)
  /-- for another reason -/
  | stuck

/-- The string and its terminator fit into an array of `n` characters. -/
def copyTo (length : τ → ℕ) (array : β) (n : ℕ) (text : τ) :
    Except (Stop β) {t : τ // length t < n} :=
  if h : length text < n then .ok ⟨text, h⟩ else .error (.overflow array)

/-- A call of code that does not copy into these arrays. -/
def result : Option α → Except (Stop β) α
  | some a => .ok a
  | none => .error .stuck

/-- The calls one after the other. -/
def runCalls (step : σ → α → Except (Stop β) σ) (s : σ) (acts : List α) : Except (Stop β) σ :=
  acts.foldlM step s

/-- The call overflows none of its arrays. -/
def NoOverflow (r : Except (Stop β) α) : Prop := ∀ array, r ≠ .error (.overflow array)

/-- If the call returns, what it returns has the property. -/
def Returns (P : α → Prop) (r : Except (Stop β) α) : Prop := ∀ a, r = .ok a → P a

/-! ### Parts of a call -/

theorem noOverflow_ok (a : α) : NoOverflow (.ok a : Except (Stop β) α) :=
  fun _ h => by cases h

theorem noOverflow_stuck : NoOverflow (.error .stuck : Except (Stop β) α) :=
  fun _ h => by cases h

theorem noOverflow_result (r : Option α) : NoOverflow (result r : Except (Stop β) α) := by
  cases r with
  | none => exact noOverflow_stuck
  | some a => exact noOverflow_ok a

theorem noOverflow_bind (r : Except (Stop β) α) (f : α → Except (Stop β) γ) :
    NoOverflow (r.bind f) ↔ NoOverflow r ∧ ∀ a, r = .ok a → NoOverflow (f a) := by
  cases r with
  | error stop =>
    refine ⟨fun h => ⟨fun array hr => h array ?_, fun a ha => by cases ha⟩,
      fun h array hr => h.1 array ?_⟩
    · cases hr
      rfl
    · cases hr
      rfl
  | ok a =>
    refine ⟨fun h => ⟨noOverflow_ok a, fun b hb => ?_⟩, fun h => h.2 a rfl⟩
    cases hb
    exact h

theorem noOverflow_map (r : Except (Stop β) α) (f : α → γ) :
    NoOverflow (r.map f) ↔ NoOverflow r := by
  cases r with
  | error stop =>
    constructor <;>
    · intro h array hr
      cases hr
      exact h array rfl
  | ok a => exact iff_of_true (noOverflow_ok _) (noOverflow_ok a)

section

variable {length : τ → ℕ} {array : β} {n : ℕ} {text : τ}

theorem copyTo_of_lt (h : length text < n) :
    copyTo length array n text = .ok ⟨text, h⟩ := dif_pos h

theorem copyTo_of_not_lt (h : ¬ length text < n) :
    copyTo length array n text = .error (.overflow array) := dif_neg h

theorem noOverflow_copyTo : NoOverflow (copyTo length array n text) ↔ length text < n := by
  by_cases h : length text < n
  · rw [copyTo_of_lt h]
    exact iff_of_true (noOverflow_ok _) h
  · rw [copyTo_of_not_lt h]
    exact iff_of_false (fun hno => hno array rfl) h

/-- A copy, and what follows it. -/
theorem noOverflow_copyTo_bind {f : {t : τ // length t < n} → Except (Stop β) α} :
    NoOverflow ((copyTo length array n text).bind f) ↔
      ∃ h : length text < n, NoOverflow (f ⟨text, h⟩) := by
  rw [noOverflow_bind, noOverflow_copyTo]
  constructor
  · rintro ⟨h, hf⟩
    exact ⟨h, hf _ (copyTo_of_lt h)⟩
  · rintro ⟨h, hf⟩
    refine ⟨h, fun a ha => ?_⟩
    rw [copyTo_of_lt h] at ha
    cases ha
    exact hf

end

/-! ### What a call returns -/

section

variable {P : α → Prop} {Q : γ → Prop}

theorem returns_ok {a : α} (h : P a) : Returns P (.ok a : Except (Stop β) α) := by
  intro b hb
  cases hb
  exact h

theorem returns_error (stop : Stop β) : Returns P (.error stop : Except (Stop β) α) :=
  fun b hb => by cases hb

theorem returns_bind {r : Except (Stop β) α} {f : α → Except (Stop β) γ} (hr : Returns P r)
    (hf : ∀ a, P a → Returns Q (f a)) : Returns Q (r.bind f) := by
  cases r with
  | error stop => exact returns_error stop
  | ok a => exact hf a (hr a rfl)

/-- What the first part returns does not matter. -/
theorem returns_bind_any {r : Except (Stop β) α} {f : α → Except (Stop β) γ}
    (hf : ∀ a, Returns Q (f a)) : Returns Q (r.bind f) :=
  returns_bind (fun _ _ => trivial) fun a _ => hf a

theorem returns_map {r : Except (Stop β) α} {f : α → γ} (hr : Returns (fun a => Q (f a)) r) :
    Returns Q (r.map f) := by
  cases r with
  | error stop => exact returns_error stop
  | ok a => exact returns_ok (hr a rfl)

theorem returns_map_any {r : Except (Stop β) α} {f : α → γ} (hf : ∀ a, Q (f a)) :
    Returns Q (r.map f) :=
  returns_map fun a _ => hf a

end

/-! ### Sequences of calls -/

section

variable {step : σ → α → Except (Stop β) σ}

theorem runCalls_cons (s : σ) (a : α) (acts : List α) :
    runCalls step s (a :: acts) = (step s a).bind fun s' => runCalls step s' acts := rfl

theorem runCalls_singleton (s : σ) (a : α) : runCalls step s [a] = step s a := by
  rw [runCalls_cons]
  cases step s a <;> rfl

theorem runCalls_append (s : σ) (acts acts' : List α) :
    runCalls step s (acts ++ acts') =
      (runCalls step s acts).bind fun s' => runCalls step s' acts' :=
  List.foldlM_append

/-- What every call keeps, the sequence keeps. -/
theorem returns_runCalls {P : σ → Prop} (hstep : ∀ s a, P s → Returns P (step s a)) {s : σ}
    (hs : P s) (acts : List α) : Returns P (runCalls step s acts) := by
  induction acts generalizing s with
  | nil => exact returns_ok hs
  | cons a acts ih => exact returns_bind (hstep s a hs) fun t ht => ih ht

/-- **Every call is made in a state in which it overflows nothing**, or some call overflows. -/
theorem noOverflow_runCalls_iff {ok : σ → α → Prop}
    (hstep : ∀ s a, NoOverflow (step s a) ↔ ok s a) (s : σ) (acts : List α) :
    NoOverflow (runCalls step s acts) ↔ Guarded (fun s a => (step s a).toOption) ok s acts := by
  induction acts generalizing s with
  | nil => exact iff_of_true (noOverflow_ok s) trivial
  | cons a acts ih =>
    rw [runCalls_cons, noOverflow_bind, hstep, Guarded]
    refine and_congr_right fun _ => forall_congr' fun t => ?_
    rw [ih t]
    refine imp_congr_left ?_
    cases step s a with
    | error stop => exact iff_of_false (fun h => by cases h) (fun h => by cases h)
    | ok u =>
      rw [Except.toOption, Option.some_inj]
      exact ⟨fun h => Except.ok.inj h, fun h => congrArg _ h⟩

end

end BoundedCopy
