/-
Arrays with checked indices, and counting loops.

An array of `n` entries is a function on `Fin n`; reading or writing outside of it has no result.

* `forRange_spec` — the rule for counting loops;
* `strlen_eq_some_iff` — the first zero of an array;
* `store_filled` — a loop that stores one entry after the other fills the array from the front.
-/
import Mathlib.Logic.Function.Basic
import Mathlib.Tactic.Common

namespace CheckedArray

variable {α σ : Type*} {n m : ℕ}

/-- `a[i]` -/
def load (a : Fin n → α) (i : ℕ) : Option α := if h : i < n then some (a ⟨i, h⟩) else none

/-- `a[i] = x` -/
def store (a : Fin n → α) (i : ℕ) (x : α) : Option (Fin n → α) :=
  if h : i < n then some (Function.update a ⟨i, h⟩ x) else none

/-- `a[i][j] = x` -/
def store₂ (a : Fin m → Fin n → α) (i j : ℕ) (x : α) : Option (Fin m → Fin n → α) :=
  (load a i).bind fun row => (store row j x).bind (store a i)

/-- `memmove` of `count` entries of one array. -/
def memmove (a : Fin n → α) (dst src count : ℕ) : Option (Fin n → α) :=
  if h : dst + count ≤ n ∧ src + count ≤ n then
    some fun i =>
      if hi : dst ≤ i ∧ i < dst + count then a ⟨src + (i - dst), by omega⟩ else a i
  else none

/-- `for (i = 0; i < n; i++)` -/
def forRange : ℕ → (ℕ → σ → Option σ) → σ → Option σ
  | 0, _, s => some s
  | n + 1, body, s => (forRange n body s).bind (body n)

theorem load_of_lt (a : Fin n → α) {i : ℕ} (h : i < n) : load a i = some (a ⟨i, h⟩) := dif_pos h

theorem store_of_lt (a : Fin n → α) {i : ℕ} (h : i < n) (x : α) :
    store a i x = some (Function.update a ⟨i, h⟩ x) := dif_pos h

theorem ofFn_update (a : Fin n → α) (i : Fin n) (x : α) :
    List.ofFn (Function.update a i x) = (List.ofFn a).set i x := by
  refine List.ext_getElem (by rw [List.length_set, List.length_ofFn, List.length_ofFn])
    fun j hj hj' => ?_
  rw [List.getElem_ofFn, List.getElem_set, List.getElem_ofFn]
  by_cases hij : (i : ℕ) = j
  · subst hij
    rw [if_pos rfl, Function.update_self]
  · rw [if_neg hij, Function.update_of_ne fun h => hij (congrArg Fin.val h).symm]

theorem store₂_of_lt (a : Fin m → Fin n → α) {i j : ℕ} (hi : i < m) (hj : j < n) (x : α) :
    store₂ a i j x =
      some (Function.update a ⟨i, hi⟩ (Function.update (a ⟨i, hi⟩) ⟨j, hj⟩ x)) := by
  rw [store₂, load_of_lt a hi, Option.bind_some, store_of_lt _ hj, Option.bind_some,
    store_of_lt a hi]

theorem memmove_isSome (a : Fin n → α) {dst src count : ℕ} (hdst : dst + count ≤ n)
    (hsrc : src + count ≤ n) : ∃ b, memmove a dst src count = some b :=
  ⟨_, dif_pos ⟨hdst, hsrc⟩⟩

theorem forRange_spec {body : ℕ → σ → Option σ} (I : ℕ → σ → Prop)
    (hbody : ∀ k < n, ∀ s, I k s → ∃ s', body k s = some s' ∧ I (k + 1) s') {s : σ} (hs : I 0 s) :
    ∃ s', forRange n body s = some s' ∧ I n s' := by
  induction n with
  | zero => exact ⟨s, rfl, hs⟩
  | succ n ih =>
    obtain ⟨t, ht, hIt⟩ := ih fun k hk => hbody k (Nat.lt_succ_of_lt hk)
    obtain ⟨s', hs', hIs'⟩ := hbody n (Nat.lt_succ_self n) t hIt
    refine ⟨s', ?_, hIs'⟩
    rw [forRange, ht]
    exact hs'

/-- A loop whose body never stops. -/
theorem forRange_isSome {body : ℕ → σ → Option σ}
    (hbody : ∀ k < n, ∀ s, ∃ s', body k s = some s') (s : σ) :
    ∃ s', forRange n body s = some s' := by
  obtain ⟨s', hs', -⟩ := forRange_spec (fun _ _ => True)
    (fun k hk s _ => (hbody k hk s).imp fun _ h => ⟨h, trivial⟩) trivial
  exact ⟨s', hs'⟩

/-- A loop whose states are known. -/
theorem forRange_eq {body : ℕ → σ → Option σ} (f : ℕ → σ)
    (hbody : ∀ k < n, body k (f k) = some (f (k + 1))) : forRange n body (f 0) = some (f n) := by
  obtain ⟨s', hs', rfl⟩ := forRange_spec (fun k s => s = f k)
    (fun k hk s hs => ⟨_, by rw [hs]; exact hbody k hk, rfl⟩) (s := f 0) rfl
  exact hs'

/-- A loop over the entries of a list. -/
theorem forRange_eq_foldl {β : Type*} {body : ℕ → σ → Option σ} {f : σ → β → σ} {xs : List β}
    (hbody : ∀ k (h : k < xs.length) s, body k s = some (f s xs[k])) (s : σ) :
    forRange xs.length body s = some (xs.foldl f s) := by
  have hstep : ∀ k < xs.length,
      body k ((xs.take k).foldl f s) = some ((xs.take (k + 1)).foldl f s) := by
    intro k hk
    rw [hbody k hk, List.take_add_one, List.getElem?_eq_getElem hk, List.foldl_append]
    rfl
  have hloop := forRange_eq (fun k => (xs.take k).foldl f s) hstep
  rwa [List.take_length] at hloop

/-- The array with its first `m` entries taken from another. -/
def filled (a b : Fin n → α) (m : ℕ) : Fin n → α := fun i => if i < m then b i else a i

theorem filled_zero (a b : Fin n → α) : filled a b 0 = a := by
  funext i
  exact if_neg (Nat.not_lt_zero _)

theorem filled_all (a b : Fin n → α) : filled a b n = b := by
  funext i
  exact if_pos i.isLt

theorem update_filled (a b : Fin n → α) (i : Fin n) :
    Function.update (filled a b i) i (b i) = filled a b (i + 1) := by
  funext j
  rw [filled]
  by_cases hj : j = i
  · rw [hj, Function.update_self, if_pos (Nat.lt_succ_self _)]
  · have hne : (j : ℕ) ≠ i := fun h => hj (Fin.ext h)
    rw [Function.update_of_ne hj, filled]
    exact if_congr (by omega) rfl rfl

theorem store_filled (a b : Fin n → α) {i : ℕ} (h : i < n) :
    store (filled a b i) i (b ⟨i, h⟩) = some (filled a b (i + 1)) := by
  rw [store_of_lt _ h]
  exact congrArg some (update_filled a b ⟨i, h⟩)

/-- The entries of a list are stored from index `k` on. -/
def storeFrom (a : Fin n → α) : ℕ → List α → Option (Fin n → α)
  | _, [] => some a
  | k, x :: xs => (store a k x).bind fun a => storeFrom a (k + 1) xs

theorem storeFrom_eq {a : Fin n → α} {k : ℕ} {xs : List α} (h : k + xs.length ≤ n) :
    storeFrom a k xs =
      some fun i : Fin n => if k ≤ i then (xs[(i : ℕ) - k]?).getD (a i) else a i := by
  induction xs generalizing a k with
  | nil => exact congrArg some (funext fun i => (ite_self (a i)).symm)
  | cons x xs ih =>
    rw [List.length_cons] at h
    rw [storeFrom, store_of_lt a (by omega), Option.bind_some, ih (by omega)]
    refine congrArg some (funext fun i => ?_)
    rcases Nat.lt_trichotomy (i : ℕ) k with hlt | heq | hgt
    · rw [if_neg (by omega), if_neg (by omega), Function.update_of_ne (Fin.ne_of_val_ne (by
        change (i : ℕ) ≠ k
        omega))]
    · subst heq
      rw [if_neg (by omega), if_pos (Nat.le_refl _), Function.update_self, Nat.sub_self]
      rfl
    · have hsub : (i : ℕ) - k = (i : ℕ) - (k + 1) + 1 := by omega
      rw [if_pos (by omega), if_pos (by omega), hsub, List.getElem?_cons_succ,
        Function.update_of_ne (Fin.ne_of_val_ne (by
          change (i : ℕ) ≠ k
          omega))]

theorem storeFrom_append (a : Fin n → α) (k : ℕ) (xs ys : List α) :
    storeFrom a k (xs ++ ys) =
      (storeFrom a k xs).bind fun b => storeFrom b (k + xs.length) ys := by
  induction xs generalizing a k with
  | nil => rfl
  | cons x xs ih =>
    rw [List.cons_append, storeFrom, storeFrom, Option.bind_assoc]
    refine Option.bind_congr fun b _ => ?_
    rw [ih, List.length_cons, show k + 1 + xs.length = k + (xs.length + 1) by omega]

theorem load_storeFrom {a b : Fin n → α} {xs : List α} (hfits : xs.length ≤ n)
    (h : storeFrom a 0 xs = some b) {i : ℕ} (hi : i < xs.length) : load b i = xs[i]? := by
  rw [storeFrom_eq (by omega), Option.some_inj] at h
  rw [← h, load_of_lt _ (by omega), if_pos (Nat.zero_le _), Nat.sub_zero,
    List.getElem?_eq_getElem hi]
  rfl

theorem storeFrom_eq_none {a : Fin n → α} {k : ℕ} {xs : List α} (hk : k ≤ n)
    (h : n < k + xs.length) : storeFrom a k xs = none := by
  induction xs generalizing a k with
  | nil => exact absurd h (Nat.not_lt.mpr hk)
  | cons x xs ih =>
    rw [List.length_cons] at h
    rw [storeFrom]
    by_cases hroom : k < n
    · rw [store_of_lt a hroom, Option.bind_some, ih hroom (by omega)]
    · rw [store, dif_neg hroom]
      rfl

/-! ### Strings -/

section

variable [DecidableEq α] {nul : α} {a : Fin n → α} {i : ℕ}

/-- `strlen`; no result when no terminator is in the array. -/
def strlen (nul : α) (a : Fin n → α) : Option ℕ :=
  (List.range n).find? fun i => load a i = some nul

theorem strlen_eq_some_iff :
    strlen nul a = some i ↔ (∃ h : i < n, a ⟨i, h⟩ = nul) ∧ ∀ j : Fin n, (j : ℕ) < i → a j ≠ nul := by
  rw [strlen, List.find?_range_eq_some]
  constructor
  · rintro ⟨hzero, hmem, hbefore⟩
    have hi := List.mem_range.mp hmem
    have hload := of_decide_eq_true hzero
    rw [load_of_lt a hi, Option.some_inj] at hload
    refine ⟨⟨hi, hload⟩, fun j hj hjzero => ?_⟩
    have hnot := hbefore j hj
    rw [load_of_lt a j.isLt, hjzero] at hnot
    simp at hnot
  · rintro ⟨⟨hi, hzero⟩, hbefore⟩
    refine ⟨decide_eq_true ?_, List.mem_range.mpr hi, fun j hj => ?_⟩
    · rw [load_of_lt a hi, hzero]
    · have hne := hbefore ⟨j, by omega⟩ hj
      rw [load_of_lt a (by omega)]
      simpa using hne

theorem strlen_lt (h : strlen nul a = some i) : i < n := (strlen_eq_some_iff.mp h).1.1

theorem strlen_isSome (j : Fin n) (h : a j = nul) : ∃ i, strlen nul a = some i := by
  refine Option.isSome_iff_exists.mp ?_
  rw [strlen, List.find?_isSome]
  exact ⟨j, List.mem_range.mpr j.isLt, decide_eq_true ((load_of_lt a j.isLt).trans (congrArg some h))⟩

/-- A character is put at the end. -/
theorem strlen_type {c : α} (h : strlen nul a = some i) (hc : c ≠ nul) (hroom : i + 1 < n) :
    strlen nul (Function.update (Function.update a ⟨i, by omega⟩ c) ⟨i + 1, hroom⟩ nul) =
      some (i + 1) := by
  obtain ⟨-, hbefore⟩ := strlen_eq_some_iff.mp h
  refine strlen_eq_some_iff.mpr ⟨⟨hroom, Function.update_self ..⟩, fun j hj => ?_⟩
  have hne : j ≠ ⟨i + 1, hroom⟩ := fun heq => absurd (congrArg Fin.val heq) (by
    change (j : ℕ) ≠ i + 1
    omega)
  rw [Function.update_of_ne hne]
  by_cases hlast : j = ⟨i, by omega⟩
  · rw [hlast, Function.update_self]
    exact hc
  · rw [Function.update_of_ne hlast]
    have hval : (j : ℕ) ≠ i := fun heq => hlast (Fin.ext heq)
    exact hbefore j (by omega)

/-- The last character is erased. -/
theorem strlen_erase (h : strlen nul a = some (i + 1)) (hi : i < n) :
    strlen nul (Function.update a ⟨i, hi⟩ nul) = some i := by
  obtain ⟨-, hbefore⟩ := strlen_eq_some_iff.mp h
  refine strlen_eq_some_iff.mpr ⟨⟨hi, Function.update_self ..⟩, fun j hj => ?_⟩
  have hne : j ≠ ⟨i, hi⟩ := fun heq => absurd (congrArg Fin.val heq) (Nat.ne_of_lt hj)
  rw [Function.update_of_ne hne]
  exact hbefore j (by omega)

end

end CheckedArray
