/-
Stores to a memory, one after the other, as a list of places and values.

The list says both what the memory holds afterwards (`apply`) and which places were written,
inside an array or not.
-/
import Mathlib.Logic.Function.Basic
import Mathlib.Tactic.Common

namespace StoreLog

variable {α : Type*}

/-- The memory after the stores. -/
def apply (m : ℕ → α) (stores : List (ℕ × α)) : ℕ → α :=
  stores.foldl (fun m s => Function.update m s.1 s.2) m

/-- The values stored one behind the other from a place on. -/
def copy (a : ℕ) : List α → List (ℕ × α)
  | [] => []
  | x :: l => (a, x) :: copy (a + 1) l

/-- The places that are written. -/
def places (stores : List (ℕ × α)) : List ℕ := stores.map Prod.fst

variable {m : ℕ → α} {stores : List (ℕ × α)} {a k : ℕ} {l : List α}

theorem apply_append (m : ℕ → α) (stores stores' : List (ℕ × α)) :
    apply m (stores ++ stores') = apply (apply m stores) stores' := List.foldl_append

theorem places_append (stores stores' : List (ℕ × α)) :
    places (stores ++ stores') = places stores ++ places stores' := List.map_append

theorem places_copy (a : ℕ) (l : List α) : places (copy a l) = List.range' a l.length := by
  induction l generalizing a with
  | nil => rfl
  | cons x l ih => rw [copy, places, List.map_cons, ← places, ih, List.length_cons, List.range'_succ]

/-- A copy right behind a copy. -/
theorem copy_append (a : ℕ) (l l' : List α) :
    copy a (l ++ l') = copy a l ++ copy (a + l.length) l' := by
  induction l generalizing a with
  | nil => rfl
  | cons x l ih =>
    rw [List.cons_append, copy, ih, copy, List.length_cons, List.cons_append,
      show a + (l.length + 1) = a + 1 + l.length by omega]

/-- A place that is not written. -/
theorem apply_of_notMem (h : k ∉ places stores) : apply m stores k = m k := by
  induction stores generalizing m with
  | nil => rfl
  | cons s stores ih =>
    rw [places, List.map_cons, List.mem_cons, not_or, ← places] at h
    rw [apply, List.foldl_cons, ← apply, ih h.2, Function.update_of_ne h.1]

/-- A place that is written once. -/
theorem apply_of_mem {x : α} (hnodup : (places stores).Nodup) (h : (k, x) ∈ stores) :
    apply m stores k = x := by
  obtain ⟨before, after, rfl⟩ := List.append_of_mem h
  rw [places_append, List.nodup_append] at hnodup
  have hafter : k ∉ places after := (List.nodup_cons.mp hnodup.2.1).1
  have hcons : apply (apply m before) ((k, x) :: after) =
      apply (Function.update (apply m before) k x) after := rfl
  rw [apply_append, hcons, apply_of_notMem hafter, Function.update_self]

theorem apply_copy_outside (h : k < a ∨ a + l.length ≤ k) : apply m (copy a l) k = m k := by
  refine apply_of_notMem fun hk => ?_
  rw [places_copy, List.mem_range'_1] at hk
  omega

/-- A store to a place that is not written again. -/
theorem apply_update (h : k ∉ places stores) (x : α) :
    apply (Function.update m k x) stores = Function.update (apply m stores) k x := by
  induction stores generalizing m with
  | nil => rfl
  | cons s stores ih =>
    rw [places, List.map_cons, List.mem_cons, not_or, ← places] at h
    rw [apply, List.foldl_cons, ← apply, Function.update_comm h.1, ih h.2]
    rfl

/-- The first and the last of the values that are copied. -/
theorem apply_copy_ends (m : ℕ → α) (a : ℕ) (x y : α) (l : List α) :
    apply m (copy a (x :: (l ++ [y]))) =
      apply (Function.update (Function.update m a x) (a + 1 + l.length) y) (copy (a + 1) l) := by
  have hlast : a + 1 + l.length ∉ places (copy (a + 1) l) := by
    rw [places_copy, List.mem_range'_1]
    omega
  rw [apply_update hlast, copy, copy_append, apply, List.foldl_cons, List.foldl_append]
  rfl

/-- What has been copied. -/
theorem apply_copy (h : k < l.length) : apply m (copy a l) (a + k) = l[k] := by
  induction l generalizing m a k with
  | nil => exact absurd h (Nat.not_lt_zero k)
  | cons x l ih =>
    rw [copy, apply, List.foldl_cons, ← apply]
    cases k with
    | zero =>
      change apply (Function.update m a x) (copy (a + 1) l) a = x
      rw [apply_copy_outside (.inl (show a < a + 1 by omega)), Function.update_self]
    | succ k =>
      rw [List.length_cons] at h
      rw [show a + (k + 1) = a + 1 + k by omega, ih (by omega), List.getElem_cons_succ]

/-- The first `n` values after a copy that lies among them. -/
theorem map_range_apply_copy {n : ℕ} (m : ℕ → α) (h : a + l.length ≤ n) :
    (List.range n).map (apply m (copy a l)) =
      ((List.range n).map m).take a ++ (l ++ ((List.range n).map m).drop (a + l.length)) := by
  refine List.ext_getElem (by simp; omega) fun i hi hi' => ?_
  rw [List.length_map, List.length_range] at hi
  have hfront : (((List.range n).map m).take a).length = a := by simp; omega
  rw [List.getElem_map, List.getElem_range]
  by_cases hbefore : i < a
  · rw [apply_copy_outside (.inl hbefore), List.getElem_append_left (by omega)]
    simp
  rw [List.getElem_append_right (by omega)]
  by_cases hinside : i < a + l.length
  · have hcopy := apply_copy (m := m) (a := a) (l := l) (k := i - a) (by omega)
    rw [show a + (i - a) = i by omega] at hcopy
    rw [List.getElem_append_left (by omega), hcopy]
    simp only [hfront]
  · rw [apply_copy_outside (.inr (by omega)), List.getElem_append_right (by omega)]
    simp only [hfront, List.getElem_drop, List.getElem_map, List.getElem_range]
    congr 1
    omega

/-- Reading back all that has been copied to the front. -/
theorem map_range_apply_copy_zero (m : ℕ → α) (l : List α) :
    (List.range l.length).map (apply m (copy 0 l)) = l := by
  rw [map_range_apply_copy m (Nat.le_of_eq (Nat.zero_add _)), Nat.zero_add, List.take_zero,
    List.drop_eq_nil_of_le (by simp), List.append_nil, List.nil_append]

end StoreLog
