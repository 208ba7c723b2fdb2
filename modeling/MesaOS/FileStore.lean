/-
Files as lists of bytes.

The contents of a file is a list; `overwrite z l off bs` puts `bs` at offset
`off`, filling a gap with `z`, and `read l off n` gives what is there of `n`
elements from `off` on.  `getD_overwrite`, `length_overwrite` and `read_eq_map`
describe both element by element, which is how an implementation over a buffer
sees them.
-/
import Mathlib.Data.List.GetD
import Mathlib.Tactic.Common

namespace FileStore

variable {α : Type*}

/-- What a read of `n` elements at `off` returns. -/
def read (l : List α) (off n : ℕ) : List α := (l.drop off).take n

/-- The contents after writing `bs` at `off`. -/
def overwrite (z : α) (l : List α) (off : ℕ) (bs : List α) : List α :=
  (List.range (max l.length (off + bs.length))).map fun k =>
    if off ≤ k ∧ k < off + bs.length then bs.getD (k - off) z else l.getD k z

@[simp] theorem length_overwrite (z : α) (l : List α) (off : ℕ) (bs : List α) :
    (overwrite z l off bs).length = max l.length (off + bs.length) := by
  rw [overwrite, List.length_map, List.length_range]

theorem getD_overwrite (z : α) (l : List α) (off : ℕ) (bs : List α) (k : ℕ) :
    (overwrite z l off bs).getD k z =
      if off ≤ k ∧ k < off + bs.length then bs.getD (k - off) z else l.getD k z := by
  rw [overwrite, List.getD_eq_getElem?_getD, List.getElem?_map]
  by_cases hk : k < max l.length (off + bs.length)
  · rw [List.getElem?_range hk]
    rfl
  · rw [List.getElem?_eq_none (by simpa using hk), if_neg (by omega), List.getD_eq_getElem?_getD,
      List.getElem?_eq_none (by omega)]
    rfl

/-- Contents are equal that have the same length and elements. -/
theorem ext_getD (z : α) {l m : List α} (hlen : l.length = m.length)
    (h : ∀ k < l.length, l.getD k z = m.getD k z) : l = m := by
  refine List.ext_getElem hlen fun k hl hm => ?_
  have hk := h k hl
  rwa [List.getD_eq_getElem _ _ hl, List.getD_eq_getElem _ _ hm] at hk

/-- Writing at the end is appending. -/
theorem overwrite_end (z : α) (l bs : List α) : overwrite z l l.length bs = l ++ bs := by
  refine ext_getD z ?_ fun k hk => ?_
  · rw [length_overwrite, List.length_append]
    omega
  · rw [length_overwrite] at hk
    rw [getD_overwrite]
    rcases Nat.lt_or_ge k l.length with hlt | hge
    · rw [if_neg (by omega), List.getD_append _ _ _ _ hlt]
    · rw [if_pos (by omega), List.getD_append_right _ _ _ _ hge]

/-- Writing at the start keeps the elements behind. -/
theorem overwrite_start (z : α) (l bs : List α) :
    overwrite z l 0 bs = bs ++ l.drop bs.length := by
  refine ext_getD z ?_ fun k hk => ?_
  · rw [length_overwrite, List.length_append, List.length_drop]
    omega
  · rw [getD_overwrite]
    rcases Nat.lt_or_ge k bs.length with hlt | hge
    · rw [if_pos (by omega), Nat.sub_zero, List.getD_append _ _ _ _ hlt]
    · rw [if_neg (by omega), List.getD_append_right _ _ _ _ hge, List.getD_eq_getElem?_getD,
        List.getD_eq_getElem?_getD, List.getElem?_drop, Nat.add_sub_cancel' hge]

theorem read_eq_map (z : α) (l : List α) (off n : ℕ) :
    read l off n = (List.range (min n (l.length - off))).map fun k => l.getD (off + k) z := by
  apply List.ext_getElem?
  intro k
  rw [List.getElem?_map, read, List.getElem?_take, List.getElem?_drop]
  by_cases hk : k < min n (l.length - off)
  · rw [List.getElem?_range hk, if_pos (by omega), List.getElem?_eq_getElem (by omega)]
    simp [List.getD_eq_getElem?_getD, show off + k < l.length by omega]
  · have hlength : (List.range (min n (l.length - off))).length ≤ k := by
      rw [List.length_range]
      exact Nat.le_of_not_lt hk
    rw [List.getElem?_eq_none hlength]
    by_cases hn : k < n
    · rw [if_pos hn, List.getElem?_eq_none (by omega)]
      rfl
    · rw [if_neg hn]
      rfl

end FileStore
