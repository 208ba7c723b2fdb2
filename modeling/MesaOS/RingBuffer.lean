/-
Queues in an array whose indices wrap around.

`contents cap buf start count` is the queue of `count` elements from index `start`
on.  Writing a list behind the end appends it (`contents_store`), and moving the
start forward drops a prefix (`contents_drop`).  Indices in a window as long as the array are
different slots (`update_mod_of_ne`).
-/
import Mathlib.Data.List.Infix
import Mathlib.Data.Nat.ModEq
import MesaOS.MachineWord

namespace RingBuffer

variable {α : Type*}

/-- The queued elements, in order. -/
def contents (cap : ℕ) (buf : ℕ → α) (start count : ℕ) : List α :=
  (List.range count).map fun k => buf ((start + k) % cap)

@[simp] theorem length_contents (cap : ℕ) (buf : ℕ → α) (start count : ℕ) :
    (contents cap buf start count).length = count := by
  rw [contents, List.length_map, List.length_range]

/-- `xs` written from index `e` on, wrapping around. -/
def store (cap : ℕ) (buf : ℕ → α) (e : ℕ) (xs : List α) : ℕ → α :=
  match xs with
  | [] => buf
  | x :: xs => store cap (Function.update buf e x) ((e + 1) % cap) xs

/-- The next element makes a longer prefix. -/
theorem prefix_concat_getElem {l l' : List α} {a : α} (h : l <+: l')
    (ha : l'[l.length]? = some a) : l ++ [a] <+: l' := by
  obtain ⟨hlt, rfl⟩ := List.getElem?_eq_some_iff.mp ha
  exact List.concat_get_prefix h hlt

/-- Two indices that are fewer than `cap` apart are different slots. -/
theorem update_mod_of_ne {cap : ℕ} (buf : ℕ → α) (x : α) {low i j : ℕ} (hi : low ≤ i)
    (hj : low ≤ j) (hi' : i < low + cap) (hj' : j < low + cap) (hne : j ≠ i) :
    Function.update buf (i % cap) x (j % cap) = buf (j % cap) := by
  refine Function.update_of_ne (fun heq => hne ?_) ..
  obtain ⟨a, rfl⟩ := Nat.exists_eq_add_of_le hi
  obtain ⟨b, rfl⟩ := Nat.exists_eq_add_of_le hj
  have hmod := Nat.ModEq.add_left_cancel' low heq
  rw [Nat.ModEq, Nat.mod_eq_of_lt (by omega), Nat.mod_eq_of_lt (by omega)] at hmod
  rw [hmod]

theorem contents_push {cap : ℕ} (buf : ℕ → α) (start : ℕ) {count : ℕ} (x : α)
    (h : count < cap) :
    contents cap (Function.update buf ((start + count) % cap) x) start (count + 1) =
      contents cap buf start count ++ [x] := by
  rw [contents, List.range_succ, List.map_append, List.map_singleton, Function.update_self]
  refine congrArg (· ++ [x]) (List.map_congr_left fun k hk => ?_)
  have hk' := List.mem_range.mp hk
  exact update_mod_of_ne buf x (Nat.le_add_right start count) (Nat.le_add_right start k)
    (by omega) (by omega) (by omega)

/-- **Storing appends.** -/
theorem contents_store {cap : ℕ} (buf : ℕ → α) (start count : ℕ) (xs : List α)
    (h : count + xs.length ≤ cap) :
    contents cap (store cap buf ((start + count) % cap) xs) start (count + xs.length) =
      contents cap buf start count ++ xs := by
  induction xs generalizing buf count with
  | nil => rw [store, List.length_nil, Nat.add_zero, List.append_nil]
  | cons x xs ih =>
    rw [List.length_cons] at h
    have hnext : ((start + count) % cap + 1) % cap = (start + (count + 1)) % cap := by
      rw [Nat.mod_add_mod, Nat.add_assoc]
    rw [store, hnext, List.length_cons, show count + (xs.length + 1) = count + 1 + xs.length by omega,
      ih _ _ (by omega), contents_push _ _ _ (by omega), List.append_assoc]
    rfl

/-- The first `n` elements, read one after the other. -/
theorem take_contents (cap : ℕ) (buf : ℕ → α) (start : ℕ) {count n : ℕ} (h : n ≤ count) :
    (contents cap buf start count).take n = contents cap buf start n := by
  rw [contents, contents, ← List.map_take, List.take_range, Nat.min_eq_left h]

/-- **Moving the start drops.** -/
theorem contents_drop (cap : ℕ) (buf : ℕ → α) (start count n : ℕ) :
    contents cap buf ((start + n) % cap) (count - n) = (contents cap buf start count).drop n := by
  rw [contents, contents, ← List.map_drop]
  apply List.ext_getElem
  · simp
  · intro i h₁ h₂
    simp only [List.getElem_map, List.getElem_range, List.getElem_drop]
    rw [Nat.mod_add_mod, Nat.add_assoc]

/-- Queued and unqueued elements together. -/
theorem take_append_drop_contents (cap : ℕ) (buf : ℕ → α) (start : ℕ) {count n : ℕ}
    (h : n ≤ count) :
    contents cap buf start n ++ contents cap buf ((start + n) % cap) (count - n) =
      contents cap buf start count := by
  rw [contents_drop, ← take_contents _ _ _ h, List.take_append_drop]

end RingBuffer
