/-
Tables of keys and values with room for `n` entries, filled from a history of calls.

A key that is there gets a new value, a new key is added as long as there is room, and nothing
is ever taken out.

* `keys_ofHistory` — the keys are the first `n` different ones of the history;
* `mem_ofHistory` — the value of each is that of the last call with the key.
-/
import Mathlib.Data.List.Induction
import Mathlib.Data.List.Nodup
import Mathlib.Tactic.Common

namespace BoundedTable

variable {α β : Type*} [DecidableEq α] {n : ℕ}

/-- One call. -/
def put (n : ℕ) (t : List (α × β)) (e : α × β) : List (α × β) :=
  match t.findIdx? (fun x => x.1 = e.1) with
  | some i => t.set i e
  | none => if t.length < n then t ++ [e] else t

/-- The calls one after the other, from the empty table on. -/
def ofHistory (n : ℕ) (es : List (α × β)) : List (α × β) := es.foldl (put n) []

/-- The value of the last call with a key. -/
def last (es : List (α × β)) (a : α) : Option β := es.reverse.lookup a

theorem ofHistory_append (n : ℕ) (es : List (α × β)) (e : α × β) :
    ofHistory n (es ++ [e]) = put n (ofHistory n es) e := List.foldl_concat ..

theorem last_append (es : List (α × β)) (e : α × β) (a : α) :
    last (es ++ [e]) a = if a = e.1 then some e.2 else last es a := by
  rw [last, List.reverse_append, List.reverse_singleton, List.singleton_append, List.lookup_cons]
  by_cases h : a = e.1
  · rw [if_pos h, h, beq_self_eq_true]
  · rw [if_neg h, beq_false_of_ne h]
    rfl

/-! ### The keys -/

theorem eraseDups_concat (l : List α) (a : α) :
    (l ++ [a]).eraseDups = if a ∈ l then l.eraseDups else l.eraseDups ++ [a] := by
  rw [List.eraseDups_append]
  by_cases h : a ∈ l
  · rw [if_pos h, show [a].removeAll l = [] by simp [List.removeAll, h]]
    simp
  · rw [if_neg h, show [a].removeAll l = [a] by simp [List.removeAll, h]]
    simp [List.eraseDups_cons]

theorem nodup_eraseDups (l : List α) : l.eraseDups.Nodup := by
  induction l using List.reverseRecOn with
  | nil => exact List.nodup_nil
  | append_singleton l a ih =>
    rw [eraseDups_concat]
    by_cases h : a ∈ l
    · rw [if_pos h]
      exact ih
    · rw [if_neg h, ← List.concat_eq_append]
      exact ih.concat fun hmem => h (List.mem_eraseDups.mp hmem)

theorem keys_put (t : List (α × β)) (e : α × β) :
    (put n t e).map Prod.fst =
      if e.1 ∈ t.map Prod.fst ∨ n ≤ t.length then t.map Prod.fst else t.map Prod.fst ++ [e.1] := by
  rw [put]
  cases hfind : t.findIdx? (fun x => x.1 = e.1) with
  | some i =>
    obtain ⟨hi, hkey, -⟩ := List.findIdx?_eq_some_iff_getElem.mp hfind
    have hkey : t[i].1 = e.1 := of_decide_eq_true hkey
    have hmem : e.1 ∈ t.map Prod.fst := List.mem_map.mpr ⟨t[i], List.getElem_mem hi, hkey⟩
    have hset : (t.map Prod.fst).set i e.1 = t.map Prod.fst := by
      refine List.ext_getElem (List.length_set ..) fun j hj hj' => ?_
      rw [List.getElem_set]
      split
      next hij => simp only [← hij, List.getElem_map, hkey]
      next => rfl
    dsimp only
    rw [List.map_set, hset, if_pos (.inl hmem)]
  | none =>
    have hnot : e.1 ∉ t.map Prod.fst := by
      intro hmem
      obtain ⟨x, hx, hkey⟩ := List.mem_map.mp hmem
      have hno := List.findIdx?_eq_none_iff.mp hfind x hx
      exact absurd hkey (of_decide_eq_false hno)
    dsimp only
    by_cases hroom : t.length < n
    · have hkeys : ¬ (e.1 ∈ t.map Prod.fst ∨ n ≤ t.length) := fun h =>
        h.elim hnot (Nat.not_le_of_lt hroom)
      rw [if_pos hroom, if_neg hkeys, List.map_append]
      rfl
    · rw [if_neg hroom, if_pos (.inr (by omega))]

/-- **The keys** are the first ones of the history, each once. -/
theorem keys_ofHistory (n : ℕ) (es : List (α × β)) :
    (ofHistory n es).map Prod.fst = ((es.map Prod.fst).eraseDups).take n := by
  induction es using List.reverseRecOn with
  | nil => simp [ofHistory]
  | append_singleton es e ih =>
    have hlength : (ofHistory n es).length = min n (es.map Prod.fst).eraseDups.length := by
      rw [← List.length_map (f := Prod.fst), ih, List.length_take]
    rw [ofHistory_append, keys_put, ih, hlength, List.map_append, List.map_singleton,
      eraseDups_concat]
    by_cases hseen : e.1 ∈ es.map Prod.fst
    · rw [if_pos hseen]
      split
      next => rfl
      next h =>
        -- it is among the first keys, as there are fewer than `n`
        rw [not_or] at h
        have hall := List.take_of_length_le (l := (es.map Prod.fst).eraseDups) (i := n) (by omega)
        rw [hall] at h
        exact absurd (List.mem_eraseDups.mpr hseen) h.1
    · rw [if_neg hseen]
      split
      next h =>
        have hfull : n ≤ (es.map Prod.fst).eraseDups.length := by
          rcases h with h | h
          · exact absurd (List.mem_eraseDups.mp (List.mem_of_mem_take h)) hseen
          · omega
        rw [List.take_append_of_le_length hfull]
      next h =>
        rw [not_or] at h
        rw [List.take_of_length_le (by omega), List.take_of_length_le]
        rw [List.length_append, List.length_singleton]
        omega

theorem nodup_ofHistory (n : ℕ) (es : List (α × β)) : ((ofHistory n es).map Prod.fst).Nodup := by
  rw [keys_ofHistory]
  exact (nodup_eraseDups _).sublist (List.take_sublist ..)

/-! ### The values -/

/-- An entry of the table is the one that is put, or an old one with another key. -/
theorem mem_put {t : List (α × β)} {e x : α × β} (ht : (t.map Prod.fst).Nodup)
    (hx : x ∈ put n t e) : x = e ∨ x ∈ t ∧ x.1 ≠ e.1 := by
  rw [put] at hx
  split at hx
  next i hfind =>
    obtain ⟨hi, hkey, -⟩ := List.findIdx?_eq_some_iff_getElem.mp hfind
    have hkey : t[i].1 = e.1 := of_decide_eq_true hkey
    obtain ⟨j, hj, rfl⟩ := List.getElem_of_mem hx
    rw [List.length_set] at hj
    by_cases hij : i = j
    · subst hij
      exact .inl (List.getElem_set_self _)
    · rw [List.getElem_set_ne hij]
      refine .inr ⟨List.getElem_mem hj, fun heq => hij ?_⟩
      have hi' : i < (t.map Prod.fst).length := by rwa [List.length_map]
      have hj' : j < (t.map Prod.fst).length := by rwa [List.length_map]
      have hsame : (t.map Prod.fst)[i] = (t.map Prod.fst)[j] := by
        rw [List.getElem_map, List.getElem_map]
        exact hkey.trans heq.symm
      exact ht.getElem_inj_iff.mp hsame
  next hfind =>
    have hother : ∀ y ∈ t, y.1 ≠ e.1 := fun y hy =>
      of_decide_eq_false (List.findIdx?_eq_none_iff.mp hfind y hy)
    split at hx
    · rcases List.mem_append.mp hx with hx | hx
      · exact .inr ⟨hx, hother x hx⟩
      · exact .inl (List.mem_singleton.mp hx)
    · exact .inr ⟨hx, hother x hx⟩

/-- **The value** of a key is that of the last call. -/
theorem mem_ofHistory {es : List (α × β)} {x : α × β} (hx : x ∈ ofHistory n es) :
    last es x.1 = some x.2 := by
  induction es using List.reverseRecOn with
  | nil => exact absurd hx List.not_mem_nil
  | append_singleton es e ih =>
    rw [ofHistory_append] at hx
    rw [last_append]
    rcases mem_put (nodup_ofHistory n es) hx with rfl | ⟨hold, hkey⟩
    · rw [if_pos rfl]
    · rw [if_neg hkey]
      exact ih hold

end BoundedTable
