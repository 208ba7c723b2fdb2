/-
A buffer that takes whole chunks.

A chunk that does not fit behind what the buffer holds is dropped, and a later, shorter one may
fit again.  `gapless_iff` says for which chunks the buffer never has such a hole.
-/
import Mathlib.Data.List.Infix
import Mathlib.Tactic.Common

namespace ChunkBuffer

variable {α : Type*} {capacity : ℕ}

/-- What the buffer holds behind the chunks: those that fit, one after the other. -/
def fill (capacity : ℕ) : List α → List (List α) → List α
  | kept, [] => kept
  | kept, chunk :: chunks =>
    fill capacity (if kept.length + chunk.length < capacity then kept ++ chunk else kept) chunks

theorem fill_append (kept : List α) (before after : List (List α)) :
    fill capacity kept (before ++ after) = fill capacity (fill capacity kept before) after := by
  induction before generalizing kept with
  | nil => rfl
  | cons chunk before ih =>
    rw [List.cons_append, fill, fill]
    exact ih _

/-- Chunks that fit together are all held. -/
theorem fill_room {kept : List α} {chunks : List (List α)}
    (h : kept.length + chunks.flatten.length < capacity) :
    fill capacity kept chunks = kept ++ chunks.flatten := by
  induction chunks generalizing kept with
  | nil => exact (List.append_nil kept).symm
  | cons chunk chunks ih =>
    rw [List.flatten_cons, List.length_append] at h
    rw [fill, if_pos (by omega), ih (by rw [List.length_append]; omega), List.flatten_cons,
      List.append_assoc]

/-- Nothing is added by chunks that are empty or too long. -/
theorem fill_full {kept : List α} {chunks : List (List α)}
    (h : ∀ chunk ∈ chunks, chunk = [] ∨ capacity ≤ kept.length + chunk.length) :
    fill capacity kept chunks = kept := by
  induction chunks with
  | nil => rfl
  | cons chunk chunks ih =>
    have hhead : (if kept.length + chunk.length < capacity then kept ++ chunk else kept) = kept := by
      rcases h chunk (List.mem_cons_self ..) with rfl | hlong
      · rw [List.append_nil, ite_self]
      · exact if_neg (Nat.not_lt.mpr hlong)
    rw [fill, hhead]
    exact ih fun c hc => h c (List.mem_cons_of_mem chunk hc)

theorem length_fill_lt {kept : List α} (chunks : List (List α)) (h : kept.length < capacity) :
    (fill capacity kept chunks).length < capacity := by
  induction chunks generalizing kept with
  | nil => exact h
  | cons chunk chunks ih =>
    rw [fill]
    by_cases hfits : kept.length + chunk.length < capacity
    · rw [if_pos hfits]
      exact ih (by rwa [List.length_append])
    · rw [if_neg hfits]
      exact ih h

theorem mem_fill {kept : List α} {chunks : List (List α)} {x : α}
    (h : x ∈ fill capacity kept chunks) : x ∈ kept ∨ x ∈ chunks.flatten := by
  induction chunks generalizing kept with
  | nil => exact Or.inl h
  | cons chunk chunks ih =>
    rw [fill] at h
    rw [List.flatten_cons, List.mem_append]
    rcases ih h with hkept | hlater
    · by_cases hfits : kept.length + chunk.length < capacity
      · rw [if_pos hfits, List.mem_append] at hkept
        exact hkept.imp_right Or.inl
      · rw [if_neg hfits] at hkept
        exact Or.inl hkept
    · exact Or.inr (Or.inr hlater)

/-- Among chunks that do not fit together there is a first that does not fit. -/
theorem exists_first_overflow (hcapacity : 0 < capacity) {chunks : List (List α)}
    (h : capacity ≤ chunks.flatten.length) :
    ∃ before chunk after, chunks = before ++ chunk :: after ∧ before.flatten.length < capacity ∧
      capacity ≤ (before ++ [chunk]).flatten.length := by
  induction chunks using List.reverseRecOn with
  | nil => exact absurd h (Nat.not_le.mpr hcapacity)
  | append_singleton chunks last ih =>
    by_cases hfits : chunks.flatten.length < capacity
    · exact ⟨chunks, last, [], rfl, hfits, h⟩
    · obtain ⟨before, chunk, after, rfl, hbefore, hover⟩ := ih (Nat.le_of_not_lt hfits)
      exact ⟨before, chunk, after ++ [last], by simp, hbefore, hover⟩

/-- At every time the buffer holds a prefix of what was sent, and nothing is added behind a
chunk that did not fit. -/
def Gapless (capacity : ℕ) (chunks : List (List α)) : Prop :=
  ∀ sent, sent <+: chunks → fill capacity [] sent <+: sent.flatten ∧
    ∀ before chunk after, sent = before ++ chunk :: after →
      capacity ≤ (fill capacity [] before).length + chunk.length →
      fill capacity [] sent = fill capacity [] before

/-- All chunks behind the first that does not fit are empty or do not fit either. -/
def StaysFull (capacity : ℕ) (chunks : List (List α)) : Prop :=
  ∀ before chunk after, chunks = before ++ chunk :: after → before.flatten.length < capacity →
    capacity ≤ (before ++ [chunk]).flatten.length →
    ∀ later ∈ after, later = [] ∨ capacity ≤ before.flatten.length + later.length

theorem fill_before {before : List (List α)} (h : before.flatten.length < capacity) :
    fill capacity [] before = before.flatten :=
  fill_room (by rw [List.length_nil, Nat.zero_add]; exact h)

theorem staysFull_of_gapless {chunks : List (List α)} (h : Gapless capacity chunks) :
    StaysFull capacity chunks := by
  rintro before chunk after rfl hbefore hover later hlater
  obtain ⟨between, rest, rfl⟩ := List.append_of_mem hlater
  rw [List.flatten_append, List.flatten_singleton, List.length_append] at hover
  have hheld := fill_before hbefore
  have hover' : capacity ≤ (fill capacity [] before).length + chunk.length := by
    rw [hheld]
    exact hover
  -- the buffer in front of the later chunk and behind it
  have hfront : fill capacity [] (before ++ chunk :: between) = before.flatten :=
    ((h (before ++ chunk :: between) ⟨later :: rest, by simp⟩).2 _ _ _ rfl hover').trans hheld
  have hbehind : fill capacity [] (before ++ chunk :: (between ++ [later])) = before.flatten :=
    ((h (before ++ chunk :: (between ++ [later])) ⟨rest, by simp⟩).2 _ _ _ rfl hover').trans hheld
  rw [← List.cons_append, ← List.append_assoc, fill_append, hfront, fill, fill] at hbehind
  by_cases hfits : before.flatten.length + later.length < capacity
  · rw [if_pos hfits] at hbehind
    exact Or.inl (List.append_right_eq_self.mp hbehind)
  · exact Or.inr (Nat.le_of_not_lt hfits)

theorem gapless_of_staysFull (hcapacity : 0 < capacity) {chunks : List (List α)}
    (h : StaysFull capacity chunks) : Gapless capacity chunks := by
  rintro sent ⟨rest, rfl⟩
  by_cases hroom : sent.flatten.length < capacity
  · refine ⟨by rw [fill_before hroom], ?_⟩
    rintro before chunk after rfl hover
    rw [List.flatten_append, List.flatten_cons, List.length_append, List.length_append] at hroom
    rw [fill_before (by omega)] at hover
    omega
  · obtain ⟨held, first, later, rfl, hheld, hover⟩ :=
      exists_first_overflow hcapacity (Nat.le_of_not_lt hroom)
    have hlater := h held first (later ++ rest) (by simp) hheld hover
    rw [List.flatten_append, List.flatten_singleton, List.length_append] at hover
    have hfull : ∀ tail, tail <+: first :: later →
        fill capacity [] (held ++ tail) = held.flatten := by
      intro tail htail
      rw [fill_append, fill_before hheld]
      refine fill_full fun chunk hchunk => ?_
      rcases List.mem_cons.mp (htail.subset hchunk) with rfl | hmem
      · exact Or.inr hover
      · exact hlater chunk (List.mem_append_left rest hmem)
    rw [hfull _ (List.prefix_refl _)]
    refine ⟨⟨(first :: later).flatten, by rw [List.flatten_append]⟩, ?_⟩
    intro before chunk after hsent hfit
    rcases List.append_eq_append_iff.mp hsent with ⟨tail, rfl, htail⟩ | ⟨tail, rfl, htail⟩
    · exact (hfull tail ⟨chunk :: after, htail.symm⟩).symm
    · -- a chunk in front of the first that does not fit does fit
      rcases List.cons_eq_append_iff.mp htail with ⟨rfl, -⟩ | ⟨tail, rfl, -⟩
      · rw [List.append_nil]
        exact (fill_before (by rwa [List.append_nil] at hheld)).symm
      · rw [List.flatten_append, List.flatten_cons, List.length_append, List.length_append] at hheld
        rw [fill_before (by omega)] at hfit
        omega

theorem gapless_iff (hcapacity : 0 < capacity) {chunks : List (List α)} :
    Gapless capacity chunks ↔ StaysFull capacity chunks :=
  ⟨staysFull_of_gapless, gapless_of_staysFull hcapacity⟩

end ChunkBuffer
