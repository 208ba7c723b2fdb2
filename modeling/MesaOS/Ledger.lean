/-
A ledger of things that are handed out and given back.

The events are kept newest first, and `outstanding` replays them: what has been
taken and not been given back, with its multiplicity.  If nothing was ever
outstanding twice, then nothing was taken a second time before it was given back
(`returned_of_taken_again`).
-/
import Mathlib.Data.List.Nodup
import Mathlib.Tactic.Common

namespace Ledger

inductive Event (α : Type*) where
  | taken (a : α)
  | returned (a : α)

variable {α : Type*} [DecidableEq α]

/-- What is out after the events. -/
def outstanding : List (Event α) → List α
  | [] => []
  | .taken a :: events => a :: outstanding events
  | .returned a :: events => (outstanding events).erase a

/-- Nothing was outstanding twice at any time. -/
def NeverTwice (events : List (Event α)) : Prop :=
  ∀ past, past <:+ events → (outstanding past).Nodup

theorem neverTwice_taken {events : List (Event α)} {a : α} (h : NeverTwice events)
    (ha : a ∉ outstanding events) : NeverTwice (.taken a :: events) := by
  intro past hpast
  rcases List.suffix_cons_iff.mp hpast with rfl | hpast
  · exact List.nodup_cons.mpr ⟨ha, h events (List.suffix_refl events)⟩
  · exact h past hpast

theorem neverTwice_returned {events : List (Event α)} (h : NeverTwice events) (a : α) :
    NeverTwice (.returned a :: events) := by
  intro past hpast
  rcases List.suffix_cons_iff.mp hpast with rfl | hpast
  · exact (h events (List.suffix_refl events)).erase a
  · exact h past hpast

/-- What is out stays out until it is given back. -/
theorem mem_outstanding_append {a : α} {older : List (Event α)} (ha : a ∈ outstanding older) :
    ∀ newer : List (Event α), Event.returned a ∉ newer → a ∈ outstanding (newer ++ older) := by
  intro newer
  induction newer with
  | nil => exact fun _ => ha
  | cons e newer ih =>
    intro hnot
    rw [List.mem_cons, not_or] at hnot
    have hin := ih hnot.2
    cases e with
    | taken b => exact List.mem_cons_of_mem b hin
    | returned b =>
      refine (List.mem_erase_of_ne ?_).mpr hin
      rintro rfl
      exact hnot.1 rfl

/-- **Taken again, so given back in between.** -/
theorem returned_of_taken_again {a : α} {events newer between older : List (Event α)}
    (h : NeverTwice events)
    (hevents : events = newer ++ .taken a :: (between ++ .taken a :: older)) :
    Event.returned a ∈ between := by
  by_contra hnot
  have hin : a ∈ outstanding (between ++ .taken a :: older) :=
    mem_outstanding_append List.mem_cons_self between hnot
  have hnodup := h (.taken a :: (between ++ .taken a :: older)) ⟨newer, hevents.symm⟩
  exact (List.nodup_cons.mp hnodup).1 hin

end Ledger
