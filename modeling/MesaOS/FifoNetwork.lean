/-
Two parties joined by a network that loses, reorders and duplicates nothing.

A party is a state; a call or a message changes it and sends messages, which
queue up at the other party until they are delivered one at a time.  Every step
has the form `after` (`call_cases`, `deliver_cases`).

* `Refines.step` — when calls and messages do related things to related parties, the
  steps of one network are steps of the other.
-/
import Mathlib.Data.List.Forall2
import Mathlib.Tactic.Common

namespace FifoNetwork

variable {σ σ' μ μ' κ : Type*}

inductive Side where
  | left
  | right
  deriving DecidableEq

def Side.other : Side → Side
  | .left => .right
  | .right => .left

@[simp] theorem Side.other_other (s : Side) : s.other.other = s := by cases s <;> rfl

@[simp] theorem Side.other_ne (s : Side) : s.other ≠ s := by cases s <;> decide

@[simp] theorem Side.ne_other (s : Side) : s ≠ s.other := by cases s <;> decide

theorem Side.eq_or_eq_other (s t : Side) : t = s ∨ t = s.other := by
  cases s <;> cases t <;> simp [Side.other]

/-- The parties, and the messages on their way to each, oldest first. -/
structure Net (σ μ : Type*) where
  node : Side → σ
  inbox : Side → List μ

/-- A party is called, or takes its oldest message. -/
inductive Event (κ : Type*) where
  | call (s : Side) (c : κ)
  | deliver (s : Side)

namespace Net

/-- Party `s` becomes `x`, with `rest` still to come, and has sent `out`. -/
def after (n : Net σ μ) (s : Side) (x : σ) (rest out : List μ) : Net σ μ where
  node := Function.update n.node s x
  inbox := Function.update (Function.update n.inbox s rest) s.other (n.inbox s.other ++ out)

@[simp] theorem after_node_self (n : Net σ μ) (s : Side) (x : σ) (rest out : List μ) :
    (n.after s x rest out).node s = x := Function.update_self ..

@[simp] theorem after_node_other (n : Net σ μ) (s : Side) (x : σ) (rest out : List μ) :
    (n.after s x rest out).node s.other = n.node s.other :=
  Function.update_of_ne (Side.other_ne s) ..

@[simp] theorem after_inbox_self (n : Net σ μ) (s : Side) (x : σ) (rest out : List μ) :
    (n.after s x rest out).inbox s = rest := by
  rw [after]
  dsimp only
  rw [Function.update_of_ne (Side.ne_other s), Function.update_self]

@[simp] theorem after_inbox_other (n : Net σ μ) (s : Side) (x : σ) (rest out : List μ) :
    (n.after s x rest out).inbox s.other = n.inbox s.other ++ out := Function.update_self ..

@[simp] theorem after_other_node (n : Net σ μ) (s : Side) (x : σ) (rest out : List μ) :
    (n.after s.other x rest out).node s = n.node s := Function.update_of_ne (Side.ne_other s) ..

@[simp] theorem after_other_inbox (n : Net σ μ) (s : Side) (x : σ) (rest out : List μ) :
    (n.after s.other x rest out).inbox s = n.inbox s ++ out := by
  have h := n.after_inbox_other s.other x rest out
  rwa [Side.other_other] at h

/-- What a call of party `s` and a message to it do; a message that is not there is not
delivered. -/
def step (call : Side → κ → σ → σ × List μ) (receive : μ → σ → σ × List μ) (n : Net σ μ) :
    Event κ → Option (Net σ μ)
  | .call s c =>
    let (x, out) := call s c (n.node s)
    some (n.after s x (n.inbox s) out)
  | .deliver s =>
    match n.inbox s with
    | [] => none
    | m :: rest =>
      let (x, out) := receive m (n.node s)
      some (n.after s x rest out)

/-- Nothing is on its way. -/
def Quiescent (n : Net σ μ) : Prop := ∀ s, n.inbox s = []

theorem quiescent_iff (n : Net σ μ) :
    n.Quiescent ↔ (n.inbox .left).isEmpty = true ∧ (n.inbox .right).isEmpty = true := by
  rw [List.isEmpty_iff, List.isEmpty_iff]
  exact ⟨fun h => ⟨h .left, h .right⟩, fun h s => by cases s <;> simp [h.1, h.2]⟩

instance (n : Net σ μ) : Decidable n.Quiescent := decidable_of_iff _ n.quiescent_iff.symm

theorem call_cases {call : Side → κ → σ → σ × List μ} {receive : μ → σ → σ × List μ}
    {n n' : Net σ μ} {s : Side} {c : κ} (h : n.step call receive (.call s c) = some n') :
    n' = n.after s (call s c (n.node s)).1 (n.inbox s) (call s c (n.node s)).2 :=
  (Option.some_inj.mp h).symm

theorem deliver_cases {call : Side → κ → σ → σ × List μ} {receive : μ → σ → σ × List μ}
    {n n' : Net σ μ} {s : Side} (h : n.step call receive (.deliver s) = some n') :
    ∃ m rest, n.inbox s = m :: rest ∧
      n' = n.after s (receive m (n.node s)).1 rest (receive m (n.node s)).2 := by
  rw [step] at h
  cases hbox : n.inbox s with
  | nil =>
    rw [hbox] at h
    exact absurd h (by simp)
  | cons m rest =>
    rw [hbox] at h
    exact ⟨m, rest, rfl, (Option.some_inj.mp h).symm⟩

/-! ### Two levels -/

/-- The parties of two networks and the messages on their way are related one by one. -/
structure Refines (R : Side → σ → σ' → Prop) (M : Side → μ → μ' → Prop) (n : Net σ μ)
    (m : Net σ' μ') : Prop where
  node : ∀ s, R s (n.node s) (m.node s)
  inbox : ∀ s, List.Forall₂ (M s) (n.inbox s) (m.inbox s)

variable {R : Side → σ → σ' → Prop} {M : Side → μ → μ' → Prop}

theorem Refines.after {n : Net σ μ} {m : Net σ' μ'} (h : Refines R M n m) {s : Side} {x : σ}
    {x' : σ'} {rest out : List μ} {rest' out' : List μ'} (hx : R s x x')
    (hrest : List.Forall₂ (M s) rest rest') (hout : List.Forall₂ (M s.other) out out') :
    Refines R M (n.after s x rest out) (m.after s x' rest' out') := by
  constructor
  · intro t
    rcases Side.eq_or_eq_other s t with rfl | rfl
    · rw [after_node_self, after_node_self]
      exact hx
    · rw [after_node_other, after_node_other]
      exact h.node _
  · intro t
    rcases Side.eq_or_eq_other s t with rfl | rfl
    · rw [after_inbox_self, after_inbox_self]
      exact hrest
    · rw [after_inbox_other, after_inbox_other]
      exact List.rel_append (h.inbox _) hout

/-- **One step of one network is a step of the other.**  Calls are those that are legal. -/
theorem Refines.step (legal : Side → κ → Prop) {call : Side → κ → σ → σ × List μ}
    {call' : Side → κ → σ' → σ' × List μ'} {receive : μ → σ → σ × List μ}
    {receive' : μ' → σ' → σ' × List μ'}
    (hcall : ∀ s c x x', legal s c → R s x x' → R s (call s c x).1 (call' s c x').1 ∧
      List.Forall₂ (M s.other) (call s c x).2 (call' s c x').2)
    (hreceive : ∀ s a a' x x', M s a a' → R s x x' → R s (receive a x).1 (receive' a' x').1 ∧
      List.Forall₂ (M s.other) (receive a x).2 (receive' a' x').2)
    {n n₁ : Net σ μ} {m : Net σ' μ'} {e : Event κ} (h : Refines R M n m)
    (hlegal : ∀ s c, e = .call s c → legal s c) (hstep : n.step call receive e = some n₁) :
    ∃ m₁, m.step call' receive' e = some m₁ ∧ Refines R M n₁ m₁ := by
  cases e with
  | call s c =>
    rw [call_cases hstep]
    obtain ⟨hx, hout⟩ := hcall s c _ _ (hlegal s c rfl) (h.node s)
    exact ⟨_, rfl, h.after hx (h.inbox s) hout⟩
  | deliver s =>
    obtain ⟨a, rest, hbox, rfl⟩ := deliver_cases hstep
    have hinbox := h.inbox s
    rw [hbox] at hinbox
    obtain ⟨a', rest', ha, hrest, hbox'⟩ := List.forall₂_cons_left_iff.mp hinbox
    obtain ⟨hx, hout⟩ := hreceive s a a' _ _ ha (h.node s)
    refine ⟨_, ?_, h.after hx hrest hout⟩
    rw [Net.step, hbox']

theorem Refines.quiescent {n : Net σ μ} {m : Net σ' μ'} (h : Refines R M n m)
    (hquiet : n.Quiescent) : m.Quiescent := by
  intro s
  have hinbox := h.inbox s
  rw [hquiet s] at hinbox
  exact List.forall₂_nil_left_iff.mp hinbox

end Net

end FifoNetwork
