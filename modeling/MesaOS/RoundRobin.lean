/-
Turns in a round, with newcomers at the front.

`upcoming` lists the members in the order in which their turns come; a tick moves its head to
the end, and a newcomer is put where the round ends.

* `turns_replicate_tick` — in as many ticks as there are members each gets one turn;
* `count_turns` — between two turns of a member every other one gets exactly one turn;
* `exists_turn` — with ticks that never end every member gets a turn, whoever is added.
-/
import Mathlib.Data.List.Nodup
import Mathlib.Data.List.Perm.Basic
import Mathlib.Order.Nat

/-- The members before the one whose turn it is, this one, and the members behind it. -/
structure RoundRobin (α : Type*) where
  before : List α
  current : α
  after : List α

namespace RoundRobin

variable {α : Type*}

def members (r : RoundRobin α) : List α := r.before ++ r.current :: r.after

/-- The members in the order of their next turns. -/
def upcoming (r : RoundRobin α) : List α := r.after ++ (r.before ++ [r.current])

/-- The turn goes to the next member, behind the last one to the first. -/
def tick (r : RoundRobin α) : RoundRobin α :=
  match r.after with
  | next :: rest => ⟨r.before ++ [r.current], next, rest⟩
  | [] =>
    match r.before with
    | first :: rest => ⟨[], first, rest ++ [r.current]⟩
    | [] => r

def add (r : RoundRobin α) (x : α) : RoundRobin α := { r with before := x :: r.before }

inductive Event (α : Type*)
  | tick
  | add (x : α)

def step (r : RoundRobin α) : Event α → RoundRobin α
  | .tick => r.tick
  | .add x => r.add x

/-- The members that get a turn, in order. -/
def turns : RoundRobin α → List (Event α) → List α
  | _, [] => []
  | r, .tick :: events => r.tick.current :: turns r.tick events
  | r, .add x :: events => turns (r.add x) events

/-- Nobody is added who is a member already. -/
def Fresh : RoundRobin α → List (Event α) → Prop
  | _, [] => True
  | r, .tick :: events => Fresh r.tick events
  | r, .add x :: events => x ∉ r.members ∧ Fresh (r.add x) events

theorem current_mem_members (r : RoundRobin α) : r.current ∈ r.members :=
  List.mem_append_right _ (List.mem_cons_self ..)

theorem members_tick (r : RoundRobin α) : r.tick.members = r.members := by
  obtain ⟨before, current, after⟩ := r
  cases after with
  | cons next rest => exact List.append_assoc before [current] (next :: rest)
  | nil => cases before <;> rfl

theorem upcoming_perm (r : RoundRobin α) : r.upcoming.Perm r.members := by
  have hback : (r.before ++ [r.current] ++ r.after).Perm r.members := by
    rw [members, List.append_assoc, List.singleton_append]
  exact List.perm_append_comm.trans hback

theorem mem_upcoming {r : RoundRobin α} {x : α} : x ∈ r.upcoming ↔ x ∈ r.members :=
  r.upcoming_perm.mem_iff

theorem nodup_upcoming {r : RoundRobin α} (h : r.members.Nodup) : r.upcoming.Nodup :=
  r.upcoming_perm.nodup_iff.mpr h

/-- A tick moves the head of the coming turns to their end. -/
theorem upcoming_tick (r : RoundRobin α) :
    ∃ rest, r.upcoming = r.tick.current :: rest ∧ r.tick.upcoming = rest ++ [r.tick.current] := by
  obtain ⟨before, current, after⟩ := r
  cases after with
  | cons next rest =>
    exact ⟨rest ++ (before ++ [current]), rfl, (List.append_assoc rest _ [next]).symm⟩
  | nil =>
    cases before with
    | cons first rest => exact ⟨rest ++ [current], rfl, rfl⟩
    | nil => exact ⟨[], rfl, rfl⟩

/-- A newcomer is put into the coming turns. -/
theorem upcoming_add (r : RoundRobin α) (x : α) :
    (r.add x).upcoming = r.after ++ x :: (r.before ++ [r.current]) := rfl

/-! ### Ticks alone -/

theorem turns_of_upcoming {r : RoundRobin α} {first rest : List α}
    (h : r.upcoming = first ++ rest) :
    turns r (List.replicate first.length .tick) = first := by
  induction first generalizing r rest with
  | nil => rfl
  | cons x first ih =>
    obtain ⟨others, hhead, htick⟩ := r.upcoming_tick
    rw [h, List.cons_append, List.cons.injEq] at hhead
    obtain ⟨hx, rfl⟩ := hhead
    rw [List.append_assoc] at htick
    rw [List.length_cons, List.replicate_succ, turns, ih htick, ← hx]

theorem turns_replicate_tick (r : RoundRobin α) :
    turns r (List.replicate r.members.length .tick) = r.upcoming := by
  rw [← r.upcoming_perm.length_eq]
  exact turns_of_upcoming (List.append_nil r.upcoming).symm

/-! ### Between two turns -/

section

variable [DecidableEq α]

/-- A newcomer comes before `p` or behind it, and changes nothing else in the coming turns. -/
theorem upcoming_add_split {r : RoundRobin α} {p : α} {ahead behind : List α}
    (h : r.upcoming = ahead ++ p :: behind) (x : α) :
    ∃ ahead' behind', (r.add x).upcoming = ahead' ++ p :: behind' ∧
      ∀ q, x ≠ q → ahead'.count q = ahead.count q := by
  have hadd := upcoming_add r x
  rw [upcoming] at h
  rcases List.append_eq_append_iff.mp h with ⟨mid, rfl, htail⟩ | ⟨mid, hafter, htail⟩
  · refine ⟨r.after ++ x :: mid, behind, ?_, fun q hne => ?_⟩
    · rw [hadd, htail, List.append_assoc, List.cons_append]
    · rw [List.count_append, List.count_append, List.count_cons_of_ne hne]
  · cases mid with
    | nil =>
      -- `p` is the first of the next round, and the newcomer is put before it
      rw [List.nil_append] at htail
      rw [List.append_nil] at hafter
      refine ⟨r.after ++ [x], behind, ?_, fun q hne => ?_⟩
      · rw [hadd, ← htail, List.append_assoc, List.singleton_append]
      · rw [List.count_append, hafter, List.count_cons_of_ne hne, List.count_nil, Nat.add_zero]
    | cons b mid =>
      rw [List.cons_append, List.cons.injEq] at htail
      obtain ⟨rfl, -⟩ := htail
      refine ⟨ahead, mid ++ x :: (r.before ++ [r.current]), ?_, fun q _ => rfl⟩
      rw [hadd, hafter, List.append_assoc, List.cons_append]

/-- Those who stand before `p` in the coming turns get one turn until `p` has its own, those
behind it none. -/
theorem count_turns_of_upcoming {r : RoundRobin α} {p q : α} {ahead behind : List α}
    {events : List (Event α)} (h : r.upcoming = ahead ++ p :: behind) (hnodup : r.members.Nodup)
    (hfresh : r.Fresh events) (hp : p ∉ turns r events)
    (hnext : (events.foldl step r).tick.current = p) (hq : q ∈ r.members) :
    (turns r events).count q = ahead.count q := by
  induction events generalizing r ahead behind with
  | nil =>
    obtain ⟨rest, hhead, -⟩ := r.upcoming_tick
    have hturn : r.tick.current = p := hnext
    rw [h, hturn] at hhead
    cases ahead with
    | nil => rfl
    | cons a ahead =>
      -- `p` would stand in the coming turns twice
      rw [List.cons_append, List.cons.injEq] at hhead
      have hone := nodup_upcoming hnodup
      rw [h, hhead.1, List.cons_append, List.nodup_cons] at hone
      exact absurd (List.mem_append_right ahead (List.mem_cons_self ..)) hone.1
  | cons event events ih =>
    rw [List.foldl_cons] at hnext
    cases event with
    | tick =>
      obtain ⟨rest, hhead, htick⟩ := r.upcoming_tick
      rw [turns, List.mem_cons, not_or] at hp
      cases ahead with
      | nil =>
        rw [h, List.nil_append, List.cons.injEq] at hhead
        exact absurd hhead.1 hp.1
      | cons a ahead =>
        rw [h, List.cons_append, List.cons.injEq] at hhead
        obtain ⟨ha, rfl⟩ := hhead
        rw [List.append_assoc, List.cons_append] at htick
        rw [turns, List.count_cons, List.count_cons, ha,
          ih htick (members_tick r ▸ hnodup) hfresh hp.2 hnext (members_tick r ▸ hq)]
    | add x =>
      obtain ⟨hx, hfresh⟩ := hfresh
      have hne : x ≠ q := fun heq => hx (heq ▸ hq)
      have hmembers : (r.add x).members.Nodup := List.nodup_cons.mpr ⟨hx, hnodup⟩
      have hmem : q ∈ (r.add x).members := List.mem_cons_of_mem x hq
      obtain ⟨ahead', behind', hup, hcount⟩ := upcoming_add_split h x
      rw [turns, ih hup hmembers hfresh hp hnext hmem, hcount q hne]

/-- Between two turns of a member each of the others gets exactly one. -/
theorem count_turns {r : RoundRobin α} {q : α} {events : List (Event α)}
    (hnodup : r.members.Nodup) (hfresh : r.Fresh events) (hturn : r.current ∉ turns r events)
    (hnext : (events.foldl step r).tick.current = r.current) (hq : q ∈ r.members)
    (hne : q ≠ r.current) : (turns r events).count q = 1 := by
  have hsplit : r.upcoming = r.after ++ r.before ++ r.current :: [] := by
    rw [upcoming, List.append_assoc]
  rw [count_turns_of_upcoming hsplit hnodup hfresh hturn hnext hq]
  have hone := List.count_eq_one_of_mem (nodup_upcoming hnodup) (mem_upcoming.mpr hq)
  rwa [hsplit, List.count_append, List.count_cons_of_ne hne.symm, List.count_nil,
    Nat.add_zero] at hone

end

/-! ### Ticks that never end -/

/-- The state after the first `n` events. -/
def stateAt (r : RoundRobin α) (events : ℕ → Event α) : ℕ → RoundRobin α
  | 0 => r
  | n + 1 => step (stateAt r events n) (events n)

theorem stateAt_add (r : RoundRobin α) (events : ℕ → Event α) (m n : ℕ) :
    stateAt r events (m + n) = stateAt (stateAt r events m) (fun k => events (m + k)) n := by
  induction n with
  | zero => rfl
  | succ n ih => rw [← Nat.add_assoc, stateAt, stateAt, ih]

/-- Ticks come again and again. -/
def Ticks (events : ℕ → Event α) : Prop := ∀ n, ∃ m, n ≤ m ∧ events m = .tick

theorem Ticks.shift {events : ℕ → Event α} (h : Ticks events) (m : ℕ) :
    Ticks fun k => events (m + k) := by
  intro n
  obtain ⟨k, hk, htick⟩ := h (m + n)
  refine ⟨k - m, by omega, ?_⟩
  dsimp only
  rwa [Nat.add_sub_cancel' (by omega)]

/-- Until the next tick the turn stays where it is, and newcomers join at the front. -/
theorem exists_next_tick (r : RoundRobin α) {events : ℕ → Event α} (h : Ticks events) :
    ∃ n newcomers, events n = .tick ∧
      stateAt r events n = { r with before := newcomers ++ r.before } := by
  classical
  have hex : ∃ n, events n = .tick := (h 0).imp fun _ hm => hm.2
  have hstays : ∀ n ≤ Nat.find hex, ∃ newcomers,
      stateAt r events n = { r with before := newcomers ++ r.before } := by
    intro n hn
    induction n with
    | zero => exact ⟨[], rfl⟩
    | succ n ih =>
      obtain ⟨newcomers, hstate⟩ := ih (by omega)
      have hnot : events n ≠ .tick := Nat.find_min hex hn
      rw [stateAt, hstate]
      cases hevent : events n with
      | tick => exact absurd hevent hnot
      | add x => exact ⟨x :: newcomers, rfl⟩
  obtain ⟨newcomers, hstate⟩ := hstays _ (Nat.le_refl _)
  exact ⟨Nat.find hex, newcomers, Nat.find_spec hex, hstate⟩

/-- A member gets a turn. -/
def GetsTurn (r : RoundRobin α) (events : ℕ → Event α) (x : α) : Prop :=
  ∃ n, events n = .tick ∧ (stateAt r events (n + 1)).current = x

theorem GetsTurn.of_stateAt {r : RoundRobin α} {events : ℕ → Event α} {x : α} (m : ℕ)
    (h : GetsTurn (stateAt r events m) (fun k => events (m + k)) x) : GetsTurn r events x := by
  obtain ⟨n, htick, hturn⟩ := h
  refine ⟨m + n, htick, ?_⟩
  rw [Nat.add_assoc, stateAt_add]
  exact hturn

/-- Those behind the one whose turn it is: nobody is put before them. -/
theorem getsTurn_after {r : RoundRobin α} {events : ℕ → Event α} {x : α} {between rest : List α}
    (hticks : Ticks events) (h : r.after = between ++ x :: rest) : GetsTurn r events x := by
  induction between generalizing r events with
  | nil =>
    obtain ⟨n, newcomers, htick, hstate⟩ := exists_next_tick r hticks
    refine ⟨n, htick, ?_⟩
    rw [stateAt, htick, hstate, step, tick]
    dsimp only
    rw [h, List.nil_append]
  | cons y between ih =>
    obtain ⟨n, newcomers, htick, hstate⟩ := exists_next_tick r hticks
    refine GetsTurn.of_stateAt (n + 1) (ih (hticks.shift (n + 1)) ?_)
    rw [stateAt, htick, hstate, step, tick]
    dsimp only
    rw [h, List.cons_append]

theorem before_tick {r : RoundRobin α} (h : r.after = []) : r.tick.before = [] := by
  obtain ⟨before, current, after⟩ := r
  obtain rfl : after = [] := h
  cases before <;> rfl

/-- Nobody leaves. -/
theorem members_subset_stateAt (r : RoundRobin α) (events : ℕ → Event α) (n : ℕ) :
    r.members ⊆ (stateAt r events n).members := by
  induction n with
  | zero => exact List.Subset.refl _
  | succ n ih =>
    rw [stateAt]
    cases events n with
    | tick => exact (members_tick (stateAt r events n)).symm ▸ ih
    | add x => exact List.subset_cons_of_subset x ih

/-- The turn comes back to the front. -/
theorem exists_wrap {r : RoundRobin α} {events : ℕ → Event α} (hticks : Ticks events) :
    ∃ n, events n = .tick ∧ (stateAt r events (n + 1)).before = [] := by
  induction hafter : r.after generalizing r events with
  | nil =>
    obtain ⟨n, newcomers, htick, hstate⟩ := exists_next_tick r hticks
    refine ⟨n, htick, ?_⟩
    rw [stateAt, htick]
    exact before_tick (by rw [hstate]; exact hafter)
  | cons y rest ih =>
    obtain ⟨n, newcomers, htick, hstate⟩ := exists_next_tick r hticks
    have hrest : (stateAt r events (n + 1)).after = rest := by
      rw [stateAt, htick, hstate, step, tick]
      dsimp only
      rw [hafter]
    obtain ⟨m, hm, hfront⟩ := ih (hticks.shift (n + 1)) hrest
    refine ⟨n + 1 + m, hm, ?_⟩
    rw [Nat.add_assoc, stateAt_add]
    exact hfront

/-- Every member gets a turn. -/
theorem exists_turn {r : RoundRobin α} {events : ℕ → Event α} (hticks : Ticks events) {x : α}
    (hx : x ∈ r.members) : GetsTurn r events x := by
  obtain ⟨n, htick, hfront⟩ := exists_wrap (r := r) hticks
  have hmem := members_subset_stateAt r events (n + 1) hx
  rw [members, hfront, List.nil_append] at hmem
  rcases List.mem_cons.mp hmem with rfl | hafter
  · exact ⟨n, htick, rfl⟩
  · obtain ⟨between, rest, hsplit⟩ := List.append_of_mem hafter
    exact GetsTurn.of_stateAt (n + 1) (getsTurn_after (hticks.shift (n + 1)) hsplit)

end RoundRobin
