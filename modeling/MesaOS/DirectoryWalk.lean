/-
Walks through directories.

`find n k` is what the name `k` denotes in the node `n`, and `walk find n ks` follows
the names `ks` from `n` on.

* `walk_of_extends`, `walk_extends_new`, `walk_extends_none` — where walks lead after a
  leaf has been added (`Extends`);
* `walk_of_removed` — a walk that does not end in a leaf leads to the same node after that
  leaf has been removed;
* `walk_adds` — where a walk leads after a directory has been added that shows what the
  others show.
-/
import Mathlib.Tactic.Common

namespace DirectoryWalk

variable {ν κ : Type*} {find find' : ν → κ → Option ν}

/-- The node to which the names `ks` lead from `n`. -/
def walk (find : ν → κ → Option ν) : ν → List κ → Option ν
  | n, [] => some n
  | n, k :: ks => (find n k).bind fun m => walk find m ks

theorem walk_append (n : ν) (ks ls : List κ) :
    walk find n (ks ++ ls) = (walk find n ks).bind fun m => walk find m ls := by
  induction ks generalizing n with
  | nil => rfl
  | cons k ks ih =>
    rw [List.cons_append, walk, walk]
    cases find n k with
    | none => rfl
    | some m => exact ih m

theorem walk_concat (n : ν) (ks : List κ) (k : κ) :
    walk find n (ks ++ [k]) = (walk find n ks).bind fun m => find m k := by
  rw [walk_append]
  refine congrArg _ (funext fun m => ?_)
  rw [walk]
  cases find m k <;> rfl

theorem walk_closed {P : ν → Prop} (hclosed : ∀ n k m, P n → find n k = some m → P m)
    {n m : ν} {ks : List κ} (hn : P n) (h : walk find n ks = some m) : P m := by
  induction ks generalizing n with
  | nil =>
    rw [walk, Option.some_inj] at h
    exact h ▸ hn
  | cons k ks ih =>
    obtain ⟨l, hl, h⟩ := Option.bind_eq_some_iff.mp h
    exact ih (hclosed n k l hn hl) h

/-- The last step of a walk that leads away from `n`. -/
theorem walk_last {n x : ν} {ks : List κ} (h : walk find n ks = some x) (hne : x ≠ n) :
    ∃ ds d k, ks = ds ++ [k] ∧ walk find n ds = some d ∧ find d k = some x := by
  rcases List.eq_nil_or_concat ks with rfl | ⟨ds, k, rfl⟩
  · rw [walk, Option.some_inj] at h
    exact absurd h.symm hne
  · rw [List.concat_eq_append, walk_concat] at h
    obtain ⟨d, hd, hk⟩ := Option.bind_eq_some_iff.mp h
    exact ⟨ds, d, k, List.concat_eq_append, hd, hk⟩

/-! ### A new leaf -/

/-- `find'` has one more leaf than `find`: `x`, under the name `c` in the directories `dir`.
There the name denotes `x`, or what it did before.  Nothing is said about nodes that are not
`valid`. -/
structure Extends (valid dir : ν → Prop) (find find' : ν → κ → Option ν) (c : κ) (x : ν) :
    Prop where
  closed : ∀ n k m, valid n → find n k = some m → valid m
  kept : ∀ n k, valid n → ¬ (dir n ∧ k = c) → find' n k = find n k
  found : ∀ n, valid n → dir n → find' n c = some x ∨ (find n c ≠ none ∧ find' n c = find n c)
  flat : ∀ n m, valid n → valid m → dir n → dir m → find n c = find m c
  leaf : ∀ k, find' x k = none

variable {valid dir : ν → Prop} {c : κ} {x n d : ν} {ks ds : List κ}

/-- A walk that does not end in the new leaf was there before. -/
theorem walk_of_extends (h : Extends valid dir find find' c x) (hn : valid n)
    (hd : walk find' n ds = some d) (hne : d ≠ x) : walk find n ds = some d := by
  induction ds generalizing n with
  | nil => exact hd
  | cons k ds ih =>
    obtain ⟨m, hm, hw⟩ := Option.bind_eq_some_iff.mp hd
    have hsame : find' n k = find n k := by
      by_cases hc : dir n ∧ k = c
      · obtain ⟨hdir, rfl⟩ := hc
        rcases h.found n hn hdir with hx | ⟨-, hsame⟩
        · -- from a leaf no name leads on
          rw [hx, Option.some_inj] at hm
          subst hm
          cases ds with
          | nil =>
            rw [walk, Option.some_inj] at hw
            exact absurd hw.symm hne
          | cons l ds =>
            rw [walk, h.leaf, Option.bind_none] at hw
            exact absurd hw (by simp)
        · exact hsame
      · exact h.kept n k hn hc
    rw [hsame] at hm
    rw [walk, hm, Option.bind_some]
    exact ih (h.closed n k m hn hm) hw

/-- A walk stays the same while no directory has the name. -/
theorem walk_kept (h : Extends valid dir find find' c x) (hn : valid n)
    (hd : walk find n ds = some d) (hfree : ∀ m, valid m → dir m → find m c = none) :
    walk find' n ds = some d := by
  induction ds generalizing n with
  | nil => exact hd
  | cons k ds ih =>
    obtain ⟨m, hm, hd⟩ := Option.bind_eq_some_iff.mp hd
    have hc : ¬ (dir n ∧ k = c) := by
      rintro ⟨hdn, rfl⟩
      rw [hfree n hn hdn] at hm
      exact absurd hm (by simp)
    rw [walk, h.kept n k hn hc, hm, Option.bind_some]
    exact ih (h.closed n k m hn hm) hd

/-- The leaf is found under its name, when nothing was before. -/
theorem walk_extends_new (h : Extends valid dir find find' c x) (hn : valid n)
    (hd : walk find n ds = some d) (hdir : dir d) (hnone : walk find n (ds ++ [c]) = none) :
    walk find' n (ds ++ [c]) = some x := by
  rw [walk_concat, hd, Option.bind_some] at hnone
  have hdv := walk_closed h.closed hn hd
  rw [walk_concat, walk_kept h hn hd fun m hm hdm => (h.flat m d hm hdv hdm hdir).trans hnone,
    Option.bind_some]
  exact (h.found d hdv hdir).resolve_right fun hw => hw.1 hnone

/-- A walk that led nowhere leads nowhere, unless it ends with the name in a directory. -/
theorem walk_extends_none (h : Extends valid dir find find' c x) (hn : valid n)
    (hnone : walk find n ks = none)
    (hleads : ¬ ∃ ds d, ks = ds ++ [c] ∧ walk find n ds = some d ∧ dir d) :
    walk find' n ks = none := by
  induction ks generalizing n with
  | nil => exact absurd hnone (by simp [walk])
  | cons k ks ih =>
    rw [walk] at hnone ⊢
    -- what is left of the walk, once a name leads to the same node as before
    have hrest : ∀ m, find n k = some m → find' n k = some m →
        ((find' n k).bind fun m => walk find' m ks) = none := by
      intro m hm hm'
      rw [hm, Option.bind_some] at hnone
      rw [hm', Option.bind_some]
      refine ih (h.closed n k m hn hm) hnone ?_
      rintro ⟨ds, d, rfl, hd, hdir⟩
      exact hleads ⟨k :: ds, d, rfl, by rw [walk, hm, Option.bind_some, hd], hdir⟩
    by_cases hc : dir n ∧ k = c
    · obtain ⟨hdir, rfl⟩ := hc
      rcases h.found n hn hdir with hx | ⟨hsome, hsame⟩
      · rw [hx, Option.bind_some]
        cases ks with
        | nil => exact absurd ⟨[], n, rfl, rfl, hdir⟩ hleads
        | cons l ks => rw [walk, h.leaf, Option.bind_none]
      · obtain ⟨m, hm⟩ := Option.ne_none_iff_exists'.mp hsome
        exact hrest m hm (hsame.trans hm)
    · cases hf : find n k with
      | none => rw [h.kept n k hn hc, hf, Option.bind_none]
      | some m => exact hrest m hf ((h.kept n k hn hc).trans hf)

/-! ### A leaf less -/

/-- A walk that does not end in the leaf `x` does not need it. -/
theorem walk_of_removed (hleaf : ∀ k, find x k = none)
    (hkept : ∀ n k m, find n k = some m → m ≠ x → find' n k = some m)
    (hd : walk find n ds = some d) (hne : d ≠ x) : walk find' n ds = some d := by
  induction ds generalizing n with
  | nil => exact hd
  | cons k ds ih =>
    obtain ⟨l, hl, hw⟩ := Option.bind_eq_some_iff.mp hd
    have hlx : l ≠ x := by
      rintro rfl
      cases ds with
      | nil =>
        rw [walk, Option.some_inj] at hw
        exact hne hw.symm
      | cons k' ds =>
        rw [walk, hleaf, Option.bind_none] at hw
        exact absurd hw (by simp)
    rw [walk, hkept n k l hl hlx, Option.bind_some]
    exact ih hw

/-! ### A new directory -/

/-- `find'` has one more node than `find`: `x`, under the name `c` in the directories `dir` that
had no such name. -/
structure Adds (valid dir : ν → Prop) (find find' : ν → κ → Option ν) (c : κ) (x : ν) :
    Prop where
  closed : ∀ n k m, valid n → find n k = some m → valid m
  found : ∀ n k m, valid n → find n k = some m → find' n k = some m
  added : ∀ n, valid n → dir n → find n c = none → find' n c = some x
  missing : ∀ n k, valid n → find n k = none → ¬ (dir n ∧ k = c) → find' n k = none

/-- The directories have one table in common, and the new name stands behind it. -/
theorem adds_of_table {table : κ → Option ν} [DecidableEq κ]
    (hclosed : ∀ n k m, valid n → find n k = some m → valid m)
    (hold : ∀ n k, valid n → dir n → find n k = table k)
    (hnew : ∀ n k, valid n → dir n → find' n k = (table k).or (if k = c then some x else none))
    (hother : ∀ n k, valid n → ¬ dir n → find' n k = find n k) :
    Adds valid dir find find' c x := by
  constructor
  · exact hclosed
  · intro n k m hn hm
    by_cases hdir : dir n
    · rw [hold n k hn hdir] at hm
      rw [hnew n k hn hdir, hm, Option.some_or]
    · rw [hother n k hn hdir, hm]
  · intro n hn hdir hnone
    rw [hold n c hn hdir] at hnone
    rw [hnew n c hn hdir, hnone, Option.none_or, if_pos rfl]
  · intro n k hn hnone hc
    by_cases hdir : dir n
    · rw [hold n k hn hdir] at hnone
      rw [hnew n k hn hdir, hnone, Option.none_or, if_neg fun hk => hc ⟨hdir, hk⟩]
    · rw [hother n k hn hdir, hnone]

/-- A new node through which nothing can be found is a new leaf. -/
theorem Adds.extends (h : Adds valid dir find find' c x)
    (hflat : ∀ n m, valid n → valid m → dir n → dir m → find n c = find m c)
    (hleaf : ∀ k, find' x k = none) : Extends valid dir find find' c x := by
  constructor
  · exact h.closed
  · intro n k hn hc
    cases hf : find n k with
    | none => exact h.missing n k hn hf hc
    | some m => exact h.found n k m hn hf
  · intro n hn hdir
    cases hf : find n c with
    | none => exact .inl (h.added n hn hdir hf)
    | some m => exact .inr ⟨Option.some_ne_none m, h.found n c m hn hf⟩
  · exact hflat
  · exact hleaf

/-- A walk that led somewhere leads there still. -/
theorem walk_found (h : Adds valid dir find find' c x) (hn : valid n)
    (hd : walk find n ks = some d) : walk find' n ks = some d := by
  induction ks generalizing n with
  | nil => exact hd
  | cons k ks ih =>
    obtain ⟨m, hm, hw⟩ := Option.bind_eq_some_iff.mp hd
    rw [walk, h.found n k m hn hm, Option.bind_some]
    exact ih (h.closed n k m hn hm) hw

variable [DecidablePred dir] [DecidableEq κ]

/-- A lookup that stays where it is when it misses the name `c`. -/
def standIn (find : ν → κ → Option ν) (dir : ν → Prop) [DecidablePred dir] (c : κ) (n : ν)
    (k : κ) : Option ν := (find n k).or (if dir n ∧ k = c then some n else none)

theorem standIn_closed (hclosed : ∀ n k m, valid n → find n k = some m → valid m) (n : ν) (k : κ)
    (m : ν) (hn : valid n) (hm : standIn find dir c n k = some m) : valid m := by
  rcases Option.or_eq_some_iff.mp hm with hf | ⟨-, hif⟩
  · exact hclosed n k m hn hf
  · obtain rfl := Option.some_inj.mp (Option.ite_none_right_eq_some.mp hif).2
    exact hn

/-- The new lookup of a name, at a node or at the new directory in its place. -/
theorem find_adds (h : Adds valid dir find find' c x)
    (halike : ∀ n k, valid n → dir n → find' x k = find' n k) {n' : ν} (hn : valid n)
    (hrel : n' = n ∨ n' = x ∧ dir n) (k : κ) :
    find' n' k = (find n k).or (if dir n ∧ k = c then some x else none) := by
  have hsame : find' n' k = find' n k := by
    rcases hrel with rfl | ⟨rfl, hdir⟩
    · rfl
    · exact halike n k hn hdir
  rw [hsame]
  cases hf : find n k with
  | some m =>
    rw [Option.some_or]
    exact h.found n k m hn hf
  | none =>
    rw [Option.none_or]
    by_cases hc : dir n ∧ k = c
    · obtain ⟨hdir, rfl⟩ := hc
      rw [if_pos ⟨hdir, rfl⟩]
      exact h.added n hn hdir hf
    · rw [if_neg hc]
      exact h.missing n k hn hf hc

/-- A walk among the new directories is one among the old ones that stays where the new name is
missing: where it was, it now stands at the new directory. -/
theorem walk_standIn (h : Adds valid dir find find' c x)
    (halike : ∀ n k, valid n → dir n → find' x k = find' n k) {n' : ν} (hn : valid n)
    (hrel : n' = n ∨ n' = x ∧ dir n) (ks : List κ) :
    (walk (standIn find dir c) n ks = none ∧ walk find' n' ks = none) ∨
      ∃ m m', walk (standIn find dir c) n ks = some m ∧ walk find' n' ks = some m' ∧ valid m ∧
        (m' = m ∨ m' = x ∧ dir m) := by
  induction ks generalizing n n' with
  | nil => exact .inr ⟨n, n', rfl, rfl, hn, hrel⟩
  | cons k ks ih =>
    rw [walk, walk, find_adds h halike hn hrel, standIn]
    cases hf : find n k with
    | some m =>
      rw [Option.some_or, Option.some_or]
      exact ih (h.closed n k m hn hf) (.inl rfl)
    | none =>
      rw [Option.none_or, Option.none_or]
      by_cases hc : dir n ∧ k = c
      · rw [if_pos hc, if_pos hc]
        exact ih hn (.inr ⟨rfl, hc.1⟩)
      · rw [if_neg hc, if_neg hc]
        exact .inl ⟨rfl, rfl⟩

/-- **Where a walk leads** once there is a new directory. -/
theorem walk_adds (h : Adds valid dir find find' c x)
    (halike : ∀ n k, valid n → dir n → find' x k = find' n k) (hn : valid n) (ks : List κ) (k : κ) :
    walk find' n (ks ++ [k]) = (walk (standIn find dir c) n ks).bind fun d =>
      (find d k).or (if dir d ∧ k = c then some x else none) := by
  rw [walk_concat]
  rcases walk_standIn h halike hn (.inl rfl) ks with ⟨hold, hnew⟩ | ⟨m, m', hold, hnew, hm, hrel⟩
  · rw [hold, hnew]
    rfl
  · rw [hold, hnew, Option.bind_some, Option.bind_some]
    exact find_adds h halike hm hrel k

end DirectoryWalk
