/-
The two substring searches, `k_strstr` (`shell.cpp`) and `simple_strstr` (`net/package.cpp`).

Both compare the needle at one place of the haystack after the other; `k_strstr` does so only
where the first characters agree.  The strings are in memory, with a zero behind each.

* `matchLoop_spec` — the inner loop comes to the end of the needle when it is a prefix;
* `search_eq` — the outer loop, for any search that decides a place rightly;
* `kStrstr_eq_some` — the position of the first match, for the search over lists;
* `strstr_agree` — both searches return that position.
-/
import MesaOS.Shell

open MachineWord Runs

namespace MesaOS.System

/-! ### The first match -/

theorem kStrstr_nil (haystack : List U8) : kStrstr haystack [] = some 0 := by
  unfold kStrstr
  exact if_pos rfl

/-- The first number with a property is zero when zero has it. -/
theorem zero_eq_iff_first {p : ℕ → Prop} (hzero : p 0) {i : ℕ} :
    0 = i ↔ p i ∧ ∀ j < i, ¬ p j := by
  constructor
  · rintro rfl
    exact ⟨hzero, fun j hj => absurd hj (Nat.not_lt_zero j)⟩
  · rintro ⟨-, hfirst⟩
    by_contra hi
    exact hfirst 0 (by omega) hzero

/-- `kStrstr` finds the first place at which the needle starts. -/
theorem kStrstr_eq_some {haystack needle : List U8} {i : ℕ} :
    kStrstr haystack needle = some i ↔
      needle <+: haystack.drop i ∧ ∀ j < i, ¬ needle <+: haystack.drop j := by
  by_cases hneedle : needle = []
  · rw [hneedle, kStrstr_nil, Option.some_inj]
    exact zero_eq_iff_first (p := fun i => [] <+: haystack.drop i) List.nil_prefix
  induction haystack generalizing i with
  | nil =>
    rw [kStrstr, if_neg hneedle, List.drop_nil, List.prefix_nil]
    exact iff_of_false (Option.some_ne_none i).symm fun h => hneedle h.1
  | cons c haystack ih =>
    rw [kStrstr, if_neg hneedle]
    by_cases hhere : needle.isPrefixOf (c :: haystack) = true
    · have hbegins := List.isPrefixOf_iff_prefix.mp hhere
      rw [if_pos hhere, Option.some_inj]
      exact zero_eq_iff_first (p := fun i => needle <+: (c :: haystack).drop i) hbegins
    · have hnot : ¬ needle <+: c :: haystack := fun h => hhere (List.isPrefixOf_iff_prefix.mpr h)
      rw [if_neg hhere, Option.map_eq_some_iff]
      constructor
      · rintro ⟨k, hk, rfl⟩
        obtain ⟨hbegins, hfirst⟩ := ih.mp hk
        refine ⟨hbegins, fun j hj => ?_⟩
        cases j with
        | zero => exact hnot
        | succ j => exact hfirst j (Nat.lt_of_succ_lt_succ hj)
      · rintro ⟨hbegins, hfirst⟩
        cases i with
        | zero => exact absurd hbegins hnot
        | succ k =>
          exact ⟨k, ih.mpr ⟨hbegins, fun j hj => hfirst (j + 1) (Nat.succ_lt_succ hj)⟩, rfl⟩

theorem kStrstr_eq_none {haystack needle : List U8} :
    kStrstr haystack needle = none ↔ ∀ i, ¬ needle <+: haystack.drop i := by
  constructor
  · intro hnone i hi
    -- the first of the places at which the needle starts would be found
    have hfirst := Nat.find_spec (⟨i, hi⟩ : ∃ i, needle <+: haystack.drop i)
    have hfound := kStrstr_eq_some.mpr ⟨hfirst, fun j hj => Nat.find_min _ hj⟩
    rw [hnone] at hfound
    exact absurd hfound (Option.some_ne_none _).symm
  · intro h
    cases hs : kStrstr haystack needle with
    | none => rfl
    | some i => exact absurd (kStrstr_eq_some.mp hs).1 (h i)

/-! ### Strings in memory -/

namespace Pointer

/-- The string lies at address `a`, with its zero behind it. -/
def StringIn (mem : ℕ → U8) : ℕ → List U8 → Prop
  | a, [] => mem a = 0
  | a, c :: l => mem a = c ∧ c ≠ 0 ∧ StringIn mem (a + 1) l

instance decidableStringIn (mem : ℕ → U8) : ∀ a l, Decidable (StringIn mem a l)
  | a, [] => inferInstanceAs (Decidable (mem a = 0))
  | a, c :: l =>
    have : Decidable (StringIn mem (a + 1) l) := decidableStringIn mem (a + 1) l
    inferInstanceAs (Decidable (mem a = c ∧ c ≠ 0 ∧ StringIn mem (a + 1) l))

/-- `while (*h && *n && *h == *n) { h++; n++; }` -/
def matchLoop (mem : ℕ → U8) : ℕ → ℕ × ℕ → Option (ℕ × ℕ) :=
  whileLoop (fun v => mem v.1 != 0 && mem v.2 != 0 && mem v.1 == mem v.2)
    fun v => some (v.1 + 1, v.2 + 1)

/-- The loop of `k_strstr`; the null pointer is `none`. -/
def kStrstrLoop (mem : ℕ → U8) (needle : ℕ) : ℕ → ℕ → Option (Option ℕ)
  | 0, _ => none
  | fuel + 1, haystack =>
    if mem haystack = 0 then some none
    else if mem haystack = mem needle then
      (matchLoop mem (fuel + 1) (haystack, needle)).bind fun v =>
        if mem v.2 = 0 then some (some haystack) else kStrstrLoop mem needle fuel (haystack + 1)
    else kStrstrLoop mem needle fuel (haystack + 1)

/-- `k_strstr` -/
def kStrstr (mem : ℕ → U8) (fuel haystack needle : ℕ) : Option (Option ℕ) :=
  if mem needle = 0 then some (some haystack) else kStrstrLoop mem needle fuel haystack

/-- The loop of `simple_strstr`. -/
def simpleStrstrLoop (mem : ℕ → U8) (needle : ℕ) : ℕ → ℕ → Option (Option ℕ)
  | 0, _ => none
  | fuel + 1, haystack =>
    if mem haystack = 0 then some none
    else
      (matchLoop mem (fuel + 1) (haystack, needle)).bind fun v =>
        if mem v.2 = 0 then some (some haystack)
        else simpleStrstrLoop mem needle fuel (haystack + 1)

/-- `simple_strstr` -/
def simpleStrstr (mem : ℕ → U8) (fuel haystack needle : ℕ) : Option (Option ℕ) :=
  if mem needle = 0 then some (some haystack) else simpleStrstrLoop mem needle fuel haystack

variable {mem : ℕ → U8} {a b fuel : ℕ} {h n : List U8}

/-- The first character is zero for the empty string only. -/
theorem StringIn.eq_zero_iff (hl : StringIn mem a h) : mem a = 0 ↔ h = [] := by
  cases h with
  | nil => exact iff_of_true hl rfl
  | cons c h =>
    obtain ⟨hc, hzero, -⟩ := hl
    rw [hc]
    exact iff_of_false hzero (List.cons_ne_nil c h)

/-! ### The two loops -/

theorem matchLoop_spec (hh : StringIn mem a h) (hn : StringIn mem b n) (hfuel : h.length < fuel) :
    ∃ v, matchLoop mem fuel (a, b) = some v ∧ (mem v.2 = 0 ↔ n <+: h) := by
  induction h generalizing a b n fuel with
  | nil =>
    obtain ⟨fuel, rfl⟩ := Nat.exists_eq_add_of_lt hfuel
    have hend : mem a = 0 := hh
    refine ⟨(a, b), ?_, ?_⟩
    · rw [matchLoop, whileLoop]
      simp [hend]
    · rw [List.prefix_nil]
      exact hn.eq_zero_iff
  | cons c h ih =>
    obtain ⟨fuel, rfl⟩ := Nat.exists_eq_add_of_lt hfuel
    obtain ⟨hc, hczero, hrest⟩ := hh
    cases n with
    | nil =>
      have hend : mem b = 0 := hn
      refine ⟨(a, b), ?_, iff_of_true hend List.nil_prefix⟩
      rw [matchLoop, whileLoop]
      simp [hend]
    | cons d n =>
      obtain ⟨hd, hdzero, hnrest⟩ := hn
      by_cases hcd : c = d
      · -- one more character agrees
        have hless : h.length < (c :: h).length + fuel := by
          rw [List.length_cons]
          omega
        obtain ⟨v, hv, hmatches⟩ := ih hrest hnrest hless
        have hgo : (mem a != 0 && mem b != 0 && mem a == mem b) = true := by
          rw [hc, hd, Bool.and_eq_true, Bool.and_eq_true, bne_iff_ne, bne_iff_ne, beq_iff_eq]
          exact ⟨⟨hczero, hdzero⟩, hcd⟩
        refine ⟨v, ?_, ?_⟩
        · rw [matchLoop, whileLoop, if_pos hgo, Option.bind_some]
          exact hv
        · rw [hmatches, hcd, List.cons_prefix_cons, and_iff_right rfl]
      · refine ⟨(a, b), ?_, ?_⟩
        · rw [matchLoop, whileLoop, if_neg (by simp [hc, hd, hcd])]
        · rw [List.cons_prefix_cons]
          exact iff_of_false (by rw [hd]; exact hdzero) fun hmatches => hcd hmatches.1.symm

/-- A search that decides each place of the haystack rightly finds the first match. -/
theorem search_eq {search : ℕ → ℕ → Option (Option ℕ)} (hneedle : n ≠ [])
    (hend : ∀ fuel a, mem a = 0 → search (fuel + 1) a = some none)
    (hstep : ∀ fuel a c h, StringIn mem a (c :: h) → (c :: h).length < fuel + 1 →
      search (fuel + 1) a = if n <+: c :: h then some (some a) else search fuel (a + 1))
    (hh : StringIn mem a h) (hfuel : h.length < fuel) :
    search fuel a = some ((System.kStrstr h n).map (a + ·)) := by
  induction h generalizing a fuel with
  | nil =>
    obtain ⟨fuel, rfl⟩ := Nat.exists_eq_add_of_lt hfuel
    rw [hend _ _ hh, System.kStrstr, if_neg hneedle]
    rfl
  | cons c h ih =>
    obtain ⟨fuel, rfl⟩ := Nat.exists_eq_add_of_lt hfuel
    rw [hstep _ a c h hh (by omega), System.kStrstr, if_neg hneedle]
    by_cases hmatches : n <+: c :: h
    · rw [if_pos hmatches, if_pos (List.isPrefixOf_iff_prefix.mpr hmatches)]
      rfl
    · rw [if_neg hmatches, if_neg fun h => hmatches (List.isPrefixOf_iff_prefix.mp h),
        ih hh.2.2 (by rw [List.length_cons]; omega), Option.map_map]
      exact congrArg (fun f => some (Option.map f (System.kStrstr h n)))
        (funext fun i => by simp only [Function.comp]; omega)

theorem simpleStrstrLoop_eq (hh : StringIn mem a h) (hn : StringIn mem b n) (hneedle : n ≠ [])
    (hfuel : h.length < fuel) :
    simpleStrstrLoop mem b fuel a = some ((System.kStrstr h n).map (a + ·)) := by
  refine search_eq hneedle (fun fuel a hzero => ?_) (fun fuel a c h hh hfuel => ?_) hh hfuel
  -- the end of the haystack, and one place of it
  · rw [simpleStrstrLoop, if_pos hzero]
  · obtain ⟨v, hv, hmatches⟩ := matchLoop_spec hh hn hfuel
    rw [simpleStrstrLoop, if_neg fun hzero => List.cons_ne_nil c h (hh.eq_zero_iff.mp hzero), hv,
      Option.bind_some]
    exact if_congr hmatches rfl rfl

theorem kStrstrLoop_eq (hh : StringIn mem a h) (hn : StringIn mem b n) (hneedle : n ≠ [])
    (hfuel : h.length < fuel) :
    kStrstrLoop mem b fuel a = some ((System.kStrstr h n).map (a + ·)) := by
  refine search_eq hneedle (fun fuel a hzero => ?_) (fun fuel a c h hh hfuel => ?_) hh hfuel
  · rw [kStrstrLoop, if_pos hzero]
  · rw [kStrstrLoop, if_neg fun hzero => List.cons_ne_nil c h (hh.eq_zero_iff.mp hzero)]
    by_cases hfirst : mem a = mem b
    · obtain ⟨v, hv, hmatches⟩ := matchLoop_spec hh hn hfuel
      rw [if_pos hfirst, hv, Option.bind_some]
      exact if_congr hmatches rfl rfl
    · -- where the first characters differ, the needle does not start
      obtain ⟨d, n, rfl⟩ := List.exists_cons_of_ne_nil hneedle
      have hnot : ¬ d :: n <+: c :: h := by
        rw [List.cons_prefix_cons]
        rintro ⟨rfl, -⟩
        exact hfirst (hh.1.trans hn.1.symm)
      rw [if_neg hfirst, if_neg hnot]

/-- Both functions look for the end of the needle before their loop. -/
theorem search_or_start {loop : Option (Option ℕ)} (hn : StringIn mem b n)
    (hloop : n ≠ [] → loop = some ((System.kStrstr h n).map (a + ·))) :
    (if mem b = 0 then some (some a) else loop) = some ((System.kStrstr h n).map (a + ·)) := by
  by_cases hneedle : n = []
  · rw [if_pos (hn.eq_zero_iff.mpr hneedle), hneedle, kStrstr_nil]
    rfl
  · rw [if_neg fun hzero => hneedle (hn.eq_zero_iff.mp hzero)]
    exact hloop hneedle

/-- **Both searches return the first match.** -/
theorem strstr_agree (hh : StringIn mem a h) (hn : StringIn mem b n) (hfuel : h.length < fuel) :
    ∃ r : Option ℕ, kStrstr mem fuel a b = some r ∧ simpleStrstr mem fuel a b = some r ∧
      (∀ p, r = some p ↔
        ∃ i, p = a + i ∧ n <+: h.drop i ∧ ∀ j < i, ¬ n <+: h.drop j) ∧
      (r = none ↔ ∀ i, ¬ n <+: h.drop i) ∧ (n = [] → r = some a) := by
  refine ⟨(System.kStrstr h n).map (a + ·), ?_, ?_, fun p => ?_, ?_, ?_⟩
  · exact search_or_start hn fun hneedle => kStrstrLoop_eq hh hn hneedle hfuel
  · exact search_or_start hn fun hneedle => simpleStrstrLoop_eq hh hn hneedle hfuel
  · rw [Option.map_eq_some_iff]
    constructor
    · rintro ⟨i, hi, rfl⟩
      exact ⟨i, rfl, kStrstr_eq_some.mp hi⟩
    · rintro ⟨i, rfl, hi⟩
      exact ⟨i, kStrstr_eq_some.mpr hi, rfl⟩
  · rw [Option.map_eq_none_iff]
    exact kStrstr_eq_none
  · rintro rfl
    rw [kStrstr_nil]
    rfl

/-- A needle that starts twice before it is there: `aab` in `aaab`. -/
theorem strstr_agree_overlap :
    let mem := bufferOf (chars "aaab" ++ 0 :: chars "aab")
    ∃ r : Option ℕ, kStrstr mem 5 0 5 = some r ∧ simpleStrstr mem 5 0 5 = some r ∧
      (∀ p, r = some p ↔
        ∃ i, p = 0 + i ∧ chars "aab" <+: (chars "aaab").drop i ∧
          ∀ j < i, ¬ chars "aab" <+: (chars "aaab").drop j) ∧
      (r = none ↔ ∀ i, ¬ chars "aab" <+: (chars "aaab").drop i) ∧
      (chars "aab" = [] → r = some 0) :=
  strstr_agree (by decide) (by decide) (by decide)

end Pointer

end MesaOS.System
