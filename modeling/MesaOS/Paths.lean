/-
Paths written out as names between slashes (`find_path_fs` in `fs/vfs.cpp`).

A name is copied into an array of 32 characters, and where the copying stopped decides whether
the path goes on.  So a name of more than 31 characters is looked up without what is behind its
first 31, and the rest of the path is not looked at.

* `components_pathOf` — the names that are looked up (`cutNames`);
* `findPathFs_pathOf` — when this leads where the names lead, for one tree and for all trees.
-/
import MesaOS.VFS

open MachineWord DirectoryWalk

namespace MesaOS.FS

/-- A name as it can stand between the slashes of a path. -/
structure PathName where
  string : CString
  nonempty : string.bytes ≠ []
  noSlash : slash ∉ string.bytes

/-- The first 31 characters, which fit into the array. -/
def PathName.cut (c : PathName) : CString :=
  ⟨c.string.bytes.take 31, fun h => c.string.noNul (List.mem_of_mem_take h)⟩

/-- The names with a slash between any two. -/
def joinNames : List PathName → CString
  | [] => CString.empty
  | [c] => c.string
  | c :: cs => c.string.append ((CString.ofChar slash zero_ne_slash).append (joinNames cs))

/-- The path of the names, with a slash in front or without. -/
def pathOf (leading : Bool) (names : List PathName) : CString :=
  if leading then (CString.ofChar slash zero_ne_slash).append (joinNames names)
  else joinNames names

/-- The names that are looked up. -/
def cutNames : List PathName → List CString
  | [] => []
  | c :: cs => if c.string.bytes.length ≤ 31 then c.string :: cutNames cs else [c.cut]

/-- At the first name of more than 31 characters that is looked up, the first 31 of them lead
where it and all that is behind it lead. -/
def CutLeads {ν : Type*} (finddirFs : ν → CString → Option ν) : ν → List PathName → Prop
  | _, [] => True
  | n, c :: cs =>
    if c.string.bytes.length ≤ 31 then
      ∀ m, finddirFs n c.string = some m → CutLeads finddirFs m cs
    else finddirFs n c.cut = walk finddirFs n ((c :: cs).map PathName.string)

theorem CString.eq_of_bytes {s t : CString} (h : s.bytes = t.bytes) : s = t := by
  cases s
  cases t
  exact CString.mk.injEq .. ▸ h

/-! ### The names that are looked up -/

section

variable {c : PathName} {p : CString} {rest : List U8}

theorem PathName.cut_of_short (h : c.string.bytes.length ≤ 31) : c.cut = c.string :=
  CString.eq_of_bytes (List.take_of_length_le h)

/-- Copying stops at the end of the name, or after 31 characters. -/
theorem component_eq_cut (hp : p.bytes = c.string.bytes ++ rest)
    (hrest : rest = [] ∨ rest.head? = some slash) : p.component = c.cut := by
  refine CString.eq_of_bytes ?_
  have hname : ∀ a ∈ c.string.bytes, (decide (a ≠ slash)) = true := fun a ha =>
    decide_eq_true fun heq => c.noSlash (heq ▸ ha)
  have hstop : rest.takeWhile (fun a => decide (a ≠ slash)) = [] := by
    rcases hrest with rfl | hslash
    · rfl
    · cases rest with
      | nil => rfl
      | cons a rest =>
        obtain rfl := Option.some_inj.mp hslash
        exact List.takeWhile_cons_of_neg (by simp)
  rw [CString.component, PathName.cut]
  dsimp only
  rw [← List.take_takeWhile, hp, List.takeWhile_append_of_pos hname, hstop, List.append_nil]

/-- After a name that fits, the path goes on if there is a slash. -/
theorem drop_component (hp : p.bytes = c.string.bytes ++ rest)
    (hrest : rest = [] ∨ rest.head? = some slash) :
    (p.bytes.drop p.component.bytes.length).head? = some slash ↔
      c.string.bytes.length ≤ 31 ∧ rest.head? = some slash := by
  rw [component_eq_cut hp hrest, PathName.cut, hp]
  dsimp only
  rw [List.length_take]
  by_cases hlen : c.string.bytes.length ≤ 31
  · rw [Nat.min_eq_right hlen, List.drop_left, and_iff_right hlen]
  · -- the 32nd character is one of the name
    have hlt : 31 < c.string.bytes.length := Nat.lt_of_not_le hlen
    rw [Nat.min_eq_left (Nat.le_of_lt hlt), List.head?_drop, List.getElem?_append_left hlt,
      List.getElem?_eq_getElem hlt, Option.some_inj]
    exact iff_of_false (fun h => c.noSlash (h ▸ List.getElem_mem hlt)) fun h => hlen h.1

end

theorem joinNames_cons (c : PathName) (cs : List PathName) :
    ∃ rest, (joinNames (c :: cs)).bytes = c.string.bytes ++ rest ∧
      (rest = [] ∨ rest.head? = some slash) ∧ (rest.head? = some slash ↔ cs ≠ []) ∧
      (cs ≠ [] → rest = slash :: (joinNames cs).bytes) := by
  cases cs with
  | nil => exact ⟨[], (List.append_nil _).symm, Or.inl rfl, by simp, fun h => absurd rfl h⟩
  | cons d cs =>
    exact ⟨slash :: (joinNames (d :: cs)).bytes, rfl, Or.inr rfl, by simp, fun _ => rfl⟩

theorem joinNames_eq_nil_iff (names : List PathName) : (joinNames names).bytes = [] ↔ names = [] := by
  cases names with
  | nil => exact iff_of_true rfl rfl
  | cons c cs =>
    obtain ⟨rest, hrest, -⟩ := joinNames_cons c cs
    rw [hrest]
    exact iff_of_false (fun h => c.nonempty (List.append_eq_nil_iff.mp h).1) (by simp)

/-- The first character is that of the first name. -/
theorem head?_joinNames (c : PathName) (cs : List PathName) :
    ∃ a, (joinNames (c :: cs)).bytes.head? = some a ∧ a ≠ slash := by
  obtain ⟨rest, hrest, -⟩ := joinNames_cons c cs
  obtain ⟨a, bytes, hname⟩ := List.exists_cons_of_ne_nil c.nonempty
  refine ⟨a, by rw [hrest, hname]; rfl, fun h => c.noSlash ?_⟩
  rw [hname, h]
  exact List.mem_cons_self

/-- `find_path_fs` skips the slash in front. -/
theorem behindSlash_pathOf (leading : Bool) (c : PathName) (cs : List PathName) :
    (if (pathOf leading (c :: cs)).bytes.head? = some slash then
      (pathOf leading (c :: cs)).drop 1 else pathOf leading (c :: cs)) = joinNames (c :: cs) := by
  cases leading with
  | true => exact CString.eq_of_bytes rfl
  | false =>
    -- no name begins with a slash
    obtain ⟨a, ha, hne⟩ := head?_joinNames c cs
    refine if_neg fun h => hne ?_
    rw [show (pathOf false (c :: cs)).bytes.head? = some a from ha, Option.some_inj] at h
    exact h

theorem pathOf_not_root (leading : Bool) (c : PathName) (cs : List PathName) :
    ¬ ((pathOf leading (c :: cs)).bytes = [] ∨ (pathOf leading (c :: cs)).bytes = [slash]) := by
  have hne : (joinNames (c :: cs)).bytes ≠ [] := fun h =>
    absurd ((joinNames_eq_nil_iff _).mp h) (by simp)
  cases leading with
  | true =>
    rintro (h | h)
    · exact absurd h (List.cons_ne_nil _ _)
    · exact hne (List.cons.inj h).2
  | false =>
    obtain ⟨a, ha, hslash⟩ := head?_joinNames c cs
    rintro (h | h)
    · exact hne h
    · rw [show (joinNames (c :: cs)).bytes = [slash] from h] at ha
      exact hslash (Option.some_inj.mp ha).symm

theorem componentsFrom_pathOf (fuel : ℕ) (leading : Bool) (names : List PathName)
    (hfuel : names.length < fuel) : componentsFrom fuel (pathOf leading names) = cutNames names := by
  induction fuel generalizing leading names with
  | zero => omega
  | succ fuel ih =>
    cases names with
    | nil =>
      rw [componentsFrom, cutNames, if_pos]
      cases leading with
      | true => exact Or.inr rfl
      | false => exact Or.inl rfl
    | cons c cs =>
      rw [componentsFrom, if_neg (pathOf_not_root leading c cs), behindSlash_pathOf, cutNames]
      obtain ⟨rest, hbytes, hrest, hmore, hrest'⟩ := joinNames_cons c cs
      dsimp only
      rw [if_congr (drop_component hbytes hrest) rfl rfl, component_eq_cut hbytes hrest]
      by_cases hlen : c.string.bytes.length ≤ 31
      · rw [if_pos hlen, PathName.cut_of_short hlen]
        refine congrArg _ ?_
        by_cases hcs : cs = []
        · rw [if_neg fun h => hmore.mp h.2 hcs, hcs, cutNames]
        · have hdrop : (joinNames (c :: cs)).drop (c.string.bytes.length + 1) = pathOf false cs := by
            refine CString.eq_of_bytes ?_
            rw [CString.drop]
            dsimp only
            rw [hbytes, hrest' hcs, ← List.drop_drop, List.drop_left]
            rfl
          rw [if_pos ⟨hlen, hmore.mpr hcs⟩, hdrop]
          exact ih false cs (by simpa using hfuel)
      · -- what is left of the name is no slash, so the path ends here
        rw [if_neg hlen, if_neg fun h => hlen h.1]

theorem length_le_joinNames (names : List PathName) :
    names.length ≤ (joinNames names).bytes.length := by
  induction names with
  | nil => exact Nat.zero_le _
  | cons c cs ih =>
    obtain ⟨rest, hbytes, -, -, hrest⟩ := joinNames_cons c cs
    have hpos := List.length_pos_iff.mpr c.nonempty
    rw [hbytes, List.length_append, List.length_cons]
    by_cases hcs : cs = []
    · rw [hcs, List.length_nil]
      omega
    · rw [hrest hcs, List.length_cons]
      omega

/-- **The names that `find_path_fs` looks up** on a path. -/
theorem components_pathOf (leading : Bool) (names : List PathName) :
    components (pathOf leading names) = cutNames names := by
  refine componentsFrom_pathOf _ leading names (Nat.lt_succ_of_le ?_)
  refine Nat.le_trans (length_le_joinNames names) ?_
  cases leading with
  | true => exact Nat.le_succ _
  | false => exact Nat.le_refl _

/-! ### Where they lead -/

section

variable {ν : Type*} (finddirFs : ν → CString → Option ν)

theorem walk_cutNames_iff (n : ν) (names : List PathName) :
    walk finddirFs n (cutNames names) = walk finddirFs n (names.map PathName.string) ↔
      CutLeads finddirFs n names := by
  induction names generalizing n with
  | nil => exact iff_of_true rfl trivial
  | cons c cs ih =>
    rw [cutNames, CutLeads]
    by_cases hlen : c.string.bytes.length ≤ 31
    · rw [if_pos hlen, if_pos hlen, List.map_cons, walk, walk]
      cases hf : finddirFs n c.string with
      | none => exact iff_of_true rfl fun m hm => absurd hm (by simp)
      | some m =>
        rw [Option.bind_some, Option.bind_some, ih m]
        exact ⟨fun h m' hm' => Option.some_inj.mp hm' ▸ h, fun h => h m rfl⟩
    · rw [if_neg hlen, if_neg hlen, walk]
      have hone : ((finddirFs n c.cut).bind fun m => walk finddirFs m []) = finddirFs n c.cut := by
        cases finddirFs n c.cut <;> rfl
      rw [hone]

/-- Names that fit are looked up whole, in every tree. -/
theorem cutLeads_of_short {names : List PathName}
    (h : ∀ c ∈ names, c.string.bytes.length ≤ 31) (n : ν) : CutLeads finddirFs n names := by
  induction names generalizing n with
  | nil => trivial
  | cons c cs ih =>
    rw [CutLeads, if_pos (h c List.mem_cons_self)]
    exact fun m _ => ih (fun d hd => h d (List.mem_cons_of_mem c hd)) m

end

/-- A tree in which all names of up to 31 characters lead on, and no others. -/
def shortNames (n : ℕ) (name : CString) : Option ℕ :=
  if name.bytes.length ≤ 31 then some (n + 1) else none

theorem short_of_cutLeads {names : List PathName} {n : ℕ} (h : CutLeads shortNames n names) :
    ∀ c ∈ names, c.string.bytes.length ≤ 31 := by
  induction names generalizing n with
  | nil => exact fun c hc => absurd hc List.not_mem_nil
  | cons c cs ih =>
    rw [CutLeads] at h
    by_cases hlen : c.string.bytes.length ≤ 31
    · rw [if_pos hlen] at h
      have hrest := ih (h (n + 1) (if_pos hlen))
      intro d hd
      rcases List.mem_cons.mp hd with rfl | hd
      · exact hlen
      · exact hrest d hd
    · -- the first 31 characters lead on, the whole name does not
      have hcut : c.cut.bytes.length ≤ 31 := List.length_take_le ..
      rw [if_neg hlen, List.map_cons, walk, shortNames, shortNames, if_neg hlen, if_pos hcut] at h
      exact absurd h (by simp)

/-- **When a path leads where its names lead**: in one tree, and in all of them. -/
theorem findPathFs_pathOf (leading : Bool) (names : List PathName) :
    (∀ (ν : Type) (finddirFs : ν → CString → Option ν) (root : ν),
      findPathFs finddirFs root (pathOf leading names) =
        walk finddirFs root (names.map PathName.string) ↔ CutLeads finddirFs root names) ∧
      ((∀ (ν : Type) (finddirFs : ν → CString → Option ν) (root : ν),
        findPathFs finddirFs root (pathOf leading names) =
          walk finddirFs root (names.map PathName.string)) ↔
        ∀ c ∈ names, c.string.bytes.length ≤ 31) := by
  have hone : ∀ (ν : Type) (finddirFs : ν → CString → Option ν) (root : ν),
      findPathFs finddirFs root (pathOf leading names) =
        walk finddirFs root (names.map PathName.string) ↔ CutLeads finddirFs root names := by
    intro ν finddirFs root
    rw [findPathFs_eq_walk, components_pathOf, walk_cutNames_iff]
  refine ⟨hone, fun h => ?_, fun h ν finddirFs root => ?_⟩
  · exact short_of_cutLeads ((hone ℕ shortNames 0).mp (h ℕ shortNames 0))
  · exact (hone ν finddirFs root).mpr (cutLeads_of_short finddirFs h root)

/-- A name of 32 characters. -/
def name32 : PathName where
  string := ⟨List.replicate 32 0x61, by decide⟩
  nonempty := by decide
  noSlash := by decide

/-- A file with a name of 32 characters is not found by it. -/
theorem name32_not_found :
    ¬ ∀ (ν : Type) (finddirFs : ν → CString → Option ν) (root : ν) (leading : Bool)
      (names : List PathName), (∀ c ∈ names, c.string.bytes.length ≤ 127) →
        findPathFs finddirFs root (pathOf leading names) =
          walk finddirFs root (names.map PathName.string) := by
  intro h
  have hlookup := h ℕ (fun _ name => if name = name32.string then some 1 else none) 0 true [name32]
    (by decide)
  exact absurd hlookup (by decide)

end MesaOS.FS
