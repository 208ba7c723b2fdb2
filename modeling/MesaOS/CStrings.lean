/-
Strings and bytes behind pointers (`libc/string.cpp`).

Elsewhere a string is a value, and here it is what lies in memory up to the first zero.  The loops
go on for as long as they find no zero, and a loop that writes may move the zero out of its own way.
Distances between pointers are taken as the machine takes them, modulo `2 ^ 32`.

* `copyForward_apply` — a copy from front to back, however the ranges overlap: it repeats what lies
  between the two pointers;
* `strcpyLoop_eq`, `strcpyLoop_none` — copying a string, and doing it into the string itself;
* `strcat_ends_iff` — when a string is appended, and when that never ends;
* `strcmp_eq`, `strncmp_eq`, `memcmp_eq` — comparing strings is comparing their lists of bytes.
-/
import MesaOS.Memmove
import MesaOS.VFS

open MachineWord

namespace MesaOS.Libc

open FS (CString)

/-- `memcpy`: the memory behind it, and what it returns. -/
def memcpy (mem : U32 → U8) (dstptr srcptr size : U32) : (U32 → U8) × U32 :=
  (copyForward dstptr srcptr size.toNat mem, dstptr)

/-- `while (str[len]) len++;` from `len` on. -/
def strlenLoop (mem : U32 → U8) (str : U32) : ℕ → U32 → Option U32
  | 0, _ => none
  | fuel + 1, len => if mem (str + len) ≠ 0 then strlenLoop mem str fuel (len + 1) else some len

/-- `strlen` -/
def strlen (fuel : ℕ) (mem : U32 → U8) (str : U32) : Option U32 := strlenLoop mem str fuel 0

/-- `strcmp` -/
def strcmp (mem : U32 → U8) : ℕ → U32 → U32 → Option ℤ
  | 0, _, _ => none
  | fuel + 1, s1, s2 =>
    if mem s1 ≠ 0 ∧ mem s1 = mem s2 then strcmp mem fuel (s1 + 1) (s2 + 1)
    else some ((mem s1).toNat - (mem s2).toNat)

/-- `strncmp` -/
def strncmp (mem : U32 → U8) : ℕ → U32 → U32 → ℤ
  | 0, _, _ => 0
  | n + 1, s1, s2 =>
    if mem s1 ≠ 0 ∧ mem s1 = mem s2 then strncmp mem n (s1 + 1) (s2 + 1)
    else (mem s1).toNat - (mem s2).toNat

/-- `memcmp`, from byte `i` on. -/
def memcmpFrom (mem : U32 → U8) (p1 p2 : U32) : ℕ → ℕ → ℤ
  | 0, _ => 0
  | n + 1, i =>
    if mem (place p1 i) < mem (place p2 i) then -1
    else if mem (place p1 i) > mem (place p2 i) then 1
    else memcmpFrom mem p1 p2 n (i + 1)

/-- `memcmp` -/
def memcmp (mem : U32 → U8) (s1 s2 n : U32) : ℤ := memcmpFrom mem s1 s2 n.toNat 0

/-- `while ((*d++ = *src++));` -/
def strcpyLoop : ℕ → (U32 → U8) → U32 → U32 → Option (U32 → U8)
  | 0, _, _, _ => none
  | fuel + 1, mem, d, src =>
    let c := mem src
    let mem := Function.update mem d c
    if c ≠ 0 then strcpyLoop fuel mem (d + 1) (src + 1) else some mem

/-- `strcpy` -/
def strcpy (fuel : ℕ) (mem : U32 → U8) (dest src : U32) : Option ((U32 → U8) × U32) :=
  (strcpyLoop fuel mem dest src).map fun mem => (mem, dest)

/-- `while (*d) d++;` -/
def endLoop (mem : U32 → U8) : ℕ → U32 → Option U32
  | 0, _ => none
  | fuel + 1, d => if mem d ≠ 0 then endLoop mem fuel (d + 1) else some d

/-- `strcat` -/
def strcat (fuel : ℕ) (mem : U32 → U8) (dest src : U32) : Option ((U32 → U8) × U32) :=
  (endLoop mem fuel dest).bind fun d => (strcpyLoop fuel mem d src).map fun mem => (mem, dest)

/-- `for (…; i < n && src[i] != '\0'; i++) dest[i] = src[i];` with `n - i` bytes to go: the memory
behind it and the index. -/
def copyUntilNul (dest src : U32) : ℕ → ℕ → (U32 → U8) → (U32 → U8) × ℕ
  | 0, i, mem => (mem, i)
  | n + 1, i, mem =>
    if mem (place src i) ≠ 0 then
      copyUntilNul dest src n (i + 1) (Function.update mem (place dest i) (mem (place src i)))
    else (mem, i)

/-- `for (; i < n; i++) dest[i] = '\0';` with `n - i` bytes to go. -/
def fillNul (dest : U32) : ℕ → ℕ → (U32 → U8) → U32 → U8
  | 0, _, mem => mem
  | n + 1, i, mem => fillNul dest n (i + 1) (Function.update mem (place dest i) 0)

/-- `strncpy` -/
def strncpy (mem : U32 → U8) (dest src n : U32) : (U32 → U8) × U32 :=
  let (mem, i) := copyUntilNul dest src n.toNat 0 mem
  (fillNul dest (n.toNat - i) i mem, dest)

/-- `strncat` -/
def strncat (fuel : ℕ) (mem : U32 → U8) (dest src n : U32) : Option ((U32 → U8) × U32) :=
  (endLoop mem fuel dest).map fun d =>
    let (mem, i) := copyUntilNul d src n.toNat 0 mem
    (Function.update mem (place d i) 0, dest)

/-- `strchr` -/
def strchr (mem : U32 → U8) (c : U32) : ℕ → U32 → Option U32
  | 0, _ => none
  | fuel + 1, s =>
    if mem s ≠ c.setWidth 8 then if mem s = 0 then some 0 else strchr mem c fuel (s + 1)
    else some s

/-- A string lies at an address, its terminating zero behind it. -/
def StringAt (mem : U32 → U8) (p : U32) (l : List U8) : Prop :=
  ∀ j ≤ l.length, mem (place p j) = bufferOf l j

/-! ### Places -/

@[simp] theorem place_zero (p : U32) : place p 0 = p := BitVec.add_zero p

@[simp] theorem place_add_one (p : U32) (i : ℕ) : place p i + 1 = place p (i + 1) := place_place p i 1

theorem place_one (p : U32) (i : ℕ) : place (p + 1) i = place p (i + 1) := by
  have h := place_place p 1 i
  rwa [Nat.add_comm 1 i] at h

/-- The places behind a pointer come round after all the memory. -/
theorem place_eq_iff (p : U32) {i j : ℕ} : place p i = place p j ↔ i % 2 ^ 32 = j % 2 ^ 32 := by
  rw [place, place, BitVec.add_right_inj, ← BitVec.toNat_inj, BitVec.toNat_ofNat,
    BitVec.toNat_ofNat]

/-- Places that are apart by less than all the memory. -/
theorem place_ne_of_lt (p : U32) {i j : ℕ} (hlt : i < j) (hnear : j < i + 2 ^ 32) :
    place p i ≠ place p j := by
  intro h
  rw [place_eq_iff] at h
  omega

/-- Every address is a place behind every pointer. -/
theorem place_sub (d s : U32) : place s (d - s).toNat = d := by
  rw [place, BitVec.ofNat_toNat, BitVec.setWidth_eq, BitVec.add_comm, BitVec.sub_add_cancel]

variable {mem : U32 → U8} {p q d s : U32} {l l' : List U8} {e i k n : ℕ}

/-! ### Strings in memory -/

theorem StringAt.nul (h : StringAt mem p l) : mem (place p l.length) = 0 := by
  rw [h _ (Nat.le_refl _), bufferOf, List.getD_eq_default _ _ (Nat.le_refl _)]

theorem StringAt.ne_nul (h : StringAt mem p l) (hl : 0#8 ∉ l) (hi : i < l.length) :
    mem (place p i) ≠ 0 := by
  intro hzero
  rw [h _ (Nat.le_of_lt hi), bufferOf, List.getD_eq_getElem _ _ hi] at hzero
  exact hl (by simpa [hzero] using List.getElem_mem hi)

/-- A string is shorter than the memory: beyond it there would be its own beginning. -/
theorem StringAt.length_lt (h : StringAt mem p l) (hl : 0#8 ∉ l) : l.length < 2 ^ 32 := by
  by_contra hge
  have haround : place p (l.length - 2 ^ 32) = place p l.length := by
    rw [place_eq_iff]
    omega
  have hne := h.ne_nul hl (i := l.length - 2 ^ 32) (by omega)
  rw [haround] at hne
  exact hne h.nul

theorem StringAt.tail {c : U8} (h : StringAt mem p (c :: l)) : StringAt mem (p + 1) l := by
  intro j hj
  rw [place_one]
  exact h (j + 1) (Nat.succ_le_succ hj)

theorem StringAt.head {c : U8} (h : StringAt mem p (c :: l)) : mem p = c := by
  have h0 := h 0 (Nat.zero_le _)
  rwa [place_zero] at h0

theorem StringAt.head_nil (h : StringAt mem p []) : mem p = 0 := by
  have h0 := h.nul
  rwa [List.length_nil, place_zero] at h0

/-! ### Copying from front to back -/

theorem copyForward_outside {a : U32} (ha : ∀ i < n, a ≠ place d i) :
    copyForward d s n mem a = mem a := by
  induction n with
  | zero => rfl
  | succ k ih =>
    rw [copyForward, Function.update_of_ne (ha k (Nat.lt_succ_self k))]
    exact ih fun i hi => ha i (Nat.lt_succ_of_lt hi)

/-- What is read at each step, and what has been written by then: the bytes between the two
pointers over and over again. -/
theorem copyForward_repeats (he : e < 2 ^ 32) (hn : n ≤ 2 ^ 32) (mem : U32 → U8) (s : U32) :
    (∀ i < n, copyForward (place s e) s n mem (place s (e + i)) = mem (place s (i % e))) ∧
      (n < 2 ^ 32 → copyForward (place s e) s n mem (place s n) = mem (place s (n % e))) := by
  -- the byte that is read lies before the copies, or is one of them
  have hread : ∀ n < 2 ^ 32,
      (∀ i < n, copyForward (place s e) s n mem (place s (e + i)) = mem (place s (i % e))) →
        copyForward (place s e) s n mem (place s n) = mem (place s (n % e)) := by
    intro n hn hwritten
    rcases Nat.eq_zero_or_pos e with rfl | hpos
    · rw [Nat.mod_zero]
      refine copyForward_outside fun i hi => ?_
      rw [place_place, Nat.zero_add]
      exact (place_ne_of_lt s hi (by omega)).symm
    by_cases hne : n < e
    · rw [Nat.mod_eq_of_lt hne]
      refine copyForward_outside fun i hi => ?_
      rw [place_place]
      exact place_ne_of_lt s (by omega) (by omega)
    · have hback := hwritten (n - e) (by omega)
      rwa [Nat.add_sub_cancel' (Nat.not_lt.mp hne), ← Nat.mod_eq_sub_mod (Nat.not_lt.mp hne)]
        at hback
  induction n with
  | zero => exact ⟨fun i hi => absurd hi (Nat.not_lt_zero i), fun hn => hread 0 hn fun i hi =>
      absurd hi (Nat.not_lt_zero i)⟩
  | succ k ih =>
    have hwritten : ∀ i < k + 1,
        copyForward (place s e) s (k + 1) mem (place s (e + i)) = mem (place s (i % e)) := by
      intro i hi
      obtain ⟨hbefore, hnext⟩ := ih (by omega)
      rw [copyForward, place_place]
      rcases Nat.lt_succ_iff_lt_or_eq.mp hi with hlt | rfl
      · rw [Function.update_of_ne (place_ne_of_lt s (by omega) (by omega))]
        exact hbefore i hlt
      · rw [Function.update_self]
        exact hnext (by omega)
    exact ⟨hwritten, fun hn => hread (k + 1) hn hwritten⟩

theorem copyForward_apply (hn : n ≤ 2 ^ 32) (mem : U32 → U8) (d s : U32) (hi : i < n) :
    copyForward d s n mem (place d i) = mem (place s (i % (d - s).toNat)) := by
  have h := (copyForward_repeats (d - s).isLt hn mem s).1 i hi
  rwa [← place_place, place_sub] at h

theorem copyForward_source (hn : n < 2 ^ 32) (mem : U32 → U8) (d s : U32) :
    copyForward d s n mem (place s n) = mem (place s (n % (d - s).toNat)) := by
  have h := (copyForward_repeats (d - s).isLt (Nat.le_of_lt hn) mem s).2 hn
  rwa [place_sub] at h

/-- **`memcpy` repeats** the bytes between its two pointers until it has written enough, and changes
nothing else.  So it is a copy, whatever is in the memory, if and only if the destination does not
begin among the bytes behind the first one of the source. -/
theorem memcpy_repeats (dst src size : U32) :
    (∀ mem, (∀ i < size.toNat, (memcpy mem dst src size).1 (place dst i) =
          mem (place src (i % (dst - src).toNat))) ∧
        ∀ a, (∀ i < size.toNat, a ≠ place dst i) → (memcpy mem dst src size).1 a = mem a) ∧
      ((∀ mem, Moved mem (memcpy mem dst src size).1 dst src 0 size.toNat) ↔
        ¬ (0 < (dst - src).toNat ∧ (dst - src).toNat < size.toNat)) := by
  have hsize : size.toNat < 2 ^ 32 := size.isLt
  have hcopy : ∀ mem, ∀ i < size.toNat, (memcpy mem dst src size).1 (place dst i) =
      mem (place src (i % (dst - src).toNat)) := fun mem _ hi =>
    copyForward_apply (Nat.le_of_lt hsize) mem dst src hi
  have hframe : ∀ mem a, (∀ i < size.toNat, a ≠ place dst i) →
      (memcpy mem dst src size).1 a = mem a := fun mem _ ha => copyForward_outside ha
  refine ⟨fun mem => ⟨hcopy mem, hframe mem⟩, ?_⟩
  constructor
  · -- a one in the first byte is there twice
    rintro hmoved ⟨hpos, hinside⟩
    let mem : U32 → U8 := fun a => if a = src then 1 else 0
    have hcopied := (hmoved mem).copied _ (Nat.zero_le _) hinside
    rw [hcopy mem _ hinside, Nat.mod_self, place_zero, place_sub] at hcopied
    have hne : dst ≠ src := by
      intro heq
      rw [heq, BitVec.sub_self] at hpos
      exact Nat.lt_irrefl 0 hpos
    simp [mem, hne] at hcopied
  · intro hapart mem
    refine ⟨fun i _ hi => ?_, fun a ha => hframe mem a fun i hi => ha i (Nat.zero_le i) hi⟩
    rw [hcopy mem i hi]
    rcases Nat.eq_zero_or_pos (dst - src).toNat with hzero | hpos
    · rw [hzero, Nat.mod_zero]
    · rw [Nat.mod_eq_of_lt (Nat.lt_of_lt_of_le hi (Nat.not_lt.mp fun h => hapart ⟨hpos, h⟩))]

/-! ### Copying a string -/

/-- The first `i` turns of the loop, which found no zero. -/
theorem strcpyLoop_skip (fuel : ℕ) (mem : U32 → U8) (d s : U32) (hi : i < 2 ^ 32)
    (h : ∀ j < i, mem (place s (j % (d - s).toNat)) ≠ 0) :
    strcpyLoop (fuel + i) mem d s =
      strcpyLoop fuel (copyForward d s i mem) (place d i) (place s i) := by
  induction i generalizing fuel with
  | zero => simp [copyForward]
  | succ k ih =>
    have hk : k < 2 ^ 32 := Nat.lt_of_succ_lt hi
    have hread : copyForward d s k mem (place s k) ≠ 0 := by
      rw [copyForward_source hk]
      exact h k (Nat.lt_succ_self k)
    rw [show fuel + (k + 1) = fuel + 1 + k by omega,
      ih (fuel + 1) hk fun j hj => h j (Nat.lt_succ_of_lt hj), strcpyLoop, if_pos hread,
      place_add_one, place_add_one, copyForward]

/-- The end of a string that lies outside of what is written before it is read. -/
def Apart (d s : U32) (k : ℕ) : Prop := ¬ (0 < (d - s).toNat ∧ (d - s).toNat ≤ k)

theorem Apart.mod (h : Apart d s k) (hi : i ≤ k) : i % (d - s).toNat = i := by
  rcases Nat.eq_zero_or_pos (d - s).toNat with hzero | hpos
  · rw [hzero, Nat.mod_zero]
  · exact Nat.mod_eq_of_lt (Nat.lt_of_le_of_lt hi (Nat.lt_of_not_le fun hle => h ⟨hpos, hle⟩))

/-- The loop ends behind the terminating zero. -/
theorem strcpyLoop_eq (h : StringAt mem s l) (hl : 0#8 ∉ l) (hapart : Apart d s l.length)
    (fuel : ℕ) : strcpyLoop fuel mem d s =
      if l.length < fuel then some (copyForward d s (l.length + 1) mem) else none := by
  have hlength := h.length_lt hl
  have hchars : ∀ j < l.length, mem (place s (j % (d - s).toNat)) ≠ 0 := by
    intro j hj
    rw [hapart.mod (Nat.le_of_lt hj)]
    exact h.ne_nul hl hj
  by_cases hfuel : l.length < fuel
  · obtain ⟨more, rfl⟩ := Nat.exists_eq_add_of_lt hfuel
    have hnul : copyForward d s l.length mem (place s l.length) = 0 := by
      rw [copyForward_source hlength, hapart.mod (Nat.le_refl _)]
      exact h.nul
    rw [if_pos hfuel, show l.length + more + 1 = more + 1 + l.length by omega,
      strcpyLoop_skip _ _ _ _ hlength hchars, strcpyLoop, if_neg (not_not_intro hnul), copyForward]
  · have hskip := strcpyLoop_skip 0 mem d s (i := fuel) (by omega) fun j hj => hchars j (by omega)
    rw [Nat.zero_add] at hskip
    rw [if_neg hfuel, hskip, strcpyLoop]

/-- Where the zero is overwritten before it is read, none is ever read: the bytes up to the place
that is written next are not zero. -/
theorem strcpyLoop_none (fuel : ℕ) (hpos : 0 < e) (h : ∀ j < e, mem (place s j) ≠ 0) :
    strcpyLoop fuel mem (place s e) s = none := by
  induction fuel generalizing mem s with
  | zero => rfl
  | succ fuel ih =>
    have hread : mem s ≠ 0 := by
      have hfirst := h 0 hpos
      rwa [place_zero] at hfirst
    rw [strcpyLoop, if_pos hread, place_add_one, ← place_one]
    refine ih fun j hj => ?_
    rw [place_one]
    by_cases hwritten : place s (j + 1) = place s e
    · rw [hwritten, Function.update_self]
      exact hread
    · rw [Function.update_of_ne hwritten]
      refine h (j + 1) (Nat.lt_of_le_of_ne hj fun heq => ?_)
      rw [heq] at hwritten
      exact hwritten rfl

theorem strcpyLoop_eq_none (h : StringAt mem s l) (hl : 0#8 ∉ l) (hpos : 0 < (d - s).toNat)
    (hinside : (d - s).toNat ≤ l.length) (fuel : ℕ) : strcpyLoop fuel mem d s = none := by
  have hnone : strcpyLoop fuel mem (place s (d - s).toNat) s = none :=
    strcpyLoop_none fuel hpos fun j hj => h.ne_nul hl (Nat.lt_of_lt_of_le hj hinside)
  rwa [place_sub] at hnone

/-- The copy. -/
theorem StringAt.copyForward (h : StringAt mem s l) (hl : 0#8 ∉ l)
    (hapart : Apart d s l.length) : StringAt (copyForward d s (l.length + 1) mem) d l := by
  intro j hj
  rw [copyForward_apply (h.length_lt hl) _ _ _ (Nat.lt_succ_of_le hj), hapart.mod hj]
  exact h j hj

theorem strcpy_eq (h : StringAt mem s l) (hl : 0#8 ∉ l) (hapart : Apart d s l.length)
    (fuel : ℕ) : strcpy fuel mem d s =
      if l.length < fuel then some (Libc.copyForward d s (l.length + 1) mem, d) else none := by
  rw [strcpy, strcpyLoop_eq h hl hapart]
  split
  · rfl
  · rfl

/-! ### Appending a string -/

theorem endLoop_eq (h : StringAt mem p l) (hl : 0#8 ∉ l) (fuel : ℕ) :
    endLoop mem fuel p = if l.length < fuel then some (place p l.length) else none := by
  induction l generalizing p fuel with
  | nil =>
    cases fuel with
    | zero => rfl
    | succ fuel =>
      rw [endLoop, if_neg (not_not_intro h.head_nil), List.length_nil, if_pos (Nat.succ_pos fuel),
        place_zero]
  | cons c l ih =>
    obtain ⟨hc, hl⟩ := not_or.mp (mt List.mem_cons.mpr hl)
    cases fuel with
    | zero => rfl
    | succ fuel =>
      have hchar : mem p ≠ 0 := by
        rw [h.head]
        exact fun h0 => hc h0.symm
      rw [endLoop, if_pos hchar, ih h.tail hl, place_one, List.length_cons]
      simp

/-- `strlen` counts what the other loop goes over. -/
theorem strlenLoop_eq (mem : U32 → U8) (str : U32) (fuel : ℕ) (len : U32) :
    strlenLoop mem str fuel len = (endLoop mem fuel (str + len)).map fun d => d - str := by
  induction fuel generalizing len with
  | zero => rfl
  | succ fuel ih =>
    rw [strlenLoop, endLoop]
    by_cases hchar : mem (str + len) ≠ 0
    · rw [if_pos hchar, if_pos hchar, ih, BitVec.add_assoc]
    · rw [if_neg hchar, if_neg hchar, Option.map_some, BitVec.add_comm, BitVec.add_sub_cancel]

theorem strlen_eq (h : StringAt mem p l) (hl : 0#8 ∉ l) (fuel : ℕ) : strlen fuel mem p =
    if l.length < fuel then some (BitVec.ofNat 32 l.length) else none := by
  rw [strlen, strlenLoop_eq, show p + 0 = p from BitVec.add_zero p, endLoop_eq h hl]
  split
  · rw [Option.map_some, place, BitVec.add_comm, BitVec.add_sub_cancel]
  · rfl

/-- Two strings that are apart lie in the memory one beside the other. -/
theorem length_add_lt (ht : StringAt mem p l') (hl' : 0#8 ∉ l') (h : StringAt mem s l)
    (hl : 0#8 ∉ l) (hapart : Apart (place p l'.length) s l.length) :
    l'.length + l.length < 2 ^ 32 := by
  by_contra hge
  have hend : place s (place p l'.length - s).toNat = place p l'.length := place_sub _ _
  generalize hdist : (place p l'.length - s).toNat = dist at hend
  have hlt : dist < 2 ^ 32 := hdist ▸ (place p l'.length - s).isLt
  rcases Nat.eq_zero_or_pos dist with rfl | hpos
  · -- the string begins at a zero, so it is empty
    rw [place_zero] at hend
    have hempty : l.length = 0 := by
      by_contra hne
      have hfirst := h.ne_nul hl (Nat.pos_of_ne_zero hne)
      rw [place_zero, hend] at hfirst
      exact hfirst ht.nul
    have := ht.length_lt hl'
    omega
  · -- its zero would be a character of the other string
    have hbeyond : l.length < dist := by
      by_contra hle
      rw [Apart, hdist] at hapart
      exact hapart ⟨hpos, Nat.not_lt.mp hle⟩
    have hsame : place s l.length = place p (l'.length - (dist - l.length)) := by
      rw [← BitVec.add_left_inj (BitVec.ofNat 32 (dist - l.length))]
      change place (place s l.length) _ = place (place p _) _
      rw [place_place, place_place, Nat.add_sub_cancel' (Nat.le_of_lt hbeyond),
        Nat.sub_add_cancel (by omega), hend]
    have hchar := ht.ne_nul hl' (i := l'.length - (dist - l.length)) (by omega)
    rw [← hsame] at hchar
    exact hchar h.nul

theorem strcat_eq (ht : StringAt mem d l') (hl' : 0#8 ∉ l') (h : StringAt mem s l) (hl : 0#8 ∉ l)
    (hapart : Apart (place d l'.length) s l.length) (fuel : ℕ) : strcat fuel mem d s =
      if l'.length < fuel ∧ l.length < fuel then
        some (copyForward (place d l'.length) s (l.length + 1) mem, d)
      else none := by
  rw [strcat, endLoop_eq ht hl']
  by_cases hend : l'.length < fuel
  · rw [if_pos hend, Option.bind_some, strcpyLoop_eq h hl hapart]
    by_cases hfuel : l.length < fuel
    · rw [if_pos hfuel, if_pos ⟨hend, hfuel⟩, Option.map_some]
    · rw [if_neg hfuel, if_neg fun h => hfuel h.2, Option.map_none]
  · rw [if_neg hend, if_neg fun h => hend h.1, Option.bind_none]

/-- Both strings in a row. -/
theorem StringAt.append (ht : StringAt mem d l') (hl' : 0#8 ∉ l') (h : StringAt mem s l)
    (hl : 0#8 ∉ l) (hapart : Apart (place d l'.length) s l.length) :
    StringAt (Libc.copyForward (place d l'.length) s (l.length + 1) mem) d (l' ++ l) := by
  have hroom := length_add_lt ht hl' h hl hapart
  intro j hj
  rw [List.length_append] at hj
  by_cases hfirst : j < l'.length
  · rw [copyForward_outside, bufferOf_append_left _ _ hfirst]
    · exact ht j (Nat.le_of_lt hfirst)
    · intro i hi
      rw [place_place]
      exact place_ne_of_lt d (by omega) (by omega)
  · obtain ⟨j, rfl⟩ := Nat.exists_eq_add_of_le (Nat.not_lt.mp hfirst)
    rw [bufferOf_append, ← place_place]
    exact h.copyForward hl hapart j (by omega)

/-- **A string is appended unless it goes on where it is appended.**  Then the loop never ends;
otherwise the first string goes on with the second one, and nothing else has changed. -/
theorem strcat_ends_iff {dest src : U32} {t s : CString} (ht : StringAt mem dest t.bytes)
    (hs : StringAt mem src s.bytes) :
    let d := place dest t.bytes.length
    ((∃ fuel, (strcat fuel mem dest src).isSome) ↔
        ¬ (0 < (d - src).toNat ∧ (d - src).toNat ≤ s.bytes.length)) ∧
      ∀ fuel after, strcat fuel mem dest src = some after →
        after.2 = dest ∧ StringAt after.1 dest (t.append s).bytes ∧
          ∀ a, (∀ i ≤ s.bytes.length, a ≠ place d i) → after.1 a = mem a := by
  intro d
  by_cases hapart : Apart d src s.bytes.length
  · have heq := strcat_eq ht t.noNul hs s.noNul hapart
    refine ⟨iff_of_true ⟨t.bytes.length + s.bytes.length + 1, ?_⟩ hapart, ?_⟩
    · rw [heq, if_pos ⟨by omega, by omega⟩]
      rfl
    · intro fuel after hafter
      rw [heq] at hafter
      split at hafter
      case isTrue =>
        obtain rfl := Option.some.inj hafter
        refine ⟨rfl, ht.append t.noNul hs s.noNul hapart, fun a ha => ?_⟩
        exact copyForward_outside fun i hi => ha i (Nat.le_of_lt_succ hi)
      case isFalse => exact absurd hafter (Option.some_ne_none _).symm
  · have hnone : ∀ fuel, strcat fuel mem dest src = none := by
      intro fuel
      obtain ⟨hpos, hinside⟩ := not_not.mp hapart
      rw [strcat, endLoop_eq ht t.noNul]
      split
      · rw [Option.bind_some, strcpyLoop_eq_none hs s.noNul hpos hinside, Option.map_none]
      · rfl
    refine ⟨iff_of_false ?_ hapart, ?_⟩
    · rintro ⟨fuel, hsome⟩
      rw [hnone] at hsome
      exact absurd hsome Bool.false_ne_true
    · intro fuel after hafter
      rw [hnone] at hafter
      exact absurd hafter (Option.some_ne_none _).symm

/-- A path and what is appended to it, in one memory. -/
theorem strcat_ends_iff_path :
    let mem : U32 → U8 := fun a => bufferOf [0x2F, 0x00, 0x61, 0x00] a.toNat
    let t : CString := ⟨[0x2F], by decide⟩
    let s : CString := ⟨[0x61], by decide⟩
    let d := place 0 t.bytes.length
    ((∃ fuel, (strcat fuel mem 0 2).isSome) ↔
        ¬ (0 < (d - 2).toNat ∧ (d - 2).toNat ≤ s.bytes.length)) ∧
      ∀ fuel after, strcat fuel mem 0 2 = some after →
        after.2 = 0 ∧ StringAt after.1 0 (t.append s).bytes ∧
          ∀ a, (∀ i ≤ s.bytes.length, a ≠ place d i) → after.1 a = mem a := by
  intro mem t s d
  have ht : StringAt mem 0 t.bytes := by unfold StringAt; decide
  have hs : StringAt mem 2 s.bytes := by unfold StringAt; decide
  exact strcat_ends_iff ht hs

/-! ### Comparing strings -/

/-- The difference of the first two bytes that are not the same, where a string that has ended goes
on with zero. -/
def difference : List U8 → List U8 → ℤ
  | [], [] => 0
  | [], c :: _ => -c.toNat
  | c :: _, [] => c.toNat
  | c :: l, c' :: l' => if c = c' then difference l l' else c.toNat - c'.toNat

theorem difference_comm (l l' : List U8) : difference l' l = -difference l l' := by
  induction l generalizing l' with
  | nil => cases l' <;> simp [difference]
  | cons c l ih =>
    cases l' with
    | nil => rfl
    | cons c' l' =>
      rw [difference, difference]
      by_cases heq : c = c'
      · rw [if_pos heq.symm, if_pos heq, ih]
      · rw [if_neg (Ne.symm heq), if_neg heq, Int.neg_sub]

/-- The difference is negative just where the first string comes first in the dictionary. -/
theorem difference_neg_iff (h : 0#8 ∉ l'.drop l.length) : difference l l' < 0 ↔ l < l' := by
  induction l generalizing l' with
  | nil =>
    cases l' with
    | nil => simp [difference]
    | cons c' l' =>
      have hc : c' ≠ 0 := by
        intro hzero
        exact h (by simp [hzero])
      have hpos : 0 < c'.toNat := Nat.pos_of_ne_zero fun hzero => hc (BitVec.eq_of_toNat_eq hzero)
      simp only [difference, List.nil_lt_cons, iff_true]
      omega
  | cons c l ih =>
    cases l' with
    | nil =>
      simp only [difference, List.not_lt_nil, iff_false]
      omega
    | cons c' l' =>
      rw [difference, List.cons_lt_cons_iff, BitVec.lt_def]
      by_cases heq : c = c'
      · rw [if_pos heq, ih h, heq]
        simp
      · rw [if_neg heq]
        simp only [heq, false_and, or_false]
        omega

/-- The difference is zero just where the strings are the same. -/
theorem difference_eq_zero_iff (h : 0#8 ∉ l'.drop l.length) (h' : 0#8 ∉ l.drop l'.length) :
    difference l l' = 0 ↔ l = l' := by
  have hneg := difference_neg_iff h
  have hpos := difference_neg_iff h'
  rw [difference_comm] at hpos
  constructor
  · intro hzero
    have hnot : ¬ l < l' ∧ ¬ l' < l := by
      rw [← hneg, ← hpos]
      omega
    exact List.le_antisymm hnot.2 hnot.1
  · rintro rfl
    have hirrefl : ¬ l < l := List.lt_irrefl l
    rw [← hneg] at hirrefl
    have := difference_comm l l
    omega

/-- The loop ends at the latest behind the end of the first string. -/
theorem strcmp_eq (h : StringAt mem p l) (hl : 0#8 ∉ l) (h' : StringAt mem q l') {fuel : ℕ}
    (hfuel : l.length < fuel) : strcmp mem fuel p q = some (difference l l') := by
  induction l generalizing p q l' fuel with
  | nil =>
    obtain ⟨fuel, rfl⟩ := Nat.exists_eq_succ_of_ne_zero (Nat.ne_of_gt hfuel)
    rw [strcmp, if_neg fun hne => hne.1 h.head_nil, h.head_nil]
    cases l' with
    | nil => rw [h'.head_nil]; rfl
    | cons c' l' => rw [h'.head]; simp [difference]
  | cons c l ih =>
    obtain ⟨hc, hl⟩ := not_or.mp (mt List.mem_cons.mpr hl)
    obtain ⟨fuel, rfl⟩ := Nat.exists_eq_succ_of_ne_zero (Nat.ne_of_gt (Nat.zero_lt_of_lt hfuel))
    rw [strcmp, h.head]
    cases l' with
    | nil =>
      rw [h'.head_nil, if_neg fun hsame => hc hsame.2.symm]
      simp [difference]
    | cons c' l' =>
      rw [h'.head, difference]
      by_cases heq : c = c'
      · rw [if_pos ⟨fun h0 => hc h0.symm, heq⟩, if_pos heq]
        exact ih h.tail hl h'.tail (Nat.lt_of_succ_lt_succ hfuel)
      · rw [if_neg fun hsame => heq hsame.2, if_neg heq]

theorem strncmp_eq (h : StringAt mem p l) (hl : 0#8 ∉ l) (h' : StringAt mem q l') (n : ℕ) :
    strncmp mem n p q = difference (l.take n) (l'.take n) := by
  induction n generalizing p q l l' with
  | zero => rfl
  | succ n ih =>
    rw [strncmp]
    cases l with
    | nil =>
      rw [if_neg fun hne => hne.1 h.head_nil, h.head_nil]
      cases l' with
      | nil => rw [h'.head_nil]; rfl
      | cons c' l' => rw [h'.head]; simp [difference]
    | cons c l =>
      obtain ⟨hc, hl⟩ := not_or.mp (mt List.mem_cons.mpr hl)
      rw [h.head]
      cases l' with
      | nil =>
        rw [h'.head_nil, if_neg fun hsame => hc hsame.2.symm]
        simp [difference]
      | cons c' l' =>
        rw [h'.head, List.take_succ_cons, List.take_succ_cons, difference]
        by_cases heq : c = c'
        · rw [if_pos ⟨fun h0 => hc h0.symm, heq⟩, if_pos heq]
          exact ih h.tail hl h'.tail
        · rw [if_neg fun hsame => heq hsame.2, if_neg heq]

/-- The `n` bytes from byte `i` on. -/
def bytesFrom (mem : U32 → U8) (p : U32) (i n : ℕ) : List U8 :=
  (List.range' i n).map fun j => mem (place p j)

theorem memcmpFrom_eq (mem : U32 → U8) (p q : U32) (n i : ℕ) :
    memcmpFrom mem p q n i = (difference (bytesFrom mem p i n) (bytesFrom mem q i n)).sign := by
  induction n generalizing i with
  | zero => rfl
  | succ n ih =>
    have hcons : ∀ p, bytesFrom mem p i (n + 1) = mem (place p i) :: bytesFrom mem p (i + 1) n :=
      fun _ => rfl
    rw [memcmpFrom, hcons, hcons, difference]
    simp only [gt_iff_lt, BitVec.lt_def]
    by_cases heq : mem (place p i) = mem (place q i)
    · rw [heq, if_neg (Nat.lt_irrefl _), if_neg (Nat.lt_irrefl _), if_pos rfl]
      exact ih (i + 1)
    · have hne : (mem (place p i)).toNat ≠ (mem (place q i)).toNat :=
        fun h => heq (BitVec.eq_of_toNat_eq h)
      rw [if_neg heq]
      by_cases hlt : (mem (place p i)).toNat < (mem (place q i)).toNat
      · rw [if_pos hlt, Int.sign_eq_neg_one_of_neg (by omega)]
      · rw [if_neg hlt, if_pos (by omega), Int.sign_eq_one_of_pos (by omega)]

/-- **Comparing strings** looks for the first difference between unsigned bytes: a result is
negative, zero or positive as the one string comes before the other one, is the same or comes
behind it, with `strncmp` for their first `n` bytes. -/
theorem strcmp_orders {s t : CString} (hs : StringAt mem p s.bytes) (ht : StringAt mem q t.bytes) :
    (∃ r : ℤ, (∀ fuel, s.bytes.length < fuel → strcmp mem fuel p q = some r) ∧
        (r < 0 ↔ s.bytes < t.bytes) ∧ (r = 0 ↔ s = t) ∧ (0 < r ↔ t.bytes < s.bytes)) ∧
      ∀ n, (strncmp mem n p q < 0 ↔ s.bytes.take n < t.bytes.take n) ∧
        (strncmp mem n p q = 0 ↔ s.bytes.take n = t.bytes.take n) ∧
        (0 < strncmp mem n p q ↔ t.bytes.take n < s.bytes.take n) := by
  have hneg : ∀ {l l' : List U8}, 0#8 ∉ l' → (difference l l' < 0 ↔ l < l') := fun hl' =>
    difference_neg_iff (mt List.mem_of_mem_drop hl')
  have hpos : ∀ {l l' : List U8}, 0#8 ∉ l → (0 < difference l l' ↔ l' < l) := by
    intro l l' hl
    rw [← hneg hl, difference_comm]
    omega
  have hzero : ∀ {l l' : List U8}, 0#8 ∉ l → 0#8 ∉ l' → (difference l l' = 0 ↔ l = l') :=
    fun hl hl' => difference_eq_zero_iff (mt List.mem_of_mem_drop hl') (mt List.mem_of_mem_drop hl)
  constructor
  · refine ⟨difference s.bytes t.bytes, fun fuel => strcmp_eq hs s.noNul ht, hneg t.noNul, ?_,
      hpos s.noNul⟩
    rw [hzero s.noNul t.noNul]
    constructor
    · intro heq
      cases s
      cases t
      simpa using heq
    · rintro rfl
      rfl
  · intro n
    have hs' := mt (List.mem_of_mem_take (i := n)) s.noNul
    have ht' := mt (List.mem_of_mem_take (i := n)) t.noNul
    rw [strncmp_eq hs s.noNul ht]
    exact ⟨hneg ht', hzero hs' ht', hpos hs'⟩

/-- Two names of which the one begins with the other. -/
theorem strcmp_orders_prefix :
    let mem : U32 → U8 := fun a => bufferOf [0x61, 0x00, 0x61, 0x62, 0x00] a.toNat
    let s : CString := ⟨[0x61], by decide⟩
    let t : CString := ⟨[0x61, 0x62], by decide⟩
    (∃ r : ℤ, (∀ fuel, s.bytes.length < fuel → strcmp mem fuel 0 2 = some r) ∧
        (r < 0 ↔ s.bytes < t.bytes) ∧ (r = 0 ↔ s = t) ∧ (0 < r ↔ t.bytes < s.bytes)) ∧
      ∀ n, (strncmp mem n 0 2 < 0 ↔ s.bytes.take n < t.bytes.take n) ∧
        (strncmp mem n 0 2 = 0 ↔ s.bytes.take n = t.bytes.take n) ∧
        (0 < strncmp mem n 0 2 ↔ t.bytes.take n < s.bytes.take n) :=
  strcmp_orders (p := 0) (q := 2) (s := ⟨[0x61], by decide⟩) (t := ⟨[0x61, 0x62], by decide⟩)
    (by unfold StringAt; decide) (by unfold StringAt; decide)

/-- `memcmp` tells only which of the three it is, and does not stop at a zero. -/
theorem memcmp_orders (mem : U32 → U8) (p q n : U32) :
    let l := bytesFrom mem p 0 n.toNat
    let l' := bytesFrom mem q 0 n.toNat
    (memcmp mem p q n = -1 ↔ l < l') ∧ (memcmp mem p q n = 0 ↔ l = l') ∧
      (memcmp mem p q n = 1 ↔ l' < l) := by
  intro l l'
  have hlength : l.length = l'.length := by simp [l, l', bytesFrom]
  have hdrop : 0#8 ∉ l'.drop l.length := by
    rw [hlength, List.drop_length]
    exact List.not_mem_nil
  have hdrop' : 0#8 ∉ l.drop l'.length := by
    rw [← hlength, List.drop_length]
    exact List.not_mem_nil
  rw [memcmp, memcmpFrom_eq, Int.sign_eq_neg_one_iff_neg, Int.sign_eq_zero_iff_zero,
    Int.sign_eq_one_iff_pos, difference_neg_iff hdrop, difference_eq_zero_iff hdrop hdrop']
  refine ⟨Iff.rfl, Iff.rfl, ?_⟩
  rw [← difference_neg_iff hdrop', difference_comm l l']
  exact Int.neg_neg_iff_pos.symm

/-! ### Looking for a character -/

/-- The first place with the character, the zero at the end included, or a null pointer. -/
theorem strchr_eq (h : StringAt mem p l) (hl : 0#8 ∉ l) (c : U32) {fuel : ℕ}
    (hfuel : l.length < fuel) : strchr mem c fuel p =
      some (if c.setWidth 8 ∈ l ∨ c.setWidth 8 = 0#8 then place p (l.idxOf (c.setWidth 8))
        else 0) := by
  induction l generalizing p fuel with
  | nil =>
    obtain ⟨fuel, rfl⟩ := Nat.exists_eq_succ_of_ne_zero (Nat.ne_of_gt hfuel)
    rw [strchr, h.head_nil]
    by_cases hc : c.setWidth 8 = 0#8
    · simp [hc]
    · simp [hc, Ne.symm hc]
  | cons a l ih =>
    obtain ⟨ha, hl⟩ := not_or.mp (mt List.mem_cons.mpr hl)
    obtain ⟨fuel, rfl⟩ := Nat.exists_eq_succ_of_ne_zero (Nat.ne_of_gt (Nat.zero_lt_of_lt hfuel))
    rw [strchr, h.head]
    by_cases hfirst : a = c.setWidth 8
    · simp [hfirst]
    · have hidx : (a :: l).idxOf (c.setWidth 8) = l.idxOf (c.setWidth 8) + 1 := by
        rw [List.idxOf_cons, beq_false_of_ne hfirst, cond_false]
      rw [if_pos hfirst, if_neg fun h0 => ha h0.symm, ih h.tail hl (Nat.lt_of_succ_lt_succ hfuel),
        hidx, place_one]
      simp [Ne.symm hfirst]

/-! ### Copies of bounded length -/

/-- The first loop ends behind the string, or behind `n` bytes of it. -/
theorem copyUntilNul_eq (h : StringAt mem s l) (hl : 0#8 ∉ l) (hapart : Apart d s l.length)
    (n : ℕ) {i : ℕ} (hi : i ≤ l.length) :
    copyUntilNul d s n i (copyForward d s i mem) =
      (copyForward d s (min (i + n) l.length) mem, min (i + n) l.length) := by
  induction n generalizing i with
  | zero => rw [copyUntilNul, Nat.add_zero, Nat.min_eq_left hi]
  | succ n ih =>
    have hread : copyForward d s i mem (place s i) = mem (place s i) := by
      rw [copyForward_source (Nat.lt_of_le_of_lt hi (h.length_lt hl)), hapart.mod hi]
    rw [copyUntilNul, hread]
    by_cases hend : i = l.length
    · rw [hend, if_neg (not_not_intro h.nul), Nat.min_eq_right (Nat.le_add_right _ _)]
    · have hchar := h.ne_nul hl (Nat.lt_of_le_of_ne hi hend)
      have hnext := ih (i := i + 1) (by omega)
      rw [copyForward, hread] at hnext
      rw [if_pos hchar, hnext, show i + 1 + n = i + (n + 1) by omega]

theorem fillNul_outside {a : U32} (ha : ∀ j, i ≤ j → j < i + n → a ≠ place d j) :
    fillNul d n i mem a = mem a := by
  induction n generalizing i mem with
  | zero => rfl
  | succ n ih =>
    rw [fillNul, ih fun j hij hj => ha j (by omega) (by omega),
      Function.update_of_ne (ha i (Nat.le_refl i) (by omega))]

theorem fillNul_apply (hroom : i + n ≤ 2 ^ 32) {j : ℕ} (hij : i ≤ j) (hj : j < i + n) :
    fillNul d n i mem (place d j) = 0 := by
  induction n generalizing i mem with
  | zero => omega
  | succ n ih =>
    rw [fillNul]
    rcases Nat.eq_or_lt_of_le hij with rfl | hlt
    · rw [fillNul_outside, Function.update_self]
      intro k hik hk
      exact place_ne_of_lt d hik (by omega)
    · exact ih (by omega) hlt (by omega)

/-- `strncpy` writes `n` bytes: the string as far as it goes, and zeros behind it.  So there is a
zero among them if and only if the string is shorter than `n`. -/
theorem strncpy_copies (h : StringAt mem s l) (hl : 0#8 ∉ l) (hapart : Apart d s l.length)
    (n : U32) :
    (∀ j < n.toNat, (strncpy mem d s n).1 (place d j) = bufferOf l j) ∧
      ∀ a, (∀ j < n.toNat, a ≠ place d j) → (strncpy mem d s n).1 a = mem a := by
  have hn : n.toNat < 2 ^ 32 := n.isLt
  have hcopied := copyUntilNul_eq h hl hapart n.toNat (Nat.zero_le _)
  rw [Nat.zero_add, copyForward] at hcopied
  rw [strncpy, hcopied]
  dsimp only
  generalize hc : min n.toNat l.length = c
  have hcn : c ≤ n.toNat := hc ▸ Nat.min_le_left _ _
  have hcl : c ≤ l.length := hc ▸ Nat.min_le_right _ _
  constructor
  · intro j hj
    by_cases hbefore : j < c
    · rw [fillNul_outside fun k hck hk => place_ne_of_lt d (by omega) (by omega),
        copyForward_apply (by omega) _ _ _ hbefore, hapart.mod (by omega)]
      exact h j (by omega)
    · rw [fillNul_apply (by omega) (Nat.not_lt.mp hbefore) (by omega), bufferOf,
        List.getD_eq_default _ _ (by omega)]
  · intro a ha
    rw [fillNul_outside fun j _ hj => ha j (by omega),
      copyForward_outside fun j hj => ha j (by omega)]

/-- `strncat` appends at most `n` bytes of the string, and always a zero. -/
theorem strncat_appends (ht : StringAt mem d l') (hl' : 0#8 ∉ l') (h : StringAt mem s l)
    (hl : 0#8 ∉ l) (hapart : Apart (place d l'.length) s l.length) (n : U32) {fuel : ℕ}
    (hfuel : l'.length < fuel) :
    ∃ mem', strncat fuel mem d s n = some (mem', d) ∧
      StringAt mem' d (l' ++ l.take n.toNat) ∧
      ∀ a, (∀ i ≤ min n.toNat l.length, a ≠ place d (l'.length + i)) → mem' a = mem a := by
  have hroom := length_add_lt ht hl' h hl hapart
  have hcopied := copyUntilNul_eq h hl hapart n.toNat (Nat.zero_le _)
  rw [Nat.zero_add, copyForward] at hcopied
  rw [strncat, endLoop_eq ht hl', if_pos hfuel, Option.map_some, hcopied]
  dsimp only
  have htake : (l.take n.toNat).length = min n.toNat l.length := List.length_take
  generalize min n.toNat l.length = c at htake
  have hcl : c ≤ l.length := htake ▸ List.length_take_le' _ _
  refine ⟨_, rfl, ?_, ?_⟩
  · intro j hj
    rw [List.length_append, htake] at hj
    rw [place_place]
    rcases Nat.eq_or_lt_of_le hj with rfl | hlt
    · -- the zero
      rw [Function.update_self, bufferOf_append, bufferOf, List.getD_eq_default _ _ (by omega)]
    rw [Function.update_of_ne (place_ne_of_lt d hlt (by omega))]
    by_cases hfirst : j < l'.length
    · rw [copyForward_outside, bufferOf_append_left _ _ hfirst]
      · exact ht j (Nat.le_of_lt hfirst)
      · intro i hi
        rw [place_place]
        exact place_ne_of_lt d (by omega) (by omega)
    · obtain ⟨j, rfl⟩ := Nat.exists_eq_add_of_le (Nat.not_lt.mp hfirst)
      have hj' : j < c := by omega
      rw [bufferOf_append, ← place_place, copyForward_apply (by omega) _ _ _ hj',
        hapart.mod (by omega), h j (by omega), bufferOf, bufferOf, List.getD_eq_getElem _ _ (by omega),
        List.getD_eq_getElem _ _ (by omega), List.getElem_take]
  · intro a ha
    rw [place_place, Function.update_of_ne (ha c (Nat.le_refl c)), copyForward_outside]
    intro i hi
    rw [place_place]
    exact ha i (Nat.le_of_lt hi)

end MesaOS.Libc
