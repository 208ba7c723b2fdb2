/-
Nodes of the virtual file system (`fs/vfs.hpp`).

A node's function pointers are the name of the set of functions they were filled
with, and `write_fs` and `read_fs` do nothing on a node without the handler.

`find_path_fs` cuts a path into names of at most 31 characters as it goes along.  The
names do not depend on what it finds (`components`), so it is a walk through the
directories (`findPathFs_eq_walk`).
-/
import MesaOS.DirectoryWalk
import MesaOS.MachineWord

open MachineWord DirectoryWalk

namespace MesaOS.FS

/-- A C string: bytes without a zero among them. -/
structure CString where
  bytes : List U8
  noNul : 0#8 ∉ bytes
  deriving DecidableEq

def CString.empty : CString := ⟨[], List.not_mem_nil⟩

/-- The string from character `n` on. -/
def CString.drop (s : CString) (n : ℕ) : CString :=
  ⟨s.bytes.drop n, fun h => s.noNul (List.mem_of_mem_drop h)⟩

/-- What `strcpy` and `strcat` make of two strings. -/
def CString.append (s t : CString) : CString :=
  ⟨s.bytes ++ t.bytes, fun h => (List.mem_append.mp h).elim s.noNul t.noNul⟩

/-- The string of one character. -/
def CString.ofChar (c : U8) (h : 0#8 ≠ c) : CString :=
  ⟨[c], List.not_mem_cons_of_ne_of_not_mem h List.not_mem_nil⟩

/-- The function pointers of a node. -/
inductive Handlers where
  /-- `RAMFS::read` and `RAMFS::write` -/
  | ramfsFile
  /-- `RAMFS::readdir` and `RAMFS::finddir` -/
  | ramfsDir
  /-- `MesaFS::read` and `MesaFS::write` -/
  | mesafsFile
  /-- `MesaFS::readdir` and `MesaFS::finddir` -/
  | mesafsDir
  /-- all four functions of `MesaFS`, as `MesaFS::finddir` sets them -/
  | mesafsEntry
  /-- those of another file system, or none -/
  | other
  deriving DecidableEq

/-- `struct fs_node`, as far as the two file systems fill it in; `memset` clears the rest. -/
structure FsNode where
  name : CString
  flags : U32
  inode : ℕ
  length : U32 := 0
  uid : U32 := 0
  gid : U32 := 0
  mask : U32 := 0
  handlers : Handlers
  deriving DecidableEq

def fsFile : U32 := 0x01

def fsDirectory : U32 := 0x02

/-- `name` and its terminating zero fit into an array of `size` characters. -/
def CString.fits (name : CString) (size : ℕ) : Bool := decide (name.bytes.length < size)

/-! ### Paths -/

/-- The character `'/'`. -/
def slash : U8 := 0x2F

theorem zero_ne_slash : 0 ≠ slash := by decide

/-- The characters before the first `'/'` or the end, at most 31. -/
def CString.component (s : CString) : CString :=
  ⟨(s.bytes.take 31).takeWhile (· ≠ slash), fun h =>
    s.noNul (List.mem_of_mem_take ((List.takeWhile_sublist _).mem h))⟩

/-- `find_path_fs`, where `finddirFs` is `finddir_fs`; every call is made with a shorter path. -/
def findPathFrom {ν : Type*} (finddirFs : ν → CString → Option ν) : ℕ → ν → CString → Option ν
  | 0, root, _ => some root
  | fuel + 1, root, path =>
    if path.bytes = [] ∨ path.bytes = [slash] then some root
    else
      let p := if path.bytes.head? = some slash then path.drop 1 else path
      let name := p.component
      match finddirFs root name with
      | none => none
      | some next =>
        -- the name may also have ended after 31 characters, and then the rest is not looked at
        if (p.bytes.drop name.bytes.length).head? = some slash then
          findPathFrom finddirFs fuel next (p.drop (name.bytes.length + 1))
        else some next

def findPathFs {ν : Type*} (finddirFs : ν → CString → Option ν) (root : ν) (path : CString) :
    Option ν :=
  findPathFrom finddirFs (path.bytes.length + 1) root path

/-- The names that `find_path_fs` looks up. -/
def componentsFrom : ℕ → CString → List CString
  | 0, _ => []
  | fuel + 1, path =>
    if path.bytes = [] ∨ path.bytes = [slash] then []
    else
      let p := if path.bytes.head? = some slash then path.drop 1 else path
      let name := p.component
      name :: if (p.bytes.drop name.bytes.length).head? = some slash then
          componentsFrom fuel (p.drop (name.bytes.length + 1))
        else []

def components (path : CString) : List CString := componentsFrom (path.bytes.length + 1) path

theorem findPathFrom_eq_walk {ν : Type*} (finddirFs : ν → CString → Option ν) (fuel : ℕ)
    (root : ν) (path : CString) :
    findPathFrom finddirFs fuel root path = walk finddirFs root (componentsFrom fuel path) := by
  induction fuel generalizing root path with
  | zero => rfl
  | succ fuel ih =>
    rw [findPathFrom, componentsFrom]
    by_cases hroot : path.bytes = [] ∨ path.bytes = [slash]
    · rw [if_pos hroot, if_pos hroot, walk]
    · rw [if_neg hroot, if_neg hroot, walk]
      dsimp only
      set p := if path.bytes.head? = some slash then path.drop 1 else path
      cases finddirFs root p.component with
      | none => rfl
      | some next =>
        rw [Option.bind_some]
        by_cases hmore : (p.bytes.drop p.component.bytes.length).head? = some slash
        · rw [if_pos hmore]
          dsimp only
          rw [if_pos hmore, ih]
        · rw [if_neg hmore]
          dsimp only
          rw [if_neg hmore, walk]

/-- **`find_path_fs` is a walk** along the components of the path. -/
theorem findPathFs_eq_walk {ν : Type*} (finddirFs : ν → CString → Option ν) (root : ν)
    (path : CString) :
    findPathFs finddirFs root path = walk finddirFs root (components path) :=
  findPathFrom_eq_walk ..

theorem CString.length_component (s : CString) : s.component.bytes.length ≤ 31 :=
  Nat.le_trans (List.takeWhile_sublist _).length_le (List.length_take_le ..)

theorem length_of_mem_components {path c : CString} (h : c ∈ components path) :
    c.bytes.length ≤ 31 := by
  have hfrom : ∀ fuel path, c ∈ componentsFrom fuel path → c.bytes.length ≤ 31 := by
    intro fuel
    induction fuel with
    | zero =>
      intro path h
      exact absurd h List.not_mem_nil
    | succ fuel ih =>
      intro path h
      rw [componentsFrom] at h
      by_cases hroot : path.bytes = [] ∨ path.bytes = [slash]
      · rw [if_pos hroot] at h
        exact absurd h List.not_mem_nil
      · rw [if_neg hroot] at h
        dsimp only at h
        set p := if path.bytes.head? = some slash then path.drop 1 else path
        rcases List.mem_cons.mp h with rfl | h
        · exact CString.length_component _
        · by_cases hmore : (p.bytes.drop p.component.bytes.length).head? = some slash
          · rw [if_pos hmore] at h
            exact ih _ h
          · rw [if_neg hmore] at h
            exact absurd h List.not_mem_nil
  exact hfrom _ _ h

theorem CString.length_component_le (s : CString) : s.component.bytes.length ≤ s.bytes.length :=
  Nat.le_trans (List.takeWhile_sublist _).length_le (List.length_take_le' ..)

theorem length_behindSlash_le (path : CString) :
    (if path.bytes.head? = some slash then path.drop 1 else path).bytes.length ≤
      path.bytes.length := by
  split
  · exact List.length_drop ▸ Nat.sub_le _ _
  · exact Nat.le_refl _

theorem length_le_of_mem_componentsFrom {fuel : ℕ} {path c : CString}
    (h : c ∈ componentsFrom fuel path) : c.bytes.length ≤ path.bytes.length := by
  induction fuel generalizing path with
  | zero => exact absurd h List.not_mem_nil
  | succ fuel ih =>
    rw [componentsFrom] at h
    by_cases hroot : path.bytes = [] ∨ path.bytes = [slash]
    · rw [if_pos hroot] at h
      exact absurd h List.not_mem_nil
    · rw [if_neg hroot] at h
      dsimp only at h
      set p := if path.bytes.head? = some slash then path.drop 1 else path with hp
      have hle : p.bytes.length ≤ path.bytes.length := length_behindSlash_le path
      rcases List.mem_cons.mp h with rfl | h
      · exact Nat.le_trans (CString.length_component_le p) hle
      · by_cases hmore : (p.bytes.drop p.component.bytes.length).head? = some slash
        · rw [if_pos hmore] at h
          refine Nat.le_trans (ih h) (Nat.le_trans ?_ hle)
          exact List.length_drop ▸ Nat.sub_le _ _
        · rw [if_neg hmore] at h
          exact absurd h List.not_mem_nil

/-- A path that is its own last name has no other: what is behind a name is shorter. -/
theorem components_of_getLast? {path : CString} (h : (components path).getLast? = some path) :
    components path = [path] := by
  rw [components, componentsFrom] at h ⊢
  by_cases hroot : path.bytes = [] ∨ path.bytes = [slash]
  · rw [if_pos hroot] at h
    exact absurd h.symm (Option.some_ne_none path)
  · rw [if_neg hroot] at h ⊢
    dsimp only at h ⊢
    set p := if path.bytes.head? = some slash then path.drop 1 else path with hp
    have hle : p.bytes.length ≤ path.bytes.length := length_behindSlash_le path
    have hpos : 0 < path.bytes.length := List.length_pos_iff.mpr fun hw => hroot (.inl hw)
    set rest : List CString :=
      if (p.bytes.drop p.component.bytes.length).head? = some slash then
        componentsFrom path.bytes.length (p.drop (p.component.bytes.length + 1)) else [] with hrest
    have hshort : path ∉ rest := by
      intro hmem
      rw [hrest] at hmem
      split at hmem
      · have := length_le_of_mem_componentsFrom hmem
        rw [CString.drop, List.length_drop] at this
        omega
      · exact absurd hmem List.not_mem_nil
    cases hcases : rest with
    | nil =>
      rw [hcases, List.getLast?_singleton, Option.some_inj] at h
      rw [h]
    | cons c cs =>
      rw [hcases, List.getLast?_cons_cons] at h
      exact absurd (hcases ▸ List.mem_of_getLast? h) hshort

end MesaOS.FS
