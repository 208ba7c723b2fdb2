/-
The registry of the disk file system as it lies in memory (`fs/mesafs.cpp`).

`strcpy` copies a name of any length to the 64 characters at the start of an entry, and the
rest of the entry, and then the next ones, follow.  What it leaves there is partly
overwritten by the fields that are stored after it.  So a directory may have a name of 64
characters, which ends in the zero low byte of `lba_start`, and longer names than that are
not found again, except for a file whose 65th character happens to be that byte.  Neither
function looks whether the name is in use, and `finddir` stops at the first entry with it.

* `strcmp_fillEntry_iff` — when an entry has the name that was copied into it;
* `fillEntry_outside` — what a name that ends inside the entry leaves alone;
* `createsOrKeeps_iff` — when a created entry is stored as it was given;
* `Represents.createFile`, `Represents.createDir`, `Represents.finddir` — for the names that
  fit, the calls do to the bytes what the model with whole entries does.
-/
import Mathlib.Data.List.Find
import Mathlib.Data.List.TakeWhile
import MesaOS.ByteMemory
import MesaOS.MetadataSector

open MachineWord ByteMemory

namespace MesaOS.FS

/-- The static members of the class.  Byte `k` behind the start of `entries` is `mem k`; the
array has 960 bytes, and `strcpy` also writes behind them. -/
structure Registry where
  baseLba : U32
  metadataValid : Bool
  mem : ℕ → U8
  disk : Disk

/-- A `struct fs_node` on the heap and what follows it there. -/
structure HeapNode where
  mem : ℕ → U8
  handlers : Handlers

namespace HeapNode

def mask (node : HeapNode) : U32 := get32 node.mem 128

def uid (node : HeapNode) : U32 := get32 node.mem 132

def gid (node : HeapNode) : U32 := get32 node.mem 136

def flags (node : HeapNode) : U32 := get32 node.mem 140

def inode (node : HeapNode) : U32 := get32 node.mem 144

def length (node : HeapNode) : U32 := get32 node.mem 148

end HeapNode

/-- What is stored in a new node after `memset`, in this order. -/
def fillNode (name : List U8) (inode flags uid gid mask : U32) : ℕ → U8 :=
  let node := strcpy (fun _ => 0) 0 name
  let node := put32 node 144 inode
  let node := put32 node 140 flags
  let node := put32 node 132 uid
  let node := put32 node 136 gid
  put32 node 128 mask

/-- What is stored in `entries[i]`, in this order. -/
def fillEntry (m : ℕ → U8) (i : ℕ) (name : CString) (lbaStart uid gid mode : U32) (flags : U8) :
    ℕ → U8 :=
  let m := Function.update m (120 * i + 85) 1
  let m := strcpy m (120 * i) name.bytes
  let m := put32 m (120 * i + 64) lbaStart
  let m := put32 m (120 * i + 68) 0
  let m := Function.update m (120 * i + 84) flags
  let m := put32 m (120 * i + 72) uid
  let m := put32 m (120 * i + 76) gid
  let m := put32 m (120 * i + 80) mode
  memset m (120 * i + 86) 0 32

namespace Registry

/-- The string at address `a`, of at most `n` characters. -/
def stringAt (s : Registry) (a n : ℕ) : List U8 :=
  ((List.range n).map fun k => s.mem (a + k)).takeWhile (· ≠ 0)

/-- The sector that `save_metadata` writes; the rest of what it copies goes behind the
buffer. -/
def metadataSector (s : Registry) (stack : ℕ → U8) : ℕ → U8 :=
  bufferOf (le32 0x5341534D ++ le32 1 ++ le32 0 ++ le32 1000 ++ (List.range 32).map stack ++
    (List.range 960).map s.mem)

/-- `MesaFS::save_metadata` -/
def saveMetadata (s : Registry) (stack : ℕ → U8) : Registry × Bool :=
  if s.metadataValid then
    ({ s with disk := writeSector s.disk (s.baseLba + 1) (s.metadataSector stack) }, true)
  else (s, false)

/-- The slot that a new entry gets. -/
def freeSlot (s : Registry) : Option ℕ :=
  (List.range maxEntries).find? fun i => decide (s.mem (120 * i + 85) = 0)

/-- `MesaFS::create_file` -/
def createFile (s : Registry) (name : CString) (uid gid mode : U32) (stack : ℕ → U8) :
    Registry × Option HeapNode :=
  match s.freeSlot with
  | none => (s, none)
  | some i =>
    let s := { s with
      mem := fillEntry s.mem i name (BitVec.ofNat 32 (100 + i * 10)) uid gid mode 1
      metadataValid := true }
    let (s, saved) := s.saveMetadata stack
    if !saved then ({ s with mem := Function.update s.mem (120 * i + 85) 0 }, none)
    else
      (s, some { mem := fillNode name.bytes (BitVec.ofNat 32 i) fsFile uid gid mode
                 handlers := .mesafsFile })

/-- `MesaFS::create_dir` -/
def createDir (s : Registry) (name : CString) (uid gid mode : U32) (stack : ℕ → U8) :
    Registry × Option HeapNode :=
  match s.freeSlot with
  | none => (s, none)
  | some i =>
    let s := { s with mem := fillEntry s.mem i name 0 uid gid mode 2 }
    let (s, _) := s.saveMetadata stack
    (s, some { mem := fillNode name.bytes (BitVec.ofNat 32 i) fsDirectory uid gid mode
               handlers := .mesafsDir })

/-- The entry that `finddir` stops at. -/
def findEntry (s : Registry) (name : CString) : Option ℕ :=
  (List.range maxEntries).find? fun i =>
    decide (s.mem (120 * i + 85) ≠ 0) && decide (strcmp s.mem (120 * i) name.bytes = 0)

/-- `MesaFS::finddir`; an entry that is found has a name as long as the given one. -/
def finddir (s : Registry) (name : CString) : Option HeapNode :=
  (s.findEntry name).map fun i =>
    let node := fillNode (s.stringAt (120 * i) (name.bytes.length + 1)) (BitVec.ofNat 32 i)
      (if s.mem (120 * i + 84) = 2 then fsDirectory else fsFile) (get32 s.mem (120 * i + 72))
      (get32 s.mem (120 * i + 76)) (get32 s.mem (120 * i + 80))
    { mem := put32 node 148 (get32 s.mem (120 * i + 68)), handlers := .mesafsEntry }

end Registry

/-! ### The fields of a node -/

/-- The fields are stored after the name, whatever its length. -/
theorem fillNode_fields (name : List U8) (inode flags uid gid mask : U32) (h : Handlers) :
    let node : HeapNode := ⟨fillNode name inode flags uid gid mask, h⟩
    node.inode = inode ∧ node.flags = flags ∧ node.uid = uid ∧ node.gid = gid ∧
      node.mask = mask := by
  refine ⟨?_, ?_, ?_, ?_, ?_⟩
  · simp (disch := omega) only [HeapNode.inode, fillNode, get32_put32_of_disjoint, get32_put32]
  · simp (disch := omega) only [HeapNode.flags, fillNode, get32_put32_of_disjoint, get32_put32]
  · simp (disch := omega) only [HeapNode.uid, fillNode, get32_put32_of_disjoint, get32_put32]
  · simp (disch := omega) only [HeapNode.gid, fillNode, get32_put32_of_disjoint, get32_put32]
  · simp only [HeapNode.mask, fillNode, get32_put32]

/-! ### The bytes of an entry -/

section

variable (m : ℕ → U8) (i : ℕ) (name : CString) (lbaStart uid gid mode : U32) (flags : U8)

/-- The fields from `lba_start` to `flags` are stored after the name, whatever its length. -/
theorem get32_fillEntry :
    get32 (fillEntry m i name lbaStart uid gid mode flags) (120 * i + 64) = lbaStart ∧
      get32 (fillEntry m i name lbaStart uid gid mode flags) (120 * i + 68) = 0 ∧
      get32 (fillEntry m i name lbaStart uid gid mode flags) (120 * i + 72) = uid ∧
      get32 (fillEntry m i name lbaStart uid gid mode flags) (120 * i + 76) = gid ∧
      get32 (fillEntry m i name lbaStart uid gid mode flags) (120 * i + 80) = mode := by
  refine ⟨?_, ?_, ?_, ?_, ?_⟩ <;>
    simp (disch := omega) only [fillEntry, get32_memset_of_disjoint, get32_put32_of_disjoint,
      get32_update_of_disjoint, get32_put32]

theorem fillEntry_flags :
    fillEntry m i name lbaStart uid gid mode flags (120 * i + 84) = flags := by
  simp (disch := omega) only [fillEntry, memset_outside, put32_outside, Function.update_self]

/-- A name that ends before it leaves `present` set. -/
theorem fillEntry_present (h : name.bytes.length < 85) :
    fillEntry m i name lbaStart uid gid mode flags (120 * i + 85) = 1 := by
  simp (disch := omega) only [fillEntry, memset_outside, put32_outside, Function.update_of_ne,
    strcpy_outside, Function.update_self]

theorem fillEntry_name {j : ℕ} (hj : j < 64) (hle : j ≤ name.bytes.length) :
    fillEntry m i name lbaStart uid gid mode flags (120 * i + j) = bufferOf name.bytes j := by
  simp (disch := omega) only [fillEntry, memset_outside, put32_outside, Function.update_of_ne,
    strcpy_apply hle]

/-- The name is followed by `lba_start` and by the `length` of the empty file. -/
theorem fillEntry_behind {j : ℕ} (hj : j ≤ 4) :
    fillEntry m i name lbaStart uid gid mode flags (120 * i + 64 + j) =
      bufferOf (le32 lbaStart) j := by
  rcases Nat.lt_or_eq_of_le hj with hlt | rfl
  · simp (disch := omega) only [fillEntry, memset_outside, put32_outside, Function.update_of_ne,
      put32_apply _ hlt]
  · have hlength := put32_apply
      (m := put32 (strcpy (Function.update m (120 * i + 85) 1) (120 * i) name.bytes)
        (120 * i + 64) lbaStart) (a := 120 * i + 68) 0 (j := 0) (by omega)
    simp (disch := omega) only [fillEntry, memset_outside, put32_outside, Function.update_of_ne]
    exact hlength

/-- A name that ends inside the entry changes nothing else. -/
theorem fillEntry_outside {k : ℕ} (h : name.bytes.length < 120)
    (hk : k < 120 * i ∨ 120 * i + 120 ≤ k) :
    fillEntry m i name lbaStart uid gid mode flags k = m k := by
  simp (disch := omega) only [fillEntry, memset_outside, put32_outside, Function.update_of_ne,
    strcpy_outside]

/-- **When an entry has the name** that was copied into it. -/
theorem strcmp_fillEntry_iff :
    strcmp (fillEntry m i name lbaStart uid gid mode flags) (120 * i) name.bytes = 0 ↔
      name.bytes.length < 64 ∨ name.bytes.drop 64 = (le32 lbaStart).takeWhile (· ≠ 0) := by
  by_cases hlength : name.bytes.length < 64
  · refine iff_of_true ((strcmp_eq_zero_iff name.noNul).mpr fun j hj => ?_) (Or.inl hlength)
    exact fillEntry_name _ _ _ _ _ _ _ _ (by omega) hj
  rw [or_iff_right hlength]
  have htake : (name.bytes.take 64).length = 64 := List.length_take_of_le (by omega)
  have hfield : (name.bytes.take 64 ++ le32 lbaStart).length = 68 := by
    rw [List.length_append, htake]
    rfl
  have hchars : ∀ c ∈ name.bytes.take 64, decide (c ≠ 0) = true := by
    intro c hc
    refine decide_eq_true fun h0 => name.noNul ?_
    rw [h0] at hc
    exact List.mem_of_mem_take hc
  -- what stands in memory are the first 64 characters, `lba_start`, and a zero
  rw [strcmp_eq_zero_iff_takeWhile (w := name.bytes.take 64 ++ le32 lbaStart) name.noNul
    fun j hj => ?_]
  · rw [List.takeWhile_append_of_pos hchars]
    constructor
    · intro h
      have hdrop := congrArg (List.drop 64) h
      rwa [List.drop_left' htake] at hdrop
    · intro h
      rw [← h, List.take_append_drop]
  · rw [hfield] at hj
    by_cases hj64 : j < 64
    · rw [fillEntry_name _ _ _ _ _ _ _ _ hj64 (by omega), bufferOf_append_left _ _ (by omega),
        bufferOf, bufferOf, List.getD_eq_getElem _ _ (by omega), List.getD_eq_getElem _ _ (by omega),
        List.getElem_take]
    · obtain ⟨r, rfl⟩ := Nat.exists_eq_add_of_le (Nat.not_lt.mp hj64)
      have hback := bufferOf_append (name.bytes.take 64) (le32 lbaStart) r
      rw [htake] at hback
      rw [← Nat.add_assoc, fillEntry_behind _ _ _ _ _ _ _ _ (by omega), hback]

end

/-! ### Creating an entry -/

/-- Entry `i` is stored as it was given, and `finddir` returns it. -/
structure Registry.Stores (s : Registry) (i : ℕ) (name : CString) (uid gid mode : U32)
    (kind : U8) : Prop where
  sameName : strcmp s.mem (120 * i) name.bytes = 0
  sameUid : get32 s.mem (120 * i + 72) = uid
  sameGid : get32 s.mem (120 * i + 76) = gid
  sameMode : get32 s.mem (120 * i + 80) = mode
  sameKind : s.mem (120 * i + 84) = kind
  found : ∃ node, s.finddir name = some node ∧ node.inode = BitVec.ofNat 32 i ∧
    node.flags = (if kind = 2 then fsDirectory else fsFile) ∧ node.uid = uid ∧ node.gid = gid ∧
    node.mask = mode

/-- The call returns null and keeps the registry, or it returns a node for the only entry that
changes, and that entry is as it was given. -/
def Registry.CreatesOrKeeps (s : Registry) (r : Registry × Option HeapNode) (name : CString)
    (uid gid mode : U32) (kind : U8) : Prop :=
  (r.2 = none ∧ ∀ k < 960, r.1.mem k = s.mem k) ∨
    ∃ i < maxEntries, (∃ node, r.2 = some node ∧ node.inode = BitVec.ofNat 32 i) ∧
      r.1.Stores i name uid gid mode kind ∧
      ∀ k < 960, k / 120 ≠ i → r.1.mem k = s.mem k

/-- None of the entries before the `i`-th has the name. -/
def Registry.NewBefore (s : Registry) (i : ℕ) (name : CString) : Prop :=
  ∀ j < i, strcmp s.mem (120 * j) name.bytes ≠ 0

namespace Registry

variable {s : Registry} {name : CString} {i : ℕ}

theorem freeSlot_eq_some : s.freeSlot = some i ↔
    s.mem (120 * i + 85) = 0 ∧ i < maxEntries ∧ ∀ j < i, s.mem (120 * j + 85) ≠ 0 := by
  simp [freeSlot, List.find?_range_eq_some]

theorem findEntry_eq_some : s.findEntry name = some i ↔
    (s.mem (120 * i + 85) ≠ 0 ∧ strcmp s.mem (120 * i) name.bytes = 0) ∧ i < maxEntries ∧
      ∀ j < i, s.mem (120 * j + 85) = 0 ∨ strcmp s.mem (120 * j) name.bytes ≠ 0 := by
  simp [findEntry, List.find?_range_eq_some]

/-- What `finddir` returns for the entry that it stops at. -/
theorem finddir_of_findEntry (h : s.findEntry name = some i) :
    ∃ node, s.finddir name = some node ∧ node.inode = BitVec.ofNat 32 i ∧
      node.flags = (if s.mem (120 * i + 84) = 2 then fsDirectory else fsFile) ∧
      node.uid = get32 s.mem (120 * i + 72) ∧ node.gid = get32 s.mem (120 * i + 76) ∧
      node.mask = get32 s.mem (120 * i + 80) := by
  refine ⟨_, by rw [finddir, h, Option.map_some], ?_⟩
  have hfields := fillNode_fields (s.stringAt (120 * i) (name.bytes.length + 1))
    (BitVec.ofNat 32 i) (if s.mem (120 * i + 84) = 2 then fsDirectory else fsFile)
    (get32 s.mem (120 * i + 72)) (get32 s.mem (120 * i + 76)) (get32 s.mem (120 * i + 80))
    .mesafsEntry
  -- `length` is stored last
  have hlast : ∀ {m : ℕ → U8} {x : U32} {b : ℕ}, b + 4 ≤ 148 → get32 (put32 m 148 x) b = get32 m b :=
    fun hb => get32_put32_of_disjoint _ (Or.inl hb)
  simp (disch := omega) only [HeapNode.inode, HeapNode.flags, HeapNode.uid, HeapNode.gid,
    HeapNode.mask, hlast] at hfields ⊢
  exact hfields

theorem slot_inj {i j : ℕ} (hi : i < maxEntries) (hj : j < maxEntries)
    (h : BitVec.ofNat 32 i = BitVec.ofNat 32 j) : i = j := by
  have htoNat := congrArg BitVec.toNat h
  rw [maxEntries] at hi hj
  rwa [BitVec.toNat_ofNat, BitVec.toNat_ofNat, Nat.mod_eq_of_lt (by omega),
    Nat.mod_eq_of_lt (by omega)] at htoNat

/-- A name that is stored as it was given ends inside the entry. -/
theorem length_le_of_stored {lbaStart : U32}
    (h : name.bytes.length < 64 ∨ name.bytes.drop 64 = (le32 lbaStart).takeWhile (· ≠ 0)) :
    name.bytes.length ≤ 68 := by
  rcases h with h | h
  · omega
  · have hle := (List.takeWhile_sublist (fun c : U8 => decide (c ≠ 0)) (l := le32 lbaStart)).length_le
    rw [← h, List.length_drop, show (le32 lbaStart).length = 4 from rfl] at hle
    omega

/-- The entries before the new one keep their names. -/
theorem strcmp_fillEntry_of_lt (m : ℕ → U8) (lbaStart uid gid mode : U32) (flags : U8)
    (h : name.bytes.length ≤ 68) {j : ℕ} (hj : j < i) :
    strcmp (fillEntry m i name lbaStart uid gid mode flags) (120 * j) name.bytes = 0 ↔
      strcmp m (120 * j) name.bytes = 0 :=
  strcmp_eq_zero_congr name.noNul fun k hk =>
    fillEntry_outside _ _ _ _ _ _ _ _ (by omega) (by omega)

/-- What both functions do in the free slot `i`: the entry is found again when its name has
stayed whole and is new. -/
theorem createsOrKeeps_fillEntry {t : Registry} {lbaStart uid gid mode : U32} {kind : U8}
    (node : HeapNode) (hslot : s.freeSlot = some i)
    (hmem : t.mem = fillEntry s.mem i name lbaStart uid gid mode kind)
    (hnode : node.inode = BitVec.ofNat 32 i) :
    s.CreatesOrKeeps (t, some node) name uid gid mode kind ↔
      (name.bytes.length < 64 ∨ name.bytes.drop 64 = (le32 lbaStart).takeWhile (· ≠ 0)) ∧
        s.NewBefore i name := by
  obtain ⟨hfree, hi, hbefore⟩ := freeSlot_eq_some.mp hslot
  have hstored := strcmp_fillEntry_iff s.mem i name lbaStart uid gid mode kind
  rw [← hmem] at hstored
  constructor
  · rintro (⟨hnone, _⟩ | ⟨i', hi', ⟨node', heq, hinode⟩, hstores, _⟩)
    · exact absurd hnone (Option.some_ne_none _)
    obtain rfl := Option.some_inj.mp heq
    obtain rfl := slot_inj hi hi' (hnode.symm.trans hinode)
    have hwhole := hstored.mp hstores.sameName
    refine ⟨hwhole, fun j hj hsame => ?_⟩
    -- `finddir` stops at entry `i`, so not at an earlier one
    obtain ⟨found, hfound, hinode', _⟩ := hstores.found
    obtain ⟨i', hentry, rfl⟩ := Option.map_eq_some_iff.mp hfound
    obtain ⟨node', hnode', hinode'', _⟩ := finddir_of_findEntry hentry
    obtain rfl := Option.some_inj.mp (hfound.symm.trans hnode')
    obtain ⟨_, hi'', hfirst⟩ := findEntry_eq_some.mp hentry
    obtain rfl := slot_inj hi hi'' (hinode'.symm.trans hinode'')
    -- the name ends inside the entry, so the earlier ones are as before
    have hlength := length_le_of_stored hwhole
    refine (hfirst j hj).elim ?_ fun hne => hne ?_
    · rw [hmem, fillEntry_outside _ _ _ _ _ _ _ _ (by omega) (by omega)]
      exact hbefore j hj
    · rw [hmem, strcmp_fillEntry_of_lt _ _ _ _ _ _ hlength hj]
      exact hsame
  · rintro ⟨hwhole, hnew⟩
    have hlength := length_le_of_stored hwhole
    obtain ⟨_, _, huid, hgid, hmode⟩ := get32_fillEntry s.mem i name lbaStart uid gid mode kind
    have hkind := fillEntry_flags s.mem i name lbaStart uid gid mode kind
    have hpresent := fillEntry_present s.mem i name lbaStart uid gid mode kind (by omega)
    rw [← hmem] at huid hgid hmode hkind hpresent
    have hentry : t.findEntry name = some i := by
      refine findEntry_eq_some.mpr ⟨⟨by rw [hpresent]; decide, hstored.mpr hwhole⟩, hi,
        fun j hj => Or.inr ?_⟩
      rw [Ne, hmem, strcmp_fillEntry_of_lt _ _ _ _ _ _ hlength hj]
      exact hnew j hj
    have hfound := finddir_of_findEntry hentry
    rw [huid, hgid, hmode, hkind] at hfound
    refine Or.inr ⟨i, hi, ⟨node, rfl, hnode⟩,
      ⟨hstored.mpr hwhole, huid, hgid, hmode, hkind, hfound⟩, fun k _ hk => ?_⟩
    show t.mem k = s.mem k
    rw [hmem, fillEntry_outside _ _ _ _ _ _ _ _ (by omega) (by omega)]

/-- The low byte of the sector that a file in slot `i` gets; the other three are zero. -/
theorem takeWhile_lbaStart (hi : i < maxEntries) :
    (le32 (BitVec.ofNat 32 (100 + i * 10))).takeWhile (· ≠ 0) = [BitVec.ofNat 8 (100 + i * 10)] := by
  have hall : ∀ i < maxEntries, (le32 (BitVec.ofNat 32 (100 + i * 10))).takeWhile (· ≠ 0) =
      [BitVec.ofNat 8 (100 + i * 10)] := by decide
  exact hall i hi

theorem createFile_createsOrKeeps_iff (s : Registry) (name : CString) (uid gid mode : U32)
    (stack : ℕ → U8) :
    s.CreatesOrKeeps (s.createFile name uid gid mode stack) name uid gid mode 1 ↔
      ∀ i, s.freeSlot = some i → (name.bytes.length < 64 ∨
        name.bytes.drop 64 = [BitVec.ofNat 8 (100 + i * 10)]) ∧ s.NewBefore i name := by
  rw [createFile]
  cases hslot : s.freeSlot with
  | none => exact iff_of_true (Or.inl ⟨rfl, fun _ _ => rfl⟩) fun i h => by cases h
  | some i =>
    obtain ⟨_, hi, _⟩ := freeSlot_eq_some.mp hslot
    -- `metadata_valid` is set before the registry is saved, so that this does not fail
    have hcreate := createsOrKeeps_fillEntry
      (t := { s with
        mem := fillEntry s.mem i name (BitVec.ofNat 32 (100 + i * 10)) uid gid mode 1
        metadataValid := true }.saveMetadata stack |>.1)
      ⟨fillNode name.bytes (BitVec.ofNat 32 i) fsFile uid gid mode, .mesafsFile⟩
      hslot rfl (fillNode_fields _ _ _ _ _ _ _).1
    rw [takeWhile_lbaStart hi] at hcreate
    simp only [Option.some.injEq, forall_eq']
    exact hcreate

theorem createDir_createsOrKeeps_iff (s : Registry) (name : CString) (uid gid mode : U32)
    (stack : ℕ → U8) :
    s.CreatesOrKeeps (s.createDir name uid gid mode stack) name uid gid mode 2 ↔
      ∀ i, s.freeSlot = some i → name.bytes.length ≤ 64 ∧ s.NewBefore i name := by
  rw [createDir]
  cases hslot : s.freeSlot with
  | none => exact iff_of_true (Or.inl ⟨rfl, fun _ _ => rfl⟩) fun i h => by cases h
  | some i =>
    have hcreate := createsOrKeeps_fillEntry
      (t := { s with mem := fillEntry s.mem i name 0 uid gid mode 2 }.saveMetadata stack |>.1)
      ⟨fillNode name.bytes (BitVec.ofNat 32 i) fsDirectory uid gid mode, .mesafsDir⟩
      hslot (by rw [saveMetadata]; split <;> rfl) (fillNode_fields _ _ _ _ _ _ _).1
    -- the low byte of `lba_start` ends the name
    have hzero : (le32 0).takeWhile (· ≠ 0) = [] := rfl
    have hwhole : name.bytes.length < 64 ∨ name.bytes.drop 64 = [] ↔ name.bytes.length ≤ 64 := by
      rw [List.drop_eq_nil_iff, or_iff_right_of_imp Nat.le_of_lt]
    rw [hzero, hwhole] at hcreate
    simp only [Option.some.injEq, forall_eq']
    exact hcreate

/-- The registry that `initialize` leaves. -/
def empty : Registry :=
  { baseLba := 0, metadataValid := true, mem := fun _ => 0, disk := fun _ _ => 0 }

/-- A name that fills its 64 characters. -/
def name64 : CString := ⟨List.replicate 64 0x61, by decide⟩

end Registry

/-! ### The entries as records -/

theorem bufferOf_zeros (n j : ℕ) : bufferOf (List.replicate n 0) j = 0 := by
  rw [bufferOf, List.getD_eq_getElem?_getD, List.getElem?_getD_replicate_default_eq]

theorem MesaFSEntry.bytes_clear (j : ℕ) : bufferOf MesaFSEntry.clear.bytes j = 0 :=
  bufferOf_zeros 120 j

/-- `hmac` and the padding. -/
theorem MesaFSEntry.bytes_tail {e : MesaFSEntry} (h : e.name.fits 64 = true) {j : ℕ}
    (hj : 86 ≤ j) : bufferOf e.bytes j = 0 := by
  have hlt := of_decide_eq_true h
  obtain ⟨r, rfl⟩ := Nat.exists_eq_add_of_le hj
  set front := e.name.bytes ++ List.replicate (64 - e.name.bytes.length) 0 ++ le32 e.lbaStart ++
    le32 e.length ++ le32 e.uid ++ le32 e.gid ++ le32 e.mode ++
    [e.flags, if e.present then 1 else 0] with hfront
  have hlength : front.length = 86 := by
    simp [hfront, le32]
    omega
  have htail := bufferOf_append front (List.replicate 34 0) r
  rw [hlength] at htail
  rw [MesaFSEntry.bytes, ← hfront, htail, bufferOf_zeros]

/-- What is stored in an entry that was zero is the record of the new file or directory. -/
theorem fillEntry_bytes {m : ℕ → U8} {i : ℕ} {e : MesaFSEntry} (hfits : e.name.fits 64 = true)
    (hlength : e.length = 0) (hpresent : e.present = true) (hm : ∀ j < 120, m (120 * i + j) = 0)
    {j : ℕ} (hj : j < 120) :
    fillEntry m i e.name e.lbaStart e.uid e.gid e.mode e.flags (120 * i + j) =
      bufferOf e.bytes j := by
  have hlt := of_decide_eq_true hfits
  obtain ⟨hname, hlba, hlen, huid, hgid, hmode, hflags, hset⟩ := MesaFSEntry.read_bytes hfits
  obtain ⟨hlba', hlen', huid', hgid', hmode'⟩ :=
    get32_fillEntry m i e.name e.lbaStart e.uid e.gid e.mode e.flags
  rcases (by omega : j < 64 ∨ (64 ≤ j ∧ j < 84) ∨ j = 84 ∨ j = 85 ∨ 86 ≤ j) with
    hj64 | ⟨hj64, hj84⟩ | rfl | rfl | hj86
  · rw [hname j hj64]
    by_cases hle : j ≤ e.name.bytes.length
    · exact fillEntry_name _ _ _ _ _ _ _ _ hj64 hle
    · rw [List.getD_eq_default _ _ (by omega), ← hm j hj]
      simp (disch := omega) only [fillEntry, memset_outside, put32_outside, Function.update_of_ne,
        strcpy_outside]
  · -- the five words
    have hword : ∀ q < 5, get32 (fillEntry m i e.name e.lbaStart e.uid e.gid e.mode e.flags)
        (120 * i + (64 + 4 * q)) = get32 (bufferOf e.bytes) (64 + 4 * q) := by
      intro q hq
      rcases (by omega : q = 0 ∨ q = 1 ∨ q = 2 ∨ q = 3 ∨ q = 4) with
        rfl | rfl | rfl | rfl | rfl
      · exact hlba'.trans hlba.symm
      · exact hlen'.trans (hlen.trans hlength).symm
      · exact huid'.trans huid.symm
      · exact hgid'.trans hgid.symm
      · exact hmode'.trans hmode.symm
    have hbyte := eq_of_get32_eq (hword ((j - 64) / 4) (by omega)) (j := (j - 64) % 4) (by omega)
    have hsplit : 64 + 4 * ((j - 64) / 4) + (j - 64) % 4 = j := by omega
    rwa [Nat.add_assoc, hsplit] at hbyte
  · rw [hflags]
    exact fillEntry_flags _ _ _ _ _ _ _ _
  · rw [hset, if_pos hpresent]
    exact fillEntry_present _ _ _ _ _ _ _ _ (by omega)
  · rw [MesaFSEntry.bytes_tail hfits hj86]
    by_cases hhmac : j < 118
    · exact memset_apply _ _ (by omega)
    · rw [← hm j hj]
      simp (disch := omega) only [fillEntry, memset_outside, put32_outside, Function.update_of_ne,
        strcpy_outside]

/-- The memory holds the entries, and the free ones are as `memset` left them. -/
structure Registry.Represents (s : Registry) (a : MesaFS) : Prop where
  base : s.baseLba = a.baseLba
  valid : s.metadataValid = a.metadataValid
  disk : s.disk = a.disk
  fits : ∀ i < maxEntries, (a.entries i).name.fits 64 = true
  vacant : ∀ i < maxEntries, (a.entries i).present = false → a.entries i = .clear
  bytes : ∀ i < maxEntries, ∀ j < 120, s.mem (120 * i + j) = bufferOf (a.entries i).bytes j

/-- A node on the heap has the fields of the record. -/
structure HeapNode.Shows (node : HeapNode) (n : FsNode) : Prop where
  inode : node.inode = BitVec.ofNat 32 n.inode
  flags : node.flags = n.flags
  uid : node.uid = n.uid
  gid : node.gid = n.gid
  mask : node.mask = n.mask
  handlers : node.handlers = n.handlers

namespace Registry

variable {s : Registry} {a : MesaFS}

theorem Represents.present_eq (h : s.Represents a) {i : ℕ} (hi : i < maxEntries) :
    s.mem (120 * i + 85) = if (a.entries i).present then 1 else 0 := by
  rw [h.bytes i hi 85 (by omega)]
  exact (MesaFSEntry.read_bytes (h.fits i hi)).2.2.2.2.2.2.2

theorem Represents.freeSlot_eq (h : s.Represents a) : s.freeSlot = a.freeSlot := by
  rw [freeSlot, MesaFS.freeSlot]
  refine List.find?_congr fun i hi => ?_
  rw [h.present_eq (List.mem_range.mp hi)]
  cases (a.entries i).present <;> rfl

/-- The two name comparisons agree. -/
theorem Represents.strcmp_eq_zero_iff (h : s.Represents a) {i : ℕ} (hi : i < maxEntries)
    (name : CString) : strcmp s.mem (120 * i) name.bytes = 0 ↔ (a.entries i).name = name := by
  have hlt := of_decide_eq_true (h.fits i hi)
  have hname := (MesaFSEntry.read_bytes (h.fits i hi)).1
  rw [strcmp_eq_zero_iff_takeWhile (w := (a.entries i).name.bytes) name.noNul fun j hj => ?_]
  · have hall : ∀ c ∈ (a.entries i).name.bytes, decide (c ≠ 0) = true := by
      intro c hc
      refine decide_eq_true fun h0 => (a.entries i).name.noNul ?_
      rwa [h0] at hc
    rw [List.takeWhile_eq_self_iff.mpr hall]
    constructor
    · intro heq
      obtain ⟨bytes, hnul⟩ := name
      exact CString.mk.injEq .. |>.mpr heq.symm
    · intro heq
      rw [heq]
  · rw [h.bytes i hi j (by omega), hname j (by omega)]
    rfl

/-- The words of an entry. -/
theorem Represents.fields (h : s.Represents a) {i : ℕ} (hi : i < maxEntries) :
    get32 s.mem (120 * i + 72) = (a.entries i).uid ∧
      get32 s.mem (120 * i + 76) = (a.entries i).gid ∧
      get32 s.mem (120 * i + 80) = (a.entries i).mode ∧
      s.mem (120 * i + 84) = (a.entries i).flags := by
  have hword : ∀ b, b + 4 ≤ 120 →
      get32 s.mem (120 * i + b) = get32 (bufferOf (a.entries i).bytes) b := fun b hb =>
    get32_congr fun j hj => by rw [Nat.add_assoc, h.bytes i hi _ (by omega)]
  obtain ⟨_, _, _, huid, hgid, hmode, hflags, _⟩ := MesaFSEntry.read_bytes (h.fits i hi)
  refine ⟨?_, ?_, ?_, ?_⟩
  · rw [hword 72 (by omega), huid]
  · rw [hword 76 (by omega), hgid]
  · rw [hword 80 (by omega), hmode]
  · rw [h.bytes i hi 84 (by omega), hflags]

theorem Represents.findEntry_eq (h : s.Represents a) (name : CString) :
    s.findEntry name = (List.range maxEntries).find? fun i =>
      (a.entries i).present && decide ((a.entries i).name = name) := by
  refine List.find?_congr fun i hi => ?_
  have hi' := List.mem_range.mp hi
  rw [h.present_eq hi', decide_eq_decide.mpr (h.strcmp_eq_zero_iff hi' name)]
  cases (a.entries i).present <;> rfl

/-- `finddir` finds the same entry. -/
theorem Represents.finddir (h : s.Represents a) (name : CString) :
    Option.Rel HeapNode.Shows (s.finddir name) (a.finddir name) := by
  rw [MesaFS.finddir, ← h.findEntry_eq]
  cases hentry : s.findEntry name with
  | none =>
    rw [Registry.finddir, hentry]
    exact .none
  | some i =>
    obtain ⟨_, hi, _⟩ := findEntry_eq_some.mp hentry
    obtain ⟨node, hnode, hinode, hflags, huid, hgid, hmask⟩ := finddir_of_findEntry hentry
    obtain ⟨huid', hgid', hmode', hflags'⟩ := h.fields hi
    rw [hnode]
    refine .some ⟨hinode, ?_, huid.trans huid', hgid.trans hgid', hmask.trans hmode', ?_⟩
    · rw [hflags, hflags']
    · rw [Registry.finddir, hentry] at hnode
      obtain rfl := Option.some_inj.mp hnode
      rfl

/-- The 960 bytes are those of the entries. -/
theorem Represents.map_mem (h : s.Represents a) :
    (List.range 960).map s.mem = (List.range maxEntries).flatMap fun i => (a.entries i).bytes := by
  have hlength : ∀ i < maxEntries, (a.entries i).bytes.length = 120 := fun i hi =>
    MesaFSEntry.length_bytes (h.fits i hi)
  have htotal : ((List.range maxEntries).flatMap fun i => (a.entries i).bytes).length = 960 := by
    rw [List.length_flatMap, List.map_congr_left fun i hi => hlength i (List.mem_range.mp hi)]
    rfl
  refine List.ext_getElem (by rw [List.length_map, List.length_range, htotal]) fun k hk hk' => ?_
  have hk960 : k < 960 := by rwa [htotal] at hk'
  have hbyte := bufferOf_flatMap_range (f := fun i => (a.entries i).bytes) hlength
    (k := k / 120) (j := k % 120) (by rw [maxEntries]; omega) (by omega)
  rw [← h.bytes _ (by rw [maxEntries]; omega) _ (by omega), Nat.div_add_mod, bufferOf,
    List.getD_eq_getElem _ _ hk'] at hbyte
  rw [List.getElem_map, List.getElem_range, hbyte]

theorem Represents.saveMetadata (h : s.Represents a) (stack : ℕ → U8) :
    (s.saveMetadata stack).1.Represents (a.saveMetadata stack).1 ∧
      (s.saveMetadata stack).2 = (a.saveMetadata stack).2 := by
  have hsector : s.metadataSector stack = a.metadataSector stack := by
    rw [metadataSector, MesaFS.metadataSector, h.map_mem]
  rw [Registry.saveMetadata, MesaFS.saveMetadata]
  have hsame := h.valid
  by_cases hvalid : a.metadataValid
  · rw [if_pos (hsame.trans hvalid), if_pos hvalid, hsector, h.disk, ← h.base]
    exact ⟨⟨rfl, h.valid, rfl, h.fits, h.vacant, h.bytes⟩, rfl⟩
  · rw [if_neg (by rwa [hsame]), if_neg hvalid]
    exact ⟨h, rfl⟩

/-- The slot is filled in the memory and in the record. -/
theorem Represents.fill (h : s.Represents a) {i : ℕ} (hslot : s.freeSlot = some i)
    {e : MesaFSEntry} (hfits : e.name.fits 64 = true) (hlength : e.length = 0)
    (hpresent : e.present = true) :
    { s with mem := fillEntry s.mem i e.name e.lbaStart e.uid e.gid e.mode e.flags }.Represents
      (a.setEntry i e) := by
  obtain ⟨hfree, hi, _⟩ := freeSlot_eq_some.mp hslot
  have hlt := of_decide_eq_true hfits
  have hold : (a.entries i).present = false := by
    rw [h.present_eq hi] at hfree
    cases hp : (a.entries i).present with
    | false => rfl
    | true => rw [hp] at hfree; cases hfree
  -- the other entries lie outside
  have hother : ∀ k, k ≠ i → (a.setEntry i e).entries k = a.entries k := fun k hk =>
    Function.update_of_ne hk _ _
  have hself : (a.setEntry i e).entries i = e := Function.update_self ..
  have hzero : ∀ j < 120, s.mem (120 * i + j) = 0 := fun j hj => by
    rw [h.bytes i hi j hj, h.vacant i hi hold, MesaFSEntry.bytes_clear]
  refine ⟨h.base, h.valid, h.disk, fun k hk => ?_, fun k hk hvacant => ?_, fun k hk j hj => ?_⟩
  · by_cases hki : k = i
    · rwa [hki, hself]
    · rw [hother k hki]
      exact h.fits k hk
  · by_cases hki : k = i
    · rw [hki, hself, hpresent] at hvacant
      cases hvacant
    · rw [hother k hki] at hvacant ⊢
      exact h.vacant k hk hvacant
  · by_cases hki : k = i
    · rw [hki, hself]
      exact fillEntry_bytes hfits hlength hpresent hzero hj
    · rw [hother k hki, ← h.bytes k hk j hj]
      exact fillEntry_outside _ _ _ _ _ _ _ _ (by omega) (by omega)

/-- **A call that keeps the name inside its array** does in memory what it does to the
records. -/
theorem Represents.createFile (h : s.Represents a) {name : CString} {uid gid mode : U32}
    {stack : ℕ → U8} {r : MesaFS × Option FsNode}
    (hcall : a.createFile name uid gid mode stack = some r) :
    (s.createFile name uid gid mode stack).1.Represents r.1 ∧
      Option.Rel HeapNode.Shows (s.createFile name uid gid mode stack).2 r.2 := by
  rw [MesaFS.createFile, ← h.freeSlot_eq] at hcall
  rw [Registry.createFile]
  cases hslot : s.freeSlot with
  | none =>
    rw [hslot] at hcall
    obtain rfl := Option.some_inj.mp hcall
    exact ⟨h, .none⟩
  | some i =>
    rw [hslot] at hcall
    cases hfits : name.fits 64 with
    | false =>
      rw [hfits] at hcall
      cases hcall
    | true =>
      rw [hfits] at hcall
      obtain rfl := Option.some_inj.mp hcall
      have hvalid : { s with metadataValid := true }.Represents { a with metadataValid := true } :=
        ⟨h.base, rfl, h.disk, h.fits, h.vacant, h.bytes⟩
      have hfill := hvalid.fill (e := { name := name, lbaStart := BitVec.ofNat 32 (100 + i * 10)
                                        length := 0, uid := uid, gid := gid, mode := mode
                                        flags := 1, present := true })
        hslot hfits rfl rfl
      refine ⟨(hfill.saveMetadata stack).1, .some ?_⟩
      obtain ⟨hinode, hflags, huid, hgid, hmask⟩ :=
        fillNode_fields name.bytes (BitVec.ofNat 32 i) fsFile uid gid mode .mesafsFile
      exact ⟨hinode, hflags, huid, hgid, hmask, rfl⟩

theorem Represents.createDir (h : s.Represents a) {name : CString} {uid gid mode : U32}
    {stack : ℕ → U8} {r : MesaFS × Option FsNode}
    (hcall : a.createDir name uid gid mode stack = some r) :
    (s.createDir name uid gid mode stack).1.Represents r.1 ∧
      Option.Rel HeapNode.Shows (s.createDir name uid gid mode stack).2 r.2 := by
  rw [MesaFS.createDir, ← h.freeSlot_eq] at hcall
  rw [Registry.createDir]
  cases hslot : s.freeSlot with
  | none =>
    rw [hslot] at hcall
    obtain rfl := Option.some_inj.mp hcall
    exact ⟨h, .none⟩
  | some i =>
    rw [hslot] at hcall
    cases hfits : name.fits 64 with
    | false =>
      rw [hfits] at hcall
      cases hcall
    | true =>
      rw [hfits] at hcall
      obtain rfl := Option.some_inj.mp hcall
      have hfill := h.fill (e := { name := name, lbaStart := 0, length := 0, uid := uid, gid := gid
                                   mode := mode, flags := 2, present := true })
        hslot hfits rfl rfl
      refine ⟨(hfill.saveMetadata stack).1, .some ?_⟩
      obtain ⟨hinode, hflags, huid, hgid, hmask⟩ :=
        fillNode_fields name.bytes (BitVec.ofNat 32 i) fsDirectory uid gid mode .mesafsDir
      exact ⟨hinode, hflags, huid, hgid, hmask, rfl⟩

/-- `initialize` leaves the registry empty in both. -/
theorem represents_initialize (base : U32) (disk : Disk) :
    Represents { baseLba := base, metadataValid := true, mem := fun _ => 0, disk := disk }
      (MesaFS.initializeMesafs base disk) :=
  ⟨rfl, rfl, rfl, fun _ _ => rfl, fun _ _ _ => rfl, fun _ _ j _ =>
    (MesaFSEntry.bytes_clear j).symm⟩

end Registry

end MesaOS.FS
