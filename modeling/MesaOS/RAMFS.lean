/-
The RAM file system (`fs/ramfs.cpp`).

Two arrays run in parallel, the nodes in `files` and the blocks of their contents
in `file_contents`, and a node remembers in `inode` the slot it got when it was
created.  `delete_file` shifts both arrays down and leaves the nodes as they are,
so a file behind the deleted one reads the block of its successor
(`delete_then_read`), and a file that has kept its slot loses it when the next
file is created.

* `Reads` — every live file reads back what was last written to it;
* `faithful_step` — an operation that does not run into that defect
  (`Op.Harmless`) keeps every live file on its own block;
* `reads_of_run` — so `Reads` holds over every run of such operations.
-/
import MesaOS.PMM
import MesaOS.Runs
import MesaOS.FileStore
import MesaOS.VFS

open MachineWord Runs FileStore

namespace MesaOS.FS

open Memory

/-- The static members of the class, and the memory they point to.  A node pointer is a
number; `kmalloc` hands them out in order. -/
structure RAMFS where
  pmm : PMM
  nodes : ℕ → FsNode
  nextNode : ℕ
  files : ℕ → ℕ
  fileContents : ℕ → U32
  fileCount : ℕ
  /-- the bytes of the page at an address -/
  page : U32 → ℕ → U8

/-- `files[64]` and `file_contents[64]`. -/
def maxFiles : ℕ := 64

namespace RAMFS

/-- `RAMFS::read`: the bytes put into the buffer; `none` when the copy leaves the page. -/
def read (s : RAMFS) (node : ℕ) (offset size : U32) : Option (List U8) :=
  let id := (s.nodes node).inode
  let length := (s.nodes node).length
  if offset > length then some []
  else
    let size := if offset + size > length then length - offset else size
    if offset.toNat + size.toNat ≤ 4096 then
      some ((List.range size.toNat).map fun k => s.page (s.fileContents id) (offset.toNat + k))
    else none

/-- `RAMFS::write`: the new state and the returned size; `none` when the copy leaves the
page. -/
def write (s : RAMFS) (node : ℕ) (offset size : U32) (buffer : ℕ → U8) :
    Option (RAMFS × U32) :=
  let id := (s.nodes node).inode
  let length := (s.nodes node).length
  let size := if offset + size > 4096 then 4096 - offset else size
  if offset.toNat + size.toNat ≤ 4096 then
    let page := fun a k =>
      if a = s.fileContents id ∧ offset.toNat ≤ k ∧ k < offset.toNat + size.toNat then
        buffer (k - offset.toNat)
      else s.page a k
    let length := if offset + size > length then offset + size else length
    some ({ s with
      page := page
      nodes := Function.update s.nodes node { s.nodes node with length := length } }, size)
  else none

/-- `write_fs` on a node: only a file of this system has `RAMFS::write` as its handler. -/
def writeNode (s : RAMFS) (node : ℕ) (offset size : U32) (buffer : ℕ → U8) :
    Option (RAMFS × U32) :=
  if (s.nodes node).handlers = .ramfsFile then s.write node offset size buffer
  else some (s, 0)

/-- `RAMFS::finddir`, with `none` for the null pointer. -/
def finddir (s : RAMFS) (name : CString) : Option ℕ :=
  ((List.range s.fileCount).find? fun i => name = (s.nodes (s.files i)).name).map s.files

/-- A new node that `kmalloc` returns, filled in by the caller. -/
def newNode (s : RAMFS) (node : FsNode) : RAMFS × ℕ :=
  ({ s with nodes := Function.update s.nodes s.nextNode node, nextNode := s.nextNode + 1 },
    s.nextNode)

/-- `RAMFS::create_file`: the new state and the node, `none` for the null pointer; no
result when a copy leaves its object. -/
def createFile (s : RAMFS) (name : CString) (content : Option CString) :
    Option (RAMFS × Option ℕ) :=
  if maxFiles ≤ s.fileCount then some (s, none)
  else if !name.fits 128 then none
  else
    let bytes := (content.map CString.bytes).getD []
    if 4096 ≤ bytes.length then none
    else
      let (pmm, buffer) := s.pmm.allocateBlock
      let node : FsNode :=
        { name := name, flags := fsFile, inode := s.fileCount
          length := BitVec.ofNat 32 bytes.length, handlers := .ramfsFile }
      let (s, p) := { s with pmm := pmm }.newNode node
      let page := fun a k => if a = buffer ∧ k < 4096 then bytes.getD k 0 else s.page a k
      some ({ s with
        page := page
        fileContents := Function.update s.fileContents s.fileCount buffer
        files := Function.update s.files s.fileCount p
        fileCount := s.fileCount + 1 }, some p)

/-- `RAMFS::create_dir`. -/
def createDir (s : RAMFS) (name : CString) : Option (RAMFS × Option ℕ) :=
  if maxFiles ≤ s.fileCount then some (s, none)
  else if !name.fits 128 then none
  else
    let node : FsNode :=
      { name := name, flags := fsDirectory, inode := 0, handlers := .ramfsDir }
    let (s, p) := s.newNode node
    some ({ s with
      files := Function.update s.files s.fileCount p
      fileCount := s.fileCount + 1 }, some p)

/-- `RAMFS::mount`. -/
def mount (s : RAMFS) (node : ℕ) : RAMFS :=
  if s.fileCount < maxFiles then
    { s with
      files := Function.update s.files s.fileCount node
      fileCount := s.fileCount + 1 }
  else s

/-- The two arrays after slot `i` has been removed from the first `count`. -/
def shift {α : Type*} (f : ℕ → α) (i count : ℕ) : ℕ → α :=
  fun j => if i ≤ j ∧ j < count - 1 then f (j + 1) else f j

/-- `RAMFS::delete_file`: the new state, and whether a node was found. -/
def deleteFile (s : RAMFS) (name : CString) : RAMFS × Bool :=
  match (List.range s.fileCount).find? fun i => name = (s.nodes (s.files i)).name with
  | some i =>
    ({ s with
      files := shift s.files i s.fileCount
      fileContents := shift s.fileContents i s.fileCount
      fileCount := s.fileCount - 1 }, true)
  | none => (s, false)

/-- `RAMFS::initialize`: the root node, and no files. -/
def initializeRamfs (s : RAMFS) : RAMFS × ℕ :=
  let node : FsNode :=
    { name := ⟨[114, 111, 111, 116], by decide⟩, flags := fsDirectory, inode := 0
      handlers := .ramfsDir }
  { s with fileCount := 0 }.newNode node

end RAMFS

/-! ### What a run ought to do -/

/-- A call of the interface. -/
inductive Op where
  | createFile (name : CString) (content : Option CString)
  | createDir (name : CString)
  | mount (node : ℕ)
  | write (node : ℕ) (offset size : U32) (buffer : ℕ → U8)
  | deleteFile (name : CString)

/-- The file system, and beside it the regular files that were created and not deleted,
each with the bytes it ought to hold. -/
structure Traced where
  fs : RAMFS
  store : ℕ → Option (List U8)

def Traced.step (t : Traced) : Op → Option Traced
  | .createFile name content =>
    (t.fs.createFile name content).map fun (fs, node) =>
      { fs := fs
        store := match node with
          | some p => Function.update t.store p (some ((content.map CString.bytes).getD []))
          | none => t.store }
  | .createDir name => (t.fs.createDir name).map fun (fs, _) => { t with fs := fs }
  | .mount node => some { t with fs := t.fs.mount node }
  | .write node offset size buffer =>
    (t.fs.writeNode node offset size buffer).map fun (fs, n) =>
      { fs := fs
        store := Function.update t.store node ((t.store node).map fun l =>
          overwrite 0 l offset.toNat ((List.range n.toNat).map buffer)) }
  | .deleteFile name =>
    some
      { fs := (t.fs.deleteFile name).1
        store := match t.fs.finddir name with
          | some p => Function.update t.store p none
          | none => t.store }

/-- Node `p` is a regular file that was created and not deleted. -/
def Traced.Live (t : Traced) (p : ℕ) : Prop := (t.store p).isSome = true

/-- The block that a node selects. -/
def RAMFS.contentsOf (s : RAMFS) (p : ℕ) : U32 := s.fileContents (s.nodes p).inode

/-- Every live file has a block of its own, the length and the bytes it ought to have,
whatever is read, and looking up its name finds a node of that name. -/
def Reads (t : Traced) : Prop :=
  ∀ p l, t.store p = some l →
    (∀ q, t.Live q → q ≠ p → t.fs.contentsOf q ≠ t.fs.contentsOf p) ∧
    (t.fs.nodes p).length.toNat = l.length ∧
    (∀ offset size : U32, offset.toNat + size.toNat < 2 ^ 32 →
      t.fs.read p offset size = some (FileStore.read l offset.toNat size.toNat)) ∧
    ∃ q, t.fs.finddir (t.fs.nodes p).name = some q ∧ (t.fs.nodes q).name = (t.fs.nodes p).name

/-- The calls that do not run into the defect.  A new file needs a block, and its slot must
not be the one that a live file still has; a write stays in the page, and is not through
the node of a deleted file that selects the block of a live one; and no live file but the
deleted one lies in the slots that are shifted. -/
def Op.Harmless (t : Traced) : Op → Prop
  | .createFile name content =>
    maxFiles ≤ t.fs.fileCount ∨
      (name.bytes.length < 128 ∧ ((content.map CString.bytes).getD []).length < 4096 ∧
        t.fs.pmm.allocateBlock.2 ≠ 0#32 ∧
        ∀ p < t.fs.nextNode, t.Live p → (t.fs.nodes p).inode ≠ t.fs.fileCount)
  | .createDir name => maxFiles ≤ t.fs.fileCount ∨ name.bytes.length < 128
  | .mount _ => True
  | .write node offset size _ =>
    offset.toNat ≤ 4096 ∧ offset.toNat + size.toNat < 2 ^ 32 ∧
      (t.Live node ∨ (t.fs.nodes node).handlers ≠ .ramfsFile ∨
        ∀ p < t.fs.nextNode, t.Live p → t.fs.contentsOf p ≠ t.fs.contentsOf node)
  | .deleteFile name =>
    ∀ i ∈ (List.range t.fs.fileCount).find? fun i => name = (t.fs.nodes (t.fs.files i)).name,
      ∀ p < t.fs.nextNode, t.Live p → p ≠ t.fs.files i →
        ¬ (i ≤ (t.fs.nodes p).inode ∧ (t.fs.nodes p).inode < t.fs.fileCount - 1)

instance (t : Traced) (p : ℕ) : Decidable (t.Live p) :=
  inferInstanceAs (Decidable ((t.store p).isSome = true))

instance (t : Traced) : (op : Op) → Decidable (op.Harmless t)
  | .createFile _ _ => inferInstanceAs (Decidable (_ ∨ _))
  | .createDir _ => inferInstanceAs (Decidable (_ ∨ _))
  | .mount _ => inferInstanceAs (Decidable True)
  | .write _ _ _ _ => inferInstanceAs (Decidable (_ ∧ _))
  | .deleteFile name =>
    inferInstanceAs (Decidable (∀ i ∈ (List.range t.fs.fileCount).find? fun i =>
      name = (t.fs.nodes (t.fs.files i)).name, _))

/-! ### Every live file keeps its block -/

/-- What every harmless call keeps. -/
structure Faithful (t : Traced) : Prop where
  count : t.fs.fileCount ≤ maxFiles
  allocated : ∀ p, t.Live p → p < t.fs.nextNode
  handlers : ∀ p, t.Live p → (t.fs.nodes p).handlers = .ramfsFile
  length : ∀ p l, t.store p = some l → (t.fs.nodes p).length.toNat = l.length ∧ l.length ≤ 4096
  content : ∀ p l, t.store p = some l → ∀ k < 4096, t.fs.page (t.fs.contentsOf p) k = l.getD k 0
  own : ∀ p q, t.Live p → t.Live q → p ≠ q → t.fs.contentsOf p ≠ t.fs.contentsOf q
  block : ∀ p, t.Live p → ∃ b, (t.fs.contentsOf p).toNat = b * 4096 ∧ t.fs.pmm.marked b = true
  listed : ∀ p, t.Live p → ∃ i < t.fs.fileCount, t.fs.files i = p

theorem live_of_some {t : Traced} {p : ℕ} {l : List U8} (h : t.store p = some l) : t.Live p := by
  rw [Traced.Live, h]
  rfl

/-- Node `p` is a listed file, and the block that it selects is in use and has the bytes `l`. -/
structure RAMFS.Holds (s : RAMFS) (p : ℕ) (l : List U8) : Prop where
  allocated : p < s.nextNode
  handlers : (s.nodes p).handlers = .ramfsFile
  length : (s.nodes p).length.toNat = l.length ∧ l.length ≤ 4096
  content : ∀ k < 4096, s.page (s.contentsOf p) k = l.getD k 0
  block : ∃ b, (s.contentsOf p).toNat = b * 4096 ∧ s.pmm.marked b = true
  listed : ∃ i < s.fileCount, s.files i = p

theorem Faithful.holds {t : Traced} (h : Faithful t) {p : ℕ} {l : List U8}
    (hp : t.store p = some l) : t.fs.Holds p l :=
  ⟨h.allocated p (live_of_some hp), h.handlers p (live_of_some hp), h.length p l hp,
    h.content p l hp, h.block p (live_of_some hp), h.listed p (live_of_some hp)⟩

/-- The invariant, file by file. -/
theorem Faithful.of_holds {t : Traced} (hcount : t.fs.fileCount ≤ maxFiles)
    (hholds : ∀ p l, t.store p = some l → t.fs.Holds p l)
    (hown : ∀ p q, t.Live p → t.Live q → p ≠ q → t.fs.contentsOf p ≠ t.fs.contentsOf q) :
    Faithful t := by
  have hlive : ∀ p, t.Live p → ∃ l, t.fs.Holds p l := by
    intro p hp
    obtain ⟨l, hl⟩ := Option.isSome_iff_exists.mp hp
    exact ⟨l, hholds p l hl⟩
  constructor
  · exact hcount
  · intro p hp
    exact (hlive p hp).choose_spec.allocated
  · intro p hp
    exact (hlive p hp).choose_spec.handlers
  · intro p l hp
    exact (hholds p l hp).length
  · intro p l hp
    exact (hholds p l hp).content
  · exact hown
  · intro p hp
    exact (hlive p hp).choose_spec.block
  · intro p hp
    exact (hlive p hp).choose_spec.listed

/-- A file whose node and block are left alone. -/
theorem RAMFS.Holds.of_frame {s s' : RAMFS} {p : ℕ} {l : List U8} (h : s.Holds p l)
    (hnext : s.nextNode ≤ s'.nextNode) (hnode : s'.nodes p = s.nodes p)
    (hcontents : s'.contentsOf p = s.contentsOf p)
    (hpage : ∀ k < 4096, s'.page (s.contentsOf p) k = s.page (s.contentsOf p) k)
    (hmarked : ∀ b, s.pmm.marked b = true → s'.pmm.marked b = true)
    (hlisted : ∃ i < s'.fileCount, s'.files i = p) : s'.Holds p l := by
  constructor
  · exact Nat.lt_of_lt_of_le h.allocated hnext
  · rw [hnode]
    exact h.handlers
  · rw [hnode]
    exact h.length
  · intro k hk
    rw [hcontents, hpage k hk]
    exact h.content k hk
  · obtain ⟨b, hb, hm⟩ := h.block
    exact ⟨b, by rw [hcontents, hb], hmarked b hm⟩
  · exact hlisted

/-- A file on its own block reads back its bytes. -/
theorem read_of_faithful {t : Traced} (h : Faithful t) {p : ℕ} {l : List U8}
    (hp : t.store p = some l) {offset size : U32} (hsize : offset.toNat + size.toNat < 2 ^ 32) :
    t.fs.read p offset size = some (FileStore.read l offset.toNat size.toNat) := by
  obtain ⟨hlen, hle⟩ := h.length p l hp
  have hcontent := h.content p l hp
  rw [RAMFS.read]
  dsimp only
  by_cases hoff : offset > (t.fs.nodes p).length
  · rw [if_pos hoff]
    have : l.length < offset.toNat := by
      rw [← hlen]
      exact BitVec.lt_def.mp hoff
    rw [FileStore.read, List.drop_eq_nil_of_le (by omega), List.take_nil]
  rw [if_neg hoff]
  have hoff' : offset.toNat ≤ l.length := by
    rw [← hlen]
    exact toNat_le_of_not_lt hoff
  -- the clamped size is the number of bytes that are there
  have hn : (if offset + size > (t.fs.nodes p).length then (t.fs.nodes p).length - offset
      else size).toNat = min size.toNat (l.length - offset.toNat) := by
    rw [toNat_clamp (by omega) (by omega), hlen]
  rw [hn, if_pos (by omega), read_eq_map 0]
  refine congrArg some (List.map_congr_left fun k hk => ?_)
  have hk' := List.mem_range.mp hk
  exact hcontent _ (by omega)

theorem finddir_of_listed {s : RAMFS} {i : ℕ} (hi : i < s.fileCount) :
    ∃ q, s.finddir (s.nodes (s.files i)).name = some q ∧
      (s.nodes q).name = (s.nodes (s.files i)).name := by
  rw [RAMFS.finddir]
  cases hf : (List.range s.fileCount).find? fun j =>
      decide ((s.nodes (s.files i)).name = (s.nodes (s.files j)).name) with
  | none =>
    have := List.find?_eq_none.mp hf i (List.mem_range.mpr hi)
    simp at this
  | some j =>
    refine ⟨s.files j, rfl, ?_⟩
    have := List.find?_some hf
    exact (of_decide_eq_true this).symm

/-- **Faithful files read back.** -/
theorem reads_of_faithful {t : Traced} (h : Faithful t) : Reads t := by
  intro p l hp
  refine ⟨fun q hq hqp => h.own q p hq (live_of_some hp) hqp, (h.length p l hp).1,
    fun offset size hsize => read_of_faithful h hp hsize, ?_⟩
  obtain ⟨i, hi, rfl⟩ := h.listed p (live_of_some hp)
  exact finddir_of_listed hi

/-! ### One call -/

/-- What a successful `create_file` has done. -/
theorem createFile_cases {s s' : RAMFS} {name : CString} {content : Option CString}
    {r : Option ℕ} (hcount : s.fileCount < maxFiles)
    (h : s.createFile name content = some (s', r)) :
    ∃ pmm buffer, s.pmm.allocateBlock = (pmm, buffer) ∧ r = some s.nextNode ∧
      ((content.map CString.bytes).getD []).length < 4096 ∧
      s' = { s with
        pmm := pmm
        nodes := Function.update s.nodes s.nextNode
          { name := name, flags := fsFile, inode := s.fileCount
            length := BitVec.ofNat 32 ((content.map CString.bytes).getD []).length
            handlers := .ramfsFile }
        nextNode := s.nextNode + 1
        page := fun a k => if a = buffer ∧ k < 4096 then
          ((content.map CString.bytes).getD []).getD k 0 else s.page a k
        fileContents := Function.update s.fileContents s.fileCount buffer
        files := Function.update s.files s.fileCount s.nextNode
        fileCount := s.fileCount + 1 } := by
  rw [RAMFS.createFile, if_neg (Nat.not_le.mpr hcount)] at h
  cases hfits : name.fits 128 with
  | false =>
    rw [hfits] at h
    exact absurd h (by simp)
  | true =>
    rw [hfits] at h
    simp only [Bool.not_true, Bool.false_eq_true, if_false] at h
    by_cases hlong : 4096 ≤ ((content.map CString.bytes).getD []).length
    · rw [if_pos hlong] at h
      exact absurd h (by simp)
    · rw [if_neg hlong] at h
      rcases ha : s.pmm.allocateBlock with ⟨pmm, buffer⟩
      rw [ha] at h
      simp only [RAMFS.newNode, Option.some_inj, Prod.mk.injEq] at h
      exact ⟨pmm, buffer, rfl, h.2.symm, Nat.lt_of_not_le hlong, h.1.symm⟩

/-- A node appended to the list leaves every other one where it is. -/
theorem listed_append {files : ℕ → ℕ} {count p : ℕ} (node : ℕ)
    (h : ∃ i < count, files i = p) :
    ∃ i < count + 1, Function.update files count node i = p := by
  obtain ⟨i, hi, rfl⟩ := h
  exact ⟨i, Nat.lt_succ_of_lt hi, Function.update_of_ne (Nat.ne_of_lt hi) ..⟩

section

variable {s s' : RAMFS} {name : CString} {content : Option CString} {r : Option ℕ} {p : ℕ}
  {l : List U8}

/-- The new file. -/
theorem holds_createFile (hcount : s.fileCount < maxFiles)
    (hblock : s.pmm.allocateBlock.2 ≠ 0#32) (hcreate : s.createFile name content = some (s', r)) :
    s'.Holds s.nextNode ((content.map CString.bytes).getD []) ∧
      s'.contentsOf s.nextNode = s.pmm.allocateBlock.2 := by
  obtain ⟨pmm, buffer, ha, -, hlen, hs'⟩ := createFile_cases hcount hcreate
  rw [ha] at hblock ⊢
  obtain ⟨b, hb, -, -, -, -, hmark⟩ := PMM.allocateBlock_spec ha hblock
  set bytes := (content.map CString.bytes).getD [] with hbytes
  have hnode : s'.nodes s.nextNode = { name := name, flags := fsFile, inode := s.fileCount
                                       length := BitVec.ofNat 32 bytes.length
                                       handlers := .ramfsFile } := by
    rw [hs']
    exact Function.update_self ..
  have hcontents : s'.contentsOf s.nextNode = buffer := by
    rw [RAMFS.contentsOf, hnode, hs']
    exact Function.update_self ..
  refine ⟨?_, hcontents⟩
  constructor
  · rw [hs']
    exact Nat.lt_succ_self _
  · rw [hnode]
  · rw [hnode, BitVec.toNat_ofNat]
    exact ⟨by omega, by omega⟩
  · intro k hk
    rw [hcontents, hs']
    exact if_pos ⟨rfl, hk⟩
  · refine ⟨b, by rw [hcontents, hb], ?_⟩
    rw [hs']
    exact (hmark b).trans (by rw [decide_eq_true rfl, Bool.or_true])
  · rw [hs']
    exact ⟨s.fileCount, Nat.lt_succ_self _, Function.update_self ..⟩

/-- The files that were there; the new block is none of theirs. -/
theorem RAMFS.Holds.createFile (h : s.Holds p l) (hcount : s.fileCount < maxFiles)
    (hblock : s.pmm.allocateBlock.2 ≠ 0#32) (hslot : (s.nodes p).inode ≠ s.fileCount)
    (hcreate : s.createFile name content = some (s', r)) :
    s'.Holds p l ∧ s'.contentsOf p = s.contentsOf p ∧
      s.contentsOf p ≠ s.pmm.allocateBlock.2 := by
  obtain ⟨pmm, buffer, ha, -, -, hs'⟩ := createFile_cases hcount hcreate
  rw [ha] at hblock ⊢
  obtain ⟨b, hb, -, -, hclear, -, hmark⟩ := PMM.allocateBlock_spec ha hblock
  have hfresh : s.contentsOf p ≠ buffer := by
    intro heq
    obtain ⟨c, hc, hm⟩ := h.block
    rw [heq, hb] at hc
    rw [show c = b by omega, hclear] at hm
    exact absurd hm (by simp)
  have hnode : s'.nodes p = s.nodes p := by
    rw [hs']
    exact Function.update_of_ne (Nat.ne_of_lt h.allocated) ..
  have hcontents : s'.contentsOf p = s.contentsOf p := by
    rw [RAMFS.contentsOf, hnode, hs']
    exact Function.update_of_ne hslot ..
  refine ⟨h.of_frame ?_ hnode hcontents (fun k _ => ?_) (fun c hc => ?_) ?_, hcontents, hfresh⟩
  · rw [hs']
    exact Nat.le_succ _
  · rw [hs']
    exact if_neg fun hw => hfresh hw.1
  · rw [hs']
    exact (hmark c).trans (by rw [hc, Bool.true_or])
  · rw [hs']
    exact listed_append _ h.listed

end

theorem faithful_createFile {t t' : Traced} (h : Faithful t) {name : CString}
    {content : Option CString} (hok : (Op.createFile name content).Harmless t)
    (hstep : t.step (.createFile name content) = some t') : Faithful t' := by
  obtain ⟨⟨s', r⟩, hcreate, rfl⟩ := Option.map_eq_some_iff.mp hstep
  by_cases hfull : maxFiles ≤ t.fs.fileCount
  · rw [RAMFS.createFile, if_pos hfull, Option.some_inj, Prod.mk.injEq] at hcreate
    obtain ⟨rfl, rfl⟩ := hcreate
    exact h
  have hcount : t.fs.fileCount < maxFiles := Nat.lt_of_not_le hfull
  obtain ⟨-, -, hblock, hslot⟩ := hok.resolve_left hfull
  obtain ⟨hholds, hcontents⟩ := holds_createFile hcount hblock hcreate
  have hkept : ∀ p l, t.store p = some l → s'.Holds p l ∧ s'.contentsOf p = t.fs.contentsOf p ∧
      t.fs.contentsOf p ≠ t.fs.pmm.allocateBlock.2 := fun p l hp =>
    (h.holds hp).createFile hcount hblock
      (hslot p (h.allocated p (live_of_some hp)) (live_of_some hp)) hcreate
  have hcount' : s'.fileCount ≤ maxFiles := by
    obtain ⟨pmm, buffer, -, -, -, rfl⟩ := createFile_cases hcount hcreate
    exact hcount
  have hnew : r = some t.fs.nextNode := by
    obtain ⟨pmm, buffer, -, hr, -⟩ := createFile_cases hcount hcreate
    exact hr
  subst hnew
  set bytes := (content.map CString.bytes).getD [] with hbytes
  set new := t.fs.nextNode with hnewdef
  have hlive : ∀ p, (Function.update t.store new (some bytes) p).isSome = true →
      p = new ∨ ∃ l, t.store p = some l := by
    intro p hp
    by_cases hpn : p = new
    · exact Or.inl hpn
    · rw [Function.update_of_ne hpn] at hp
      exact Or.inr (Option.isSome_iff_exists.mp hp)
  have hstore : ∀ p l, Function.update t.store new (some bytes) p = some l →
      (p = new ∧ l = bytes) ∨ t.store p = some l := by
    intro p l hp
    by_cases hpn : p = new
    · rw [hpn, Function.update_self, Option.some_inj] at hp
      exact Or.inl ⟨hpn, hp.symm⟩
    · rw [Function.update_of_ne hpn] at hp
      exact Or.inr hp
  refine .of_holds hcount' (fun p l hp => ?_) fun p q hp hq hpq => ?_
  · rcases hstore p l hp with ⟨rfl, rfl⟩ | hp
    · exact hholds
    · exact (hkept p l hp).1
  · dsimp only
    rcases hlive p hp with rfl | ⟨l, hl⟩
    · rcases hlive q hq with rfl | ⟨l', hl'⟩
      · exact absurd rfl hpq
      · rw [hcontents, (hkept q l' hl').2.1]
        exact (hkept q l' hl').2.2.symm
    · rcases hlive q hq with rfl | ⟨l', hl'⟩
      · rw [hcontents, (hkept p l hl).2.1]
        exact (hkept p l hl).2.2
      · rw [(hkept p l hl).2.1, (hkept q l' hl').2.1]
        exact h.own p q (live_of_some hl) (live_of_some hl') hpq

/-- A call that leaves the pages alone, and the nodes and the blocks of the files that stay
alive, keeps them faithful when it leaves them listed. -/
theorem Faithful.of_frame {t t' : Traced} (h : Faithful t)
    (hstore : ∀ p l, t'.store p = some l → t.store p = some l)
    (hpmm : t'.fs.pmm = t.fs.pmm) (hpage : t'.fs.page = t.fs.page)
    (hnext : t.fs.nextNode ≤ t'.fs.nextNode)
    (hnodes : ∀ p, t.Live p → t'.fs.nodes p = t.fs.nodes p)
    (hcontents : ∀ p, t'.Live p → t'.fs.contentsOf p = t.fs.contentsOf p)
    (hcount : t'.fs.fileCount ≤ maxFiles)
    (hlisted : ∀ p, t'.Live p → ∃ i < t'.fs.fileCount, t'.fs.files i = p) : Faithful t' := by
  have hlive : ∀ p, t'.Live p → t.Live p := by
    intro p hp
    obtain ⟨l, hl⟩ := Option.isSome_iff_exists.mp hp
    exact live_of_some (hstore p l hl)
  refine .of_holds hcount (fun p l hp => ?_) fun p q hp hq hpq => ?_
  · have hp' := live_of_some hp
    exact (h.holds (hstore p l hp)).of_frame hnext (hnodes p (hlive p hp')) (hcontents p hp')
      (fun k _ => by rw [hpage]) (fun b hb => by rw [hpmm, hb]) (hlisted p hp')
  · rw [hcontents p hp, hcontents q hq]
    exact h.own p q (hlive p hp) (hlive q hq) hpq

theorem faithful_createDir {t t' : Traced} (h : Faithful t) {name : CString}
    (hstep : t.step (.createDir name) = some t') : Faithful t' := by
  obtain ⟨⟨s', r⟩, hcreate, rfl⟩ := Option.map_eq_some_iff.mp hstep
  rw [RAMFS.createDir] at hcreate
  by_cases hfull : maxFiles ≤ t.fs.fileCount
  · rw [if_pos hfull, Option.some_inj, Prod.mk.injEq] at hcreate
    obtain ⟨rfl, rfl⟩ := hcreate
    exact h
  rw [if_neg hfull] at hcreate
  cases hfits : name.fits 128 with
  | false =>
    rw [hfits] at hcreate
    exact absurd hcreate (by simp)
  | true =>
    rw [hfits] at hcreate
    simp only [Bool.not_true, Bool.false_eq_true, if_false, RAMFS.newNode, Option.some_inj,
      Prod.mk.injEq] at hcreate
    obtain ⟨rfl, rfl⟩ := hcreate
    have hnodes : ∀ p, t.Live p → ∀ n, Function.update t.fs.nodes t.fs.nextNode n p
        = t.fs.nodes p := fun p hp n => Function.update_of_ne (Nat.ne_of_lt (h.allocated p hp)) ..
    refine h.of_frame (fun p l hp => hp) rfl rfl (Nat.le_succ _) (fun p hp => hnodes p hp _)
      (fun p hp => ?_) (Nat.lt_of_not_le hfull) (fun p hp => listed_append _ (h.listed p hp))
    exact congrArg (fun n : FsNode => t.fs.fileContents n.inode) (hnodes p hp _)

theorem faithful_mount {t t' : Traced} (h : Faithful t) {node : ℕ}
    (hstep : t.step (.mount node) = some t') : Faithful t' := by
  rw [Traced.step, Option.some_inj] at hstep
  subst hstep
  rw [RAMFS.mount]
  by_cases hfull : t.fs.fileCount < maxFiles
  · rw [if_pos hfull]
    exact h.of_frame (fun p l hp => hp) rfl rfl (Nat.le_refl _) (fun p hp => rfl)
      (fun p hp => rfl) hfull (fun p hp => listed_append _ (h.listed p hp))
  · rw [if_neg hfull]
    exact h

theorem shift_of_lt {α : Type*} (f : ℕ → α) {i j : ℕ} (count : ℕ) (hj : j < i) :
    RAMFS.shift f i count j = f j := by
  rw [RAMFS.shift, if_neg (by omega)]

theorem shift_of_ge {α : Type*} (f : ℕ → α) {i j count : ℕ} (hi : i ≤ j) (hj : j < count - 1) :
    RAMFS.shift f i count j = f (j + 1) := by
  rw [RAMFS.shift, if_pos ⟨hi, hj⟩]

/-- The nodes that stay in the list when slot `i` is removed. -/
theorem listed_shift {files : ℕ → ℕ} {i count p : ℕ} (hi : i < count) (hp : p ≠ files i)
    (h : ∃ j < count, files j = p) : ∃ j < count - 1, RAMFS.shift files i count j = p := by
  obtain ⟨j, hj, rfl⟩ := h
  rcases Nat.lt_trichotomy j i with hlt | rfl | hgt
  · exact ⟨j, by omega, shift_of_lt _ _ hlt⟩
  · exact absurd rfl hp
  · refine ⟨j - 1, by omega, ?_⟩
    rw [shift_of_ge _ (by omega) (by omega), Nat.sub_add_cancel (by omega)]

theorem faithful_deleteFile {t t' : Traced} (h : Faithful t) {name : CString}
    (hok : (Op.deleteFile name).Harmless t) (hstep : t.step (.deleteFile name) = some t') :
    Faithful t' := by
  rw [Traced.step, Option.some_inj] at hstep
  subst hstep
  rw [RAMFS.deleteFile, RAMFS.finddir]
  cases hfind : (List.range t.fs.fileCount).find? fun i =>
      decide (name = (t.fs.nodes (t.fs.files i)).name) with
  | none => exact h
  | some i =>
    have hstore : ∀ p l, Function.update t.store (t.fs.files i) none p = some l →
        p ≠ t.fs.files i ∧ t.store p = some l := by
      intro p l hp
      by_cases hpi : p = t.fs.files i
      · rw [hpi, Function.update_self] at hp
        exact absurd hp (by simp)
      · rw [Function.update_of_ne hpi] at hp
        exact ⟨hpi, hp⟩
    have hlive : ∀ p, (Function.update t.store (t.fs.files i) none p).isSome = true →
        p ≠ t.fs.files i ∧ t.Live p := by
      intro p hp
      obtain ⟨l, hl⟩ := Option.isSome_iff_exists.mp hp
      exact (hstore p l hl).imp_right live_of_some
    refine h.of_frame (fun p l hp => (hstore p l hp).2) rfl rfl (Nat.le_refl _)
      (fun p hp => rfl) (fun p hp => ?_) (Nat.le_trans (Nat.sub_le _ _) h.count) (fun p hp => ?_)
    · -- the slot of a live file is not among the shifted ones
      obtain ⟨hne, hp⟩ := hlive p hp
      exact if_neg (hok i hfind p (h.allocated p hp) hp hne)
    · obtain ⟨hne, hp⟩ := hlive p hp
      have hi : i < t.fs.fileCount := List.mem_range.mp (List.mem_of_find?_eq_some hfind)
      exact listed_shift hi hne (h.listed p hp)

/-- The number of bytes that a write from inside the page copies. -/
theorem writeSize_eq {offset size : U32} (hoff : offset.toNat ≤ 4096)
    (hsum : offset.toNat + size.toNat < 2 ^ 32) :
    (if offset + size > 4096 then 4096 - offset else size).toNat
      = min size.toNat (4096 - offset.toNat) := by
  exact toNat_clamp hoff hsum

theorem write_isSome (s : RAMFS) (node : ℕ) {offset size : U32} (buffer : ℕ → U8)
    (hoff : offset.toNat ≤ 4096) (hsum : offset.toNat + size.toNat < 2 ^ 32) :
    ∃ r, s.write node offset size buffer = some r := by
  rw [RAMFS.write]
  dsimp only
  rw [writeSize_eq hoff hsum, if_pos (by omega)]
  exact ⟨_, rfl⟩

/-- What a write inside the page has done. -/
theorem write_cases {s s' : RAMFS} {node : ℕ} {offset size n : U32} {buffer : ℕ → U8}
    (hoff : offset.toNat ≤ 4096) (hsum : offset.toNat + size.toNat < 2 ^ 32)
    (h : s.write node offset size buffer = some (s', n)) :
    n.toNat = min size.toNat (4096 - offset.toNat) ∧ ∃ length : U32,
      length.toNat = max (s.nodes node).length.toNat (offset.toNat + n.toNat) ∧
      s' = { s with
        page := fun a k =>
          if a = s.contentsOf node ∧ offset.toNat ≤ k ∧ k < offset.toNat + n.toNat then
            buffer (k - offset.toNat)
          else s.page a k
        nodes := Function.update s.nodes node { s.nodes node with length := length } } := by
  have hn := writeSize_eq hoff hsum
  rw [RAMFS.write] at h
  dsimp only at h
  set m := if offset + size > 4096 then 4096 - offset else size with hm
  by_cases hcopy : offset.toNat + m.toNat ≤ 4096
  · rw [if_pos hcopy, Option.some_inj, Prod.mk.injEq] at h
    obtain ⟨rfl, rfl⟩ := h
    refine ⟨hn, _, ?_, rfl⟩
    rw [toNat_ite_gt, BitVec.toNat_add_of_lt (by omega)]
  · rw [if_neg hcopy] at h
    exact absurd h (by simp)

/-- A write leaves all blocks where they are. -/
theorem contentsOf_write {s : RAMFS} {node : ℕ} {length : U32} {page : U32 → ℕ → U8} (p : ℕ) :
    RAMFS.contentsOf { s with
      page := page
      nodes := Function.update s.nodes node { s.nodes node with length := length } } p =
      s.contentsOf p := by
  rw [RAMFS.contentsOf, RAMFS.contentsOf]
  dsimp only
  by_cases hpn : p = node
  · rw [hpn, Function.update_self]
  · rw [Function.update_of_ne hpn]

section

variable {s s' : RAMFS} {node p : ℕ} {offset size n : U32} {buffer : ℕ → U8} {l : List U8}

/-- The file that is written to. -/
theorem RAMFS.Holds.write (h : s.Holds node l) (hoff : offset.toNat ≤ 4096)
    (hsum : offset.toNat + size.toNat < 2 ^ 32)
    (hwrite : s.write node offset size buffer = some (s', n)) :
    s'.Holds node (overwrite 0 l offset.toNat ((List.range n.toNat).map buffer)) := by
  obtain ⟨hn, length, hlength, rfl⟩ := write_cases hoff hsum hwrite
  obtain ⟨hlen, hle⟩ := h.length
  have hbytes : ((List.range n.toNat).map buffer).length = n.toNat := by
    rw [List.length_map, List.length_range]
  constructor
  · exact h.allocated
  · dsimp only
    rw [Function.update_self]
    exact h.handlers
  · dsimp only
    rw [Function.update_self, length_overwrite, hbytes]
    refine ⟨?_, by omega⟩
    rw [hlength, hlen]
  · intro k hk
    rw [contentsOf_write, getD_overwrite, hbytes]
    dsimp only
    by_cases hk' : offset.toNat ≤ k ∧ k < offset.toNat + n.toNat
    · rw [if_pos ⟨rfl, hk'⟩, if_pos hk', List.getD_eq_getElem?_getD, List.getElem?_map,
        List.getElem?_range (by omega)]
      rfl
    · rw [if_neg fun hw => hk' hw.2, if_neg hk']
      exact h.content k hk
  · rw [contentsOf_write]
    exact h.block
  · exact h.listed

/-- A file with another block. -/
theorem RAMFS.Holds.write_other (h : s.Holds p l) (hpn : p ≠ node)
    (hother : s.contentsOf p ≠ s.contentsOf node) (hoff : offset.toNat ≤ 4096)
    (hsum : offset.toNat + size.toNat < 2 ^ 32)
    (hwrite : s.write node offset size buffer = some (s', n)) : s'.Holds p l := by
  obtain ⟨-, length, -, rfl⟩ := write_cases hoff hsum hwrite
  refine h.of_frame (Nat.le_refl _) (Function.update_of_ne hpn ..) (contentsOf_write p)
    (fun k _ => ?_) (fun b hb => hb) h.listed
  exact if_neg fun hw => hother hw.1

end

theorem faithful_write {t t' : Traced} (h : Faithful t) {node : ℕ} {offset size : U32}
    {buffer : ℕ → U8} (hok : (Op.write node offset size buffer).Harmless t)
    (hstep : t.step (.write node offset size buffer) = some t') : Faithful t' := by
  obtain ⟨⟨s', n⟩, hwrite, rfl⟩ := Option.map_eq_some_iff.mp hstep
  obtain ⟨hoff, hsum, htarget⟩ := hok
  dsimp only
  set bytes := (List.range n.toNat).map buffer with hbytes
  have hlive : ∀ p, (Function.update t.store node ((t.store node).map fun l =>
      overwrite 0 l offset.toNat bytes) p).isSome = true → t.Live p := by
    intro p hp
    by_cases hpn : p = node
    · rw [hpn, Function.update_self, Option.isSome_map] at hp
      exact hpn ▸ hp
    · rw [Function.update_of_ne hpn] at hp
      exact hp
  have hstore : ∀ p l, Function.update t.store node ((t.store node).map fun l =>
      overwrite 0 l offset.toNat bytes) p = some l → (p ≠ node ∧ t.store p = some l) ∨
        (p = node ∧ ∃ l', t.store p = some l' ∧ l = overwrite 0 l' offset.toNat bytes) := by
    intro p l hp
    by_cases hpn : p = node
    · subst hpn
      rw [Function.update_self] at hp
      obtain ⟨l', hl', rfl⟩ := Option.map_eq_some_iff.mp hp
      exact Or.inr ⟨rfl, l', hl', rfl⟩
    · rw [Function.update_of_ne hpn] at hp
      exact Or.inl ⟨hpn, hp⟩
  rw [RAMFS.writeNode] at hwrite
  by_cases hfile : (t.fs.nodes node).handlers = .ramfsFile
  swap
  · -- the node is not a file of this system, so not a live one
    rw [if_neg hfile, Option.some_inj, Prod.mk.injEq] at hwrite
    obtain ⟨rfl, rfl⟩ := hwrite
    refine h.of_frame (fun p l hp => ?_) rfl rfl (Nat.le_refl _) (fun p hp => rfl)
      (fun p hp => rfl) h.count (fun p hp => h.listed p (hlive p hp))
    rcases hstore p l hp with ⟨-, hp⟩ | ⟨rfl, l', hl', -⟩
    · exact hp
    · exact absurd (h.handlers p (live_of_some hl')) hfile
  rw [if_pos hfile] at hwrite
  -- another live file does not have the block that is written to
  have hother : ∀ p, t.Live p → p ≠ node → t.fs.contentsOf p ≠ t.fs.contentsOf node := by
    intro p hp hpn
    rcases htarget with hnode | hnode | hnode
    · exact h.own p node hp hnode hpn
    · exact absurd hfile hnode
    · exact hnode p (h.allocated p hp) hp
  have hframe : s'.fileCount = t.fs.fileCount ∧ ∀ p, s'.contentsOf p = t.fs.contentsOf p := by
    obtain ⟨-, length, -, rfl⟩ := write_cases hoff hsum hwrite
    exact ⟨rfl, contentsOf_write⟩
  obtain ⟨hcount, hcontents⟩ := hframe
  refine .of_holds (hcount ▸ h.count) (fun p l hp => ?_) fun p q hp hq hpq => ?_
  · rcases hstore p l hp with ⟨hpn, hp⟩ | ⟨rfl, l', hl', rfl⟩
    · exact (h.holds hp).write_other hpn (hother p (live_of_some hp) hpn) hoff hsum hwrite
    · exact (h.holds hl').write hoff hsum hwrite
  · dsimp only
    rw [hcontents, hcontents]
    exact h.own p q (hlive p hp) (hlive q hq) hpq

/-- **One harmless call keeps the files faithful.** -/
theorem faithful_step {t t' : Traced} {op : Op} (h : Faithful t) (hok : op.Harmless t)
    (hstep : t.step op = some t') : Faithful t' := by
  cases op with
  | createFile name content => exact faithful_createFile h hok hstep
  | createDir name => exact faithful_createDir h hstep
  | mount node => exact faithful_mount h hstep
  | write node offset size buffer => exact faithful_write h hok hstep
  | deleteFile name => exact faithful_deleteFile h hok hstep

/-! ### Runs -/

/-- After `RAMFS::initialize` there are no files. -/
def Traced.start (s : RAMFS) : Traced where
  fs := s.initializeRamfs.1
  store := fun _ => none

theorem faithful_start (s : RAMFS) : Faithful (Traced.start s) where
  count := Nat.zero_le _
  allocated := fun _ hp => absurd hp (by simp [Traced.Live, Traced.start])
  handlers := fun _ hp => absurd hp (by simp [Traced.Live, Traced.start])
  length := fun _ _ hp => absurd hp (by simp [Traced.start])
  content := fun _ _ hp => absurd hp (by simp [Traced.start])
  own := fun _ _ hp => absurd hp (by simp [Traced.Live, Traced.start])
  block := fun _ hp => absurd hp (by simp [Traced.Live, Traced.start])
  listed := fun _ hp => absurd hp (by simp [Traced.Live, Traced.start])

/-- **Every file reads back.**  In a run of harmless calls from `RAMFS::initialize`, each
live file reads what was last written to it. -/
theorem reads_of_run {s : RAMFS} {ops : List Op} {t : Traced}
    (hok : Guarded Traced.step (fun t op => op.Harmless t) (Traced.start s) ops)
    (hrun : run Traced.step (Traced.start s) ops = some t) : Reads t :=
  reads_of_faithful (run_invariant (fun _ _ _ h hok hstep => faithful_step h hok hstep)
    (faithful_start s) hok hrun)

/-- A machine with 512 KiB of which block 0 is in use. -/
def freshMemory : RAMFS where
  pmm :=
    { bitmap := 0x200000, words := fun i => if i = 0 then 1 else 0, maxBlocks := 128
      usedBlocks := 1, maxBlocks_lt := PMM.toNat_128_lt }
  nodes := fun _ => { name := .empty, flags := 0, inode := 0, handlers := .other }
  nextNode := 0
  files := fun _ => 0
  fileContents := fun _ => 0
  fileCount := 0
  page := fun _ _ => 0

def fileA : CString := .ofChar 0x61 (by decide)

def fileB : CString := .ofChar 0x62 (by decide)

def fileC : CString := .ofChar 0x63 (by decide)

/-- Two files; the first is written to and the second is deleted. -/
def writeAndDelete : List Op :=
  [.createFile fileA none, .createFile fileB (some fileB),
    .write 1 0 2 (fun _ => 0x41), .deleteFile fileB]

theorem reads_of_run_writeAndDelete :
    ∃ t, run Traced.step (Traced.start freshMemory) writeAndDelete = some t ∧ Reads t := by
  obtain ⟨t, ht⟩ : ∃ t, run Traced.step (Traced.start freshMemory) writeAndDelete = some t :=
    Option.isSome_iff_exists.mp (by decide +kernel)
  exact ⟨t, ht, reads_of_run (by decide +kernel) ht⟩

/-- Three files whose contents are their names; the first is deleted. -/
def createAndDelete : List Op :=
  [.createFile fileA (some fileA), .createFile fileB (some fileB), .createFile fileC (some fileC),
    .deleteFile fileA]

/-- **The wrong file is read.**  After the first of three files is deleted, the second reads
the bytes of the third. -/
theorem delete_then_read :
    ∃ t, run Traced.step (Traced.start freshMemory) createAndDelete = some t ∧
      t.store 2 = some fileB.bytes ∧ t.fs.read 2 0 1 = some fileC.bytes ∧ ¬ Reads t := by
  have hrun : (run Traced.step (Traced.start freshMemory) createAndDelete).map
      (fun t => (t.store 2, t.fs.read 2 0 1)) = some (some fileB.bytes, some fileC.bytes) := by
    decide +kernel
  obtain ⟨t, ht, hread⟩ := Option.map_eq_some_iff.mp hrun
  obtain ⟨hstore, hread⟩ := Prod.mk.inj hread
  refine ⟨t, ht, hstore, hread, fun h => ?_⟩
  have hright := (h 2 _ hstore).2.2.1 0 1 (by decide)
  rw [hread] at hright
  exact absurd hright (by decide)

end MesaOS.FS
