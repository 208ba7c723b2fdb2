/-
What the files of both systems hold, and what a write or a deletion changes.

* `content_ram`, `content_disk` — what a file holds, as its bytes in memory or on the disk;
* `write_eq_put`, `write_put` — a write inside the page, or one that does not wrap around;
* `bytesOf_put`, `Put.bytesOf` — what the file holds afterwards;
* `bytesOf_put_iff`, `Put.bytesOf_iff` — when another one holds the same as before;
* `walk_deleteFile` — where the path of a deleted file leads.
-/
import MesaOS.FileSystem

open MachineWord DirectoryWalk FileStore

namespace MesaOS.FS

/-! ### The bytes of a file -/

/-- The bytes of the file with node `p`. -/
def RAMFS.bytesOf (s : RAMFS) (p : ℕ) : List U8 :=
  (List.range (s.nodes p).length.toNat).map fun k => s.page (s.contentsOf p) k

/-- The bytes of the entry in slot `i`. -/
def MesaFS.bytesOf (s : MesaFS) (i : ℕ) : List U8 :=
  (List.range (s.entries i).length.toNat).map fun k =>
    byteAt s.baseLba s.disk (512 * (s.entries i).lbaStart.toNat + k)

@[simp] theorem RAMFS.length_bytesOf (s : RAMFS) (p : ℕ) :
    (s.bytesOf p).length = (s.nodes p).length.toNat := by
  rw [RAMFS.bytesOf, List.length_map, List.length_range]

@[simp] theorem MesaFS.length_bytesOf (s : MesaFS) (i : ℕ) :
    (s.bytesOf i).length = (s.entries i).length.toNat := by
  rw [MesaFS.bytesOf, List.length_map, List.length_range]

theorem RAMFS.getD_bytesOf (s : RAMFS) {p k : ℕ} (hk : k < (s.nodes p).length.toNat) :
    (s.bytesOf p).getD k 0 = s.page (s.contentsOf p) k := by
  rw [RAMFS.bytesOf, List.getD_eq_getElem?_getD, List.getElem?_map, List.getElem?_range hk]
  rfl

theorem MesaFS.getD_bytesOf (s : MesaFS) {i k : ℕ} (hk : k < (s.entries i).length.toNat) :
    (s.bytesOf i).getD k 0 =
      byteAt s.baseLba s.disk (512 * (s.entries i).lbaStart.toNat + k) := by
  rw [MesaFS.bytesOf, List.getD_eq_getElem?_getD, List.getElem?_map, List.getElem?_range hk]
  rfl

theorem RAMFS.read_all {s : RAMFS} {p : ℕ} (h : (s.nodes p).length.toNat ≤ 4096) :
    s.read p 0 (s.nodes p).length = some (s.bytesOf p) := by
  have hzero : (0 : U32) + (s.nodes p).length = (s.nodes p).length := BitVec.zero_add _
  have hle : (0 : U32).toNat + (s.nodes p).length.toNat ≤ 4096 := by
    rw [show (0 : U32).toNat = 0 from rfl, Nat.zero_add]
    exact h
  rw [RAMFS.read]
  dsimp only
  rw [hzero, if_neg (BitVec.not_lt.mpr (BitVec.le_def.mpr (Nat.zero_le _))),
    if_neg (BitVec.not_lt.mpr (BitVec.le_refl _)), if_pos hle]
  refine congrArg some (List.map_congr_left fun k _ => ?_)
  rw [show (0 : U32).toNat = 0 from rfl, Nat.zero_add]
  rfl

namespace FileSystem

theorem isFile_ram {s : FileSystem} {p : ℕ} (h : (s.ram.nodes p).Regular) :
    s.isFile (.ram p) = true := decide_eq_true h.flags

theorem content_ram {s : FileSystem} {p : ℕ} (h : (s.ram.nodes p).Regular) :
    s.content (.ram p) = some (s.ram.bytesOf p) := by
  rw [content, if_pos (isFile_ram h), readFs_ram h.handlers, node_ram]
  exact RAMFS.read_all h.length

theorem content_disk {s : FileSystem} {i : ℕ} (h : (s.disk.entries i).flags ≠ 2) :
    s.content (.disk i) = some (s.disk.bytesOf i) := by
  have hlen := (s.disk.entries i).length.isLt
  rw [content, if_pos (isFile_disk.mpr h), readFs_disk, read_spec _ _ _ _ (by simpa using hlen)]
  simp [MesaFS.bytesOf]

theorem content_directory {s : FileSystem} {p : ℕ} (h : (s.ram.nodes p).Directory) :
    s.content (.ram p) = none := by
  refine if_neg fun hfile => ?_
  have := of_decide_eq_true hfile
  rw [node_ram, h.flags] at this
  exact absurd this (by decide)

theorem content_of_not_file {s : FileSystem} {n : Node} (h : ¬ s.isFile n = true) :
    s.content n = none := if_neg h

end FileSystem

/-! ### Writing -/

/-- What a write of `bs` leaves: the bytes behind the page are not written. -/
def RAMFS.put (s : RAMFS) (p offset : ℕ) (bs : List U8) : RAMFS :=
  { s with
    page := fun a k =>
      if a = s.contentsOf p ∧ offset ≤ k ∧ k < min 4096 (offset + bs.length) then
        bs.getD (k - offset) 0
      else s.page a k
    nodes := Function.update s.nodes p { s.nodes p with
      length := BitVec.ofNat 32 (max (s.nodes p).length.toNat (min 4096 (offset + bs.length))) } }

theorem RAMFS.write_eq_put {s : RAMFS} {p : ℕ} {offset : U32} {bs : List U8}
    (hlen : (s.nodes p).length.toNat ≤ 4096) (hoff : offset.toNat ≤ 4096)
    (hsum : offset.toNat + bs.length < 2 ^ 32) :
    ∃ n, s.write p offset (BitVec.ofNat 32 bs.length) (fun k => bs.getD k 0) =
      some (s.put p offset.toNat bs, n) := by
  have hsize : (BitVec.ofNat 32 bs.length).toNat = bs.length := by
    rw [BitVec.toNat_ofNat, Nat.mod_eq_of_lt (by omega)]
  obtain ⟨⟨s', n⟩, hw⟩ : ∃ r, s.write p offset (BitVec.ofNat 32 bs.length)
      (fun k => bs.getD k 0) = some r := write_isSome _ _ _ hoff (by rw [hsize]; exact hsum)
  obtain ⟨hn, length, hlength, hs'⟩ := write_cases hoff (by rw [hsize]; exact hsum) hw
  rw [hsize] at hn
  refine ⟨n, hw.trans ?_⟩
  have hlength' : length =
      BitVec.ofNat 32 (max (s.nodes p).length.toNat (min 4096 (offset.toNat + bs.length))) := by
    apply BitVec.eq_of_toNat_eq
    rw [BitVec.toNat_ofNat, hlength, hn, Nat.mod_eq_of_lt (by omega)]
    omega
  have hbound : offset.toNat + n.toNat = min 4096 (offset.toNat + bs.length) := by omega
  rw [hs', RAMFS.put, ← hlength', hbound]

section

variable {s : RAMFS} {p q offset : ℕ} {bs : List U8}

theorem RAMFS.length_put (hlen : (s.nodes p).length.toNat ≤ 4096) :
    ((s.put p offset bs).nodes p).length.toNat =
      max (s.nodes p).length.toNat (min 4096 (offset + bs.length)) := by
  rw [RAMFS.put]
  dsimp only
  rw [Function.update_self, BitVec.toNat_ofNat, Nat.mod_eq_of_lt (by omega)]

theorem RAMFS.contentsOf_put (q : ℕ) : (s.put p offset bs).contentsOf q = s.contentsOf q := by
  rw [RAMFS.contentsOf, RAMFS.contentsOf, RAMFS.put]
  dsimp only
  by_cases h : q = p
  · subst h
    rw [Function.update_self]
  · rw [Function.update_of_ne h]

theorem RAMFS.nodes_put (h : q ≠ p) : (s.put p offset bs).nodes q = s.nodes q :=
  Function.update_of_ne h ..

/-- The file itself, after a write that leaves no gap. -/
theorem RAMFS.bytesOf_put (hlen : (s.nodes p).length.toNat ≤ 4096)
    (hoff : offset ≤ (s.nodes p).length.toNat) :
    (s.put p offset bs).bytesOf p = (overwrite 0 (s.bytesOf p) offset bs).take 4096 := by
  refine ext_getD 0 ?_ fun k hk => ?_
  · rw [RAMFS.length_bytesOf, RAMFS.length_put hlen, List.length_take, length_overwrite,
      RAMFS.length_bytesOf]
    omega
  · rw [RAMFS.length_bytesOf] at hk
    rw [RAMFS.getD_bytesOf _ hk, RAMFS.contentsOf_put]
    rw [RAMFS.length_put hlen] at hk
    have htake : ((overwrite 0 (s.bytesOf p) offset bs).take 4096).getD k 0 =
        (overwrite 0 (s.bytesOf p) offset bs).getD k 0 := by
      rw [List.getD_eq_getElem?_getD, List.getElem?_take, if_pos (by omega),
        List.getD_eq_getElem?_getD]
    rw [htake, getD_overwrite, RAMFS.put]
    dsimp only
    by_cases hin : offset ≤ k ∧ k < offset + bs.length
    · rw [if_pos ⟨rfl, hin.1, by omega⟩, if_pos hin]
    · rw [if_neg fun h => hin ⟨h.2.1, by omega⟩, if_neg hin, RAMFS.getD_bytesOf _ (by omega)]

theorem RAMFS.regular_put (hreg : (s.nodes p).Regular) :
    ((s.put p offset bs).nodes p).Regular := by
  refine ⟨?_, ?_, ?_⟩
  · rw [RAMFS.put]
    dsimp only
    rw [Function.update_self]
    exact hreg.handlers
  · rw [RAMFS.put]
    dsimp only
    rw [Function.update_self]
    exact hreg.flags
  · rw [RAMFS.length_put hreg.length]
    have := hreg.length
    omega

/-- Another file holds the same just when it does not read the bytes that are written, or
they are the same. -/
theorem RAMFS.bytesOf_put_iff (h : q ≠ p) :
    (s.put p offset bs).bytesOf q = s.bytesOf q ↔
      (s.contentsOf q = s.contentsOf p → ∀ k < (s.nodes q).length.toNat, offset ≤ k →
        k < min 4096 (offset + bs.length) → s.page (s.contentsOf q) k = bs.getD (k - offset) 0) := by
  rw [RAMFS.bytesOf, RAMFS.bytesOf, RAMFS.nodes_put h, RAMFS.contentsOf_put, List.map_inj_left]
  constructor
  · intro hsame hblock k hk hlow hhigh
    rw [← hsame k (List.mem_range.mpr hk), RAMFS.put]
    dsimp only
    rw [if_pos ⟨hblock, hlow, hhigh⟩]
  · intro hsame k hk
    rw [RAMFS.put]
    dsimp only
    by_cases hin : s.contentsOf q = s.contentsOf p ∧ offset ≤ k ∧
        k < min 4096 (offset + bs.length)
    · rw [if_pos hin, hsame hin.1 k (List.mem_range.mp hk) hin.2.1 hin.2.2]
    · rw [if_neg hin]

theorem RAMFS.put_nil (hlen : (s.nodes p).length.toNat ≤ 4096) :
    s.put p (s.nodes p).length.toNat [] = s := by
  have hpage : (s.put p (s.nodes p).length.toNat []).page = s.page := by
    funext a k
    rw [RAMFS.put]
    exact if_neg fun h => by simp at h; omega
  have hnodes : (s.put p (s.nodes p).length.toNat []).nodes = s.nodes := by
    have hmax : max (s.nodes p).length.toNat
        (min 4096 ((s.nodes p).length.toNat + ([] : List U8).length)) =
        (s.nodes p).length.toNat := by
      rw [List.length_nil]
      omega
    rw [RAMFS.put]
    dsimp only
    rw [hmax, BitVec.ofNat_toNat, BitVec.setWidth_eq]
    exact Function.update_eq_self ..
  rw [RAMFS.put] at hpage hnodes ⊢
  dsimp only at hpage hnodes
  rw [hpage, hnodes]

/-- Two writes, the second where the first one ended. -/
theorem RAMFS.put_put {as : List U8} (hlen : (s.nodes p).length.toNat ≤ 4096) :
    (s.put p (s.nodes p).length.toNat as).put p
        (((s.put p (s.nodes p).length.toNat as).nodes p).length.toNat) bs =
      s.put p (s.nodes p).length.toNat (as ++ bs) := by
  have hmid : ((s.put p (s.nodes p).length.toNat as).nodes p).length.toNat =
      min 4096 ((s.nodes p).length.toNat + as.length) := by
    rw [RAMFS.length_put hlen]
    omega
  rw [hmid]
  set n := (s.nodes p).length.toNat with hn
  have hpage : ((s.put p n as).put p (min 4096 (n + as.length)) bs).page =
      (s.put p n (as ++ bs)).page := by
    funext a k
    rw [RAMFS.put, RAMFS.contentsOf_put]
    dsimp only [RAMFS.put]
    rw [List.length_append]
    by_cases ha : a = s.contentsOf p
    · by_cases hbs : min 4096 (n + as.length) ≤ k ∧
          k < min 4096 (min 4096 (n + as.length) + bs.length)
      · rw [if_pos ⟨ha, hbs⟩, if_pos ⟨ha, by omega, by omega⟩,
          List.getD_append_right _ _ _ _ (by omega)]
        congr 1
        omega
      · rw [if_neg fun h => hbs h.2]
        by_cases has : n ≤ k ∧ k < min 4096 (n + as.length)
        · rw [if_pos ⟨ha, has⟩, if_pos ⟨ha, by omega, by omega⟩,
            List.getD_append _ _ _ _ (by omega)]
        · rw [if_neg fun h => has h.2, if_neg fun h => by omega]
    · rw [if_neg fun h => ha h.1, if_neg fun h => ha h.1, if_neg fun h => ha h.1]
  have hnodes : ((s.put p n as).put p (min 4096 (n + as.length)) bs).nodes =
      (s.put p n (as ++ bs)).nodes := by
    rw [RAMFS.put, hmid]
    dsimp only [RAMFS.put]
    rw [Function.update_idem, Function.update_self, List.length_append,
      show max (min 4096 (n + as.length)) (min 4096 (min 4096 (n + as.length) + bs.length)) =
        max n (min 4096 (n + (as.length + bs.length))) by omega]
  rw [RAMFS.put] at hpage hnodes ⊢
  dsimp only at hpage hnodes
  rw [hpage, hnodes]
  rfl

end

/-- What `create_file` leaves, for an empty file and while there is a slot. -/
def RAMFS.created (s : RAMFS) (name : CString) : RAMFS :=
  { s with
    pmm := s.pmm.allocateBlock.1
    nodes := Function.update s.nodes s.nextNode
      { name := name, flags := fsFile, inode := s.fileCount, handlers := .ramfsFile }
    nextNode := s.nextNode + 1
    page := fun a k => if a = s.pmm.allocateBlock.2 ∧ k < 4096 then 0 else s.page a k
    fileContents := Function.update s.fileContents s.fileCount s.pmm.allocateBlock.2
    files := Function.update s.files s.fileCount s.nextNode
    fileCount := s.fileCount + 1 }

theorem RAMFS.createFile_eq {s : RAMFS} {name : CString} (hroom : s.fileCount < maxFiles)
    (hfits : name.fits 128 = true) :
    s.createFile name (some .empty) = some (s.created name, some s.nextNode) := by
  rw [RAMFS.createFile, if_neg (Nat.not_le.mpr hroom), hfits, Bool.not_true,
    if_neg Bool.false_ne_true]
  rfl

theorem RAMFS.listed_created (s : RAMFS) (name : CString) :
    (s.created name).listed = s.listed ++ [s.nextNode] := RAMFS.listed_append rfl rfl

theorem RAMFS.regular_created (s : RAMFS) (name : CString) :
    ((s.created name).nodes s.nextNode).Regular := by
  rw [RAMFS.created]
  dsimp only
  rw [Function.update_self]
  exact ⟨rfl, rfl, Nat.zero_le _⟩

theorem RAMFS.contentsOf_created_new (s : RAMFS) (name : CString) :
    (s.created name).contentsOf s.nextNode = s.pmm.allocateBlock.2 := by
  rw [RAMFS.contentsOf, RAMFS.created]
  dsimp only
  rw [Function.update_self, Function.update_self]

theorem RAMFS.contentsOf_created {s : RAMFS} (name : CString) {q : ℕ} (hq : q ≠ s.nextNode) :
    (s.created name).contentsOf q =
      Function.update s.fileContents s.fileCount s.pmm.allocateBlock.2 (s.nodes q).inode := by
  rw [RAMFS.contentsOf, RAMFS.created]
  dsimp only
  rw [Function.update_of_ne hq]

theorem RAMFS.nodes_created {s : RAMFS} (name : CString) {q : ℕ} (hq : q ≠ s.nextNode) :
    (s.created name).nodes q = s.nodes q := Function.update_of_ne hq ..

theorem RAMFS.length_created (s : RAMFS) (name : CString) :
    ((s.created name).nodes s.nextNode).length.toNat = 0 := by
  rw [RAMFS.created]
  dsimp only
  rw [Function.update_self]
  rfl

/-- The new file has the bytes that are written to it. -/
theorem RAMFS.bytesOf_created_put (s : RAMFS) (name : CString) {bs : List U8}
    (hbs : bs.length ≤ 4096) : ((s.created name).put s.nextNode 0 bs).bytesOf s.nextNode = bs := by
  have hlen := s.length_created name
  have hempty : (s.created name).bytesOf s.nextNode = [] := by
    rw [← List.length_eq_zero_iff, RAMFS.length_bytesOf, hlen]
  have hend := overwrite_end (0 : U8) [] bs
  rw [List.length_nil, List.nil_append] at hend
  rw [RAMFS.bytesOf_put (by omega) (Nat.zero_le _), hempty, hend, List.take_of_length_le hbs]

/-- The pages after that. -/
theorem RAMFS.page_created_put (s : RAMFS) (name : CString) {bs : List U8}
    (hbs : bs.length ≤ 4096) (a : U32) {k : ℕ} (hk : k < 4096) :
    ((s.created name).put s.nextNode 0 bs).page a k =
      if a = s.pmm.allocateBlock.2 then bs.getD k 0 else s.page a k := by
  rw [RAMFS.put, RAMFS.contentsOf_created_new]
  dsimp only [RAMFS.created]
  by_cases ha : a = s.pmm.allocateBlock.2
  · rw [if_pos ha]
    by_cases hlt : k < bs.length
    · rw [if_pos ⟨ha, Nat.zero_le _, by omega⟩, Nat.sub_zero]
    · rw [if_neg fun h => hlt (by omega), if_pos ⟨ha, hk⟩, List.getD_eq_default _ _ (by omega)]
  · rw [if_neg ha, if_neg fun h => ha h.1, if_neg fun h => ha h.1]

/-! ### Writing to the disk -/

/-- What a write of `bs` at `offset` of the entry in slot `i` leaves, up to the metadata
sector. -/
structure MesaFS.Put (s s' : MesaFS) (i offset : ℕ) (bs : List U8) : Prop where
  base : s'.baseLba = s.baseLba
  entries : s'.entries = Function.update s.entries i { s.entries i with
    length := BitVec.ofNat 32 (max (s.entries i).length.toNat (offset + bs.length)) }
  bytes : ∀ a < 512 * 2 ^ 28, a / 512 ≠ 1 → byteAt s.baseLba s'.disk a =
    if 512 * (s.entries i).lbaStart.toNat + offset ≤ a ∧
        a < 512 * (s.entries i).lbaStart.toNat + offset + bs.length then
      bs.getD (a - (512 * (s.entries i).lbaStart.toNat + offset)) 0
    else byteAt s.baseLba s.disk a

theorem MesaFS.write_put {s : MesaFS} {node : FsNode} {offset : U32} {bs : List U8}
    (stack : ℕ → U8) (hlba : (s.entries node.inode).lbaStart.toNat + 2 ^ 23 ≤ 2 ^ 28)
    (hsum : offset.toNat + bs.length < 2 ^ 32) :
    ∃ s' n, s.write node offset (BitVec.ofNat 32 bs.length) (fun k => bs.getD k 0) stack =
      some (s', n) ∧ s.Put s' node.inode offset.toNat bs := by
  have hsize : (BitVec.ofNat 32 bs.length).toNat = bs.length := by
    rw [BitVec.toNat_ofNat, Nat.mod_eq_of_lt (by omega)]
  have hadd : (offset + BitVec.ofNat 32 bs.length).toNat = offset.toNat + bs.length := by
    rw [BitVec.toNat_add, hsize, Nat.mod_eq_of_lt hsum]
  obtain ⟨v, hv, -, hbytes⟩ :=
    writeData_spec s node offset (BitVec.ofNat 32 bs.length) (fun k => bs.getD k 0) hlba
  refine ⟨_, _, by rw [MesaFS.write, hv, Option.map_some], ?_⟩
  constructor
  · exact (saveMetadata_entries _ _).2
  · rw [(saveMetadata_entries _ _).1, MesaFS.setEntry]
    have hlength : (if offset + BitVec.ofNat 32 bs.length > (s.entries node.inode).length then
        offset + BitVec.ofNat 32 bs.length else (s.entries node.inode).length) =
        BitVec.ofNat 32 (max (s.entries node.inode).length.toNat (offset.toNat + bs.length)) := by
      have hold := (s.entries node.inode).length.isLt
      apply BitVec.eq_of_toNat_eq
      rw [BitVec.toNat_ofNat, Nat.mod_eq_of_lt (by omega), toNat_ite_gt, hadd]
    dsimp only
    rw [hlength]
  · intro a ha hmeta
    refine (byteAt_saveMetadata _ stack ha hmeta).trans ((hbytes a ha).trans ?_)
    have hoff := offset.isLt
    rw [hsize]
    by_cases hin : 512 * (s.entries node.inode).lbaStart.toNat + offset.toNat ≤ a ∧
        a < 512 * (s.entries node.inode).lbaStart.toNat + offset.toNat + bs.length
    · have hd : distance (s.entries node.inode).lbaStart offset a =
          a - (512 * (s.entries node.inode).lbaStart.toNat + offset.toNat) := by
        unfold distance
        omega
      rw [if_pos hin, if_pos (⟨by omega, by omega, by rw [hd]; omega⟩), hd]
    · rw [if_neg hin, if_neg]
      unfold Covers distance
      omega

/-- A new entry changes nothing on the disk but the metadata sector. -/
theorem MesaFS.createFile_frame {s s' : MesaFS} {o : Option FsNode} {name : CString}
    {uid gid mode : U32} {stack : ℕ → U8}
    (h : s.createFile name uid gid mode stack = some (s', o)) :
    s'.baseLba = s.baseLba ∧ ∀ a < 512 * 2 ^ 28, a / 512 ≠ 1 →
      byteAt s.baseLba s'.disk a = byteAt s.baseLba s.disk a := by
  cases hslot : s.freeSlot with
  | none =>
    rw [createFile, hslot, Option.some_inj, Prod.mk.injEq] at h
    obtain ⟨rfl, -⟩ := h
    exact ⟨rfl, fun _ _ _ => rfl⟩
  | some i =>
    rw [createFile, hslot] at h
    dsimp only at h
    cases hname : name.fits 64 with
    | false =>
      rw [hname] at h
      exact absurd h (by simp)
    | true =>
      rw [hname, Bool.not_true, if_neg Bool.false_ne_true] at h
      set t := ({ s with metadataValid := true } : MesaFS).setEntry i _ with ht
      have hsaved : (t.saveMetadata stack).2 = true := rfl
      rw [hsaved, Bool.not_true, if_neg Bool.false_ne_true, Option.some_inj, Prod.mk.injEq] at h
      obtain ⟨rfl, -⟩ := h
      exact ⟨(saveMetadata_entries t stack).2, fun a ha hmeta =>
        byteAt_saveMetadata t stack ha hmeta⟩

section

variable {s s' : MesaFS} {i j offset : ℕ} {bs : List U8}

theorem MesaFS.Put.length (h : s.Put s' i offset bs) (hsum : offset + bs.length < 2 ^ 32) :
    (s'.entries i).length.toNat = max (s.entries i).length.toNat (offset + bs.length) := by
  have hold := (s.entries i).length.isLt
  rw [h.entries, Function.update_self, BitVec.toNat_ofNat, Nat.mod_eq_of_lt (by omega)]

theorem MesaFS.Put.lbaStart (h : s.Put s' i offset bs) (j : ℕ) :
    (s'.entries j).lbaStart = (s.entries j).lbaStart := by
  rw [h.entries]
  by_cases hj : j = i
  · subst hj
    rw [Function.update_self]
  · rw [Function.update_of_ne hj]

theorem MesaFS.Put.refl (s : MesaFS) (i : ℕ) :
    s.Put s i (s.entries i).length.toNat [] := by
  refine ⟨rfl, ?_, fun a _ _ => (if_neg ?_).symm⟩
  · have hmax : max (s.entries i).length.toNat
        ((s.entries i).length.toNat + ([] : List U8).length) = (s.entries i).length.toNat := by
      rw [List.length_nil]
      omega
    rw [hmax, BitVec.ofNat_toNat, BitVec.setWidth_eq]
    exact (Function.update_eq_self ..).symm
  · rw [List.length_nil]
    omega

/-- Two writes, the second where the first one ended. -/
theorem MesaFS.Put.trans {s'' : MesaFS} {as : List U8} (h : s.Put s' i offset as)
    (h' : s'.Put s'' i (offset + as.length) bs)
    (hsum : offset + as.length + bs.length < 2 ^ 32) :
    s.Put s'' i offset (as ++ bs) := by
  have hlength := h.length (by omega)
  constructor
  · exact h'.base.trans h.base
  · rw [h'.entries, hlength, List.length_append]
    have hmax : max (max (s.entries i).length.toNat (offset + as.length))
        (offset + as.length + bs.length) =
        max (s.entries i).length.toNat (offset + (as.length + bs.length)) := by omega
    rw [hmax, h.entries, Function.update_idem, Function.update_self]
  · intro a ha hmeta
    have h₂ := h'.bytes a ha hmeta
    rw [h.base, h.lbaStart] at h₂
    rw [h₂, h.bytes a ha hmeta, List.length_append]
    set start := 512 * (s.entries i).lbaStart.toNat + offset with hstart
    rw [show 512 * (s.entries i).lbaStart.toNat + (offset + as.length) = start + as.length by omega]
    by_cases hbs : start + as.length ≤ a ∧ a < start + as.length + bs.length
    · rw [if_pos hbs, if_pos (by omega), List.getD_append_right _ _ _ _ (by omega)]
      congr 1
      omega
    · rw [if_neg hbs]
      by_cases has : start ≤ a ∧ a < start + as.length
      · rw [if_pos has, if_pos (by omega), List.getD_append _ _ _ _ (by omega)]
      · rw [if_neg has, if_neg (by omega)]

/-- The file itself, after a write that leaves no gap. -/
theorem MesaFS.Put.bytesOf (h : s.Put s' i offset bs) (hsum : offset + bs.length < 2 ^ 32)
    (hlow : 2 ≤ (s.entries i).lbaStart.toNat) (hhigh : (s.entries i).lbaStart.toNat ≤ 170)
    (hoff : offset ≤ (s.entries i).length.toNat) :
    s'.bytesOf i = overwrite 0 (s.bytesOf i) offset bs := by
  have hold := (s.entries i).length.isLt
  refine ext_getD 0 ?_ fun k hk => ?_
  · rw [MesaFS.length_bytesOf, h.length hsum, length_overwrite, MesaFS.length_bytesOf]
  · rw [MesaFS.length_bytesOf] at hk
    rw [MesaFS.getD_bytesOf _ hk, h.base, h.lbaStart]
    rw [h.length hsum] at hk
    rw [h.bytes _ (by omega) (by omega), getD_overwrite]
    by_cases hin : offset ≤ k ∧ k < offset + bs.length
    · rw [if_pos (by omega), if_pos hin]
      congr 1
      omega
    · rw [if_neg (by omega), if_neg hin, MesaFS.getD_bytesOf _ (by omega)]

/-- Another file holds the same just when it does not read the bytes that are written, or
they are the same. -/
theorem MesaFS.Put.bytesOf_iff (h : s.Put s' i offset bs) (hj : j ≠ i)
    (hlow : 2 ≤ (s.entries j).lbaStart.toNat) (hhigh : (s.entries j).lbaStart.toNat ≤ 170) :
    s'.bytesOf j = s.bytesOf j ↔
      ∀ k < (s.entries j).length.toNat,
        512 * (s.entries i).lbaStart.toNat + offset ≤ 512 * (s.entries j).lbaStart.toNat + k →
        512 * (s.entries j).lbaStart.toNat + k <
          512 * (s.entries i).lbaStart.toNat + offset + bs.length →
        byteAt s.baseLba s.disk (512 * (s.entries j).lbaStart.toNat + k) =
          bs.getD (512 * (s.entries j).lbaStart.toNat + k -
            (512 * (s.entries i).lbaStart.toNat + offset)) 0 := by
  have hold := (s.entries j).length.isLt
  have hentry : s'.entries j = s.entries j := by
    rw [h.entries, Function.update_of_ne hj]
  rw [MesaFS.bytesOf, MesaFS.bytesOf, hentry, h.base, List.map_inj_left]
  constructor
  · intro hsame k hk hle hlt
    rw [← hsame k (List.mem_range.mpr hk), h.bytes _ (by omega) (by omega), if_pos ⟨hle, hlt⟩]
  · intro hsame k hk
    have hk' := List.mem_range.mp hk
    rw [h.bytes _ (by omega) (by omega)]
    split
    · next hin => exact (hsame k hk' hin.1 hin.2).symm
    · rfl

end

/-! ### What a write leaves alone -/

namespace FileSystem

theorem WellFormed.regular_of_file {s : FileSystem} (hs : s.WellFormed) {p : ℕ}
    (hp : p ∈ s.ram.listed) (hfile : s.isFile (.ram p) = true) : (s.ram.nodes p).Regular := by
  refine (hs.kind p hp).resolve_right fun hdir => ?_
  have := of_decide_eq_true hfile
  rw [node_ram, hdir.flags] at this
  exact absurd this (by decide)

/-- Where a file of the disk lies. -/
theorem WellFormed.lba_of_file {s : FileSystem} (hs : s.WellFormed) {j : ℕ} (hj : j < maxEntries)
    (hfile : (s.disk.entries j).IsFile) :
    2 ≤ (s.disk.entries j).lbaStart.toNat ∧ (s.disk.entries j).lbaStart.toNat ≤ 170 := by
  rw [maxEntries] at hj
  rcases hs.placed j hj hfile.1 with ⟨-, hlba⟩ | ⟨hflags, -⟩
  · rw [hlba, BitVec.toNat_ofNat, Nat.mod_eq_of_lt (by omega)]
    omega
  · exact absurd (hfile.2.symm.trans hflags) (by decide)

theorem WellFormed.isFile_entry {s : FileSystem} (hs : s.WellFormed) {j : ℕ} (hj : s.Exists (.disk j))
    (hfile : s.isFile (.disk j) = true) : (s.disk.entries j).IsFile := by
  rcases hs.placed j hj.1 hj.2 with hp | hp
  · exact ⟨hj.2, hp.1⟩
  · exact absurd hp.1 (isFile_disk.mp hfile)

theorem isFile_of_content {s : FileSystem} {n : Node} {bytes : List U8}
    (h : s.content n = some bytes) : s.isFile n = true := by
  by_contra hfile
  rw [content_of_not_file hfile] at h
  exact absurd h (by simp)

theorem length_content {s : FileSystem} (hs : s.WellFormed) {n : Node} (hn : s.Valid n)
    {bytes : List U8} (h : s.content n = some bytes) :
    bytes.length = (s.node n).length.toNat := by
  have hfile := isFile_of_content h
  have hexists := hs.exists_of_file hn hfile
  cases n with
  | ram p =>
    rw [content_ram (hs.regular_of_file hexists hfile), Option.some_inj] at h
    rw [← h, RAMFS.length_bytesOf, node_ram]
  | disk i =>
    rw [content_disk (isFile_disk.mp hfile), Option.some_inj] at h
    rw [← h, MesaFS.length_bytesOf, length_disk]

/-- What a file of the RAM file system holds does not depend on the disk. -/
theorem content_ram_setDisk {s : FileSystem} (hs : s.WellFormed) {p : ℕ} (hp : s.Valid (.ram p))
    (disk : MesaFS) :
    ({ s with disk := disk } : FileSystem).content (.ram p) = s.content (.ram p) := by
  have hkind : (s.ram.nodes p).Regular ∨ (s.ram.nodes p).Directory := by
    rcases hp with hroot | hlisted
    · obtain rfl := Node.ram.inj hroot
      exact .inr hs.root.2
    · exact hs.kind p hlisted
  rcases hkind with hreg | hdir
  · rw [content_ram hreg, content_ram (s := { s with disk := disk }) hreg]
  · rw [content_directory hdir, content_directory (s := { s with disk := disk }) hdir]

/-- A file that is found is not the entry that is created next. -/
theorem content_createFile {s : FileSystem} {name : CString} {uid gid mode : U32}
    {stack : ℕ → U8} {disk : MesaFS} {o : Option FsNode} {n : Node} (hs : s.WellFormed)
    (hcreate : s.disk.createFile name uid gid mode stack = some (disk, o)) (hn : s.Valid n) :
    ({ s with disk := disk } : FileSystem).content n = s.content n := by
  cases n with
  | ram p => exact content_ram_setDisk hs hn disk
  | disk j =>
    have hj : s.Exists (.disk j) := hn.resolve_left (by simp)
    have hentry : disk.entries j = s.disk.entries j := by
      rcases MesaFS.createFile_cases hcreate with ⟨rfl, -⟩ | ⟨i, e, -, hslot, -, -, -, hentries, -, -⟩
      · rfl
      · have hji : j ≠ i := by
          rintro rfl
          exact absurd (hj.2.symm.trans (freeSlot_spec hslot).2) (by simp)
        rw [hentries, Function.update_of_ne hji]
    obtain ⟨hbase, hbytes⟩ := MesaFS.createFile_frame hcreate
    by_cases hdir : (s.disk.entries j).flags = 2
    · rw [content_of_not_file fun hw => isFile_disk.mp hw hdir, content_of_not_file]
      intro hw
      exact isFile_disk.mp hw (hentry ▸ hdir)
    · have hfile := hs.isFile_entry hj (isFile_disk.mpr hdir)
      obtain ⟨hlow, hhigh⟩ := hs.lba_of_file hj.1 hfile
      have hlen := (s.disk.entries j).length.isLt
      rw [content_disk hdir, content_disk (by rw [hentry]; exact hdir)]
      dsimp only
      rw [MesaFS.bytesOf, MesaFS.bytesOf, hentry, hbase]
      refine congrArg some (List.map_congr_left fun k hk => ?_)
      have := List.mem_range.mp hk
      exact hbytes _ (by omega) (by omega)

/-- A write from the start of a file keeps what lies behind it. -/
theorem content_writeFs_start {s : FileSystem} (hs : s.WellFormed) {n : Node} (hn : s.Valid n)
    {old bs : List U8} (hold : s.content n = some old) (hbs : bs.length ≤ 4096)
    (stack : ℕ → U8) :
    ∃ s' m, s.writeFs n 0 (BitVec.ofNat 32 bs.length) (bufferOf bs) stack = some (s', m) ∧
      s'.content n = some (bs ++ old.drop bs.length) := by
  have hfile := isFile_of_content hold
  have hexists := hs.exists_of_file hn hfile
  have hzero : (0 : U32).toNat = 0 := rfl
  cases n with
  | ram p =>
    have hreg := hs.regular_of_file hexists hfile
    have hlen := hreg.length
    rw [content_ram hreg, Option.some_inj] at hold
    obtain ⟨m, hwrite⟩ : ∃ m, s.ram.write p 0 (BitVec.ofNat 32 bs.length) (bufferOf bs) =
        some (s.ram.put p 0 bs, m) :=
      RAMFS.write_eq_put hlen (by rw [hzero]; omega) (by rw [hzero]; omega)
    refine ⟨{ s with ram := s.ram.put p 0 bs }, m, ?_, ?_⟩
    · rw [writeFs_ram hreg.handlers, hwrite]
      rfl
    · rw [content_ram (RAMFS.regular_put hreg)]
      dsimp only
      rw [RAMFS.bytesOf_put hlen (Nat.zero_le _), overwrite_start, hold, List.take_of_length_le]
      rw [List.length_append, List.length_drop, ← hold, RAMFS.length_bytesOf]
      omega
  | disk i =>
    have hflags := isFile_disk.mp hfile
    obtain ⟨hlow, hhigh⟩ := hs.lba_of_file hexists.1 (hs.isFile_entry hexists hfile)
    rw [content_disk hflags, Option.some_inj] at hold
    have hlba : (s.disk.entries (s.node (.disk i)).inode).lbaStart.toNat + 2 ^ 23 ≤ 2 ^ 28 := by
      rw [inode_disk]
      omega
    have hsum : (0 : U32).toNat + bs.length < 2 ^ 32 := by
      rw [hzero]
      omega
    obtain ⟨disk, m, hwrite, hput⟩ := MesaFS.write_put stack hlba hsum
    rw [inode_disk, hzero] at hput
    have hflags' : (disk.entries i).flags ≠ 2 := by
      rw [hput.entries, Function.update_self]
      exact hflags
    refine ⟨{ s with disk := disk }, m, ?_, ?_⟩
    · rw [writeFs_disk]
      exact congrArg (Option.map _) hwrite
    · rw [content_disk hflags']
      dsimp only
      rw [hput.bytesOf (by omega) hlow hhigh (Nat.zero_le _), overwrite_start, hold]

/-- A change of one node's length leaves all names and kinds as they are. -/
theorem finddirFs_setNodeLength (s : FileSystem) {ram : RAMFS} {p : ℕ} {length : U32}
    (hnodes : ram.nodes =
      Function.update s.ram.nodes p { s.ram.nodes p with length := length })
    (hlisted : ram.listed = s.ram.listed) :
    ({ s with ram := ram } : FileSystem).finddirFs = s.finddirFs := by
  have hnode : ∀ q, (ram.nodes q).name = (s.ram.nodes q).name ∧
      (ram.nodes q).flags = (s.ram.nodes q).flags ∧
      (ram.nodes q).handlers = (s.ram.nodes q).handlers := by
    intro q
    rw [hnodes]
    by_cases hq : q = p
    · subst hq
      rw [Function.update_self]
      exact ⟨rfl, rfl, rfl⟩
    · rw [Function.update_of_ne hq]
      exact ⟨rfl, rfl, rfl⟩
  refine finddirFs_congr (fun n => ?_) (funext fun name => ?_) rfl
  · cases n with
    | ram q => exact (hnode q).2
    | disk i => exact ⟨rfl, rfl⟩
  · dsimp only
    rw [RAMFS.finddir_eq, RAMFS.finddir_eq, hlisted]
    refine List.find?_congr fun q _ => ?_
    rw [(hnode q).1]

/-- A change of one entry's length leaves all names and kinds as they are. -/
theorem finddirFs_setLength (s : FileSystem) {disk : MesaFS} {i : ℕ} {length : U32}
    (hentries : disk.entries =
      Function.update s.disk.entries i { s.disk.entries i with length := length }) :
    ({ s with disk := disk } : FileSystem).finddirFs = s.finddirFs := by
  have hentry : ∀ j, (disk.entries j).name = (s.disk.entries j).name ∧
      (disk.entries j).present = (s.disk.entries j).present ∧
      (disk.entries j).flags = (s.disk.entries j).flags := by
    intro j
    rw [hentries]
    by_cases hj : j = i
    · subst hj
      rw [Function.update_self]
      exact ⟨rfl, rfl, rfl⟩
    · rw [Function.update_of_ne hj]
      exact ⟨rfl, rfl, rfl⟩
  refine finddirFs_congr (fun n => ?_) rfl (funext fun name => ?_)
  · cases n with
    | ram q => exact ⟨rfl, rfl⟩
    | disk j =>
      refine ⟨?_, rfl⟩
      show (if (disk.entries j).flags = 2 then fsDirectory else fsFile) =
        if (s.disk.entries j).flags = 2 then fsDirectory else fsFile
      rw [(hentry j).2.2]
  · dsimp only
    refine List.find?_congr fun j _ => ?_
    rw [(hentry j).1, (hentry j).2.1]

/-- The same paths and registries, and no entry shorter than before. -/
structure SamePaths (s s' : FileSystem) : Prop where
  root : s'.root = s.root
  finddirFs : s'.finddirFs = s.finddirFs
  listed : s'.ram.listed = s.ram.listed
  nextNode : s'.ram.nextNode = s.ram.nextNode
  length : ∀ i, (s.disk.entries i).length.toNat ≤ (s'.disk.entries i).length.toNat

theorem SamePaths.findPath {s s' : FileSystem} (h : s.SamePaths s') (path : CString) :
    s'.findPath path = s.findPath path := by
  rw [findPath_eq, findPath_eq, h.finddirFs, h.root]

theorem SamePaths.trans {s s' s'' : FileSystem} (h : s.SamePaths s') (h' : s'.SamePaths s'') :
    s.SamePaths s'' :=
  ⟨h'.root.trans h.root, h'.finddirFs.trans h.finddirFs, h'.listed.trans h.listed,
    h'.nextNode.trans h.nextNode, fun i => Nat.le_trans (h.length i) (h'.length i)⟩

theorem SamePaths.refl (s : FileSystem) : s.SamePaths s :=
  ⟨rfl, rfl, rfl, rfl, fun _ => Nat.le_refl _⟩

theorem samePaths_writeFs {s s' : FileSystem} (hs : s.WellFormed) {n : Node} (hn : s.Valid n)
    {offset size m : U32} {buffer stack : ℕ → U8}
    (h : s.writeFs n offset size buffer stack = some (s', m)) :
    s'.WellFormed ∧ s.SamePaths s' := by
  have hdirectory : ∀ p, n = .ram p → (s.ram.nodes p).Directory →
      s'.WellFormed ∧ s.SamePaths s' := by
    rintro p rfl hdir
    rw [writeFs_directory hdir.handlers, Option.some_inj, Prod.mk.injEq] at h
    exact h.1 ▸ ⟨hs, .refl s⟩
  rcases hn with rfl | hn
  · exact hdirectory _ rfl hs.root.2
  refine ⟨wellFormed_write hs hn h, ?_⟩
  cases n with
  | ram p =>
    rcases hs.kind p hn with hreg | hdir
    · rw [writeFs_ram hreg.handlers] at h
      obtain ⟨⟨ram, k⟩, hwrite, heq⟩ := Option.map_eq_some_iff.mp h
      obtain ⟨rfl, -⟩ := Prod.mk.inj heq
      obtain ⟨length, page, -, rfl⟩ := RAMFS.write_node hreg.length hwrite
      exact ⟨rfl, finddirFs_setNodeLength s rfl rfl, rfl, rfl, fun _ => Nat.le_refl _⟩
    · exact (hdirectory p rfl hdir).2
  | disk i =>
    rw [writeFs_disk] at h
    obtain ⟨⟨disk, k⟩, hwrite, heq⟩ := Option.map_eq_some_iff.mp h
    obtain ⟨rfl, -⟩ := Prod.mk.inj heq
    obtain ⟨v, -, hv⟩ := Option.map_eq_some_iff.mp hwrite
    obtain ⟨rfl, -⟩ := Prod.mk.inj hv
    rw [inode_disk]
    set length : U32 := if offset + size > (s.disk.entries i).length then offset + size
      else (s.disk.entries i).length with hlength
    have hle : (s.disk.entries i).length.toNat ≤ length.toNat := by
      rw [hlength, toNat_ite_gt]
      exact Nat.le_max_left ..
    refine ⟨rfl, finddirFs_setLength s (saveMetadata_entries _ _).1, rfl, rfl, fun j => ?_⟩
    dsimp only
    rw [(saveMetadata_entries _ _).1, MesaFS.setEntry]
    dsimp only
    by_cases hj : j = i
    · subst hj
      rw [Function.update_self]
      exact hle
    · rw [Function.update_of_ne hj]

end FileSystem

/-! ### Paths of files that come and go -/

theorem RAMFS.name_of_finddir {s : RAMFS} {name : CString} {p : ℕ}
    (h : s.finddir name = some p) : (s.nodes p).name = name := by
  rw [RAMFS.finddir_eq] at h
  have := List.find?_some h
  exact (of_decide_eq_true this).symm

namespace FileSystem

/-- The last name of the path is `c`, and the ones before it lead to a directory `shows`. -/
def Leads (s : FileSystem) (shows : Node → Prop) (path c : CString) : Prop :=
  (components path).getLast? = some c ∧
    ∃ d ∈ walk s.finddirFs (.ram s.root) (components path).dropLast, shows d

instance (s : FileSystem) (shows : Node → Prop) [DecidablePred shows] (path c : CString) :
    Decidable (s.Leads shows path c) := inferInstanceAs (Decidable (_ ∧ _))

theorem leads_iff {s : FileSystem} {shows : Node → Prop} {path c : CString} :
    s.Leads shows path c ↔ ∃ ds d, components path = ds ++ [c] ∧
      walk s.finddirFs (.ram s.root) ds = some d ∧ shows d := by
  constructor
  · rintro ⟨hlast, d, hd, hshows⟩
    obtain ⟨ds, hds⟩ := List.getLast?_eq_some_iff.mp hlast
    rw [hds, List.dropLast_concat] at hd
    exact ⟨ds, d, hds, hd, hshows⟩
  · rintro ⟨ds, d, hds, hd, hshows⟩
    refine ⟨?_, d, ?_, hshows⟩
    · rw [hds, List.getLast?_concat]
    · rw [hds, List.dropLast_concat]
      exact hd

/-- A lookup that finds a node of the RAM file system. -/
theorem showsRam_of_finddirFs {s : FileSystem} {n : Node} {name : CString} {p : ℕ}
    (h : s.finddirFs n name = some (.ram p)) :
    s.ShowsRam n ∧ s.ram.finddir name = some p ∧ (s.ram.nodes p).name = name := by
  rw [finddirFs_eq] at h
  split at h
  · next hn =>
    obtain ⟨q, hq, heq⟩ := Option.map_eq_some_iff.mp h
    rw [Node.ram.injEq] at heq
    subst heq
    exact ⟨hn, hq, RAMFS.name_of_finddir hq⟩
  · split at h
    · obtain ⟨i, -, heq⟩ := Option.map_eq_some_iff.mp h
      exact absurd heq (by simp)
    · exact absurd h (by simp)

section

variable {s : FileSystem} {name : CString} {d : ℕ}

/-- A deletion takes one node out of the registry, and no other name denotes something else
afterwards. -/
theorem finddirFs_deleteFile (hd : s.ram.finddir name = some d) (n : Node) (k : CString)
    (m : Node) (h : s.finddirFs n k = some m) (hne : m ≠ .ram d) :
    ({ s with ram := (s.ram.deleteFile name).1 } : FileSystem).finddirFs n k = some m := by
  set s₁ : FileSystem := { s with ram := (s.ram.deleteFile name).1 } with hs₁
  obtain ⟨hnodes, -, -, -⟩ := s.ram.deleteFile_frame name
  have hnode : s₁.node n = s.node n := by
    cases n with
    | ram p => exact congrFun hnodes p
    | disk i => rfl
  have hram : s₁.ShowsRam n ↔ s.ShowsRam n := by
    unfold ShowsRam
    rw [hnode]
  have hdisk : s₁.ShowsDisk n ↔ s.ShowsDisk n := by
    unfold ShowsDisk
    rw [hnode]
  rw [finddirFs_eq] at h ⊢
  rw [if_congr hram rfl rfl, if_congr hdisk rfl rfl]
  by_cases hshows : s.ShowsRam n
  · rw [if_pos hshows] at h ⊢
    obtain ⟨p, hp, rfl⟩ := Option.map_eq_some_iff.mp h
    obtain ⟨i, hi, hslot, hfiles⟩ := RAMFS.slotOf_some hd
    rw [RAMFS.finddir_eq] at hp ⊢
    rw [hs₁]
    dsimp only
    rw [RAMFS.listed_deleteFile hslot, hnodes, find?_eraseIdx hp]
    · rfl
    · rw [RAMFS.listed, List.getElem?_map, List.getElem?_range hi, Option.map_some, hfiles]
      rintro hdp
      rw [Option.some_inj] at hdp
      exact hne (congrArg Node.ram hdp.symm)
  · rw [if_neg hshows] at h ⊢
    exact h

theorem listed_of_deleteFile (hs : s.WellFormed) (hd : s.ram.finddir name = some d) {p : ℕ} :
    p ∈ (s.ram.deleteFile name).1.listed ↔ p ∈ s.ram.listed ∧ p ≠ d := by
  obtain ⟨i, hi, hslot, hfiles⟩ := RAMFS.slotOf_some hd
  have hget : s.ram.listed[i]? = some d := by
    rw [RAMFS.listed, List.getElem?_map, List.getElem?_range hi, Option.map_some, hfiles]
  rw [RAMFS.listed_deleteFile hslot, List.mem_eraseIdx_iff_getElem?]
  constructor
  · rintro ⟨j, hji, hj⟩
    refine ⟨List.mem_of_getElem? hj, ?_⟩
    rintro rfl
    have hlen : i < s.ram.listed.length := (List.getElem?_eq_some_iff.mp hget).1
    exact hji ((List.getElem?_inj hlen hs.distinct).mp (hget.trans hj.symm)).symm
  · rintro ⟨hp, hne⟩
    obtain ⟨j, hj⟩ := List.getElem?_of_mem hp
    refine ⟨j, ?_, hj⟩
    rintro rfl
    rw [hget, Option.some_inj] at hj
    exact hne hj.symm

/-- The path of a file that is found under its whole name leads to the next file of that
name, once it is deleted. -/
theorem walk_deleteFile {path : CString} (hd : s.ram.finddir name = some d)
    (hfile : s.isFile (.ram d) = true) (hroot : s.root ≠ d)
    (hpath : s.findPath path = some (.ram d)) :
    ({ s with ram := (s.ram.deleteFile name).1 } : FileSystem).Leads
        ({ s with ram := (s.ram.deleteFile name).1 } : FileSystem).ShowsRam path name ∧
      ({ s with ram := (s.ram.deleteFile name).1 } : FileSystem).findPath path =
        ((s.ram.deleteFile name).1.finddir name).map .ram := by
  set s₁ : FileSystem := { s with ram := (s.ram.deleteFile name).1 } with hs₁
  rw [findPath_eq] at hpath
  obtain ⟨ds, m, k, hcs, hm, hk⟩ := walk_last hpath fun h => hroot (Node.ram.inj h).symm
  obtain ⟨hshows, -, hname⟩ := showsRam_of_finddirFs hk
  obtain rfl : name = k := (RAMFS.name_of_finddir hd).symm.trans hname
  -- the directories before the last name are not the file
  have hmd : m ≠ .ram d := by
    rintro rfl
    have := hshows.1
    rw [of_decide_eq_true hfile] at this
    exact absurd this (by decide)
  have hm₁ : walk s₁.finddirFs (.ram s₁.root) ds = some m :=
    walk_of_removed (finddirFs_file hfile) (finddirFs_deleteFile hd) hm hmd
  have hshows₁ : s₁.ShowsRam m := by
    unfold ShowsRam
    have hnode : s₁.node m = s.node m := by
      cases m with
      | ram p => exact congrFun (s.ram.deleteFile_frame name).1 p
      | disk i => rfl
    rw [hnode]
    exact hshows
  refine ⟨leads_iff.mpr ⟨ds, m, hcs, hm₁, hshows₁⟩, ?_⟩
  rw [findPath_eq, hcs, walk_concat, hm₁, Option.bind_some, finddirFs_eq, if_pos hshows₁]

end

section

variable {s s' : FileSystem} {shows shows' : Node → Prop} {path c : CString} {x : Node}

/-- A new file is where the path leads that ends with its name. -/
theorem findPath_new (h : Extends s.Valid shows s.finddirFs s'.finddirFs c x)
    (hroot : s'.root = s.root) (hnone : s.findPath path = none) (hleads : s.Leads shows path c) :
    s'.findPath path = some x := by
  obtain ⟨ds, d, hcs, hd, hshows⟩ := leads_iff.mp hleads
  rw [findPath_eq, hcs] at hnone ⊢
  rw [hroot]
  exact walk_extends_new h s.valid_root hd hshows hnone

theorem findPath_still_none (h : Extends s.Valid shows s.finddirFs s'.finddirFs c x)
    (hroot : s'.root = s.root) (hnone : s.findPath path = none)
    (hleads : ¬ s.Leads shows path c) : s'.findPath path = none := by
  rw [findPath_eq] at hnone ⊢
  rw [hroot]
  exact walk_extends_none h s.valid_root hnone fun hw => hleads (leads_iff.mpr hw)

/-- The new file does not make any path lead to a directory. -/
theorem leads_of_extends (h : Extends s.Valid shows s.finddirFs s'.finddirFs c x)
    (hroot : s'.root = s.root) (hshows : ∀ d, d ≠ x → s.Valid d → shows' d → shows d)
    (hx : ¬ shows' x) (hleads : s'.Leads shows' path c) : s.Leads shows path c := by
  obtain ⟨ds, d, hcs, hd, hd'⟩ := leads_iff.mp hleads
  have hne : d ≠ x := by
    rintro rfl
    exact hx hd'
  rw [hroot] at hd
  have hold := walk_of_extends h s.valid_root hd hne
  exact leads_iff.mpr ⟨ds, d, hcs, hold, hshows d hne (valid_of_walk hold) hd'⟩

end

end FileSystem

end MesaOS.FS
