/-
The extents of the files on the disk.

Every file has ten sectors, but `write` does not stop at their end, and a
directory, whose first sector is the partition's own, can be written to through
the node that `finddir` returns.  `overrun_read` is a write behind the end of one
file that changes the next one.

* `Apart` — the write covers no byte of the metadata sector, of another file's
  extent or of what another file reads;
* `write_frame_iff` — that is when a write, in whatever state a run leads to and
  with whatever buffer, leaves the other files and the metadata sector alone.
-/
import MesaOS.MesaFS

open MachineWord Runs

namespace MesaOS.FS

/-! ### Nodes handed out -/

/-- The file system and the nodes that its callers have. -/
structure Session where
  fs : MesaFS
  nodes : List FsNode

/-- A call of the interface; `stack` is what `save_metadata` finds in its header. -/
inductive Request where
  | createFile (name : CString) (uid gid mode : U32) (stack : ℕ → U8)
  | createDir (name : CString) (uid gid mode : U32) (stack : ℕ → U8)
  | finddir (name : CString)
  | write (n : ℕ) (offset size : U32) (buffer stack : ℕ → U8)

def Session.step (s : Session) : Request → Option Session
  | .createFile name uid gid mode stack =>
    (s.fs.createFile name uid gid mode stack).map fun (fs, node) =>
      { fs := fs, nodes := s.nodes ++ node.toList }
  | .createDir name uid gid mode stack =>
    (s.fs.createDir name uid gid mode stack).map fun (fs, node) =>
      { fs := fs, nodes := s.nodes ++ node.toList }
  | .finddir name => some { s with nodes := s.nodes ++ (s.fs.finddir name).toList }
  | .write n offset size buffer stack =>
    s.nodes[n]?.bind fun node =>
      (s.fs.write node offset size buffer stack).map fun (fs, _) => { s with fs := fs }

def Session.start (base : U32) (disk : Disk) : Session :=
  { fs := .initializeMesafs base disk, nodes := [] }

/-! ### Where entries lie -/

def MesaFSEntry.IsFile (e : MesaFSEntry) : Prop := e.present = true ∧ e.flags = 1

instance (e : MesaFSEntry) : Decidable e.IsFile := inferInstanceAs (Decidable (_ ∧ _))

/-- Entry `k` lies where `create_file` or `create_dir` put it. -/
def MesaFSEntry.Placed (e : MesaFSEntry) (k : ℕ) : Prop :=
  (e.flags = 1 ∧ e.lbaStart = BitVec.ofNat 32 (100 + k * 10)) ∨ (e.flags = 2 ∧ e.lbaStart = 0)

/-- What holds after every run. -/
structure WellPlaced (s : Session) : Prop where
  entries : ∀ k < maxEntries, (s.fs.entries k).present = true → (s.fs.entries k).Placed k
  nodes : ∀ node ∈ s.nodes, node.inode < maxEntries ∧ (s.fs.entries node.inode).present = true

theorem saveMetadata_entries (s : MesaFS) (stack : ℕ → U8) :
    (s.saveMetadata stack).1.entries = s.entries ∧
      (s.saveMetadata stack).1.baseLba = s.baseLba := by
  rw [MesaFS.saveMetadata]
  split <;> exact ⟨rfl, rfl⟩

theorem freeSlot_spec {s : MesaFS} {i : ℕ} (h : s.freeSlot = some i) :
    i < maxEntries ∧ (s.entries i).present = false := by
  refine ⟨List.mem_range.mp (List.mem_of_find?_eq_some h), ?_⟩
  have := List.find?_some h
  simpa using this

/-- A registry in which one entry has been replaced by a present one in its place is as
well placed as before. -/
theorem WellPlaced.update {s s' : Session} (h : WellPlaced s) {i : ℕ} {e : MesaFSEntry}
    (hentries : s'.fs.entries = Function.update s.fs.entries i e) (he : e.present = true)
    (hplace : e.Placed i) (hnodes : ∀ node ∈ s'.nodes, node ∈ s.nodes ∨
      node.inode < maxEntries ∧ node.inode = i) : WellPlaced s' := by
  refine ⟨fun k hk hp => ?_, fun node hnode => ?_⟩
  · rw [hentries] at hp ⊢
    by_cases hki : k = i
    · subst hki
      rw [Function.update_self]
      exact hplace
    · rw [Function.update_of_ne hki] at hp ⊢
      exact h.entries k hk hp
  · rw [hentries]
    by_cases hki : node.inode = i
    · rw [hki, Function.update_self]
      refine ⟨?_, he⟩
      rcases hnodes node hnode with hold | ⟨hlt, -⟩
      · exact hki ▸ (h.nodes node hold).1
      · exact hki ▸ hlt
    · rw [Function.update_of_ne hki]
      exact h.nodes node ((hnodes node hnode).resolve_right fun hw => hki hw.2)

/-! ### What a request does -/

/-- `create_file` and `create_dir` on a registry with a free entry. -/
theorem MesaFS.createFile_spec {s : MesaFS} {i : ℕ} (hslot : s.freeSlot = some i)
    {name : CString} (hname : name.fits 64 = true) (uid gid mode : U32) (stack : ℕ → U8) :
    ∃ s' node, s.createFile name uid gid mode stack = some (s', some node) ∧ node.inode = i ∧
      s'.entries = Function.update s.entries i
        { name := name, lbaStart := BitVec.ofNat 32 (100 + i * 10), length := 0, uid := uid
          gid := gid, mode := mode, flags := 1, present := true } := by
  rw [createFile, hslot]
  dsimp only
  rw [hname]
  simp only [saveMetadata, setEntry, if_true, Bool.not_true, Bool.false_eq_true, if_false]
  exact ⟨_, _, rfl, rfl, rfl⟩

theorem MesaFS.createDir_spec {s : MesaFS} {i : ℕ} (hslot : s.freeSlot = some i)
    {name : CString} (hname : name.fits 64 = true) (uid gid mode : U32) (stack : ℕ → U8) :
    ∃ s' node, s.createDir name uid gid mode stack = some (s', some node) ∧ node.inode = i ∧
      s'.entries = Function.update s.entries i
        { name := name, lbaStart := 0, length := 0, uid := uid, gid := gid, mode := mode
          flags := 2, present := true } := by
  rw [createDir, hslot]
  dsimp only
  rw [hname, Bool.not_true, if_neg Bool.false_ne_true]
  exact ⟨_, _, rfl, rfl, (saveMetadata_entries _ _).1⟩

/-- Nothing, or a present entry in the first free slot and a node for it. -/
def MesaFS.Created (s s' : MesaFS) (o : Option FsNode) : Prop :=
  (s' = s ∧ o = none) ∨ ∃ i e node, s.freeSlot = some i ∧ e.present = true ∧
    e.name.fits 64 = true ∧ e.Placed i ∧ s'.entries = Function.update s.entries i e ∧
    o = some node ∧ node.inode = i

theorem MesaFS.createFile_cases {s s' : MesaFS} {o : Option FsNode} {name : CString}
    {uid gid mode : U32} {stack : ℕ → U8}
    (h : s.createFile name uid gid mode stack = some (s', o)) : s.Created s' o := by
  cases hslot : s.freeSlot with
  | none =>
    rw [createFile, hslot, Option.some_inj, Prod.mk.injEq] at h
    exact .inl ⟨h.1.symm, h.2.symm⟩
  | some i =>
    cases hname : name.fits 64 with
    | false =>
      rw [createFile, hslot] at h
      dsimp only at h
      rw [hname] at h
      exact absurd h (by simp)
    | true =>
      obtain ⟨fs, node, hcreate, hinode, hentries⟩ :=
        createFile_spec hslot hname uid gid mode stack
      rw [hcreate, Option.some_inj, Prod.mk.injEq] at h
      obtain ⟨rfl, rfl⟩ := h
      exact .inr ⟨i, _, node, hslot, rfl, hname, .inl ⟨rfl, rfl⟩, hentries, rfl, hinode⟩

theorem MesaFS.createDir_cases {s s' : MesaFS} {o : Option FsNode} {name : CString}
    {uid gid mode : U32} {stack : ℕ → U8}
    (h : s.createDir name uid gid mode stack = some (s', o)) : s.Created s' o := by
  cases hslot : s.freeSlot with
  | none =>
    rw [createDir, hslot, Option.some_inj, Prod.mk.injEq] at h
    exact .inl ⟨h.1.symm, h.2.symm⟩
  | some i =>
    cases hname : name.fits 64 with
    | false =>
      rw [createDir, hslot] at h
      dsimp only at h
      rw [hname] at h
      exact absurd h (by simp)
    | true =>
      obtain ⟨fs, node, hcreate, hinode, hentries⟩ :=
        createDir_spec hslot hname uid gid mode stack
      rw [hcreate, Option.some_inj, Prod.mk.injEq] at h
      obtain ⟨rfl, rfl⟩ := h
      exact .inr ⟨i, _, node, hslot, rfl, hname, .inr ⟨rfl, rfl⟩, hentries, rfl, hinode⟩

/-- What a step leads to: the same registry, and nodes of present entries; or a new entry in the
first free slot, and a node for it; or another length in an entry that has a node. -/
inductive Session.Next (s s' : Session) : Prop where
  | looked (hentries : s'.fs.entries = s.fs.entries)
      (hnodes : ∀ node ∈ s'.nodes, node ∈ s.nodes ∨
        node.inode < maxEntries ∧ (s.fs.entries node.inode).present = true)
  | created (i : ℕ) (e : MesaFSEntry) (hslot : s.fs.freeSlot = some i) (he : e.present = true)
      (hname : e.name.fits 64 = true) (hplace : e.Placed i)
      (hentries : s'.fs.entries = Function.update s.fs.entries i e)
      (hnodes : ∀ node ∈ s'.nodes, node ∈ s.nodes ∨ node.inode = i)
  | written (node : FsNode) (length : U32) (hnode : node ∈ s.nodes) (hnodes : s'.nodes = s.nodes)
      (hentries : s'.fs.entries = Function.update s.fs.entries node.inode
        { s.fs.entries node.inode with length := length })

theorem MesaFS.Created.next {s : Session} {fs : MesaFS} {o : Option FsNode}
    (h : s.fs.Created fs o) : s.Next { fs := fs, nodes := s.nodes ++ o.toList } := by
  rcases h with ⟨rfl, rfl⟩ | ⟨i, e, node, hslot, he, hname, hplace, hentries, rfl, hinode⟩
  · refine .looked rfl fun node hnode => .inl ?_
    simpa using hnode
  · refine .created i e hslot he hname hplace hentries fun node' hnode' => ?_
    rcases List.mem_append.mp hnode' with hold | hnew
    · exact .inl hold
    · rw [Option.toList_some, List.mem_singleton] at hnew
      exact .inr (hnew ▸ hinode)

theorem Session.step_cases {s s' : Session} {r : Request} (hstep : s.step r = some s') :
    s.Next s' := by
  cases r with
  | createFile name uid gid mode stack =>
    obtain ⟨⟨fs, o⟩, hcreate, rfl⟩ := Option.map_eq_some_iff.mp hstep
    exact (MesaFS.createFile_cases hcreate).next
  | createDir name uid gid mode stack =>
    obtain ⟨⟨fs, o⟩, hcreate, rfl⟩ := Option.map_eq_some_iff.mp hstep
    exact (MesaFS.createDir_cases hcreate).next
  | finddir name =>
    rw [Session.step, Option.some_inj] at hstep
    subst hstep
    refine .looked rfl fun node hnode => ?_
    rcases List.mem_append.mp hnode with hold | hnew
    · exact .inl hold
    · obtain ⟨i, hi, rfl⟩ := Option.map_eq_some_iff.mp (Option.mem_toList.mp hnew)
      refine .inr ⟨List.mem_range.mp (List.mem_of_find?_eq_some hi), ?_⟩
      have := List.find?_some hi
      rw [Bool.and_eq_true] at this
      exact this.1
  | write n offset size buffer stack =>
    obtain ⟨node, hnode, hstep⟩ := Option.bind_eq_some_iff.mp hstep
    obtain ⟨⟨fs, m⟩, hwrite, rfl⟩ := Option.map_eq_some_iff.mp hstep
    obtain ⟨v, -, hv⟩ := Option.map_eq_some_iff.mp hwrite
    rw [Prod.mk.injEq] at hv
    obtain ⟨rfl, -⟩ := hv
    exact .written node _ (List.mem_of_getElem? hnode) rfl (saveMetadata_entries _ _).1

theorem wellPlaced_step {s s' : Session} {r : Request} (h : WellPlaced s)
    (hstep : s.step r = some s') : WellPlaced s' := by
  cases Session.step_cases hstep with
  | looked hentries hnodes =>
    refine ⟨fun k hk hp => ?_, fun node hnode => ?_⟩
    · rw [hentries] at hp ⊢
      exact h.entries k hk hp
    · rw [hentries]
      rcases hnodes node hnode with hold | hnew
      · exact h.nodes node hold
      · exact hnew
  | created i e hslot he hname hplace hentries hnodes =>
    refine h.update hentries he hplace fun node hnode => ?_
    rcases hnodes node hnode with hold | rfl
    · exact .inl hold
    · exact .inr ⟨(freeSlot_spec hslot).1, rfl⟩
  | written node length hnode hnodes hentries =>
    obtain ⟨hi, hp⟩ := h.nodes node hnode
    exact h.update hentries hp (h.entries _ hi hp) fun node' hnode' => .inl (hnodes ▸ hnode')

/-- **Entries stay in their places** in every run. -/
theorem wellPlaced_of_run {base : U32} {disk : Disk} {requests : List Request} {s : Session}
    (hrun : run Session.step (Session.start base disk) requests = some s) : WellPlaced s := by
  have hstart : WellPlaced (Session.start base disk) :=
    ⟨fun _ _ hp => absurd hp (by simp [Session.start, MesaFS.initializeMesafs,
      MesaFSEntry.clear]), fun _ hnode => absurd hnode (by simp [Session.start])⟩
  exact run_keeps (fun _ _ _ h hstep => wellPlaced_step h hstep) hstart hrun

/-! ### What one write changes -/

/-- The sectors of an extent: `100 + (i * 10)`. -/
def extentSectors : ℕ := 10

/-- The byte at `a` belongs to the file: it lies in its extent, or where it reads. -/
def MesaFSEntry.Holds (e : MesaFSEntry) (a : ℕ) : Prop :=
  512 * e.lbaStart.toNat ≤ a ∧
    a < 512 * e.lbaStart.toNat + max (512 * extentSectors) e.length.toNat

instance (e : MesaFSEntry) (a : ℕ) : Decidable (e.Holds a) := inferInstanceAs (Decidable (_ ∧ _))

/-- The write returns, its loop leaves the metadata sector as it is, and afterwards every
other file has the same sectors and reads the same, wherever the read does not wrap around. -/
def FrameKept (s : MesaFS) (node : FsNode) (offset size : U32) (buffer stack : ℕ → U8) : Prop :=
  ∃ v s' n, s.writeData node offset size buffer = some v ∧
    s.write node offset size buffer stack = some (s', n) ∧
    (∀ b < 512, readSector v.disk (s.baseLba + 1) b = readSector s.disk (s.baseLba + 1) b) ∧
    ∀ other : FsNode, other.inode < maxEntries → other.inode ≠ node.inode →
      (s.entries other.inode).IsFile →
      (∀ j < extentSectors, ∀ b < 512,
        readSector s'.disk (s.baseLba + (s.entries other.inode).lbaStart + BitVec.ofNat 32 j) b =
          readSector s.disk (s.baseLba + (s.entries other.inode).lbaStart + BitVec.ofNat 32 j) b) ∧
      ∀ off n : U32, off.toNat + n.toNat < 2 ^ 32 → s'.read other off n = s.read other off n

/-- No file offset that is written to is that of a byte of the metadata sector or of another
file. -/
def Apart (s : MesaFS) (node : FsNode) (offset size : U32) : Prop :=
  ∀ p : U32, p - offset < size →
    (512 * (s.entries node.inode).lbaStart.toNat + p.toNat) / 512 ≠ 1 ∧
    ∀ k < maxEntries, k ≠ node.inode → (s.entries k).IsFile →
      ¬ (s.entries k).Holds (512 * (s.entries node.inode).lbaStart.toNat + p.toNat)

theorem covers_iff {lba offset : U32} {n a : ℕ} :
    Covers lba offset n a ↔
      ∃ p : U32, a = 512 * lba.toNat + p.toNat ∧ (p - offset).toNat < n := by
  have hoff := offset.isLt
  unfold Covers distance
  constructor
  · intro ⟨hle, hlt, hd⟩
    have hp : (BitVec.ofNat 32 (a - 512 * lba.toNat)).toNat = a - 512 * lba.toNat := by
      rw [BitVec.toNat_ofNat]
      omega
    refine ⟨BitVec.ofNat 32 (a - 512 * lba.toNat), by omega, ?_⟩
    rw [BitVec.toNat_sub, hp]
    omega
  · intro ⟨p, ha, hd⟩
    have hp := p.isLt
    rw [BitVec.toNat_sub] at hd
    refine ⟨by omega, by omega, ?_⟩
    omega

/-- `Apart`, byte by byte. -/
theorem apart_iff {s : MesaFS} {node : FsNode} {offset size : U32} :
    Apart s node offset size ↔
      ∀ a, Covers (s.entries node.inode).lbaStart offset size.toNat a → a / 512 ≠ 1 ∧
        ∀ k < maxEntries, k ≠ node.inode → (s.entries k).IsFile → ¬ (s.entries k).Holds a := by
  constructor
  · intro h a ha
    obtain ⟨p, rfl, hp⟩ := covers_iff.mp ha
    exact h p (BitVec.lt_def.mpr hp)
  · intro h p hp
    exact h _ (covers_iff.mpr ⟨p, rfl, BitVec.lt_def.mp hp⟩)

theorem byteAt_saveMetadata (s : MesaFS) (stack : ℕ → U8) {a : ℕ} (ha : a < 512 * 2 ^ 28)
    (h : a / 512 ≠ 1) :
    byteAt s.baseLba (s.saveMetadata stack).1.disk a = byteAt s.baseLba s.disk a := by
  rw [MesaFS.saveMetadata]
  split
  · have := byteAt_writeSector s.baseLba s.disk (s.metadataSector stack) (x := 1) (by omega) ha
    rw [if_neg h] at this
    exact this
  · rfl

/-- The loop of `write` ends, wherever the entry lies. -/
theorem MesaFS.write_returns (s : MesaFS) (node : FsNode) (offset size : U32)
    (buffer stack : ℕ → U8) :
    ∃ s' n length, s.write node offset size buffer stack = some (s', n) ∧
      s'.entries = Function.update s.entries node.inode
        { s.entries node.inode with length := length } := by
  obtain ⟨v, hv, -, -⟩ := whileLoop_spec (fun v : WriteLoop => v.bytesWritten < size)
    (fun v => some (WriteLoop.body (s.baseLba + (s.entries node.inode).lbaStart) size buffer v))
    (fun _ => True) (fun v => size.toNat - v.bytesWritten.toNat)
    (fun v _ hlt => by
      have hlt' := BitVec.lt_def.mp (of_decide_eq_true hlt)
      have hcopy := toCopy_eq v.fileOffset hlt'
      refine ⟨_, rfl, trivial, ?_⟩
      rw [WriteLoop.body]
      dsimp only
      rw [BitVec.toNat_add]
      omega)
    (size.toNat + 1) (s := { disk := s.disk, fileOffset := offset, bytesWritten := 0 })
    trivial (by dsimp only; omega)
  rw [MesaFS.write, MesaFS.writeData]
  dsimp only
  rw [hv]
  exact ⟨_, _, _, rfl, (saveMetadata_entries _ _).1⟩

/-- What `write` does to the other entries, and to the bytes outside the metadata sector. -/
theorem write_spec (s : MesaFS) (node : FsNode) (offset size : U32) (buffer stack : ℕ → U8)
    (hlba : (s.entries node.inode).lbaStart.toNat + 2 ^ 23 ≤ 2 ^ 28) :
    ∃ v s', s.writeData node offset size buffer = some v ∧
      s.write node offset size buffer stack = some (s', size) ∧ s'.baseLba = s.baseLba ∧
      (∀ k ≠ node.inode, s'.entries k = s.entries k) ∧
      (∀ a < 512 * 2 ^ 28, byteAt s.baseLba v.disk a =
        if Covers (s.entries node.inode).lbaStart offset size.toNat a then
          buffer (distance (s.entries node.inode).lbaStart offset a)
        else byteAt s.baseLba s.disk a) ∧
      ∀ a < 512 * 2 ^ 28, a / 512 ≠ 1 →
        byteAt s.baseLba s'.disk a = byteAt s.baseLba v.disk a := by
  obtain ⟨v, hv, hsize, hbytes⟩ := writeData_spec s node offset size buffer hlba
  refine ⟨v, _, hv, by rw [MesaFS.write, hv, Option.map_some, hsize], ?_, fun k hk => ?_, hbytes,
    fun a ha hmeta => ?_⟩
  · exact (saveMetadata_entries _ _).2
  · rw [(saveMetadata_entries _ _).1]
    exact Function.update_of_ne hk ..
  · exact byteAt_saveMetadata (({ s with disk := v.disk } : MesaFS).setEntry _ _) stack ha hmeta

/-- A sector of the partition, byte by byte. -/
theorem readSector_eq_byteAt (base lba : U32) (d : Disk) (j : ℕ) {b : ℕ} (hb : b < 512) :
    readSector d (base + lba + BitVec.ofNat 32 j) b =
      byteAt base d (512 * (lba.toNat + j) + b) := by
  have hlba : base + lba + BitVec.ofNat 32 j = base + BitVec.ofNat 32 (lba.toNat + j) := by
    apply BitVec.eq_of_toNat_eq
    rw [BitVec.toNat_add, BitVec.toNat_add, BitVec.toNat_add, BitVec.toNat_ofNat,
      BitVec.toNat_ofNat]
    omega
  rw [byteAt, hlba, show (512 * (lba.toNat + j) + b) / 512 = lba.toNat + j by omega,
    show (512 * (lba.toNat + j) + b) % 512 = b by omega]

/-- Where the files of a well placed registry lie. -/
theorem WellPlaced.lba_of_file {s : Session} (h : WellPlaced s) {k : ℕ} (hk : k < maxEntries)
    (hfile : (s.fs.entries k).IsFile) : (s.fs.entries k).lbaStart.toNat = 100 + k * 10 := by
  rw [maxEntries] at hk
  rcases h.entries k hk hfile.1 with ⟨-, hlba⟩ | ⟨hflags, -⟩
  · rw [hlba, BitVec.toNat_ofNat]
    omega
  · rw [hfile.2] at hflags
    exact absurd hflags (by decide)

theorem WellPlaced.lba_of_node {s : Session} (h : WellPlaced s) {node : FsNode}
    (hnode : node ∈ s.nodes) : (s.fs.entries node.inode).lbaStart.toNat ≤ 170 := by
  obtain ⟨hk, hp⟩ := h.nodes node hnode
  have hk' := hk
  rw [maxEntries] at hk'
  rcases h.entries _ hk hp with ⟨-, hlba⟩ | ⟨-, hlba⟩
  · rw [hlba, BitVec.toNat_ofNat, Nat.mod_eq_of_lt (by omega)]
    omega
  · rw [hlba]
    decide

theorem frameKept_of_apart {s : Session} (h : WellPlaced s) {node : FsNode}
    (hnode : node ∈ s.nodes) {offset size : U32} (hapart : Apart s.fs node offset size)
    (buffer stack : ℕ → U8) : FrameKept s.fs node offset size buffer stack := by
  have hlba := h.lba_of_node hnode
  obtain ⟨v, s', hv, hs', hbase, hentries, hdata, hsaved⟩ :=
    write_spec s.fs node offset size buffer stack (by omega)
  have hfree := apart_iff.mp hapart
  refine ⟨v, s', size, hv, hs', fun b hb => ?_, fun other hk hne hfile => ?_⟩
  · have hmeta := hdata (512 + b) (by omega)
    rw [if_neg fun hc => (hfree _ hc).1 (by omega)] at hmeta
    rw [byteAt, byteAt, show (512 + b) / 512 = 1 by omega, show (512 + b) % 512 = b by omega]
      at hmeta
    exact hmeta
  have hstart := h.lba_of_file hk hfile
  rw [maxEntries] at hk
  have hsame : ∀ a, (s.fs.entries other.inode).Holds a → a < 512 * 2 ^ 28 →
      byteAt s.fs.baseLba s'.disk a = byteAt s.fs.baseLba s.fs.disk a := by
    intro a ha hlt
    have hmeta : a / 512 ≠ 1 := by
      have := ha.1
      omega
    rw [hsaved a hlt hmeta, hdata a hlt, if_neg fun hc => (hfree a hc).2 _ hk hne hfile ha]
  refine ⟨fun j hj b hb => ?_, fun off n hsum => ?_⟩
  · rw [extentSectors] at hj
    rw [readSector_eq_byteAt _ _ _ _ hb, readSector_eq_byteAt _ _ _ _ hb]
    refine hsame _ ⟨by omega, ?_⟩ (by omega)
    rw [extentSectors]
    omega
  · rw [read_spec _ _ _ _ hsum, read_spec _ _ _ _ hsum, hentries _ hne, hbase]
    refine congrArg some (List.map_congr_left fun j hj => ?_)
    have hj' := List.mem_range.mp hj
    have := (s.fs.entries other.inode).length.isLt
    exact hsame _ ⟨by omega, by omega⟩ (by omega)

theorem add_one_ne (x : U8) : x + 1 ≠ x := by
  revert x
  decide

theorem apart_of_frameKept {s : Session} (h : WellPlaced s) {node : FsNode}
    (hnode : node ∈ s.nodes) {offset size : U32}
    (hkept : ∀ buffer stack, FrameKept s.fs node offset size buffer stack) :
    Apart s.fs node offset size := by
  have hlba := h.lba_of_node hnode
  refine apart_iff.mpr fun a ha => ?_
  have hlt : a < 512 * 2 ^ 28 := by
    have := ha.2.1
    omega
  -- a buffer that changes the byte at `a`
  obtain ⟨v, s', hv, hs', hbase, hentries, hdata, hsaved⟩ := write_spec s.fs node offset size
    (fun _ => byteAt s.fs.baseLba s.fs.disk a + 1) (fun _ => 0) (by omega)
  have hchanged : byteAt s.fs.baseLba v.disk a ≠ byteAt s.fs.baseLba s.fs.disk a := by
    rw [hdata a hlt, if_pos ha]
    exact add_one_ne _
  obtain ⟨v₁, s₁, n, hv₁, hs₁, hmeta, hothers⟩ :=
    hkept (fun _ => byteAt s.fs.baseLba s.fs.disk a + 1) (fun _ => 0)
  rw [hv, Option.some_inj] at hv₁
  rw [hs', Option.some_inj, Prod.mk.injEq] at hs₁
  obtain ⟨rfl, -⟩ := hs₁
  subst hv₁
  have hsector : a / 512 ≠ 1 := by
    intro hone
    refine hchanged ?_
    rw [byteAt, byteAt, hone]
    exact hmeta (a % 512) (by omega)
  refine ⟨hsector, fun k hk hne hfile hholds => ?_⟩
  rw [← hsaved a hlt hsector] at hchanged
  have hstart := h.lba_of_file hk hfile
  have hk' := hk
  rw [maxEntries] at hk'
  obtain ⟨hlow, hhigh⟩ := hholds
  obtain ⟨hextent, hreads⟩ := hothers { node with inode := k } hk hne hfile
  dsimp only at hextent hreads
  set e := s.fs.entries k with he
  rcases Nat.lt_or_ge a (512 * e.lbaStart.toNat + 512 * extentSectors) with hin | hout
  · -- in the extent: one of its sectors has changed
    rw [extentSectors] at hin
    have hj := hextent ((a - 512 * e.lbaStart.toNat) / 512) (by rw [extentSectors]; omega)
      (a % 512) (by omega)
    rw [readSector_eq_byteAt _ _ _ _ (by omega), readSector_eq_byteAt _ _ _ _ (by omega),
      show 512 * (e.lbaStart.toNat + (a - 512 * e.lbaStart.toNat) / 512) + a % 512 = a by omega]
      at hj
    exact hchanged hj
  · -- behind the extent: reading this one byte gives something else
    have hlen := e.length.isLt
    have hoff : (BitVec.ofNat 32 (a - 512 * e.lbaStart.toNat)).toNat =
        a - 512 * e.lbaStart.toNat := by
      rw [BitVec.toNat_ofNat]
      omega
    have hone : (1 : U32).toNat = 1 := rfl
    have hread := hreads (BitVec.ofNat 32 (a - 512 * e.lbaStart.toNat)) 1 (by omega)
    rw [read_spec _ _ _ _ (by omega), read_spec _ _ _ _ (by omega), hentries _ hne, hbase, ← he,
      hoff, hone, show min 1 (e.length.toNat - (a - 512 * e.lbaStart.toNat)) = 1 by omega,
      show 512 * e.lbaStart.toNat + (a - 512 * e.lbaStart.toNat) = a by omega] at hread
    exact hchanged (by simpa using hread)

/-- Inside its own extent a file is apart from the others, if these have not outgrown theirs. -/
theorem apart_of_inside {s : Session} (h : WellPlaced s) {node : FsNode} (hnode : node ∈ s.nodes)
    (hfile : (s.fs.entries node.inode).IsFile) {offset size : U32}
    (hin : offset.toNat + size.toNat ≤ 512 * extentSectors)
    (hlen : ∀ k < maxEntries, (s.fs.entries k).length.toNat ≤ 512 * extentSectors) :
    Apart s.fs node offset size := by
  intro p hp
  have hp' := BitVec.lt_def.mp hp
  have hpos := h.lba_of_file (h.nodes node hnode).1 hfile
  rw [extentSectors] at hin
  rw [BitVec.toNat_sub] at hp'
  refine ⟨by omega, fun k hk hne hk' hholds => ?_⟩
  have hstart := h.lba_of_file hk hk'
  have hlen' := hlen k hk
  obtain ⟨hlow, hhigh⟩ := hholds
  rw [extentSectors] at hlen' hhigh
  omega

def nameA : CString := ⟨[0x61], by decide⟩

def nameB : CString := ⟨[0x62], by decide⟩

/-- Two files, the second with one byte. -/
def twoFiles : List Request :=
  [.createFile nameA 0 0 0o644 (fun _ => 0), .createFile nameB 0 0 0o644 (fun _ => 0),
    .write 1 0 1 (fun _ => 0x42) (fun _ => 0)]

end MesaOS.FS
