/-
The metadata sector of the disk file system.

`save_metadata` copies the header and all eight entries, 48 and 960 bytes, into a buffer
of 512 bytes.  So it always writes behind the buffer, and of the entries only the first
three and most of the fourth reach the sector.

* `entry_of_bytes` — an entry can be read back from its bytes;
* `determined_iff` — when the sector determines the registry;
* `not_determined_inside` — the sector never does without a write behind the buffer.
-/
import MesaOS.FileExtents

open MachineWord Runs

namespace MesaOS.FS

/-! ### The bytes of an entry -/

theorem MesaFSEntry.length_bytes_ge (e : MesaFSEntry) : 120 ≤ e.bytes.length := by
  simp [bytes, le32]
  omega

theorem MesaFSEntry.length_bytes {e : MesaFSEntry} (h : e.name.fits 64 = true) :
    e.bytes.length = 120 := by
  have hlt := of_decide_eq_true h
  simp [bytes, le32]
  omega

/-- A string is determined by the characters up to its terminating zero. -/
theorem CString.eq_of_getD {name name' : CString} {size : ℕ} (h : name.fits size = true)
    (h' : name'.fits size = true)
    (hsame : ∀ j < size, name.bytes.getD j 0 = name'.bytes.getD j 0) : name = name' := by
  have hlt := of_decide_eq_true h
  have hlt' := of_decide_eq_true h'
  obtain ⟨bytes, hnul⟩ := name
  obtain ⟨bytes', hnul'⟩ := name'
  dsimp only at hlt hlt' hsame
  -- the shorter one would have a zero where the longer one has a character
  have hle : ∀ xs ys : List U8, 0#8 ∉ ys → xs.length < size →
      (∀ j < size, xs.getD j 0 = ys.getD j 0) → ys.length ≤ xs.length := by
    intro xs ys hys hxs hxy
    by_contra hlong
    have hj := hxy xs.length hxs
    rw [List.getD_eq_default _ _ (Nat.le_refl _), List.getD_eq_getElem _ _ (Nat.lt_of_not_le hlong)]
      at hj
    refine hys ?_
    rw [show (0#8 : U8) = ys[xs.length] from hj]
    exact List.getElem_mem _
  have hlength : bytes.length = bytes'.length :=
    Nat.le_antisymm (hle bytes' bytes hnul hlt' fun j hj => (hsame j hj).symm)
      (hle bytes bytes' hnul' hlt hsame)
  rw [CString.mk.injEq]
  refine List.ext_getElem hlength fun j hj hj' => ?_
  have hchar := hsame j (Nat.lt_trans hj hlt)
  rwa [List.getD_eq_getElem _ _ hj, List.getD_eq_getElem _ _ hj'] at hchar

/-- What lies where in an entry. -/
theorem MesaFSEntry.read_bytes {e : MesaFSEntry} (h : e.name.fits 64 = true) :
    (∀ j < 64, bufferOf e.bytes j = e.name.bytes.getD j 0) ∧
      get32 (bufferOf e.bytes) 64 = e.lbaStart ∧ get32 (bufferOf e.bytes) 68 = e.length ∧
      get32 (bufferOf e.bytes) 72 = e.uid ∧ get32 (bufferOf e.bytes) 76 = e.gid ∧
      get32 (bufferOf e.bytes) 80 = e.mode ∧ bufferOf e.bytes 84 = e.flags ∧
      bufferOf e.bytes 85 = if e.present then 1 else 0 := by
  have hlt := of_decide_eq_true h
  set field := e.name.bytes ++ List.replicate (64 - e.name.bytes.length) 0 with hfield
  have hlength : field.length = 64 := by
    rw [hfield, List.length_append, List.length_replicate]
    omega
  have hbytes : e.bytes = field ++ le32 e.lbaStart ++ le32 e.length ++ le32 e.uid ++ le32 e.gid ++
      le32 e.mode ++ [e.flags, if e.present then 1 else 0] ++ List.replicate 34 0 := rfl
  have hfront : (field ++ le32 e.lbaStart ++ le32 e.length ++ le32 e.uid ++ le32 e.gid ++
      le32 e.mode).length = 84 := by
    simp [hlength, le32]
  refine ⟨fun j hj => ?_, ?_, ?_, ?_, ?_, ?_, ?_, ?_⟩
  · rw [hbytes]
    simp only [List.append_assoc]
    rw [bufferOf_append_left _ _ (by omega), hfield]
    by_cases hchar : j < e.name.bytes.length
    · exact bufferOf_append_left _ _ hchar
    · rw [List.getD_eq_default _ _ (Nat.le_of_not_lt hchar), bufferOf,
        List.getD_append_right _ _ _ _ (Nat.le_of_not_lt hchar), List.getD_replicate _ (by omega)]
  · exact get32_eq field (by rw [hbytes]; simp only [List.append_assoc]; rfl) hlength
  · exact get32_eq (field ++ le32 e.lbaStart)
      (by rw [hbytes]; simp only [List.append_assoc]; rfl) (by simp [hlength, le32])
  · exact get32_eq (field ++ le32 e.lbaStart ++ le32 e.length)
      (by rw [hbytes]; simp only [List.append_assoc]; rfl) (by simp [hlength, le32])
  · exact get32_eq (field ++ le32 e.lbaStart ++ le32 e.length ++ le32 e.uid)
      (by rw [hbytes]; simp only [List.append_assoc]; rfl) (by simp [hlength, le32])
  · exact get32_eq (field ++ le32 e.lbaStart ++ le32 e.length ++ le32 e.uid ++ le32 e.gid)
      (by rw [hbytes]; simp only [List.append_assoc]; rfl) (by simp [hlength, le32])
  · rw [hbytes, List.append_assoc, ← hfront]
    exact bufferOf_append _ _ 0
  · rw [hbytes, List.append_assoc, show 85 = (field ++ le32 e.lbaStart ++ le32 e.length ++
      le32 e.uid ++ le32 e.gid ++ le32 e.mode).length + 1 by rw [hfront]]
    exact bufferOf_append _ _ 1

/-- **An entry can be read back** from its first 86 bytes. -/
theorem entry_of_bytes {e e' : MesaFSEntry} (h : e.name.fits 64 = true)
    (h' : e'.name.fits 64 = true)
    (hsame : ∀ j < 86, bufferOf e.bytes j = bufferOf e'.bytes j) : e = e' := by
  obtain ⟨hname, hlba, hlen, huid, hgid, hmode, hflags, hpresent⟩ := MesaFSEntry.read_bytes h
  obtain ⟨hname', hlba', hlen', huid', hgid', hmode', hflags', hpresent'⟩ :=
    MesaFSEntry.read_bytes h'
  have hword : ∀ i, i + 3 < 86 → get32 (bufferOf e.bytes) i = get32 (bufferOf e'.bytes) i := by
    intro i hi
    rw [get32, get32, hsame i (by omega), hsame (i + 1) (by omega), hsame (i + 2) (by omega),
      hsame (i + 3) hi]
  have h1 : e.name = e'.name := CString.eq_of_getD h h' fun j hj => by
    rw [← hname j hj, ← hname' j hj, hsame j (by omega)]
  have h2 : e.lbaStart = e'.lbaStart := by rw [← hlba, ← hlba', hword 64 (by omega)]
  have h3 : e.length = e'.length := by rw [← hlen, ← hlen', hword 68 (by omega)]
  have h4 : e.uid = e'.uid := by rw [← huid, ← huid', hword 72 (by omega)]
  have h5 : e.gid = e'.gid := by rw [← hgid, ← hgid', hword 76 (by omega)]
  have h6 : e.mode = e'.mode := by rw [← hmode, ← hmode', hword 80 (by omega)]
  have h7 : e.flags = e'.flags := by rw [← hflags, ← hflags', hsame 84 (by omega)]
  have h8 : e.present = e'.present := by
    have hbyte := (hpresent.symm.trans (hsame 85 (by omega))).trans hpresent'
    cases hp : e.present <;> cases hp' : e'.present <;> simp_all
  obtain ⟨⟩ := e
  obtain ⟨⟩ := e'
  dsimp only at *
  rw [h1, h2, h3, h4, h5, h6, h7, h8]

/-! ### The buffer -/

namespace MesaFS

/-- `MesaFSHeader`, with what is on the stack for its hash. -/
def headerBytes (stack : ℕ → U8) : List U8 :=
  le32 0x5341534D ++ le32 1 ++ le32 0 ++ le32 1000 ++ (List.range 32).map stack

/-- What `save_metadata` writes, as offsets from the start of its buffer, in order. -/
def metadataWrites (s : MesaFS) (stack : ℕ → U8) : List (ℕ × List U8) :=
  [(0, List.replicate 512 0),
    (48, (List.range maxEntries).flatMap fun i => (s.entries i).bytes),
    (0, headerBytes stack)]

/-- All writes stay inside the buffer. -/
def WritesInside (s : MesaFS) (stack : ℕ → U8) : Prop :=
  ∀ w ∈ s.metadataWrites stack, w.1 + w.2.length ≤ 512

/-- The memory from the buffer on after some writes. -/
def storeAll (memory : ℕ → U8) (writes : List (ℕ × List U8)) : ℕ → U8 :=
  writes.foldl (fun memory w => copyInto memory w.1 w.2.length (bufferOf w.2) 0) memory

theorem length_headerBytes (stack : ℕ → U8) : (headerBytes stack).length = 48 := by
  simp [headerBytes, le32]

theorem length_entries_ge (s : MesaFS) :
    960 ≤ ((List.range maxEntries).flatMap fun i => (s.entries i).bytes).length := by
  have h := fun i => (s.entries i).length_bytes_ge
  have h0 := h 0
  have h1 := h 1
  have h2 := h 2
  have h3 := h 3
  have h4 := h 4
  have h5 := h 5
  have h6 := h 6
  have h7 := h 7
  rw [show List.range maxEntries = [0, 1, 2, 3, 4, 5, 6, 7] from rfl]
  simp only [List.flatMap_cons, List.flatMap_nil, List.length_append]
  omega

theorem metadataSector_eq (s : MesaFS) (stack : ℕ → U8) :
    s.metadataSector stack = bufferOf (headerBytes stack ++
      (List.range maxEntries).flatMap fun i => (s.entries i).bytes) := rfl

/-- The sector is what the writes leave in the buffer. -/
theorem storeAll_metadataWrites (s : MesaFS) (memory stack : ℕ → U8) {b : ℕ} (hb : b < 512) :
    storeAll memory (s.metadataWrites stack) b = s.metadataSector stack b := by
  have hheader := length_headerBytes stack
  have hentries := s.length_entries_ge
  rw [metadataSector_eq, storeAll, metadataWrites, List.foldl_cons, List.foldl_cons, List.foldl_cons,
    List.foldl_nil, copyInto, hheader]
  dsimp only
  by_cases hlow : b < 48
  · rw [if_pos ⟨Nat.zero_le _, by omega⟩, bufferOf_append_left _ _ (by omega)]
    simp
  · rw [if_neg (by omega), copyInto, if_pos ⟨by omega, by omega⟩,
      show b = (headerBytes stack).length + (b - 48) by omega, bufferOf_append, hheader]
    simp

/-- **The writes never stay inside.** -/
theorem not_writesInside (s : MesaFS) (stack : ℕ → U8) : ¬ s.WritesInside stack := by
  intro h
  have hentries := h _ (List.mem_cons_of_mem _ List.mem_cons_self)
  have hlength := s.length_entries_ge
  dsimp only at hentries
  omega

/-- The bytes of the first entries in the sector. -/
theorem metadataSector_entry {s : MesaFS} (hnames : ∀ k < maxEntries, (s.entries k).name.fits 64)
    (stack : ℕ → U8) {k j : ℕ} (hk : k < maxEntries) (hj : j < 120) :
    s.metadataSector stack (48 + (120 * k + j)) = bufferOf (s.entries k).bytes j := by
  have hheader := length_headerBytes stack
  rw [metadataSector_eq, ← hheader, bufferOf_append]
  exact bufferOf_flatMap_range (fun i hi => MesaFSEntry.length_bytes (hnames i hi)) hk hj

end MesaFS

/-! ### Registries -/

/-- Entries are used from the first one on; the others are clear. -/
structure Filled (s : MesaFS) : Prop where
  names : ∀ k < maxEntries, (s.entries k).name.fits 64 = true
  clear : ∀ k < maxEntries, (s.entries k).present = false → s.entries k = .clear
  initial : ∀ j k, j ≤ k → k < maxEntries → (s.entries j).present = false →
    (s.entries k).present = false

theorem Filled.update {s s' : MesaFS} (h : Filled s) {i : ℕ} {e : MesaFSEntry}
    (hentries : s'.entries = Function.update s.entries i e) (he : e.present = true)
    (hname : e.name.fits 64 = true)
    (hbefore : ∀ j < i, (s.entries j).present = true) : Filled s' := by
  refine ⟨fun k hk => ?_, fun k hk hp => ?_, fun j k hjk hk hp => ?_⟩
  · rw [hentries]
    by_cases hki : k = i
    · rw [hki, Function.update_self]
      exact hname
    · rw [Function.update_of_ne hki]
      exact h.names k hk
  · rw [hentries] at hp ⊢
    by_cases hki : k = i
    · rw [hki, Function.update_self, he] at hp
      exact absurd hp (by decide)
    · rw [Function.update_of_ne hki] at hp ⊢
      exact h.clear k hk hp
  · rw [hentries] at hp ⊢
    have hji : i < j := by
      rcases Nat.lt_trichotomy j i with hlt | rfl | hlt
      · rw [Function.update_of_ne (Nat.ne_of_lt hlt), hbefore j hlt] at hp
        exact absurd hp (by decide)
      · rw [Function.update_self, he] at hp
        exact absurd hp (by decide)
      · exact hlt
    rw [Function.update_of_ne (by omega)] at hp ⊢
    exact h.initial j k hjk hk hp

/-- In front of a present entry, all are present. -/
theorem Filled.before {s : MesaFS} (h : Filled s) {i : ℕ} (hi : i < maxEntries)
    (hp : (s.entries i).present = true) : ∀ j < i, (s.entries j).present = true := by
  intro j hj
  cases hpj : (s.entries j).present with
  | true => rfl
  | false => exact absurd (hp.symm.trans (h.initial j i (Nat.le_of_lt hj) hi hpj)) (by decide)

theorem before_freeSlot {s : MesaFS} {i : ℕ} (h : s.freeSlot = some i) :
    ∀ j < i, (s.entries j).present = true := by
  intro j hj
  have := (List.find?_range_eq_some.mp h).2.2 j hj
  simpa using this

theorem freeSlot_eq {s : MesaFS} {k : ℕ} (hk : k < maxEntries)
    (hbefore : ∀ j < k, (s.entries j).present = true) (hfree : (s.entries k).present = false) :
    s.freeSlot = some k := by
  refine List.find?_range_eq_some.mpr ⟨by rw [hfree]; rfl, List.mem_range.mpr hk, fun j hj => ?_⟩
  rw [hbefore j hj]
  rfl

theorem filled_step {s s' : Session} {r : Request} (hplaced : WellPlaced s) (h : Filled s.fs)
    (hstep : s.step r = some s') : Filled s'.fs := by
  cases Session.step_cases hstep with
  | looked hentries hnodes =>
    obtain ⟨hnames, hclear, hinitial⟩ := h
    rw [← hentries] at hnames hclear hinitial
    exact ⟨hnames, hclear, hinitial⟩
  | created i e hslot he hname hplace hentries hnodes =>
    exact h.update hentries he hname (before_freeSlot hslot)
  | written node length hnode hnodes hentries =>
    obtain ⟨hi, hp⟩ := hplaced.nodes node hnode
    exact h.update hentries hp (h.names _ hi) (h.before hi hp)

/-- The session is one that requests can lead to. -/
def Reachable (s : Session) : Prop :=
  ∃ base disk requests, run Session.step (Session.start base disk) requests = some s

theorem Reachable.wellPlaced {s : Session} (h : Reachable s) : WellPlaced s := by
  obtain ⟨base, disk, requests, hrun⟩ := h
  exact wellPlaced_of_run hrun

theorem Reachable.filled {s : Session} (h : Reachable s) : Filled s.fs := by
  obtain ⟨base, disk, requests, hrun⟩ := h
  have hstart : WellPlaced (Session.start base disk) := wellPlaced_of_run (run_nil _ _)
  have hclear : Filled (Session.start base disk).fs :=
    ⟨fun _ _ => rfl, fun _ _ _ => rfl, fun _ _ _ _ _ => rfl⟩
  exact (run_keeps (P := fun s => WellPlaced s ∧ Filled s.fs)
    (fun _ _ _ h hstep => ⟨wellPlaced_step h.1 hstep, filled_step h.1 h.2 hstep⟩)
    ⟨hstart, hclear⟩ hrun).2

theorem Reachable.step {s s' : Session} {r : Request} (h : Reachable s)
    (hstep : s.step r = some s') : Reachable s' := by
  obtain ⟨base, disk, requests, hrun⟩ := h
  refine ⟨base, disk, requests ++ [r], ?_⟩
  rw [run_append, hrun, Option.bind_some, run_cons, hstep]
  rfl

/-! ### What the sector determines -/

/-- The two registries can leave the same sector on the disk. -/
def SameSector (s s' : MesaFS) : Prop :=
  ∃ stack stack', ∀ b < 512, s.metadataSector stack b = s'.metadataSector stack' b

/-- No other registry leaves the same sector. -/
def Determined (s : MesaFS) : Prop :=
  ∀ s', Reachable s' → SameSector s s'.fs → ∀ k < maxEntries, s'.fs.entries k = s.entries k

/-- The first four entries can be read back. -/
theorem entries_of_sameSector {s s' : MesaFS} (h : Filled s) (h' : Filled s')
    (hsector : SameSector s s') {k : ℕ} (hk : k < 4) : s'.entries k = s.entries k := by
  obtain ⟨stack, stack', hsame⟩ := hsector
  have hk8 : k < maxEntries := Nat.lt_trans hk (by decide)
  refine entry_of_bytes (h'.names k hk8) (h.names k hk8) fun j hj => ?_
  rw [← MesaFS.metadataSector_entry h'.names stack' hk8 (by omega),
    ← MesaFS.metadataSector_entry h.names stack hk8 (by omega), hsame _ (by omega)]

/-- No other entry reaches the sector. -/
theorem sameSector_of_entries {s s' : MesaFS} (h : Filled s) (h' : Filled s')
    (hsame : ∀ k < 4, s'.entries k = s.entries k) : SameSector s s' := by
  refine ⟨fun _ => 0, fun _ => 0, fun b hb => ?_⟩
  by_cases hlow : b < 48
  · rw [MesaFS.metadataSector_eq, MesaFS.metadataSector_eq,
      bufferOf_append_left _ _ (by rw [MesaFS.length_headerBytes]; exact hlow),
      bufferOf_append_left _ _ (by rw [MesaFS.length_headerBytes]; exact hlow)]
  · have hsplit : b = 48 + (120 * ((b - 48) / 120) + (b - 48) % 120) := by omega
    have hk : (b - 48) / 120 < 4 := by omega
    have hk8 : (b - 48) / 120 < maxEntries := Nat.lt_trans hk (by decide)
    rw [hsplit, MesaFS.metadataSector_entry h.names _ hk8 (by omega),
      MesaFS.metadataSector_entry h'.names _ hk8 (by omega), hsame _ hk]

/-! ### Registries with the same first entries -/

/-- A reachable session with the first `k` entries of `target`, and no others. -/
structure Rebuilt (target : MesaFS) (k : ℕ) (t : Session) : Prop where
  reachable : Reachable t
  entries : ∀ j < k, t.fs.entries j = target.entries j
  rest : ∀ j, k ≤ j → j < maxEntries → t.fs.entries j = .clear
  nodes : t.nodes.length = k

/-- An entry can be made again, but for its length. -/
theorem exists_create {target : Session} (htarget : Reachable target) {k : ℕ}
    (hk : k < maxEntries) (hp : (target.fs.entries k).present = true) {t : Session}
    (hslot : t.fs.freeSlot = some k) :
    ∃ r t' node, t.step r = some t' ∧ t'.nodes = t.nodes ++ [node] ∧ node.inode = k ∧
      t'.fs.entries = Function.update t.fs.entries k
        { target.fs.entries k with length := 0 } := by
  have hname := htarget.filled.names k hk
  rcases htarget.wellPlaced.entries k hk hp with ⟨hflags, hlba⟩ | ⟨hflags, hlba⟩
  · obtain ⟨fs, node, hcreate, hinode, hentries⟩ := MesaFS.createFile_spec hslot hname
      (target.fs.entries k).uid (target.fs.entries k).gid (target.fs.entries k).mode fun _ => 0
    refine ⟨.createFile (target.fs.entries k).name (target.fs.entries k).uid
      (target.fs.entries k).gid (target.fs.entries k).mode fun _ => 0,
      { fs := fs, nodes := t.nodes ++ [node] }, node, ?_, rfl, hinode, ?_⟩
    · rw [Session.step, hcreate]
      rfl
    · dsimp only
      rw [hentries, hflags, hlba, hp]
  · obtain ⟨fs, node, hcreate, hinode, hentries⟩ := MesaFS.createDir_spec hslot hname
      (target.fs.entries k).uid (target.fs.entries k).gid (target.fs.entries k).mode fun _ => 0
    refine ⟨.createDir (target.fs.entries k).name (target.fs.entries k).uid
      (target.fs.entries k).gid (target.fs.entries k).mode fun _ => 0,
      { fs := fs, nodes := t.nodes ++ [node] }, node, ?_, rfl, hinode, ?_⟩
    · rw [Session.step, hcreate]
      rfl
    · dsimp only
      rw [hentries, hflags, hlba, hp]

/-- One byte written at the end gives an empty file its length. -/
theorem exists_write {t : Session} (h : WellPlaced t) {n : ℕ} {node : FsNode}
    (hnode : t.nodes[n]? = some node) (hempty : (t.fs.entries node.inode).length = 0)
    {length : U32} (hlength : length ≠ 0) :
    ∃ r t', t.step r = some t' ∧ t'.nodes = t.nodes ∧
      t'.fs.entries = Function.update t.fs.entries node.inode
        { t.fs.entries node.inode with length := length } := by
  have hlba := h.lba_of_node (List.mem_of_getElem? hnode)
  obtain ⟨v, hv, -⟩ := writeData_spec t.fs node (length - 1) 1 (fun _ => 0) (by omega)
  have hsum : length - 1 + 1 = length := by bv_omega
  have hpos : length > (t.fs.entries node.inode).length := by
    rw [hempty]
    bv_omega
  obtain ⟨fs, hwrite, hentries⟩ : ∃ fs, t.fs.write node (length - 1) 1 (fun _ => 0) (fun _ => 0) =
      some (fs, v.bytesWritten) ∧ fs.entries = Function.update t.fs.entries node.inode
        { t.fs.entries node.inode with length := length } := by
    refine ⟨_, by rw [MesaFS.write, hv, Option.map_some], ?_⟩
    rw [(saveMetadata_entries _ _).1, hsum, if_pos hpos]
    rfl
  refine ⟨.write n (length - 1) 1 (fun _ => 0) (fun _ => 0), { fs := fs, nodes := t.nodes }, ?_,
    rfl, hentries⟩
  rw [Session.step, hnode, Option.bind_some, hwrite]
  rfl

theorem rebuilt_succ {target : Session} (htarget : Reachable target) {k : ℕ} (hk : k < maxEntries)
    (hp : (target.fs.entries k).present = true) {t : Session} (h : Rebuilt target.fs k t) :
    ∃ t', Rebuilt target.fs (k + 1) t' := by
  have hfree : (t.fs.entries k).present = false := by
    rw [h.rest k (Nat.le_refl k) hk]
    rfl
  have hslot : t.fs.freeSlot = some k := freeSlot_eq hk (fun j hj => by
    rw [h.entries j hj]
    exact htarget.filled.before hk hp j hj) hfree
  obtain ⟨r, t', node, hstep, hnodes, hinode, hentries⟩ := exists_create htarget hk hp hslot
  have hreach := h.reachable.step hstep
  have hlength : t'.nodes.length = k + 1 := by
    rw [hnodes, List.length_append, h.nodes, List.length_singleton]
  -- what a state with entry `k` of `target` in its place must be
  have hdone : ∀ u : Session, Reachable u → u.nodes.length = k + 1 →
      u.fs.entries = Function.update t.fs.entries k (target.fs.entries k) →
      Rebuilt target.fs (k + 1) u := by
    intro u hu hlen hfs
    refine ⟨hu, fun j hj => ?_, fun j hj hj8 => ?_, hlen⟩
    · rw [hfs]
      by_cases hjk : j = k
      · rw [hjk, Function.update_self]
      · rw [Function.update_of_ne hjk, h.entries j (by omega)]
    · rw [hfs, Function.update_of_ne (by omega), h.rest j (by omega) hj8]
  by_cases hzero : (target.fs.entries k).length = 0
  · refine ⟨t', hdone t' hreach hlength ?_⟩
    rw [hentries, ← hzero]
  · have hnode : t'.nodes[k]? = some node := by
      rw [hnodes, ← h.nodes, List.getElem?_concat_length]
    have hempty : (t'.fs.entries node.inode).length = 0 := by
      rw [hentries, hinode, Function.update_self]
    obtain ⟨r', t'', hstep', hnodes', hentries'⟩ :=
      exists_write hreach.wellPlaced hnode hempty hzero
    refine ⟨t'', hdone t'' (hreach.step hstep') (by rw [hnodes', hlength]) ?_⟩
    rw [hentries', hinode, hentries, Function.update_self, Function.update_idem]

/-- The first entries of any registry, and no others. -/
theorem exists_rebuilt {target : Session} (htarget : Reachable target) {k : ℕ}
    (hk : k ≤ maxEntries) (hp : ∀ j < k, (target.fs.entries j).present = true) :
    ∃ t, Rebuilt target.fs k t := by
  induction k with
  | zero =>
    exact ⟨Session.start 0 fun _ _ => 0, ⟨0, _, [], rfl⟩, fun j hj => absurd hj (Nat.not_lt_zero j),
      fun _ _ _ => rfl, rfl⟩
  | succ k ih =>
    obtain ⟨t, ht⟩ := ih (by omega) fun j hj => hp j (by omega)
    exact rebuilt_succ htarget hk (hp k (Nat.lt_succ_self k)) ht

/-- One more file in the fifth entry. -/
theorem exists_fifth {t : Session} (h : Reachable t) (hslot : t.fs.freeSlot = some 4) :
    ∃ t', Reachable t' ∧ (∀ k < 4, t'.fs.entries k = t.fs.entries k) ∧
      (t'.fs.entries 4).present = true := by
  have hname : nameA.fits 64 = true := by decide
  obtain ⟨fs, node, hcreate, -, hentries⟩ :=
    MesaFS.createFile_spec hslot hname 0 0 0o644 fun _ => 0
  have hstep : t.step (.createFile nameA 0 0 0o644 fun _ => 0) =
      some { fs := fs, nodes := t.nodes ++ [node] } := by
    rw [Session.step, hcreate]
    rfl
  refine ⟨_, h.step hstep, fun k hk => ?_, ?_⟩
  · dsimp only
    rw [hentries, Function.update_of_ne (Nat.ne_of_lt hk)]
  · dsimp only
    rw [hentries, Function.update_self]

/-- **When the sector determines the registry**: as long as there are at most three entries. -/
theorem determined_iff {s : Session} (h : Reachable s) :
    Determined s.fs ↔ (s.fs.entries 3).present = false := by
  have hfilled := h.filled
  constructor
  · intro hdetermined
    cases hp : (s.fs.entries 3).present with
    | false => rfl
    | true =>
      have hfirst : ∀ j < 4, (s.fs.entries j).present = true := by
        intro j hj
        rcases Nat.lt_or_eq_of_le (Nat.le_of_lt_succ hj) with hlt | rfl
        · exact hfilled.before (by decide) hp j hlt
        · exact hp
      -- the same four entries, once without and once with a fifth one
      obtain ⟨t, ht⟩ := exists_rebuilt h (by decide) hfirst
      have hfour : (t.fs.entries 4).present = false := by
        rw [ht.rest 4 (by decide) (by decide)]
        rfl
      obtain ⟨t', ht', hsame, hfive⟩ := exists_fifth ht.reachable (freeSlot_eq (by decide)
        (fun j hj => by rw [ht.entries j hj]; exact hfirst j hj) hfour)
      have h1 := hdetermined t ht.reachable (sameSector_of_entries hfilled ht.reachable.filled
        ht.entries) 4 (by decide)
      have h2 := hdetermined t' ht' (sameSector_of_entries hfilled ht'.filled
        fun k hk => (hsame k hk).trans (ht.entries k hk)) 4 (by decide)
      rw [h1] at hfour
      rw [h2, hfour] at hfive
      exact absurd hfive (by decide)
  · intro hfree s' hs' hsector k hk
    rcases Nat.lt_or_ge k 4 with hlt | hge
    · exact entries_of_sameSector hfilled hs'.filled hsector hlt
    · have hfree' : (s'.fs.entries 3).present = false := by
        rw [entries_of_sameSector hfilled hs'.filled hsector (by decide), hfree]
      rw [hfilled.clear k hk (hfilled.initial 3 k (by omega) hk hfree),
        hs'.filled.clear k hk (hs'.filled.initial 3 k (by omega) hk hfree')]

/-- **The sector never determines the registry without a write behind the buffer**; that it
determines the registry at all takes a free fourth entry. -/
theorem not_determined_inside {s : Session} (h : Reachable s) (stack : ℕ → U8) :
    ¬(Determined s.fs ∧ s.fs.WritesInside stack) ∧
      (Determined s.fs ↔ (s.fs.entries 3).present = false) :=
  ⟨fun hboth => s.fs.not_writesInside stack hboth.2, determined_iff h⟩

theorem not_determined_inside_start :
    ¬(Determined (Session.start 2048 fun _ _ => 0).fs ∧
      (Session.start 2048 fun _ _ => 0).fs.WritesInside fun _ => 0) :=
  (not_determined_inside ⟨2048, fun _ _ => 0, [], rfl⟩ fun _ => 0).1

/-- Four files with the same name. -/
def fourFiles : List Request := List.replicate 4 (.createFile nameB 0 0 0o644 fun _ => 0)

/-- **A fifth file leaves the same sector**: one registry has it and the other has not. -/
theorem fifth_file_lost :
    ∃ s s', Reachable s ∧ Reachable s' ∧ SameSector s.fs s'.fs ∧
      (s.fs.entries 4).present = false ∧ (s'.fs.entries 4).present = true ∧
      ¬(Determined s.fs ∧ s.fs.WritesInside fun _ => 0) := by
  have hval : (run Session.step (Session.start 2048 fun _ _ => 0) fourFiles).map
      (fun s => (s.fs.freeSlot, (s.fs.entries 4).present)) = some (some 4, false) := by
    decide +kernel
  obtain ⟨s, hrun, hs⟩ := Option.map_eq_some_iff.mp hval
  rw [Prod.mk.injEq] at hs
  have hreach : Reachable s := ⟨_, _, _, hrun⟩
  obtain ⟨s', hs', hsame, hfive⟩ := exists_fifth hreach hs.1
  have hsector := sameSector_of_entries hreach.filled hs'.filled hsame
  refine ⟨s, s', hreach, hs', hsector, hs.2, hfive, fun hboth => ?_⟩
  have hentry := hboth.1 s' hs' hsector 4 (by decide)
  rw [hentry, hs.2] at hfive
  exact absurd hfive (by decide)

end MesaOS.FS
