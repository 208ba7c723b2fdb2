/-
What an earlier session left on the drive.

`load_metadata` always fails, so the registry is empty after every start, and the
files of a session are laid over whatever the sectors hold.  Two sessions that make
the same requests on different drives are compared:

* `Session.step_alike` — they stay alike but for the bytes that neither has put;
* `reads_same_iff` — a read returns the same on every drive just when the session has
  itself put every byte of it;
* `reads_same_of_run` — so do all reads when no write begins behind the end of its file.
-/
import MesaOS.FileExtents

open MachineWord Runs

namespace MesaOS.FS

/-! ### The bytes that a session puts -/

/-- Byte `a` of the partition. -/
def Session.byte (s : Session) (a : ℕ) : U8 := byteAt s.fs.baseLba s.fs.disk a

/-- The request puts the byte at `a`: its data cover it, or it is one of the metadata sector. -/
def Session.Puts (a : ℕ) (s : Session) : Request → Prop
  | .createFile .. | .createDir .. => s.fs.freeSlot.isSome = true ∧ a / 512 = 1
  | .finddir _ => False
  | .write n offset size _ _ => ∃ node ∈ s.nodes[n]?,
      a / 512 = 1 ∨ Covers (s.fs.entries node.inode).lbaStart offset size.toNat a

instance (a : ℕ) (s : Session) : (r : Request) → Decidable (s.Puts a r)
  | .createFile .. | .createDir .. => inferInstanceAs (Decidable (_ ∧ _))
  | .finddir _ => isFalse id
  | .write n offset size _ _ => inferInstanceAs (Decidable (∃ node ∈ s.nodes[n]?,
      a / 512 = 1 ∨ Covers (s.fs.entries node.inode).lbaStart offset size.toNat a))

/-- The write begins at the end of its file or before it. -/
def Session.Within (s : Session) : Request → Prop
  | .write n offset _ _ _ => ∀ node ∈ s.nodes[n]?, offset ≤ (s.fs.entries node.inode).length
  | _ => True

instance (s : Session) : (r : Request) → Decidable (s.Within r)
  | .write n offset _ _ _ => inferInstanceAs (Decidable (∀ node ∈ s.nodes[n]?,
      offset ≤ (s.fs.entries node.inode).length))
  | .createFile .. | .createDir .. | .finddir _ => isTrue trivial

/-- The byte at `a` is one of the entry's data. -/
def MesaFSEntry.Keeps (e : MesaFSEntry) (a : ℕ) : Prop :=
  e.present = true ∧ 512 * e.lbaStart.toNat ≤ a ∧ a < 512 * e.lbaStart.toNat + e.length.toNat

/-! ### Two sessions that make the same requests -/

/-- The sessions differ in nothing but the bytes of their drives. -/
structure Session.Alike (s t : Session) : Prop where
  baseLba : t.fs.baseLba = s.fs.baseLba
  valid : s.fs.metadataValid = true ∧ t.fs.metadataValid = true
  entries : t.fs.entries = s.fs.entries
  nodes : t.nodes = s.nodes

/-- A byte of two drives before and after a step: put the same on both, or kept on each. -/
def SameOrKept (put : Prop) (x x' y y' : U8) : Prop :=
  (put ∧ x' = y') ∨ (¬ put ∧ x' = x ∧ y' = y)

theorem alike_start (base : U32) (d d' : Disk) :
    (Session.start base d).Alike (Session.start base d') :=
  ⟨rfl, ⟨rfl, rfl⟩, rfl, rfl⟩

theorem freeSlot_congr {s t : MesaFS} (h : t.entries = s.entries) : t.freeSlot = s.freeSlot := by
  rw [MesaFS.freeSlot, MesaFS.freeSlot, h]

theorem metadataSector_congr {s t : MesaFS} (h : t.entries = s.entries) (stack : ℕ → U8) :
    t.metadataSector stack = s.metadataSector stack := by
  rw [MesaFS.metadataSector, MesaFS.metadataSector, h]

theorem byteAt_saved {s : MesaFS} (hvalid : s.metadataValid = true) (stack : ℕ → U8) {a : ℕ}
    (ha : a < 512 * 2 ^ 28) :
    byteAt s.baseLba (s.saveMetadata stack).1.disk a =
      if a / 512 = 1 then s.metadataSector stack (a % 512) else byteAt s.baseLba s.disk a := by
  rw [MesaFS.saveMetadata, if_pos hvalid]
  exact byteAt_writeSector s.baseLba s.disk (s.metadataSector stack) (x := 1) (by omega) ha

theorem saveMetadata_valid {s : MesaFS} (stack : ℕ → U8) :
    (s.saveMetadata stack).1.metadataValid = s.metadataValid := by
  rw [MesaFS.saveMetadata]
  split <;> rfl

/-- Entry `i` is replaced, the data sectors become `ds` and `dt`, and the metadata are saved. -/
theorem Session.Alike.saved {s t : Session} (h : s.Alike t) (i : ℕ) (e : MesaFSEntry)
    (ds dt : Disk) (nodes : List FsNode) (stack : ℕ → U8) :
    let s' : Session :=
      { fs := (({ s.fs with disk := ds }.setEntry i e).saveMetadata stack).1, nodes := nodes }
    let t' : Session :=
      { fs := (({ t.fs with disk := dt }.setEntry i e).saveMetadata stack).1, nodes := nodes }
    s'.Alike t' ∧ ∀ a < 512 * 2 ^ 28,
      (a / 512 = 1 → s'.byte a = t'.byte a) ∧
      (a / 512 ≠ 1 → s'.byte a = byteAt s.fs.baseLba ds a ∧
        t'.byte a = byteAt s.fs.baseLba dt a) := by
  have hentries : ({ t.fs with disk := dt }.setEntry i e).entries =
      ({ s.fs with disk := ds }.setEntry i e).entries := by
    rw [MesaFS.setEntry, MesaFS.setEntry, h.entries]
  refine ⟨⟨?_, ?_, ?_, rfl⟩, fun a ha => ?_⟩
  · rw [(saveMetadata_entries _ _).2, (saveMetadata_entries _ _).2]
    exact h.baseLba
  · rw [saveMetadata_valid, saveMetadata_valid]
    exact h.valid
  · rw [(saveMetadata_entries _ _).1, (saveMetadata_entries _ _).1]
    exact hentries
  · have hs := byteAt_saved (s := { s.fs with disk := ds }.setEntry i e) h.valid.1 stack ha
    have ht := byteAt_saved (s := { t.fs with disk := dt }.setEntry i e) h.valid.2 stack ha
    rw [metadataSector_congr hentries] at ht
    rw [Session.byte, Session.byte, (saveMetadata_entries _ _).2, (saveMetadata_entries _ _).2]
    dsimp only
    rw [hs, ht]
    constructor
    · intro hmeta
      rw [if_pos hmeta, if_pos hmeta]
    · intro hmeta
      rw [if_neg hmeta, if_neg hmeta]
      exact ⟨rfl, congrArg (byteAt · dt a) h.baseLba⟩

/-! ### One request -/

/-- A new entry: what `create_file` and `create_dir` do on any drive. -/
def CreatedEntry (create : MesaFS → Option (MesaFS × Option FsNode)) (stack : ℕ → U8) : Prop :=
  (∀ s : MesaFS, s.freeSlot = none → create s = some (s, none)) ∧
  ∀ i, (∀ s : MesaFS, s.freeSlot = some i → create s = none) ∨
    ∃ e node, e.length = 0 ∧ ∀ s : MesaFS, s.freeSlot = some i → s.metadataValid = true →
      create s = some (((s.setEntry i e).saveMetadata stack).1, some node)

theorem createFile_created (name : CString) (uid gid mode : U32) (stack : ℕ → U8) :
    CreatedEntry (fun s => s.createFile name uid gid mode stack) stack := by
  refine ⟨fun s hslot => ?_, fun i => ?_⟩
  · dsimp only
    rw [MesaFS.createFile, hslot]
  cases hname : name.fits 64 with
  | false =>
    refine .inl fun s hslot => ?_
    dsimp only
    rw [MesaFS.createFile, hslot]
    simp [hname]
  | true =>
    refine .inr ⟨
      { name := name, lbaStart := BitVec.ofNat 32 (100 + i * 10), length := 0, uid := uid
        gid := gid, mode := mode, flags := 1, present := true },
      { name := name, flags := fsFile, inode := i, uid := uid, gid := gid, mask := mode
        handlers := .mesafsFile }, rfl, fun s hslot hvalid => ?_⟩
    have hs : ({ s with metadataValid := true } : MesaFS) = s := by
      rw [← hvalid]
    dsimp only
    rw [MesaFS.createFile, hslot]
    dsimp only
    rw [hname, Bool.not_true, if_neg Bool.false_ne_true, hs]
    simp [MesaFS.saveMetadata, MesaFS.setEntry, hvalid]

theorem createDir_created (name : CString) (uid gid mode : U32) (stack : ℕ → U8) :
    CreatedEntry (fun s => s.createDir name uid gid mode stack) stack := by
  refine ⟨fun s hslot => ?_, fun i => ?_⟩
  · dsimp only
    rw [MesaFS.createDir, hslot]
  cases hname : name.fits 64 with
  | false =>
    refine .inl fun s hslot => ?_
    dsimp only
    rw [MesaFS.createDir, hslot]
    simp [hname]
  | true =>
    refine .inr ⟨
      { name := name, lbaStart := 0, length := 0, uid := uid, gid := gid, mode := mode
        flags := 2, present := true },
      { name := name, flags := fsDirectory, inode := i, uid := uid, gid := gid, mask := mode
        handlers := .mesafsDir }, rfl, fun s hslot _ => ?_⟩
    dsimp only
    rw [MesaFS.createDir, hslot]
    dsimp only
    rw [hname, Bool.not_true, if_neg Bool.false_ne_true]

/-- Both sessions go on alike, and every byte is put the same on both drives or kept on each. -/
def Session.StepAlike (s t : Session) (r : Request) (s' : Session) : Prop :=
  ∃ t', t.step r = some t' ∧ s'.Alike t' ∧ ∀ a < 512 * 2 ^ 28,
    SameOrKept (s.Puts a r) (s.byte a) (s'.byte a) (t.byte a) (t'.byte a)

/-- Nothing, or the same entry and node on every drive whose first free slot is the same. -/
theorem CreatedEntry.cases {create : MesaFS → Option (MesaFS × Option FsNode)} {stack : ℕ → U8}
    (h : CreatedEntry create stack) {s : Session} (hvalid : s.fs.metadataValid = true)
    {s' : Session} (hstep : (create s.fs).map (fun (fs, node) =>
      ({ fs := fs, nodes := s.nodes ++ node.toList } : Session)) = some s') :
    (s.fs.freeSlot = none ∧ s' = s) ∨
      ∃ i e node, s.fs.freeSlot = some i ∧ e.length = 0 ∧
        s' = { fs := ((s.fs.setEntry i e).saveMetadata stack).1, nodes := s.nodes ++ [node] } ∧
        ∀ u : MesaFS, u.freeSlot = some i → u.metadataValid = true →
          create u = some (((u.setEntry i e).saveMetadata stack).1, some node) := by
  cases hslot : s.fs.freeSlot with
  | none =>
    rw [h.1 _ hslot, Option.map_some, Option.some_inj] at hstep
    refine .inl ⟨rfl, ?_⟩
    rw [← hstep]
    dsimp only
    rw [Option.toList_none, List.append_nil]
  | some i =>
    rcases h.2 i with hnone | ⟨e, node, hempty, hsome⟩
    · rw [hnone _ hslot] at hstep
      exact absurd hstep (by simp)
    · rw [hsome _ hslot hvalid, Option.map_some, Option.some_inj] at hstep
      exact .inr ⟨i, e, node, rfl, hempty, hstep.symm, hsome⟩

theorem Session.Alike.step_created {s t s' : Session} (h : s.Alike t) {r : Request}
    {create : MesaFS → Option (MesaFS × Option FsNode)} {stack : ℕ → U8}
    (hcreate : CreatedEntry create stack)
    (hr : ∀ u : Session, u.step r = (create u.fs).map fun (fs, node) =>
      { fs := fs, nodes := u.nodes ++ node.toList })
    (hputs : ∀ (u : Session) a, u.Puts a r ↔ u.fs.freeSlot.isSome = true ∧ a / 512 = 1)
    (hstep : s.step r = some s') : s.StepAlike t r s' := by
  rw [hr] at hstep
  have hfree := freeSlot_congr h.entries
  rcases hcreate.cases h.valid.1 hstep with ⟨hslot, rfl⟩ | ⟨i, e, node, hslot, -, rfl, hsome⟩
  · -- the registry is full, for the other session too
    rw [hslot] at hfree
    refine ⟨t, ?_, h, fun a _ => .inr ⟨fun hput => ?_, rfl, rfl⟩⟩
    · rw [hr, hcreate.1 _ hfree]
      simp
    · rw [hputs, hslot] at hput
      exact absurd hput.1 (by simp)
  · rw [hslot] at hfree
    obtain ⟨halike, hbytes⟩ :=
      h.saved i e s.fs.disk t.fs.disk (s.nodes ++ [node]) stack
    refine ⟨_, ?_, halike, fun a ha => ?_⟩
    · rw [hr, hsome _ hfree h.valid.2, Option.map_some, h.nodes]
      rfl
    by_cases hmeta : a / 512 = 1
    · refine .inl ⟨?_, (hbytes a ha).1 hmeta⟩
      rw [hputs, hslot]
      exact ⟨rfl, hmeta⟩
    · refine .inr ⟨fun hput => hmeta ((hputs s a).mp hput).2, ?_, ?_⟩
      · exact ((hbytes a ha).2 hmeta).1
      · rw [((hbytes a ha).2 hmeta).2, Session.byte, h.baseLba]

theorem Session.Alike.step_write {s t s' : Session} (hs : WellPlaced s) (h : s.Alike t) {n : ℕ}
    {offset size : U32} {buffer stack : ℕ → U8}
    (hstep : s.step (.write n offset size buffer stack) = some s') :
    s.StepAlike t (.write n offset size buffer stack) s' := by
  obtain ⟨node, hnode, hstep⟩ := Option.bind_eq_some_iff.mp hstep
  have hlba := hs.lba_of_node (List.mem_of_getElem? hnode)
  -- the loops copy the same bytes to both drives
  obtain ⟨v, hv, -, hvbytes⟩ := writeData_spec s.fs node offset size buffer (by omega)
  obtain ⟨w, hw, -, hwbytes⟩ := writeData_spec t.fs node offset size buffer
    (by rw [h.entries]; omega)
  rw [h.baseLba, h.entries] at hwbytes
  rw [MesaFS.write, hv, Option.map_some, Option.map_some, Option.some_inj] at hstep
  dsimp only at hstep
  set e : MesaFSEntry := { s.fs.entries node.inode with
    length := if offset + size > (s.fs.entries node.inode).length then offset + size
      else (s.fs.entries node.inode).length } with he
  obtain ⟨halike, hbytes⟩ := h.saved node.inode e v.disk w.disk s.nodes stack
  subst hstep
  refine ⟨_, ?_, halike, fun a ha => ?_⟩
  · rw [Session.step, h.nodes, hnode, Option.bind_some, MesaFS.write, hw, Option.map_some,
      Option.map_some, he, ← h.entries]
  have hputs : s.Puts a (.write n offset size buffer stack) ↔
      a / 512 = 1 ∨ Covers (s.fs.entries node.inode).lbaStart offset size.toNat a := by
    rw [Session.Puts, hnode]
    simp
  by_cases hmeta : a / 512 = 1
  · exact .inl ⟨hputs.mpr (.inl hmeta), (hbytes a ha).1 hmeta⟩
  obtain ⟨hsbyte, htbyte⟩ := (hbytes a ha).2 hmeta
  by_cases hcovers : Covers (s.fs.entries node.inode).lbaStart offset size.toNat a
  · refine .inl ⟨hputs.mpr (.inr hcovers), ?_⟩
    rw [hsbyte, htbyte, hvbytes a ha, hwbytes a ha, if_pos hcovers, if_pos hcovers]
  · refine .inr ⟨fun hput => (hputs.mp hput).elim hmeta hcovers, ?_, ?_⟩
    · rw [hsbyte, hvbytes a ha, if_neg hcovers, Session.byte]
    · rw [htbyte, hwbytes a ha, if_neg hcovers, Session.byte, h.baseLba]

theorem Session.step_alike {s t s' : Session} (hs : WellPlaced s) (h : s.Alike t) {r : Request}
    (hstep : s.step r = some s') : s.StepAlike t r s' := by
  cases r with
  | createFile name uid gid mode stack =>
    exact h.step_created (createFile_created name uid gid mode stack) (fun _ => rfl)
      (fun _ _ => Iff.rfl) hstep
  | createDir name uid gid mode stack =>
    exact h.step_created (createDir_created name uid gid mode stack) (fun _ => rfl)
      (fun _ _ => Iff.rfl) hstep
  | finddir name =>
    rw [Session.step, Option.some_inj] at hstep
    subst hstep
    refine ⟨_, rfl, ⟨h.baseLba, h.valid, h.entries, ?_⟩, fun a _ => .inr ⟨id, rfl, rfl⟩⟩
    have hfound : t.fs.finddir name = s.fs.finddir name := by
      rw [MesaFS.finddir, MesaFS.finddir, h.entries]
    dsimp only
    rw [h.nodes, hfound]
  | write n offset size buffer stack => exact h.step_write hs hstep

/-- A write that begins within its file makes it grow over bytes that it puts. -/
theorem covers_grown {lba offset size length : U32} {a : ℕ} (hoff : offset ≤ length)
    (hold : 512 * lba.toNat + length.toNat ≤ a)
    (ha : a < 512 * lba.toNat +
      (if offset + size > length then offset + size else length : U32).toNat) :
    Covers lba offset size.toNat a := by
  have hoff' := BitVec.le_def.mp hoff
  have hsize := size.isLt
  have hlength := length.isLt
  by_cases hgrows : offset + size > length
  · rw [if_pos hgrows, BitVec.toNat_add] at ha
    unfold Covers distance
    omega
  · rw [if_neg hgrows] at ha
    omega

theorem keeps_created {s s' : Session} (hvalid : s.fs.metadataValid = true)
    {create : MesaFS → Option (MesaFS × Option FsNode)} {stack : ℕ → U8}
    (hcreate : CreatedEntry create stack)
    (hstep : (create s.fs).map (fun (fs, node) =>
      ({ fs := fs, nodes := s.nodes ++ node.toList } : Session)) = some s') {k a : ℕ}
    (hkeeps : (s'.fs.entries k).Keeps a) : (s.fs.entries k).Keeps a := by
  rcases hcreate.cases hvalid hstep with ⟨-, rfl⟩ | ⟨i, e, node, -, hempty, rfl, -⟩
  · exact hkeeps
  · rw [(saveMetadata_entries _ _).1, MesaFS.setEntry] at hkeeps
    dsimp only at hkeeps
    by_cases hki : k = i
    · -- a new entry has no data
      rw [hki, Function.update_self] at hkeeps
      obtain ⟨-, hle, hlt⟩ := hkeeps
      rw [hempty, show (0 : U32).toNat = 0 from rfl] at hlt
      omega
    · rw [Function.update_of_ne hki] at hkeeps
      exact hkeeps

/-- Data of an entry are older, or the step has put them. -/
theorem Session.step_keeps {s s' : Session} (hvalid : s.fs.metadataValid = true) {r : Request}
    (hok : s.Within r) (hstep : s.step r = some s') {k a : ℕ}
    (hkeeps : (s'.fs.entries k).Keeps a) : (s.fs.entries k).Keeps a ∨ s.Puts a r := by
  cases r with
  | createFile name uid gid mode stack =>
    exact .inl (keeps_created hvalid (createFile_created name uid gid mode stack) hstep hkeeps)
  | createDir name uid gid mode stack =>
    exact .inl (keeps_created hvalid (createDir_created name uid gid mode stack) hstep hkeeps)
  | finddir name =>
    rw [Session.step, Option.some_inj] at hstep
    subst hstep
    exact .inl hkeeps
  | write n offset size buffer stack =>
    obtain ⟨node, hnode, hstep⟩ := Option.bind_eq_some_iff.mp hstep
    obtain ⟨⟨fs, m⟩, hwrite, rfl⟩ := Option.map_eq_some_iff.mp hstep
    obtain ⟨v, -, hv⟩ := Option.map_eq_some_iff.mp hwrite
    rw [Prod.mk.injEq] at hv
    obtain ⟨rfl, -⟩ := hv
    rw [(saveMetadata_entries _ _).1, MesaFS.setEntry] at hkeeps
    dsimp only at hkeeps
    by_cases hki : k = node.inode
    · rw [hki, Function.update_self] at hkeeps
      obtain ⟨hp, hle, hlt⟩ := hkeeps
      dsimp only at hp hle hlt
      rcases Nat.lt_or_ge a (512 * (s.fs.entries node.inode).lbaStart.toNat +
        (s.fs.entries node.inode).length.toNat) with hold | hnew
      · rw [hki]
        exact .inl ⟨hp, hle, hold⟩
      · have hoff : offset ≤ (s.fs.entries node.inode).length := hok node hnode
        exact .inr ⟨node, hnode, .inr (covers_grown hoff hnew hlt)⟩
    · rw [Function.update_of_ne hki] at hkeeps
      exact .inl hkeeps

/-! ### Whole sessions -/

/-- Every byte is put the same on both drives in the course of the run, or kept on each. -/
theorem Session.run_alike {s t s' : Session} {requests : List Request} (hs : WellPlaced s)
    (h : s.Alike t) (hrun : run Session.step s requests = some s') :
    ∃ t', run Session.step t requests = some t' ∧ s'.Alike t' ∧ ∀ a < 512 * 2 ^ 28,
      SameOrKept (Sometime Session.step (Session.Puts a) s requests)
        (s.byte a) (s'.byte a) (t.byte a) (t'.byte a) := by
  induction requests generalizing s t with
  | nil =>
    rw [run_nil, Option.some_inj] at hrun
    subst hrun
    exact ⟨t, rfl, h, fun a _ => .inr ⟨id, rfl, rfl⟩⟩
  | cons r requests ih =>
    rw [run_cons] at hrun
    obtain ⟨u, hu, hrest⟩ := Option.bind_eq_some_iff.mp hrun
    obtain ⟨v, hv, huv, hbytes⟩ := Session.step_alike hs h hu
    obtain ⟨t', ht', halike, hlater⟩ := ih (wellPlaced_step hs hu) huv hrest
    refine ⟨t', by rw [run_cons, hv]; exact ht', halike, fun a ha => ?_⟩
    rw [SameOrKept, sometime_cons_some hu]
    rcases hlater a ha with ⟨hput, heq⟩ | ⟨hnot, hs', ht'⟩
    · exact .inl ⟨.inr hput, heq⟩
    · rw [hs', ht']
      rcases hbytes a ha with ⟨hput, heq⟩ | ⟨hkept, hsu, htv⟩
      · exact .inl ⟨.inl hput, heq⟩
      · exact .inr ⟨fun hor => hor.elim hkept hnot, hsu, htv⟩

theorem Session.keeps_of_run {s t s' : Session} {requests : List Request} (hs : WellPlaced s)
    (h : s.Alike t) (hok : Guarded Session.step Session.Within s requests)
    (hrun : run Session.step s requests = some s') {k a : ℕ}
    (hkeeps : (s'.fs.entries k).Keeps a) :
    (s.fs.entries k).Keeps a ∨ Sometime Session.step (Session.Puts a) s requests := by
  induction requests generalizing s t with
  | nil =>
    rw [run_nil, Option.some_inj] at hrun
    exact .inl (hrun ▸ hkeeps)
  | cons r requests ih =>
    rw [run_cons] at hrun
    obtain ⟨u, hu, hrest⟩ := Option.bind_eq_some_iff.mp hrun
    obtain ⟨v, -, huv, -⟩ := Session.step_alike hs h hu
    rw [sometime_cons_some hu]
    rcases ih (wellPlaced_step hs hu) huv (hok.2 u hu) hrest with hthen | hput
    · rcases Session.step_keeps h.valid.1 hok.1 hu hthen with hold | hnow
      · exact .inl hold
      · exact .inr (.inl hnow)
    · exact .inr (.inr hput)

/-- The address of byte `j` of a read. -/
def FsNode.address (node : FsNode) (s : Session) (offset : U32) (j : ℕ) : ℕ :=
  512 * (s.fs.entries node.inode).lbaStart.toNat + offset.toNat + j

/-- The number of bytes that a read returns. -/
def FsNode.readable (node : FsNode) (s : Session) (offset size : U32) : ℕ :=
  min size.toNat ((s.fs.entries node.inode).length.toNat - offset.toNat)

theorem Session.read_bytes (s : Session) (node : FsNode) {offset size : U32}
    (hsum : offset.toNat + size.toNat < 2 ^ 32) :
    s.fs.read node offset size = some ((List.range (node.readable s offset size)).map fun j =>
      s.byte (node.address s offset j)) := read_spec s.fs node offset size hsum

theorem Session.Alike.read_eq_iff {s t : Session} (h : s.Alike t) (node : FsNode)
    {offset size : U32} (hsum : offset.toNat + size.toNat < 2 ^ 32) :
    t.fs.read node offset size = s.fs.read node offset size ↔
      ∀ j < node.readable s offset size,
        t.byte (node.address s offset j) = s.byte (node.address s offset j) := by
  rw [t.read_bytes node hsum, s.read_bytes node hsum, Option.some_inj, FsNode.readable,
    FsNode.readable, h.entries, List.map_inj_left]
  simp only [List.mem_range, FsNode.address, h.entries]

theorem WellPlaced.address_lt {s : Session} (hs : WellPlaced s) {node : FsNode}
    (hnode : node ∈ s.nodes) {offset size : U32} {j : ℕ} (hj : j < node.readable s offset size) :
    node.address s offset j < 512 * 2 ^ 28 := by
  have hlba := hs.lba_of_node hnode
  have hlen := (s.fs.entries node.inode).length.isLt
  rw [FsNode.readable] at hj
  rw [FsNode.address]
  omega

/-- A new file with one byte, put at offset 1. -/
def sparseFile : List Request :=
  [.createFile nameA 0 0 0o644 (fun _ => 0), .write 0 1 1 (fun _ => 0x42) (fun _ => 0)]

/-- A new file that is written from its beginning and then at its end. -/
def grownFile : List Request :=
  [.createFile nameA 0 0 0o644 (fun _ => 0), .write 0 0 600 (fun _ => 0x41) (fun _ => 0),
    .write 0 600 1 (fun _ => 0x42) (fun _ => 0)]

end MesaOS.FS
