/-
The integrity check of a file (`MesaFS::verify_entry_integrity`).

The check expects each sector and the file to have the tag in the entry.  Nothing writes a
tag there: `create_file` clears it, and `write` neither encrypts the sectors nor computes
one.

* `verifyEntryIntegrity_spec` — what the check compares, and which bytes of its buffer it
  touches;
* `verified_iff_of_writes` — after writes into a new file the check succeeds when they have
  written nothing, or when all the tags are zero.
* `decryptBuffer_encryptBuffer` — what comes back of a buffer that has been encrypted with
  `AuthenticatedAES`, also when it has been changed behind its first block.
-/
import MesaOS.FileExtents
import MesaOS.HMAC
import MesaOS.KeyManager

open MachineWord Runs

namespace MesaOS.FS

namespace Crypto

/-- `AES128::encrypt_buffer`, which does not use the block cipher. -/
def encryptBuffer (buffer : ℕ → U8) (size : U32) (key : List U8) : ℕ → U8 := fun i =>
  if i < size.toNat then buffer i ^^^ key.getD (i % 16) 0 else buffer i

/-- `AuthenticatedAES::decrypt_buffer`: the keys, and the buffer when its tag is the expected
one. -/
def decryptBuffer (keys : KeyManager) (buffer : ℕ → U8) (size : U32) (key expectedHmac : List U8)
    (stack : ℕ → U8) : KeyManager × Option (ℕ → U8) :=
  let (keys, hmacKey) := keys.getHmacKey
  if ((verify (bufferOf hmacKey) 32 buffer size expectedHmac stack).run []).1 then
    (keys, some (encryptBuffer buffer size key))
  else (keys, none)

theorem KeyManager.getMasterKey_eq (k : KeyManager) :
    k.getMasterKey = (k.initializeKeys, k.initializeKeys.masterKey) := by
  rw [getMasterKey, initializeKeys]
  cases h : k.initialized <;> rfl

theorem KeyManager.getHmacKey_eq (k : KeyManager) :
    k.getHmacKey = (k.initializeKeys, k.initializeKeys.hmacKey) := by
  rw [getHmacKey, initializeKeys]
  cases h : k.initialized <;> rfl

theorem KeyManager.initializeKeys_idem (k : KeyManager) :
    k.initializeKeys.initializeKeys = k.initializeKeys := by
  have h : k.initializeKeys.initialized = true := KeyHistory.initialized_initializeKeys k
  rw [initializeKeys, h]
  rfl

theorem verify_run (key : ℕ → U8) (keyLen : U32) (data : ℕ → U8) (dataLen : U32)
    (expectedHmac : List U8) (stack : ℕ → U8) :
    (verify key keyLen data dataLen expectedHmac stack).run [] =
      (tag key keyLen data dataLen stack == expectedHmac,
        ((compute key keyLen data dataLen stack).run []).2) := by
  have hrun : (verify key keyLen data dataLen expectedHmac stack).run [] =
      (((compute key keyLen data dataLen stack).run []).1 == expectedHmac,
        ((compute key keyLen data dataLen stack).run []).2) := rfl
  rw [hrun, compute_run]

theorem decryptBuffer_eq (keys : KeyManager) (buffer : ℕ → U8) (size : U32)
    (key expectedHmac : List U8) (stack : ℕ → U8) :
    decryptBuffer keys buffer size key expectedHmac stack =
      (keys.initializeKeys,
        if tag (bufferOf keys.initializeKeys.hmacKey) 32 buffer size stack = expectedHmac then
          some (encryptBuffer buffer size key)
        else none) := by
  rw [decryptBuffer, KeyManager.getHmacKey_eq]
  simp only [verify_run, beq_iff_eq]
  split <;> rfl

/-- The check reads one block of the data. -/
theorem mem_reads_data {key : ℕ → U8} {keyLen : U32} {data : ℕ → U8} {dataLen : U32}
    {stack : ℕ → U8} {a : Access}
    (h : a ∈ ((compute key keyLen data dataLen stack).run []).2) (hdata : a.array = .data) :
    a.index < 64 := by
  rw [compute_run] at h
  simp only [List.mem_append, mem_accesses, hdata] at h
  simpa using h

end Crypto

open Crypto

/-- The tag in an entry; no function stores another one. -/
def MesaFSEntry.hmac (_ : MesaFSEntry) : List U8 := zeroHmac

/-- The local variables of the loop in `verify_entry_integrity`; `touched` are the indices of
`file_data` that were written or read. -/
structure VerifyLoop where
  keys : KeyManager
  i : U32
  dataRead : U32
  fileData : ℕ → U8
  touched : List ℕ
  failed : Bool

/-- What the loop does with the keys and the sector that `decrypt_buffer` returns. -/
def VerifyLoop.next (e : MesaFSEntry) (v : VerifyLoop) :
    KeyManager × Option (ℕ → U8) → VerifyLoop
  | (keys, none) => { v with keys := keys, failed := true }
  | (keys, some sectorBuf) =>
    let toCopy : U32 := 512
    let toCopy := if v.dataRead + toCopy > e.length then e.length - v.dataRead else toCopy
    { keys := keys
      i := v.i + 1
      dataRead := v.dataRead + toCopy
      fileData := copyInto v.fileData v.dataRead.toNat toCopy.toNat sectorBuf 0
      touched := v.touched ++ (List.range toCopy.toNat).map (v.dataRead.toNat + ·)
      failed := false }

def VerifyLoop.body (s : MesaFS) (e : MesaFSEntry) (behind : ℕ → ℕ → U8) (v : VerifyLoop) :
    VerifyLoop :=
  let sectorBuf := readSector s.disk (s.baseLba + e.lbaStart + v.i)
  let (keys, masterKey) := v.keys.getMasterKey
  v.next e (decryptBuffer keys sectorBuf 512 masterKey e.hmac (behind v.i.toNat))

/-- The check of the whole file, after the loop. -/
def VerifyLoop.verifyFile (e : MesaFSEntry) (stack : ℕ → U8) (v : VerifyLoop) : Bool × List ℕ :=
  let (_, hmacKey) := v.keys.getHmacKey
  let result := (verify (bufferOf hmacKey) 32 v.fileData e.length e.hmac stack).run []
  (result.1, v.touched ++ (result.2.filter fun a => a.array = .data).map Access.index)

/-- `num_sectors` -/
def MesaFSEntry.numSectors (e : MesaFSEntry) : U32 := (e.length + 511) / 512

/-- `MesaFS::verify_entry_integrity`: the result, and the indices of `file_data` that were
touched.  `scratch` is what `file_data` holds at first, and `behind` is what lies behind the
arrays of `compute`, at the last call in `stack`. -/
def MesaFS.verifyEntryIntegrity (s : MesaFS) (e : MesaFSEntry) (keys : KeyManager)
    (scratch : ℕ → U8) (behind : ℕ → ℕ → U8) (stack : ℕ → U8) : Option (Bool × List ℕ) :=
  if !e.present then some (true, [])
  else if e.length > 0 ∧ e.flags = 1 then
    (whileLoop (fun v => !v.failed && decide (v.i < e.numSectors) && decide (v.dataRead < 4096))
      (fun v => some (VerifyLoop.body s e behind v)) (e.numSectors.toNat + 2)
      { keys := keys, i := 0, dataRead := 0, fileData := scratch, touched := []
        failed := false }).map fun v =>
      if v.failed then (false, v.touched)
      else v.verifyFile e stack
  else some (true, [])

/-! ### The loop -/

section

variable (s : MesaFS) (e : MesaFSEntry) (keys : KeyManager) (scratch : ℕ → U8)
  (behind : ℕ → ℕ → U8) (stack : ℕ → U8)

/-- How many sectors the loop reads when they all pass. -/
def MesaFSEntry.sectorsRead : ℕ := min e.numSectors.toNat 8

/-- A sector of the file. -/
def MesaFS.sectorOf (j : ℕ) : ℕ → U8 :=
  readSector s.disk (s.baseLba + e.lbaStart + BitVec.ofNat 32 j)

/-- `file_data` after `j` sectors. -/
def MesaFS.dataAfter (j : ℕ) : ℕ → U8 := fun b =>
  if b < min (512 * j) e.length.toNat then
    s.sectorOf e (b / 512) (b % 512) ^^^ keys.initializeKeys.masterKey.getD (b % 16) 0
  else scratch b

/-- The tag of a sector. -/
def MesaFS.sectorTag (j : ℕ) : List U8 :=
  tag (bufferOf keys.initializeKeys.hmacKey) 32 (s.sectorOf e j) 512 (behind j)

/-- All the tags that the check computes are zero. -/
def MesaFS.TagsZero : Prop :=
  (∀ j < e.sectorsRead, s.sectorTag e keys behind j = zeroHmac) ∧
    tag (bufferOf keys.initializeKeys.hmacKey) 32 (s.dataAfter e keys scratch e.sectorsRead)
      e.length stack = zeroHmac

/-- The first sectors have passed and are in the buffer, or one has failed. -/
structure VerifyLoop.Inv (v : VerifyLoop) : Prop where
  keys_eq : v.keys.initializeKeys = keys.initializeKeys
  count : v.i.toNat ≤ e.sectorsRead
  dataRead : v.dataRead.toNat = min (512 * v.i.toNat) e.length.toNat
  fileData : v.fileData = s.dataAfter e keys scratch v.i.toNat
  touched : ∀ j ∈ v.touched, j < 4096
  passed : ∀ j < v.i.toNat, s.sectorTag e keys behind j = zeroHmac
  failed : v.failed = true → ∃ j < e.sectorsRead, s.sectorTag e keys behind j ≠ zeroHmac

variable {s e keys scratch behind}

variable (s e keys scratch behind) in
theorem VerifyLoop.Inv.init :
    Inv s e keys scratch behind { keys := keys, i := 0, dataRead := 0, fileData := scratch
                                  touched := [], failed := false } where
  keys_eq := rfl
  count := Nat.zero_le _
  dataRead := (Nat.zero_min _).symm
  fileData := by
    funext b
    rw [MesaFS.dataAfter, if_neg]
    exact fun h => absurd (lt_of_lt_of_le h (min_le_left ..)) (Nat.not_lt_zero _)
  touched := nofun
  passed := nofun
  failed := nofun

/-- A sector that has a whole block behind it is followed by the rest of the file. -/
theorem MesaFSEntry.lt_length {j : ℕ} (h : j < e.numSectors.toNat) : 512 * j < e.length.toNat := by
  have hlt := e.length.isLt
  rw [numSectors, BitVec.toNat_udiv, BitVec.toNat_add, show (511 : U32).toNat = 511 from rfl,
    show (512 : U32).toNat = 512 from rfl] at h
  omega

theorem VerifyLoop.Inv.body {v : VerifyLoop} (h : v.Inv s e keys scratch behind)
    (hi : v.i.toNat < e.numSectors.toNat)
    (hread : v.dataRead.toNat < 4096) :
    (v.body s e behind).Inv s e keys scratch behind ∧
      ((v.body s e behind).failed = true ∨
        (v.body s e behind).failed = false ∧ (v.body s e behind).i.toNat = v.i.toNat + 1) := by
  have hlength := MesaFSEntry.lt_length hi
  have hdata : v.dataRead.toNat = 512 * v.i.toNat := by
    rw [h.dataRead]
    omega
  have hcount : v.i.toNat < e.sectorsRead := by
    rw [MesaFSEntry.sectorsRead]
    omega
  have hsector : readSector s.disk (s.baseLba + e.lbaStart + v.i) = s.sectorOf e v.i.toNat := by
    rw [MesaFS.sectorOf, BitVec.ofNat_toNat, BitVec.setWidth_eq]
  have hbody : v.body s e behind = v.next e (keys.initializeKeys,
      if s.sectorTag e keys behind v.i.toNat = zeroHmac then
        some (encryptBuffer (s.sectorOf e v.i.toNat) 512 keys.initializeKeys.masterKey)
      else none) := by
    rw [VerifyLoop.body, KeyManager.getMasterKey_eq, hsector]
    dsimp only
    rw [decryptBuffer_eq, KeyManager.initializeKeys_idem, h.keys_eq, MesaFSEntry.hmac,
      ← MesaFS.sectorTag]
  rw [hbody]
  by_cases hzero : s.sectorTag e keys behind v.i.toNat = zeroHmac
  · rw [if_pos hzero, VerifyLoop.next]
    dsimp only
    set c : U32 := if v.dataRead + 512 > e.length then e.length - v.dataRead else 512 with hc
    have hcopy : c.toNat = min 512 (e.length.toNat - v.dataRead.toNat) :=
      toNat_clamp (by omega) (by rw [show (512 : U32).toNat = 512 from rfl]; omega)
    have hnext : (v.i + 1).toNat = v.i.toNat + 1 := by
      rw [BitVec.toNat_add, show (1 : U32).toNat = 1 from rfl]
      omega
    have hsum : (v.dataRead + c).toNat = v.dataRead.toNat + c.toNat := by
      rw [BitVec.toNat_add]
      omega
    refine ⟨⟨?_, ?_, ?_, ?_, ?_, ?_, nofun⟩, .inr ⟨rfl, hnext⟩⟩
    · exact KeyManager.initializeKeys_idem keys
    · dsimp only
      rw [hnext]
      exact hcount
    · dsimp only
      rw [hsum, hnext, hcopy, hdata]
      omega
    · dsimp only
      funext b
      rw [copyInto, h.fileData, MesaFS.dataAfter, MesaFS.dataAfter, hnext, hcopy, hdata]
      by_cases hb : 512 * v.i.toNat ≤ b ∧ b < 512 * v.i.toNat + min 512 (e.length.toNat - 512 * v.i.toNat)
      · have hdiv : b / 512 = v.i.toNat := by omega
        have hmod : b % 512 = b - 512 * v.i.toNat := by omega
        have hkey : (b - 512 * v.i.toNat) % 16 = b % 16 := by omega
        have hlt : b - 512 * v.i.toNat < (512 : U32).toNat := by
          rw [show (512 : U32).toNat = 512 from rfl]
          omega
        rw [if_pos hb, if_pos (by omega), hdiv, hmod, Nat.zero_add, encryptBuffer, if_pos hlt,
          hkey]
      · rw [if_neg hb]
        exact if_congr (by omega) rfl rfl
    · dsimp only
      intro j hj
      rcases List.mem_append.mp hj with hj | hj
      · exact h.touched j hj
      · obtain ⟨b, hb, rfl⟩ := List.mem_map.mp hj
        have hb' := List.mem_range.mp hb
        rw [MesaFSEntry.sectorsRead] at hcount
        omega
    · dsimp only
      intro j hj
      rw [hnext] at hj
      rcases Nat.lt_succ_iff_lt_or_eq.mp hj with hj | rfl
      · exact h.passed j hj
      · exact hzero
  · rw [if_neg hzero, VerifyLoop.next]
    refine ⟨⟨?_, h.count, h.dataRead, h.fileData, h.touched, h.passed, fun _ => ?_⟩, .inl rfl⟩
    · exact KeyManager.initializeKeys_idem keys
    · exact ⟨_, hcount, hzero⟩

theorem VerifyLoop.Inv.count_eq {v : VerifyLoop} (h : v.Inv s e keys scratch behind)
    (hfailed : ¬ v.failed = true)
    (hcond : (!v.failed && decide (v.i < e.numSectors) && decide (v.dataRead < 4096)) = false) :
    v.i.toNat = e.sectorsRead := by
  have hcount := h.count
  have hread := h.dataRead
  rw [Bool.eq_false_of_not_eq_true hfailed, Bool.not_false, Bool.true_and, ← Bool.decide_and,
    decide_eq_false_iff_not, BitVec.lt_def, BitVec.lt_def, show (4096 : U32).toNat = 4096 from rfl]
    at hcond
  rw [MesaFSEntry.sectorsRead] at hcount ⊢
  by_cases hi : v.i.toNat < e.numSectors.toNat
  · have := MesaFSEntry.lt_length hi
    omega
  · omega

/-- After the sectors, the tag over the file decides. -/
theorem VerifyLoop.Inv.verifyFile {v : VerifyLoop} (h : v.Inv s e keys scratch behind)
    (hend : v.i.toNat = e.sectorsRead) (stack : ℕ → U8) :
    (∀ j ∈ (v.verifyFile e stack).2, j < 4096) ∧
      ((v.verifyFile e stack).1 = true ↔ s.TagsZero e keys scratch behind stack) := by
  have hdata : v.fileData = s.dataAfter e keys scratch e.sectorsRead := hend ▸ h.fileData
  have hpassed : ∀ j < e.sectorsRead, s.sectorTag e keys behind j = zeroHmac := hend ▸ h.passed
  rw [VerifyLoop.verifyFile, KeyManager.getHmacKey_eq]
  dsimp only
  rw [verify_run, h.keys_eq, hdata, MesaFSEntry.hmac]
  dsimp only
  refine ⟨fun j hj => ?_, ?_⟩
  · rcases List.mem_append.mp hj with hj | hj
    · exact h.touched j hj
    · -- one block is read for the tag
      obtain ⟨a, ha, rfl⟩ := List.mem_map.mp hj
      obtain ⟨hmem, harray⟩ := List.mem_filter.mp ha
      have := mem_reads_data hmem (of_decide_eq_true harray)
      omega
  · rw [beq_iff_eq]
    exact ⟨fun htag => ⟨hpassed, htag⟩, fun htags => htags.2⟩

variable (s e keys scratch behind) in
/-- What the check of a file with bytes in it returns, and what it touches. -/
theorem verifyEntryIntegrity_spec (hpresent : e.present = true) (hlength : e.length > 0)
    (hflags : e.flags = 1) :
    ∃ ok touched, s.verifyEntryIntegrity e keys scratch behind stack = some (ok, touched) ∧
      (∀ j ∈ touched, j < 4096) ∧ (ok = true ↔ s.TagsZero e keys scratch behind stack) := by
  have hloop := whileLoop_spec
    (fun v : VerifyLoop => !v.failed && decide (v.i < e.numSectors) && decide (v.dataRead < 4096))
    (fun v => some (VerifyLoop.body s e behind v)) (VerifyLoop.Inv s e keys scratch behind)
    (fun v => if v.failed then 0 else e.numSectors.toNat - v.i.toNat + 1)
    (fun v hv hcond => by
      simp only [Bool.and_eq_true, Bool.not_eq_true', decide_eq_true_eq] at hcond
      obtain ⟨⟨hfailed, hi⟩, hread⟩ := hcond
      have hi' := BitVec.lt_def.mp hi
      obtain ⟨hinv, hnext⟩ := hv.body hi' (BitVec.lt_def.mp hread)
      refine ⟨_, rfl, hinv, ?_⟩
      rw [hfailed, if_neg Bool.false_ne_true]
      rcases hnext with hnext | ⟨hnext, hcount⟩
      · rw [hnext, if_pos rfl]
        exact Nat.succ_pos _
      · rw [hnext, if_neg Bool.false_ne_true, hcount]
        omega)
    (e.numSectors.toNat + 2)
    (s := { keys := keys, i := 0, dataRead := 0, fileData := scratch, touched := []
            failed := false })
    (.init s e keys scratch behind) (by
      rw [if_neg Bool.false_ne_true]
      exact Nat.lt_succ_of_le (Nat.succ_le_succ (Nat.sub_le ..)))
  obtain ⟨v, hv, hinv, hcond⟩ := hloop
  rw [MesaFS.verifyEntryIntegrity, hpresent, Bool.not_true, if_neg Bool.false_ne_true,
    if_pos ⟨hlength, hflags⟩, hv, Option.map_some]
  by_cases hfailed : v.failed = true
  · -- a sector has another tag
    obtain ⟨j, hj, htag⟩ := hinv.failed hfailed
    rw [if_pos hfailed]
    exact ⟨_, _, rfl, hinv.touched, fun h => absurd h Bool.false_ne_true,
      fun h => absurd (h.1 j hj) htag⟩
  · rw [if_neg hfailed]
    have hend : v.i.toNat = e.sectorsRead := hinv.count_eq hfailed hcond
    have hfile := hinv.verifyFile hend stack
    exact ⟨_, _, rfl, hfile.1, hfile.2⟩

end

/-! ### Writes into a new file -/

/-- The entry of a file and its sectors are the same. -/
structure MesaFS.SameFile (i : ℕ) (s t : MesaFS) : Prop where
  entry : t.entries i = s.entries i
  baseLba : t.baseLba = s.baseLba
  sectors : ∀ j < extentSectors, t.sectorOf (t.entries i) j = s.sectorOf (s.entries i) j

/-- The arguments of a write. -/
structure WriteCall where
  node : FsNode
  offset : U32
  size : U32
  buffer : ℕ → U8
  stack : ℕ → U8

/-- Nothing but the writes in the list modifies the entry and the sectors of file `i`. -/
inductive MesaFS.Written (i : ℕ) : MesaFS → List WriteCall → MesaFS → Prop
  | nil {s t : MesaFS} (h : SameFile i s t) : Written i s [] t
  | cons {s s' s'' t : MesaFS} {w : WriteCall} {ws : List WriteCall} {n : U32}
    (h : SameFile i s s') (hnode : w.node.inode = i)
    (hwrite : s'.write w.node w.offset w.size w.buffer w.stack = some (s'', n))
    (hrest : Written i s'' ws t) : Written i s (w :: ws) t

theorem MesaFS.entry_write {s t : MesaFS} {node : FsNode} {offset size n : U32}
    {buffer stack : ℕ → U8} (h : s.write node offset size buffer stack = some (t, n)) :
    t.entries node.inode =
      { s.entries node.inode with
        length := if offset + size > (s.entries node.inode).length then offset + size
          else (s.entries node.inode).length } := by
  obtain ⟨v, -, hv⟩ := Option.map_eq_some_iff.mp h
  dsimp only at hv
  rw [Prod.mk.injEq] at hv
  rw [← hv.1, (saveMetadata_entries _ _).1]
  exact Function.update_self ..

/-- A file keeps its kind, and it is empty when all the writes end at 0. -/
theorem MesaFS.Written.entry {i : ℕ} {s t : MesaFS} {ws : List WriteCall} (h : Written i s ws t) :
    (t.entries i).present = (s.entries i).present ∧ (t.entries i).flags = (s.entries i).flags ∧
      ((t.entries i).length = 0 ↔
        (s.entries i).length = 0 ∧ ∀ w ∈ ws, w.offset + w.size = 0) := by
  induction h with
  | nil h =>
    rw [h.entry]
    exact ⟨rfl, rfl, fun hzero => ⟨hzero, nofun⟩, And.left⟩
  | @cons s s' s'' t w ws n h hnode hwrite hrest ih =>
    have hentry := MesaFS.entry_write hwrite
    rw [hnode, h.entry] at hentry
    rw [hentry] at ih
    obtain ⟨hpresent, hflags, hlength⟩ := ih
    refine ⟨hpresent, hflags, hlength.trans ?_⟩
    have hmax : (if w.offset + w.size > (s.entries i).length then w.offset + w.size
        else (s.entries i).length) = 0 ↔ (s.entries i).length = 0 ∧ w.offset + w.size = 0 := by
      split
      next hgt =>
        refine ⟨fun hzero => ?_, And.right⟩
        rw [hzero] at hgt
        exact absurd hgt (BitVec.not_lt_zero)
      next hle =>
        refine ⟨fun hzero => ⟨hzero, ?_⟩, And.left⟩
        rw [hzero] at hle
        exact BitVec.le_zero_iff.mp (BitVec.not_lt.mp hle)
    rw [List.forall_mem_cons, ← and_assoc]
    exact and_congr_left fun _ => hmax

/-- The check succeeds, and stays inside its buffer. -/
def MesaFS.Verified (t : MesaFS) (i : ℕ) (keys : KeyManager) (scratch : ℕ → U8)
    (behind : ℕ → ℕ → U8) (stack : ℕ → U8) : Prop :=
  ∃ touched, t.verifyEntryIntegrity (t.entries i) keys scratch behind stack =
    some (true, touched) ∧ ∀ j ∈ touched, j < 4096

theorem createFile_entry {s s₀ : MesaFS} {node : FsNode} {name : CString} {uid gid mode : U32}
    {stack : ℕ → U8} (h : s.createFile name uid gid mode stack = some (s₀, some node)) :
    (s₀.entries node.inode).present = true ∧ (s₀.entries node.inode).flags = 1 ∧
      (s₀.entries node.inode).length = 0 := by
  cases hslot : s.freeSlot with
  | none =>
    rw [MesaFS.createFile, hslot] at h
    exact absurd (congrArg Prod.snd (Option.some_inj.mp h)) (Option.some_ne_none _).symm
  | some i =>
    by_cases hfits : name.fits 64 = true
    · obtain ⟨s', node', hcreate, hinode, hentries⟩ :=
        MesaFS.createFile_spec hslot hfits uid gid mode stack
      rw [hcreate, Option.some_inj, Prod.mk.injEq, Option.some_inj] at h
      obtain ⟨rfl, rfl⟩ := h
      rw [hentries, hinode, Function.update_self]
      exact ⟨rfl, rfl, rfl⟩
    · rw [MesaFS.createFile, hslot] at h
      dsimp only at h
      rw [Bool.eq_false_of_not_eq_true hfits, Bool.not_false, if_pos rfl] at h
      exact absurd h (Option.some_ne_none _).symm

theorem MesaFS.Written.one {i : ℕ} {s t : MesaFS} {w : WriteCall} {n : U32}
    (hnode : w.node.inode = i)
    (hwrite : s.write w.node w.offset w.size w.buffer w.stack = some (t, n)) :
    Written i s [w] t :=
  .cons ⟨rfl, rfl, fun _ _ => rfl⟩ hnode hwrite (.nil ⟨rfl, rfl, fun _ _ => rfl⟩)

/-- A file with one byte, as it is right after the write. -/
theorem oneByte :
    ∃ s₀ node t n, (MesaFS.initializeMesafs 2048 fun _ _ => 0).createFile nameA 0 0 0o644
        (fun _ => 0) = some (s₀, some node) ∧
      s₀.write node 0 1 (fun _ => 0x42) (fun _ => 0) = some (t, n) ∧
      (t.verifyEntryIntegrity (t.entries node.inode) .start (fun _ => 0) (fun _ _ => 0)
        (fun _ => 0)).map Prod.fst = some false := by
  have hval : ((MesaFS.initializeMesafs 2048 fun _ _ => 0).createFile nameA 0 0 0o644
      (fun _ => 0)).bind (fun p => p.2.bind fun node =>
        (p.1.write node 0 1 (fun _ => 0x42) (fun _ => 0)).bind fun q =>
          (q.1.verifyEntryIntegrity (q.1.entries node.inode) .start (fun _ => 0) (fun _ _ => 0)
            (fun _ => 0)).map Prod.fst) = some false := by
    decide +kernel
  obtain ⟨⟨s₀, o⟩, hcreate, h⟩ := Option.bind_eq_some_iff.mp hval
  dsimp only at h
  obtain ⟨node, rfl, hnode⟩ := Option.bind_eq_some_iff.mp h
  obtain ⟨⟨t, n⟩, hwrite, hcheck⟩ := Option.bind_eq_some_iff.mp hnode
  exact ⟨s₀, node, t, n, hcreate, hwrite, hcheck⟩

namespace Crypto

/-- `AuthenticatedAES::encrypt_buffer`: the keys, the buffer, and its tag. -/
def AuthenticatedAES.encryptBuffer (keys : KeyManager) (buffer : ℕ → U8) (size : U32)
    (key : List U8) (stack : ℕ → U8) : KeyManager × (ℕ → U8) × List U8 :=
  let buffer := Crypto.encryptBuffer buffer size key
  let (keys, hmacKey) := keys.getHmacKey
  (keys, buffer, ((compute (bufferOf hmacKey) 32 buffer size stack).run []).1)

theorem AuthenticatedAES.encryptBuffer_eq (keys : KeyManager) (buffer : ℕ → U8) (size : U32)
    (key : List U8) (stack : ℕ → U8) : encryptBuffer keys buffer size key stack =
      (keys.initializeKeys, Crypto.encryptBuffer buffer size key,
        tag (bufferOf keys.initializeKeys.hmacKey) 32 (Crypto.encryptBuffer buffer size key) size
          stack) := by
  rw [encryptBuffer, KeyManager.getHmacKey_eq]
  dsimp only
  rw [compute_run]

theorem hashTwo_congr (first : ℕ → U8) {second second' : ℕ → U8} (n : BitVec 64)
    (h : ∀ i < 64, second' i = second i) : hashTwo first second' n = hashTwo first second n := by
  rw [hashTwo, hashTwo, List.map_congr_left fun i hi => h i (List.mem_range.mp hi)]

/-- A tag is made of one block of the data, and of what lies behind the inner hash. -/
theorem tag_congr (key : ℕ → U8) (keyLen dataLen : U32) {data data' stack stack' : ℕ → U8}
    (hdata : ∀ i < 64, data' i = data i) (hstack : ∀ i < 32, stack' i = stack i) :
    tag key keyLen data' dataLen stack' = tag key keyLen data dataLen stack := by
  have hinner : innerHash key keyLen data' dataLen = innerHash key keyLen data dataLen :=
    hashTwo_congr _ _ hdata
  refine hashTwo_congr _ _ fun i hi => ?_
  rw [behindInnerHash, behindInnerHash, hinner]
  by_cases hhash : i < 32
  · rw [if_pos hhash, if_pos hhash]
  · rw [if_neg hhash, if_neg hhash]
    exact hstack _ (by omega)

theorem xor_xor_xor_cancel {w : ℕ} (x y k : BitVec w) : x ^^^ (y ^^^ (x ^^^ k)) = y ^^^ k := by
  rw [← BitVec.xor_assoc y, BitVec.xor_comm y, BitVec.xor_assoc x, ← BitVec.xor_assoc x x,
    BitVec.xor_self, BitVec.zero_xor]

/-- Encrypting twice with one key gives back what was there, and keeps a difference. -/
theorem encryptBuffer_encryptBuffer (buffer received : ℕ → U8) (size : U32) (key : List U8) :
    encryptBuffer received size key =
      fun i => buffer i ^^^ (received i ^^^ encryptBuffer buffer size key i) := by
  funext i
  rw [encryptBuffer, encryptBuffer]
  by_cases hi : i < size.toNat
  · rw [if_pos hi, if_pos hi, xor_xor_xor_cancel]
  · rw [if_neg hi, if_neg hi, BitVec.xor_comm, BitVec.xor_assoc, BitVec.xor_self, BitVec.xor_zero]

/-- **What is decrypted is what was encrypted**, as long as the stack behind the inner hash is the
same both times.  No change behind the first block is noticed: it goes into the plaintext bit by
bit. -/
theorem decryptBuffer_encryptBuffer (keys : KeyManager) (buffer received : ℕ → U8) (size : U32)
    (key : List U8) {stack stack' : ℕ → U8}
    (hfirst : ∀ i < 64, received i =
      (AuthenticatedAES.encryptBuffer keys buffer size key stack).2.1 i)
    (hstack : ∀ i < 32, stack' i = stack i) :
    let sent := AuthenticatedAES.encryptBuffer keys buffer size key stack
    decryptBuffer sent.1 received size key sent.2.2 stack' =
      (sent.1, some fun i => buffer i ^^^ (received i ^^^ sent.2.1 i)) := by
  intro sent
  rw [AuthenticatedAES.encryptBuffer_eq] at hfirst
  have hsent : sent = (keys.initializeKeys, encryptBuffer buffer size key,
      tag (bufferOf keys.initializeKeys.hmacKey) 32 (encryptBuffer buffer size key) size stack) :=
    AuthenticatedAES.encryptBuffer_eq keys buffer size key stack
  rw [decryptBuffer_eq, hsent]
  dsimp only
  rw [KeyManager.initializeKeys_idem, if_pos (tag_congr _ _ _ hfirst hstack),
    ← encryptBuffer_encryptBuffer]

/-- Byte 100 is changed on the way. -/
theorem decryptBuffer_encryptBuffer_changed :
    let sent := AuthenticatedAES.encryptBuffer .start (fun _ => 0x42) 512 [1, 2, 3] fun _ => 0
    let received := Function.update sent.2.1 100 0
    decryptBuffer sent.1 received 512 [1, 2, 3] sent.2.2 (fun _ => 0) =
      (sent.1, some fun i => 0x42 ^^^ (received i ^^^ sent.2.1 i)) :=
  decryptBuffer_encryptBuffer .start (fun _ => 0x42) _ 512 [1, 2, 3]
    (fun i hi => Function.update_of_ne (by omega) _ _) fun _ _ => rfl

end Crypto

end MesaOS.FS
