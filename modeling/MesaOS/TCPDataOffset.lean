/-
The data offset of a segment in `TCP::handle_packet` (`net/tcp.cpp`).

The offset is read from the segment and never checked.  Below five words, bytes of the
header are appended to the receive buffer; beyond the size of the segment, the payload
size wraps, and the copy loop reads behind the segment.

* `deliver_recvBuffer` — the places of the segment that the copy loop reads;
* `switchState_quiet_iff` — the states in which nothing is sent;
* `offsetChecked_iff` — when a segment is treated as its data offset asks for.
-/
import MesaOS.TCPCalls

open MachineWord

namespace MesaOS.Net

/-- `header->data_offset >> 4`, a number of words. -/
def TCPHeader.words (data : ℕ → U8) : ℕ := (data 12 >>> 4).toNat

theorem TCPHeader.toNat_dataOffset (data : ℕ → U8) :
    (TCPHeader.dataOffset data).toNat = 4 * TCPHeader.words data := by
  have hbyte := (data 12).isLt
  have hwords : TCPHeader.words data = (data 12).toNat / 2 ^ 4 := by
    rw [TCPHeader.words, BitVec.toNat_ushiftRight, Nat.shiftRight_eq_div_pow]
  rw [TCPHeader.dataOffset, BitVec.toNat_mul, BitVec.toNat_setWidth, ← TCPHeader.words,
    show (4 : U32).toNat = 4 from rfl]
  omega

theorem TCPHeader.words_lt (data : ℕ → U8) : TCPHeader.words data < 16 := by
  have hbyte := (data 12).isLt
  rw [TCPHeader.words, BitVec.toNat_ushiftRight, Nat.shiftRight_eq_div_pow]
  omega

/-- `data_size` is the difference exactly when it does not wrap. -/
theorem TCPHeader.dataSize_iff (data : ℕ → U8) (size : U32) :
    (size - TCPHeader.dataOffset data).toNat + 4 * TCPHeader.words data = size.toNat ↔
      4 * TCPHeader.words data ≤ size.toNat := by
  have hwords := TCPHeader.words_lt data
  have hsize := size.isLt
  rw [BitVec.toNat_sub, TCPHeader.toNat_dataOffset]
  omega

/-! ### The copy loop -/

namespace TCPConnection

/-- The number of bytes that the copy loop appends. -/
def bytesToCopy (conn : TCPConnection) (flags : U8) (dataSize : U32) : ℕ :=
  if conn.state = .established ∧ hasFlag flags tcpFin = false then
    min dataSize.toNat (tcpBufferSize - conn.recvCount).toNat
  else 0

/-- One round of the copy loop. -/
def storeByte (v : (ℕ → U8) × U32) (byte : U8) : (ℕ → U8) × U32 :=
  (Function.update v.1 v.2.toNat byte, (v.2 + 1) % tcpBufferSize)

/-- What the state switch writes to the receive buffer. -/
theorem switchState_recvBuffer (conn : TCPConnection) (myIp : U32) (flags : U8) (payload : ℕ → U8)
    (dataSize : U32) :
    ((conn.switchState myIp flags payload dataSize).1.recvBuffer,
      (conn.switchState myIp flags payload dataSize).1.recvEnd) =
      ((List.range (conn.bytesToCopy flags dataSize)).map payload).foldl storeByte
        (conn.recvBuffer, conn.recvEnd) := by
  rw [switchState, bytesToCopy]
  cases hstate : conn.state with
  | established =>
    dsimp only
    cases hfin : hasFlag flags tcpFin with
    | true =>
      rw [if_pos rfl, sendFlags_eq, sendFlags_eq]
      simp
    | false =>
      rw [if_neg Bool.false_ne_true, if_pos (And.intro rfl rfl), List.foldl_map]
      by_cases hdata : dataSize > 0
      · rw [if_pos hdata, ← toNat_ite_lt]
        generalize (if dataSize < tcpBufferSize - conn.recvCount then dataSize
          else tcpBufferSize - conn.recvCount) = n
        rw [sendFlags_eq, storeBytes]
        rfl
      · -- nothing is copied: without data the minimum is 0
        have hzero : dataSize.toNat = 0 := by
          have := toNat_le_of_not_lt hdata
          simpa using this
        rw [if_neg hdata, hzero, Nat.zero_min]
        rfl
  | listen | synSent | synReceived | finWait1 | finWait2 =>
    dsimp only
    split <;> simp [sendFlags_eq]
  | closed | closeWait | closing | lastAck | timeWait => simp

end TCPConnection

/-- The places in the segment of the bytes that are appended for the connection at `p`. -/
def TCP.appended (t : TCP) (p : ℕ) (data : ℕ → U8) (size : U32) : List ℕ :=
  (List.range ((t.memory p).bytesToCopy (TCPHeader.flags data)
    (size - TCPHeader.dataOffset data))).map ((TCPHeader.dataOffset data).toNat + ·)

/-- **The receive buffer takes the bytes of the segment at these places.** -/
theorem TCP.deliver_recvBuffer (t : TCP) (p : ℕ) (data : ℕ → U8) (size : U32) :
    (((t.deliver p data size).1.memory p).recvBuffer,
      ((t.deliver p data size).1.memory p).recvEnd) =
      ((t.appended p data size).map data).foldl TCPConnection.storeByte
        ((t.memory p).recvBuffer, (t.memory p).recvEnd) := by
  rw [deliver_memory_self, switched, TCPConnection.switchState_recvBuffer, appended, List.map_map]
  rfl

theorem TCP.lt_of_mem_appended {t : TCP} {p : ℕ} {data : ℕ → U8} {size : U32} {i : ℕ}
    (h : i ∈ t.appended p data size) :
    4 * TCPHeader.words data ≤ i ∧
      i < 4 * TCPHeader.words data + (size - TCPHeader.dataOffset data).toNat := by
  rw [appended, TCPHeader.toNat_dataOffset, List.mem_map] at h
  obtain ⟨k, hk, rfl⟩ := h
  rw [List.mem_range, TCPConnection.bytesToCopy] at hk
  split at hk <;> omega

/-! ### Acknowledgments -/

/-- The states in which a segment with data is not answered. -/
def TCPState.Quiet (state : TCPState) (flags : U8) : Prop :=
  match state with
  | .listen => hasFlag flags tcpSyn = false
  | .synSent => (hasFlag flags tcpSyn && hasFlag flags tcpAck) = false
  | .established => False
  | .finWait2 => hasFlag flags tcpFin = false
  | _ => True

theorem TCPConnection.switchState_quiet_iff (conn : TCPConnection) (myIp : U32) (flags : U8)
    (payload : ℕ → U8) {dataSize : U32} (hdata : dataSize > 0) :
    (conn.switchState myIp flags payload dataSize).2.1 = [] ↔ conn.state.Quiet flags := by
  rw [switchState, TCPState.Quiet.eq_def]
  cases conn.state with
  | established =>
    dsimp only
    rw [if_pos hdata]
    cases hasFlag flags tcpFin <;> simp [sendFlags_eq]
  | listen | synSent | finWait2 =>
    dsimp only
    split <;> simp_all [sendFlags_eq]
  | synReceived | finWait1 =>
    dsimp only
    split <;> simp
  | closed | closeWait | closing | lastAck | timeWait => simp

namespace TCP

theorem deliver_quiet_iff (t : TCP) (p : ℕ) {data : ℕ → U8} {size : U32}
    (hdata : size - TCPHeader.dataOffset data > 0) :
    (t.deliver p data size).2 = [] ↔ (t.memory p).state.Quiet (TCPHeader.flags data) :=
  (t.acknowledged p data size).switchState_quiet_iff _ _ _ hdata

/-- The acknowledgment number that a segment leaves. -/
theorem deliver_ackNumber (t : TCP) (p : ℕ) (data : ℕ → U8) (size : U32) :
    ((t.deliver p data size).1.memory p).ackNumber =
      TCPHeader.seqNumber data + (size - TCPHeader.dataOffset data) +
        (if hasFlag (TCPHeader.flags data) tcpSyn then 1 else 0) +
        (if hasFlag (TCPHeader.flags data) tcpFin then 1 else 0) := by
  rw [deliver_memory_self, switched, (TCPConnection.keeps_switchState _ _ _ _ _).ackNumber]
  rfl

/-! ### The connection of a segment -/

/-- The connection that `handle_packet` finds or makes, and the connections then. -/
def target (t : TCP) (srcIp : U32) (data : ℕ → U8) : Option (TCP × ℕ) :=
  match t.findConnection t.myIp srcIp (TCPHeader.destPort data) (TCPHeader.srcPort data) with
  | some p => some (t, p)
  | none =>
    match t.connectOnDemand srcIp data with
    | (u, some p) => some (u, p)
    | (_, none) => none

theorem handlePacket_of_target {t u : TCP} {srcIp : U32} {data : ℕ → U8} {size : U32} {p : ℕ}
    (hsize : 20 ≤ size.toNat) (h : t.target srcIp data = some (u, p)) :
    t.handlePacket srcIp data size = u.deliver p data size := by
  have hlt : ¬ size < 20 := BitVec.not_lt.mpr (BitVec.le_def.mpr hsize)
  rw [handlePacket, if_neg hlt]
  rw [target] at h
  cases hfind : t.findConnection t.myIp srcIp (TCPHeader.destPort data)
      (TCPHeader.srcPort data) with
  | some q =>
    rw [hfind] at h
    obtain ⟨rfl, rfl⟩ := Prod.mk.inj (Option.some.inj h)
    rfl
  | none =>
    rw [hfind] at h
    rcases hon : t.connectOnDemand srcIp data with ⟨v, _ | q⟩
    · rw [hon] at h
      exact absurd h (by simp)
    · rw [hon] at h
      obtain ⟨rfl, rfl⟩ := Prod.mk.inj (Option.some.inj h)
      rfl

/-- A segment for no connection is dropped. -/
theorem handlePacket_of_noTarget {t : TCP} {srcIp : U32} {data : ℕ → U8} {size : U32}
    (hsize : 20 ≤ size.toNat) (h : t.target srcIp data = none) :
    (t.handlePacket srcIp data size).2 = [] ∧
      (t.handlePacket srcIp data size).1.memory = t.memory := by
  have hlt : ¬ size < 20 := BitVec.not_lt.mpr (BitVec.le_def.mpr hsize)
  rw [handlePacket, if_neg hlt]
  rw [target] at h
  cases hfind : t.findConnection t.myIp srcIp (TCPHeader.destPort data)
      (TCPHeader.srcPort data) with
  | some q =>
    rw [hfind] at h
    exact absurd h (by simp)
  | none =>
    rw [hfind] at h
    obtain ⟨count, time, hdropped | hcreated⟩ := t.connectOnDemand_cases srcIp data
    · rw [hdropped]
      exact ⟨rfl, rfl⟩
    · rw [hcreated] at h
      exact absurd h (by simp)

/-- No connection is made for the segment: it has no `SYN`, or there are too many of them. -/
def Dropped (t : TCP) (data : ℕ → U8) : Prop :=
  hasFlag (TCPHeader.flags data) tcpSyn = false ∨ (0 - t.lastSynTime < 1000 ∧ t.synCount + 1 > 10)

theorem target_of_dropped {t : TCP} {srcIp : U32} {data : ℕ → U8}
    (hfind : t.findConnection t.myIp srcIp (TCPHeader.destPort data) (TCPHeader.srcPort data) = none)
    (h : t.Dropped data) : t.target srcIp data = none := by
  rw [target, hfind]
  dsimp only
  have hnone : (t.connectOnDemand srcIp data).2 = none := by
    rw [connectOnDemand]
    rcases h with hsyn | ⟨htime, hcount⟩
    · rw [hsyn, if_neg Bool.false_ne_true]
    · dsimp only
      rw [if_pos htime, if_pos hcount]
      split <;> rfl
  rcases hon : t.connectOnDemand srcIp data with ⟨u, _ | p⟩
  · rfl
  · rw [hon] at hnone
    exact absurd hnone (by simp)

/-- A connection that is made is in `LISTEN`, and its segment has a `SYN`. -/
theorem target_of_not_dropped {t : TCP} {srcIp : U32} {data : ℕ → U8}
    (hfind : t.findConnection t.myIp srcIp (TCPHeader.destPort data) (TCPHeader.srcPort data) = none)
    (h : ¬ t.Dropped data) :
    ∃ u p, t.target srcIp data = some (u, p) ∧ (u.memory p).state = .listen ∧
      hasFlag (TCPHeader.flags data) tcpSyn = true := by
  rw [Dropped, not_or, Bool.not_eq_false, not_and] at h
  obtain ⟨hsyn, hcount⟩ := h
  rw [target, hfind]
  dsimp only
  rw [connectOnDemand]
  dsimp only
  rw [if_pos hsyn]
  by_cases htime : 0 - t.lastSynTime < 1000
  · rw [if_pos htime, if_neg (hcount htime)]
    exact ⟨_, _, rfl, by rw [setState, put_memory_self], hsyn⟩
  · rw [if_neg htime]
    exact ⟨_, _, rfl, by rw [setState, put_memory_self], hsyn⟩

/-! ### Segments and their data offset -/

/-- The places in the segment of the bytes that `handle_packet` appends to a receive buffer. -/
def places (t : TCP) (srcIp : U32) (data : ℕ → U8) (size : U32) : List ℕ :=
  match t.target srcIp data with
  | some (u, p) => u.appended p data size
  | none => []

/-- The segment is treated as its data offset asks for. -/
structure OffsetChecked (t : TCP) (srcIp : U32) (data : ℕ → U8) (size : U32) : Prop where
  inside : ∀ i ∈ t.places srcIp data size, 20 ≤ i ∧ i < size.toNat
  dataSize : (t.target srcIp data).isSome →
    (size - TCPHeader.dataOffset data).toNat + 4 * TCPHeader.words data = size.toNat
  rejected : TCPHeader.words data < 5 ∨ size.toNat < 4 * TCPHeader.words data →
    t.places srcIp data size = [] ∧ (t.handlePacket srcIp data size).2 = [] ∧
      ∀ p, ((t.handlePacket srcIp data size).1.memory p).ackNumber = (t.memory p).ackNumber

/-- The data offset is missing words of the header, but this makes no difference: the segment is
for no connection, or for one that does not answer it and has its acknowledgment number already. -/
def Harmless (t : TCP) (srcIp : U32) (data : ℕ → U8) (size : U32) : Prop :=
  match t.findConnection t.myIp srcIp (TCPHeader.destPort data) (TCPHeader.srcPort data) with
  | some p =>
    TCPHeader.words data < 5 ∧ (t.memory p).state.Quiet (TCPHeader.flags data) ∧
      (t.memory p).ackNumber = TCPHeader.seqNumber data + (size - TCPHeader.dataOffset data) +
        (if hasFlag (TCPHeader.flags data) tcpSyn then 1 else 0) +
        (if hasFlag (TCPHeader.flags data) tcpFin then 1 else 0)
  | none => t.Dropped data

/-- A segment with a data offset in its range is copied from behind its header. -/
theorem offsetChecked_of_wellFormed {t : TCP} {srcIp : U32} {data : ℕ → U8} {size : U32}
    (hlow : 5 ≤ TCPHeader.words data) (hhigh : 4 * TCPHeader.words data ≤ size.toNat) :
    t.OffsetChecked srcIp data size := by
  have hdataSize := (TCPHeader.dataSize_iff data size).mpr hhigh
  refine ⟨?_, fun _ => hdataSize, fun hbad => by omega⟩
  intro i hi
  rw [places] at hi
  split at hi
  · obtain ⟨hfirst, hlast⟩ := lt_of_mem_appended hi
    omega
  · exact absurd hi List.not_mem_nil

theorem offsetChecked_of_harmless {t : TCP} {srcIp : U32} {data : ℕ → U8} {size : U32}
    (hsize : 20 ≤ size.toNat) (h : t.Harmless srcIp data size) :
    t.OffsetChecked srcIp data size := by
  rw [Harmless] at h
  cases hfind : t.findConnection t.myIp srcIp (TCPHeader.destPort data)
      (TCPHeader.srcPort data) with
  | none =>
    rw [hfind] at h
    have htarget := target_of_dropped hfind h
    have hplaces : t.places srcIp data size = [] := by rw [places, htarget]
    obtain ⟨hout, hmemory⟩ := handlePacket_of_noTarget hsize htarget
    refine ⟨by simp [hplaces], by simp [htarget], fun _ => ⟨hplaces, hout, fun p => ?_⟩⟩
    rw [hmemory]
  | some p =>
    rw [hfind] at h
    obtain ⟨hwords, hquiet, hack⟩ := h
    have htarget : t.target srcIp data = some (t, p) := by rw [target, hfind]
    have hdataSize := (TCPHeader.dataSize_iff data size).mpr (by omega)
    have hdata : size - TCPHeader.dataOffset data > 0 := by
      rw [gt_iff_lt, BitVec.lt_def, show (0 : U32).toNat = 0 from rfl]
      omega
    -- only an established connection has bytes appended, and it always answers
    have hplaces : t.places srcIp data size = [] := by
      have hstate : (t.memory p).state ≠ .established := by
        intro hstate
        rw [hstate] at hquiet
        exact hquiet
      rw [places, htarget]
      simp [appended, TCPConnection.bytesToCopy, hstate]
    refine ⟨by simp [hplaces], fun _ => hdataSize, fun _ => ⟨hplaces, ?_, fun q => ?_⟩⟩
    · rw [handlePacket_of_target hsize htarget]
      exact (t.deliver_quiet_iff p hdata).mpr hquiet
    · rw [handlePacket_of_target hsize htarget]
      by_cases hq : q = p
      · rw [hq, deliver_ackNumber, hack]
      · rw [(t.deliver_frame p data size).2.2 q hq]

/-- **The data offset is respected when it is in its range, or when the segment is harmless.** -/
theorem offsetChecked_iff (t : TCP) (srcIp : U32) (data : ℕ → U8) (size : U32)
    (hsize : 20 ≤ size.toNat) :
    t.OffsetChecked srcIp data size ↔
      (5 ≤ TCPHeader.words data ∧ 4 * TCPHeader.words data ≤ size.toNat) ∨
        t.Harmless srcIp data size := by
  constructor
  · intro h
    rw [or_iff_not_imp_left]
    intro hbad
    rw [Harmless]
    have hbad' : TCPHeader.words data < 5 ∨ size.toNat < 4 * TCPHeader.words data := by omega
    obtain ⟨hplaces, hout, hack⟩ := h.rejected hbad'
    -- a segment for a connection is not too short for its offset
    have hshort : (t.target srcIp data).isSome →
        TCPHeader.words data < 5 ∧ size - TCPHeader.dataOffset data > 0 := by
      intro hsome
      have hdataSize := h.dataSize hsome
      have hhigh := (TCPHeader.dataSize_iff data size).mp hdataSize
      rw [gt_iff_lt, BitVec.lt_def, show (0 : U32).toNat = 0 from rfl]
      omega
    have hquiet : ∀ u p, t.target srcIp data = some (u, p) →
        (u.memory p).state.Quiet (TCPHeader.flags data) := by
      intro u p htarget
      obtain ⟨-, hdata⟩ := hshort (by simp [htarget])
      rw [handlePacket_of_target hsize htarget] at hout
      exact (u.deliver_quiet_iff p hdata).mp hout
    cases hfind : t.findConnection t.myIp srcIp (TCPHeader.destPort data)
        (TCPHeader.srcPort data) with
    | none =>
      by_contra hdropped
      -- a connection that is made answers with a SYN of its own
      obtain ⟨u, p, htarget, hstate, hsyn⟩ := target_of_not_dropped hfind hdropped
      have hlisten := hquiet u p htarget
      rw [hstate, TCPState.Quiet.eq_def, hsyn] at hlisten
      exact absurd hlisten (by simp)
    | some p =>
      have htarget : t.target srcIp data = some (t, p) := by rw [target, hfind]
      refine ⟨(hshort (by simp [htarget])).1, hquiet t p htarget, ?_⟩
      have hackp := hack p
      rw [handlePacket_of_target hsize htarget, deliver_ackNumber] at hackp
      exact hackp.symm
  · rintro (⟨hlow, hhigh⟩ | hharmless)
    · exact offsetChecked_of_wellFormed hlow hhigh
    · exact offsetChecked_of_harmless hsize hharmless

/-- A connection from port 49152 of 10.0.2.15 to port 80 of 10.0.2.2. -/
def connectedTcp : TCP := ((initializeTcp 0x0F02000A).connect 0x0202000A 80).1

/-- The peer's segment of `size` bytes, an `ACK` with the given data offset. -/
def ackSegment (words : U8) : ℕ → U8 :=
  bufferOf [80, 0, 0x00, 0xC0, 0, 0, 0, 0, 0, 0, 0, 0, words <<< 4, 0x10, 0, 0, 0, 0, 0, 0]

/-- `offsetChecked_iff` at a segment without data. -/
theorem offsetChecked_ackSegment :
    20 ≤ (20 : U32).toNat ∧ (connectedTcp.OffsetChecked 0x0202000A (ackSegment 5) 20 ↔
      (5 ≤ TCPHeader.words (ackSegment 5) ∧ 4 * TCPHeader.words (ackSegment 5) ≤ (20 : U32).toNat) ∨
        connectedTcp.Harmless 0x0202000A (ackSegment 5) 20) :=
  ⟨by decide, offsetChecked_iff connectedTcp 0x0202000A (ackSegment 5) 20 (by decide)⟩

/-- With a data offset of no words the header itself is appended. -/
theorem ackSegment_not_checked :
    ¬ ∀ (t : TCP) (srcIp : U32) (data : ℕ → U8) (size : U32), 20 ≤ size.toNat →
      t.OffsetChecked srcIp data size := by
  intro hall
  have hchecked := hall connectedTcp 0x0202000A (ackSegment 0) 20 (by decide)
  have hzero : 0 ∈ connectedTcp.places 0x0202000A (ackSegment 0) 20 := by decide +kernel
  exact absurd (hchecked.inside 0 hzero).1 (by decide)

end TCP

end MesaOS.Net
