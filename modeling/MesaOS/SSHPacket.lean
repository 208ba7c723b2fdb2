/-
Packets of the SSH server (`SSH::send_ssh_packet`).

The padding makes type, data and padding a multiple of eight bytes; the five bytes in front of
them are left out of the sum, so that the whole packet always has five bytes too many
(`toNat_totalLength_mod`).  The buffer has room for the padding of 4083 bytes of data.

* `packet_eq` — the bytes that are handed to TCP;
* `correct_iff` — when no wrong packet is sent and nothing is written behind the buffer.
-/
import MesaOS.StoreLog
import MesaOS.TCPSend

open MachineWord NetworkOrder StoreLog

/-- A binary packet of RFC 4253 without encryption: the length of what follows the length field,
the length of the padding, the payload and the padding. -/
structure RFC4253.BinaryPacket (payload bytes : List U8) : Prop where
  length : (be32 (bufferOf bytes) 0).toNat + 4 = bytes.length
  padding : 4 ≤ (bufferOf bytes 4).toNat
  aligned : bytes.length % 8 = 0
  payload : (bytes.drop 5).take (bytes.length - 5 - (bufferOf bytes 4).toNat) = payload

namespace MesaOS.Net.SSH

/-! ### The source -/

/-- `padding_length` -/
def paddingLength (length : U32) : U8 :=
  let packetLength := 1 + length
  let paddingLength : U8 := (8 - packetLength % 8).setWidth 8
  if paddingLength < 4 then paddingLength + 8 else paddingLength

/-- `total_length` -/
def totalLength (length : U32) : U32 := 4 + 1 + (1 + length) + (paddingLength length).setWidth 32

/-- The bytes in front of the data. -/
def header (type : U8) (length : U32) : List U8 :=
  let rest := totalLength length - 4
  [(rest >>> 24).setWidth 8, (rest >>> 16).setWidth 8, (rest >>> 8).setWidth 8, rest.setWidth 8,
    paddingLength length, type]

/-- `if (data && length) memcpy(packet + 6, data, length)` -/
def dataStores (data : Option (ℕ → U8)) (length : U32) : List (ℕ × U8) :=
  match data with
  | some data => if length ≠ 0 then copy 6 ((List.range length.toNat).map data) else []
  | none => []

/-- What is written into `packet`, in the order of the code.  The place of the padding is a
pointer, which may wrap around. -/
def packetStores (type : U8) (data : Option (ℕ → U8)) (length : U32) : List (ℕ × U8) :=
  copy 0 (header type length) ++ (dataStores data length ++
    copy (6 + length).toNat (List.replicate (paddingLength length).toNat 0))

/-- The bytes that are handed to `TCP::send`, the places of `packet` that are written, and what
TCP emits. -/
structure Sent where
  packet : List U8
  written : List ℕ
  out : List Packet

/-- `SSH::send_ssh_packet`; `stack` is what lies in `packet` and behind it. -/
def sendSshPacket (t : TCP) (socketFd : ℕ) (type : U8) (data : Option (ℕ → U8)) (length : U32)
    (stack : ℕ → U8) : TCP × Sent :=
  let stores := packetStores type data length
  let packet := apply stack stores
  let (t, _, out) := t.send socketFd packet (totalLength length)
  (t, { packet := (List.range (totalLength length).toNat).map packet, written := places stores
        out := out })

/-- The type and the data; a null pointer stands for no data. -/
def payload (type : U8) (data : Option (ℕ → U8)) (length : U32) : List U8 :=
  type :: (data.map fun data => (List.range length.toNat).map data).getD []

/-- Nothing is sent or a binary packet is, and nothing is written outside the buffer. -/
def Correct (type : U8) (data : Option (ℕ → U8)) (length : U32) (sent : Sent) : Prop :=
  (sent.out = [] ∨ RFC4253.BinaryPacket (payload type data length) sent.packet) ∧
    ∀ i ∈ sent.written, i < 4096

/-! ### The lengths -/

theorem toNat_paddingLength (length : U32) :
    (paddingLength length).toNat = if (1 + length).toNat % 8 ≤ 4 then 8 - (1 + length).toNat % 8
      else 16 - (1 + length).toNat % 8 := by
  have hmod : ((1 + length) % 8).toNat = (1 + length).toNat % 8 := BitVec.toNat_umod ..
  have hpadding : ((8 - (1 + length) % 8).setWidth 8 : U8).toNat =
      8 - (1 + length).toNat % 8 := by
    rw [BitVec.toNat_setWidth, BitVec.toNat_sub_of_le, hmod]
    · change (8 - _) % 2 ^ 8 = _
      omega
    · rw [BitVec.le_def, hmod]
      change _ ≤ 8
      omega
  rw [paddingLength]
  by_cases hshort : (1 + length).toNat % 8 ≤ 4
  · rw [if_pos hshort, if_neg, hpadding]
    rw [BitVec.lt_def, hpadding]
    change ¬ _ < 4
    omega
  · rw [if_neg hshort, if_pos, BitVec.toNat_add, hpadding]
    · change (_ + 8) % 2 ^ 8 = _
      omega
    · rw [BitVec.lt_def, hpadding]
      change _ < 4
      omega

theorem paddingLength_bounds (length : U32) :
    4 ≤ (paddingLength length).toNat ∧ (paddingLength length).toNat ≤ 11 ∧
      ((1 + length).toNat + (paddingLength length).toNat) % 8 = 0 := by
  rw [toNat_paddingLength]
  split <;> omega

theorem toNat_totalLength (length : U32) :
    (totalLength length).toNat = (5 + (1 + length).toNat + (paddingLength length).toNat) % 2 ^ 32 := by
  have hpadding := (paddingLength length).isLt
  rw [totalLength, BitVec.toNat_add, BitVec.toNat_add, BitVec.toNat_setWidth,
    show ((4 : U32) + 1).toNat = 5 from rfl]
  omega

/-- **Five bytes too many.** -/
theorem toNat_totalLength_mod (length : U32) : (totalLength length).toNat % 8 = 5 := by
  have hbounds := paddingLength_bounds length
  rw [toNat_totalLength]
  omega

/-! ### The buffer -/

/-- What the code writes lies inside the buffer: the data and the padding fit, or there are no
data, and the length is so large that the padding wraps around to the front. -/
def Fits (data : Option (ℕ → U8)) (length : U32) : Prop :=
  length.toNat ≤ 4083 ∨ data = none ∧ 2 ^ 32 - 6 ≤ length.toNat

theorem toNat_one_add (length : U32) : (1 + length).toNat = (1 + length.toNat) % 2 ^ 32 :=
  BitVec.toNat_add ..

theorem toNat_six_add (length : U32) : (6 + length).toNat = (6 + length.toNat) % 2 ^ 32 :=
  BitVec.toNat_add ..

theorem range'_lt_iff {a n m : ℕ} (hn : 0 < n) :
    (∀ i ∈ List.range' a n, i < m) ↔ a + n ≤ m := by
  constructor
  · intro h
    have hlast := h (a + (n - 1)) (List.mem_range'_1.mpr ⟨by omega, by omega⟩)
    omega
  · intro h i hi
    have hlt := (List.mem_range'_1.mp hi).2
    omega

theorem length_header (type : U8) (length : U32) : (header type length).length = 6 := rfl

theorem dataStores_some (data : ℕ → U8) (length : U32) :
    dataStores (some data) length = copy 6 ((List.range length.toNat).map data) := by
  rw [dataStores]
  by_cases hzero : length ≠ 0
  · rw [if_pos hzero]
  · obtain rfl := not_not.mp hzero
    rfl

theorem places_dataStores (data : Option (ℕ → U8)) (length : U32) :
    places (dataStores data length) = if data.isSome then List.range' 6 length.toNat else [] := by
  cases data with
  | none => rfl
  | some data =>
    rw [dataStores_some, if_pos Option.isSome_some, places_copy, List.length_map,
      List.length_range]

/-- **Nothing is written behind the buffer.** -/
theorem written_lt_iff (type : U8) (data : Option (ℕ → U8)) (length : U32) :
    (∀ i ∈ places (packetStores type data length), i < 4096) ↔ Fits data length := by
  obtain ⟨hmin, hmax, hmod⟩ := paddingLength_bounds length
  have hlt := length.isLt
  have hfront : ∀ i ∈ List.range' 0 6, i < 4096 := (range'_lt_iff (by omega)).mpr (by omega)
  rw [toNat_one_add] at hmod
  rw [packetStores, places_append, places_append, places_copy, places_copy, places_dataStores,
    length_header, List.length_replicate, List.forall_mem_append, List.forall_mem_append,
    and_iff_right hfront, range'_lt_iff (by omega), toNat_six_add, Fits]
  cases data with
  | none =>
    rw [Option.isSome_none, if_neg Bool.false_ne_true,
      and_iff_right fun i hi => absurd hi List.not_mem_nil]
    simp only [true_and]
    omega
  | some data =>
    rw [Option.isSome_some, if_pos rfl, or_iff_left fun h => Option.some_ne_none _ h.1]
    by_cases hzero : length.toNat = 0
    · rw [hzero] at hmod ⊢
      refine iff_of_true ⟨fun i hi => ?_, by omega⟩ (by omega)
      exact absurd hi List.not_mem_nil
    · rw [range'_lt_iff (by omega)]
      omega

/-! ### What TCP emits -/

/-- `TCP::send` emits nothing: the socket is not open, or the window is used up. -/
def Silent (t : TCP) (socketFd : ℕ) : Prop :=
  socketFd = 0 ∨ (t.memory socketFd).state ≠ .established ∨
    (t.memory socketFd).sendWindowEnd = (t.memory socketFd).sendWindowStart

instance (t : TCP) (socketFd : ℕ) : Decidable (Silent t socketFd) :=
  inferInstanceAs (Decidable (_ ∨ _))

theorem out_eq_nil_iff (t : TCP) (socketFd : ℕ) (data : ℕ → U8) {size : U32} (hsize : size ≠ 0) :
    (t.send socketFd data size).2.2 = [] ↔ Silent t socketFd := by
  rw [TCP.send, Silent]
  dsimp only
  by_cases hclosed : socketFd = 0 ∨ (t.memory socketFd).state ≠ .established
  · rw [if_pos hclosed]
    exact iff_of_true rfl (or_assoc.mp (.inl hclosed))
  rw [if_neg hclosed, ← or_assoc, or_iff_right hclosed]
  obtain ⟨-, hstate⟩ := not_or.mp hclosed
  have hstate := not_not.mp hstate
  have hpos : 0 < size.toNat := by
    refine Nat.pos_of_ne_zero fun hzero => hsize (BitVec.eq_of_toNat_eq hzero)
  have hclamp : (t.memory socketFd).clampSize size = 0 ↔
      (t.memory socketFd).sendWindowEnd = (t.memory socketFd).sendWindowStart := by
    have hmin := TCPConnection.toNat_clampSize hstate size
    have hend := (t.memory socketFd).sendWindowEnd.isLt
    have hstart := (t.memory socketFd).sendWindowStart.isLt
    rw [TCPConnection.availableWindow, BitVec.toNat_sub] at hmin
    rw [← BitVec.toNat_inj, ← BitVec.toNat_inj, hmin, show (0 : U32).toNat = 0 from rfl]
    omega
  by_cases hfull : size > 0 ∧ (t.memory socketFd).state = .established ∧
      (t.memory socketFd).clampSize size = 0
  · rw [TCPConnection.sendPacket_of_full _ _ _ hfull]
    exact iff_of_true rfl (hclamp.mp hfull.2.2)
  · rw [TCPConnection.sendPacket_of_space _ _ _ hfull]
    refine iff_of_false (by simp) fun h => hfull ⟨hpos, hstate, hclamp.mpr h⟩

/-! ### The packet -/

/-- **The bytes that are handed to TCP**, when there is room for them in the buffer. -/
theorem packet_eq (t : TCP) (socketFd : ℕ) (type : U8) (data : ℕ → U8) {length : U32}
    (stack : ℕ → U8) (hlength : length.toNat ≤ 4083) :
    (sendSshPacket t socketFd type (some data) length stack).2.packet =
      header type length ++ ((List.range length.toNat).map data ++
        List.replicate (paddingLength length).toNat 0) := by
  obtain ⟨-, hmax, -⟩ := paddingLength_bounds length
  have htotal : (totalLength length).toNat = 6 + length.toNat + (paddingLength length).toNat := by
    rw [toNat_totalLength, toNat_one_add]
    omega
  have hplace : (6 + length).toNat = 6 + length.toNat := by
    rw [toNat_six_add]
    omega
  -- header, data and padding lie one behind the other
  have hstores : packetStores type (some data) length =
      copy 0 (header type length ++ ((List.range length.toNat).map data ++
        List.replicate (paddingLength length).toNat 0)) := by
    rw [packetStores, dataStores_some, hplace, copy_append, copy_append, length_header,
      List.length_map, List.length_range, Nat.zero_add]
  have hread := map_range_apply_copy_zero stack (header type length ++
    ((List.range length.toNat).map data ++ List.replicate (paddingLength length).toNat 0))
  rw [List.length_append, List.length_append, length_header, List.length_map, List.length_range,
    List.length_replicate, ← Nat.add_assoc, ← htotal, ← hstores] at hread
  exact hread

/-- Of what a binary packet needs, only the length is not right. -/
theorem packet_fields (t : TCP) (socketFd : ℕ) (type : U8) (data : ℕ → U8) {length : U32}
    (stack : ℕ → U8) (hlength : length.toNat ≤ 4083) {packet : List U8}
    (hpacket : packet = (sendSshPacket t socketFd type (some data) length stack).2.packet) :
    (be32 (bufferOf packet) 0).toNat + 4 = packet.length ∧
      4 ≤ (bufferOf packet 4).toNat ∧
      (packet.drop 5).take (packet.length - 5 - (bufferOf packet 4).toNat) =
        payload type (some data) length := by
  obtain ⟨hmin, hmax, -⟩ := paddingLength_bounds length
  have htotal : (totalLength length).toNat = 6 + length.toNat + (paddingLength length).toNat := by
    rw [toNat_totalLength, toNat_one_add]
    omega
  rw [packet_eq t socketFd type data stack hlength] at hpacket
  have hsize : packet.length = (totalLength length).toNat := by
    rw [hpacket, htotal, List.length_append, List.length_append, length_header]
    simp
    omega
  have hpadding : bufferOf packet 4 = paddingLength length := by
    rw [hpacket]
    rfl
  have hbyte : ∀ k, ((totalLength length - 4) >>> k).setWidth 8 =
      (totalLength length - 4).extractLsb' k 8 := by
    intro k
    refine BitVec.eq_of_toNat_eq ?_
    rw [BitVec.toNat_setWidth, BitVec.toNat_ushiftRight, BitVec.extractLsb'_toNat]
  have hlast := hbyte 0
  rw [BitVec.ushiftRight_zero] at hlast
  have hrest : be32 (bufferOf packet) 0 = totalLength length - 4 := by
    rw [hpacket]
    exact be32_eq (hbyte 24) (hbyte 16) (hbyte 8) hlast
  refine ⟨?_, ?_, ?_⟩
  · rw [hrest, hsize, BitVec.toNat_sub_of_le, show (4 : U32).toNat = 4 from rfl]
    · omega
    · rw [BitVec.le_def, htotal]
      change 4 ≤ _
      omega
  · rwa [hpadding]
  · rw [hpadding, hsize, htotal, hpacket]
    have hdrop : (header type length ++ ((List.range length.toNat).map data ++
        List.replicate (paddingLength length).toNat (0 : U8))).drop 5 =
          payload type (some data) length ++ List.replicate (paddingLength length).toNat 0 := rfl
    have htake : 6 + length.toNat + (paddingLength length).toNat - 5 -
        (paddingLength length).toNat = (payload type (some data) length).length := by
      simp [payload]
      omega
    rw [hdrop, htake, List.take_left]

/-- **When no wrong packet is sent**: none is sent at all. -/
theorem correct_iff (t : TCP) (socketFd : ℕ) (type : U8) (data : Option (ℕ → U8)) (length : U32)
    (stack : ℕ → U8) :
    Correct type data length (sendSshPacket t socketFd type data length stack).2 ↔
      Silent t socketFd ∧ Fits data length := by
  have hmod := toNat_totalLength_mod length
  have hpos : totalLength length ≠ 0 := by
    intro hzero
    rw [hzero] at hmod
    exact absurd hmod (by decide)
  have hwrong : ¬ RFC4253.BinaryPacket (payload type data length)
      (sendSshPacket t socketFd type data length stack).2.packet := by
    intro h
    have haligned := h.aligned
    rw [sendSshPacket, List.length_map, List.length_range] at haligned
    omega
  rw [Correct, or_iff_left hwrong]
  exact and_congr (out_eq_nil_iff t socketFd _ hpos) (written_lt_iff type data length)

/-- A packet of type 20 without data, on an open connection. -/
theorem emptyPacket_not_correct :
    ¬ ∀ (t : TCP) (socketFd : ℕ) (type : U8) (data : Option (ℕ → U8)) (length : U32)
      (stack : ℕ → U8),
      Correct type data length (sendSshPacket t socketFd type data length stack).2 := by
  intro h
  have hcorrect := h client.tcp 1 20 none 0 fun _ => 0
  have hsent : (sendSshPacket client.tcp 1 20 none 0 fun _ => 0).2.out ≠ [] := by
    have hpos : totalLength 0 ≠ 0 := by decide
    rw [sendSshPacket]
    exact (out_eq_nil_iff client.tcp 1 _ hpos).not.mpr (by decide)
  have haligned := (hcorrect.1.resolve_left hsent).aligned
  exact absurd haligned (by decide)

end MesaOS.Net.SSH
