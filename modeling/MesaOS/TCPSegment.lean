/-
The segments of `TCP::send_packet`, read as RFC 793 says.

`send_packet` stores its numbers in the byte order of the machine.  So another
host reads them with the bytes in the other order (`decode_emit`), and reads what
was meant only where that makes no difference.

* `readsRight_iff` — when a segment is read as it was meant;
* `not_readsRight_created` — never on a connection that `create_connection` made.
-/
import MesaOS.RFC793
import MesaOS.TCP

open MachineWord NetworkOrder RFC793

namespace MesaOS.Net

/-- The payload, cut off at the end of the window on an established connection. -/
def TCPConnection.truncated (conn : TCPConnection) (data : ℕ → U8) (dataSize : U32) : List U8 :=
  if conn.state = .established then
    ((List.range dataSize.toNat).map data).take
      (conn.sendWindowEnd - conn.sendWindowStart).toNat
  else (List.range dataSize.toNat).map data

/-- `bytes` is, in network byte order, the segment that the connection means to send. -/
structure ReadsRight (conn : TCPConnection) (flags : U8) (payload bytes : List U8) : Prop where
  sourcePort : (decode bytes).sourcePort = conn.localPort
  destinationPort : (decode bytes).destinationPort = conn.remotePort
  sequenceNumber : (decode bytes).sequenceNumber = conn.seqNumber
  acknowledgmentNumber : (decode bytes).acknowledgmentNumber = conn.ackNumber
  window : (decode bytes).window.setWidth 32 = conn.advertisedWindow
  dataOffset : (decode bytes).dataOffset = 5
  flags : (decode bytes).controlBits = flags
  payload : (decode bytes).data = payload

/-- The numbers of the header are the same with their bytes in the other order. -/
structure ByteSymmetric (conn : TCPConnection) : Prop where
  localPort : swap16 conn.localPort = conn.localPort
  remotePort : swap16 conn.remotePort = conn.remotePort
  seqNumber : swap32 conn.seqNumber = conn.seqNumber
  ackNumber : swap32 conn.ackNumber = conn.ackNumber
  window : (swap16 (conn.advertisedWindow.setWidth 16)).setWidth 32 = conn.advertisedWindow

/-- What another host reads in a segment of `send_packet`. -/
theorem decode_emit (conn : TCPConnection) (flags : U8) (payload : List U8) :
    decode (emit conn flags payload) =
      { sourcePort := swap16 conn.localPort
        destinationPort := swap16 conn.remotePort
        sequenceNumber := swap32 conn.seqNumber
        acknowledgmentNumber := swap32 conn.ackNumber
        dataOffset := 5
        controlBits := flags
        window := swap16 (conn.advertisedWindow.setWidth 16)
        data := payload } := by
  have hoffset : (bufferOf (emit conn flags payload) 12 >>> 4).toNat = 5 := by
    rw [show bufferOf (emit conn flags payload) 12 = 0x50 from rfl]
    decide
  have hdata : (emit conn flags payload).drop 20 = payload := by
    rw [emit, segmentBytes]
    exact List.drop_left' (by simp [le16, le32])
  rw [decode, hoffset, hdata]
  simp only [Segment.mk.injEq, and_true, true_and]
  exact ⟨be16_le16 rfl rfl, be16_le16 rfl rfl, be32_le32 rfl rfl rfl rfl,
    be32_le32 rfl rfl rfl rfl, rfl, be16_le16 rfl rfl⟩

/-- The check of the window cuts the payload off at its end. -/
theorem TCPConnection.map_range_clampSize (conn : TCPConnection) (data : ℕ → U8)
    (dataSize : U32) :
    (List.range (conn.clampSize dataSize).toNat).map data = conn.truncated data dataSize := by
  rw [truncated, clampSize]
  by_cases hstate : conn.state = .established
  · rw [if_pos hstate, ← List.map_take, List.take_range]
    generalize conn.sendWindowEnd - conn.sendWindowStart = window
    by_cases hlt : dataSize > 0 ∧ conn.state = .established ∧ dataSize > window
    · have hle := BitVec.lt_def.mp hlt.2.2
      rw [if_pos hlt, Nat.min_eq_left (Nat.le_of_lt hle)]
    · rw [if_neg hlt]
      have hle : dataSize.toNat ≤ window.toNat := by
        by_contra hcon
        have hgt : dataSize > window := BitVec.lt_def.mpr (Nat.lt_of_not_le hcon)
        exact hlt ⟨BitVec.lt_def.mpr (by simp; omega), hstate, hgt⟩
      rw [Nat.min_eq_right hle]
  · rw [if_neg hstate, if_neg fun h => hstate h.2.1]

/-- A packet of `send_packet` carries the segment of the truncated payload. -/
theorem TCPConnection.mem_sendPacket {conn : TCPConnection} {myIp : U32} {flags : U8}
    {data : ℕ → U8} {dataSize : U32} {packet : Packet}
    (h : packet ∈ (conn.sendPacket myIp flags data dataSize).2) :
    packet.bytes = emit conn flags (conn.truncated data dataSize) := by
  rw [← map_range_clampSize]
  by_cases hfull : dataSize > 0 ∧ conn.state = .established ∧ conn.clampSize dataSize = 0
  · rw [sendPacket_of_full _ _ _ hfull] at h
    exact absurd h List.not_mem_nil
  · rw [sendPacket_of_space _ _ _ hfull] at h
    rw [List.mem_singleton.mp h]

/-- **When a segment is read as it was meant**: when the bytes of the numbers may as well
stand in the other order. -/
theorem readsRight_iff (conn : TCPConnection) (myIp : U32) (flags : U8) (data : ℕ → U8)
    (dataSize : U32) (packet : Packet)
    (h : packet ∈ (conn.sendPacket myIp flags data dataSize).2) :
    ReadsRight conn flags (conn.truncated data dataSize) packet.bytes ↔ ByteSymmetric conn := by
  have hbytes := TCPConnection.mem_sendPacket h
  have hdecode := decode_emit conn flags (conn.truncated data dataSize)
  rw [← hbytes] at hdecode
  constructor
  · rintro ⟨h1, h2, h3, h4, h5, -, -, -⟩
    rw [hdecode] at h1 h2 h3 h4 h5
    exact ⟨h1, h2, h3, h4, h5⟩
  · rintro ⟨h1, h2, h3, h4, h5⟩
    constructor <;> rw [hdecode] <;> assumption

/-- A connection whose numbers are all symmetric. -/
def symmetricConnection : TCPConnection :=
  { localIp := 0x0A000001, remoteIp := 0x0A000002, localPort := 0x1111, remotePort := 0x2222
    state := .established, seqNumber := 0x12343412, ackNumber := 0x01000001
    advertisedWindow := 0x2020, sendWindowStart := 0, sendWindowEnd := 8192
    recvBuffer := fun _ => 0, recvStart := 0, recvEnd := 0, recvCount := 0 }

theorem readsRight_symmetricConnection :
    ∃ packet ∈ (symmetricConnection.sendPacket 0x0A000001 tcpAck (fun _ => 0x61) 2).2,
      ReadsRight symmetricConnection tcpAck (symmetricConnection.truncated (fun _ => 0x61) 2)
        packet.bytes :=
  ⟨_, List.mem_singleton.mpr rfl,
    (readsRight_iff _ 0x0A000001 _ _ _ _ (List.mem_singleton.mpr rfl)).mpr
      ⟨by decide, by decide, by decide, by decide, by decide⟩⟩

/-- The connection of a client that has called `connect` for the first time. -/
def firstConnection : TCPConnection :=
  let t := ((TCP.initializeTcp 0x0A000001).createConnection 0x0A000001 0x0A000002 49152 80).1
  { t.memory 1 with state := .synSent }

/-- **The first SYN is read wrong**: from port 192 instead of 49152. -/
theorem syn_read_wrong :
    ∃ packet ∈ (firstConnection.sendPacket 0x0A000001 tcpSyn (fun _ => 0) 0).2,
      ¬ ReadsRight firstConnection tcpSyn [] packet.bytes ∧
        firstConnection.localPort = 49152 ∧ (decode packet.bytes).sourcePort = 192 := by
  have hport : (decode (emit firstConnection tcpSyn [])).sourcePort = 192 := by
    rw [decode_emit]
    decide
  refine ⟨_, List.mem_singleton.mpr rfl, fun hread => ?_, rfl, hport⟩
  have hread' := hport.symm.trans hread.sourcePort
  exact absurd hread' (by decide)

/-- No segment of a connection that `create_connection` made is read as it was meant: the window
of 8192 bytes is read as one of 32. -/
theorem not_readsRight_created {conn : TCPConnection}
    (hwindow : conn.advertisedWindow = tcpDefaultWindowSize) : ¬ ByteSymmetric conn := by
  rintro ⟨-, -, -, -, h⟩
  rw [hwindow] at h
  exact absurd h (by decide)

end MesaOS.Net
