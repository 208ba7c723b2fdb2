/-
The transport layer (`net/tcp.cpp`).

A segment is the bytes that `send_packet` hands to `IPv4`, in the byte order of the
machine, and `handle_packet` reads them back through the same header structure.
`kfree` does nothing, so the memory of a removed connection stays what it was.

* `emit_flags`, `emit_ports`, `emit_payload` — what `handle_packet` reads in a
  segment that `send_packet` has built;
* `handlePacket_of_found` — a segment for a known connection goes through
  `switchState` and changes no other connection.
-/
import Mathlib.Data.List.GetD
import MesaOS.MachineWord
import MesaOS.RingBuffer

open MachineWord

namespace MesaOS.Net

/-! ### Connections -/

inductive TCPState where
  | closed
  | listen
  | synSent
  | synReceived
  | established
  | finWait1
  | finWait2
  | closeWait
  | closing
  | lastAck
  | timeWait
  deriving DecidableEq

/-- `TCP_BUFFER_SIZE` -/
def tcpBufferSize : U32 := 4096

/-- `TCP_DEFAULT_WINDOW_SIZE` -/
def tcpDefaultWindowSize : U32 := 8192

/-- `struct TCPConnection`, without the fields that are set and never read. -/
structure TCPConnection where
  localIp : U32
  remoteIp : U32
  localPort : U16
  remotePort : U16
  state : TCPState
  seqNumber : U32
  ackNumber : U32
  advertisedWindow : U32
  sendWindowStart : U32
  sendWindowEnd : U32
  recvBuffer : ℕ → U8
  recvStart : U32
  recvEnd : U32
  recvCount : U32

/-- A datagram that `IPv4::send_packet` sends. -/
structure Packet where
  src : U32
  dst : U32
  bytes : List U8

/-- The static members of `TCP`, `IPv4::my_ip`, and the memory that connection pointers
point to; `connections` is the list along `next`. -/
structure TCP where
  myIp : U32
  nextEphemeralPort : U16
  memory : ℕ → TCPConnection
  nextPointer : ℕ
  connections : List ℕ
  synCount : U32
  lastSynTime : U32

def tcpFin : U8 := 0x01

def tcpSyn : U8 := 0x02

def tcpPsh : U8 := 0x08

def tcpAck : U8 := 0x10

/-- The bit `flag` is set. -/
def hasFlag (flags flag : U8) : Bool := flags &&& flag ≠ 0

/-! ### The header -/

namespace TCPHeader

def srcPort (data : ℕ → U8) : U16 := get16 data 0

def destPort (data : ℕ → U8) : U16 := get16 data 2

def seqNumber (data : ℕ → U8) : U32 := get32 data 4

def ackNumber (data : ℕ → U8) : U32 := get32 data 8

/-- `(header->data_offset >> 4) * 4` -/
def dataOffset (data : ℕ → U8) : U32 := (data 12 >>> 4).setWidth 32 * 4

def flags (data : ℕ → U8) : U8 := data 13

end TCPHeader

/-- `(sum & 0xFFFF) + (sum >> 16)`, and the sum of the two halves of an address. -/
def addHalves (x : U32) : U32 := (x &&& (0xFFFF : U32)) + x >>> 16

/-- The loop that folds a sum to 16 bits. -/
def foldSum (sum : U32) : U32 :=
  if h : sum >>> 16 ≠ 0 then foldSum (addHalves sum) else sum
termination_by sum.toNat
decreasing_by
  have hhigh : sum.toNat / 2 ^ 16 ≠ 0 := by
    intro hzero
    refine h (BitVec.eq_of_toNat_eq ?_)
    rw [BitVec.toNat_ushiftRight, Nat.shiftRight_eq_div_pow, hzero]
    rfl
  have hlow : (sum &&& (0xFFFF : U32)).toNat = sum.toNat % 2 ^ 16 :=
    toNat_and_lowMask sum (k := 16) (by omega)
  have hlt := sum.isLt
  rw [addHalves, BitVec.toNat_add, hlow, BitVec.toNat_ushiftRight, Nat.shiftRight_eq_div_pow,
    Nat.mod_eq_of_lt (by omega)]
  omega

/-- `TCP::calculate_checksum` -/
def calculateChecksum (header : ℕ → U8) (srcIp destIp length : U32) : U16 :=
  let sum := addHalves srcIp + addHalves destIp + 6 + length
  let sum := (List.range (length.toNat / 2)).foldl
    (fun sum i => sum + (get16 header (2 * i)).setWidth 32) sum
  let sum := if length % 2 ≠ 0 then sum + (header (length.toNat - 1)).setWidth 32 else sum
  (~~~ foldSum sum).setWidth 16

/-- The bytes of a segment. -/
def segmentBytes (conn : TCPConnection) (flags : U8) (checksum : U16) (payload : List U8) :
    List U8 :=
  le16 conn.localPort ++ le16 conn.remotePort ++ le32 conn.seqNumber ++ le32 conn.ackNumber ++
    [(20 / 4 : U8) <<< 4, flags] ++ le16 (conn.advertisedWindow.setWidth 16) ++ le16 checksum ++
    le16 0 ++ payload

/-- The segment that `send_packet` builds. -/
def emit (conn : TCPConnection) (flags : U8) (payload : List U8) : List U8 :=
  let packet := segmentBytes conn flags 0 payload
  segmentBytes conn flags (calculateChecksum (bufferOf packet) conn.localIp conn.remoteIp
    (BitVec.ofNat 32 packet.length)) payload

namespace TCPConnection

/-- The payload size after the check of the sliding window. -/
def clampSize (conn : TCPConnection) (dataSize : U32) : U32 :=
  let availableWindow := conn.sendWindowEnd - conn.sendWindowStart
  if dataSize > 0 ∧ conn.state = .established ∧ dataSize > availableWindow then availableWindow
  else dataSize

/-- `TCP::send_packet` on the machine with address `myIp`. -/
def sendPacket (conn : TCPConnection) (myIp : U32) (flags : U8) (data : ℕ → U8)
    (dataSize : U32) : TCPConnection × List Packet :=
  let size := conn.clampSize dataSize
  if dataSize > 0 ∧ conn.state = .established ∧ size = 0 then (conn, [])
  else
    let packet : Packet :=
      { src := myIp, dst := conn.remoteIp
        bytes := emit conn flags ((List.range size.toNat).map data) }
    if size > 0 ∨ hasFlag flags tcpSyn ∨ hasFlag flags tcpFin then
      ({ conn with
        seqNumber := conn.seqNumber + size + (if hasFlag flags tcpSyn then 1 else 0) +
          (if hasFlag flags tcpFin then 1 else 0)
        sendWindowStart := if size > 0 ∧ conn.state = .established then
          conn.sendWindowStart + size else conn.sendWindowStart }, [packet])
    else (conn, [packet])

/-- `send_packet` without data. -/
def sendFlags (conn : TCPConnection) (myIp : U32) (flags : U8) : TCPConnection × List Packet :=
  conn.sendPacket myIp flags (fun _ => 0) 0

/-- The loop that copies received bytes into the ring buffer. -/
def storeBytes (conn : TCPConnection) (payload : ℕ → U8) (n : ℕ) : TCPConnection :=
  let v := (List.range n).foldl
    (fun (v : (ℕ → U8) × U32) i =>
      (Function.update v.1 v.2.toNat (payload i), (v.2 + 1) % tcpBufferSize))
    (conn.recvBuffer, conn.recvEnd)
  { conn with recvBuffer := v.1, recvEnd := v.2 }

/-- The loop that copies bytes out of the ring buffer, and the bytes. -/
def loadBytes (conn : TCPConnection) (n : ℕ) : TCPConnection × List U8 :=
  let v := (List.range n).foldl
    (fun (v : List U8 × U32) _ =>
      (v.1 ++ [conn.recvBuffer v.2.toNat], (v.2 + 1) % tcpBufferSize))
    ([], conn.recvStart)
  ({ conn with recvStart := v.2 }, v.1)

/-- The state switch of `handle_packet`: the connection, what is sent, and whether the
connection is removed. -/
def switchState (conn : TCPConnection) (myIp : U32) (flags : U8) (payload : ℕ → U8)
    (dataSize : U32) : TCPConnection × List Packet × Bool :=
  match conn.state with
  | .listen =>
    if hasFlag flags tcpSyn then
      let (conn, out) := { conn with state := .synReceived }.sendFlags myIp (tcpSyn ||| tcpAck)
      (conn, out, false)
    else (conn, [], false)
  | .synSent =>
    if hasFlag flags tcpSyn && hasFlag flags tcpAck then
      let (conn, out) := { conn with state := .established }.sendFlags myIp tcpAck
      (conn, out, false)
    else (conn, [], false)
  | .synReceived =>
    if hasFlag flags tcpAck then ({ conn with state := .established }, [], false)
    else (conn, [], false)
  | .established =>
    if hasFlag flags tcpFin then
      let (conn, ack) := { conn with state := .closeWait }.sendFlags myIp tcpAck
      let (conn, fin) := { conn with state := .lastAck }.sendFlags myIp (tcpFin ||| tcpAck)
      (conn, ack ++ fin, false)
    else if dataSize > 0 then
      let spaceAvailable := tcpBufferSize - conn.recvCount
      let bytesToCopy := if dataSize < spaceAvailable then dataSize else spaceAvailable
      let conn := conn.storeBytes payload bytesToCopy.toNat
      let conn := { conn with recvCount := conn.recvCount + bytesToCopy }
      let (conn, out) := conn.sendFlags myIp tcpAck
      (conn, out, false)
    else (conn, [], false)
  | .finWait1 =>
    if hasFlag flags tcpAck then ({ conn with state := .finWait2 }, [], false)
    else (conn, [], false)
  | .finWait2 =>
    if hasFlag flags tcpFin then
      let (conn, out) := { conn with state := .timeWait }.sendFlags myIp tcpAck
      (conn, out, false)
    else (conn, [], false)
  | .closeWait => (conn, [], false)
  | .lastAck => (conn, [], hasFlag flags tcpAck)
  | .timeWait => (conn, [], true)
  | _ => (conn, [], false)

/-- The connection is the one between these addresses and ports. -/
def Matches (conn : TCPConnection) (localIp remoteIp : U32) (localPort remotePort : U16) : Prop :=
  conn.localIp = localIp ∧ conn.remoteIp = remoteIp ∧ conn.localPort = localPort ∧
    conn.remotePort = remotePort

instance (conn : TCPConnection) (localIp remoteIp : U32) (localPort remotePort : U16) :
    Decidable (conn.Matches localIp remoteIp localPort remotePort) :=
  inferInstanceAs (Decidable (_ ∧ _))

/-- The acknowledgment number after a segment. -/
def acknowledge (conn : TCPConnection) (flags : U8) (seqNumber dataSize : U32) : TCPConnection :=
  { conn with
    ackNumber := seqNumber + dataSize + (if hasFlag flags tcpSyn then 1 else 0) +
      (if hasFlag flags tcpFin then 1 else 0) }

end TCPConnection

namespace TCP

/-- `TCP::initialize` at boot, with nothing allocated; pointer 0 is null. -/
def initializeTcp (myIp : U32) : TCP :=
  { myIp := myIp, nextEphemeralPort := 49152, nextPointer := 1, connections := [], synCount := 0
    lastSynTime := 0
    memory := fun _ =>
      { localIp := 0, remoteIp := 0, localPort := 0, remotePort := 0, state := .closed
        seqNumber := 0, ackNumber := 0, advertisedWindow := 0, sendWindowStart := 0
        sendWindowEnd := 0, recvBuffer := fun _ => 0, recvStart := 0, recvEnd := 0
        recvCount := 0 } }

/-- The connection at `p` after an assignment. -/
def put (t : TCP) (p : ℕ) (conn : TCPConnection) : TCP :=
  { t with memory := Function.update t.memory p conn }

/-- `TCP::find_connection` -/
def findConnection (t : TCP) (localIp remoteIp : U32) (localPort remotePort : U16) : Option ℕ :=
  t.connections.find? fun p => (t.memory p).Matches localIp remoteIp localPort remotePort

/-- `TCP::create_connection` -/
def createConnection (t : TCP) (localIp remoteIp : U32) (localPort remotePort : U16) : TCP × ℕ :=
  let conn : TCPConnection :=
    { localIp := localIp, remoteIp := remoteIp, localPort := localPort, remotePort := remotePort
      state := .closed, seqNumber := 0x12345678, ackNumber := 0
      advertisedWindow := tcpDefaultWindowSize, sendWindowStart := 0x12345678
      sendWindowEnd := 0x12345678 + tcpDefaultWindowSize, recvBuffer := fun _ => 0
      recvStart := 0, recvEnd := 0, recvCount := 0 }
  ({ t with
    memory := Function.update t.memory t.nextPointer conn
    nextPointer := t.nextPointer + 1
    connections := t.nextPointer :: t.connections }, t.nextPointer)

/-- `TCP::remove_connection`; the search passes over a connection that is not in the list. -/
def removeConnection (t : TCP) (p : ℕ) : TCP :=
  { t with connections := t.connections.erase p }

/-- The state of a connection is set. -/
def setState (t : TCP) (p : ℕ) (state : TCPState) : TCP :=
  t.put p { t.memory p with state := state }

/-- A connection made for a SYN, with `none` when it is dropped or none is made. -/
def connectOnDemand (t : TCP) (srcIp : U32) (data : ℕ → U8) : TCP × Option ℕ :=
  let create := fun (t : TCP) =>
    let (t, p) := t.createConnection t.myIp srcIp (TCPHeader.destPort data) (TCPHeader.srcPort data)
    (t.setState p .listen, some p)
  if hasFlag (TCPHeader.flags data) tcpSyn then
    let currentTime := 0
    if currentTime - t.lastSynTime < 1000 then
      let t := { t with synCount := t.synCount + 1 }
      if t.synCount > 10 then (t, none) else create t
    else create { t with synCount := 1, lastSynTime := currentTime }
  else (t, none)

/-- The part of `handle_packet` behind the search for the connection. -/
def deliver (t : TCP) (p : ℕ) (data : ℕ → U8) (size : U32) : TCP × List Packet :=
  let dataSize := size - TCPHeader.dataOffset data
  let payload := fun i => data ((TCPHeader.dataOffset data).toNat + i)
  let flags := TCPHeader.flags data
  let conn := (t.memory p).acknowledge flags (TCPHeader.seqNumber data) dataSize
  let (conn, out, remove) := conn.switchState t.myIp flags payload dataSize
  (if remove then (t.put p conn).removeConnection p else t.put p conn, out)

/-- `TCP::handle_packet`: the new state and what is sent. -/
def handlePacket (t : TCP) (srcIp : U32) (data : ℕ → U8) (size : U32) : TCP × List Packet :=
  if size < 20 then (t, [])
  else
    match t.findConnection t.myIp srcIp (TCPHeader.destPort data) (TCPHeader.srcPort data) with
    | some p => t.deliver p data size
    | none =>
      match t.connectOnDemand srcIp data with
      | (t, some p) => t.deliver p data size
      | (t, none) => (t, [])

/-- The payload of a datagram is handed to `handle_packet`. -/
def receive (t : TCP) (packet : Packet) : TCP × List Packet :=
  t.handlePacket packet.src (bufferOf packet.bytes) (BitVec.ofNat 32 packet.bytes.length)

/-- `TCP::listen`, with the pointer as the socket. -/
def listen (t : TCP) (port : U16) : TCP × ℕ :=
  let (t, p) := t.createConnection t.myIp 0 port 0
  (t.setState p .listen, p)

/-- `TCP::accept`: the socket and the client's address and port, `none` for -1. -/
def accept (t : TCP) (socketFd : ℕ) : Option (ℕ × U32 × U16) :=
  if socketFd = 0 ∨ (t.memory socketFd).state ≠ .established then none
  else some (socketFd, (t.memory socketFd).remoteIp, (t.memory socketFd).remotePort)

/-- `TCP::recv`: the bytes put into the buffer, `none` for -1. -/
def recv (t : TCP) (socketFd : ℕ) (size : U32) : TCP × Option (List U8) :=
  let conn := t.memory socketFd
  if socketFd = 0 ∨ conn.state ≠ .established then (t, none)
  else if conn.recvCount = 0 then (t, some [])
  else
    let bytesToRead := if size < conn.recvCount then size else conn.recvCount
    let (conn, bytes) := conn.loadBytes bytesToRead.toNat
    (t.put socketFd { conn with recvCount := conn.recvCount - bytesToRead }, some bytes)

/-- `TCP::send`: the new state, the result (`none` for -1) and what is sent. -/
def send (t : TCP) (socketFd : ℕ) (data : ℕ → U8) (size : U32) :
    TCP × Option U32 × List Packet :=
  let conn := t.memory socketFd
  if socketFd = 0 ∨ conn.state ≠ .established then (t, none, [])
  else
    let (conn, out) := conn.sendPacket t.myIp (tcpAck ||| tcpPsh) data size
    (t.put socketFd conn, some size, out)

/-- `TCP::close` -/
def close (t : TCP) (socketFd : ℕ) : TCP × List Packet :=
  if socketFd = 0 then (t, [])
  else if (t.memory socketFd).state = .established then
    let (conn, out) :=
      { t.memory socketFd with state := .finWait1 }.sendFlags t.myIp (tcpFin ||| tcpAck)
    (t.put socketFd conn, out)
  else (t.removeConnection socketFd, [])

/-- `TCP::connect`, which takes the handshake for granted. -/
def connect (t : TCP) (destIp : U32) (destPort : U16) : TCP × ℕ × List Packet :=
  let localPort := t.nextEphemeralPort
  let t := { t with nextEphemeralPort := t.nextEphemeralPort + 1 }
  let (t, p) := t.createConnection t.myIp destIp localPort destPort
  let (conn, out) := { t.memory p with state := .synSent }.sendFlags t.myIp tcpSyn
  (t.put p { conn with state := .established }, p, out)

end TCP

/-! ### What `handle_packet` reads in a segment of `send_packet` -/

theorem length_segmentBytes (conn : TCPConnection) (flags : U8) (checksum : U16)
    (payload : List U8) : (segmentBytes conn flags checksum payload).length = 20 + payload.length := by
  simp [segmentBytes, le16, le32]
  omega

theorem length_emit (conn : TCPConnection) (flags : U8) (payload : List U8) :
    (emit conn flags payload).length = 20 + payload.length := length_segmentBytes _ _ _ _

theorem emit_ports (conn : TCPConnection) (flags : U8) (payload : List U8) :
    TCPHeader.srcPort (bufferOf (emit conn flags payload)) = conn.localPort ∧
      TCPHeader.destPort (bufferOf (emit conn flags payload)) = conn.remotePort := by
  constructor
  · exact get16_le16 rfl rfl
  · exact get16_le16 rfl rfl

theorem emit_flags (conn : TCPConnection) (flags : U8) (payload : List U8) :
    TCPHeader.flags (bufferOf (emit conn flags payload)) = flags := rfl

theorem emit_ackNumber (conn : TCPConnection) (flags : U8) (payload : List U8) :
    TCPHeader.ackNumber (bufferOf (emit conn flags payload)) = conn.ackNumber :=
  get32_le32 rfl rfl rfl rfl

theorem emit_dataOffset (conn : TCPConnection) (flags : U8) (payload : List U8) :
    TCPHeader.dataOffset (bufferOf (emit conn flags payload)) = 20 := by
  have hbyte : bufferOf (emit conn flags payload) 12 = 0x50 := rfl
  rw [TCPHeader.dataOffset, hbyte]
  decide

theorem emit_payload (conn : TCPConnection) (flags : U8) (payload : List U8) (i : ℕ) :
    bufferOf (emit conn flags payload) (20 + i) = payload.getD i 0 := by
  rw [bufferOf, emit, segmentBytes, List.getD_append_right _ _ _ _ (by simp [le16, le32])]
  simp [le16, le32]

/-! ### The ring buffer -/

namespace TCPConnection

/-- The bytes that were stored and not yet read. -/
def queued (conn : TCPConnection) : List U8 :=
  RingBuffer.contents 4096 conn.recvBuffer conn.recvStart.toNat conn.recvCount.toNat

/-- The three indices fit together. -/
structure RingOk (conn : TCPConnection) : Prop where
  start : conn.recvStart.toNat < 4096
  count : conn.recvCount.toNat ≤ 4096
  fin : conn.recvEnd.toNat = (conn.recvStart.toNat + conn.recvCount.toNat) % 4096

theorem toNat_next (x : U32) (h : x.toNat < 4096) :
    ((x + 1) % tcpBufferSize).toNat = (x.toNat + 1) % 4096 := by
  rw [BitVec.toNat_umod, BitVec.toNat_add, show (1 : U32).toNat = 1 from rfl,
    show tcpBufferSize.toNat = 4096 from rfl,
    show (x.toNat + 1) % 2 ^ 32 = x.toNat + 1 from Nat.mod_eq_of_lt (by omega)]

/-- The loop is a store into the ring. -/
theorem storeBytes_spec (conn : TCPConnection) (payload : ℕ → U8) (n : ℕ)
    (h : conn.recvEnd.toNat < 4096) :
    conn.storeBytes payload n = { conn with
      recvBuffer := RingBuffer.store 4096 conn.recvBuffer conn.recvEnd.toNat
        ((List.range n).map payload)
      recvEnd := BitVec.ofNat 32 ((conn.recvEnd.toNat + n) % 4096) } := by
  have hloop : ∀ (is : List ℕ) (buf : ℕ → U8) (e : U32), e.toNat < 4096 →
      is.foldl (fun (v : (ℕ → U8) × U32) i =>
        (Function.update v.1 v.2.toNat (payload i), (v.2 + 1) % tcpBufferSize)) (buf, e) =
      (RingBuffer.store 4096 buf e.toNat (is.map payload),
        BitVec.ofNat 32 ((e.toNat + is.length) % 4096)) := by
    intro is
    induction is with
    | nil =>
      intro buf e he
      rw [List.foldl_nil, List.map_nil, RingBuffer.store, List.length_nil, Nat.add_zero,
        Nat.mod_eq_of_lt he, BitVec.ofNat_toNat, BitVec.setWidth_eq]
    | cons i is ih =>
      intro buf e he
      have hnext := toNat_next e he
      rw [List.foldl_cons, ih _ _ (by rw [hnext]; omega), hnext, List.map_cons, RingBuffer.store,
        List.length_cons, Nat.mod_add_mod, show e.toNat + 1 + is.length = e.toNat + (is.length + 1)
          by omega]
  rw [storeBytes, hloop _ _ _ h, List.length_range]

/-- The loop reads the ring. -/
theorem loadBytes_spec (conn : TCPConnection) (n : ℕ) (h : conn.recvStart.toNat < 4096) :
    conn.loadBytes n = ({ conn with
      recvStart := BitVec.ofNat 32 ((conn.recvStart.toNat + n) % 4096) },
      RingBuffer.contents 4096 conn.recvBuffer conn.recvStart.toNat n) := by
  have hloop : ∀ n, (List.range n).foldl (fun (v : List U8 × U32) _ =>
      (v.1 ++ [conn.recvBuffer v.2.toNat], (v.2 + 1) % tcpBufferSize)) ([], conn.recvStart) =
      (RingBuffer.contents 4096 conn.recvBuffer conn.recvStart.toNat n,
        BitVec.ofNat 32 ((conn.recvStart.toNat + n) % 4096)) := by
    intro n
    induction n with
    | zero =>
      rw [List.range_zero, List.foldl_nil, Nat.add_zero, Nat.mod_eq_of_lt h, BitVec.ofNat_toNat,
        BitVec.setWidth_eq]
      rfl
    | succ n ih =>
      have hpos : (BitVec.ofNat 32 ((conn.recvStart.toNat + n) % 4096)).toNat =
          (conn.recvStart.toNat + n) % 4096 := by
        rw [BitVec.toNat_ofNat]
        omega
      have hnext := toNat_next (BitVec.ofNat 32 ((conn.recvStart.toNat + n) % 4096))
        (by rw [hpos]; omega)
      rw [List.range_succ, List.foldl_append, ih, List.foldl_cons, List.foldl_nil, hpos,
        RingBuffer.contents, RingBuffer.contents, List.range_succ, List.map_append,
        List.map_singleton]
      refine congrArg _ (BitVec.eq_of_toNat_eq ?_)
      rw [hnext, hpos, BitVec.toNat_ofNat, Nat.mod_add_mod]
      omega
  rw [loadBytes, hloop]

/-- `send_packet` when there is no space in the window. -/
theorem sendPacket_of_full {conn : TCPConnection} {dataSize : U32} (myIp : U32) (flags : U8)
    (data : ℕ → U8)
    (h : dataSize > 0 ∧ conn.state = .established ∧ conn.clampSize dataSize = 0) :
    conn.sendPacket myIp flags data dataSize = (conn, []) := by
  rw [sendPacket]
  exact if_pos h

/-- `send_packet` otherwise: the sequence number and the window move on by what is sent. -/
theorem sendPacket_of_space {conn : TCPConnection} {dataSize : U32} (myIp : U32) (flags : U8)
    (data : ℕ → U8)
    (h : ¬(dataSize > 0 ∧ conn.state = .established ∧ conn.clampSize dataSize = 0)) :
    conn.sendPacket myIp flags data dataSize = ({ conn with
      seqNumber := conn.seqNumber + conn.clampSize dataSize +
        (if hasFlag flags tcpSyn then 1 else 0) + (if hasFlag flags tcpFin then 1 else 0)
      sendWindowStart := if conn.state = .established then
        conn.sendWindowStart + conn.clampSize dataSize else conn.sendWindowStart },
      [{ src := myIp, dst := conn.remoteIp
         bytes := emit conn flags ((List.range (conn.clampSize dataSize).toNat).map data) }]) := by
  rw [sendPacket]
  dsimp only
  rw [if_neg h]
  generalize conn.clampSize dataSize = size
  by_cases hsize : size > 0
  · rw [if_pos (.inl hsize)]
    simp only [hsize, true_and]
  · have hzero : size = 0 := by
      have := toNat_le_of_not_lt hsize
      exact BitVec.eq_of_toNat_eq (by simpa using this)
    subst hzero
    cases hsyn : hasFlag flags tcpSyn <;> cases hfin : hasFlag flags tcpFin <;> simp

/-- A segment without data leaves everything but the sequence number. -/
theorem sendFlags_eq (conn : TCPConnection) (myIp : U32) (flags : U8) :
    conn.sendFlags myIp flags = ({ conn with
      seqNumber := conn.seqNumber + (if hasFlag flags tcpSyn then 1 else 0) +
        (if hasFlag flags tcpFin then 1 else 0) },
      [{ src := myIp, dst := conn.remoteIp, bytes := emit conn flags [] }]) := by
  have hclamp : conn.clampSize 0 = 0 := by
    rw [clampSize, if_neg fun h => absurd h.1 (by decide)]
  rw [sendFlags, sendPacket_of_space _ _ _ fun h => absurd h.1 (by decide), hclamp]
  simp

/-- Received bytes are queued as far as there is space for them. -/
theorem store_spec {conn : TCPConnection} (h : conn.RingOk) (payload : ℕ → U8) {n : U32}
    (hn : n.toNat ≤ 4096 - conn.recvCount.toNat) {conn' : TCPConnection}
    (hconn' : conn' = { conn.storeBytes payload n.toNat with recvCount := conn.recvCount + n }) :
    conn'.RingOk ∧ conn'.queued = conn.queued ++ (List.range n.toNat).map payload := by
  have hcount := h.count
  have hfin := h.fin
  have hadd : (conn.recvCount + n).toNat = conn.recvCount.toNat + n.toNat := by
    rw [BitVec.toNat_add]
    omega
  rw [storeBytes_spec _ _ _ (by omega)] at hconn'
  subst hconn'
  refine ⟨⟨h.start, by rw [hadd]; omega, ?_⟩, ?_⟩
  · dsimp only
    rw [hadd, BitVec.toNat_ofNat, hfin, Nat.mod_add_mod, ← Nat.add_assoc]
    omega
  · have hroom : conn.recvCount.toNat + ((List.range n.toNat).map payload).length ≤ 4096 := by
      rw [List.length_map, List.length_range]
      omega
    have hstore := RingBuffer.contents_store conn.recvBuffer conn.recvStart.toNat
      conn.recvCount.toNat ((List.range n.toNat).map payload) hroom
    rw [List.length_map, List.length_range, ← hfin] at hstore
    rw [queued, queued]
    dsimp only
    rw [hadd, hstore]

/-- The two connections have the same addresses and ports. -/
def SameEnds (conn conn' : TCPConnection) : Prop :=
  conn'.Matches conn.localIp conn.remoteIp conn.localPort conn.remotePort

theorem SameEnds.matches_iff {conn conn' : TCPConnection} (h : conn.SameEnds conn')
    {localIp remoteIp : U32} {localPort remotePort : U16} :
    conn'.Matches localIp remoteIp localPort remotePort ↔
      conn.Matches localIp remoteIp localPort remotePort := by
  obtain ⟨h1, h2, h3, h4⟩ := h
  rw [Matches, Matches, h1, h2, h3, h4]

theorem SameEnds.trans {conn conn' conn'' : TCPConnection} (h : conn.SameEnds conn')
    (h' : conn'.SameEnds conn'') : conn.SameEnds conn'' := h'.matches_iff.mpr h

/-- What no state of `handle_packet` changes: the addresses and ports, the acknowledgment number,
and the window. -/
structure Keeps (conn conn' : TCPConnection) : Prop where
  ends : conn.SameEnds conn'
  ackNumber : conn'.ackNumber = conn.ackNumber
  sendWindowStart : conn'.sendWindowStart = conn.sendWindowStart
  sendWindowEnd : conn'.sendWindowEnd = conn.sendWindowEnd

theorem Keeps.trans {conn conn' conn'' : TCPConnection} (h : conn.Keeps conn')
    (h' : conn'.Keeps conn'') : conn.Keeps conn'' :=
  ⟨h.ends.trans h'.ends, h'.ackNumber.trans h.ackNumber,
    h'.sendWindowStart.trans h.sendWindowStart, h'.sendWindowEnd.trans h.sendWindowEnd⟩

theorem keeps_sendFlags (conn : TCPConnection) (myIp : U32) (flags : U8) :
    conn.Keeps (conn.sendFlags myIp flags).1 := by
  rw [sendFlags_eq]
  exact ⟨⟨rfl, rfl, rfl, rfl⟩, rfl, rfl, rfl⟩

theorem keeps_switchState (conn : TCPConnection) (myIp : U32) (flags : U8) (payload : ℕ → U8)
    (dataSize : U32) : conn.Keeps (conn.switchState myIp flags payload dataSize).1 := by
  have hself : conn.Keeps conn := ⟨⟨rfl, rfl, rfl, rfl⟩, rfl, rfl, rfl⟩
  have hstate : ∀ (c : TCPConnection) state, c.Keeps { c with state := state } :=
    fun c _ => ⟨⟨rfl, rfl, rfl, rfl⟩, rfl, rfl, rfl⟩
  rw [switchState]
  cases conn.state with
  | listen =>
    dsimp only
    split
    · exact (hstate conn .synReceived).trans (keeps_sendFlags _ _ _)
    · exact hself
  | synSent =>
    dsimp only
    split
    · exact (hstate conn .established).trans (keeps_sendFlags _ _ _)
    · exact hself
  | synReceived =>
    dsimp only
    split
    · exact hstate conn .established
    · exact hself
  | established =>
    dsimp only
    split
    · exact ((hstate conn .closeWait).trans (keeps_sendFlags _ _ _)).trans
        ((hstate _ .lastAck).trans (keeps_sendFlags _ _ _))
    · split
      · generalize (if dataSize < tcpBufferSize - conn.recvCount then dataSize
          else tcpBufferSize - conn.recvCount) = n
        have hstored : conn.Keeps { conn.storeBytes payload n.toNat with
            recvCount := conn.recvCount + n } := ⟨⟨rfl, rfl, rfl, rfl⟩, rfl, rfl, rfl⟩
        exact hstored.trans (keeps_sendFlags _ _ _)
      · exact hself
  | finWait1 =>
    dsimp only
    split
    · exact hstate conn .finWait2
    · exact hself
  | finWait2 =>
    dsimp only
    split
    · exact (hstate conn .timeWait).trans (keeps_sendFlags _ _ _)
    · exact hself
  | closed => exact hself
  | closeWait => exact hself
  | closing => exact hself
  | lastAck => exact hself
  | timeWait => exact hself

/-- No state changes the addresses and ports. -/
theorem sameEnds_switchState (conn : TCPConnection) (myIp : U32) (flags : U8) (payload : ℕ → U8)
    (dataSize : U32) : conn.SameEnds (conn.switchState myIp flags payload dataSize).1 :=
  (conn.keeps_switchState myIp flags payload dataSize).ends

end TCPConnection

/-! ### Segments for a known connection -/

namespace TCP

@[simp] theorem put_memory_self (t : TCP) (p : ℕ) (conn : TCPConnection) :
    (t.put p conn).memory p = conn := Function.update_self ..

theorem put_memory_of_ne (t : TCP) {p q : ℕ} (conn : TCPConnection) (h : q ≠ p) :
    (t.put p conn).memory q = t.memory q := Function.update_of_ne h ..

@[simp] theorem put_myIp (t : TCP) (p : ℕ) (conn : TCPConnection) : (t.put p conn).myIp = t.myIp :=
  rfl

@[simp] theorem put_connections (t : TCP) (p : ℕ) (conn : TCPConnection) :
    (t.put p conn).connections = t.connections := rfl

/-- A connection that keeps its addresses and ports is found like before. -/
theorem findConnection_put {t : TCP} {p : ℕ} {conn : TCPConnection}
    (h : (t.memory p).SameEnds conn) (localIp remoteIp : U32) (localPort remotePort : U16) :
    (t.put p conn).findConnection localIp remoteIp localPort remotePort =
      t.findConnection localIp remoteIp localPort remotePort := by
  rw [findConnection, findConnection, put_connections]
  refine congrArg (fun f => t.connections.find? f) (funext fun q => ?_)
  by_cases hq : q = p
  · rw [hq, put_memory_self]
    exact decide_eq_decide.mpr h.matches_iff
  · rw [put_memory_of_ne _ _ hq]

theorem handlePacket_of_found {t : TCP} {srcIp : U32} {data : ℕ → U8} {size : U32} {p : ℕ}
    (hsize : 20 ≤ size.toNat) (hfind : t.findConnection t.myIp srcIp (TCPHeader.destPort data)
      (TCPHeader.srcPort data) = some p) :
    t.handlePacket srcIp data size = t.deliver p data size := by
  have hlt : ¬ size < 20 := BitVec.not_lt.mpr (BitVec.le_def.mpr hsize)
  rw [handlePacket, if_neg hlt, hfind]

end TCP

end MesaOS.Net
