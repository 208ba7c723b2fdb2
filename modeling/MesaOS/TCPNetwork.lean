/-
Segments between two machines.

A connection has two ends, each with the addresses and ports of the other one in
reverse (`Ends.mirror`).  What `send_packet` emits at one end is what `handle_packet`
reads at the other.

* `Conveys.receive` — a segment for a known connection goes through the state switch
  with the flags and the payload that it was sent with;
* `Conveys.receive_unknown`, `Conveys.receive_syn` — without a connection only a `SYN`
  does something: it makes one;
* `switchState_plain` — a segment without `FIN` on an established connection.
-/
import MesaOS.FifoNetwork
import MesaOS.TCPLookup
import MesaOS.TCPReceive

open MachineWord

namespace MesaOS.Net

/-- The addresses and ports of a connection, as one of its ends sees them. -/
structure Ends where
  localIp : U32
  remoteIp : U32
  localPort : U16
  remotePort : U16

/-- The same connection from the other end. -/
def Ends.mirror (e : Ends) : Ends where
  localIp := e.remoteIp
  remoteIp := e.localIp
  localPort := e.remotePort
  remotePort := e.localPort

@[simp] theorem Ends.mirror_mirror (e : Ends) : e.mirror.mirror = e := rfl

/-- The connection has these ends. -/
def TCPConnection.At (e : Ends) (conn : TCPConnection) : Prop :=
  conn.Matches e.localIp e.remoteIp e.localPort e.remotePort

instance (e : Ends) (conn : TCPConnection) : Decidable (conn.At e) :=
  inferInstanceAs (Decidable (conn.Matches ..))

theorem TCPConnection.SameEnds.at_iff {conn conn' : TCPConnection} (h : conn.SameEnds conn')
    (e : Ends) : conn'.At e ↔ conn.At e := h.matches_iff

/-- `find_connection` with the ends `e`. -/
def TCP.lookup (t : TCP) (e : Ends) : Option ℕ :=
  t.findConnection e.localIp e.remoteIp e.localPort e.remotePort

theorem TCP.lookup_put {t : TCP} {p : ℕ} {conn : TCPConnection}
    (h : (t.memory p).SameEnds conn) (e : Ends) : (t.put p conn).lookup e = t.lookup e :=
  findConnection_put h ..

/-- The packet was emitted by a connection at the other end of `e`. -/
structure Conveys (e : Ends) (flags : U8) (payload : List U8) (packet : Packet) : Prop where
  src : packet.src = e.remoteIp
  emitted : ∃ conn : TCPConnection, conn.localPort = e.remotePort ∧
    conn.remotePort = e.localPort ∧ packet.bytes = emit conn flags payload
  short : payload.length + 20 < 2 ^ 32

/-- A connection's segments go to the other end. -/
theorem conveys_emit {e : Ends} (conn : TCPConnection) (h : conn.At e) (dst : U32) (flags : U8)
    {payload : List U8} (hshort : payload.length + 20 < 2 ^ 32) :
    Conveys e.mirror flags payload
      { src := e.localIp, dst := dst, bytes := emit conn flags payload } :=
  ⟨rfl, ⟨conn, h.2.2.1, h.2.2.2, rfl⟩, hshort⟩

/-- The ends of a connection, seen from each of two machines. -/
def endsOf (e : Ends) : FifoNetwork.Side → Ends
  | .left => e
  | .right => e.mirror

theorem endsOf_other (e : Ends) (s : FifoNetwork.Side) : endsOf e s.other = (endsOf e s).mirror := by
  cases s <;> rfl

/-- The end of `deliver`: the connection is put back, or removed. -/
def TCP.finish (t : TCP) (p : ℕ) (r : TCPConnection × List Packet × Bool) : TCP × List Packet :=
  (if r.2.2 then (t.put p r.1).removeConnection p else t.put p r.1, r.2.1)

@[simp] theorem TCP.finish_false (t : TCP) (p : ℕ) (conn : TCPConnection) (out : List Packet) :
    t.finish p (conn, out, false) = (t.put p conn, out) := rfl

@[simp] theorem TCP.finish_true (t : TCP) (p : ℕ) (conn : TCPConnection) (out : List Packet) :
    t.finish p (conn, out, true) = ((t.put p conn).removeConnection p, out) := rfl

namespace Conveys

variable {e : Ends} {flags : U8} {payload : List U8} {packet : Packet}

theorem header (h : Conveys e flags payload packet) :
    TCPHeader.flags (bufferOf packet.bytes) = flags ∧
      TCPHeader.srcPort (bufferOf packet.bytes) = e.remotePort ∧
      TCPHeader.destPort (bufferOf packet.bytes) = e.localPort ∧
      TCPHeader.dataOffset (bufferOf packet.bytes) = 20 := by
  obtain ⟨-, ⟨conn, hlocal, hremote, hbytes⟩, -⟩ := h
  rw [hbytes, ← hlocal, ← hremote]
  exact ⟨emit_flags _ _ _, (emit_ports _ _ _).1, (emit_ports _ _ _).2, emit_dataOffset _ _ _⟩

theorem length (h : Conveys e flags payload packet) :
    packet.bytes.length = 20 + payload.length := by
  obtain ⟨-, ⟨conn, -, -, hbytes⟩, -⟩ := h
  rw [hbytes, length_emit]

theorem toNat_length (h : Conveys e flags payload packet) :
    (BitVec.ofNat 32 packet.bytes.length).toNat = 20 + payload.length := by
  have hshort := h.short
  rw [h.length, BitVec.toNat_ofNat, Nat.mod_eq_of_lt (by omega)]

/-- What `handle_packet` takes the payload to be. -/
theorem payload_eq (h : Conveys e flags payload packet) :
    (fun i => bufferOf packet.bytes ((20 : U32).toNat + i)) = bufferOf payload ∧
      BitVec.ofNat 32 packet.bytes.length - 20 = BitVec.ofNat 32 payload.length := by
  constructor
  · obtain ⟨-, ⟨conn, -, -, hbytes⟩, -⟩ := h
    funext i
    rw [hbytes]
    exact emit_payload _ _ _ i
  · rw [h.length]
    bv_omega

/-- Where the packet goes on a machine with the address it was sent to. -/
theorem receive_eq (h : Conveys e flags payload packet) {t : TCP} (hip : t.myIp = e.localIp) :
    t.receive packet = match t.lookup e with
      | some p => t.deliver p (bufferOf packet.bytes) (BitVec.ofNat 32 packet.bytes.length)
      | none => match t.connectOnDemand e.remoteIp (bufferOf packet.bytes) with
        | (t, some p) => t.deliver p (bufferOf packet.bytes) (BitVec.ofNat 32 packet.bytes.length)
        | (t, none) => (t, []) := by
  obtain ⟨-, hsrcPort, hdestPort, -⟩ := h.header
  have hlt : ¬ BitVec.ofNat 32 packet.bytes.length < 20 :=
    BitVec.not_lt.mpr (BitVec.le_def.mpr (by rw [h.toNat_length]; exact Nat.le_add_right _ _))
  rw [TCP.receive, TCP.handlePacket, if_neg hlt, h.src, hsrcPort, hdestPort, hip]
  rfl

/-- Behind the search for the connection. -/
theorem deliver_eq (h : Conveys e flags payload packet) (t : TCP) (p : ℕ) :
    ∃ ack, t.deliver p (bufferOf packet.bytes) (BitVec.ofNat 32 packet.bytes.length) =
      t.finish p (({ t.memory p with ackNumber := ack } : TCPConnection).switchState t.myIp flags
        (bufferOf payload) (BitVec.ofNat 32 payload.length)) := by
  obtain ⟨hflags, -, -, hoffset⟩ := h.header
  obtain ⟨hpayload, hsize⟩ := h.payload_eq
  refine ⟨((t.memory p).acknowledge flags (TCPHeader.seqNumber (bufferOf packet.bytes))
    (BitVec.ofNat 32 payload.length)).ackNumber, ?_⟩
  rw [TCP.deliver, hflags, hoffset, hpayload, hsize]
  rfl

/-- **A segment for a known connection.** -/
theorem receive (h : Conveys e flags payload packet) {t : TCP} (hip : t.myIp = e.localIp) {p : ℕ}
    (hfind : t.lookup e = some p) :
    ∃ ack, t.receive packet =
      t.finish p (({ t.memory p with ackNumber := ack } : TCPConnection).switchState t.myIp flags
        (bufferOf payload) (BitVec.ofNat 32 payload.length)) := by
  rw [h.receive_eq hip, hfind]
  exact h.deliver_eq t p

/-- **A segment without a connection** that does not ask for one. -/
theorem receive_unknown (h : Conveys e flags payload packet) {t : TCP} (hip : t.myIp = e.localIp)
    (hfind : t.lookup e = none) (hsyn : hasFlag flags tcpSyn = false) :
    t.receive packet = (t, []) := by
  obtain ⟨hflags, -, -, -⟩ := h.header
  rw [h.receive_eq hip, hfind, TCP.connectOnDemand, hflags, hsyn]
  rfl

end Conveys

/-- The guard against floods lets a `SYN` pass. -/
def TCP.Admits (t : TCP) : Prop := 0 - t.lastSynTime < (1000 : U32) → ¬ t.synCount + 1 > 10

instance (t : TCP) : Decidable t.Admits := inferInstanceAs (Decidable (_ → _))

/-- A connection is made for a `SYN`; only the counters of the guard change besides. -/
theorem TCP.connectOnDemand_of_admits {t : TCP} (h : t.Admits) (srcIp : U32) {data : ℕ → U8}
    (hsyn : hasFlag (TCPHeader.flags data) tcpSyn = true) :
    ∃ u : TCP, u.myIp = t.myIp ∧ u.nextPointer = t.nextPointer ∧ u.memory = t.memory ∧
      u.connections = t.connections ∧ t.connectOnDemand srcIp data =
        ((u.createConnection t.myIp srcIp (TCPHeader.destPort data)
          (TCPHeader.srcPort data)).1.setState t.nextPointer .listen, some t.nextPointer) := by
  rw [connectOnDemand, if_pos hsyn]
  by_cases htime : 0 - t.lastSynTime < (1000 : U32)
  · refine ⟨{ t with synCount := t.synCount + 1 }, rfl, rfl, rfl, rfl, ?_⟩
    dsimp only
    rw [if_pos htime, if_neg (h htime)]
    rfl
  · refine ⟨{ t with synCount := 1, lastSynTime := 0 }, rfl, rfl, rfl, rfl, ?_⟩
    dsimp only
    rw [if_neg htime]
    rfl

/-- **A `SYN` without a connection** reaches a new one. -/
theorem Conveys.receive_syn {e : Ends} {flags : U8} {payload : List U8} {packet : Packet}
    (h : Conveys e flags payload packet) {t : TCP} (hip : t.myIp = e.localIp)
    (hfind : t.lookup e = none) (hsyn : hasFlag flags tcpSyn = true) (halloc : t.Allocated)
    (hadmits : t.Admits) :
    ∃ u : TCP, u.myIp = t.myIp ∧ u.lookup e = some t.nextPointer ∧
      (u.memory t.nextPointer).At e ∧ (u.memory t.nextPointer).state = .listen ∧
      (u.memory t.nextPointer).RingOk ∧ (u.memory t.nextPointer).queued = [] ∧
      ∃ ack, t.receive packet = u.finish t.nextPointer
        (({ u.memory t.nextPointer with ackNumber := ack } : TCPConnection).switchState u.myIp flags
          (bufferOf payload) (BitVec.ofNat 32 payload.length)) := by
  obtain ⟨hflags, hsrcPort, hdestPort, -⟩ := h.header
  obtain ⟨u, huip, hnext, hmemory, hlist, hon⟩ :=
    TCP.connectOnDemand_of_admits hadmits e.remoteIp (hflags ▸ hsyn)
  rw [hsrcPort, hdestPort, hip] at hon
  have hu : u.Allocated := by
    rw [TCP.Allocated, hlist, hnext]
    exact halloc
  set v := (u.createConnection e.localIp e.remoteIp e.localPort e.remotePort).1.setState
    t.nextPointer .listen with hv
  have hconn : v.memory t.nextPointer = { (u.createConnection e.localIp e.remoteIp e.localPort
      e.remotePort).1.memory t.nextPointer with state := .listen } := TCP.put_memory_self ..
  rw [TCP.createConnection, hnext] at hconn
  dsimp only at hconn
  rw [Function.update_self] at hconn
  refine ⟨v, huip, ?_, ?_, ?_, ?_, ?_, ?_⟩
  · rw [TCP.lookup, hv, TCP.findConnection_setState, TCP.findConnection_createConnection hu,
      if_pos ⟨rfl, rfl, rfl, rfl⟩, hnext]
  · rw [hconn]
    exact ⟨rfl, rfl, rfl, rfl⟩
  · rw [hconn]
  · rw [hconn]
    exact ⟨(by decide : (0 : U32).toNat < 4096), Nat.zero_le _, rfl⟩
  · rw [hconn]
    rfl
  · rw [h.receive_eq hip, hfind, hon]
    exact h.deliver_eq v t.nextPointer

/-- The state switch on an established connection, without a `FIN`: data is answered. -/
theorem TCPConnection.switchState_plain {conn : TCPConnection} (hstate : conn.state = .established)
    (myIp : U32) {flags : U8} (hfin : hasFlag flags tcpFin = false) (payload : ℕ → U8)
    (dataSize : U32) :
    ∃ conn', conn.switchState myIp flags payload dataSize =
        (conn', if dataSize = 0 then [] else
          [{ src := myIp, dst := conn.remoteIp, bytes := emit conn' tcpAck [] }], false) ∧
      conn'.state = .established := by
  rw [switchState, hstate]
  dsimp only
  rw [hfin, if_neg Bool.false_ne_true]
  by_cases hzero : dataSize = 0
  · subst hzero
    exact ⟨conn, by rw [if_neg (by decide), if_pos rfl], hstate⟩
  · have hdata : dataSize > 0 := by
      refine BitVec.not_le.mp fun hle => hzero (BitVec.eq_of_toNat_eq ?_)
      simpa using BitVec.le_def.mp hle
    rw [if_pos hdata]
    generalize (if dataSize < tcpBufferSize - conn.recvCount then dataSize
      else tcpBufferSize - conn.recvCount) = n
    have hflags : hasFlag tcpAck tcpSyn = false ∧ hasFlag tcpAck tcpFin = false := by decide
    rw [sendFlags_eq, hflags.1, hflags.2]
    refine ⟨{ conn.storeBytes payload n.toNat with recvCount := conn.recvCount + n }, ?_, ?_⟩
    · rw [if_neg hzero]
      have hseq : ∀ x : U32, x + 0 + 0 = x := fun x => by simp
      simp only [Bool.false_eq_true, if_false, hseq]
      rfl
    · rw [storeBytes]
      exact hstate

/-- The state switch on an established connection, with a `FIN`: it is acknowledged and
answered. -/
theorem TCPConnection.switchState_close {conn : TCPConnection} (hstate : conn.state = .established)
    (myIp : U32) {flags : U8} (hfin : hasFlag flags tcpFin = true) (payload : ℕ → U8)
    (dataSize : U32) :
    ∃ conn', conn.switchState myIp flags payload dataSize =
        ({ conn with state := .lastAck, seqNumber := conn' },
          [{ src := myIp, dst := conn.remoteIp
             bytes := emit { conn with state := .closeWait } tcpAck [] },
            { src := myIp, dst := conn.remoteIp
              bytes := emit { conn with state := .lastAck } (tcpFin ||| tcpAck) [] }], false) := by
  have hflags : hasFlag tcpAck tcpSyn = false ∧ hasFlag tcpAck tcpFin = false := by decide
  have hseq : ∀ x : U32, x + 0 + 0 = x := fun x => by simp
  rw [switchState, hstate]
  dsimp only
  rw [if_pos hfin, sendFlags_eq]
  dsimp only
  rw [sendFlags_eq, hflags.1, hflags.2]
  simp only [Bool.false_eq_true, if_false, hseq]
  exact ⟨_, rfl⟩

end MesaOS.Net
