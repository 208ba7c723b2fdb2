/-
Calls of the interface of `TCP`, one after another.

A call acts on one connection at most, which it finds or makes, and what it does there
depends on this connection alone (`TCPConnection.Acts`).

* `acts_perform` — what a call can do.
-/
import MesaOS.TCPReceive
import MesaOS.TCPLookup

open MachineWord Runs

namespace MesaOS.Net

/-! ### Calls -/

inductive TCPCall where
  | listen (port : U16)
  | connect (destIp : U32) (destPort : U16)
  | close (socketFd : ℕ)
  | send (socketFd : ℕ) (data : ℕ → U8) (size : U32)
  | recv (socketFd : ℕ) (size : U32)
  | segment (srcIp : U32) (data : ℕ → U8) (size : U32)

/-- What a call leaves, the connection it is about, the segments it emits and the bytes it
returns. -/
structure TCPEffect where
  tcp : TCP
  conn : Option ℕ
  out : List Packet
  bytes : List U8

/-- The connection that `handle_packet` finds or makes for a segment. -/
def TCP.connectionFor (t : TCP) (srcIp : U32) (data : ℕ → U8) (size : U32) : Option ℕ :=
  if size < 20 then none
  else
    match t.findConnection t.myIp srcIp (TCPHeader.destPort data) (TCPHeader.srcPort data) with
    | some p => some p
    | none => (t.connectOnDemand srcIp data).2

def TCP.perform (t : TCP) : TCPCall → TCPEffect
  | .listen port =>
    let (t, p) := t.listen port
    { tcp := t, conn := some p, out := [], bytes := [] }
  | .connect destIp destPort =>
    let (t, p, out) := t.connect destIp destPort
    { tcp := t, conn := some p, out := out, bytes := [] }
  | .close fd =>
    let (t, out) := t.close fd
    { tcp := t, conn := some fd, out := out, bytes := [] }
  | .send fd data size =>
    let (t, _, out) := t.send fd data size
    { tcp := t, conn := some fd, out := out, bytes := [] }
  | .recv fd size =>
    let (t, bytes) := t.recv fd size
    { tcp := t, conn := some fd, out := [], bytes := bytes.getD [] }
  | .segment srcIp data size =>
    let (t', out) := t.handlePacket srcIp data size
    { tcp := t', conn := t.connectionFor srcIp data size, out := out, bytes := [] }

/-- A connection as `create_connection` makes it. -/
def TCPConnection.created (localIp remoteIp : U32) (localPort remotePort : U16) : TCPConnection :=
  { localIp := localIp, remoteIp := remoteIp, localPort := localPort, remotePort := remotePort
    state := .closed, seqNumber := 0x12345678, ackNumber := 0
    advertisedWindow := tcpDefaultWindowSize, sendWindowStart := 0x12345678
    sendWindowEnd := 0x12345678 + tcpDefaultWindowSize, recvBuffer := fun _ => 0
    recvStart := 0, recvEnd := 0, recvCount := 0 }

/-- What a call makes of the connection that it is about. -/
inductive TCPConnection.Acts (myIp : U32) (conn : TCPConnection) :
    TCPCall → TCPConnection → List Packet → List U8 → Prop
  | listen (port : U16) : conn.Acts myIp (.listen port) { conn with state := .listen } [] []
  | connect (destIp : U32) (destPort : U16) :
    conn.Acts myIp (.connect destIp destPort)
      { ({ conn with state := .synSent } : TCPConnection).sendFlags myIp tcpSyn |>.1 with
        state := .established }
      (({ conn with state := .synSent } : TCPConnection).sendFlags myIp tcpSyn).2 []
  | close (fd : ℕ) (hstate : conn.state = .established) :
    conn.Acts myIp (.close fd)
      (({ conn with state := .finWait1 } : TCPConnection).sendFlags myIp (tcpFin ||| tcpAck)).1
      (({ conn with state := .finWait1 } : TCPConnection).sendFlags myIp (tcpFin ||| tcpAck)).2 []
  | send (fd : ℕ) (data : ℕ → U8) (size : U32) (hstate : conn.state = .established) :
    conn.Acts myIp (.send fd data size)
      (conn.sendPacket myIp (tcpAck ||| tcpPsh) data size).1
      (conn.sendPacket myIp (tcpAck ||| tcpPsh) data size).2 []
  | recv (fd : ℕ) (size : U32) (hstate : conn.state = .established) :
    conn.Acts myIp (.recv fd size) (conn.takeBytes size).1 [] (conn.takeBytes size).2
  | segment (srcIp : U32) (data : ℕ → U8) (size : U32) :
    conn.Acts myIp (.segment srcIp data size)
      ((conn.acknowledge (TCPHeader.flags data) (TCPHeader.seqNumber data)
        (size - TCPHeader.dataOffset data)).switchState myIp (TCPHeader.flags data)
        (fun i => data ((TCPHeader.dataOffset data).toNat + i))
        (size - TCPHeader.dataOffset data)).1
      ((conn.acknowledge (TCPHeader.flags data) (TCPHeader.seqNumber data)
        (size - TCPHeader.dataOffset data)).switchState myIp (TCPHeader.flags data)
        (fun i => data ((TCPHeader.dataOffset data).toNat + i))
        (size - TCPHeader.dataOffset data)).2.1 []
  /-- a call that fails, or takes the connection off the list -/
  | idle (call : TCPCall) (hcall : ∀ srcIp data size, call ≠ .segment srcIp data size) :
    conn.Acts myIp call conn [] []

/-- The call asks for a connection of its own. -/
def TCPCall.Opens : TCPCall → Prop
  | .listen _ => True
  | .connect _ _ => True
  | _ => False

/-- What a call does to the machine. -/
inductive TCP.Acts (t : TCP) (call : TCPCall) (e : TCPEffect) : Prop where
  | old (p : ℕ) (conn : TCPConnection) (hcall : ¬ call.Opens) (hconn : e.conn = some p)
    (hmemory : e.tcp.memory = Function.update t.memory p conn)
    (hnext : e.tcp.nextPointer = t.nextPointer)
    (hacts : (t.memory p).Acts t.myIp call conn e.out e.bytes)
  /-- a connection that the call has made -/
  | new (localIp remoteIp : U32) (localPort remotePort : U16) (state : TCPState)
    (conn : TCPConnection) (hstate : state ≠ .established) (hconn : e.conn = some t.nextPointer)
    (hmemory : e.tcp.memory = Function.update t.memory t.nextPointer conn)
    (hnext : e.tcp.nextPointer = t.nextPointer + 1)
    (hacts : ({ TCPConnection.created localIp remoteIp localPort remotePort with state := state } :
      TCPConnection).Acts t.myIp call conn e.out e.bytes)
  | none (hconn : e.conn = .none) (hmemory : e.tcp.memory = t.memory)
    (hnext : e.tcp.nextPointer = t.nextPointer)

theorem TCP.createConnection_eq (t : TCP) (localIp remoteIp : U32) (localPort remotePort : U16) :
    t.createConnection localIp remoteIp localPort remotePort =
      ({ t with
        memory := Function.update t.memory t.nextPointer
          (.created localIp remoteIp localPort remotePort)
        nextPointer := t.nextPointer + 1
        connections := t.nextPointer :: t.connections }, t.nextPointer) := rfl

/-- A segment for a connection. -/
theorem TCP.acts_deliver (t : TCP) (p : ℕ) (srcIp : U32) (data : ℕ → U8) (size : U32) :
    ∃ conn, (t.deliver p data size).1.memory = Function.update t.memory p conn ∧
      (t.deliver p data size).1.nextPointer = t.nextPointer ∧
      (t.memory p).Acts t.myIp (.segment srcIp data size) conn (t.deliver p data size).2 [] := by
  refine ⟨(t.switched p data size).1, ?_, (t.deliver_frame p data size).1, .segment srcIp data size⟩
  rw [deliver]
  dsimp only
  split <;> rfl

/-- A call that leaves the connections as they are: it fails, or takes one off the list. -/
theorem TCP.acts_idle (t u : TCP) {call : TCPCall} (hcall : ¬ call.Opens)
    (hsegment : ∀ srcIp data size, call ≠ .segment srcIp data size) (fd : ℕ)
    (hmemory : u.memory = t.memory) (hnext : u.nextPointer = t.nextPointer) :
    t.Acts call { tcp := u, conn := some fd, out := [], bytes := [] } := by
  refine .old fd (t.memory fd) hcall rfl ?_ hnext (.idle call hsegment)
  rw [Function.update_eq_self]
  exact hmemory

/-- A segment that comes in. -/
theorem TCP.acts_segment (t : TCP) (srcIp : U32) (data : ℕ → U8) (size : U32) :
    t.Acts (.segment srcIp data size) (t.perform (.segment srcIp data size)) := by
  rw [TCP.perform, TCP.handlePacket, TCP.connectionFor]
  by_cases hsize : size < 20
  · rw [if_pos hsize, if_pos hsize]
    exact .none rfl rfl rfl
  rw [if_neg hsize, if_neg hsize]
  cases hfind : t.findConnection t.myIp srcIp (TCPHeader.destPort data)
    (TCPHeader.srcPort data) with
  | some p =>
    obtain ⟨conn, hmemory, hnext, hacts⟩ := t.acts_deliver p srcIp data size
    exact .old p conn id rfl hmemory hnext hacts
  | none =>
    obtain ⟨count, time, hdropped | hcreated⟩ := t.connectOnDemand_cases srcIp data
    · rw [hdropped]
      exact .none rfl rfl rfl
    · rw [hcreated, TCP.createConnection_eq]
      dsimp only
      set v := ({ t with
        memory := Function.update t.memory t.nextPointer
          (.created t.myIp srcIp (TCPHeader.destPort data) (TCPHeader.srcPort data))
        nextPointer := t.nextPointer + 1
        connections := t.nextPointer :: t.connections
        synCount := count
        lastSynTime := time } : TCP).setState t.nextPointer .listen with hv
      have hself : v.memory t.nextPointer =
          { TCPConnection.created t.myIp srcIp (TCPHeader.destPort data)
            (TCPHeader.srcPort data) with state := .listen } := by
        rw [hv, TCP.setState, TCP.put_memory_self]
        dsimp only
        rw [Function.update_self]
      obtain ⟨conn, hmemory, hnext, hacts⟩ := v.acts_deliver t.nextPointer srcIp data size
      rw [hself] at hacts
      refine .new _ _ _ _ .listen conn (by decide) rfl ?_ hnext hacts
      dsimp only
      rw [hmemory, hv, TCP.setState, TCP.put]
      dsimp only
      rw [Function.update_idem, Function.update_idem]

/-- **What a call can do.** -/
theorem acts_perform (t : TCP) (call : TCPCall) : t.Acts call (t.perform call) := by
  cases call with
  | listen port =>
    refine .new t.myIp 0 port 0 .closed _ (by decide) rfl ?_ rfl (.listen port)
    rw [TCP.perform, TCP.listen, TCP.createConnection_eq]
    dsimp only
    rw [TCP.setState, TCP.put]
    dsimp only
    rw [Function.update_idem, Function.update_self]
  | connect destIp destPort =>
    set conn : TCPConnection := .created t.myIp destIp t.nextEphemeralPort destPort with hconn
    refine .new t.myIp destIp t.nextEphemeralPort destPort .closed
      { ({ conn with state := .synSent } : TCPConnection).sendFlags t.myIp tcpSyn |>.1 with
        state := .established } (by decide) rfl ?_ rfl ?_
    · rw [TCP.perform, TCP.connect, TCP.createConnection_eq]
      dsimp only
      rw [TCP.put]
      dsimp only
      rw [Function.update_idem, Function.update_self]
    · have hacts : conn.Acts t.myIp (.connect destIp destPort) _ _ [] := .connect destIp destPort
      rw [TCP.perform, TCP.connect, TCP.createConnection_eq]
      dsimp only
      rw [Function.update_self]
      exact hacts
  | close fd =>
    rw [TCP.perform, TCP.close]
    by_cases hfd : fd = 0
    · rw [if_pos hfd]
      exact t.acts_idle _ id (fun _ _ _ => TCPCall.noConfusion) fd rfl rfl
    rw [if_neg hfd]
    by_cases hstate : (t.memory fd).state = .established
    · rw [if_pos hstate]
      exact .old fd _ id rfl rfl rfl (.close fd hstate)
    · rw [if_neg hstate]
      exact t.acts_idle _ id (fun _ _ _ => TCPCall.noConfusion) fd rfl rfl
  | send fd data size =>
    rw [TCP.perform, TCP.send]
    dsimp only
    by_cases hfail : fd = 0 ∨ (t.memory fd).state ≠ .established
    · rw [if_pos hfail]
      exact t.acts_idle _ id (fun _ _ _ => TCPCall.noConfusion) fd rfl rfl
    · rw [if_neg hfail]
      rw [not_or, not_not] at hfail
      exact .old fd _ id rfl rfl rfl (.send fd data size hfail.2)
  | recv fd size =>
    by_cases hfail : fd = 0 ∨ (t.memory fd).state ≠ .established
    · rw [TCP.perform, TCP.recv]
      dsimp only
      rw [if_pos hfail]
      exact t.acts_idle _ id (fun _ _ _ => TCPCall.noConfusion) fd rfl rfl
    · rw [not_or, not_not] at hfail
      rw [TCP.perform, t.recv_eq hfail.1 hfail.2]
      exact .old fd _ id rfl rfl rfl (.recv fd size hfail.2)
  | segment srcIp data size => exact t.acts_segment srcIp data size

end MesaOS.Net
